import CodeAnalyze.Lib.Run
import CodeAnalyze.Nf10.History

/-!
# Ring integrity

What holds of the two rings after every step of a run in which DMA mapping succeeds.  The
rings themselves are always intact; an skb that was received can get lost, though, because
a packet with an invalid length or port is only reported.
-/

namespace CodeAnalyze.Nf10

open Lib (wordSum Along)

/-- What a step does to one ring.  `accepted` are the skbs given to the card so far, and
`released` the skbs that were given back or passed on. -/
structure RingStep (r r' : Ring) (handles : ℕ) (accepted accepted' released released' : List ℕ) :
    Prop where
  intact : r'.Intact
  /-- No entry is overwritten while its descriptor is outstanding. -/
  kept : ∀ i ∈ r.outstanding.drop handles, r'.entry i = r.entry i
  /-- A completion takes the oldest entry and its lines, an accepted skb comes last. -/
  queue : ∃ gives : List Entry, r'.entries = r.entries.drop handles ++ gives ∧
    accepted' = accepted ++ gives.map (·.1.ptr) ∧
    r'.pkt.cnt.toNat + wordSum (·.2.2) (r.entries.take handles) =
      r.pkt.cnt.toNat + wordSum (·.2.2) gives
  /-- A completion releases the skb of the oldest entry. -/
  released : released' = released ++ (r.entries.take handles).map (·.1.ptr)
  /-- Every accepted skb was released once and in order, or is outstanding. -/
  inOrder : accepted' = released' ++ r'.entries.map (·.1.ptr)

/-- After the step both rings are as they should be. -/
def Integrity (s : State) (op : Op) : Prop :=
  ∀ s', exec s op = some s' →
    RingStep s.card.tx s'.card.tx op.txHandles (s.txAccepted.map (·.ptr))
      (s'.txAccepted.map (·.ptr)) (s.card.txReleased.map (·.ptr)) (s'.card.txReleased.map (·.ptr)) ∧
    RingStep s.card.rx s'.card.rx op.rxHandles (s.card.rxPosted.map (·.ptr))
      (s'.card.rxPosted.map (·.ptr)) s.card.rxReleased s'.card.rxReleased

/-- A completion of a reception that is handled has a valid length and port. -/
def ValidPacket (s : State) : Op → Prop
  | .handleRx _ _ => Card.rxValid s.card.rxInt = true
  | _ => True

/-- The packet of a call is mapped. -/
def Op.Maps : Op → Prop
  | .xmit _ _ dma => dma.isSome = true
  | _ => True

theorem Op.Maps.mapsOk {s : State} {op : Op} (h : op.Maps) : MapsOk s op := by
  cases op with
  | xmit skb port dma =>
      cases dma with
      | none => cases h
      | some dmaAddr => trivial
  | _ => trivial

/-! ## The rings -/

/-- What a step does to a ring that agrees with the history, up to the skbs released. -/
theorem RingStep.of_agrees {r r' : Ring} {handled k : ℕ} {given gives : List Entry}
    {released released' : List ℕ} (h : r.Agrees handled given)
    (h' : r'.Agrees (handled + k) (given ++ gives)) (hk : handled + k ≤ given.length)
    (hreleased : released = (given.take handled).map (·.1.ptr))
    (hreleased' : released' = ((given ++ gives).take (handled + k)).map (·.1.ptr)) :
    RingStep r r' k (given.map (·.1.ptr)) ((given ++ gives).map (·.1.ptr)) released released' := by
  have hentries := h.entries_next h' hk
  have htaken : r.entries.take k = (given.drop handled).take k := by rw [h.entries_eq]
  refine
    { intact := h'.intact
      kept := fun i hi => h.entry_kept h' hk hi
      queue := ⟨gives, hentries, List.map_append, ?_⟩
      released := ?_
      inOrder := ?_ }
  · calc r'.pkt.cnt.toNat + wordSum (·.2.2) (r.entries.take k)
        = wordSum (·.2.2) (r.entries.drop k ++ gives) + wordSum (·.2.2) (r.entries.take k) := by
          rw [h'.pktCnt, ← hentries, h'.entries_eq]
      _ = wordSum (·.2.2) (r.entries.take k ++ r.entries.drop k) + wordSum (·.2.2) gives := by
          rw [Lib.wordSum_append, Lib.wordSum_append]
          omega
      _ = r.pkt.cnt.toNat + wordSum (·.2.2) gives := by
          rw [List.take_append_drop, h.entries_eq, h.pktCnt]
  · rw [hreleased', hreleased, htaken, List.take_append_of_le_length hk, List.take_add,
      List.map_append]
  · rw [hreleased', h'.entries_eq, ← List.map_append, List.take_append_drop]

theorem rxFreed_postCalls (given : List Entry) :
    (given.flatMap Card.postCalls).filterMap KernelCall.rxFreed = [] := by
  induction given with
  | nil => rfl
  | cons e rest ih =>
      rw [List.flatMap_cons, List.filterMap_append, ih]
      rfl

/-- The skb of a received packet goes on if the packet is valid. -/
theorem rxFreed_deliveryCalls (c : Card) (skb : SkBuff) (word : UInt64) :
    (c.deliveryCalls skb word).filterMap KernelCall.rxFreed =
      if Card.rxValid word = true then [skb.ptr] else [] := by
  unfold Card.deliveryCalls
  by_cases hvalid : Card.rxValid word = true
  · rw [if_pos hvalid, if_pos hvalid]
    cases hport : Card.rxPort word with
    | none => simp [Card.rxValid, hport] at hvalid
    | some port => cases hup : c.portUp port <;> simp [hup, KernelCall.rxFreed]
  · rw [if_neg hvalid, if_neg hvalid]
    rfl

variable {s s' : State} {h : History} {op : Op}

theorem rxReleased_handleRx (c : Card) (alloc : Option ℕ) (dmaAddr : UInt64) :
    (c.handleRx alloc dmaAddr).rxReleased = c.rxReleased ++
      if Card.rxValid c.rxInt = true then [(c.rx.entry (Ring.index c.rx.dne.rdPtr)).1.ptr]
      else [] := by
  obtain ⟨c₁, hcalls⟩ := (c.handleRx_spec dmaAddr alloc).calls
  unfold Card.rxReleased
  rw [hcalls, List.filterMap_append, List.filterMap_cons, List.filterMap_append,
    rxFreed_postCalls, rxFreed_deliveryCalls]
  rfl

/-- Other steps release no skb of a received packet. -/
theorem rxReleased_other (hx : exec s op = some s') (hop : op.rxHandles = 0) :
    s'.card.rxReleased = s.card.rxReleased := by
  cases op with
  | xmit skb port dma =>
      simp only [exec, Option.some.injEq] at hx
      subst hx
      change (s.card.nf10privXmit skb port dma).2.rxReleased = _
      cases hfits : s.card.tx.fits (Card.txClSize skb.len) with
      | false => rw [Card.nf10privXmit_full _ _ _ _ hfits]
      | true =>
          cases dma with
          | none =>
              rw [Card.nf10privXmit_unmapped _ _ _ hfits]
              rfl
          | some dmaAddr =>
              obtain ⟨c', hret, hsent⟩ := s.card.nf10privXmit_sent skb port dmaAddr hfits
              rw [hret]
              simp [Card.rxReleased, hsent.calls, KernelCall.rxFreed]
  | sendRxDsc alloc dmaAddr =>
      simp only [exec, Option.some.injEq] at hx
      subst hx
      change (s.card.nf10privSendRxDsc alloc dmaAddr).2.rxReleased = _
      unfold Card.rxReleased
      rw [(s.card.nf10privSendRxDsc_spec dmaAddr alloc).calls, List.filterMap_append,
        rxFreed_postCalls, List.append_nil]
  | storeTx =>
      simp only [exec, Option.ite_none_right_eq_some, Option.some.injEq] at hx
      obtain ⟨-, rfl⟩ := hx
      rfl
  | storeRx word =>
      simp only [exec, Option.ite_none_right_eq_some, Option.some.injEq] at hx
      obtain ⟨-, rfl⟩ := hx
      rfl
  | handleTx =>
      simp only [exec, Option.ite_none_right_eq_some, Option.some.injEq] at hx
      obtain ⟨-, rfl⟩ := hx
      change s.card.handleTx.rxReleased = _
      simp [Card.rxReleased, s.card.handleTx_spec.calls, KernelCall.rxFreed]
  | handleRx alloc dmaAddr => cases hop

/-- No completion is handled without a descriptor that was given to the card. -/
theorem Consistent.handles_le (hs : Consistent s h) (hx : exec s op = some s') :
    h.txHandled + op.txHandles ≤ h.txGiven.length ∧
      h.rxHandled + op.rxHandles ≤ h.rxGiven.length := by
  have htx := hs.tx.ring.handled_le
  have hrx := hs.rx.ring.handled_le
  cases op with
  | handleTx =>
      simp only [exec, Option.ite_none_right_eq_some] at hx
      exact ⟨hs.tx.handled_lt hx.1, hrx⟩
  | handleRx alloc dmaAddr =>
      simp only [exec, Option.ite_none_right_eq_some] at hx
      exact ⟨htx, hs.rx.handled_lt hx.1⟩
  | _ => exact ⟨htx, hrx⟩

/-- The skbs that were received and passed on or released are those handled so far. -/
def NoneLost (s : State) (h : History) : Prop :=
  s.card.rxReleased = (h.rxGiven.take h.rxHandled).map (·.1.ptr)

/-- A step loses no skb if the packet it handles is valid. -/
theorem NoneLost.step (hs : Consistent s h) (hlost : NoneLost s h) (hx : exec s op = some s')
    (hvalid : ValidPacket s op) : NoneLost s' (h.next s op) := by
  have hle := (hs.handles_le hx).2
  unfold NoneLost
  change s'.card.rxReleased =
    ((h.rxGiven ++ s.rxGives op).take (h.rxHandled + op.rxHandles)).map (·.1.ptr)
  rw [List.take_append_of_le_length hle]
  cases hop : op.rxHandles with
  | zero => rw [rxReleased_other hx hop, hlost, Nat.add_zero]
  | succ k =>
      cases op with
      | handleRx alloc dmaAddr =>
          simp only [exec, Option.ite_none_right_eq_some, Option.some.injEq] at hx
          obtain ⟨hdone, rfl⟩ := hx
          have hlt := hs.rx.handled_lt hdone
          cases hop
          have hword : Card.rxValid s.card.rxInt = true := hvalid
          change (s.card.handleRx alloc dmaAddr).rxReleased = _
          rw [rxReleased_handleRx, if_pos hword, hs.rx.ring.entry_rdPtr hlt, hlost,
            List.take_succ_eq_append_getElem hlt, List.map_append]
          rfl
      | _ => cases hop

/-- What a step does to the TX ring. -/
theorem Consistent.txStep (hs : Consistent s h) (hok : MapsOk s op) (hx : exec s op = some s') :
    RingStep s.card.tx s'.card.tx op.txHandles (s.txAccepted.map (·.ptr))
      (s'.txAccepted.map (·.ptr)) (s.card.txReleased.map (·.ptr))
      (s'.card.txReleased.map (·.ptr)) := by
  have hs' := hs.step hok hx
  have hstep := RingStep.of_agrees hs.tx.ring hs'.tx.ring (hs.handles_le hx).1 rfl rfl
  rw [hs.tx.accepted, hs'.tx.accepted, hs.tx.released, hs'.tx.released]
  simp only [List.map_map, Function.comp_def]
  exact hstep

/-- What a step does to the RX ring, if no skb gets lost. -/
theorem Consistent.rxStep (hs : Consistent s h) (hok : MapsOk s op) (hx : exec s op = some s')
    (hlost : NoneLost s h) (hlost' : NoneLost s' (h.next s op)) :
    RingStep s.card.rx s'.card.rx op.rxHandles (s.card.rxPosted.map (·.ptr))
      (s'.card.rxPosted.map (·.ptr)) s.card.rxReleased s'.card.rxReleased := by
  have hs' := hs.step hok hx
  have hstep := RingStep.of_agrees hs.rx.ring hs'.rx.ring (hs.handles_le hx).2 hlost hlost'
  rw [hs.rx.posted, hs'.rx.posted]
  simp only [List.map_map, Function.comp_def]
  exact hstep

/-- With a packet that is not valid an skb gets lost. -/
theorem integrity_validPacket (hs : Consistent s h) (hx : exec s op = some s')
    (hgood : Integrity s op) : ValidPacket s op := by
  cases op with
  | handleRx alloc dmaAddr =>
      by_contra hinvalid
      have hreleased := (hgood s' hx).2.released
      simp only [exec, Option.ite_none_right_eq_some, Option.some.injEq] at hx
      obtain ⟨hdone, rfl⟩ := hx
      have hlt := hs.rx.handled_lt hdone
      have hword : ¬Card.rxValid s.card.rxInt = true := hinvalid
      change (s.card.handleRx alloc dmaAddr).rxReleased = _ at hreleased
      rw [rxReleased_handleRx, if_neg hword, hs.rx.ring.entries_eq] at hreleased
      -- the oldest skb should have been added
      have hlen := congrArg List.length hreleased
      simp only [List.append_nil, List.length_append, List.length_map, List.length_take,
        List.length_drop, Op.rxHandles] at hlen
      omega
  | _ => trivial

/-- In a run in which DMA mapping succeeds the rings keep their integrity, and every skb is
released once and in order, exactly if every completion of a reception that is handled has
a valid length and port. -/
theorem ring_integrity_iff (raw : Card) {ops : List Op} {s : State}
    (hmaps : ∀ op ∈ ops, op.Maps) (hrun : ops.foldlM exec (probed raw) = some s) :
    Along exec Integrity (probed raw) ops ↔ Along exec ValidPacket (probed raw) ops := by
  refine Lib.along_congr (I := fun s => ∃ h, Consistent s h ∧ NoneLost s h) ?_ ?_
    ⟨{}, consistent_probed raw, rfl⟩ hmaps hrun
  · intro s op s' hI hmap hx
    obtain ⟨h, hs, hlost⟩ := hI
    refine ⟨integrity_validPacket hs hx, fun hvalid s₁ hx₁ => ?_⟩
    exact ⟨hs.txStep hmap.mapsOk hx₁,
      hs.rxStep hmap.mapsOk hx₁ hlost (hlost.step hs hx₁ hvalid)⟩
  · intro s op s' hI hmap hgood hx
    obtain ⟨h, hs, hlost⟩ := hI
    exact ⟨h.next s op, hs.step hmap.mapsOk hx,
      hlost.step hs hx (integrity_validPacket hs hx hgood)⟩

/-- A packet is sent and its completion handled, and so is one that was received. -/
def oneEach : List Op :=
  [.sendRxDsc (some 1) 0x1000, .xmit ⟨2, 60⟩ 0 (some 0x2000), .storeTx, .handleTx,
    .storeRx 0x0200003c, .handleRx (some 3) 0x3000]

theorem ring_integrity_iff_oneEach :
    Along exec Integrity (probed Card.zeroed) oneEach ↔
      Along exec ValidPacket (probed Card.zeroed) oneEach :=
  ring_integrity_iff Card.zeroed
    (s := (oneEach.foldlM exec (probed Card.zeroed)).get (by decide +kernel))
    (by simp [oneEach, Op.Maps]) (Option.some_get _).symm

/-- A frame of 1518 bytes is received, as one with a VLAN tag. -/
def longFrame : List Op := [.sendRxDsc (some 1) 0x1000, .storeRx 0x020005ee, .handleRx none 0]

/-- It is taken from the ring, and its skb is neither passed on nor released. -/
theorem longFrame_lost :
    (longFrame.foldlM exec (probed Card.zeroed)).isSome = true ∧ (∀ op ∈ longFrame, op.Maps) ∧
      ¬Along exec Integrity (probed Card.zeroed) longFrame := by
  refine ⟨by decide +kernel, by simp [longFrame, Op.Maps], ?_⟩
  intro hgood
  obtain ⟨-, hgood⟩ := hgood
  obtain ⟨-, hgood⟩ := hgood _ rfl
  obtain ⟨hgood, -⟩ := hgood _ (Option.some_get (by decide +kernel)).symm
  have hreleased := (hgood _ (Option.some_get (by decide +kernel)).symm).2.released
  revert hreleased
  decide +kernel

end CodeAnalyze.Nf10
