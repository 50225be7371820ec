import CodeAnalyze.Nf10.Calls
import CodeAnalyze.Nf10.Driver

/-!
# The history of a run

Which entries a run has put into the two rings, and how many completions it has handled.
The state of the card and of the driver is a function of this history, as far as the rings
go, and every step extends it.
-/

namespace CodeAnalyze.Nf10

open Lib.Ring (Marked)

/-- What was given to the card, and how much of it was handled. -/
structure History where
  txGiven : List Entry := []
  txHandled : ℕ := 0
  rxGiven : List Entry := []
  rxHandled : ℕ := 0

/-- The completions of transmissions that a step handles. -/
def Op.txHandles : Op → ℕ
  | .handleTx => 1
  | _ => 0

/-- The completions of receptions that a step handles. -/
def Op.rxHandles : Op → ℕ
  | .handleRx _ _ => 1
  | _ => 0

/-- What a step puts into the TX ring. -/
def State.txGives (s : State) : Op → List Entry
  | .xmit skb _ (some dmaAddr) =>
    if s.card.tx.fits (Card.txClSize skb.len) then [(skb, dmaAddr, Card.txClSize skb.len)] else []
  | _ => []

/-- What a step puts into the RX ring. -/
def State.rxGives (s : State) : Op → List Entry
  | .sendRxDsc alloc dmaAddr => s.card.rxGives dmaAddr alloc
  | .handleRx alloc dmaAddr => s.card.takeRx.rxGives dmaAddr alloc
  | _ => []

/-- The history after a step. -/
def History.next (h : History) (s : State) (op : Op) : History where
  txGiven := h.txGiven ++ s.txGives op
  txHandled := h.txHandled + op.txHandles
  rxGiven := h.rxGiven ++ s.rxGives op
  rxHandled := h.rxHandled + op.rxHandles

/-- The step does not fail to map a packet for which there is room. -/
def MapsOk (s : State) : Op → Prop
  | .xmit skb _ none => s.card.tx.fits (Card.txClSize skb.len) = false
  | _ => True

/-- The TX side of a state is that of the history. -/
structure TxConsistent (s : State) (h : History) : Prop where
  ring : s.card.tx.Agrees h.txHandled h.txGiven
  accepted : s.txAccepted = h.txGiven.map (·.1)
  released : s.card.txReleased = (h.txGiven.take h.txHandled).map (·.1)
  handled_le : h.txHandled ≤ s.txStored
  stored_le : s.txStored ≤ h.txGiven.length
  words : Marked ringSize (fun i => Card.txDone (s.card.hostTxDne (16 * i))) h.txHandled s.txStored

/-- The RX side of a state is that of the history. -/
structure RxConsistent (s : State) (h : History) : Prop where
  ring : s.card.rx.Agrees h.rxHandled h.rxGiven
  posted : s.card.rxPosted = h.rxGiven.map (·.1)
  handled_le : h.rxHandled ≤ s.rxStored
  stored_le : s.rxStored ≤ h.rxGiven.length
  words : Marked ringSize (fun i => Card.rxDone (s.card.hostRxDne (8 * i + 7)))
    h.rxHandled s.rxStored

structure Consistent (s : State) (h : History) : Prop where
  tx : TxConsistent s h
  rx : RxConsistent s h

/-! ## The start -/

theorem consistent_probed (raw : Card) : Consistent (probed raw) {} where
  tx :=
    { ring := Ring.agrees_probed raw.tx
      accepted := rfl
      released := rfl
      handled_le := Nat.le_refl 0
      stored_le := Nat.le_refl 0
      words := by
        refine Lib.Ring.marked_none fun i hi => ?_
        simp only [ringSize] at hi
        have hin : 16 * i < 512 := by omega
        have hword : (probed raw).card.hostTxDne (16 * i) = 0xffffffff := by
          simp [probed, nf10ProbeRings, hin]
        exact (congrArg Card.txDone hword).trans Card.txDone_ones }
  rx :=
    { ring := Ring.agrees_probed raw.rx
      posted := rfl
      handled_le := Nat.le_refl 0
      stored_le := Nat.le_refl 0
      words := by
        refine Lib.Ring.marked_none fun i hi => ?_
        simp only [ringSize] at hi
        have hin : 8 * i + 7 < 256 := by omega
        have hlast : (8 * i + 7) % 8 = 7 := by omega
        have hword : (probed raw).card.hostRxDne (8 * i + 7) = 0xffffffffffffffff := by
          simp [probed, nf10ProbeRings, hin, hlast]
        exact (congrArg Card.rxDone hword).trans Card.rxDone_ones }

/-! ## The TX side of a step -/

variable {s s' : State} {h h' : History} {op : Op}

/-- What the TX side depends on. -/
theorem TxConsistent.frame (hs : TxConsistent s h) (htx : s'.card.tx = s.card.tx)
    (hwords : s'.card.hostTxDne = s.card.hostTxDne) (haccepted : s'.txAccepted = s.txAccepted)
    (hreleased : s'.card.txReleased = s.card.txReleased) (hstored : s'.txStored = s.txStored)
    (hgiven : h'.txGiven = h.txGiven) (hhandled : h'.txHandled = h.txHandled) :
    TxConsistent s' h' where
  ring := by rw [htx, hgiven, hhandled]; exact hs.ring
  accepted := by rw [haccepted, hgiven]; exact hs.accepted
  released := by rw [hreleased, hgiven, hhandled]; exact hs.released
  handled_le := by rw [hstored, hhandled]; exact hs.handled_le
  stored_le := by rw [hstored, hgiven]; exact hs.stored_le
  words := by rw [hwords, hstored, hhandled]; exact hs.words

/-- The word that `work_handler` reads. -/
theorem TxConsistent.txInt_eq (hs : TxConsistent s h) :
    s.card.txInt = s.card.hostTxDne (16 * (h.txHandled % ringSize)) := by
  unfold Card.txInt
  congr 1
  rw [UInt64.toNat_div, hs.ring.rdPtr]
  simp only [UInt64.reduceToNat]
  omega

/-- A completion is there only for a descriptor that was given to the card. -/
theorem TxConsistent.stored_of_done (hs : TxConsistent s h)
    (hdone : Card.txDone s.card.txInt = true) : h.txHandled < s.txStored := by
  rw [hs.txInt_eq] at hdone
  exact (hs.words.mark_head (by decide)).mp hdone

theorem TxConsistent.handled_lt (hs : TxConsistent s h)
    (hdone : Card.txDone s.card.txInt = true) : h.txHandled < h.txGiven.length :=
  Nat.lt_of_lt_of_le (hs.stored_of_done hdone) hs.stored_le

theorem TxConsistent.give (hs : TxConsistent s h) {skb : SkBuff} {dmaAddr : UInt64} {c' : Card}
    (hfits : s.card.tx.fits (Card.txClSize skb.len) = true) (hsent : s.card.Sent skb dmaAddr c')
    (htx : s'.card = c') (haccepted : s'.txAccepted = s.txAccepted ++ [skb])
    (hstored : s'.txStored = s.txStored)
    (hgiven : h'.txGiven = h.txGiven ++ [(skb, dmaAddr, Card.txClSize skb.len)])
    (hhandled : h'.txHandled = h.txHandled) : TxConsistent s' h' := by
  subst htx
  obtain ⟨dscL0, hring⟩ := hsent.tx
  have hle := hs.ring.handled_le
  refine
    { ring := ?_
      accepted := ?_
      released := ?_
      handled_le := by rw [hstored, hhandled]; exact hs.handled_le
      stored_le := ?_
      words := by rw [hsent.hostTxDne, hstored, hhandled]; exact hs.words }
  · rw [hring, hgiven, hhandled]
    exact (hs.ring.give (Card.toNat_txClSize_lt _) hfits skb dmaAddr).writeDsc _ _ _
  · rw [haccepted, hgiven, hs.accepted, List.map_append]
    rfl
  · have hreleased : s'.card.txReleased = s.card.txReleased := by
      unfold Card.txReleased
      rw [hsent.calls]
      simp [KernelCall.txFreed]
    rw [hreleased, hs.released, hgiven, hhandled, List.take_append_of_le_length hle]
  · have := hs.stored_le
    rw [hstored, hgiven, List.length_append]
    omega

theorem TxConsistent.store (hs : TxConsistent s h) (hlt : s.txStored < s.txAccepted.length)
    (htx : s'.card.tx = s.card.tx)
    (hwords : s'.card.hostTxDne =
      Function.update s.card.hostTxDne (16 * (s.txStored % ringSize)) 1)
    (haccepted : s'.txAccepted = s.txAccepted) (hreleased : s'.card.txReleased = s.card.txReleased)
    (hstored : s'.txStored = s.txStored + 1)
    (hgiven : h'.txGiven = h.txGiven) (hhandled : h'.txHandled = h.txHandled) :
    TxConsistent s' h' := by
  have hlen : s.txStored < h.txGiven.length := by
    rw [hs.accepted, List.length_map] at hlt
    exact hlt
  have hroom := hs.ring.length_le
  have hle := hs.handled_le
  refine
    { ring := by rw [htx, hgiven, hhandled]; exact hs.ring
      accepted := by rw [haccepted, hgiven]; exact hs.accepted
      released := by rw [hreleased, hgiven, hhandled]; exact hs.released
      handled_le := by rw [hstored, hhandled]; omega
      stored_le := by rw [hstored, hgiven]; omega
      words := ?_ }
  rw [hstored, hhandled]
  refine hs.words.store hle (by omega) ?_ fun i hi => ?_
  · simp [hwords]
  · have hne : 16 * i ≠ 16 * (s.txStored % ringSize) := by omega
    simp only [hwords, Function.update_of_ne hne]

theorem TxConsistent.handle (hs : TxConsistent s h) (hdone : Card.txDone s.card.txInt = true)
    (hhandle : s.card.TxHandled s'.card) (haccepted : s'.txAccepted = s.txAccepted)
    (hstored : s'.txStored = s.txStored) (hgiven : h'.txGiven = h.txGiven)
    (hhandled : h'.txHandled = h.txHandled + 1) : TxConsistent s' h' := by
  have hlt := hs.stored_of_done hdone
  have hlen := hs.handled_lt hdone
  have hroom := hs.ring.length_le
  have hle := hs.stored_le
  refine
    { ring := by rw [hhandle.tx, hgiven, hhandled]; exact hs.ring.take hlen
      accepted := by rw [haccepted, hgiven]; exact hs.accepted
      released := ?_
      handled_le := by rw [hstored, hhandled]; exact hlt
      stored_le := by rw [hstored, hgiven]; exact hle
      words := ?_ }
  · have hcall : s'.card.txReleased = s.card.txReleased ++ [h.txGiven[h.txHandled].1] := by
      unfold Card.txReleased
      rw [hhandle.calls, List.filterMap_append, hs.ring.entry_rdPtr hlen]
      rfl
    rw [hcall, hs.released, hgiven, hhandled, List.take_succ_eq_append_getElem hlen,
      List.map_append]
    rfl
  · rw [hstored, hhandled]
    refine hs.words.take (by omega) ?_ fun i hi => ?_
    · simp only [hhandle.hostTxDne, hs.ring.index_rdPtr, Nat.mul_comm 16, Function.update_self]
      exact Card.txDone_ones
    · have hne : 16 * i ≠ h.txHandled % ringSize * 16 := by omega
      simp only [hhandle.hostTxDne, hs.ring.index_rdPtr, Function.update_of_ne hne]

/-! ## The RX side of a step -/

/-- What the RX side depends on. -/
theorem RxConsistent.frame (hs : RxConsistent s h) (hrx : s'.card.rx = s.card.rx)
    (hwords : s'.card.hostRxDne = s.card.hostRxDne)
    (hposted : s'.card.rxPosted = s.card.rxPosted) (hstored : s'.rxStored = s.rxStored)
    (hgiven : h'.rxGiven = h.rxGiven) (hhandled : h'.rxHandled = h.rxHandled) :
    RxConsistent s' h' where
  ring := by rw [hrx, hgiven, hhandled]; exact hs.ring
  posted := by rw [hposted, hgiven]; exact hs.posted
  handled_le := by rw [hstored, hhandled]; exact hs.handled_le
  stored_le := by rw [hstored, hgiven]; exact hs.stored_le
  words := by rw [hwords, hstored, hhandled]; exact hs.words

theorem RxConsistent.rxInt_eq (hs : RxConsistent s h) :
    s.card.rxInt = s.card.hostRxDne (8 * (h.rxHandled % ringSize) + 7) := by
  unfold Card.rxInt
  congr 1
  rw [UInt64.toNat_div, hs.ring.rdPtr]
  simp only [UInt64.reduceToNat]
  omega

theorem RxConsistent.stored_of_done (hs : RxConsistent s h)
    (hdone : Card.rxDone s.card.rxInt = true) : h.rxHandled < s.rxStored := by
  rw [hs.rxInt_eq] at hdone
  exact (hs.words.mark_head (by decide)).mp hdone

theorem RxConsistent.handled_lt (hs : RxConsistent s h)
    (hdone : Card.rxDone s.card.rxInt = true) : h.rxHandled < h.rxGiven.length :=
  Nat.lt_of_lt_of_le (hs.stored_of_done hdone) hs.stored_le

/-- The skbs that are allocated for what is put into the ring. -/
theorem allocated_postCalls (given : List Entry) :
    (given.flatMap Card.postCalls).filterMap KernelCall.allocated = given.map (·.1) := by
  induction given with
  | nil => rfl
  | cons e rest ih =>
      rw [List.flatMap_cons, List.filterMap_append, ih]
      rfl

/-- The driver only passes packets on or releases them when they are delivered. -/
theorem allocated_deliveryCalls (c : Card) (skb : SkBuff) (word : UInt64) :
    (c.deliveryCalls skb word).filterMap KernelCall.allocated = [] := by
  unfold Card.deliveryCalls
  split
  · split
    · rfl
    · split <;> rfl
  · rfl

theorem RxConsistent.post (hs : RxConsistent s h) {alloc : Option ℕ} {dmaAddr : UInt64}
    (hpost : s.card.RxPosted dmaAddr alloc s'.card) (hstored : s'.rxStored = s.rxStored)
    (hgiven : h'.rxGiven = h.rxGiven ++ s.card.rxGives dmaAddr alloc)
    (hhandled : h'.rxHandled = h.rxHandled) : RxConsistent s' h' where
  ring := by rw [hgiven, hhandled]; exact hpost.rx hs.ring
  posted := by
    unfold Card.rxPosted
    rw [hpost.calls, List.filterMap_append, allocated_postCalls, hgiven, List.map_append,
      ← hs.posted]
    rfl
  handled_le := by rw [hstored, hhandled]; exact hs.handled_le
  stored_le := by
    have := hs.stored_le
    rw [hstored, hgiven, List.length_append]
    omega
  words := by rw [hpost.hostRxDne, hstored, hhandled]; exact hs.words

theorem RxConsistent.store (hs : RxConsistent s h) {word : UInt64}
    (hlt : s.rxStored < s.card.rxPosted.length) (hword : Card.rxDone word = true)
    (hrx : s'.card.rx = s.card.rx)
    (hwords : s'.card.hostRxDne =
      Function.update s.card.hostRxDne (8 * (s.rxStored % ringSize) + 7) word)
    (hposted : s'.card.rxPosted = s.card.rxPosted) (hstored : s'.rxStored = s.rxStored + 1)
    (hgiven : h'.rxGiven = h.rxGiven) (hhandled : h'.rxHandled = h.rxHandled) :
    RxConsistent s' h' := by
  have hlen : s.rxStored < h.rxGiven.length := by
    rw [hs.posted, List.length_map] at hlt
    exact hlt
  have hroom := hs.ring.length_le
  have hle := hs.handled_le
  refine
    { ring := by rw [hrx, hgiven, hhandled]; exact hs.ring
      posted := by rw [hposted, hgiven]; exact hs.posted
      handled_le := by rw [hstored, hhandled]; omega
      stored_le := by rw [hstored, hgiven]; omega
      words := ?_ }
  rw [hstored, hhandled]
  refine hs.words.store hle (by omega) ?_ fun i hi => ?_
  · simp [hwords, hword]
  · have hne : 8 * i + 7 ≠ 8 * (s.rxStored % ringSize) + 7 := by omega
    simp only [hwords, Function.update_of_ne hne]

theorem RxConsistent.handle (hs : RxConsistent s h) {alloc : Option ℕ} {dmaAddr : UInt64}
    (hdone : Card.rxDone s.card.rxInt = true)
    (hhandle : s.card.RxHandled dmaAddr alloc s'.card) (hstored : s'.rxStored = s.rxStored)
    (hgiven : h'.rxGiven = h.rxGiven ++ s.card.takeRx.rxGives dmaAddr alloc)
    (hhandled : h'.rxHandled = h.rxHandled + 1) : RxConsistent s' h' := by
  have hlt := hs.stored_of_done hdone
  have hlen := hs.handled_lt hdone
  have hroom := hs.ring.length_le
  have hle := hs.stored_le
  refine
    { ring := by rw [hgiven, hhandled]; exact hhandle.rx hs.ring hlen
      posted := ?_
      handled_le := by rw [hstored, hhandled]; exact hlt
      stored_le := ?_
      words := ?_ }
  · obtain ⟨c₁, hcalls⟩ := hhandle.calls
    unfold Card.rxPosted
    rw [hcalls, List.filterMap_append, List.filterMap_cons, List.filterMap_append,
      allocated_postCalls, allocated_deliveryCalls, List.append_nil, hgiven, List.map_append,
      ← hs.posted]
    rfl
  · rw [hstored, hgiven, List.length_append]
    omega
  · rw [hstored, hhandled]
    refine hs.words.take (by omega) ?_ fun i hi => ?_
    · simp only [hhandle.hostRxDne, hs.ring.index_rdPtr, Nat.mul_comm 8, Function.update_self]
      exact Card.rxDone_ones
    · have hne : 8 * i + 7 ≠ h.rxHandled % ringSize * 8 + 7 := by omega
      simp only [hhandle.hostRxDne, hs.ring.index_rdPtr, Function.update_of_ne hne]

/-! ## Steps -/

theorem txFreed_postCalls (given : List Entry) :
    (given.flatMap Card.postCalls).filterMap KernelCall.txFreed = [] := by
  induction given with
  | nil => rfl
  | cons e rest ih =>
      rw [List.flatMap_cons, List.filterMap_append, ih]
      rfl

theorem txFreed_deliveryCalls (c : Card) (skb : SkBuff) (word : UInt64) :
    (c.deliveryCalls skb word).filterMap KernelCall.txFreed = [] := by
  unfold Card.deliveryCalls
  split
  · split
    · rfl
    · split <;> rfl
  · rfl

/-- A step that does not lose a mapping keeps the TX side that of the history. -/
theorem TxConsistent.step (hs : TxConsistent s h) (hok : MapsOk s op)
    (hx : exec s op = some s') : TxConsistent s' (h.next s op) := by
  cases op with
  | xmit skb port dma =>
      simp only [exec, Option.some.injEq] at hx
      subst hx
      cases hfits : s.card.tx.fits (Card.txClSize skb.len) with
      | false =>
          -- a full ring: the packet is dropped
          have hgives : s.txGives (.xmit skb port dma) = [] := by
            cases dma with
            | none => rfl
            | some dmaAddr => simp [State.txGives, hfits]
          rw [Card.nf10privXmit_full _ _ _ _ hfits]
          exact hs.frame rfl rfl rfl rfl rfl (by simp [History.next, hgives]) rfl
      | true =>
          cases dma with
          | none =>
              -- a mapping that fails is excluded
              rw [MapsOk, hfits] at hok
              cases hok
          | some dmaAddr =>
              obtain ⟨c', hret, hsent⟩ := s.card.nf10privXmit_sent skb port dmaAddr hfits
              rw [hret]
              refine hs.give hfits hsent rfl rfl rfl ?_ rfl
              simp [History.next, State.txGives, hfits]
  | sendRxDsc alloc dmaAddr =>
      simp only [exec, Option.some.injEq] at hx
      subst hx
      have hpost := s.card.nf10privSendRxDsc_spec dmaAddr alloc
      refine hs.frame hpost.tx hpost.hostTxDne rfl ?_ rfl (List.append_nil _) rfl
      simp [Card.txReleased, hpost.calls, txFreed_postCalls]
  | storeTx =>
      simp only [exec, Option.ite_none_right_eq_some, Option.some.injEq] at hx
      obtain ⟨hlt, rfl⟩ := hx
      exact hs.store hlt rfl rfl rfl rfl rfl (List.append_nil _) rfl
  | storeRx word =>
      simp only [exec, Option.ite_none_right_eq_some, Option.some.injEq] at hx
      obtain ⟨-, rfl⟩ := hx
      exact hs.frame rfl rfl rfl rfl rfl (List.append_nil _) rfl
  | handleTx =>
      simp only [exec, Option.ite_none_right_eq_some, Option.some.injEq] at hx
      obtain ⟨hdone, rfl⟩ := hx
      exact hs.handle hdone s.card.handleTx_spec rfl rfl (List.append_nil _) rfl
  | handleRx alloc dmaAddr =>
      simp only [exec, Option.ite_none_right_eq_some, Option.some.injEq] at hx
      obtain ⟨-, rfl⟩ := hx
      have hhandle := s.card.handleRx_spec dmaAddr alloc
      obtain ⟨c₁, hcalls⟩ := hhandle.calls
      refine hs.frame hhandle.tx hhandle.hostTxDne rfl ?_ rfl (List.append_nil _) rfl
      change (s.card.handleRx alloc dmaAddr).txReleased = s.card.txReleased
      unfold Card.txReleased
      rw [hcalls, List.filterMap_append, List.filterMap_cons, List.filterMap_append,
        txFreed_postCalls, txFreed_deliveryCalls]
      exact List.append_nil _

/-- Every step keeps the RX side that of the history. -/
theorem RxConsistent.step (hs : RxConsistent s h) (hx : exec s op = some s') :
    RxConsistent s' (h.next s op) := by
  cases op with
  | xmit skb port dma =>
      simp only [exec, Option.some.injEq] at hx
      subst hx
      cases hfits : s.card.tx.fits (Card.txClSize skb.len) with
      | false =>
          rw [Card.nf10privXmit_full _ _ _ _ hfits]
          exact hs.frame rfl rfl rfl rfl (List.append_nil _) rfl
      | true =>
          cases dma with
          | none =>
              rw [Card.nf10privXmit_unmapped _ _ _ hfits]
              exact hs.frame rfl rfl rfl rfl (List.append_nil _) rfl
          | some dmaAddr =>
              obtain ⟨c', hret, hsent⟩ := s.card.nf10privXmit_sent skb port dmaAddr hfits
              rw [hret]
              refine hs.frame hsent.rx hsent.hostRxDne ?_ rfl (List.append_nil _) rfl
              change c'.rxPosted = s.card.rxPosted
              simp [Card.rxPosted, hsent.calls, KernelCall.allocated]
  | sendRxDsc alloc dmaAddr =>
      simp only [exec, Option.some.injEq] at hx
      subst hx
      exact hs.post (s.card.nf10privSendRxDsc_spec dmaAddr alloc) rfl rfl rfl
  | storeTx =>
      simp only [exec, Option.ite_none_right_eq_some, Option.some.injEq] at hx
      obtain ⟨-, rfl⟩ := hx
      exact hs.frame rfl rfl rfl rfl (List.append_nil _) rfl
  | storeRx word =>
      simp only [exec, Option.ite_none_right_eq_some, Option.some.injEq] at hx
      obtain ⟨⟨hlt, hword⟩, rfl⟩ := hx
      exact hs.store hlt hword rfl rfl rfl rfl (List.append_nil _) rfl
  | handleTx =>
      simp only [exec, Option.ite_none_right_eq_some, Option.some.injEq] at hx
      obtain ⟨-, rfl⟩ := hx
      have hhandle := s.card.handleTx_spec
      refine hs.frame hhandle.rx hhandle.hostRxDne ?_ rfl (List.append_nil _) rfl
      simp [Card.rxPosted, hhandle.calls, KernelCall.allocated]
  | handleRx alloc dmaAddr =>
      simp only [exec, Option.ite_none_right_eq_some, Option.some.injEq] at hx
      obtain ⟨hdone, rfl⟩ := hx
      exact hs.handle hdone (s.card.handleRx_spec dmaAddr alloc) rfl rfl rfl

theorem Consistent.step (hs : Consistent s h) (hok : MapsOk s op) (hx : exec s op = some s') :
    Consistent s' (h.next s op) where
  tx := hs.tx.step hok hx
  rx := hs.rx.step hx

end CodeAnalyze.Nf10
