import CodeAnalyze.Nf10.History
import CodeAnalyze.Nf10.Polling

/-!
# The rings, while `work_handler` polls

The RX ring belongs to `work_handler`, and outside its RX branch it is the queue of what was
given to the card.  The branch invalidates its slot before it gives the descriptor back, so
that the card never stores a completion in a slot that is invalidated later.
-/

namespace CodeAnalyze.Nf10

open Lib.Ring (Marked)

/-! ## The RX side -/

/-- The RX branches, out of one, that have not invalidated their slot. -/
def LoopPc.rxAhead : LoopPc → ℕ
  | rx .advance => 1
  | rx (.invalidate _) => 1
  | _ => 0

/-- The RX branches that have invalidated their slot. -/
def PollState.rxInvalidated (p : PollState) : ℕ := p.rxReads - p.pc.rxAhead

/-- The RX ring, wherever the branch is in taking the oldest descriptor back. -/
def RxAt (r : Ring) (reads : ℕ) (given : List Entry) : LoopPc → Prop
  | .rx .advance => ∃ handled, handled + 1 = reads ∧ r.Agrees handled given
  | .rx (.invalidate i) => ∃ handled r₀, handled + 1 = reads ∧ Ring.Agrees r₀ handled given ∧
      r = r₀.advanceRd ∧ i = Ring.index r₀.dne.rdPtr
  | .rx (.unmap i) => ∃ handled r₀, handled + 1 = reads ∧ Ring.Agrees r₀ handled given ∧
      r = r₀.advanceRd ∧ i = Ring.index r₀.dne.rdPtr
  | .rx (.subPkt i _) => ∃ handled r₀, handled + 1 = reads ∧ Ring.Agrees r₀ handled given ∧
      r = r₀.advanceRd ∧ i = Ring.index r₀.dne.rdPtr
  | .rx (.decDsc _) => ∃ handled r₀, handled + 1 = reads ∧ Ring.Agrees r₀ handled given ∧
      r = r₀.advanceRd.subPkt (Ring.index r₀.dne.rdPtr)
  | _ => r.Agrees reads given

/-- The completion buffers were read, and not handled yet. -/
def LoopPc.hasRead : LoopPc → Bool
  | testTx | tx | testRx => true
  | _ => false

/-- The RX side, and what was given to the card. -/
structure RxOk (p : PollState) (given : List Entry) : Prop where
  posted : p.card.rxPosted = given.map (·.1)
  ring : RxAt p.card.rx p.rxReads given p.pc
  reads_le : p.rxReads ≤ p.rxStored
  stored_le : p.rxStored ≤ given.length
  words : Marked ringSize (fun i => Card.rxDone (p.card.hostRxDne (8 * i + 7)))
    p.rxInvalidated p.rxStored
  found : p.pc.hasRead = true → Card.rxDone p.rxInt = true → p.rxReads < p.rxStored
  seen : Card.rxDone p.rxInt = false → p.rxSeen ≤ p.rxReads

/-- The descriptors given are less than a turn ahead of the slots invalidated. -/
theorem RxAt.length_le {r : Ring} {reads : ℕ} {given : List Entry} {pc : LoopPc}
    (h : RxAt r reads given pc) : given.length ≤ reads - pc.rxAhead + ringSize := by
  have htaken {handled : ℕ} {r₀ : Ring} (hreads : handled + 1 = reads)
      (hring : r₀.Agrees handled given) : given.length ≤ reads - 1 + ringSize := by
    have := hring.length_le
    omega
  cases pc with
  | rx pc =>
      cases pc with
      | advance =>
          obtain ⟨handled, hreads, hring⟩ := h
          exact htaken hreads hring
      | invalidate i =>
          obtain ⟨handled, r₀, hreads, hring, -⟩ := h
          exact htaken hreads hring
      | unmap i =>
          obtain ⟨handled, r₀, hreads, hring, -⟩ := h
          exact Nat.le_trans (htaken hreads hring) (by simp [LoopPc.rxAhead])
      | subPkt i skb =>
          obtain ⟨handled, r₀, hreads, hring, -⟩ := h
          exact Nat.le_trans (htaken hreads hring) (by simp [LoopPc.rxAhead])
      | decDsc skb =>
          obtain ⟨handled, r₀, hreads, hring, -⟩ := h
          exact Nat.le_trans (htaken hreads hring) (by simp [LoopPc.rxAhead])
      | send skb => exact Ring.Agrees.length_le h
      | deliver skb => exact Ring.Agrees.length_le h
  | _ => exact Ring.Agrees.length_le h

variable {p p' : PollState} {op : PollOp} {given : List Entry}

/-- Outside the branch the ring is the queue. -/
theorem rxAt_iff {r : Ring} {reads : ℕ} {pc : LoopPc} (hpc : ∀ q, pc ≠ .rx q) :
    RxAt r reads given pc ↔ r.Agrees reads given := by
  cases pc with
  | rx q => exact absurd rfl (hpc q)
  | _ => exact Iff.rfl

theorem rxAhead_eq_zero {pc : LoopPc} (hpc : ∀ q, pc ≠ .rx q) : pc.rxAhead = 0 := by
  cases pc with
  | rx q => exact absurd rfl (hpc q)
  | _ => rfl

/-- What the RX side depends on. -/
theorem RxOk.frame (h : RxOk p given) (hposted : p'.card.rxPosted = p.card.rxPosted)
    (hwords : p'.card.hostRxDne = p.card.hostRxDne)
    (hring : RxAt p'.card.rx p.rxReads given p'.pc) (hahead : p'.pc.rxAhead = p.pc.rxAhead)
    (hreads : p'.rxReads = p.rxReads) (hstored : p'.rxStored = p.rxStored)
    (hfound : p'.pc.hasRead = true → Card.rxDone p'.rxInt = true → p.rxReads < p.rxStored)
    (hseen : Card.rxDone p'.rxInt = false → p'.rxSeen ≤ p.rxReads) : RxOk p' given := by
  have hinvalidated : p'.rxInvalidated = p.rxInvalidated := by
    unfold PollState.rxInvalidated
    rw [hreads, hahead]
  exact
    { posted := hposted.trans h.posted
      ring := by rw [hreads]; exact hring
      reads_le := by rw [hreads, hstored]; exact h.reads_le
      stored_le := by rw [hstored]; exact h.stored_le
      words := by rw [hwords, hinvalidated, hstored]; exact h.words
      found := by rw [hreads, hstored]; exact hfound
      seen := by rw [hreads]; exact hseen }

/-- A step outside the branch, which leaves the RX side. -/
theorem RxOk.outside (h : RxOk p given) (hpc : ∀ q, p.pc ≠ .rx q) (hpc' : ∀ q, p'.pc ≠ .rx q)
    (hsame : p.card.SameRx p'.card) (hreads : p'.rxReads = p.rxReads)
    (hstored : p'.rxStored = p.rxStored)
    (hfound : p'.pc.hasRead = true → Card.rxDone p'.rxInt = true → p.rxReads < p.rxStored)
    (hseen : Card.rxDone p'.rxInt = false → p'.rxSeen ≤ p.rxReads) : RxOk p' given := by
  obtain ⟨hrx, hwords, hposted⟩ := hsame
  refine h.frame hposted hwords ?_ ?_ hreads hstored hfound hseen
  · rw [hrx, rxAt_iff hpc']
    exact (rxAt_iff hpc).mp h.ring
  · rw [rxAhead_eq_zero hpc, rxAhead_eq_zero hpc']

/-- The others leave the RX side. -/
theorem RxOk.others (h : RxOk p given) {txs : TxState} (hsame : p.card.SameRx txs.card) :
    RxOk { p with txs := txs } given := by
  obtain ⟨hrx, hwords, hposted⟩ := hsame
  have hring := h.ring
  have hmarks := h.words
  rw [← hrx] at hring
  rw [← hwords] at hmarks
  exact
    { posted := hposted.trans h.posted
      ring := hring
      reads_le := h.reads_le
      stored_le := h.stored_le
      words := hmarks
      found := h.found
      seen := h.seen }

/-- The word that is read outside the branch. -/
theorem RxOk.rxDone_iff (h : RxOk p given) (hpc : ∀ q, p.pc ≠ .rx q) :
    Card.rxDone p.card.rxInt = true ↔ p.rxReads < p.rxStored := by
  have hring : p.card.rx.Agrees p.rxReads given := (rxAt_iff hpc).mp h.ring
  have hinvalidated : p.rxInvalidated = p.rxReads := by
    rw [PollState.rxInvalidated, rxAhead_eq_zero hpc, Nat.sub_zero]
  have hword : p.card.rxInt = p.card.hostRxDne (8 * (p.rxReads % ringSize) + 7) := by
    unfold Card.rxInt
    congr 1
    rw [UInt64.toNat_div, hring.rdPtr]
    simp only [UInt64.reduceToNat]
    omega
  have hmarks := h.words
  rw [hinvalidated] at hmarks
  rw [hword]
  exact hmarks.mark_head (by decide)

/-- The card stores a completion for a descriptor that it was given. -/
theorem RxOk.storeRx (h : RxOk p given) {word : UInt64} (hlt : p.rxStored < p.card.rxPosted.length)
    (hword : Card.rxDone word = true) : RxOk (p.storeRx word) given := by
  have hlen : p.rxStored < given.length := by
    rw [h.posted, List.length_map] at hlt
    exact hlt
  have hroom : p.rxStored < p.rxInvalidated + ringSize :=
    Nat.lt_of_lt_of_le hlen h.ring.length_le
  have hreads := h.reads_le
  have hle : p.rxInvalidated ≤ p.rxReads := Nat.sub_le _ _
  refine
    { posted := h.posted
      ring := h.ring
      reads_le := Nat.le_succ_of_le hreads
      stored_le := hlen
      words := ?_
      found := fun hread hdone => Nat.lt_succ_of_lt (h.found hread hdone)
      seen := h.seen }
  refine Marked.store h.words (Nat.le_trans hle hreads) hroom ?_ fun i hi => ?_
  · change Card.rxDone (Function.update p.card.hostRxDne (8 * (p.rxStored % ringSize) + 7) word
      (8 * (p.rxStored % ringSize) + 7)) = true
    rw [Function.update_self]
    exact hword
  · have hne : 8 * i + 7 ≠ 8 * (p.rxStored % ringSize) + 7 := by omega
    exact congrArg Card.rxDone (Function.update_of_ne hne _ _)

/-- A descriptor is given to the card. -/
theorem RxOk.post (h : RxOk p given) {alloc : Option ℕ} {dmaAddr : UInt64}
    (hring : p.card.rx.Agrees p.rxReads given)
    (hpost : p.card.RxPosted dmaAddr alloc p'.card)
    (hring' : ∀ given', p'.card.rx.Agrees p.rxReads given' → RxAt p'.card.rx p.rxReads given' p'.pc)
    (hahead : p'.pc.rxAhead = p.pc.rxAhead) (hread : p'.pc.hasRead = false)
    (hreads : p'.rxReads = p.rxReads) (hstored : p'.rxStored = p.rxStored)
    (hseen : Card.rxDone p'.rxInt = false → p'.rxSeen ≤ p.rxReads) :
    RxOk p' (given ++ p.card.rxGives dmaAddr alloc) := by
  have hinvalidated : p'.rxInvalidated = p.rxInvalidated := by
    unfold PollState.rxInvalidated
    rw [hreads, hahead]
  refine
    { posted := ?_
      ring := by rw [hreads]; exact hring' _ (hpost.rx hring)
      reads_le := by rw [hreads, hstored]; exact h.reads_le
      stored_le := ?_
      words := by rw [hpost.hostRxDne, hinvalidated, hstored]; exact h.words
      found := fun hread' => by rw [hread] at hread'; cases hread'
      seen := by rw [hreads]; exact hseen }
  · unfold Card.rxPosted
    rw [hpost.calls, List.filterMap_append, allocated_postCalls, List.map_append, ← h.posted]
    rfl
  · have := h.stored_le
    rw [hstored, List.length_append]
    omega

/-! ## The RX branch -/

/-- The slot of the completion is invalidated before its descriptor is given back. -/
theorem RxOk.invalidate (h : RxOk p given) {i : ℕ} (hpc : p.pc = .rx (.invalidate i)) :
    RxOk ((p.setCard (p.card.rxInvalidate i)).goto (.rx (.unmap i))) given := by
  have hring := h.ring
  rw [hpc] at hring
  have hroom : given.length ≤ p.rxInvalidated + ringSize := h.ring.length_le
  obtain ⟨handled, r₀, hreads, hagrees, hr, rfl⟩ := hring
  have hinvalidated : p.rxInvalidated = handled := by
    rw [PollState.rxInvalidated, hpc, ← hreads]
    rfl
  have hslot : Ring.index r₀.dne.rdPtr = p.rxInvalidated % ringSize := by
    rw [hagrees.index_rdPtr, hinvalidated]
  have hstored := h.stored_le
  refine
    { posted := h.posted
      ring := ⟨handled, r₀, hreads, hagrees, hr, rfl⟩
      reads_le := h.reads_le
      stored_le := hstored
      words := ?_
      found := fun hread => by cases hread
      seen := h.seen }
  have hnext : ((p.setCard (p.card.rxInvalidate (Ring.index r₀.dne.rdPtr))).goto
      (.rx (.unmap (Ring.index r₀.dne.rdPtr)))).rxInvalidated = p.rxInvalidated + 1 := by
    rw [hinvalidated, hreads]
    rfl
  rw [hnext, hslot]
  refine Marked.take h.words (Nat.le_trans hstored hroom) ?_ fun i hi => ?_
  · change Card.rxDone (Function.update p.card.hostRxDne (p.rxInvalidated % ringSize * 8 + 7) _
      (8 * (p.rxInvalidated % ringSize) + 7)) = false
    rw [Nat.mul_comm 8, Function.update_self]
    exact Card.rxDone_ones
  · have hne : 8 * i + 7 ≠ p.rxInvalidated % ringSize * 8 + 7 := by omega
    exact congrArg Card.rxDone (Function.update_of_ne hne _ _)

/-- A statement of the branch. -/
theorem RxOk.branch (h : RxOk p given) {pc : RxPc} (hpc : p.pc = .rx pc) (alloc : Option ℕ)
    (dmaAddr : UInt64) : ∃ given', RxOk (p.loopStep alloc dmaAddr) given' := by
  have hring := h.ring
  rw [hpc] at hring
  simp only [PollState.loopStep, hpc]
  cases pc with
  | advance =>
      obtain ⟨handled, hreads, hagrees⟩ := hring
      exact ⟨given, h.frame rfl rfl ⟨handled, _, hreads, hagrees, rfl, rfl⟩ (by rw [hpc]; rfl) rfl rfl
        (fun hread => by cases hread) h.seen⟩
  | invalidate i => exact ⟨given, h.invalidate hpc⟩
  | unmap i =>
      refine ⟨given, h.frame ?_ rfl hring (by rw [hpc]; rfl) rfl rfl
        (fun hread => by cases hread) h.seen⟩
      simp [Card.rxPosted, Card.rxStatement, Card.rxUnmap, Card.call, PollState.goto,
        PollState.setCard, PollState.card, KernelCall.allocated]
  | subPkt i skb =>
      obtain ⟨handled, r₀, hreads, hagrees, hr, rfl⟩ := hring
      refine ⟨given, h.frame rfl rfl ⟨handled, r₀, hreads, hagrees, ?_⟩ (by rw [hpc]; rfl) rfl rfl
        (fun hread => by cases hread) h.seen⟩
      rw [← hr]
      rfl
  | decDsc skb =>
      obtain ⟨handled, r₀, hreads, hagrees, hr⟩ := hring
      refine ⟨given, h.frame rfl rfl ?_ (by rw [hpc]; rfl) rfl rfl
        (fun hread => by cases hread) h.seen⟩
      -- the descriptor is taken back
      have hlt : handled < given.length := by
        have := h.reads_le
        have := h.stored_le
        omega
      have htake := hagrees.take hlt
      rw [hreads] at htake
      change (p.card.rx.decDsc).Agrees p.rxReads given
      rw [hr]
      exact htake
  | send skb =>
      exact ⟨_, h.post hring (p.card.nf10privSendRxDsc_spec dmaAddr alloc) (fun _ => id)
        (by rw [hpc]; rfl) rfl rfl rfl h.seen⟩
  | deliver skb =>
      have hcard : ((p.setCard (p.card.rxDeliver skb p.rxInt)).goto .count).card =
          { p.card with calls := p.card.calls ++ p.card.deliveryCalls skb p.rxInt } :=
        p.card.rxDeliver_eq skb p.rxInt
      have hwords := congrArg Card.hostRxDne hcard
      refine ⟨given, h.frame ?_ ?_ ?_ (by rw [hpc]; rfl) rfl rfl
        (fun hread => by cases hread) h.seen⟩
      · change ((p.setCard (p.card.rxDeliver skb p.rxInt)).goto .count).card.rxPosted = _
        rw [hcard, Card.rxPosted, List.filterMap_append, allocated_deliveryCalls, List.append_nil]
        rfl
      · exact hwords
      · change RxAt ((p.setCard (p.card.rxDeliver skb p.rxInt)).goto .count).card.rx _ _ _
        rw [hcard]
        exact hring

/-! ## The steps -/

/-- A branch begins when a completion was read. -/
theorem RxOk.begin (h : RxOk p given) (hpc : p.pc = .testRx) (hdone : Card.rxDone p.rxInt = true) :
    RxOk { p with irqDone := false, rxReads := p.rxReads + 1, pc := .rx .advance } given := by
  have hring : RxAt p.card.rx p.rxReads given p.pc := h.ring
  rw [hpc] at hring
  have hwords := h.words
  rw [PollState.rxInvalidated, hpc] at hwords
  exact
    { posted := h.posted
      ring := ⟨p.rxReads, rfl, hring⟩
      reads_le := h.found (by rw [hpc]; rfl) hdone
      stored_le := h.stored_le
      words := hwords
      found := fun hread => by cases hread
      seen := fun hempty => Nat.le_succ_of_le (h.seen hempty) }

theorem RxOk.step (h : RxOk p given) (alloc : Option ℕ) (dmaAddr : UInt64) :
    ∃ given', RxOk (p.loopStep alloc dmaAddr) given' := by
  -- a statement outside the branch that leaves what was read
  have hquiet {p' : PollState} (hpc : ∀ q, p.pc ≠ .rx q) (hpc' : ∀ q, p'.pc ≠ .rx q)
      (hsame : p.card.SameRx p'.card)
      (hlocals : (p'.rxReads, p'.rxStored, p'.rxInt, p'.rxSeen) =
        (p.rxReads, p.rxStored, p.rxInt, p.rxSeen))
      (hread : p'.pc.hasRead = true → p.pc.hasRead = true) : ∃ given', RxOk p' given' := by
    simp only [Prod.mk.injEq] at hlocals
    obtain ⟨hreads, hstored, hint, hseen⟩ := hlocals
    refine ⟨given, h.outside hpc hpc' hsame hreads hstored ?_ ?_⟩
    · rw [hint]
      exact fun hread' => h.found (hread hread')
    · rw [hint, hseen]
      exact h.seen
  have hsame : p.card.SameRx p.card := ⟨rfl, rfl, rfl⟩
  cases hpc : p.pc with
  | rx pc => exact h.branch hpc alloc dmaAddr
  | readRx =>
      simp only [PollState.loopStep, hpc]
      have hword := h.rxDone_iff (by simp [hpc])
      refine ⟨given, h.outside (by simp [hpc]) (by simp) hsame rfl rfl (fun _ => hword.mp) ?_⟩
      intro hempty
      have hempty' : Card.rxDone p.card.rxInt = false := hempty
      by_contra hlt
      rw [hword.mpr (Nat.not_le.mp hlt)] at hempty'
      cases hempty'
  | testRx =>
      simp only [PollState.loopStep, hpc]
      split
      · exact ⟨given, h.begin hpc ‹_›⟩
      · exact hquiet (by simp [hpc]) (by simp [PollState.goto]) hsame rfl (fun hread => by cases hread)
  | loop =>
      simp only [PollState.loopStep, hpc]
      split
      · exact hquiet (by simp [hpc]) (by simp [PollState.goto]) hsame rfl (fun hread => by cases hread)
      · split
        · exact hquiet (by simp [hpc]) (by simp) hsame rfl (fun hread => by cases hread)
        · exact hquiet (by simp [hpc]) (by simp [PollState.goto]) hsame rfl
            (fun hread => by cases hread)
  | readTx =>
      simp only [PollState.loopStep, hpc]
      refine hquiet (by simp [hpc]) (by simp) ?_ rfl (fun hread => by cases hread)
      change p.card.SameRx p.txs.pollStep.card
      rw [pollStep_card]
      exact hsame
  | testTx =>
      simp only [PollState.loopStep, hpc]
      split
      · exact hquiet (by simp [hpc]) (by simp) hsame rfl (fun _ => by rw [hpc]; rfl)
      · exact hquiet (by simp [hpc]) (by simp [PollState.goto]) hsame rfl (fun _ => by rw [hpc]; rfl)
  | tx =>
      simp only [PollState.loopStep, hpc]
      split
      · exact hquiet (by simp [hpc]) (by simp [PollState.goto]) hsame rfl (fun _ => by rw [hpc]; rfl)
      · refine hquiet (by simp [hpc]) ?_ (p.card.sameRx_txStatement _) rfl (fun _ => by rw [hpc]; rfl)
        intro q
        dsimp only
        split <;> simp
  | count =>
      simp only [PollState.loopStep, hpc]
      split
      · exact hquiet (by simp [hpc]) (by simp) hsame rfl (fun hread => by cases hread)
      · exact hquiet (by simp [hpc]) (by simp) hsame rfl (fun hread => by cases hread)
  | returned =>
      simp only [PollState.loopStep, hpc]
      exact ⟨given, h⟩
  | _ =>
      simp only [PollState.loopStep, hpc]
      exact hquiet (by simp [hpc]) (by simp [PollState.goto]) hsame rfl (fun hread => by cases hread)

theorem RxOk.exec (h : RxOk p given) (hx : pollExec p op = some p') :
    ∃ given', RxOk p' given' := by
  cases pollStep_of_exec hx with
  | tx _ htx => exact ⟨given, h.others (txExec_sameRx htx)⟩
  | storeRx hlt hword => exact ⟨given, h.storeRx hlt hword⟩
  | @sendRxDsc alloc dmaAddr hpc =>
      have hring := h.ring
      rw [hpc] at hring
      refine ⟨_, h.post hring (p.card.nf10privSendRxDsc_spec dmaAddr alloc) ?_ rfl ?_ rfl rfl h.seen⟩
      · intro given' hring'
        change RxAt _ _ _ p.pc
        rw [hpc]
        exact hring'
      · change p.pc.hasRead = false
        rw [hpc]
        rfl
  | enter hpc =>
      exact ⟨given, h.outside (by simp [hpc]) (by simp [PollState.enter]) ⟨rfl, rfl, rfl⟩ rfl rfl
        (fun hread => by cases hread) h.seen⟩
  | step _ => exact h.step _ _

theorem rxOk_probed (raw : Card) : RxOk (pollProbed raw) [] where
  posted := rfl
  ring := Ring.agrees_probed raw.rx
  reads_le := Nat.le_refl 0
  stored_le := Nat.le_refl 0
  words := (consistent_probed raw).rx.words
  found := fun hread => by cases hread
  seen := fun _ => Nat.le_refl 0

end CodeAnalyze.Nf10
