import CodeAnalyze.Nf10.Aligned
import CodeAnalyze.Nf10.History
import Mathlib.Data.List.Count

/-!
# The completions of transmissions, interleaved

A slot holds a completion only when the card has stored one there that no pass of the TX
branch has invalidated.  Where the card stores a completion only in a slot that was
invalidated since the completion before, none is overwritten and none is erased, and each
pass reads the next one.
-/

namespace CodeAnalyze.Nf10

/-- What is in the slots was stored, and the passes read what was stored. -/
structure Completions (s : TxState) : Prop extends Aligned s where
  reads_le : s.reads.length ≤ s.stored
  words : ∀ k, s.invalidated ≤ k → k < s.invalidated + ringSize →
    Card.txDone (s.card.hostTxDne (16 * (k % ringSize))) = true → k < s.stored

theorem completions_probed (raw : Card) : Completions (txProbed raw) where
  toAligned := aligned_probed raw
  reads_le := Nat.le_refl 0
  words := by
    intro k hle hk hdone
    exact ((consistent_probed raw).tx.words k hle hk).mp hdone

variable {s s' : TxState} {op : TxOp}

/-- What the completions depend on. -/
theorem Completions.frame (hs : Completions s) (haligned : Aligned s')
    (hinvalidated : s'.invalidated = s.invalidated) (hreads : s'.reads = s.reads)
    (hstored : s'.stored = s.stored) (hwords : s'.card.hostTxDne = s.card.hostTxDne) :
    Completions s' where
  toAligned := haligned
  reads_le := by rw [hreads, hstored]; exact hs.reads_le
  words := by
    rw [hinvalidated, hwords, hstored]
    exact hs.words

/-- The calls leave the completions. -/
theorem Completions.call (hs : Completions s) (cpu : ℕ) (skb : SkBuff) (port : Port) :
    Completions (s.callStep cpu skb port) :=
  hs.frame (hs.toAligned.frame hs.setUp rfl rfl rfl) rfl rfl rfl rfl

theorem Completions.xmit (hs : Completions s) (cpu : ℕ) (dma : Option UInt64) (x : XmitCall) :
    Completions (s.xmitStep cpu dma x) := by
  obtain ⟨hdne, hwords⟩ := s.card.xmitStatement_dne dma x
  have haligned : Aligned (s.xmitStep cpu dma x) :=
    hs.toAligned.frame (s.card.xmitStatement_setUp dma x hs.setUp) rfl rfl
      (congrArg Nf10mem.rdPtr hdne)
  exact hs.frame haligned rfl rfl rfl hwords

/-- The card stores a completion. -/
theorem Completions.store (hs : Completions s) : Completions s.storeStep where
  toAligned := hs.toAligned.frame hs.setUp rfl rfl rfl
  reads_le := Nat.le_succ_of_le hs.reads_le
  words := by
    intro k hle hk hdone
    change k < s.stored + 1
    have hreads := hs.reads_le
    have hpast : s.invalidated ≤ s.reads.length := past_le s 4
    have hfrom : s.invalidated ≤ k := hle
    have hto : k < s.invalidated + ringSize := hk
    by_cases hslot : k % ringSize = s.stored % ringSize
    · -- a later number in the same slot would be a turn away
      by_contra hge
      have := Lib.Ring.eq_of_mod_eq (by omega) (by omega) hslot.symm
      omega
    · have hne : 16 * (k % ringSize) ≠ 16 * (s.stored % ringSize) := by omega
      have hold : Card.txDone (s.card.hostTxDne (16 * (k % ringSize))) = true := by
        rw [← hdone]
        exact congrArg Card.txDone (Function.update_of_ne hne _ _).symm
      have := hs.words k hfrom hto hold
      omega

/-- `work_handler` finds a completion only where one was stored. -/
theorem Completions.stored_of_done (hs : Completions s) (hpc : s.handler = none)
    (hdone : Card.txDone s.card.txInt = true) : s.reads.length < s.stored := by
  rw [hs.txInt_eq hpc] at hdone
  have hpast : s.invalidated = s.reads.length := past_of_none hpc 4
  refine hs.words _ (by omega) ?_ hdone
  simp only [ringSize]
  omega

theorem Completions.poll (hs : Completions s) (hpc : s.handler = none) :
    Completions s.pollStep := by
  have haligned := hs.toAligned.poll hpc
  have hinv : s.pollStep.invalidated = s.invalidated := past_pollStep hpc 4
  unfold TxState.pollStep at *
  split
  · rename_i hdone
    rw [if_pos hdone] at haligned hinv
    have hlt := hs.stored_of_done hpc hdone
    exact
      { toAligned := haligned
        reads_le := by simpa using Nat.succ_le_of_lt hlt
        words := by rw [hinv]; exact hs.words }
  · exact hs

/-- A pass invalidates the slot of the completion that it has read. -/
theorem Aligned.invalidate (hs : Aligned s) {i : ℕ} (hpc : s.handler = some (.invalidate i)) :
    (s.passStep (.invalidate i)).invalidated = s.invalidated + 1 ∧
      i = s.invalidated % ringSize := by
  obtain ⟨hnew, hold⟩ := past_passStep_self hs hpc (by simp [TxPc.rank])
  simp only [TxPc.rank] at hnew hold
  refine ⟨hnew.trans hold.symm, ?_⟩
  rw [hs.index _ i hpc rfl, ← hold, Nat.add_sub_cancel]

/-- The other statements of a pass leave the slots. -/
theorem passStep_slots {pc : TxPc} (hpc : s.handler = some pc) (hne : ∀ i, pc ≠ .invalidate i) :
    (s.passStep pc).invalidated = s.invalidated ∧
      (s.passStep pc).card.hostTxDne = s.card.hostTxDne ∧ (s.passStep pc).tag = s.tag := by
  have hpast (hrank : pc.rank ≠ 4) : (s.passStep pc).invalidated = s.invalidated :=
    past_passStep_of_ne hpc (by decide) hrank
  cases pc with
  | invalidate i => exact absurd rfl (hne i)
  | _ => exact ⟨hpast (by simp [TxPc.rank]), rfl, rfl⟩

theorem Completions.pass {pc : TxPc} (hs : Completions s) (hpc : s.handler = some pc) :
    Completions (s.passStep pc) := by
  have haligned := hs.toAligned.pass hpc
  by_cases hinvalidate : ∃ i, pc = .invalidate i
  · obtain ⟨i, rfl⟩ := hinvalidate
    obtain ⟨hnext, hslot⟩ := hs.invalidate hpc
    refine { toAligned := haligned, reads_le := hs.reads_le, words := fun k hle hk hdone => ?_ }
    rw [hnext] at hle hk
    by_cases hself : k % ringSize = i
    · -- the slot does not hold a completion any more
      have hword : (s.passStep (.invalidate i)).card.hostTxDne (16 * (k % ringSize)) =
          0xffffffff := by
        rw [hself, Nat.mul_comm]
        exact Function.update_self _ _ _
      rw [hword, Card.txDone_ones] at hdone
      cases hdone
    · have hne : 16 * (k % ringSize) ≠ i * 16 := by omega
      have hword : (s.passStep (.invalidate i)).card.hostTxDne (16 * (k % ringSize)) =
          s.card.hostTxDne (16 * (k % ringSize)) :=
        Function.update_of_ne hne _ _
      rw [hword] at hdone
      refine hs.words k (by omega) ?_ hdone
      -- the number a turn on is in the invalidated slot
      by_contra hge
      apply hself
      have hturn : k = s.invalidated + ringSize := by omega
      rw [hslot, hturn, Nat.add_mod_right]
  · obtain ⟨hinvalidated, hwords, -⟩ :=
      passStep_slots hpc fun i heq => hinvalidate ⟨i, heq⟩
    exact hs.frame haligned hinvalidated rfl rfl hwords

theorem Completions.step (hs : Completions s) (hx : txExec s op = some s') : Completions s' := by
  cases txStep_of_exec hx with
  | call _ => exact hs.call _ _ _
  | xmit _ _ => exact hs.xmit _ _ _
  | store _ => exact hs.store
  | poll hpc => exact hs.poll hpc
  | pass hpc => exact hs.pass hpc

/-! ## In order -/

/-- The card stores a completion only in a slot that was invalidated since the one before. -/
def FreeSlot (s : TxState) : TxOp → Prop
  | .store => s.stored < s.invalidated + ringSize
  | _ => True

/-- The completions are read in order, and those that were not invalidated are in their
slots. -/
structure InOrder (s : TxState) : Prop extends Completions s where
  reads : s.reads = (List.range s.reads.length).map some
  stored_le : s.stored ≤ s.invalidated + ringSize
  slots : ∀ k, s.invalidated ≤ k → k < s.stored →
    s.card.hostTxDne (16 * (k % ringSize)) = 1 ∧ s.tag (k % ringSize) = some k

theorem inOrder_probed (raw : Card) : InOrder (txProbed raw) where
  toCompletions := completions_probed raw
  reads := rfl
  stored_le := Nat.zero_le _
  slots := fun k _ hk => absurd hk (Nat.not_lt_zero k)

/-- What the order depends on. -/
theorem InOrder.frame (h : InOrder s) (hcompletions : Completions s') (hreads : s'.reads = s.reads)
    (hinvalidated : s'.invalidated = s.invalidated) (hstored : s'.stored = s.stored)
    (hwords : s'.card.hostTxDne = s.card.hostTxDne) (htag : s'.tag = s.tag) : InOrder s' where
  toCompletions := hcompletions
  reads := by rw [hreads]; exact h.reads
  stored_le := by rw [hstored, hinvalidated]; exact h.stored_le
  slots := by rw [hinvalidated, hstored, hwords, htag]; exact h.slots

theorem InOrder.store (h : InOrder s) (hroom : s.stored < s.invalidated + ringSize) :
    InOrder s.storeStep where
  toCompletions := h.toCompletions.store
  reads := h.reads
  stored_le := hroom
  slots := by
    intro k hk hks
    have hfrom : s.invalidated ≤ k := hk
    rcases Nat.lt_succ_iff_lt_or_eq.mp hks with hold | rfl
    · have hne : k % ringSize ≠ s.stored % ringSize := fun heq => by
        have := Lib.Ring.eq_of_mod_eq (Nat.le_of_lt hold) (by omega) heq
        omega
      obtain ⟨hword, htag⟩ := h.slots k hfrom hold
      exact ⟨(Function.update_of_ne (by omega) _ _).trans hword,
        (Function.update_of_ne hne _ _).trans htag⟩
    · exact ⟨Function.update_self _ _ _, Function.update_self _ _ _⟩

/-- A pass begins with the completion that is next. -/
theorem InOrder.poll (h : InOrder s) (hpc : s.handler = none) : InOrder s.pollStep := by
  have hcompletions := h.toCompletions.poll hpc
  unfold TxState.pollStep at hcompletions ⊢
  split
  · rename_i hdone
    rw [if_pos hdone] at hcompletions
    have hlt := h.stored_of_done hpc hdone
    have hinvalidated : s.invalidated = s.reads.length := past_of_none hpc 4
    have hrd : Ring.index s.card.tx.dne.rdPtr = s.reads.length % ringSize := by
      rw [Ring.index_eq h.rdPtr, TxState.advanced, past_of_none hpc]
    have htag := (h.slots s.reads.length (by omega) hlt).2
    rw [hrd, htag] at hcompletions ⊢
    have hpast : TxState.invalidated { s with
        handler := some .advance, reads := s.reads ++ [some s.reads.length] } = s.invalidated := by
      rw [hinvalidated, TxState.invalidated, past_of_some rfl]
      simp [TxPc.rank]
    refine
      { toCompletions := hcompletions
        reads := ?_
        stored_le := by rw [hpast]; exact h.stored_le
        slots := by rw [hpast]; exact h.slots }
    change s.reads ++ [some s.reads.length] = _
    rw [List.length_append, List.length_singleton, List.range_succ, List.map_append, ← h.reads]
    rfl
  · exact h

/-- A statement of the TX branch erases no completion but the one that was read. -/
theorem InOrder.pass {pc : TxPc} (h : InOrder s) (hpc : s.handler = some pc) :
    InOrder (s.passStep pc) := by
  have hcompletions := h.toCompletions.pass hpc
  by_cases hinvalidate : ∃ i, pc = .invalidate i
  · obtain ⟨i, rfl⟩ := hinvalidate
    obtain ⟨hnext, hslot⟩ := h.invalidate hpc
    have hle := h.stored_le
    refine
      { toCompletions := hcompletions
        reads := h.reads
        stored_le := ?_
        slots := fun k hk hks => ?_ }
    · rw [hnext]
      exact Nat.le_trans hle (by omega)
    · rw [hnext] at hk
      have hks' : k < s.stored := hks
      have hne : k % ringSize ≠ i := fun heq => by
        have := Lib.Ring.eq_of_mod_eq (b := k) (by omega) (by omega) (hslot.symm.trans heq.symm)
        omega
      obtain ⟨hword, htag⟩ := h.slots k (by omega) hks'
      exact ⟨(Function.update_of_ne (by omega) _ _).trans hword,
        (Function.update_of_ne hne _ _).trans htag⟩
  · obtain ⟨hinvalidated, hwords, htag⟩ :=
      passStep_slots hpc fun i heq => hinvalidate ⟨i, heq⟩
    exact h.frame hcompletions rfl hinvalidated rfl hwords htag

theorem InOrder.step (h : InOrder s) (hfree : FreeSlot s op) (hx : txExec s op = some s') :
    InOrder s' := by
  have hcompletions := h.toCompletions.step hx
  cases txStep_of_exec hx with
  | call _ => exact h.frame hcompletions rfl rfl rfl rfl rfl
  | xmit _ _ => exact h.frame hcompletions rfl rfl rfl (Card.xmitStatement_dne _ _ _).2 rfl
  | store _ => exact h.store hfree
  | poll hpc => exact h.poll hpc
  | pass hpc => exact h.pass hpc

/-- The completions that were read are the first ones, each read once. -/
theorem InOrder.count_reads (h : InOrder s) (k : ℕ) :
    s.reads.count (some k) = if k < s.reads.length then 1 else 0 := by
  rw [h.reads, List.count_map_of_injective _ _ (Option.some_injective ℕ), List.length_map,
    List.length_range]
  split
  · exact List.count_eq_one_of_mem List.nodup_range (List.mem_range.mpr ‹_›)
  · exact List.count_eq_zero_of_not_mem fun hmem => ‹¬_› (List.mem_range.mp hmem)

/-- Where a poll finds nothing, all that is stored was read. -/
theorem InOrder.reads_eq_stored (h : InOrder s) (hpc : s.handler = none)
    (hempty : Card.txDone s.card.txInt = false) : s.reads.length = s.stored := by
  refine Nat.le_antisymm h.reads_le (Nat.not_lt.mp fun hlt => ?_)
  have hword := (h.slots s.reads.length (past_le s 4) hlt).1
  rw [h.txInt_eq hpc, hword, Card.txDone_one] at hempty
  cases hempty

end CodeAnalyze.Nf10
