import CodeAnalyze.Nf10.Interleaved
import CodeAnalyze.Nf10.Rings

/-!
# The read pointer of the TX branch, interleaved

How far a pass of the TX branch is, and what its local variable `index` and the read pointer
of the completion buffer are in the meantime.  Nobody else moves the read pointer, so that
this holds whatever the calls of `nf10priv_xmit` and the card do.
-/

namespace CodeAnalyze.Nf10

/-! ## Where a pass is -/

namespace TxPc

/-- The statements of a pass before the next one. -/
def rank : TxPc → ℕ
  | advance => 0
  | release _ => 1
  | subPkt _ => 2
  | decDsc _ => 3
  | invalidate _ => 4
  | testDsc => 5
  | testPkt => 6
  | wake _ => 7

/-- The local variable `index`, while it is used. -/
def index : TxPc → Option ℕ
  | release i => some i
  | subPkt i => some i
  | decDsc i => some i
  | invalidate i => some i
  | _ => none

/-- The passes, out of one, that have not executed the statement of a rank. -/
def ahead (pc : Option TxPc) (n : ℕ) : ℕ := if pc.any (fun pc => pc.rank ≤ n) then 1 else 0

theorem ahead_some (pc : TxPc) (n : ℕ) :
    ahead (some pc) n = if pc.rank ≤ n then 1 else 0 := by
  simp [ahead]

/-- After the invalidation all that counts is done. -/
theorem ahead_eq_zero {pc : Option TxPc} {n : ℕ} (h : ∀ next, pc = some next → n < next.rank) :
    ahead pc n = 0 := by
  cases pc with
  | none => rfl
  | some next =>
      have := h next rfl
      rw [ahead_some, if_neg (by omega)]

end TxPc

namespace TxState

variable (s : TxState)

/-- The passes that have executed the statement of a rank. -/
def past (n : ℕ) : ℕ := s.reads.length - TxPc.ahead s.handler n

/-- The passes that have moved `rd_ptr` on. -/
abbrev advanced : ℕ := s.past 0

/-- The passes that have taken their packet out of `mem_tx_pkt.cnt`. -/
abbrev subtracted : ℕ := s.past 2

/-- The passes that have taken their packet out of `mem_tx_dsc.cnt`. -/
abbrev decremented : ℕ := s.past 3

/-- The passes that have invalidated their slot. -/
abbrev invalidated : ℕ := s.past 4

end TxState

/-- The read pointer is where the passes have moved it, and a pass works on the slot before. -/
structure Aligned (s : TxState) : Prop where
  setUp : s.card.tx.SetUp
  begun : s.handler ≠ none → 0 < s.reads.length
  index : ∀ pc i, s.handler = some pc → pc.index = some i → i = (s.reads.length - 1) % ringSize
  rdPtr : s.card.tx.dne.rdPtr.toNat = 64 * (s.advanced % ringSize)

/-! ## The statements -/

namespace Card

variable (c : Card)

/-- A statement of the TX branch is one less that is ahead. -/
theorem ahead_txStatement (pc : TxPc) {n : ℕ} (hn : n ≤ 4) :
    TxPc.ahead (c.txStatement pc).2 n = if pc.rank < n then 1 else 0 := by
  have hlate (h : 4 ≤ pc.rank) (hnext : ∀ next, (c.txStatement pc).2 = some next → 4 < next.rank) :
      TxPc.ahead (c.txStatement pc).2 n = if pc.rank < n then 1 else 0 := by
    rw [TxPc.ahead_eq_zero fun next h => Nat.lt_of_le_of_lt hn (hnext next h), if_neg (by omega)]
  cases pc with
  | advance => exact TxPc.ahead_some _ n
  | release i => exact TxPc.ahead_some _ n
  | subPkt i => exact TxPc.ahead_some _ n
  | decDsc i => exact TxPc.ahead_some _ n
  | invalidate i =>
      refine hlate (Nat.le_refl 4) fun next h => ?_
      obtain rfl := Option.some.inj h
      decide
  | testDsc =>
      refine hlate (by decide) fun next h => ?_
      simp only [txStatement, Option.ite_none_right_eq_some, Option.some.injEq] at h
      rw [← h.2]
      decide
  | testPkt =>
      refine hlate (by decide) fun next h => ?_
      simp only [txStatement, Option.ite_none_right_eq_some, Option.some.injEq] at h
      rw [← h.2]
      decide
  | wake i =>
      refine hlate (by simp [TxPc.rank]) fun next h => ?_
      simp only [txStatement, TxPc.afterWake, Option.dite_none_right_eq_some,
        Option.some.injEq] at h
      obtain ⟨-, rfl⟩ := h
      simp [TxPc.rank]

/-- The local variable `index` is set once. -/
theorem index_txStatement {pc next : TxPc} {i : ℕ} (h : (c.txStatement pc).2 = some next)
    (hi : next.index = some i) :
    pc.index = some i ∨ pc = .advance ∧ i = Ring.index c.tx.dne.rdPtr := by
  cases pc with
  | advance =>
      obtain rfl := Option.some.inj h
      exact Or.inr ⟨rfl, (Option.some.inj hi).symm⟩
  | release j =>
      obtain rfl := Option.some.inj h
      exact Or.inl hi
  | subPkt j =>
      obtain rfl := Option.some.inj h
      exact Or.inl hi
  | decDsc j =>
      obtain rfl := Option.some.inj h
      exact Or.inl hi
  | invalidate j =>
      obtain rfl := Option.some.inj h
      cases hi
  | testDsc =>
      simp only [txStatement, Option.ite_none_right_eq_some, Option.some.injEq] at h
      rw [← h.2] at hi
      cases hi
  | testPkt =>
      simp only [txStatement, Option.ite_none_right_eq_some, Option.some.injEq] at h
      rw [← h.2] at hi
      cases hi
  | wake j =>
      simp only [txStatement, TxPc.afterWake, Option.dite_none_right_eq_some,
        Option.some.injEq] at h
      obtain ⟨_, rfl⟩ := h
      cases hi

/-- The completion buffer belongs to the handler and the card. -/
theorem xmitStatement_dne (dma : Option UInt64) (x : XmitCall) :
    (c.xmitStatement dma x).1.tx.dne = c.tx.dne ∧
      (c.xmitStatement dma x).1.hostTxDne = c.hostTxDne := by
  obtain ⟨pc, skb, port, pktAddr, dscAddr, dmaAddr⟩ := x
  cases pc with
  | map => cases dma <;> exact ⟨rfl, rfl⟩
  | _ => exact ⟨rfl, rfl⟩

theorem xmitStatement_setUp (dma : Option UInt64) (x : XmitCall) (h : c.tx.SetUp) :
    (c.xmitStatement dma x).1.tx.SetUp := by
  obtain ⟨pc, skb, port, pktAddr, dscAddr, dmaAddr⟩ := x
  cases pc with
  | map => cases dma <;> exact ⟨h.dscMask, h.dscClSize, h.pktClSize, h.dneMask⟩
  | _ => exact ⟨h.dscMask, h.dscClSize, h.pktClSize, h.dneMask⟩

theorem txStatement_setUp (pc : TxPc) (h : c.tx.SetUp) : (c.txStatement pc).1.tx.SetUp := by
  cases pc <;> exact ⟨h.dscMask, h.dscClSize, h.pktClSize, h.dneMask⟩

end Card

/-! ## The steps -/

theorem aligned_probed (raw : Card) : Aligned (txProbed raw) where
  setUp := (Ring.agrees_probed raw.tx).setUp
  begun := fun h => absurd rfl h
  index := fun pc i h => by cases h
  rdPtr := rfl

variable {s s' : TxState} {cpu : ℕ} {x : XmitCall} {dma : Option UInt64} {op : TxOp}

/-- What the read pointer depends on. -/
theorem Aligned.frame (hs : Aligned s) (hsetUp : s'.card.tx.SetUp) (hhandler : s'.handler = s.handler)
    (hreads : s'.reads = s.reads) (hrdPtr : s'.card.tx.dne.rdPtr = s.card.tx.dne.rdPtr) :
    Aligned s' where
  setUp := hsetUp
  begun := by rw [hhandler, hreads]; exact hs.begun
  index := by rw [hhandler, hreads]; exact hs.index
  rdPtr := by
    have hadvanced : s'.advanced = s.advanced := by
      unfold TxState.advanced TxState.past
      rw [hhandler, hreads]
    rw [hrdPtr, hadvanced]
    exact hs.rdPtr

/-- Between two passes nothing is ahead. -/
theorem past_of_none (hpc : s.handler = none) (n : ℕ) : s.past n = s.reads.length := by
  rw [TxState.past, hpc]
  rfl

theorem past_of_some {pc : TxPc} (hpc : s.handler = some pc) (n : ℕ) :
    s.past n = s.reads.length - if pc.rank ≤ n then 1 else 0 := by
  rw [TxState.past, hpc, TxPc.ahead_some]

/-- The pass has not executed the statement. -/
theorem Aligned.past_of_le (hs : Aligned s) {pc : TxPc} {n : ℕ} (hpc : s.handler = some pc)
    (hn : pc.rank ≤ n) : s.past n + 1 = s.reads.length := by
  have hbegun := hs.begun (by simp [hpc])
  rw [past_of_some hpc, if_pos hn]
  omega

/-- The pass has executed the statement. -/
theorem past_of_lt {pc : TxPc} {n : ℕ} (hpc : s.handler = some pc) (hn : n < pc.rank) :
    s.past n = s.reads.length := by
  rw [past_of_some hpc, if_neg (Nat.not_le.mpr hn), Nat.sub_zero]

theorem past_le (s : TxState) (n : ℕ) : s.past n ≤ s.reads.length := Nat.sub_le _ _

/-- The word that is read between two passes. -/
theorem Aligned.txInt_eq (hs : Aligned s) (hpc : s.handler = none) :
    s.card.txInt = s.card.hostTxDne (16 * (s.reads.length % ringSize)) := by
  unfold Card.txInt
  congr 1
  have hrd := hs.rdPtr
  rw [TxState.advanced, past_of_none hpc] at hrd
  rw [UInt64.toNat_div, hrd]
  simp only [UInt64.reduceToNat]
  omega

/-- A poll begins a pass, which has executed nothing yet. -/
theorem past_pollStep (hpc : s.handler = none) (n : ℕ) : s.pollStep.past n = s.past n := by
  unfold TxState.pollStep
  split
  · rw [past_of_none hpc, past_of_some rfl, TxPc.rank, if_pos (Nat.zero_le n)]
    simp
  · rfl

theorem Aligned.poll (hs : Aligned s) (hpc : s.handler = none) : Aligned s.pollStep := by
  have hpast : s.pollStep.advanced = s.advanced := past_pollStep hpc 0
  have hcard : s.pollStep.card = s.card := by
    unfold TxState.pollStep
    split <;> rfl
  refine
    { setUp := by rw [hcard]; exact hs.setUp
      begun := fun _ => ?_
      index := fun pc i hpc' hi => ?_
      rdPtr := by rw [hpast, hcard]; exact hs.rdPtr }
  · unfold TxState.pollStep at *
    split
    · simp
    · rename_i hnot hidle
      rw [if_neg hidle] at hnot
      exact absurd hpc hnot
  · unfold TxState.pollStep at hpc'
    split at hpc'
    · cases hpc'
      cases hi
    · rw [hpc] at hpc'
      cases hpc'

theorem past_passStep {pc : TxPc} {n : ℕ} (hn : n ≤ 4) :
    (s.passStep pc).past n = s.reads.length - if pc.rank < n then 1 else 0 := by
  unfold TxState.past
  rw [← s.card.ahead_txStatement pc hn]
  rfl

/-- A statement leaves the passes that are past the others. -/
theorem past_passStep_of_ne {pc : TxPc} {n : ℕ} (hpc : s.handler = some pc) (hn : n ≤ 4)
    (hne : pc.rank ≠ n) : (s.passStep pc).past n = s.past n := by
  rw [past_passStep hn, past_of_some hpc]
  split <;> split <;> omega

/-- One more pass is past the statement. -/
theorem past_passStep_self {pc : TxPc} (hs : Aligned s) (hpc : s.handler = some pc)
    (hn : pc.rank ≤ 4) :
    (s.passStep pc).past pc.rank = s.reads.length ∧ s.past pc.rank + 1 = s.reads.length := by
  refine ⟨?_, hs.past_of_le hpc (Nat.le_refl _)⟩
  rw [past_passStep hn, if_neg (Nat.lt_irrefl _), Nat.sub_zero]

theorem Aligned.pass {pc : TxPc} (hs : Aligned s) (hpc : s.handler = some pc) :
    Aligned (s.passStep pc) := by
  have hsetUp := s.card.txStatement_setUp pc hs.setUp
  by_cases hadvance : pc = .advance
  · -- the read pointer goes to the next slot, and the index is that of the slot it leaves
    subst hadvance
    obtain ⟨hnew, hold⟩ := past_passStep_self hs hpc (by decide)
    have hrd : s.card.tx.dne.rdPtr.toNat = 64 * ((s.reads.length - 1) % ringSize) := by
      rw [hs.rdPtr, ← hold]
      rfl
    refine
      { setUp := hsetUp
        begun := fun _ => hs.begun (by simp [hpc])
        index := fun next i hnext hi => ?_
        rdPtr := ?_ }
    · rcases s.card.index_txStatement hnext hi with hi | ⟨-, rfl⟩
      · cases hi
      · exact Ring.index_eq hrd
    · calc ((s.card.tx.dne.rdPtr + 64) &&& s.card.tx.dne.mask).toNat
          = (s.card.tx.dne.rdPtr.toNat + (64 : UInt64).toNat) % 2 ^ 11 :=
            Lib.toNat_add_and_mask (by decide) (by rw [hs.setUp.dneMask]; rfl)
        _ = (64 * (s.past 0 % ringSize) + 64) % 2 ^ 11 := by rw [hs.rdPtr]; rfl
        _ = 64 * ((s.passStep .advance).past 0 % ringSize) := by
            have hnext : (s.passStep .advance).past 0 = s.past 0 + 1 := hnew.trans hold.symm
            rw [hnext]
            simp only [ringSize]
            omega
  · -- the read pointer and the index stay
    have hrank : pc.rank ≠ 0 := by
      cases pc with
      | advance => exact absurd rfl hadvance
      | _ => simp [TxPc.rank]
    have hdne : (s.passStep pc).card.tx.dne = s.card.tx.dne := by
      cases pc with
      | advance => exact absurd rfl hadvance
      | _ => rfl
    refine
      { setUp := hsetUp
        begun := fun _ => hs.begun (by simp [hpc])
        index := fun next i hnext hi => ?_
        rdPtr := ?_ }
    · rcases s.card.index_txStatement hnext hi with hi | ⟨heq, -⟩
      · exact hs.index pc i hpc hi
      · exact absurd heq hadvance
    · rw [hdne, TxState.advanced, past_passStep_of_ne hpc (by decide) hrank]
      exact hs.rdPtr

theorem Aligned.step (hs : Aligned s) (hx : txExec s op = some s') : Aligned s' := by
  cases txStep_of_exec hx with
  | call _ => exact hs.frame hs.setUp rfl rfl rfl
  | xmit _ _ =>
      exact hs.frame (Card.xmitStatement_setUp _ _ _ hs.setUp) rfl rfl
        (congrArg Nf10mem.rdPtr (Card.xmitStatement_dne _ _ _).1)
  | store _ => exact hs.frame hs.setUp rfl rfl rfl
  | poll hpc => exact hs.poll hpc
  | pass hpc => exact hs.pass hpc

end CodeAnalyze.Nf10
