import CodeAnalyze.Nf10.Counters

/-!
# The packet memory, interleaved

`mem_tx_pkt.cnt` is the size of the packets that the calls have added and the passes have
not subtracted.  A pass subtracts what the books have for its slot, and the books have the
size that was added: a call writes them before its descriptor, and nobody writes them again
before the slot is given back.
-/

namespace CodeAnalyze.Nf10

open Lib (wordSum)

namespace XmitPc

/-- The test has found room for the packet, and its size is not added yet. -/
def fitting : XmitPc → Bool
  | reserve | map | incDsc | addPkt => true
  | _ => false

/-- The packet is counted, and its books are not written yet. -/
def unbooked : XmitPc → Bool
  | addPkt | stopDsc | stopPkt | stop | unlock | book => true
  | _ => false

theorem locked_of_fitting {pc : XmitPc} (h : pc.fitting = true) : pc.locked = true := by
  cases pc <;> first | rfl | cases h

theorem inFlight_of_unbooked {pc : XmitPc} (h : pc.unbooked = true) : pc.inFlight = true := by
  cases pc <;> first | rfl | cases h

theorem eq_incDsc_of_addPkt {pc : XmitPc} (h : addPkt ∈ pc.successors) : pc = incDsc := by
  cases pc <;> simp [successors] at h ⊢

theorem fitting_of_successor {pc pc' : XmitPc} (h : pc' ∈ pc.successors)
    (hfitting : pc'.fitting = true) :
    pc = testPkt ∧ pc' = reserve ∨ pc.fitting = true ∧ pc ≠ addPkt := by
  cases pc <;> simp only [successors, List.mem_cons, List.not_mem_nil, or_false] at h
  all_goals grind [fitting]

theorem unbooked_successor {pc pc' : XmitPc} (h : pc' ∈ pc.successors)
    (hunbooked : pc.unbooked = true) (hbook : pc ≠ book) : pc'.unbooked = true := by
  cases pc <;> simp only [successors, List.mem_cons, List.not_mem_nil, or_false] at h
  all_goals grind [unbooked]

end XmitPc

namespace TxState

variable (s : TxState)

/-- The size of the packets counted. -/
def total : ℕ := wordSum id s.counted

/-- The size of the packets that the passes have subtracted. -/
def paid : ℕ := wordSum id (s.counted.take s.subtracted)

end TxState

/-- The packet memory and the books. -/
structure Accounts (s : TxState) : Prop where
  whole : (∀ cpu x, s.xmits cpu = some x → x.pc ≠ .addPkt) →
    s.card.tx.pkt.cnt.toNat + s.paid = s.total
  adding : ∀ cpu x, s.xmits cpu = some x → x.pc = .addPkt →
    s.card.tx.pkt.cnt.toNat + x.clSize.toNat + s.paid = s.total
  fits : ∀ cpu x, s.xmits cpu = some x → x.pc.fitting = true →
    s.card.tx.pkt.cnt.toNat + x.clSize.toNat ≤ 512
  pktFits : s.card.tx.pkt.cnt.toNat ≤ 512
  books : ∀ k, s.subtracted ≤ k → k < s.counted.length →
    (∀ cpu x, s.xmits cpu = some x → x.pc.unbooked = true → x.dscIndex ≠ k % ringSize) →
    s.counted[k]? = some (s.card.tx.bkSize (k % ringSize))

theorem accounts_probed (raw : Card) : Accounts (txProbed raw) where
  whole := fun _ => rfl
  adding := fun cpu x h => by cases h
  fits := fun cpu x h => by cases h
  pktFits := Nat.zero_le _
  books := fun k _ hk => absurd hk (Nat.not_lt_zero k)

/-! ## The statements of a call -/

namespace Card

variable (c : Card) (dma : Option UInt64) (x : XmitCall)

theorem xmitStatement_pktCnt :
    (c.xmitStatement dma x).1.tx.pkt.cnt =
      if x.pc = .addPkt then c.tx.pkt.cnt + x.clSize else c.tx.pkt.cnt := by
  unfold xmitStatement
  split <;> rename_i hpc <;> simp only [hpc]
  all_goals first | rfl | (cases dma <;> rfl)

theorem xmitStatement_bkSize :
    (c.xmitStatement dma x).1.tx.bkSize =
      if x.pc = .book then Function.update c.tx.bkSize x.dscIndex x.clSize else c.tx.bkSize := by
  unfold xmitStatement
  split <;> rename_i hpc <;> simp only [hpc]
  all_goals first | rfl | (cases dma <;> rfl)

/-- A call keeps its packet and, once it is reserved, its descriptor. -/
theorem kept_xmitStatement {x' : XmitCall} (hnext : (c.xmitStatement dma x).2 = some x') :
    x'.clSize = x.clSize ∧ (x.pc ≠ .reserve → x'.dscIndex = x.dscIndex) := by
  unfold xmitStatement at hnext
  split at hnext <;> rename_i hpc
  case h_4 =>
    obtain rfl := Option.some.inj hnext
    exact ⟨rfl, fun hne => absurd hpc hne⟩
  case h_5 =>
    cases dma with
    | none =>
        obtain rfl := Option.some.inj hnext
        exact ⟨rfl, fun _ => rfl⟩
    | some dmaAddr =>
        obtain rfl := Option.some.inj hnext
        exact ⟨rfl, fun _ => rfl⟩
  case h_13 => cases hnext
  case h_14 => cases hnext
  all_goals
    obtain rfl := Option.some.inj hnext
    exact ⟨rfl, fun _ => rfl⟩

end Card

/-! ## The steps -/

variable {s s' : TxState} {op : TxOp} {cpu : ℕ} {x : XmitCall} {dma : Option UInt64}

theorem total_xmitStep (s : TxState) (cpu : ℕ) (dma : Option UInt64) (x : XmitCall) :
    (s.xmitStep cpu dma x).total = s.total + if x.pc = .incDsc then x.clSize.toNat else 0 := by
  by_cases hinc : x.pc = .incDsc
  · simp [TxState.total, TxState.xmitStep, hinc, wordSum]
  · simp [TxState.total, TxState.xmitStep, hinc]

/-- What is subtracted was counted before. -/
theorem paid_xmitStep (hs : Passes s) : (s.xmitStep cpu dma x).paid = s.paid := by
  have hle : s.subtracted ≤ s.counted.length :=
    Nat.le_trans (past_le s 2) (Nat.le_trans hs.reads_le hs.stored_le)
  obtain ⟨rest, hrest⟩ := counted_xmitStep s cpu dma x
  change wordSum id ((s.xmitStep cpu dma x).counted.take s.subtracted) = s.paid
  rw [← hrest, List.take_append_of_le_length hle]
  rfl

/-- The lock is held by one call, and it is not adding. -/
theorem Calls.ne_addPkt (hc : Calls s) (hx : s.xmits cpu = some x) (hlocked : x.pc.locked = true)
    (hpc : x.pc ≠ .addPkt) {cpu' : ℕ} {y : XmitCall} (hy : s.xmits cpu' = some y) :
    y.pc ≠ .addPkt := by
  intro hadd
  obtain rfl := hc.holds.holder_eq hx hy hlocked (by rw [hadd]; rfl)
  obtain rfl := Option.some.inj (hx.symm.trans hy)
  exact hpc hadd

/-- The test for the packet, in numbers. -/
theorem Accounts.fits_iff (h : Accounts s) (hs : Passes s) {clSize : UInt64}
    (hcl : clSize.toNat < 2 ^ 32) :
    s.card.tx.pkt.cnt + clSize ≤ s.card.tx.pkt.clSize ↔
      s.card.tx.pkt.cnt.toNat + clSize.toNat ≤ 512 := by
  have hfits := h.pktFits
  rw [hs.setUp.pktClSize, UInt64.le_iff_toNat_le, Lib.toNat_add_of_lt (by omega)]
  rfl

/-- Another call holds the lock, so that the statement adds nothing. -/
theorem Calls.pktCnt_xmitStep {cpu' : ℕ} {y : XmitCall} (hc : Calls s)
    (hx : s.xmits cpu = some x) (hne : cpu' ≠ cpu) (hy : s.xmits cpu' = some y)
    (hlocked : y.pc.locked = true) :
    (s.xmitStep cpu dma x).card.tx.pkt.cnt = s.card.tx.pkt.cnt := by
  have hadd : x.pc ≠ .addPkt := fun hpc =>
    hne (hc.holds.holder_eq hx hy (by rw [hpc]; rfl) hlocked).symm
  exact (s.card.xmitStatement_pktCnt dma x).trans (if_neg hadd)

theorem Accounts.fits_xmit (h : Accounts s) (hs : Passes s) (hc : Calls s)
    (hx : s.xmits cpu = some x) {cpu' : ℕ} {y : XmitCall}
    (hy : (s.xmitStep cpu dma x).xmits cpu' = some y) (hfitting : y.pc.fitting = true) :
    (s.xmitStep cpu dma x).card.tx.pkt.cnt.toNat + y.clSize.toNat ≤ 512 := by
  rcases xmits_xmitStep hy with ⟨rfl, hnext⟩ | ⟨hne, hy⟩
  · have hsize := (s.card.kept_xmitStatement dma x hnext).1
    have hcnt := s.card.xmitStatement_pktCnt dma x
    rcases XmitPc.fitting_of_successor (s.card.pc_mem_successors hnext) hfitting with
      ⟨htest, hreserve⟩ | ⟨hfit, hadd⟩
    · rw [if_neg (by rw [htest]; decide)] at hcnt
      rw [TxState.xmitStep, hcnt, hsize]
      -- the call goes on where the test holds
      simp only [Card.xmitStatement, htest, Option.some.injEq] at hnext
      subst hnext
      by_contra hfull
      have hlt : x.clSize.toNat < 2 ^ 32 := Card.toNat_txClSize_lt _
      have hiff := h.fits_iff hs hlt
      rw [XmitCall.goto_pc, if_neg fun hroom => hfull (hiff.mp hroom)] at hreserve
      cases hreserve
    · rw [if_neg hadd] at hcnt
      rw [TxState.xmitStep, hcnt, hsize]
      exact h.fits cpu' x hx hfit
  · rw [hc.pktCnt_xmitStep hx hne hy (XmitPc.locked_of_fitting hfitting)]
    exact h.fits cpu' y hy hfitting

/-- The packets that are not subtracted are less than a turn apart. -/
theorem Passes.turn_subtracted (hs : Passes s) : s.counted.length ≤ s.subtracted + ringSize := by
  have hcnt := hs.dscCnt
  have hfits := hs.dscFits
  have hle : s.decremented ≤ s.subtracted := by
    refine Nat.sub_le_sub_left ?_ _
    cases hpc : s.handler with
    | none => exact Nat.le_refl _
    | some pc =>
        rw [TxPc.ahead_some, TxPc.ahead_some]
        split <;> split <;> omega
  omega

theorem Accounts.books_xmit (h : Accounts s) (hs : Passes s) (hc : Calls s)
    (hx : s.xmits cpu = some x) {k : ℕ} (hk : s.subtracted ≤ k)
    (hlt : k < (s.xmitStep cpu dma x).counted.length)
    (hbooked : ∀ cpu' y, (s.xmitStep cpu dma x).xmits cpu' = some y → y.pc.unbooked = true →
      y.dscIndex ≠ k % ringSize) :
    (s.xmitStep cpu dma x).counted[k]? =
      some ((s.xmitStep cpu dma x).card.tx.bkSize (k % ringSize)) := by
  have hbk : (s.xmitStep cpu dma x).card.tx.bkSize =
      if x.pc = .book then Function.update s.card.tx.bkSize x.dscIndex x.clSize
        else s.card.tx.bkSize :=
    s.card.xmitStatement_bkSize dma x
  -- the other calls are where they were
  have hother {cpu' : ℕ} {y : XmitCall} (hne : cpu' ≠ cpu) (hy : s.xmits cpu' = some y)
      (hunbooked : y.pc.unbooked = true) : y.dscIndex ≠ k % ringSize :=
    hbooked cpu' y ((Function.update_of_ne hne _ _).trans hy) hunbooked
  by_cases hinc : x.pc = .incDsc
  · rw [hbk, if_neg (by rw [hinc]; decide)]
    have hcounted : (s.xmitStep cpu dma x).counted = s.counted ++ [x.clSize] := if_pos hinc
    rw [hcounted] at hlt ⊢
    have hindex : x.dscIndex = s.counted.length % ringSize :=
      Ring.index_eq ((hc.call cpu x hx).reserved (by rw [hinc]; rfl)).1
    have hnext : (s.xmitStep cpu dma x).xmits cpu = some (x.goto .addPkt) := by
      simp [TxState.xmitStep, Card.xmitStatement, hinc]
    -- the packet that is counted has no books yet
    have hold : k < s.counted.length := by
      rw [List.length_append, List.length_singleton] at hlt
      refine Nat.lt_of_le_of_ne (Nat.lt_succ_iff.mp hlt) fun heq => ?_
      exact hbooked cpu _ hnext rfl (by rw [XmitCall.goto_dscIndex, hindex, heq])
    rw [List.getElem?_append_left hold]
    refine h.books k hk hold fun cpu' y hy hunbooked => ?_
    by_cases heq : cpu' = cpu
    · subst heq
      obtain rfl := Option.some.inj (hx.symm.trans hy)
      rw [hinc] at hunbooked
      cases hunbooked
    · exact hother heq hy hunbooked
  have hcounted : (s.xmitStep cpu dma x).counted = s.counted := if_neg hinc
  rw [hcounted] at hlt ⊢
  by_cases hbook : x.pc = .book
  · rw [hbk, if_pos hbook]
    by_cases hslot : k % ringSize = x.dscIndex
    · -- the packet of this call
      obtain ⟨-, j, hj, hsize, hindex⟩ := (hc.call cpu x hx).inFlight (by rw [hbook]; rfl)
      obtain ⟨hjlt, -⟩ := List.getElem?_eq_some_iff.mp hsize
      have hturn := hs.turn_subtracted
      have hreads : s.subtracted ≤ s.stored := Nat.le_trans (past_le s 2) hs.reads_le
      have hmod : k % ringSize = j % ringSize := hslot.trans hindex
      have heq : k = j := by
        rcases Nat.le_total k j with hle | hle
        · exact Lib.Ring.eq_of_mod_eq hle (by omega) hmod
        · exact (Lib.Ring.eq_of_mod_eq hle (by omega) hmod.symm).symm
      rw [hslot, Function.update_self, heq, hsize]
    · rw [Function.update_of_ne hslot]
      refine h.books k hk hlt fun cpu' y hy hunbooked => ?_
      by_cases heq : cpu' = cpu
      · subst heq
        obtain rfl := Option.some.inj (hx.symm.trans hy)
        exact fun h => hslot h.symm
      · exact hother heq hy hunbooked
  · rw [hbk, if_neg hbook]
    refine h.books k hk hlt fun cpu' y hy hunbooked => ?_
    by_cases heq : cpu' = cpu
    · subst heq
      obtain rfl := Option.some.inj (hx.symm.trans hy)
      -- the call goes on, and its books are still missing
      obtain ⟨x', hnext⟩ := s.card.exists_next dma (x := x)
        (fun hpc => by rw [hpc] at hunbooked; cases hunbooked)
        (fun hpc => by rw [hpc] at hunbooked; cases hunbooked)
      have hindex := (s.card.kept_xmitStatement dma x hnext).2
        fun hpc => by rw [hpc] at hunbooked; cases hunbooked
      rw [← hindex]
      exact hbooked cpu' x' ((Function.update_self _ _ _).trans hnext)
        (XmitPc.unbooked_successor (s.card.pc_mem_successors hnext) hunbooked hbook)
    · exact hother heq hy hunbooked

theorem Accounts.xmit (h : Accounts s) (hs : Passes s) (hc : Calls s)
    (hx : s.xmits cpu = some x) : Accounts (s.xmitStep cpu dma x) := by
  have hcnt : (s.xmitStep cpu dma x).card.tx.pkt.cnt =
      if x.pc = .addPkt then s.card.tx.pkt.cnt + x.clSize else s.card.tx.pkt.cnt :=
    s.card.xmitStatement_pktCnt dma x
  have htotal := total_xmitStep s cpu dma x
  have hpaid : (s.xmitStep cpu dma x).paid = s.paid := paid_xmitStep hs
  -- the one statement of the call that counts lines, and it does not wrap
  have hadd (hpc : x.pc = .addPkt) : (s.xmitStep cpu dma x).card.tx.pkt.cnt.toNat =
      s.card.tx.pkt.cnt.toNat + x.clSize.toNat := by
    have hfits := h.fits cpu x hx (by rw [hpc]; rfl)
    rw [hcnt, if_pos hpc]
    exact Lib.toNat_add_of_lt (by omega)
  refine
    { whole := fun hnone => ?_
      adding := fun cpu' y hy hpc => ?_
      fits := fun cpu' y hy hf => h.fits_xmit hs hc hx hy hf
      pktFits := ?_
      books := fun k hk hlt hbooked => h.books_xmit hs hc hx hk hlt hbooked }
  · rw [hpaid, htotal]
    by_cases hpc : x.pc = .addPkt
    · rw [hadd hpc, if_neg (by rw [hpc]; decide)]
      exact h.adding cpu x hx hpc
    by_cases hinc : x.pc = .incDsc
    · -- the call adds next
      have hnext : (s.xmitStep cpu dma x).xmits cpu = some (x.goto .addPkt) := by
        simp [TxState.xmitStep, Card.xmitStatement, hinc]
      exact absurd rfl (hnone cpu _ hnext)
    · rw [hcnt, if_neg hpc, if_neg hinc]
      refine h.whole fun cpu' y hy => ?_
      by_cases heq : cpu' = cpu
      · subst heq
        obtain rfl := Option.some.inj (hx.symm.trans hy)
        exact hpc
      · exact hnone cpu' y ((Function.update_of_ne heq _ _).trans hy)
  · rw [hpaid, htotal]
    rcases xmits_xmitStep hy with ⟨rfl, hnext⟩ | ⟨hne, hy⟩
    · -- the call has just reserved its descriptor, under the lock
      have hinc := XmitPc.eq_incDsc_of_addPkt (hpc ▸ s.card.pc_mem_successors hnext)
      have hlocked : x.pc.locked = true := by rw [hinc]; rfl
      have hold := h.whole fun cpu₁ y₁ hy₁ =>
        hc.ne_addPkt hx hlocked (by rw [hinc]; decide) hy₁
      rw [hcnt, if_neg (by rw [hinc]; decide), if_pos hinc,
        (s.card.kept_xmitStatement dma x hnext).1]
      omega
    · have hlocked : y.pc.locked = true := by rw [hpc]; rfl
      have hinc : x.pc ≠ .incDsc := fun hpc' =>
        hne (hc.holds.holder_eq hx hy (by rw [hpc']; rfl) hlocked).symm
      rw [hc.pktCnt_xmitStep hx hne hy hlocked, if_neg hinc]
      exact h.adding cpu' y hy hpc
  · by_cases hpc : x.pc = .addPkt
    · rw [hadd hpc]
      exact h.fits cpu x hx (by rw [hpc]; rfl)
    · rw [hcnt, if_neg hpc]
      exact h.pktFits

/-- What the accounts depend on; a new call has not reserved anything. -/
theorem Accounts.frame (h : Accounts s)
    (hold : ∀ cpu x, s.xmits cpu = some x → s'.xmits cpu = some x)
    (hnew : ∀ cpu x, s'.xmits cpu = some x → x.pc = .lock ∨ s.xmits cpu = some x)
    (hcounted : s'.counted = s.counted) (hsubtracted : s'.subtracted = s.subtracted)
    (hpkt : s'.card.tx.pkt.cnt = s.card.tx.pkt.cnt) (hbk : s'.card.tx.bkSize = s.card.tx.bkSize) :
    Accounts s' := by
  have htotal : s'.total = s.total := congrArg (wordSum id) hcounted
  have hpaid : s'.paid = s.paid := by
    unfold TxState.paid
    rw [hcounted, hsubtracted]
  refine
    { whole := fun hnone => ?_
      adding := fun cpu x hx hpc => ?_
      fits := fun cpu x hx hf => ?_
      pktFits := by rw [hpkt]; exact h.pktFits
      books := fun k hk hlt hbooked => ?_ }
  · rw [hpkt, htotal, hpaid]
    exact h.whole fun cpu x hx => hnone cpu x (hold cpu x hx)
  · rw [hpkt, htotal, hpaid]
    rcases hnew cpu x hx with hlock | hx
    · rw [hlock] at hpc
      cases hpc
    · exact h.adding cpu x hx hpc
  · rw [hpkt]
    rcases hnew cpu x hx with hlock | hx
    · rw [hlock] at hf
      cases hf
    · exact h.fits cpu x hx hf
  · rw [hcounted, hbk]
    rw [hcounted] at hlt
    rw [hsubtracted] at hk
    exact h.books k hk hlt fun cpu x hx => hbooked cpu x (hold cpu x hx)

/-- The packet of a pass has its size in the books, and it is part of `mem_tx_pkt.cnt`. -/
theorem Accounts.size_of_subPkt (h : Accounts s) (hs : Passes s) (hc : Calls s) {i : ℕ}
    (hpc : s.handler = some (.subPkt i)) :
    s.counted[s.subtracted]? = some (s.card.tx.bkSize i) ∧
      (s.card.tx.bkSize i).toNat ≤ s.card.tx.pkt.cnt.toNat := by
  have hahead : s.subtracted + 1 = s.reads.length := hs.past_of_le hpc (by simp [TxPc.rank])
  have hreads := hs.reads_le
  have hstored := hs.stored_le
  have hturn := hs.turn_subtracted
  have hslot : i = s.subtracted % ringSize := by
    rw [hs.index _ i hpc rfl, ← hahead, Nat.add_sub_cancel]
  have hsize : s.counted[s.subtracted]? = some (s.card.tx.bkSize i) := by
    rw [hslot]
    refine h.books _ (Nat.le_refl _) (by omega) fun cpu x hx hunbooked heq => ?_
    -- a call that is in flight has a later packet
    obtain ⟨-, k, hk, hget, hindex⟩ :=
      (hc.call cpu x hx).inFlight (XmitPc.inFlight_of_unbooked hunbooked)
    obtain ⟨hlt, -⟩ := List.getElem?_eq_some_iff.mp hget
    have := Lib.Ring.eq_of_mod_eq (b := k) (by omega) (by omega) (heq.symm.trans hindex)
    omega
  refine ⟨hsize, ?_⟩
  have htake : wordSum id (s.counted.take (s.subtracted + 1)) =
      s.paid + (s.card.tx.bkSize i).toNat := by
    rw [List.take_add_one, hsize, Lib.wordSum_append]
    simp [TxState.paid, wordSum]
  have hsplit : s.total = wordSum id (s.counted.take (s.subtracted + 1)) +
      wordSum id (s.counted.drop (s.subtracted + 1)) := by
    rw [TxState.total, ← Lib.wordSum_append, List.take_append_drop]
  by_cases hadding : ∃ cpu x, s.xmits cpu = some x ∧ x.pc = .addPkt
  · obtain ⟨cpu, x, hx, hadd⟩ := hadding
    have hsum := h.adding cpu x hx hadd
    obtain ⟨-, k, hk, hget, -⟩ := (hc.call cpu x hx).inFlight (by rw [hadd]; rfl)
    -- the packet that is added next is a later one
    have hmem : x.clSize ∈ s.counted.drop (s.subtracted + 1) := by
      refine List.mem_of_getElem? (i := k - (s.subtracted + 1)) ?_
      rw [List.getElem?_drop, Nat.add_sub_of_le (by omega), hget]
    have hle : x.clSize.toNat ≤ _ := Lib.le_wordSum id hmem
    omega
  · have hsum := h.whole fun cpu x hx hadd => hadding ⟨cpu, x, hx, hadd⟩
    omega

theorem Accounts.pass {pc : TxPc} (h : Accounts s) (hs : Passes s) (hc : Calls s)
    (hpc : s.handler = some pc) : Accounts (s.passStep pc) := by
  have hquiet (hrank : pc.rank ≠ 2)
      (hpkt : (s.passStep pc).card.tx.pkt.cnt = s.card.tx.pkt.cnt)
      (hbk : (s.passStep pc).card.tx.bkSize = s.card.tx.bkSize) : Accounts (s.passStep pc) :=
    h.frame (fun _ _ hx => hx) (fun _ _ hx => Or.inr hx) rfl
      (past_passStep_of_ne hpc (by decide) hrank) hpkt hbk
  cases pc with
  | subPkt i =>
      -- the only statement of the pass that changes `pkt.cnt`
      obtain ⟨hsize, hle⟩ := h.size_of_subPkt hs hc hpc
      obtain ⟨hnew, hold⟩ := past_passStep_self hs.toAligned hpc (by simp [TxPc.rank])
      simp only [TxPc.rank] at hnew hold
      have hsubtracted : (s.passStep (.subPkt i)).subtracted = s.subtracted + 1 :=
        hnew.trans hold.symm
      have hpaid : (s.passStep (.subPkt i)).paid = s.paid + (s.card.tx.bkSize i).toNat := by
        change wordSum id (s.counted.take (s.passStep (.subPkt i)).subtracted) = _
        rw [hsubtracted, List.take_add_one, hsize, Lib.wordSum_append]
        simp [TxState.paid, wordSum]
      have hcnt : (s.card.tx.pkt.cnt - s.card.tx.bkSize i).toNat + (s.card.tx.bkSize i).toNat =
          s.card.tx.pkt.cnt.toNat :=
        Lib.toNat_sub_add (UInt64.le_iff_toNat_le.mpr hle)
      have hfits := h.pktFits
      refine
        { whole := fun hnone => ?_
          adding := fun cpu x hx hadd => ?_
          fits := fun cpu x hx hf => ?_
          pktFits := ?_
          books := fun k hk hlt hbooked => ?_ }
      · have hsum := h.whole hnone
        change (s.card.tx.pkt.cnt - s.card.tx.bkSize i).toNat + _ = s.total
        omega
      · have hsum := h.adding cpu x hx hadd
        change (s.card.tx.pkt.cnt - s.card.tx.bkSize i).toNat + _ + _ = s.total
        omega
      · have hroom := h.fits cpu x hx hf
        change (s.card.tx.pkt.cnt - s.card.tx.bkSize i).toNat + _ ≤ 512
        omega
      · change (s.card.tx.pkt.cnt - s.card.tx.bkSize i).toNat ≤ 512
        omega
      · exact h.books k (by omega) hlt hbooked
  | advance => exact hquiet (by decide) rfl rfl
  | release i => exact hquiet (by simp [TxPc.rank]) rfl rfl
  | decDsc i => exact hquiet (by simp [TxPc.rank]) rfl rfl
  | invalidate i => exact hquiet (by simp [TxPc.rank]) rfl rfl
  | testDsc => exact hquiet (by decide) rfl rfl
  | testPkt => exact hquiet (by decide) rfl rfl
  | wake i => exact hquiet (by simp [TxPc.rank]) rfl rfl

theorem Accounts.step (h : Accounts s) (hcounters : Counters s) (hx : txExec s op = some s') :
    Accounts s' := by
  obtain ⟨hs, hc⟩ := hcounters
  cases txStep_of_exec hx with
  | call hidle =>
      exact h.frame (fun _ _ hx => xmits_of_callStep hidle hx) (fun _ _ hx => xmits_callStep hx)
        rfl rfl rfl rfl
  | xmit hcall _ => exact h.xmit hs hc hcall
  | store _ => exact h.frame (fun _ _ hx => hx) (fun _ _ hx => Or.inr hx) rfl rfl rfl rfl
  | poll hpc =>
      refine h.frame ?_ ?_ ?_ (past_pollStep hpc 2) ?_ ?_
      all_goals
        unfold TxState.pollStep
        split
      all_goals first | rfl | exact fun _ _ hx => hx | exact fun _ _ hx => Or.inr hx
  | pass hpc => exact h.pass hs hc hpc

end CodeAnalyze.Nf10
