import CodeAnalyze.Irqbalance.Slices
import Mathlib.Algebra.Order.Field.Rat
import Mathlib.Tactic.Linarith
import Mathlib.Tactic.Ring

/-!
# What the sharing out of a load gives and loses

The slice of a count is the load of the object divided by the counts of its branch, and these
are at least the counts of its own IRQs.  So the products neither wrap nor add up to more
than the load, and a count loses less than one unit of load to rounding.
-/

namespace CodeAnalyze.Irqbalance

open Lib

variable {s s' : State} {d : ObjRef}

namespace State

/-! ## The counters -/

/-- The counters have not run backwards. -/
def Counted (s : State) : Prop := ∀ i, (s.info i).lastIrqCount ≤ (s.info i).irqCount

theorem updateCount_counted (h : s.Counted) {number : ℤ} {counts : Bytes}
    (hok : s.updateCount number counts = .ok s') : s'.Counted := by
  unfold updateCount at hok
  split at hok
  · cases hok
  · rename_i ref href
    dsimp only at hok
    split at hok
    · cases hok
    · split at hok
      · cases hok
      · -- a count that has run backwards was refused above
        rename_i hnot
        obtain ⟨count, hcount⟩ : ∃ c, c = (strtoulls counts).foldl (· + ·) 0 := ⟨_, rfl⟩
        rw [← hcount] at hok hnot
        have hset : State.Counted { s with irqs := s.irqs.modifyRef ref fun info =>
            { info with lastIrqCount := info.irqCount, irqCount := count } } := by
          intro i
          cases ref with
          | banned place => exact h i
          | db place =>
              change (((s.modifyInfo place _).info i).lastIrqCount) ≤
                ((s.modifyInfo place _).info i).irqCount
              rw [info_modifyInfo]
              split
              · rename_i hi
                rw [hi.1]
                exact UInt64.not_lt.mp hnot
              · exact h i
        split at hok
        · cases hok
          exact hset
        · cases hok
          exact hset

theorem parseProcLines_counted (h : s.Counted) (lines : List Bytes) :
    (s.parseProcLines lines).1.Counted := by
  induction lines generalizing s with
  | nil => exact h
  | cons line rest ih =>
      have hmsi : ∀ b : Bool,
          State.Counted (if b then { s with procIntHasMsi := true } else s) := by
        intro b
        cases b with
        | false => exact h
        | true => exact h
      unfold parseProcLines
      dsimp only
      cases procLine line with
      | stop => exact hmsi _
      | skip => exact ih (hmsi _)
      | irq number counts =>
          dsimp only
          split
          · exact hmsi _
          · rename_i hupdate
            exact ih (updateCount_counted (hmsi _) hupdate)

/-- A snapshot of `/proc/interrupts` is only taken over where no counter runs backwards. -/
theorem parseProcInterrupts_counted (h : s.Counted) (file : Option Bytes) :
    (s.parseProcInterrupts file).Counted := by
  cases file with
  | none => exact h
  | some file =>
      have hlines := parseProcLines_counted h (procBuffers file)
      simp only [parseProcInterrupts]
      split
      · exact hlines
      · exact hlines

theorem snapshots_counted (h : s.Counted) (files : List (Option Bytes)) :
    (files.foldl parseProcInterrupts s).Counted := by
  induction files generalizing s with
  | nil => exact h
  | cons file rest ih => exact ih (parseProcInterrupts_counted h file)

/-! ## The sharing out -/

/-- `irq_count - last_irq_count`, as numbers. -/
def countOf (s : State) (i : ℕ) : ℕ :=
  (s.info i).irqCount.toNat - (s.info i).lastIrqCount.toNat

theorem Counted.toNat_irqDelta (h : s.Counted) (i : ℕ) : (s.irqDelta i).toNat = s.countOf i :=
  UInt64.toNat_sub_of_le _ _ (h i)

/-- What the IRQs on an object have counted. -/
def countsOn (s : State) (d : ObjRef) : ℕ := ((s.obj d).interrupts.map s.countOf).sum

theorem Counted.wordSum_irqDelta (h : s.Counted) (list : List ℕ) :
    wordSum s.irqDelta list = (list.map s.countOf).sum := by
  rw [wordSum, funext h.toNat_irqDelta]

/-- The load of an object after it is divided by the number of its children. -/
def sharedLoad (s : State) (d : ObjRef) : UInt64 := ((s.divideLoad d).obj d).load

/-- How `compute_irq_branch_load_share` shares the load of `d` out among its IRQs. -/
structure SharesOut (s : State) (d : ObjRef) : Prop where
  /-- The products do not wrap. -/
  product : ∀ i ∈ (s.obj d).interrupts,
    (s.irqDelta i * (s.divideLoad d).loadSlice d).toNat =
      s.countOf i * ((s.divideLoad d).loadSlice d).toNat
  pos : ∀ i ∈ (s.obj d).interrupts, 1 ≤ ((s.computeIrqBranchLoadShare d).info i).load
  /-- The loads that are not put up to one add up to no more than the load of the object. -/
  le : (((s.obj d).interrupts.filter fun i =>
      s.irqDelta i * (s.divideLoad d).loadSlice d ≠ 0).map fun i =>
        ((s.computeIrqBranchLoadShare d).info i).load.toNat).sum ≤ (s.sharedLoad d).toNat
  /-- Less than one unit of load is lost for a count. -/
  rounding : 0 < s.getParentBranchIrqCountShare d → 0 < s.countsOn d →
    ((s.sharedLoad d).toNat * s.countsOn d : ℚ) / (s.getParentBranchIrqCountShare d).toNat -
        s.countsOn d <
      (((s.obj d).interrupts.map fun i =>
        s.countOf i * ((s.sharedLoad d).toNat / (s.getParentBranchIrqCountShare d).toNat)).sum : ℕ)

/-- The counts an object is charged with fit into 64 bits. -/
def ShareFits (s : State) (d : ObjRef) : Prop :=
  (s.inheritedCount d).toNat + wordSum s.irqDelta (s.obj d).interrupts < 2 ^ 64

/-- The counts of the branch are at least those of the object. -/
theorem countsOn_le_share (h : s.Counted) (hfits : s.ShareFits d) :
    s.countsOn d ≤ (s.getParentBranchIrqCountShare d).toNat := by
  rw [toNat_share hfits, h.wordSum_irqDelta]
  exact Nat.le_add_left _ _

/-- The slice of a count. -/
theorem toNat_loadSlice (s : State) (d : ObjRef) :
    ((s.divideLoad d).loadSlice d).toNat =
      if s.getParentBranchIrqCountShare d = 0 then 1
      else (s.sharedLoad d).toNat / (s.getParentBranchIrqCountShare d).toNat := by
  have hshare := share_congr (s.divideLoad_still d) rfl d
  unfold loadSlice
  dsimp only
  rw [hshare]
  by_cases hzero : s.getParentBranchIrqCountShare d = 0
  · rw [if_neg (not_not.mpr hzero), if_pos hzero]
    rfl
  · rw [if_pos hzero, if_neg hzero, UInt64.toNat_div]
    rfl

/-- The slices of all counts fit into the load of the object. -/
theorem countsOn_mul_slice_le (h : s.Counted) (hfits : s.ShareFits d) :
    s.countsOn d * ((s.divideLoad d).loadSlice d).toNat ≤ (s.sharedLoad d).toNat := by
  have hle := countsOn_le_share h hfits
  rw [toNat_loadSlice]
  split
  · rename_i hzero
    rw [hzero] at hle
    rw [Nat.le_zero.mp hle, Nat.zero_mul]
    exact Nat.zero_le _
  · calc s.countsOn d * ((s.sharedLoad d).toNat / (s.getParentBranchIrqCountShare d).toNat)
        ≤ (s.getParentBranchIrqCountShare d).toNat *
            ((s.sharedLoad d).toNat / (s.getParentBranchIrqCountShare d).toNat) :=
          Nat.mul_le_mul_right _ hle
      _ ≤ (s.sharedLoad d).toNat := Nat.mul_div_le _ _

/-- A quotient that is rounded down loses less than one. -/
theorem mul_div_sub_lt (load count : ℕ) {share : ℕ} (hshare : 0 < share) (hcount : 0 < count) :
    (load * count : ℚ) / share - count < (count * (load / share) : ℕ) := by
  have hlt : load < share * (load / share + 1) := Nat.lt_mul_div_succ load hshare
  have hcast : (load : ℚ) < share * ((load / share : ℕ) + 1) := by exact_mod_cast hlt
  have hshare' : (0 : ℚ) < share := by exact_mod_cast hshare
  have hcount' : (0 : ℚ) < count := by exact_mod_cast hcount
  have hquot : (load * count : ℚ) / share < count * ((load / share : ℕ) + 1) := by
    rw [div_lt_iff₀ hshare']
    calc (load * count : ℚ) < share * ((load / share : ℕ) + 1) * count :=
          mul_lt_mul_of_pos_right hcast hcount'
      _ = count * ((load / share : ℕ) + 1) * share := by ring
  push_cast at hquot ⊢
  linarith

/-- The load of an object is shared out without a wrap, and with no more loss than the
rounding of a slice, after every history of snapshots. -/
theorem sharesOut (s : State) (hcounted : s.Counted) (files : List (Option Bytes)) (d : ObjRef)
    (hentries : ∀ i ∈ ((files.foldl parseProcInterrupts s).obj d).interrupts,
      i < (files.foldl parseProcInterrupts s).dbSize)
    (hfits : (files.foldl parseProcInterrupts s).ShareFits d) :
    (files.foldl parseProcInterrupts s).SharesOut d := by
  have h := snapshots_counted hcounted files
  generalize files.foldl parseProcInterrupts s = t at h hentries hfits
  have hslices := countsOn_mul_slice_le h hfits
  -- one product is at most the sum of all, and that is at most the load shared out
  have hproduct : ∀ i ∈ (t.obj d).interrupts,
      (t.irqDelta i * (t.divideLoad d).loadSlice d).toNat =
        t.countOf i * ((t.divideLoad d).loadSlice d).toNat := by
    intro i hi
    have hone : t.countOf i ≤ t.countsOn d :=
      List.single_le_sum (fun _ _ => Nat.zero_le _) _ (List.mem_map_of_mem hi)
    have hle : t.countOf i * ((t.divideLoad d).loadSlice d).toNat ≤ (t.sharedLoad d).toNat :=
      Nat.le_trans (Nat.mul_le_mul_right _ hone) hslices
    rw [UInt64.toNat_mul, h.toNat_irqDelta]
    exact Nat.mod_eq_of_lt (Nat.lt_of_le_of_lt hle (t.sharedLoad d).toNat_lt)
  have hload : ∀ i ∈ (t.obj d).interrupts, ((t.computeIrqBranchLoadShare d).info i).load =
      t.sliceOf ((t.divideLoad d).loadSlice d) i := by
    intro i hi
    rw [computeIrqBranchLoadShare_irqLoad, if_pos ⟨hi, hentries i hi⟩]
  refine ⟨hproduct, fun i hi => ?_, ?_, fun hshare hcounts => ?_⟩
  · rw [hload i hi, sliceOf]
    split
    · exact UInt64.le_rfl
    · rename_i hne
      rw [UInt64.le_iff_toNat_le]
      exact Nat.pos_of_ne_zero fun hzero => hne (UInt64.toNat_inj.mp hzero)
  · -- an IRQ whose product is zero has the load 1: it is left out of the sum
    calc (((t.obj d).interrupts.filter fun i =>
          t.irqDelta i * (t.divideLoad d).loadSlice d ≠ 0).map fun i =>
            ((t.computeIrqBranchLoadShare d).info i).load.toNat).sum
        = (((t.obj d).interrupts.filter fun i =>
            t.irqDelta i * (t.divideLoad d).loadSlice d ≠ 0).map fun i =>
              t.countOf i * ((t.divideLoad d).loadSlice d).toNat).sum := by
          refine congrArg List.sum (List.map_congr_left fun i hi => ?_)
          obtain ⟨hmem, hne⟩ := List.mem_filter.mp hi
          rw [hload i hmem, sliceOf, if_neg (of_decide_eq_true hne), hproduct i hmem]
      _ ≤ ((t.obj d).interrupts.map fun i =>
            t.countOf i * ((t.divideLoad d).loadSlice d).toNat).sum :=
          sum_map_le_of_subperm _ List.filter_sublist.subperm
      _ = t.countsOn d * ((t.divideLoad d).loadSlice d).toNat := List.sum_map_mul_right ..
      _ ≤ (t.sharedLoad d).toNat := hslices
  · rw [List.sum_map_mul_right]
    exact mul_div_sub_lt _ _ (UInt64.lt_iff_toNat_lt.mp hshare) hcounts

/-- A CPU with two IRQs, one of which has counted seven times and one five times. -/
def twoIrqs : State where
  topo := { cpus := [{ load := 100, interrupts := [0, 1] }] }
  irqs := { interruptsDb := [{ irqCount := 10, lastIrqCount := 3 }, { irqCount := 5 }] }

theorem twoIrqs_counted : twoIrqs.Counted
  | 0 => by decide
  | 1 => by decide
  | _ + 2 => UInt64.le_rfl

theorem sharesOut_twoIrqs : twoIrqs.SharesOut ⟨.cpu, 0⟩ :=
  sharesOut twoIrqs twoIrqs_counted [] ⟨.cpu, 0⟩ (by decide) (by rw [ShareFits]; decide +kernel)

end State

end CodeAnalyze.Irqbalance
