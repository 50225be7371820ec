import CodeAnalyze.Irqbalance.IrqBalancing
import CodeAnalyze.Lib.Words
import Mathlib.Data.Int.ModEq
import Mathlib.Tactic.LinearCombination
import Mathlib.Tactic.Ring

/-!
# The statistics of a list of objects

`gather_load_stats` takes a least load of 0 for one that is not set yet, and so forgets it
at the next object.  `compute_deviations` squares and adds up in 64 bits.
-/

namespace CodeAnalyze.Irqbalance

open Lib (wordSum)

section
variable {t : Topology}

/-- The load of an object on a list. -/
def Topology.loadOf (t : Topology) (d : ObjRef) : UInt64 := (t.obj d).load

/-- What `gather_load_stats` does to the least load. -/
def leastStep (t : Topology) (least : UInt64) (d : ObjRef) : UInt64 :=
  if least = 0 || t.loadOf d < least then t.loadOf d else least

theorem foldl_gatherLoadStats (list : List ObjRef) (info : LoadBalanceInfo) :
    list.foldl (gatherLoadStats t) info =
      { info with
        minLoad := list.foldl (leastStep t) info.minLoad
        totalLoad := list.foldl (fun acc d => acc + t.loadOf d) info.totalLoad
        loadSources := info.loadSources + list.length } := by
  induction list generalizing info with
  | nil => rfl
  | cons d rest ih =>
      rw [List.foldl_cons, ih, List.length_cons, Nat.add_comm rest.length, ← Nat.add_assoc]
      rfl

/-- From a load on that is not zero, over objects that are not idle, the least load is kept. -/
theorem foldl_leastStep {list : List ObjRef} (h : ∀ d ∈ list, t.loadOf d ≠ 0) {least : UInt64}
    (hleast : least ≠ 0) :
    list.foldl (leastStep t) least ≤ least ∧
      (∀ d ∈ list, list.foldl (leastStep t) least ≤ t.loadOf d) ∧
      (list.foldl (leastStep t) least = least ∨
        ∃ d ∈ list, list.foldl (leastStep t) least = t.loadOf d) := by
  induction list generalizing least with
  | nil => exact ⟨UInt64.le_rfl, by simp, .inl rfl⟩
  | cons d rest ih =>
      have hrest : ∀ e ∈ rest, t.loadOf e ≠ 0 := fun e he => h e (List.mem_cons_of_mem d he)
      rw [List.foldl_cons]
      by_cases hlt : t.loadOf d < least
      · have hstep : leastStep t least d = t.loadOf d := by simp [leastStep, hlt]
        rw [hstep]
        obtain ⟨hle, hall, hsome⟩ := ih hrest (h d List.mem_cons_self)
        refine ⟨UInt64.le_trans hle (UInt64.le_of_lt hlt), List.forall_mem_cons.mpr ⟨hle, hall⟩, ?_⟩
        right
        rcases hsome with heq | ⟨e, he, heq⟩
        · exact ⟨d, List.mem_cons_self, heq⟩
        · exact ⟨e, List.mem_cons_of_mem d he, heq⟩
      · have hstep : leastStep t least d = least := by simp [leastStep, hlt, hleast]
        rw [hstep]
        obtain ⟨hle, hall, hsome⟩ := ih hrest hleast
        refine ⟨hle, List.forall_mem_cons.mpr ⟨UInt64.le_trans hle (UInt64.not_lt.mp hlt), hall⟩, ?_⟩
        rcases hsome with heq | ⟨e, he, heq⟩
        · exact .inl heq
        · exact .inr ⟨e, List.mem_cons_of_mem d he, heq⟩

/-- The load is the least of a list. -/
def IsLeastLoad (t : Topology) (list : List ObjRef) (least : UInt64) : Prop :=
  (∃ d ∈ list, least = t.loadOf d) ∧ ∀ d ∈ list, least ≤ t.loadOf d

theorem IsLeastLoad.unique {list list' : List ObjRef} {least least' : UInt64}
    (h : IsLeastLoad t list least) (hperm : list.Perm list') (h' : IsLeastLoad t list' least') :
    least' = least := by
  obtain ⟨⟨d, hd, heq⟩, hle⟩ := h
  obtain ⟨⟨d', hd', heq'⟩, hle'⟩ := h'
  apply UInt64.le_antisymm
  · rw [heq]
    exact hle' d (hperm.mem_iff.mp hd)
  · rw [heq']
    exact hle d' (hperm.mem_iff.mpr hd')

/-- Without idle objects the walk finds the least load. -/
theorem isLeastLoad_of_busy {list : List ObjRef} (hne : list ≠ [])
    (h : ∀ d ∈ list, t.loadOf d ≠ 0) : IsLeastLoad t list (list.foldl (leastStep t) 0) := by
  obtain ⟨d, rest, rfl⟩ := List.exists_cons_of_ne_nil hne
  have hstep : leastStep t 0 d = t.loadOf d := by simp [leastStep]
  rw [List.foldl_cons, hstep]
  obtain ⟨hle, hall, hsome⟩ :=
    foldl_leastStep (fun e he => h e (List.mem_cons_of_mem d he)) (h d List.mem_cons_self)
  refine ⟨?_, List.forall_mem_cons.mpr ⟨hle, hall⟩⟩
  rcases hsome with heq | ⟨e, he, heq⟩
  · exact ⟨d, List.mem_cons_self, heq⟩
  · exact ⟨e, List.mem_cons_of_mem d he, heq⟩

/-- Idle objects leave the least load unset. -/
theorem foldl_leastStep_idle {list : List ObjRef} (h : ∀ d ∈ list, t.loadOf d = 0) :
    list.foldl (leastStep t) 0 = 0 := by
  induction list with
  | nil => rfl
  | cons d rest ih =>
      have hstep : leastStep t 0 d = 0 := by simp [leastStep, h d List.mem_cons_self]
      rw [List.foldl_cons, hstep]
      exact ih fun e he => h e (List.mem_cons_of_mem d he)

/-! ## `gather_load_stats` -/

/-- The walk finds the least load, the sum and the number of the loads, in whatever order the
objects stand, and only objects of the least load escape the test for more. -/
structure GathersStats (t : Topology) (list : List ObjRef) : Prop where
  least : IsLeastLoad t list (list.foldl (gatherLoadStats t) {}).minLoad
  total : (list.foldl (gatherLoadStats t) {}).totalLoad.toNat = wordSum t.loadOf list
  sources : (list.foldl (gatherLoadStats t) {}).loadSources = list.length
  perm : ∀ list', list.Perm list' →
    (list'.foldl (gatherLoadStats t) {}).minLoad = (list.foldl (gatherLoadStats t) {}).minLoad ∧
    (list'.foldl (gatherLoadStats t) {}).totalLoad = (list.foldl (gatherLoadStats t) {}).totalLoad ∧
    (list'.foldl (gatherLoadStats t) {}).loadSources =
      (list.foldl (gatherLoadStats t) {}).loadSources
  escape : ∀ d ∈ list, ¬t.loadOf d > (list.foldl (gatherLoadStats t) {}).minLoad →
    ∀ e ∈ list, t.loadOf d ≤ t.loadOf e

/-- The objects are all idle, or none is. -/
def AllOrNoneIdle (t : Topology) (list : List ObjRef) : Prop :=
  (∀ d ∈ list, t.loadOf d ≠ 0) ∨ ∀ d ∈ list, t.loadOf d = 0

theorem isLeastLoad_gathered {list : List ObjRef} (hne : list ≠ []) (h : AllOrNoneIdle t list) :
    IsLeastLoad t list (list.foldl (gatherLoadStats t) {}).minLoad := by
  rw [foldl_gatherLoadStats]
  rcases h with hbusy | hidle
  · exact isLeastLoad_of_busy hne hbusy
  · obtain ⟨d, rest, rfl⟩ := List.exists_cons_of_ne_nil hne
    change IsLeastLoad t _ (List.foldl (leastStep t) 0 _)
    rw [foldl_leastStep_idle hidle]
    exact ⟨⟨d, List.mem_cons_self, (hidle d List.mem_cons_self).symm⟩, fun e _ => UInt64.zero_le⟩

theorem toNat_gathered_total (list : List ObjRef) :
    (list.foldl (gatherLoadStats t) {}).totalLoad.toNat = wordSum t.loadOf list % 2 ^ 64 := by
  rw [foldl_gatherLoadStats]
  change (list.foldl (fun acc d => acc + t.loadOf d) 0).toNat = _
  rw [Lib.toNat_foldl_words_mod]
  simp

theorem gathered_sources (list : List ObjRef) :
    (list.foldl (gatherLoadStats t) {}).loadSources = list.length := by
  rw [foldl_gatherLoadStats]
  exact Nat.zero_add _

/-- The order of the objects in which the idle ones come first. -/
theorem not_gathersStats_of_mixed {list : List ObjRef} {d e : ObjRef} (hd : d ∈ list)
    (he : e ∈ list) (hidle : t.loadOf d = 0) (hbusy : t.loadOf e ≠ 0) : ¬GathersStats t list := by
  intro h
  obtain ⟨idle, hidles⟩ : ∃ l, l = list.filter fun d => t.loadOf d = 0 := ⟨_, rfl⟩
  obtain ⟨busy, hbusies⟩ : ∃ l, l = list.filter fun d => !decide (t.loadOf d = 0) := ⟨_, rfl⟩
  have hperm : list.Perm (idle ++ busy) := by
    rw [hidles, hbusies]
    exact (List.filter_append_perm _ list).symm
  have hin : e ∈ busy := hbusies ▸ List.mem_filter.mpr ⟨he, by simpa using hbusy⟩
  have hall : ∀ x ∈ busy, t.loadOf x ≠ 0 := by
    intro x hx
    rw [hbusies] at hx
    simpa using (List.mem_filter.mp hx).2
  have hnone : ∀ x ∈ idle, t.loadOf x = 0 := by
    intro x hx
    rw [hidles] at hx
    simpa using (List.mem_filter.mp hx).2
  obtain ⟨⟨x, hx, heq⟩, -⟩ := isLeastLoad_of_busy (List.ne_nil_of_mem hin) hall
  have hmin : ((idle ++ busy).foldl (gatherLoadStats t) {}).minLoad = t.loadOf x := by
    rw [foldl_gatherLoadStats]
    change (idle ++ busy).foldl (leastStep t) 0 = t.loadOf x
    rw [List.foldl_append, foldl_leastStep_idle hnone, heq]
  have hzero : (list.foldl (gatherLoadStats t) {}).minLoad ≤ 0 := hidle ▸ h.least.2 d hd
  rw [← (h.perm _ hperm).1, hmin] at hzero
  exact hall x hx (UInt64.le_zero_iff.mp hzero)

/-- The statistics are right for a list of which all objects are idle or none is, and whose
loads add up to a number that fits. -/
theorem gathersStats_iff {list : List ObjRef} (hne : list ≠ []) :
    GathersStats t list ↔ AllOrNoneIdle t list ∧ wordSum t.loadOf list < 2 ^ 64 := by
  constructor
  · intro h
    refine ⟨?_, h.total ▸ UInt64.toNat_lt _⟩
    by_contra hmixed
    obtain ⟨hbusy, hidle⟩ := not_or.mp hmixed
    push Not at hbusy hidle
    obtain ⟨d, hd, hzero⟩ := hbusy
    obtain ⟨e, he, hpos⟩ := hidle
    exact not_gathersStats_of_mixed hd he hzero hpos h
  · rintro ⟨hidle, hfits⟩
    have hleast := isLeastLoad_gathered hne hidle
    refine ⟨hleast, ?_, gathered_sources list, fun list' hperm => ⟨?_, ?_, ?_⟩, ?_⟩
    · rw [toNat_gathered_total, Nat.mod_eq_of_lt hfits]
    · have hne' : list' ≠ [] := fun hnil => hne (List.perm_nil.mp (hnil ▸ hperm))
      have hidle' : AllOrNoneIdle t list' :=
        hidle.imp (fun h d hd => h d (hperm.mem_iff.mpr hd)) fun h d hd => h d (hperm.mem_iff.mpr hd)
      exact hleast.unique hperm (isLeastLoad_gathered hne' hidle')
    · rw [← UInt64.toNat_inj, toNat_gathered_total, toNat_gathered_total, Lib.wordSum_perm _ hperm]
    · rw [gathered_sources, gathered_sources, hperm.length_eq]
    · intro d hd hescape e he
      exact UInt64.le_trans (UInt64.not_lt.mp hescape) (hleast.2 e he)

/-- Two CPUs with these loads. -/
def twoCpus (load load' : UInt64) : Topology := { cpus := [{ load }, { load := load' }] }

theorem gathersStats_twoCpus : GathersStats (twoCpus 5 7) ((twoCpus 5 7).refs .cpu) :=
  (gathersStats_iff (by decide)).mpr ⟨.inl (by decide), by decide⟩

/-- Behind an idle CPU a busy one counts as the one of the least load. -/
theorem not_gathersStats : ¬GathersStats (twoCpus 0 5) ((twoCpus 0 5).refs .cpu) := by
  intro h
  have hle := h.least.2 ⟨.cpu, 0⟩ (by decide)
  exact absurd hle (by decide)

/-! ## `compute_deviations` -/

/-- The squared differences between the loads and a number. -/
def squaredDeviations (t : Topology) (list : List ObjRef) (avg : ℕ) : ℤ :=
  (list.map fun d => ((t.loadOf d).toNat - avg : ℤ) ^ 2).sum

/-- The integer average of the loads. -/
def avgLoadOf (t : Topology) (list : List ObjRef) : ℕ := wordSum t.loadOf list / list.length

/-- The average in words: the sum and the number of the loads wrap. -/
def wrappedAvgLoad (t : Topology) (list : List ObjRef) : ℕ :=
  wordSum t.loadOf list % 2 ^ 64 / (list.length % 2 ^ 64)

/-- How far the sums of squares about two numbers are apart. -/
theorem squaredDeviations_sub (list : List ObjRef) (a b : ℕ) :
    squaredDeviations t list b - squaredDeviations t list a =
      (a - b) * (2 * wordSum t.loadOf list - list.length * (a + b)) := by
  induction list with
  | nil => simp [squaredDeviations, wordSum]
  | cons d rest ih =>
      have hcons : ∀ c : ℕ, squaredDeviations t (d :: rest) c =
          ((t.loadOf d).toNat - c : ℤ) ^ 2 + squaredDeviations t rest c := fun c => by
        simp [squaredDeviations]
      rw [hcons, hcons, Lib.wordSum_cons, List.length_cons]
      push_cast
      linear_combination ih

/-- What `compute_deviations` adds for a load. -/
def deviationWord (load avg : UInt64) : UInt64 :=
  (if load > avg then load - avg else avg - load) *
    (if load > avg then load - avg else avg - load)

theorem foldl_computeDeviations (list : List ObjRef) (info : LoadBalanceInfo) :
    list.foldl (computeDeviations t) info =
      { info with
        deviations :=
          list.foldl (fun acc d => acc + deviationWord (t.loadOf d) info.avgLoad)
            info.deviations } := by
  induction list generalizing info with
  | nil => rfl
  | cons d rest ih =>
      rw [List.foldl_cons, ih]
      rfl

theorem deviationWord_modEq (load avg : UInt64) :
    ((deviationWord load avg).toNat : ℤ) ≡ (load.toNat - avg.toNat : ℤ) ^ 2 [ZMOD 2 ^ 64] := by
  obtain ⟨dev, hdev⟩ : ∃ dev, dev = if load > avg then load - avg else avg - load := ⟨_, rfl⟩
  have hsquare : (dev.toNat : ℤ) ^ 2 = (load.toNat - avg.toNat : ℤ) ^ 2 := by
    rw [hdev]
    split
    · rename_i hgt
      rw [UInt64.toNat_sub_of_le _ _ (UInt64.le_of_lt hgt),
        Nat.cast_sub (UInt64.le_iff_toNat_le.mp (UInt64.le_of_lt hgt))]
    · rename_i hle
      have hle' : load ≤ avg := UInt64.not_lt.mp hle
      rw [UInt64.toNat_sub_of_le _ _ hle', Nat.cast_sub (UInt64.le_iff_toNat_le.mp hle')]
      ring
  have hword : (deviationWord load avg).toNat = dev.toNat * dev.toNat % 2 ^ 64 := by
    rw [deviationWord, ← hdev, UInt64.toNat_mul]
  rw [hword, ← hsquare, sq]
  push_cast
  exact Int.mod_modEq _ _

/-- Modulo the size of a word the sum of the squares is right, about the average in words. -/
theorem wordSum_deviationWord_modEq (list : List ObjRef) (avg : UInt64) :
    (wordSum (fun d => deviationWord (t.loadOf d) avg) list : ℤ) ≡
      squaredDeviations t list avg.toNat [ZMOD 2 ^ 64] := by
  induction list with
  | nil => rfl
  | cons d rest ih =>
      have hcons : squaredDeviations t (d :: rest) avg.toNat =
          ((t.loadOf d).toNat - avg.toNat : ℤ) ^ 2 + squaredDeviations t rest avg.toNat := by
        simp [squaredDeviations]
      rw [Lib.wordSum_cons, hcons]
      push_cast
      exact (deviationWord_modEq (t.loadOf d) avg).add ih

/-- The average and the deviations of a list that is not empty. -/
theorem loadStats_avgLoad {list : List ObjRef} (hne : list ≠ []) :
    (loadStats t list).avgLoad.toNat = wrappedAvgLoad t list := by
  have hsources : (list.foldl (gatherLoadStats t) {}).loadSources ≠ 0 := by
    rw [gathered_sources]
    exact fun hzero => hne (List.eq_nil_of_length_eq_zero hzero)
  simp only [loadStats, foldl_computeDeviations, if_neg hsources]
  rw [UInt64.toNat_div, toNat_gathered_total, gathered_sources]
  rfl

theorem loadStats_deviations (list : List ObjRef) :
    (loadStats t list).deviations =
      list.foldl (fun acc d => acc + deviationWord (t.loadOf d) (loadStats t list).avgLoad) 0 := by
  have hzero : (list.foldl (gatherLoadStats t) {}).deviations = 0 := by
    rw [foldl_gatherLoadStats]
  simp only [loadStats, foldl_computeDeviations, hzero]

theorem loadStats_variance {list : List ObjRef} (hlen : 2 ≤ list.length) :
    (loadStats t list).variance =
      (loadStats t list).deviations / UInt64.ofNat (list.length - 1) := by
  simp only [loadStats, foldl_computeDeviations, gathered_sources]
  rw [if_neg (by omega : ¬list.length = 0), if_neg (by omega)]

/-- The deviations are the exact sum of the squares, and the variance comes from it. -/
structure DeviationsExact (t : Topology) (list : List ObjRef) : Prop where
  deviations : ((loadStats t list).deviations.toNat : ℤ) =
    squaredDeviations t list (avgLoadOf t list)
  variance : (loadStats t list).variance =
    UInt64.ofNat (squaredDeviations t list (avgLoadOf t list)).toNat /
      UInt64.ofNat (list.length - 1)

/-- The exact sum of the squares fits into 64 bits; and where the sum of the loads does not,
the error of the average cancels out. -/
theorem deviationsExact_iff {list : List ObjRef} (hlen : 2 ≤ list.length) :
    DeviationsExact t list ↔
      squaredDeviations t list (avgLoadOf t list) < 2 ^ 64 ∧
        (2 ^ 64 : ℤ) ∣ ((avgLoadOf t list : ℤ) - wrappedAvgLoad t list) *
          (2 * wordSum t.loadOf list -
            list.length * ((avgLoadOf t list : ℤ) + wrappedAvgLoad t list)) := by
  have hne : list ≠ [] := by
    rintro rfl
    exact absurd hlen (by decide)
  have hwords : ((loadStats t list).deviations.toNat : ℤ) ≡
      squaredDeviations t list (wrappedAvgLoad t list) [ZMOD 2 ^ 64] := by
    rw [loadStats_deviations, Lib.toNat_foldl_words_mod, UInt64.toNat_zero, Nat.zero_add,
      ← loadStats_avgLoad hne]
    push_cast
    exact (Int.mod_modEq _ _).trans (wordSum_deviationWord_modEq list _)
  have hlt : ((loadStats t list).deviations.toNat : ℤ) < 2 ^ 64 := by
    exact_mod_cast (loadStats t list).deviations.toNat_lt
  rw [← squaredDeviations_sub, ← Int.modEq_iff_dvd]
  constructor
  · rintro ⟨hexact, -⟩
    rw [← hexact]
    exact ⟨hlt, hwords⟩
  · rintro ⟨hfits, hcancel⟩
    have hpos : 0 ≤ squaredDeviations t list (avgLoadOf t list) :=
      List.sum_nonneg (by simp only [List.mem_map]; rintro _ ⟨d, -, rfl⟩; exact sq_nonneg _)
    have hexact : ((loadStats t list).deviations.toNat : ℤ) =
        squaredDeviations t list (avgLoadOf t list) := by
      have hmod := hwords.trans hcancel.symm
      rw [Int.ModEq, Int.emod_eq_of_lt (Int.natCast_nonneg _) hlt,
        Int.emod_eq_of_lt hpos hfits] at hmod
      exact hmod
    refine ⟨hexact, ?_⟩
    rw [loadStats_variance hlen, ← hexact, Int.toNat_natCast, UInt64.ofNat_toNat]

theorem deviationsExact_twoCpus : DeviationsExact (twoCpus 1 3) ((twoCpus 1 3).refs .cpu) :=
  (deviationsExact_iff (by decide)).mpr ⟨by decide, by decide⟩

/-- An idle CPU and one that was busy all the time, ten seconds in nanoseconds. -/
theorem not_deviationsExact :
    ¬DeviationsExact (twoCpus 0 10000000000) ((twoCpus 0 10000000000).refs .cpu) := by
  rintro ⟨hexact, -⟩
  revert hexact
  decide +kernel

end

end CodeAnalyze.Irqbalance
