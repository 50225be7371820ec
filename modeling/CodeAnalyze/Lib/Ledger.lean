import Mathlib.Data.List.Count
import Mathlib.Data.List.Nodup
import Mathlib.Data.List.Perm.Basic
import Mathlib.Algebra.BigOperators.Group.List.Basic
import Mathlib.Tactic.Common

/-!
# Lists and homes

Items are kept on lists, one list for each place, and each item also records the
place it is at.  `Agrees` says that the two descriptions are the same: an item is
on the list of its home once, and on no other list.  The operations are those of
a program that keeps both by hand: it moves an item and then writes down where
it went.
-/

namespace CodeAnalyze.Lib

variable {Place Item : Type*} [DecidableEq Place] [DecidableEq Item]

/-- Every item is on the list of its home once, and on no other list. -/
def Agrees (lists : Place → List Item) (home : Item → Option Place) : Prop :=
  ∀ i p, (lists p).count i = if home i = some p then 1 else 0

namespace Agrees

variable {lists lists' : Place → List Item} {home home' : Item → Option Place} {i j : Item}
  {p q : Place}

theorem mem_iff (h : Agrees lists home) : i ∈ lists p ↔ home i = some p := by
  rw [← List.count_pos_iff, h i p]
  split <;> simp_all

theorem nodup (h : Agrees lists home) (p : Place) : (lists p).Nodup := by
  rw [List.nodup_iff_count_le_one]
  intro i
  rw [h i p]
  split <;> omega

/-- Agreement says no more than that the lists are duplicate free and hold what
lives there. -/
theorem of_mem_iff (hnodup : ∀ p, (lists p).Nodup) (hmem : ∀ i p, i ∈ lists p ↔ home i = some p) :
    Agrees lists home := by
  intro i p
  rw [List.Nodup.count (hnodup p)]
  simp only [hmem]

theorem congr (h : Agrees lists home) (hlists : ∀ p, lists' p = lists p)
    (hhome : ∀ i, home' i = home i) : Agrees lists' home' := by
  intro i p
  rw [hlists, hhome, h i p]

/-- Sorting a list changes nothing. -/
theorem perm (h : Agrees lists home) (hlists : ∀ p, (lists' p).Perm (lists p)) :
    Agrees lists' home := by
  intro i p
  rw [(hlists p).count_eq, h i p]

/-- An item moves from the end of one list to another. -/
theorem move (h : Agrees lists home) (hp : home i = some p) (hpq : q ≠ p)
    (hlists : ∀ r, lists' r =
      if r = q then lists r ++ [i] else if r = p then (lists r).erase i else lists r)
    (hhome : ∀ j, home' j = if j = i then some q else home j) : Agrees lists' home' := by
  have hnodup := h.nodup
  have hmem : ∀ j r, j ∈ lists r ↔ home j = some r := fun j r => h.mem_iff
  refine of_mem_iff (fun r => ?_) fun j r => ?_
  · rw [hlists]
    split
    · rename_i hr
      have hnot : i ∉ lists r := by
        rw [hmem, hp, hr]
        exact fun heq => hpq (Option.some.inj heq).symm
      simpa [List.nodup_append, hnodup r] using fun j hj (heq : j = i) => hnot (heq ▸ hj)
    · split
      · exact (hnodup r).erase i
      · exact hnodup r
  · rw [hlists, hhome]
    by_cases hr : r = q
    · by_cases hj : j = i
      · simp [hr, hj]
      · simp [hr, hj, hmem]
    · by_cases hrp : r = p
      · rw [if_neg hr, if_pos hrp, (hnodup r).mem_erase_iff, hmem]
        by_cases hj : j = i <;> simp [hj, Ne.symm hr]
      · rw [if_neg hr, if_neg hrp, hmem]
        by_cases hj : j = i
        · simp [hj, hp, Ne.symm hr, Ne.symm hrp]
        · simp [hj]

/-- A homeless item is put on a list. -/
theorem file (h : Agrees lists home) (hi : home i = none)
    (hlists : ∀ r, lists' r = if r = q then lists r ++ [i] else lists r)
    (hhome : ∀ j, home' j = if j = i then some q else home j) : Agrees lists' home' := by
  intro j r
  rw [hlists, hhome]
  have hcount := h j r
  by_cases hr : r = q
  · by_cases hj : j = i
    · subst hj
      simp_all
    · simp [hr, hj, hr ▸ hcount, Ne.symm hj]
  · by_cases hj : j = i
    · subst hj
      simp [hr, Ne.symm hr, hcount, hi]
    · simp [hr, hj, hcount]

/-- Over all places, an item occurs once if its home is among them. -/
theorem count_flatMap (h : Agrees lists home) {places : List Place} (hplaces : places.Nodup) :
    (places.flatMap lists).count i = if ∃ p ∈ places, home i = some p then 1 else 0 := by
  induction places with
  | nil => simp
  | cons p places ih =>
      rw [List.nodup_cons] at hplaces
      rw [List.flatMap_cons, List.count_append, h i p, ih hplaces.2]
      by_cases hp : home i = some p
      · have hnone : ¬ ∃ q ∈ places, home i = some q := by
          rintro ⟨q, hq, hiq⟩
          rw [hp, Option.some.injEq] at hiq
          exact hplaces.1 (hiq ▸ hq)
        simp [hp, show p ∉ places from hplaces.1]
      · simp [hp]

/-- All items that live at some places are on the lists of these places. -/
theorem flatMap_perm (h : Agrees lists home) {places : List Place} (hplaces : places.Nodup)
    {items : List Item} (hitems : items.Nodup)
    (hmem : ∀ i, i ∈ items ↔ ∃ p ∈ places, home i = some p) :
    (places.flatMap lists).Perm items := by
  refine List.perm_iff_count.mpr fun i => ?_
  rw [h.count_flatMap hplaces, hitems.count]
  simp only [hmem]

/-- The items that live at a place, taken from any list that has them all. -/
theorem filter_perm (h : Agrees lists home) {items : List Item} (hitems : items.Nodup)
    (hall : ∀ i ∈ lists p, i ∈ items) :
    (items.filter fun i => home i = some p).Perm (lists p) := by
  rw [List.perm_ext_iff_of_nodup (hitems.filter _) (h.nodup p)]
  intro i
  simp only [List.mem_filter, decide_eq_true_eq, ← h.mem_iff (p := p) (i := i)]
  exact ⟨fun hi => hi.2, fun hi => ⟨hall i hi, hi⟩⟩

end Agrees

end CodeAnalyze.Lib
