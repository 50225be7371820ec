import Mathlib.Data.Int.Notation
import Mathlib.Data.List.Basic
import Mathlib.Data.List.Perm.Basic
import Mathlib.Tactic.Common

/-!
# `g_list_sort`

The merge sort of `glib-local/glist.c`.  It takes its comparison as it comes:
nothing here assumes that the comparison is an order, and the result is a
permutation of the list whatever the comparison says.
-/

namespace CodeAnalyze.Irqbalance

variable {α : Type*}

/-- `g_list_sort_merge`. -/
def gListSortMerge (cmp : α → α → ℤ) : List α → List α → List α
  | [], l2 => l2
  | l1, [] => l1
  | a :: l1, b :: l2 =>
    if cmp a b ≤ 0 then a :: gListSortMerge cmp l1 (b :: l2)
    else b :: gListSortMerge cmp (a :: l1) l2
termination_by l1 l2 => l1.length + l2.length

/-- `g_list_sort_real`.  The two pointers that walk the list, one twice as fast
as the other, stop with the first half of the list, rounded down, before the
cut. -/
def gListSort (cmp : α → α → ℤ) (list : List α) : List α :=
  if list.length ≤ 1 then list
  else
    gListSortMerge cmp (gListSort cmp (list.take (list.length / 2)))
      (gListSort cmp (list.drop (list.length / 2)))
termination_by list.length
decreasing_by all_goals simp; omega

theorem gListSortMerge_perm (cmp : α → α → ℤ) (l1 l2 : List α) :
    (gListSortMerge cmp l1 l2).Perm (l1 ++ l2) := by
  fun_induction gListSortMerge cmp l1 l2 with
  | case1 l2 => exact .refl _
  | case2 l1 => simp
  | case3 a l1 b l2 hle ih => exact ih.cons a
  | case4 a l1 b l2 hgt ih => exact (ih.cons b).trans List.perm_middle.symm

/-- Sorting loses no element and adds none. -/
theorem gListSort_perm (cmp : α → α → ℤ) (list : List α) :
    (gListSort cmp list).Perm list := by
  fun_induction gListSort cmp list with
  | case1 list hshort => exact .refl _
  | case2 list hlong ih1 ih2 =>
      have hhalves := (gListSortMerge_perm cmp _ _).trans (ih1.append ih2)
      rwa [List.take_append_drop] at hhalves

/-- What the merge leaves in order: everything, where `le` is transitive and the
comparison of any two elements tells which of them may come first. -/
theorem pairwise_gListSortMerge {cmp : α → α → ℤ} {le : α → α → Prop}
    (htrans : ∀ a b c, le a b → le b c → le a c) (l1 l2 : List α)
    (h1 : l1.Pairwise le) (h2 : l2.Pairwise le)
    (htells : ∀ a ∈ l1, ∀ b ∈ l2, if cmp a b ≤ 0 then le a b else le b a) :
    (gListSortMerge cmp l1 l2).Pairwise le := by
  fun_induction gListSortMerge cmp l1 l2 with
  | case1 l2 => exact h2
  | case2 l1 => exact h1
  | case3 a l1 b l2 hle ih =>
      obtain ⟨hfirst, h1⟩ := List.pairwise_cons.mp h1
      have hab : le a b := by simpa [hle] using htells a (by simp) b (by simp)
      refine List.pairwise_cons.mpr ⟨fun x hx => ?_, ih h1 h2 fun a ha => htells a (by simp [ha])⟩
      rcases List.mem_append.mp ((gListSortMerge_perm cmp l1 _).mem_iff.mp hx) with hx | hx
      · exact hfirst x hx
      · rcases List.mem_cons.mp hx with rfl | hx
        · exact hab
        · exact htrans _ _ _ hab (List.rel_of_pairwise_cons h2 hx)
  | case4 a l1 b l2 hgt ih =>
      obtain ⟨hfirst, h2⟩ := List.pairwise_cons.mp h2
      have hba : le b a := by simpa [hgt] using htells a (by simp) b (by simp)
      refine List.pairwise_cons.mpr
        ⟨fun x hx => ?_, ih h1 h2 fun a ha c hc => htells a ha c (by simp [hc])⟩
      rcases List.mem_append.mp ((gListSortMerge_perm cmp _ l2).mem_iff.mp hx) with hx | hx
      · rcases List.mem_cons.mp hx with rfl | hx
        · exact hba
        · exact htrans _ _ _ hba (List.rel_of_pairwise_cons h1 hx)
      · exact hfirst x hx

theorem pairwise_gListSort {cmp : α → α → ℤ} {le : α → α → Prop}
    (htrans : ∀ a b c, le a b → le b c → le a c) (list : List α)
    (htells : ∀ a ∈ list, ∀ b ∈ list, if cmp a b ≤ 0 then le a b else le b a) :
    (gListSort cmp list).Pairwise le := by
  fun_induction gListSort cmp list with
  | case1 list hshort =>
      match list, hshort with
      | [], _ => exact .nil
      | [a], _ => exact List.pairwise_singleton le a
  | case2 list hlong ih1 ih2 =>
      have hleft {a : α} (ha : a ∈ list.take (list.length / 2)) : a ∈ list :=
        List.mem_of_mem_take ha
      have hright {a : α} (ha : a ∈ list.drop (list.length / 2)) : a ∈ list :=
        List.mem_of_mem_drop ha
      apply pairwise_gListSortMerge htrans
      · exact ih1 fun a ha b hb => htells a (hleft ha) b (hleft hb)
      · exact ih2 fun a ha b hb => htells a (hright ha) b (hright hb)
      · intro a ha b hb
        exact htells a (hleft ((gListSort_perm cmp _).mem_iff.mp ha)) b
          (hright ((gListSort_perm cmp _).mem_iff.mp hb))

theorem sublist_gListSortMerge (cmp : α → α → ℤ) (l1 l2 : List α) :
    l2.Sublist (gListSortMerge cmp l1 l2) := by
  fun_induction gListSortMerge cmp l1 l2 with
  | case1 l2 => exact .refl l2
  | case2 l1 => exact List.nil_sublist l1
  | case3 a l1 b l2 hle ih => exact ih.cons a
  | case4 a l1 b l2 hgt ih => exact ih.cons_cons b

theorem gListSort_pair {cmp : α → α → ℤ} {a b : α} (hgt : 0 < cmp a b) :
    gListSort cmp [a, b] = [b, a] := by
  have hhalves : gListSort cmp [a, b] =
      gListSortMerge cmp (gListSort cmp [a]) (gListSort cmp [b]) := by
    rw [gListSort, if_neg (by simp)]
    simp
  have hsingle (c : α) : gListSort cmp [c] = [c] := by
    rw [gListSort, if_pos (by simp)]
  rw [hhalves, hsingle, hsingle, gListSortMerge, if_neg (by omega), gListSortMerge]
  simp

/-- The last two elements of a list meet in a merge of their own, and no later merge
turns them round. -/
theorem swapped_sublist_gListSort {cmp : α → α → ℤ} {a b : α} (hgt : 0 < cmp a b)
    (front : List α) : [b, a].Sublist (gListSort cmp (front ++ [a, b])) := by
  induction hlength : front.length using Nat.strongRecOn generalizing front with
  | _ length ih =>
    subst hlength
    rcases List.eq_nil_or_concat front with rfl | ⟨rest, last, hfront⟩
    · rw [List.nil_append, gListSort_pair hgt]
    · have hpos : 0 < front.length := by simp [hfront]
      have hroom : (front ++ [a, b]).length / 2 ≤ front.length := by simp; omega
      rw [gListSort, if_neg (by simp)]
      apply List.Sublist.trans _ (sublist_gListSortMerge cmp _ _)
      rw [List.drop_append_of_le_length hroom]
      exact ih _ (by simp; omega) _ rfl

end CodeAnalyze.Irqbalance
