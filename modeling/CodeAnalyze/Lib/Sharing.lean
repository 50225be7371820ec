import Mathlib.Algebra.BigOperators.Group.List.Basic
import Mathlib.Algebra.Order.BigOperators.Group.List
import Mathlib.Algebra.Order.Ring.Nat

/-!
# Handing numbers down

Every parent splits what it has evenly among its children, rounded down, and each
child adds what is its own.  Nothing is lost but the remainders.
-/

namespace CodeAnalyze.Lib

variable {Parent Child : Type*} (kids : Parent → List Child) (amount : Parent → ℕ)
  (own got : Child → ℕ)

/-- One parent. -/
theorem sum_kids_add_mod {p : Parent}
    (hgot : ∀ c ∈ kids p, got c = amount p / (kids p).length + own c) :
    ((kids p).map got).sum + amount p % (kids p).length =
      amount p + ((kids p).map own).sum := by
  have hsplit : ((kids p).map got).sum =
      (kids p).length * (amount p / (kids p).length) + ((kids p).map own).sum := by
    rw [List.map_congr_left hgot, List.sum_map_add, List.map_const', List.sum_replicate,
      Nat.nsmul_eq_mul]
  have hdivision := Nat.div_add_mod (amount p) (kids p).length
  omega

/-- All parents: what the children have and what was lost is what the parents had and
what is the children's own. -/
theorem sum_handedDown (parents : List Parent)
    (hgot : ∀ p ∈ parents, ∀ c ∈ kids p, got c = amount p / (kids p).length + own c) :
    ((parents.flatMap kids).map got).sum +
        (parents.map fun p => amount p % (kids p).length).sum =
      (parents.map amount).sum + ((parents.flatMap kids).map own).sum := by
  induction parents with
  | nil => rfl
  | cons p parents ih =>
      have hone := sum_kids_add_mod kids amount own got (hgot p List.mem_cons_self)
      have hrest := ih fun q hq => hgot q (List.mem_cons_of_mem _ hq)
      simp only [List.flatMap_cons, List.map_append, List.map_cons, List.sum_append, List.sum_cons]
      omega

/-- A parent with children loses less than one for each of them. -/
theorem sum_remainders_le (parents : List Parent) (hkids : ∀ p ∈ parents, kids p ≠ []) :
    (parents.map fun p => amount p % (kids p).length).sum ≤
      (parents.map fun p => (kids p).length - 1).sum := by
  refine List.sum_le_sum fun p hp => ?_
  have hpos : 0 < (kids p).length := List.length_pos_of_ne_nil (hkids p hp)
  have hlt := Nat.mod_lt (amount p) hpos
  omega

end CodeAnalyze.Lib
