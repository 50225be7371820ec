import Mathlib.Algebra.BigOperators.Ring.List
import Mathlib.Algebra.Order.BigOperators.Group.List
import Mathlib.Algebra.Order.Ring.Nat

/-!
# Sums of machine words

What a loop that adds up 64-bit words computes as long as the sum fits.
-/

namespace CodeAnalyze.Lib

variable {α : Type*}

/-- The sum of words, as a number. -/
def wordSum (f : α → UInt64) (l : List α) : ℕ := (l.map fun x => (f x).toNat).sum

theorem wordSum_cons (f : α → UInt64) (x : α) (l : List α) :
    wordSum f (x :: l) = (f x).toNat + wordSum f l := by
  simp [wordSum]

theorem wordSum_append (f : α → UInt64) (l l' : List α) :
    wordSum f (l ++ l') = wordSum f l + wordSum f l' := by
  simp [wordSum]

theorem wordSum_perm (f : α → UInt64) {l l' : List α} (h : l.Perm l') :
    wordSum f l = wordSum f l' :=
  (h.map _).sum_eq

theorem wordSum_congr {f g : α → UInt64} {l : List α} (h : ∀ x ∈ l, f x = g x) :
    wordSum f l = wordSum g l := by
  unfold wordSum
  rw [List.map_congr_left fun x hx => congrArg UInt64.toNat (h x hx)]

/-- The loop adds up the words, modulo their size. -/
theorem toNat_foldl_words_mod (f : α → UInt64) (l : List α) (a : UInt64) :
    (l.foldl (fun acc x => acc + f x) a).toNat = (a.toNat + wordSum f l) % 2 ^ 64 := by
  induction l generalizing a with
  | nil => simp [wordSum, Nat.mod_eq_of_lt a.toNat_lt]
  | cons x rest ih =>
      calc ((x :: rest).foldl (fun acc x => acc + f x) a).toNat
          = ((a + f x).toNat + wordSum f rest) % 2 ^ 64 := ih (a + f x)
        _ = (a.toNat + wordSum f (x :: rest)) % 2 ^ 64 := by
            rw [UInt64.toNat_add, Nat.mod_add_mod, wordSum_cons, Nat.add_assoc]

/-- The loop adds up what it should while the sum fits. -/
theorem toNat_foldl_words (f : α → UInt64) (l : List α) (a : UInt64)
    (h : a.toNat + wordSum f l < 2 ^ 64) :
    (l.foldl (fun acc x => acc + f x) a).toNat = a.toNat + wordSum f l := by
  rw [toNat_foldl_words_mod, Nat.mod_eq_of_lt h]

/-- A difference of words is the difference of the numbers where it does not wrap. -/
theorem toNat_sub_add {a b : UInt64} (h : b ≤ a) : (a - b).toNat + b.toNat = a.toNat := by
  rw [UInt64.toNat_sub_of_le a b h]
  have := UInt64.le_iff_toNat_le.mp h
  omega

theorem toNat_add_of_lt {a b : UInt64} (h : a.toNat + b.toNat < 2 ^ 64) :
    (a + b).toNat = a.toNat + b.toNat := by
  rw [UInt64.toNat_add, Nat.mod_eq_of_lt h]

/-- A mask of the lowest bits takes the remainder of a sum, wrapped or not. -/
theorem toNat_add_and_mask {p d m : UInt64} {k : ℕ} (hk : k ≤ 64) (hm : m.toNat = 2 ^ k - 1) :
    ((p + d) &&& m).toNat = (p.toNat + d.toNat) % 2 ^ k := by
  rw [UInt64.toNat_and, hm, Nat.and_two_pow_sub_one_eq_mod, UInt64.toNat_add]
  exact Nat.mod_mod_of_dvd _ (Nat.pow_dvd_pow 2 hk)

/-- A summand fits into the sum. -/
theorem le_wordSum (f : α → UInt64) {l : List α} {x : α} (hx : x ∈ l) :
    (f x).toNat ≤ wordSum f l :=
  List.single_le_sum (fun _ _ => Nat.zero_le _) _ (List.mem_map_of_mem hx)

/-- Two summands at different places fit into the sum. -/
theorem add_le_wordSum [DecidableEq α] (f : α → UInt64) {l : List α} {x y : α} (hx : x ∈ l)
    (hy : y ∈ l) (hne : y ≠ x) : (f x).toNat + (f y).toNat ≤ wordSum f l := by
  have hrest : y ∈ l.erase x := (List.mem_erase_of_ne hne).mpr hy
  have hle : (f y).toNat ≤ wordSum f (l.erase x) := le_wordSum f hrest
  rw [wordSum_perm f (List.perm_cons_erase hx), wordSum_cons]
  omega

/-- Part of the summands add up to no more than all. -/
theorem sum_map_le_of_subperm (count : α → ℕ) {l l' : List α} (h : l.Subperm l') :
    (l.map count).sum ≤ (l'.map count).sum := by
  obtain ⟨m, hperm, hsub⟩ := h
  calc (l.map count).sum = (m.map count).sum := ((hperm.map count).sum_eq).symm
    _ ≤ (l'.map count).sum := (hsub.map count).sum_le_sum fun _ _ => Nat.zero_le _

/-- Where a summand is gone and no other has grown, the sum is less by the summand. -/
theorem sum_map_add_le [DecidableEq α] {f g : α → ℕ} {l : List α} {x : α} (hx : x ∈ l)
    (hgone : f x = 0) (hle : ∀ y, f y ≤ g y) : (l.map f).sum + g x ≤ (l.map g).sum := by
  have hperm := List.perm_cons_erase hx
  have hrest : ((l.erase x).map f).sum ≤ ((l.erase x).map g).sum :=
    List.sum_le_sum fun y _ => hle y
  rw [(hperm.map f).sum_eq, (hperm.map g).sum_eq, List.map_cons, List.map_cons, List.sum_cons,
    List.sum_cons, hgone]
  omega

end CodeAnalyze.Lib
