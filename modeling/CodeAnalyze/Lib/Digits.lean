import Mathlib.Algebra.Order.Ring.Nat
import Mathlib.Data.List.Range
import Mathlib.Tactic.Common
import Mathlib.Tactic.Ring

/-!
# Rows of digits

The last `k` digits of a number to some base, the most significant first, and the value of
a row of digits that is read one by one.
-/

namespace CodeAnalyze.Lib

variable {b n k a : ℕ}

/-- The last `k` digits of `n`. -/
def digitRow (b n k : ℕ) : List ℕ := (List.range k).reverse.map fun i => n / b ^ i % b

@[simp] theorem length_digitRow : (digitRow b n k).length = k := by
  simp [digitRow]

theorem digitRow_succ (b n k : ℕ) : digitRow b n (k + 1) = n / b ^ k % b :: digitRow b n k := by
  unfold digitRow
  rw [List.range_succ, List.reverse_append, List.reverse_singleton, List.singleton_append,
    List.map_cons]

theorem lt_of_mem_digitRow (hb : 0 < b) {d : ℕ} (h : d ∈ digitRow b n k) : d < b := by
  obtain ⟨i, -, rfl⟩ := List.mem_map.mp h
  exact Nat.mod_lt _ hb

/-- The digits that are left out at the front of a small number are zeros. -/
theorem digitRow_add (hb : 0 < b) (h : n < b ^ k) (m : ℕ) :
    digitRow b n (m + k) = List.replicate m 0 ++ digitRow b n k := by
  induction m with
  | zero => rw [Nat.zero_add, List.replicate_zero, List.nil_append]
  | succ m ih =>
      have hlt : n < b ^ (m + k) := Nat.lt_of_lt_of_le h (Nat.pow_le_pow_right hb (by omega))
      rw [Nat.succ_add, digitRow_succ, Nat.div_eq_of_lt hlt, ih, Nat.zero_mod,
        List.replicate_succ, List.cons_append]

/-! ## The value of a row -/

/-- The value of a row of digits. -/
def rowValue (b : ℕ) (row : List ℕ) : ℕ := row.foldl (fun a d => a * b + d) 0

@[simp] theorem rowValue_nil (b : ℕ) : rowValue b [] = 0 := rfl

theorem rowValue_concat (b : ℕ) (row : List ℕ) (d : ℕ) :
    rowValue b (row ++ [d]) = rowValue b row * b + d := by
  simp [rowValue]

/-- Further digits do not make the value smaller. -/
theorem le_foldl_digits (hb : 0 < b) (a : ℕ) (row : List ℕ) :
    a ≤ row.foldl (fun a d => a * b + d) a := by
  induction row generalizing a with
  | nil => exact Nat.le_refl a
  | cons d row ih =>
      calc a ≤ a * b := Nat.le_mul_of_pos_right a hb
        _ ≤ a * b + d := Nat.le_add_right _ d
        _ ≤ row.foldl (fun a d => a * b + d) (a * b + d) := ih _

theorem rowValue_append (b : ℕ) (row more : List ℕ) :
    rowValue b (row ++ more) = rowValue b row * b ^ more.length + rowValue b more := by
  induction more using List.reverseRecOn with
  | nil => simp
  | append_singleton more d ih =>
      rw [← List.append_assoc, rowValue_concat, ih, rowValue_concat, List.length_append,
        List.length_singleton, Nat.pow_succ]
      ring

theorem rowValue_cons (b d : ℕ) (row : List ℕ) :
    rowValue b (d :: row) = d * b ^ row.length + rowValue b row := by
  rw [← List.singleton_append, rowValue_append]
  simp [rowValue]

/-- A row of digits has the value of the digits. -/
theorem rowValue_digitRow (b n k : ℕ) : rowValue b (digitRow b n k) = n % b ^ k := by
  induction k with
  | zero => simp [digitRow, Nat.mod_one]
  | succ k ih =>
      rw [digitRow_succ, rowValue_cons, length_digitRow, ih, Nat.mod_pow_succ]
      ring

/-- A row of `k` digits is less than `b ^ k`. -/
theorem rowValue_lt {row : List ℕ} (h : ∀ d ∈ row, d < b) : rowValue b row < b ^ row.length := by
  induction row with
  | nil => simp
  | cons d row ih =>
      have hd := h d List.mem_cons_self
      have hrow := ih fun e he => h e (List.mem_cons_of_mem _ he)
      calc rowValue b (d :: row) = d * b ^ row.length + rowValue b row := rowValue_cons b d row
        _ < d * b ^ row.length + b ^ row.length := Nat.add_lt_add_left hrow _
        _ = (d + 1) * b ^ row.length := by ring
        _ ≤ b * b ^ row.length := Nat.mul_le_mul_right _ hd
        _ = b ^ (d :: row).length := by rw [List.length_cons, Nat.pow_succ, Nat.mul_comm]

theorem rowValue_le_append (hb : 0 < b) (row more : List ℕ) :
    rowValue b row ≤ rowValue b (row ++ more) := by
  rw [rowValue, rowValue, List.foldl_append]
  exact le_foldl_digits hb _ more

end CodeAnalyze.Lib
