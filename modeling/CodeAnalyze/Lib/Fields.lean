import Mathlib.Algebra.BigOperators.Group.List.Basic
import Mathlib.Algebra.Order.Ring.Nat
import Mathlib.Tactic.Common
import Mathlib.Tactic.Ring

/-!
# Numbers as rows of fields

`fields k f n` is the number whose digits to the base `2 ^ k` are `f 0`, ..., `f (n - 1)`, the
lowest first.  A mask that is the same in every field cuts something out of all fields at
once, and a sum of two rows is a row as long as no field runs over.

`halves_sum` is one step of counting the bits of a word: a row of `2 * n` fields becomes one
of `n` fields of twice the width, each the sum of two neighbours.
-/

namespace CodeAnalyze.Lib

/-- The number with the digits `f 0`, ..., `f (n - 1)` to the base `2 ^ k`. -/
def fields (k : ℕ) (f : ℕ → ℕ) : ℕ → ℕ
  | 0 => 0
  | n + 1 => f 0 + 2 ^ k * fields k (fun i => f (i + 1)) n

/-- The sum of the fields. -/
def fieldTotal (f : ℕ → ℕ) (n : ℕ) : ℕ := ((List.range n).map f).sum

/-- Neighbouring fields added. -/
def pairs (f : ℕ → ℕ) (i : ℕ) : ℕ := f (2 * i) + f (2 * i + 1)

variable {k n : ℕ} {f g : ℕ → ℕ}

@[simp] theorem fields_zero : fields k f 0 = 0 := rfl

theorem fields_succ : fields k f (n + 1) = f 0 + 2 ^ k * fields k (fun i => f (i + 1)) n := rfl

theorem fields_congr (h : ∀ i < n, f i = g i) : fields k f n = fields k g n := by
  induction n generalizing f g with
  | zero => rfl
  | succ n ih =>
      rw [fields_succ, fields_succ, h 0 (Nat.succ_pos n),
        ih fun i hi => h (i + 1) (Nat.succ_lt_succ hi)]

theorem fields_add : fields k f n + fields k g n = fields k (fun i => f i + g i) n := by
  induction n generalizing f g with
  | zero => rfl
  | succ n ih =>
      rw [fields_succ, fields_succ, fields_succ, ← ih]
      ring

/-- A last field that is 0 makes no difference. -/
theorem fields_succ_of_eq_zero (h : f n = 0) : fields k f (n + 1) = fields k f n := by
  induction n generalizing f with
  | zero => simp [fields_succ, h]
  | succ n ih => rw [fields_succ, ih h, fields_succ]

/-- Two fields side by side are one of twice the width. -/
theorem fields_two_mul :
    fields k f (2 * n) = fields (2 * k) (fun i => f (2 * i) + 2 ^ k * f (2 * i + 1)) n := by
  induction n generalizing f with
  | zero => rfl
  | succ n ih =>
      rw [show 2 * (n + 1) = 2 * n + 1 + 1 from rfl, fields_succ, fields_succ, fields_succ, ih,
        two_mul k, pow_add]
      simp only [Nat.mul_zero, Nat.zero_add, Nat.mul_add, Nat.mul_one, Nat.add_right_comm]
      ring

/-- Every number is the row of its bits. -/
theorem fields_testBit {x : ℕ} (hx : x < 2 ^ n) :
    fields 1 (fun i => (x.testBit i).toNat) n = x := by
  induction n generalizing x with
  | zero =>
      rw [pow_zero] at hx
      rw [fields_zero]
      omega
  | succ n ih =>
      have hhalf : x / 2 < 2 ^ n := by
        rw [pow_succ] at hx
        omega
      have hbits : (fun i => (x.testBit (i + 1)).toNat) = fun i => ((x / 2).testBit i).toNat := by
        funext i
        rw [Nat.testBit_succ]
      have hlast : (x.testBit 0).toNat = x % 2 := by
        rw [Nat.testBit_zero]
        rcases Nat.mod_two_eq_zero_or_one x with h | h <;> simp [h]
      rw [fields_succ, hbits, ih hhalf, hlast]
      omega

/-! ## Masks -/

/-- A mask below `2 ^ (k - s)` cuts out of a field what a shift by `s` has brought down. -/
theorem shiftRight_and_split {a x m y s : ℕ} (ha : a < 2 ^ k) (hs : s ≤ k)
    (hm : m < 2 ^ (k - s)) :
    ((a + 2 ^ k * x) >>> s) &&& (m + 2 ^ k * y) =
      (a >>> s &&& m) + 2 ^ k * (x >>> s &&& y) := by
  have hmk : m < 2 ^ k := lt_of_lt_of_le hm (Nat.pow_le_pow_right (by decide) (by omega))
  have hlow : (a >>> s &&& m) < 2 ^ k := lt_of_le_of_lt Nat.and_le_right hmk
  apply Nat.eq_of_testBit_eq
  intro j
  simp only [Nat.testBit_and, Nat.testBit_shiftRight, Nat.add_comm a, Nat.add_comm m,
    Nat.add_comm (a >>> s &&& m), Nat.testBit_two_pow_mul_add x ha,
    Nat.testBit_two_pow_mul_add y hmk, Nat.testBit_two_pow_mul_add _ hlow]
  by_cases hj : j < k
  · rw [if_pos hj, if_pos hj]
    by_cases hin : s + j < k
    · rw [if_pos hin]
    · have hzero : m.testBit j = false :=
        Nat.testBit_lt_two_pow (lt_of_lt_of_le hm (Nat.pow_le_pow_right (by decide) (by omega)))
      simp [hzero]
  · rw [if_neg hj, if_neg hj, if_neg (by omega)]
    congr 2
    omega

theorem fields_shiftRight_and {m s : ℕ} (hf : ∀ i < n, f i < 2 ^ k) (hs : s ≤ k)
    (hm : m < 2 ^ (k - s)) :
    (fields k f n >>> s) &&& fields k (fun _ => m) n =
      fields k (fun i => f i >>> s &&& m) n := by
  induction n generalizing f with
  | zero => simp
  | succ n ih =>
      rw [fields_succ, fields_succ, fields_succ, shiftRight_and_split (hf 0 (Nat.succ_pos n)) hs hm,
        ih fun i hi => hf (i + 1) (Nat.succ_lt_succ hi)]

/-! ## Neighbours -/

/-- The mask for the lower ones of two neighbours. -/
def lowerHalves (k n : ℕ) : ℕ := fields (2 * k) (fun _ => 2 ^ k - 1) n

/-- What is in two neighbouring fields, one above the other. -/
theorem joined_lt {a b : ℕ} (ha : a < 2 ^ k) (hb : b < 2 ^ k) : a + 2 ^ k * b < 2 ^ (2 * k) := by
  have hle : 2 ^ k * b + 2 ^ k ≤ 2 ^ k * 2 ^ k := by
    rw [← Nat.mul_succ]
    exact Nat.mul_le_mul_left _ hb
  rw [two_mul, pow_add]
  omega

theorem and_lowerHalves (hf : ∀ i < 2 * n, f i < 2 ^ k) :
    fields k f (2 * n) &&& lowerHalves k n = fields (2 * k) (fun i => f (2 * i)) n := by
  have hpos := Nat.two_pow_pos k
  have hzero : fields k f (2 * n) = fields k f (2 * n) >>> 0 := rfl
  rw [hzero, fields_two_mul, lowerHalves,
    fields_shiftRight_and (fun i hi => joined_lt (hf _ (by omega)) (hf _ (by omega)))
      (Nat.zero_le _)]
  · refine fields_congr fun i hi => ?_
    rw [Nat.shiftRight_zero, Nat.and_two_pow_sub_one_eq_mod, Nat.add_mul_mod_self_left,
      Nat.mod_eq_of_lt (hf _ (by omega))]
  · rw [Nat.sub_zero, two_mul, pow_add]
    exact lt_of_lt_of_le (Nat.sub_lt hpos Nat.one_pos) (Nat.le_mul_of_pos_left _ hpos)

theorem shiftRight_and_lowerHalves (hf : ∀ i < 2 * n, f i < 2 ^ k) :
    (fields k f (2 * n) >>> k) &&& lowerHalves k n =
      fields (2 * k) (fun i => f (2 * i + 1)) n := by
  have hpos := Nat.two_pow_pos k
  rw [fields_two_mul, lowerHalves,
    fields_shiftRight_and (fun i hi => joined_lt (hf _ (by omega)) (hf _ (by omega))) (by omega)]
  · refine fields_congr fun i hi => ?_
    rw [Nat.shiftRight_eq_div_pow, Nat.add_mul_div_left _ _ hpos,
      Nat.div_eq_of_lt (hf _ (by omega)), Nat.zero_add, Nat.and_two_pow_sub_one_eq_mod,
      Nat.mod_eq_of_lt (hf _ (by omega))]
  · rw [show 2 * k - k = k by omega]
    exact Nat.sub_lt hpos Nat.one_pos

/-- The lower and the upper neighbours, cut out and added. -/
theorem halves_sum (hf : ∀ i < 2 * n, f i < 2 ^ k) :
    (fields k f (2 * n) &&& lowerHalves k n) +
        ((fields k f (2 * n) >>> k) &&& lowerHalves k n) =
      fields (2 * k) (pairs f) n := by
  rw [and_lowerHalves hf, shiftRight_and_lowerHalves hf, fields_add]
  rfl

/-- Of fields that hold a bit each, the upper neighbours are subtracted. -/
theorem halves_sub (hf : ∀ i < 2 * n, f i < 2 ^ 1) :
    fields 1 f (2 * n) - ((fields 1 f (2 * n) >>> 1) &&& lowerHalves 1 n) =
      fields (2 * 1) (pairs f) n := by
  have hsplit : fields 1 f (2 * n) =
      fields (2 * 1) (pairs f) n + fields (2 * 1) (fun i => f (2 * i + 1)) n := by
    rw [fields_add, fields_two_mul]
    refine fields_congr fun i _ => ?_
    unfold pairs
    omega
  rw [shiftRight_and_lowerHalves hf, hsplit, Nat.add_sub_cancel]

/-- Fields with room for the sum of two neighbours are added first and cut out then. -/
theorem halves_sum_first (hf : ∀ i < 2 * n, f i + f (i + 1) < 2 ^ k) (hend : f (2 * n) = 0) :
    (fields k f (2 * n) + (fields k f (2 * n) >>> k)) &&& lowerHalves k n =
      fields (2 * k) (pairs f) n := by
  have hshift : fields k f (2 * n) >>> k = fields k (fun i => f (i + 1)) (2 * n) := by
    cases n with
    | zero => simp
    | succ n =>
        have hlow : f 0 < 2 ^ k := lt_of_le_of_lt (Nat.le_add_right _ _) (hf 0 (by omega))
        have hlast := fields_succ_of_eq_zero (k := k) (n := 2 * n + 1)
          (f := fun i => f (i + 1)) hend
        rw [show 2 * (n + 1) = 2 * n + 1 + 1 from rfl, hlast, fields_succ,
          Nat.shiftRight_eq_div_pow, Nat.add_mul_div_left _ _ (Nat.two_pow_pos k),
          Nat.div_eq_of_lt hlow, Nat.zero_add]
  rw [hshift, fields_add, and_lowerHalves hf]
  rfl

/-- Adding neighbours keeps the sum. -/
theorem fieldTotal_pairs : fieldTotal (pairs f) n = fieldTotal f (2 * n) := by
  induction n with
  | zero => rfl
  | succ n ih =>
      unfold fieldTotal at *
      rw [show 2 * (n + 1) = 2 * n + 1 + 1 from rfl, List.range_succ, List.range_succ,
        List.range_succ, List.map_append, List.sum_append, ih]
      simp [pairs]

/-! ## Counting -/

/-- How many of the first `n` satisfy `p`. -/
def countBits (p : ℕ → Bool) (n : ℕ) : ℕ := (List.range n).countP p

theorem countBits_succ (p : ℕ → Bool) (n : ℕ) :
    countBits p (n + 1) = countBits p n + (p n).toNat := by
  unfold countBits
  rw [List.range_succ, List.countP_append]
  cases h : p n <;> simp [h]

theorem countBits_congr {p q : ℕ → Bool} (h : ∀ i < n, p i = q i) :
    countBits p n = countBits q n :=
  List.countP_congr fun i hi => by rw [h i (List.mem_range.mp hi)]

theorem countBits_add (p : ℕ → Bool) (k l : ℕ) :
    countBits p (k + l) = countBits p k + countBits (fun j => p (k + j)) l := by
  unfold countBits
  rw [List.range_add, List.countP_append, List.countP_map]
  rfl

/-- Behind a place where none is left. -/
theorem countBits_of_false {p : ℕ → Bool} {k : ℕ} (h : ∀ i, k ≤ i → p i = false) (hk : k ≤ n) :
    countBits p n = countBits p k := by
  induction n with
  | zero => rw [Nat.le_zero.mp hk]
  | succ n ih =>
      rcases Nat.eq_or_lt_of_le hk with rfl | hlt
      · rfl
      · rw [countBits_succ, ih (Nat.le_of_lt_succ hlt), h n (Nat.le_of_lt_succ hlt)]
        rfl

/-- The fields that are set, counted. -/
theorem fieldTotal_toNat (p : ℕ → Bool) (n : ℕ) :
    fieldTotal (fun i => (p i).toNat) n = countBits p n := by
  induction n with
  | zero => rfl
  | succ n ih =>
      unfold fieldTotal at *
      rw [List.range_succ, List.map_append, List.sum_append, ih, countBits_succ]
      simp

end CodeAnalyze.Lib
