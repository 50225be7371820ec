import CodeAnalyze.Irqbalance.BitmapOps
import CodeAnalyze.Irqbalance.MaskText
import CodeAnalyze.Lib.Fields

/-!
# Bitmaps are sets
-/

namespace CodeAnalyze.Irqbalance

open Lib

/-! ## Counting the bits of a word -/

theorem pairs_le {f : ℕ → ℕ} {c : ℕ} (hf : ∀ i, f i ≤ c) (i : ℕ) : pairs f i ≤ 2 * c := by
  have h₁ := hf (2 * i)
  have h₂ := hf (2 * i + 1)
  unfold pairs
  omega

theorem pairs_eq_zero {f : ℕ → ℕ} {n : ℕ} (hf : ∀ i, 2 * n ≤ i → f i = 0) (i : ℕ)
    (hi : n ≤ i) : pairs f i = 0 := by
  unfold pairs
  rw [hf _ (by omega), hf _ (by omega)]

/-- The multiplication adds the bytes into the highest one. -/
theorem mul_ones_shiftRight (x : UInt64) {e : ℕ → ℕ} (he : ∀ i, e i ≤ 8)
    (hx : x.toNat = fields 8 e 8) :
    ((x * (0x0101010101010101 : UInt64)) >>> 56).toNat = fieldTotal e 8 := by
  have h0 := he 0
  have h1 := he 1
  have h2 := he 2
  have h3 := he 3
  have h4 := he 4
  have h5 := he 5
  have h6 := he 6
  have h7 := he 7
  have hones : (0x0101010101010101 : UInt64).toNat = 0x0101010101010101 := rfl
  have hshift : (56 : UInt64).toNat % 64 = 56 := rfl
  have htotal : fieldTotal e 8 = e 0 + e 1 + e 2 + e 3 + e 4 + e 5 + e 6 + e 7 := by
    simp [fieldTotal, List.range_succ, Nat.add_assoc]
  -- byte 7 of the product is the total, and nothing is carried into it
  obtain ⟨low, high, hlow, hproduct⟩ : ∃ low high, low < 2 ^ 56 ∧
      x.toNat * 0x0101010101010101 = low + 2 ^ 56 * (fieldTotal e 8 + 2 ^ 8 * high) := by
    refine ⟨e 0 + 2 ^ 8 * (e 0 + e 1) + 2 ^ 16 * (e 0 + e 1 + e 2) +
      2 ^ 24 * (e 0 + e 1 + e 2 + e 3) + 2 ^ 32 * (e 0 + e 1 + e 2 + e 3 + e 4) +
      2 ^ 40 * (e 0 + e 1 + e 2 + e 3 + e 4 + e 5) +
      2 ^ 48 * (e 0 + e 1 + e 2 + e 3 + e 4 + e 5 + e 6),
      e 1 + e 2 + e 3 + e 4 + e 5 + e 6 + e 7 + 2 ^ 8 * (e 2 + e 3 + e 4 + e 5 + e 6 + e 7) +
      2 ^ 16 * (e 3 + e 4 + e 5 + e 6 + e 7) + 2 ^ 24 * (e 4 + e 5 + e 6 + e 7) +
      2 ^ 32 * (e 5 + e 6 + e 7) + 2 ^ 40 * (e 6 + e 7) + 2 ^ 48 * e 7, by omega, ?_⟩
    rw [hx, htotal]
    simp only [fields, Nat.zero_add, Nat.reduceAdd]
    ring
  have hbyte : fieldTotal e 8 < 2 ^ 8 := by omega
  rw [UInt64.toNat_shiftRight, UInt64.toNat_mul, hones, hshift, Nat.shiftRight_eq_div_pow, hproduct]
  clear hproduct htotal hx
  omega

theorem lowerHalves_1 : lowerHalves 1 32 = 0x5555555555555555 := by decide

theorem lowerHalves_2 : lowerHalves 2 16 = 0x3333333333333333 := by decide

theorem lowerHalves_4 : lowerHalves 4 8 = 0x0f0f0f0f0f0f0f0f := by decide

/-- From bits to pairs of bits. -/
theorem toNat_halves_sub {w : UInt64} {f : ℕ → ℕ} (hf : ∀ i, f i ≤ 1)
    (hw : w.toNat = fields 1 f 64) :
    (w - ((w >>> 1 : UInt64) &&& 0x5555555555555555)).toNat = fields 2 (pairs f) 32 := by
  have hand : ((w >>> 1 : UInt64) &&& 0x5555555555555555).toNat =
      (w.toNat >>> 1) &&& lowerHalves 1 32 := by
    rw [UInt64.toNat_and, UInt64.toNat_shiftRight, lowerHalves_1]
    rfl
  have hle : ((w >>> 1 : UInt64) &&& 0x5555555555555555) ≤ w := by
    rw [UInt64.le_iff_toNat_le, hand]
    exact Nat.le_trans Nat.and_le_left (Nat.shiftRight_le _ _)
  have hsub := halves_sub (n := 32) (f := f) fun i _ => Nat.lt_succ_of_le (hf i)
  rw [UInt64.toNat_sub_of_le _ _ hle, hand, hw]
  simpa only [Nat.reduceMul] using hsub

/-- From pairs to groups of four. -/
theorem toNat_halves_sum {w : UInt64} {f : ℕ → ℕ} (hf : ∀ i, f i ≤ 2)
    (hw : w.toNat = fields 2 f 32) :
    ((w &&& (0x3333333333333333 : UInt64)) + ((w >>> 2 : UInt64) &&& 0x3333333333333333)).toNat =
      fields 4 (pairs f) 16 := by
  have hlow : (w &&& (0x3333333333333333 : UInt64)).toNat = w.toNat &&& lowerHalves 2 16 := by
    rw [UInt64.toNat_and, lowerHalves_2]
    rfl
  have hhigh : ((w >>> 2 : UInt64) &&& 0x3333333333333333).toNat =
      (w.toNat >>> 2) &&& lowerHalves 2 16 := by
    rw [UInt64.toNat_and, UInt64.toNat_shiftRight, lowerHalves_2]
    rfl
  have hsum := halves_sum (k := 2) (n := 16) (f := f)
    fun i _ => Nat.lt_of_le_of_lt (hf i) (by decide)
  have hle₁ : w.toNat &&& lowerHalves 2 16 ≤ lowerHalves 2 16 := Nat.and_le_right
  have hle₂ : (w.toNat >>> 2) &&& lowerHalves 2 16 ≤ lowerHalves 2 16 := Nat.and_le_right
  rw [UInt64.toNat_add, hlow, hhigh, Nat.mod_eq_of_lt]
  · rw [hw]
    simpa only [Nat.reduceMul] using hsum
  · rw [lowerHalves_2] at hle₁ hle₂ ⊢
    omega

/-- From groups of four to bytes. -/
theorem toNat_halves_sum_first {w : UInt64} {f : ℕ → ℕ} (hf : ∀ i, f i ≤ 4) (hend : f 16 = 0)
    (hw : w.toNat = fields 4 f 16) :
    ((w + (w >>> 4 : UInt64)) &&& (0x0f0f0f0f0f0f0f0f : UInt64)).toNat =
      fields 8 (pairs f) 8 := by
  have hsum := halves_sum_first (k := 4) (n := 8) (f := f)
    (fun i _ => Nat.lt_of_le_of_lt (Nat.add_le_add (hf i) (hf (i + 1))) (by decide)) hend
  have hmask : (0x0f0f0f0f0f0f0f0f : UInt64).toNat = lowerHalves 4 8 % 2 ^ 64 := by
    rw [lowerHalves_4]
    rfl
  have hle : (w.toNat + w.toNat >>> 4) &&& lowerHalves 4 8 ≤ lowerHalves 4 8 := Nat.and_le_right
  rw [UInt64.toNat_and, UInt64.toNat_add, hmask, ← Nat.and_mod_two_pow, UInt64.toNat_shiftRight,
    show (4 : UInt64).toNat % 64 = 4 from rfl, Nat.mod_eq_of_lt, hw]
  · simpa only [Nat.reduceMul] using hsum
  · rw [lowerHalves_4] at hle ⊢
    omega

/-- `hweight64` counts the bits of a word. -/
theorem toNat_hweight64 (w : UInt64) :
    (hweight64 w).toNat = countBits w.toNat.testBit 64 := by
  let bits : ℕ → ℕ := fun i => (w.toNat.testBit i).toNat
  have hbit (i : ℕ) : bits i ≤ 1 := Bool.toNat_le _
  have hbits (i : ℕ) (hi : 64 ≤ i) : bits i = 0 := by
    have hzero : w.toNat.testBit i = false := Nat.testBit_lt_two_pow
      (lt_of_lt_of_le w.toNat_lt (Nat.pow_le_pow_right (by decide) hi))
    exact congrArg Bool.toNat hzero
  have hones := pairs_le hbit
  have htwos := pairs_le hones
  have hend : pairs (pairs bits) 16 = 0 :=
    pairs_eq_zero (pairs_eq_zero (n := 32) hbits) 16 (Nat.le_refl _)
  have h₁ := toNat_halves_sub hbit (fields_testBit w.toNat_lt).symm
  have h₂ := toNat_halves_sum hones h₁
  have h₃ := toNat_halves_sum_first htwos hend h₂
  have h₄ := mul_ones_shiftRight _ (pairs_le htwos) h₃
  calc (hweight64 w).toNat
      = fieldTotal (pairs (pairs (pairs bits))) 8 := h₄
    _ = fieldTotal bits 64 := by rw [fieldTotal_pairs, fieldTotal_pairs, fieldTotal_pairs]
    _ = countBits w.toNat.testBit 64 := fieldTotal_toNat _ _

/-! ## Bits of words -/

theorem testBit_not (w : UInt64) {j : ℕ} (hj : j < 64) :
    (~~~w).toNat.testBit j = !w.toNat.testBit j := by
  have hbits := BitVec.getLsbD_not (x := w.toBitVec) (i := j)
  rw [decide_eq_true hj, Bool.true_and] at hbits
  exact hbits

theorem word_eq_zero_iff {w : UInt64} : w = 0 ↔ ∀ j < 64, w.toNat.testBit j = false := by
  constructor
  · rintro rfl j -
    exact Nat.zero_testBit j
  · intro h
    apply UInt64.toNat_inj.mp
    apply Nat.eq_of_testBit_eq
    intro j
    rw [show (0 : UInt64).toNat = 0 from rfl, Nat.zero_testBit]
    by_cases hj : j < 64
    · exact h j hj
    · exact Nat.testBit_lt_two_pow
        (lt_of_lt_of_le w.toNat_lt (Nat.pow_le_pow_right (by decide) (by omega)))

theorem testBit_lastWordMask (nbits : ℕ) {j : ℕ} (hj : j < 64) :
    (lastWordMask nbits).toNat.testBit j = decide (nbits % 64 ≠ 0 → j < nbits % 64) := by
  have hlt : nbits % 64 < 64 := Nat.mod_lt _ (by decide)
  unfold lastWordMask
  simp only [show bitsPerLong = 64 from rfl]
  by_cases h : nbits % 64 = 0
  · rw [if_neg (by simpa using h), testBit_not _ hj]
    simp [h]
  · rw [if_pos h, onesBelow, toNat_ones hlt, Nat.testBit_two_pow_sub_one]
    simp [h]

theorem testBit_bitopMask (nr : ℕ) {j : ℕ} (hj : j < 64) :
    (bitopMask nr).toNat.testBit j = decide (nr % 64 = j) := by
  have hlt : nr % 64 < 64 := Nat.mod_lt _ (by decide)
  have hconv : (nr % 64).toUInt64.toNat % 64 = nr % 64 := by
    rw [show (nr % 64).toUInt64.toNat = nr % 64 from Nat.mod_eq_of_lt (by omega)]
    exact Nat.mod_mod nr 64
  unfold bitopMask
  rw [show bitsPerLong = 64 from rfl, UInt64.toNat_shiftLeft, hconv, Nat.testBit_mod_two_pow,
    decide_eq_true hj, Bool.true_and, show (1 : UInt64).toNat = 1 from rfl, Nat.one_shiftLeft,
    Nat.testBit_two_pow]

/-- The bits of two neighbouring words, shifted down. -/
theorem testBit_funnelRight (lower upper : UInt64) {rem j : ℕ} (hrem : rem < 64) (hj : j < 64)
    (hupper : rem = 0 → upper = 0) :
    ((upper <<< (64 - rem).toUInt64) ||| (lower >>> rem.toUInt64)).toNat.testBit j =
      if rem + j < 64 then lower.toNat.testBit (rem + j) else upper.toNat.testBit (rem + j - 64) := by
  have hshift : rem.toUInt64.toNat % 64 = rem := by
    rw [show rem.toUInt64.toNat = rem from Nat.mod_eq_of_lt (by omega), Nat.mod_eq_of_lt hrem]
  rw [UInt64.toNat_or, Nat.testBit_or, UInt64.toNat_shiftRight, hshift, Nat.testBit_shiftRight,
    UInt64.toNat_shiftLeft, Nat.testBit_mod_two_pow, decide_eq_true hj, Bool.true_and,
    Nat.testBit_shiftLeft]
  by_cases hzero : rem = 0
  · rw [hupper hzero, if_pos (by omega)]
    simp
  · have hback : (64 - rem).toUInt64.toNat % 64 = 64 - rem := by
      rw [show (64 - rem).toUInt64.toNat = 64 - rem from Nat.mod_eq_of_lt (by omega),
        Nat.mod_eq_of_lt (by omega)]
    rw [hback]
    by_cases hin : rem + j < 64
    · have hnot : ¬64 - rem ≤ j := by omega
      simp [hin, hnot]
    · have hbeyond : lower.toNat.testBit (rem + j) = false := Nat.testBit_lt_two_pow
        (lt_of_lt_of_le lower.toNat_lt (Nat.pow_le_pow_right (by decide) (by omega)))
      have hge : 64 - rem ≤ j := by omega
      rw [if_neg hin, hbeyond, show rem + j - 64 = j - (64 - rem) by omega]
      simp [hge]

/-- The bits of two neighbouring words, shifted up. -/
theorem testBit_funnelLeft (lower upper : UInt64) {rem j : ℕ} (hrem : rem < 64) (hj : j < 64)
    (hlower : rem = 0 → lower = 0) :
    ((lower >>> (64 - rem).toUInt64) ||| (upper <<< rem.toUInt64)).toNat.testBit j =
      if rem ≤ j then upper.toNat.testBit (j - rem) else lower.toNat.testBit (64 - rem + j) := by
  have hshift : rem.toUInt64.toNat % 64 = rem := by
    rw [show rem.toUInt64.toNat = rem from Nat.mod_eq_of_lt (by omega), Nat.mod_eq_of_lt hrem]
  rw [UInt64.toNat_or, Nat.testBit_or, UInt64.toNat_shiftLeft, hshift, Nat.testBit_mod_two_pow,
    decide_eq_true hj, Bool.true_and, Nat.testBit_shiftLeft, UInt64.toNat_shiftRight,
    Nat.testBit_shiftRight]
  by_cases hzero : rem = 0
  · rw [hlower hzero, if_pos (by omega)]
    simp [hzero]
  · have hback : (64 - rem).toUInt64.toNat % 64 = 64 - rem := by
      rw [show (64 - rem).toUInt64.toNat = 64 - rem from Nat.mod_eq_of_lt (by omega),
        Nat.mod_eq_of_lt (by omega)]
    rw [hback]
    by_cases hin : rem ≤ j
    · have hbeyond : lower.toNat.testBit (64 - rem + j) = false := Nat.testBit_lt_two_pow
        (lt_of_lt_of_le lower.toNat_lt (Nat.pow_le_pow_right (by decide) (by omega)))
      rw [if_pos hin, hbeyond]
      simp [hin]
    · rw [if_neg hin]
      simp [hin]

/-! ## Loops -/

section

variable {m m' : Bitmaps} {dst : ℕ}

theorem Bitmaps.store_at (m : Bitmaps) (dst k : ℕ) (word : UInt64) (p i : ℕ) :
    m.store dst k word p i = if p = dst ∧ i = k then word else m p i := by
  unfold Bitmaps.store
  by_cases hp : p = dst
  · subst hp
    rw [Function.update_self]
    by_cases hi : i = k
    · subst hi
      simp
    · simp [hi]
  · simp [hp]

theorem Bitmaps.memset_at (m : Bitmaps) (dst first n : ℕ) (word : UInt64) (p i : ℕ) :
    m.memset dst first n word p i =
      if p = dst ∧ first ≤ i ∧ i < first + n then word else m p i := by
  unfold Bitmaps.memset
  by_cases hp : p = dst
  · subst hp
    simp
  · simp [hp]

/-- A loop that goes up and looks only at words from `k` on stores what it would have stored
at the start. -/
theorem storeLoop_at {word : Bitmaps → ℕ → UInt64} (n : ℕ)
    (hword : ∀ m m' : Bitmaps, ∀ k, (∀ p i, k ≤ i → m' p i = m p i) → word m' k = word m k)
    (p i : ℕ) :
    storeLoop dst word n m p i = if p = dst ∧ i < n then word m i else m p i := by
  unfold storeLoop
  induction n generalizing p i with
  | zero => simp
  | succ n ih =>
      rw [List.range_succ, List.foldl_append, List.foldl_cons, List.foldl_nil, Bitmaps.store_at]
      have hsame : word ((List.range n).foldl (fun m k => m.store dst k (word m k)) m) n =
          word m n := by
        refine hword _ _ n fun p i hi => ?_
        rw [ih, if_neg (by omega)]
      rw [hsame, ih]
      by_cases hp : p = dst
      · rcases Nat.lt_trichotomy i n with hlt | rfl | hgt
        · rw [if_neg (by omega), if_pos ⟨hp, hlt⟩, if_pos (by omega)]
        · rw [if_pos ⟨hp, rfl⟩, if_pos ⟨hp, Nat.lt_succ_self i⟩]
        · rw [if_neg (by omega), if_neg (by omega), if_neg (by omega)]
      · simp [hp]

/-- The same for a loop that goes down and looks only at words up to `k`. -/
theorem storeLoopDown_at {word : Bitmaps → ℕ → UInt64} (off n : ℕ)
    (hword : ∀ m m' : Bitmaps, ∀ k, (∀ p i, i ≤ k → m' p i = m p i) → word m' k = word m k)
    (p i : ℕ) :
    storeLoopDown dst off word n m p i =
      if p = dst ∧ off ≤ i ∧ i < off + n then word m (i - off) else m p i := by
  unfold storeLoopDown
  induction n generalizing m with
  | zero =>
      have hnone : ¬(p = dst ∧ off ≤ i ∧ i < off + 0) := by omega
      rw [if_neg hnone]
      rfl
  | succ n ih =>
      rw [List.range_succ, List.reverse_append, List.reverse_singleton, List.singleton_append,
        List.foldl_cons, ih, Bitmaps.store_at]
      by_cases hp : p = dst
      · rcases Nat.lt_trichotomy i (off + n) with hlt | rfl | hgt
        · by_cases hoff : off ≤ i
          · have hsame : word (m.store dst (n + off) (word m n)) (i - off) = word m (i - off) := by
              refine hword _ _ _ fun q j hj => ?_
              rw [Bitmaps.store_at, if_neg (by omega)]
            rw [if_pos ⟨hp, hoff, hlt⟩, if_pos (by omega), hsame]
          · rw [if_neg (by omega), if_neg (by omega), if_neg (by omega)]
        · rw [if_neg (by omega), if_pos (by omega), if_pos (by omega), Nat.add_sub_cancel_left]
        · rw [if_neg (by omega), if_neg (by omega), if_neg (by omega)]
      · simp [hp]

end

/-! ## Bitmaps as sets -/

/-- The words are those of a bitmap of `nbits` bits. -/
def IsSet (nbits : ℕ) (w : Words) (b : BitVec nbits) : Prop := Holds w nbits b.toNat

section

variable {nbits : ℕ} {w w' : Words} {a b : BitVec nbits}

/-- Word by word. -/
theorem isSet_iff : IsSet nbits w b ↔
    ∀ k < bitsToLongs nbits, ∀ j < 64, (w k).toNat.testBit j = b.getLsbD (64 * k + j) := by
  constructor
  · intro h k hk j hj
    have hbit := h (64 * k + j) (by omega)
    unfold testBit at hbit
    rw [show bitsPerLong = 64 from rfl, show (64 * k + j) / 64 = k by omega,
      show (64 * k + j) % 64 = j by omega] at hbit
    exact hbit
  · intro h i hi
    have hbit := h (i / 64) (by omega) (i % 64) (Nat.mod_lt _ (by decide))
    rw [show 64 * (i / 64) + i % 64 = i by omega] at hbit
    exact hbit

theorem IsSet.testBit (h : IsSet nbits w b) {i : ℕ} (hi : i < 64 * bitsToLongs nbits) :
    testBit w i = b.getLsbD i :=
  h i hi

theorem IsSet.word (h : IsSet nbits w b) {k j : ℕ} (hk : k < bitsToLongs nbits) (hj : j < 64) :
    (w k).toNat.testBit j = b.getLsbD (64 * k + j) :=
  isSet_iff.mp h k hk j hj

theorem bitsToLongs_eq (nbits : ℕ) : bitsToLongs nbits = (nbits + 63) / 64 := rfl

/-- Only the words of the bitmap matter. -/
theorem IsSet.congr (h : IsSet nbits w b) (hw : ∀ k < bitsToLongs nbits, w' k = w k) :
    IsSet nbits w' b :=
  isSet_iff.mpr fun k hk j hj => by rw [hw k hk, h.word hk hj]

theorem isSet_zero : IsSet nbits (fun _ => 0) 0 := by
  refine isSet_iff.mpr fun k _ j _ => ?_
  simp

/-- The words of a full bitmap. -/
theorem isSet_allOnes :
    IsSet nbits (fun k => if k + 1 < bitsToLongs nbits then ~~~0 else lastWordMask nbits)
      (BitVec.allOnes nbits) := by
  refine isSet_iff.mpr fun k hk j hj => ?_
  have hlim := bitsToLongs_eq nbits
  rw [BitVec.getLsbD_allOnes]
  split
  · rw [testBit_not _ hj]
    have hin : 64 * k + j < nbits := by omega
    simp [hin]
  · rw [testBit_lastWordMask nbits hj]
    congr 1
    have hlast : (nbits % 64 ≠ 0 → j < nbits % 64) ↔ 64 * k + j < nbits := by omega
    exact propext hlast

/-- Operations that work on every bit by itself. -/
theorem IsSet.zip {op : UInt64 → UInt64 → UInt64} {f : Bool → Bool → Bool}
    {g : BitVec nbits → BitVec nbits → BitVec nbits}
    (hop : ∀ x y : UInt64, ∀ j < 64,
      (op x y).toNat.testBit j = f (x.toNat.testBit j) (y.toNat.testBit j))
    (hg : ∀ i, (g a b).getLsbD i = f (a.getLsbD i) (b.getLsbD i))
    (ha : IsSet nbits w a) (hb : IsSet nbits w' b) :
    IsSet nbits (fun k => op (w k) (w' k)) (g a b) := by
  refine isSet_iff.mpr fun k hk j hj => ?_
  rw [hop _ _ j hj, hg, ha.word hk hj, hb.word hk hj]

/-- The complement, with the bits behind the last one left out. -/
theorem IsSet.complement (h : IsSet nbits w b) :
    IsSet nbits (fun k => if k < nbits / 64 then ~~~(w k) else ~~~(w k) &&& lastWordMask nbits)
      (~~~b) := by
  refine isSet_iff.mpr fun k hk j hj => ?_
  have hlim := bitsToLongs_eq nbits
  rw [BitVec.getLsbD_not]
  split
  · have hin : 64 * k + j < nbits := by omega
    rw [testBit_not _ hj, h.word hk hj]
    simp [hin]
  · have hlast : (nbits % 64 ≠ 0 → j < nbits % 64) ↔ 64 * k + j < nbits := by omega
    rw [UInt64.toNat_and, Nat.testBit_and, testBit_not _ hj, h.word hk hj,
      testBit_lastWordMask nbits hj, Bool.and_comm]
    congr 2
    exact propext hlast

/-- One bit is changed. -/
theorem IsSet.update {nr : ℕ} (h : IsSet nbits w b) {op : UInt64 → UInt64 → UInt64}
    {f : Bool → Bool → Bool} {c : BitVec nbits}
    (hop : ∀ x y : UInt64, ∀ j < 64,
      (op x y).toNat.testBit j = f (x.toNat.testBit j) (y.toNat.testBit j))
    (hf : ∀ x, f x false = x)
    (hc : ∀ i, c.getLsbD i = f (b.getLsbD i) (decide (nr = i))) :
    IsSet nbits (Function.update w (bitopWord nr) (op (w (bitopWord nr)) (bitopMask nr))) c := by
  refine isSet_iff.mpr fun k hk j hj => ?_
  have hword : bitopWord nr = nr / 64 := rfl
  rw [hc, hword]
  by_cases hk' : k = nr / 64
  · subst hk'
    rw [Function.update_self, hop _ _ j hj, h.word hk hj, testBit_bitopMask nr hj]
    congr 2
    have hbit : nr % 64 = j ↔ nr = 64 * (nr / 64) + j := by omega
    exact propext hbit
  · have hne : ¬nr = 64 * k + j := by omega
    rw [Function.update_of_ne hk', h.word hk hj, decide_eq_false hne, hf]

/-! ### Shifts -/

theorem toNat_toUInt64 {n : ℕ} (hn : n < 64) : n.toUInt64.toNat % 64 = n := by
  rw [show n.toUInt64.toNat = n from Nat.mod_eq_of_lt (by omega), Nat.mod_eq_of_lt hn]

/-- Nothing is cut off the last word. -/
theorem IsSet.and_onesBelow (h : IsSet nbits w b) {k : ℕ} (hk : k = bitsToLongs nbits - 1)
    (hleft : nbits % 64 ≠ 0) : w k &&& onesBelow (nbits % 64) = w k := by
  have hlim := bitsToLongs_eq nbits
  apply UInt64.toNat_inj.mp
  apply Nat.eq_of_testBit_eq
  intro j
  rw [UInt64.toNat_and, Nat.testBit_and, onesBelow, toNat_ones (Nat.mod_lt _ (by decide)),
    Nat.testBit_two_pow_sub_one]
  by_cases hj : j < nbits % 64
  · simp [hj]
  · have hzero : (w k).toNat.testBit j = false := by
      by_cases hj' : j < 64
      · rw [h.word (by omega) hj']
        exact BitVec.getLsbD_of_ge _ _ (by omega)
      · exact Nat.testBit_lt_two_pow
          (lt_of_lt_of_le (w k).toNat_lt (Nat.pow_le_pow_right (by decide) (by omega)))
    rw [hzero, Bool.false_and]

/-- The last word is masked where bits may have come in behind the last one. -/
theorem testBit_maskLast (word : UInt64) (k : ℕ) {j : ℕ} (hk : k < bitsToLongs nbits)
    (hj : j < 64) :
    (if nbits % 64 ≠ 0 ∧ k = bitsToLongs nbits - 1 then word &&& onesBelow (nbits % 64)
      else word).toNat.testBit j = (decide (64 * k + j < nbits) && word.toNat.testBit j) := by
  have hlim := bitsToLongs_eq nbits
  split
  · rw [UInt64.toNat_and, Nat.testBit_and, onesBelow, toNat_ones (Nat.mod_lt _ (by decide)),
      Nat.testBit_two_pow_sub_one, Bool.and_comm]
    congr 2
    have hlast : j < nbits % 64 ↔ 64 * k + j < nbits := by omega
    exact propext hlast
  · have hin : 64 * k + j < nbits := by omega
    simp [hin]

theorem IsSet.shiftRight (h : IsSet nbits w b) (shift : ℕ) :
    IsSet nbits (fun k =>
        if k < bitsToLongs nbits - shift / 64 then
          shiftRightWord w (bitsToLongs nbits) (nbits % 64) (shift / 64) (shift % 64) k
        else 0)
      (b >>> shift) := by
  refine isSet_iff.mpr fun k hk j hj => ?_
  have hlim := bitsToLongs_eq nbits
  have hrem : shift % 64 < 64 := Nat.mod_lt _ (by decide)
  rw [BitVec.getLsbD_ushiftRight]
  split
  · rename_i hin
    have hlower : (if nbits % 64 ≠ 0 ∧ shift / 64 + k = bitsToLongs nbits - 1 then
        w (shift / 64 + k) &&& onesBelow (nbits % 64) else w (shift / 64 + k)) =
        w (shift / 64 + k) := by
      split
      · rename_i hlast
        exact h.and_onesBelow hlast.2 hlast.1
      · rfl
    have hupper : (if shift / 64 + k + 1 = bitsToLongs nbits - 1 ∧ nbits % 64 ≠ 0 then
        w (shift / 64 + k + 1) &&& onesBelow (nbits % 64) else w (shift / 64 + k + 1)) =
        w (shift / 64 + k + 1) := by
      split
      · rename_i hlast
        exact h.and_onesBelow hlast.1 hlast.2
      · rfl
    unfold shiftRightWord
    simp only [show bitsPerLong = 64 from rfl]
    rw [hlower, hupper, testBit_maskLast _ k hk hj,
      testBit_funnelRight _ _ hrem hj fun hzero => if_pos (.inl hzero)]
    by_cases hlow : shift % 64 + j < 64
    · rw [if_pos hlow, h.word (by omega) hlow,
        show 64 * (shift / 64 + k) + (shift % 64 + j) = shift + (64 * k + j) by omega]
      by_cases hend : 64 * k + j < nbits
      · simp [hend]
      · rw [BitVec.getLsbD_of_ge b _ (by omega), Bool.and_false]
    · rw [if_neg hlow]
      by_cases hnext : shift / 64 + k + 1 < bitsToLongs nbits
      · rw [if_neg (by omega), h.word hnext (by omega),
          show 64 * (shift / 64 + k + 1) + (shift % 64 + j - 64) = shift + (64 * k + j) by omega]
        by_cases hend : 64 * k + j < nbits
        · simp [hend]
        · rw [BitVec.getLsbD_of_ge b _ (by omega), Bool.and_false]
      · rw [if_pos (by omega), BitVec.getLsbD_of_ge b _ (by omega)]
        simp
  · rw [BitVec.getLsbD_of_ge b _ (by omega)]
    exact Nat.zero_testBit j

theorem IsSet.shiftLeft (h : IsSet nbits w b) (shift : ℕ) :
    IsSet nbits (fun k =>
        if k < shift / 64 then 0
        else shiftWord w (bitsToLongs nbits) (nbits % 64) (shift / 64) (shift % 64)
          (k - shift / 64))
      (b <<< shift) := by
  refine isSet_iff.mpr fun k hk j hj => ?_
  have hlim := bitsToLongs_eq nbits
  have hrem : shift % 64 < 64 := Nat.mod_lt _ (by decide)
  rw [BitVec.getLsbD_shiftLeft]
  split
  · rename_i hlow
    have hbefore : 64 * k + j < shift := by omega
    simp [hbefore]
  · rename_i hin
    obtain ⟨i, rfl⟩ : ∃ i, k = i + shift / 64 := ⟨k - shift / 64, by omega⟩
    have hupper : (if nbits % 64 ≠ 0 ∧ i = bitsToLongs nbits - 1 then
        w i &&& onesBelow (nbits % 64) else w i) = w i := by
      split
      · rename_i hlast
        exact h.and_onesBelow hlast.2 hlast.1
      · rfl
    have hmask := testBit_maskLast
      (((if shift % 64 ≠ 0 ∧ 0 < i then w (i - 1) else 0) >>> (64 - shift % 64).toUInt64) |||
        (w i <<< (shift % 64).toUInt64)) (i + shift / 64) hk hj
    unfold onesBelow at hupper hmask
    rw [Nat.add_sub_cancel]
    unfold shiftWord
    simp only [show bitsPerLong = 64 from rfl]
    rw [hupper, hmask, testBit_funnelLeft _ _ hrem hj fun hzero => if_neg fun hne => hne.1 hzero]
    rw [Bool.and_assoc]
    congr 1
    by_cases hlow : shift % 64 ≤ j
    · have hge : ¬64 * (i + shift / 64) + j < shift := by omega
      rw [if_pos hlow, h.word (by omega) (by omega),
        show 64 * (i + shift / 64) + j - shift = 64 * i + (j - shift % 64) by omega]
      simp [hge]
    · rw [if_neg hlow]
      by_cases hfirst : 0 < i
      · have hge : ¬64 * (i + shift / 64) + j < shift := by omega
        rw [if_pos ⟨by omega, hfirst⟩, h.word (by omega) (by omega),
          show 64 * (i + shift / 64) + j - shift = 64 * (i - 1) + (64 - shift % 64 + j) by omega]
        simp [hge]
      · have hlt : 64 * (i + shift / 64) + j < shift := by omega
        rw [if_neg (by omega)]
        simp [hlt]

end

/-! ## Questions -/

section

variable {nbits : ℕ} {word : ℕ → UInt64}

theorem and_lastWordMask_iff (w : UInt64) (nbits : ℕ) :
    w &&& lastWordMask nbits = 0 ↔
      ∀ j < 64, (nbits % 64 ≠ 0 → j < nbits % 64) → w.toNat.testBit j = false := by
  rw [word_eq_zero_iff]
  refine forall₂_congr fun j hj => ?_
  rw [UInt64.toNat_and, Nat.testBit_and, testBit_lastWordMask nbits hj]
  by_cases h : nbits % 64 ≠ 0 → j < nbits % 64
  · rw [decide_eq_true h, Bool.and_true]
    exact ⟨fun hbit _ => hbit, fun hbit => hbit h⟩
  · rw [decide_eq_false h, Bool.and_false]
    exact ⟨fun _ hin => absurd hin h, fun _ => rfl⟩

/-- The loop over the words finds a bit that is set, if there is one. -/
theorem noBits_iff : noBits nbits word = true ↔ ∀ i < nbits, testBit word i = false := by
  unfold noBits testBit
  simp only [show bitsPerLong = 64 from rfl, Bool.and_eq_true, List.all_eq_true, List.mem_range,
    decide_eq_true_eq, Bool.or_eq_true, and_lastWordMask_iff]
  constructor
  · rintro ⟨hwords, hlast⟩ i hi
    have hj : i % 64 < 64 := Nat.mod_lt _ (by decide)
    by_cases hk : i / 64 < nbits / 64
    · exact word_eq_zero_iff.mp (hwords _ hk) _ hj
    · have hkeq : i / 64 = nbits / 64 := by omega
      rcases hlast with hnone | hlast
      · omega
      · rw [hkeq]
        exact hlast _ hj fun _ => by omega
  · intro h
    refine ⟨fun k hk => word_eq_zero_iff.mpr fun j hj => ?_, ?_⟩
    · have hbit := h (64 * k + j) (by omega)
      rwa [show (64 * k + j) / 64 = k by omega, show (64 * k + j) % 64 = j by omega] at hbit
    · by_cases hleft : nbits % 64 = 0
      · exact .inl hleft
      · refine .inr fun j hj hlt => ?_
        have hbit := h (64 * (nbits / 64) + j) (by have := hlt hleft; omega)
        rwa [show (64 * (nbits / 64) + j) / 64 = nbits / 64 by omega,
          show (64 * (nbits / 64) + j) % 64 = j by omega] at hbit

/-- A bitmap of a single word is looked at in one piece. -/
theorem single_iff (word : ℕ → UInt64) (hpos : 0 < nbits) (hsmall : nbits ≤ 64) :
    word 0 &&& lastWordMask nbits = 0 ↔ ∀ i < nbits, testBit word i = false := by
  rw [and_lastWordMask_iff]
  unfold testBit
  rw [show bitsPerLong = 64 from rfl]
  constructor
  · intro h i hi
    rw [show i / 64 = 0 by omega, show i % 64 = i by omega]
    exact h i (by omega) fun _ => by omega
  · intro h j hj hlt
    have hbit := h j (by omega)
    rwa [show j / 64 = 0 by omega, show j % 64 = j by omega] at hbit

variable {m : Bitmaps} {src src1 src2 : ℕ} {a b : BitVec nbits}

theorem IsSet.testBit_of_lt {w : Words} (h : IsSet nbits w b) {i : ℕ} (hi : i < nbits) :
    CodeAnalyze.Irqbalance.testBit w i = b.getLsbD i :=
  h.testBit (by rw [bitsToLongs_eq]; omega)

theorem bitmapEmpty_eq (hpos : 0 < nbits) (h : IsSet nbits (m src) b) :
    bitmapEmpty m src nbits = decide (b = 0#(nbits)) := by
  have hbits : bitmapEmpty m src nbits = true ↔ ∀ i < nbits, testBit (m src) i = false := by
    unfold bitmapEmpty
    split
    · rename_i hsmall
      rw [decide_eq_true_eq, single_iff (m src) hpos hsmall]
    · exact noBits_iff
  rw [Bool.eq_iff_iff, hbits, decide_eq_true_eq]
  constructor
  · intro hnone
    refine BitVec.eq_of_getLsbD_eq fun i hi => ?_
    rw [← h.testBit_of_lt hi, hnone i hi, BitVec.getLsbD_zero]
  · rintro rfl i hi
    rw [h.testBit_of_lt hi, BitVec.getLsbD_zero]

theorem bitmapFull_eq (hpos : 0 < nbits) (h : IsSet nbits (m src) b) :
    bitmapFull m src nbits = decide (b = BitVec.allOnes nbits) := by
  have hnot (i : ℕ) : testBit (fun k => ~~~(m src k)) i = !testBit (m src) i :=
    testBit_not _ (Nat.mod_lt _ (by decide))
  have hbits : bitmapFull m src nbits = true ↔
      ∀ i < nbits, testBit (fun k => ~~~(m src k)) i = false := by
    unfold bitmapFull
    split
    · rename_i hsmall
      rw [decide_eq_true_eq]
      exact single_iff (fun k => ~~~(m src k)) hpos hsmall
    · exact noBits_iff
  rw [Bool.eq_iff_iff, hbits, decide_eq_true_eq]
  constructor
  · intro hall
    refine BitVec.eq_of_getLsbD_eq fun i hi => ?_
    have hset := hall i hi
    rw [hnot, h.testBit_of_lt hi] at hset
    rw [BitVec.getLsbD_allOnes, decide_eq_true hi]
    simpa using hset
  · rintro rfl i hi
    rw [hnot, h.testBit_of_lt hi, BitVec.getLsbD_allOnes, decide_eq_true hi]
    rfl

theorem bitmapIntersects_eq (hpos : 0 < nbits) (ha : IsSet nbits (m src1) a)
    (hb : IsSet nbits (m src2) b) :
    bitmapIntersects m src1 src2 nbits = decide (a &&& b ≠ 0#(nbits)) := by
  have hand (i : ℕ) : testBit (fun k => m src1 k &&& m src2 k) i =
      (testBit (m src1) i && testBit (m src2) i) := by
    unfold testBit
    rw [UInt64.toNat_and, Nat.testBit_and]
  have hbits : bitmapIntersects m src1 src2 nbits = false ↔
      ∀ i < nbits, testBit (fun k => m src1 k &&& m src2 k) i = false := by
    unfold bitmapIntersects
    split
    · rename_i hsmall
      rw [decide_eq_false_iff_not, not_not]
      exact single_iff (fun k => m src1 k &&& m src2 k) hpos hsmall
    · rw [Bool.not_eq_false', noBits_iff]
  have hiff : bitmapIntersects m src1 src2 nbits = false ↔ a &&& b = 0#(nbits) := by
    rw [hbits]
    constructor
    · intro hnone
      refine BitVec.eq_of_getLsbD_eq fun i hi => ?_
      rw [BitVec.getLsbD_and, ← ha.testBit_of_lt hi, ← hb.testBit_of_lt hi, ← hand, hnone i hi,
        BitVec.getLsbD_zero]
    · intro hzero i hi
      rw [hand, ha.testBit_of_lt hi, hb.testBit_of_lt hi, ← BitVec.getLsbD_and, hzero,
        BitVec.getLsbD_zero]
  cases hvalue : bitmapIntersects m src1 src2 nbits with
  | false => simpa using hiff.mp hvalue
  | true =>
      have hne : a &&& b ≠ 0#(nbits) := fun hzero => by
        rw [hiff.mpr hzero] at hvalue
        cases hvalue
      exact (decide_eq_true hne).symm

theorem xor_eq_zero_iff {x y : UInt64} : x ^^^ y = 0 ↔ x = y := UInt64.xor_eq_zero_iff

theorem bitmapEqualWords_eq :
    bitmapEqualWords m src1 src2 nbits = noBits nbits fun k => m src1 k ^^^ m src2 k := by
  unfold bitmapEqualWords noBits
  simp only [xor_eq_zero_iff]

theorem bitmapEqual_eq (hpos : 0 < nbits) (ha : IsSet nbits (m src1) a)
    (hb : IsSet nbits (m src2) b) :
    bitmapEqual m src1 src2 nbits = decide (a = b) := by
  have hxor (i : ℕ) : testBit (fun k => m src1 k ^^^ m src2 k) i =
      (testBit (m src1) i ^^ testBit (m src2) i) := by
    unfold testBit
    rw [UInt64.toNat_xor, Nat.testBit_xor]
  have hbits : bitmapEqual m src1 src2 nbits = true ↔
      ∀ i < nbits, testBit (fun k => m src1 k ^^^ m src2 k) i = false := by
    unfold bitmapEqual
    split
    · rename_i hsmall
      rw [decide_eq_true_eq]
      exact single_iff (fun k => m src1 k ^^^ m src2 k) hpos hsmall
    · rw [bitmapEqualWords_eq, noBits_iff]
  rw [Bool.eq_iff_iff, hbits, decide_eq_true_eq]
  constructor
  · intro hnone
    refine BitVec.eq_of_getLsbD_eq fun i hi => ?_
    have hsame := hnone i hi
    rw [hxor, ha.testBit_of_lt hi, hb.testBit_of_lt hi] at hsame
    simpa using hsame
  · rintro rfl i hi
    rw [hxor, ha.testBit_of_lt hi, hb.testBit_of_lt hi, Bool.xor_self]

/-! ### The weight -/

/-- The bits of the last word that belong to the bitmap. -/
theorem hweight64_and_lastWordMask (w : UInt64) {l : ℕ} (hl : l ≤ 64)
    (hmask : ∀ j < 64, (lastWordMask nbits).toNat.testBit j = decide (j < l)) :
    (hweight64 (w &&& lastWordMask nbits)).toNat = countBits w.toNat.testBit l := by
  have hand (j : ℕ) (hj : j < 64) : (w &&& lastWordMask nbits).toNat.testBit j =
      (w.toNat.testBit j && decide (j < l)) := by
    rw [UInt64.toNat_and, Nat.testBit_and, hmask j hj]
  calc (hweight64 (w &&& lastWordMask nbits)).toNat
      = countBits (w &&& lastWordMask nbits).toNat.testBit 64 := toNat_hweight64 _
    _ = countBits (fun j => w.toNat.testBit j && decide (j < l)) 64 := countBits_congr hand
    _ = countBits (fun j => w.toNat.testBit j && decide (j < l)) l :=
        countBits_of_false (fun j hj => by simp [hj]) hl
    _ = countBits w.toNat.testBit l := countBits_congr fun j hj => by simp [hj]

/-- The whole words of a bitmap. -/
theorem foldl_hweight64 (w : Words) (k : ℕ) :
    (List.range k).foldl (fun n k => n + (hweight64 (w k)).toNat) 0 =
      countBits (testBit w) (64 * k) := by
  induction k with
  | zero => rfl
  | succ k ih =>
      have hword : (hweight64 (w k)).toNat = countBits (fun j => testBit w (64 * k + j)) 64 := by
        rw [toNat_hweight64]
        refine countBits_congr fun j hj => ?_
        unfold testBit
        rw [show bitsPerLong = 64 from rfl, show (64 * k + j) / 64 = k by omega,
          show (64 * k + j) % 64 = j by omega]
      rw [List.range_succ, List.foldl_append, ih, List.foldl_cons, List.foldl_nil, hword,
        Nat.mul_succ, countBits_add]

theorem bitmapWeight_eq (hpos : 0 < nbits) (h : IsSet nbits (m src) b) :
    bitmapWeight m src nbits = countBits b.getLsbD nbits := by
  have hset : countBits b.getLsbD nbits = countBits (testBit (m src)) nbits :=
    countBits_congr fun i hi => (h.testBit_of_lt hi).symm
  rw [hset]
  unfold bitmapWeight
  split
  · rename_i hsmall
    have hsmall' : nbits ≤ 64 := hsmall
    rw [hweight64_and_lastWordMask (l := nbits) _ hsmall' fun j hj => ?_]
    · refine countBits_congr fun i hi => ?_
      unfold testBit
      rw [show bitsPerLong = 64 from rfl, show i / 64 = 0 by omega, show i % 64 = i by omega]
    · rw [testBit_lastWordMask nbits hj]
      congr 1
      have hlast : (nbits % 64 ≠ 0 → j < nbits % 64) ↔ j < nbits := by omega
      exact propext hlast
  · unfold bitmapWeightWords
    simp only [show bitsPerLong = 64 from rfl]
    rw [foldl_hweight64]
    have hsplit := countBits_add (testBit (m src)) (64 * (nbits / 64)) (nbits % 64)
    rw [show 64 * (nbits / 64) + nbits % 64 = nbits by omega] at hsplit
    rw [hsplit]
    split
    · rename_i hleft
      rw [hweight64_and_lastWordMask (l := nbits % 64) _ (by omega) fun j hj => ?_]
      · congr 1
        refine countBits_congr fun j hj => ?_
        unfold testBit
        rw [show bitsPerLong = 64 from rfl,
          show (64 * (nbits / 64) + j) / 64 = nbits / 64 by omega,
          show (64 * (nbits / 64) + j) % 64 = j by omega]
      · rw [testBit_lastWordMask nbits hj]
        simp [hleft]
    · rename_i hleft
      rw [not_not.mp hleft]
      rfl

end

end CodeAnalyze.Irqbalance
