import CodeAnalyze.Irqbalance.Bitmap
import Mathlib.Data.Nat.Size

/-!
# The bits of a mask

What `__bitmap_shift_left` and `fls` compute, as facts about single bits: of a mask of any
width, the bits below the shift are zero, the others come from below, and what would leave
the width is lost.
-/

namespace CodeAnalyze.Irqbalance

/-! ## The highest bits of a word -/

/-- The test for the `n` highest bits of a word. -/
theorem and_high_eq_zero_iff {x high : UInt32} {n : ℕ} (hn : n ≤ 32)
    (hhigh : high.toNat = (2 ^ n - 1) <<< (32 - n)) :
    x &&& high = 0 ↔ x.toNat < 2 ^ (32 - n) := by
  have htop : x.toNat >>> (32 - n) < 2 ^ n := by
    rw [Nat.shiftRight_eq_div_pow]
    apply Nat.div_lt_of_lt_mul
    rw [← Nat.pow_add, Nat.sub_add_cancel hn]
    exact x.toNat_lt
  have hand : (x &&& high).toNat = (x.toNat >>> (32 - n)) <<< (32 - n) := by
    rw [UInt32.toNat_and, hhigh]
    apply Nat.eq_of_testBit_eq
    intro i
    rw [Nat.testBit_and, Nat.testBit_shiftLeft, Nat.testBit_shiftLeft, Nat.testBit_shiftRight,
      Nat.testBit_two_pow_sub_one]
    by_cases hi : 32 - n ≤ i
    · have hplace : 32 - n + (i - (32 - n)) = i := by omega
      by_cases hin : i - (32 - n) < n
      · simp [hi, hin, hplace]
      · have hzero : x.toNat.testBit i = false :=
          Nat.testBit_lt_two_pow (Nat.lt_of_lt_of_le x.toNat_lt
            (Nat.pow_le_pow_right (by decide) (by omega)))
        simp [hplace, hzero]
    · simp [hi]
  rw [← UInt32.toNat_inj, hand, Nat.shiftLeft_eq, Nat.shiftRight_eq_div_pow]
  change _ = 0 ↔ _
  rw [Nat.mul_eq_zero, Nat.div_eq_zero_iff]
  have hpos := Nat.two_pow_pos (32 - n)
  omega

/-- A chunk has room for a further digit if it has less than eight. -/
theorem chunk_full_iff {chunk : UInt32} :
    chunk &&& ~~~0x0fffffff = 0 ↔ chunk.toNat < 2 ^ 28 :=
  and_high_eq_zero_iff (n := 4) (by decide) (by decide)

/-! ## `fls` -/

/-- The shifts so far are accounted for, and fewer than `n` zeros are left on top. -/
def FlsState (size n : ℕ) (xr : UInt32 × ℕ) : Prop :=
  xr.1.toNat.size + xr.2 = size + 32 ∧ 32 < xr.1.toNat.size + n

theorem FlsState.flsStep {size : ℕ} {xr : UInt32 × ℕ} (n : ℕ) (high : UInt32)
    (h : FlsState size (2 * n) xr) (hsize : 0 < size) (hn : n ≤ 16)
    (hhigh : high.toNat = (2 ^ n - 1) <<< (32 - n)) : FlsState size n (flsStep high n xr) := by
  obtain ⟨hsum, hzeros⟩ := h
  have hle : n ≤ 32 := by omega
  unfold CodeAnalyze.Irqbalance.flsStep
  simp only [and_high_eq_zero_iff hle hhigh]
  split
  · rename_i hlt
    have hsmall : xr.1.toNat.size ≤ 32 - n := Nat.size_le.mpr hlt
    have hroom : n ≤ xr.2 := by omega
    have hfits : xr.1.toNat * 2 ^ n < 2 ^ 32 :=
      calc xr.1.toNat * 2 ^ n < 2 ^ (32 - n) * 2 ^ n :=
            Nat.mul_lt_mul_of_pos_right hlt (Nat.two_pow_pos n)
        _ = 2 ^ 32 := by rw [← Nat.pow_add, Nat.sub_add_cancel hle]
    have hshift : n.toUInt32.toNat % 32 = n := by
      have hconv : n.toUInt32.toNat = n := Nat.mod_eq_of_lt (by omega)
      rw [hconv, Nat.mod_eq_of_lt (by omega)]
    have hne : xr.1.toNat ≠ 0 := by
      intro hzero
      rw [hzero, Nat.size_zero] at hzeros
      omega
    have hnew : (xr.1 <<< n.toUInt32).toNat.size = xr.1.toNat.size + n := by
      rw [UInt32.toNat_shiftLeft, hshift, Nat.shiftLeft_eq, Nat.mod_eq_of_lt hfits,
        ← Nat.shiftLeft_eq, Nat.size_shiftLeft hne]
    refine ⟨?_, ?_⟩
    · change (xr.1 <<< n.toUInt32).toNat.size + (xr.2 - n) = size + 32
      rw [hnew, Nat.add_assoc, Nat.add_sub_cancel' hroom, hsum]
    · change 32 < (xr.1 <<< n.toUInt32).toNat.size + n
      rw [hnew, Nat.add_assoc, ← Nat.two_mul]
      exact hzeros
  · rename_i hge
    have hlarge : 32 - n < xr.1.toNat.size := Nat.lt_size.mpr (Nat.le_of_not_lt hge)
    exact ⟨hsum, by omega⟩

/-- `fls` is the number of bits that a value needs. -/
theorem fls_eq (x : UInt32) : fls x = x.toNat.size := by
  unfold fls
  split
  · rename_i hzero
    rw [hzero]
    rfl
  · rename_i hne
    have hpos : 0 < x.toNat.size := by
      rw [Nat.size_pos]
      apply Nat.pos_of_ne_zero
      exact fun hzero => hne (UInt32.toNat_inj.mp hzero)
    have hstart : FlsState x.toNat.size (2 * 16) (x, 32) :=
      ⟨rfl, Nat.lt_add_of_pos_left hpos⟩
    have h16 := hstart.flsStep 16 0xffff0000 hpos (by decide) (by decide)
    have h8 := FlsState.flsStep 8 0xff000000 h16 hpos (by decide) (by decide)
    have h4 := FlsState.flsStep 4 0xf0000000 h8 hpos (by decide) (by decide)
    have h2 := FlsState.flsStep 2 0xc0000000 h4 hpos (by decide) (by decide)
    have hlast := FlsState.flsStep 1 0x80000000 h2 hpos (by decide) (by decide)
    dsimp only
    generalize flsStep 0x80000000 1 _ = last at hlast ⊢
    have hle : last.1.toNat.size ≤ 32 := Nat.size_le.mpr last.1.toNat_lt
    obtain ⟨hsum, htop⟩ := hlast
    omega

/-! ## Shifting in a chunk -/

/-- What is stored depends on two words. -/
theorem shiftWord_congr {src src' : Words} {i : ℕ} (lim left off rem : ℕ) (h : src i = src' i)
    (h' : src (i - 1) = src' (i - 1)) :
    shiftWord src lim left off rem i = shiftWord src' lim left off rem i := by
  unfold shiftWord
  rw [h, h']

/-- The loop stores every word once, from words that are not yet overwritten. -/
theorem shiftLeftLoop_eq (lim left rem k : ℕ) (src : Words) (i : ℕ) :
    shiftLeftLoop lim left 0 rem k src i =
      if i < k then shiftWord src lim left 0 rem i else src i := by
  induction k generalizing src with
  | zero => rfl
  | succ k ih =>
      rw [shiftLeftLoop, ih, Nat.add_zero]
      rcases Nat.lt_trichotomy i k with hlt | rfl | hgt
      · rw [if_pos hlt, if_pos (by omega)]
        apply shiftWord_congr
        · exact Function.update_of_ne (by omega) _ _
        · exact Function.update_of_ne (by omega) _ _
      · rw [if_neg (Nat.lt_irrefl i), if_pos (Nat.lt_succ_self i), Function.update_self]
      · rw [if_neg (by omega), if_neg (by omega), Function.update_of_ne (by omega)]

/-- The mask for the bits of the last word. -/
theorem toNat_ones {left : ℕ} (h : left < 64) :
    ((1 <<< left.toUInt64) - 1 : UInt64).toNat = 2 ^ left - 1 := by
  have hconv : left.toUInt64.toNat = left := Nat.mod_eq_of_lt (by omega)
  have hpow : (1 <<< left.toUInt64 : UInt64).toNat = 2 ^ left := by
    have hlt : 2 ^ left < 2 ^ 64 := Nat.pow_lt_pow_right (by decide) h
    rw [UInt64.toNat_shiftLeft, hconv, Nat.mod_eq_of_lt h, Nat.shiftLeft_eq]
    change 1 * 2 ^ left % 2 ^ 64 = 2 ^ left
    rw [Nat.one_mul, Nat.mod_eq_of_lt hlt]
  have hpos := Nat.two_pow_pos left
  rw [UInt64.toNat_sub_of_le _ _ (by rw [UInt64.le_iff_toNat_le, hpow]; exact hpos), hpow]
  rfl

/-- The bits of two halves of neighbouring words. -/
theorem testBit_joined (lower upper : UInt64) {j : ℕ} (hj : j < 64) :
    ((lower >>> 32) ||| (upper <<< 32)).toNat.testBit j =
      if j < 32 then lower.toNat.testBit (j + 32) else upper.toNat.testBit (j - 32) := by
  have hshift : (32 : UInt64).toNat % 64 = 32 := rfl
  rw [UInt64.toNat_or, UInt64.toNat_shiftRight, UInt64.toNat_shiftLeft, hshift, Nat.testBit_or,
    Nat.testBit_shiftRight, Nat.testBit_mod_two_pow, Nat.testBit_shiftLeft, Nat.add_comm 32 j,
    decide_eq_true hj, Bool.true_and]
  by_cases hlow : j < 32
  · have hnot : ¬32 ≤ j := by omega
    simp [hlow, hnot]
  · have hzero : lower.toNat.testBit (j + 32) = false :=
      Nat.testBit_lt_two_pow (Nat.lt_of_lt_of_le lower.toNat_lt
        (Nat.pow_le_pow_right (by decide) (by omega)))
    have hhigh : 32 ≤ j := by omega
    simp [hlow, hhigh, hzero]

/-- The bits of the word that is stored: of the last word those within the width. -/
theorem testBit_shiftWord (src : Words) {lim left k j : ℕ} (hleft : left < 64) (hj : j < 64) :
    (shiftWord src lim left 0 32 k).toNat.testBit j =
      (decide (left ≠ 0 ∧ k = lim - 1 → j < left) &&
        if j < 32 then decide (0 < k) && (src (k - 1)).toNat.testBit (j + 32)
        else (src k).toNat.testBit (j - 32)) := by
  have hrest : (bitsPerLong - 32).toUInt64 = 32 := rfl
  have hrem : (32 : ℕ).toUInt64 = 32 := rfl
  have hlower : (if (32 : ℕ) ≠ 0 ∧ 0 < k then src (k - 1) else 0).toNat.testBit (j + 32) =
      (decide (0 < k) && (src (k - 1)).toNat.testBit (j + 32)) := by
    by_cases hk : 0 < k
    · simp [hk]
    · simp [hk]
  unfold shiftWord
  simp only [hrest, hrem, Nat.add_zero]
  by_cases hlast : left ≠ 0 ∧ k = lim - 1
  · rw [if_pos hlast, if_pos hlast, UInt64.toNat_and, toNat_ones hleft, Nat.testBit_and,
      Nat.testBit_two_pow_sub_one, testBit_joined _ _ hj, UInt64.toNat_and, toNat_ones hleft,
      Nat.testBit_and, Nat.testBit_two_pow_sub_one, hlower]
    by_cases hin : j < left
    · have hin' : j - 32 < left := by omega
      simp [hin, hin']
    · simp [hin, hlast]
  · rw [if_neg hlast, if_neg hlast, testBit_joined _ _ hj, hlower]
    simp [hlast]

/-- The bits move up by a chunk. -/
theorem testBit_bitmapShiftLeft (maskp : Words) {n i : ℕ} (hi : i < 64 * bitsToLongs n) :
    testBit (bitmapShiftLeft maskp chunkSz n) i =
      (decide (i < n) && decide (32 ≤ i) && testBit maskp (i - 32)) := by
  have hlim : bitsToLongs n = (n + 63) / 64 := rfl
  have hword : bitmapShiftLeft maskp chunkSz n (i / 64) =
      shiftWord maskp (bitsToLongs n) (n % bitsPerLong) 0 32 (i / 64) := by
    have hoff : chunkSz / bitsPerLong = 0 := rfl
    have hrem : chunkSz % bitsPerLong = 32 := rfl
    unfold bitmapShiftLeft
    simp only [hoff, hrem, Nat.sub_zero, Nat.not_lt_zero, if_false]
    rw [shiftLeftLoop_eq, if_pos (by omega)]
  have hwidth : (n % bitsPerLong ≠ 0 ∧ i / 64 = bitsToLongs n - 1 → i % 64 < n % bitsPerLong) ↔
      i < n := by
    simp only [bitsPerLong]
    omega
  have hmod : i % 64 < 64 := Nat.mod_lt _ (by decide)
  have hleft : n % bitsPerLong < 64 := Nat.mod_lt _ (by decide)
  unfold testBit
  simp only [show bitsPerLong = 64 from rfl]
  rw [hword, testBit_shiftWord _ hleft hmod, Bool.and_assoc]
  simp only [hwidth]
  congr 1
  by_cases hlow : i % 64 < 32
  · rw [if_pos hlow]
    by_cases hfirst : 0 < i / 64
    · have hplace : (i - 32) / 64 = i / 64 - 1 := by omega
      have hbit : (i - 32) % 64 = i % 64 + 32 := by omega
      have hle : 32 ≤ i := by omega
      simp [hfirst, hplace, hbit, hle]
    · have hle : ¬32 ≤ i := by omega
      simp [hfirst, hle]
  · have hplace : (i - 32) / 64 = i / 64 := by omega
    have hbit : (i - 32) % 64 = i % 64 - 32 := by omega
    have hle : 32 ≤ i := by omega
    simp [hlow, hplace, hbit, hle]

/-- A chunk is put below the bits that are there. -/
theorem testBit_shiftIn (maskp : Words) (chunk : UInt32) {n i : ℕ}
    (hi : i < 64 * bitsToLongs n) :
    testBit (shiftIn maskp chunk n) i =
      if i < 32 then chunk.toNat.testBit i else decide (i < n) && testBit maskp (i - 32) := by
  have hshift := testBit_bitmapShiftLeft maskp hi
  by_cases hfirst : i / 64 = 0
  · have hor : testBit (shiftIn maskp chunk n) i =
        (testBit (bitmapShiftLeft maskp chunkSz n) i || chunk.toNat.testBit i) := by
      have hmod : i % 64 = i := by omega
      unfold testBit shiftIn
      simp only [show bitsPerLong = 64 from rfl]
      rw [hfirst, hmod, Function.update_self, UInt64.toNat_or, Nat.testBit_or,
        UInt32.toNat_toUInt64]
    rw [hor, hshift]
    by_cases hlow : i < 32
    · have hnot : ¬32 ≤ i := by omega
      simp [hlow, hnot]
    · have hzero : chunk.toNat.testBit i = false :=
        Nat.testBit_lt_two_pow (Nat.lt_of_lt_of_le chunk.toNat_lt
          (Nat.pow_le_pow_right (by decide) (by omega)))
      have hle : 32 ≤ i := by omega
      simp [hlow, hzero, hle]
  · have hother : testBit (shiftIn maskp chunk n) i =
        testBit (bitmapShiftLeft maskp chunkSz n) i := by
      unfold testBit shiftIn
      simp only [show bitsPerLong = 64 from rfl]
      rw [Function.update_of_ne hfirst]
    have hlow : ¬i < 32 := by omega
    have hle : 32 ≤ i := by omega
    rw [hother, hshift]
    simp [hlow, hle]

/-! ## Masks that hold a value -/

/-- The words of a mask of `n` bits hold the value. -/
def Holds (maskp : Words) (n value : ℕ) : Prop :=
  ∀ i < 64 * bitsToLongs n, testBit maskp i = value.testBit i

theorem holds_bitmapZero (maskp : Words) (n : ℕ) : Holds (bitmapZero maskp n) n 0 := by
  intro i hi
  have hword : i / bitsPerLong < bitsToLongs n := Nat.div_lt_of_lt_mul hi
  unfold testBit bitmapZero
  rw [if_pos hword]
  simp

/-- A value that is still within the width gets the chunk as its lowest digit. -/
theorem Holds.shiftIn {maskp : Words} {n value : ℕ} {chunk : UInt32} (h : Holds maskp n value)
    (hfits : value * 2 ^ 32 + chunk.toNat < 2 ^ n) :
    Holds (shiftIn maskp chunk n) n (value * 2 ^ 32 + chunk.toNat) := by
  intro i hi
  rw [testBit_shiftIn maskp chunk hi, Nat.mul_comm,
    Nat.testBit_two_pow_mul_add value chunk.toNat_lt]
  split
  · rfl
  · rename_i hhigh
    rw [h (i - 32) (by omega)]
    by_cases hin : i < n
    · rw [decide_eq_true hin, Bool.true_and]
    · have hzero : (2 ^ 32 * value + chunk.toNat).testBit i = false :=
        Nat.testBit_lt_two_pow (Nat.lt_of_lt_of_le (by rw [Nat.mul_comm]; exact hfits)
          (Nat.pow_le_pow_right (by decide) (by omega)))
      rw [Nat.testBit_two_pow_mul_add value chunk.toNat_lt, if_neg hhigh] at hzero
      rw [hzero, Bool.and_false]

end CodeAnalyze.Irqbalance
