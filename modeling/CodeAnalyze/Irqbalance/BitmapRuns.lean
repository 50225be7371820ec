import CodeAnalyze.Irqbalance.BitmapSets

/-!
# Programs on bitmaps

What the comments in `bitmap.h` say each function does is `MaskOp.spec`, on sets of bits.
`MaskOp.run` does the same on words: whatever was in memory, whichever of the pointers are
equal, and whether the bitmaps are of one word or of many.
-/

namespace CodeAnalyze.Irqbalance

open Lib

/-- The bits of the bitmaps that have been written to. -/
abbrev Sets (nbits : ℕ) : Type := ℕ → Option (BitVec nbits)

/-- A shift that `bitmap_shift_right` and `bitmap_shift_left` can be asked for: by less than
a word where there is one word, and otherwise by at most all words. -/
def ShiftFits (nbits n : ℕ) : Prop :=
  if nbits ≤ bitsPerLong then n < bitsPerLong else n / bitsPerLong ≤ bitsToLongs nbits

instance (nbits n : ℕ) : Decidable (ShiftFits nbits n) :=
  inferInstanceAs
    (Decidable (if nbits ≤ bitsPerLong then n < bitsPerLong
      else n / bitsPerLong ≤ bitsToLongs nbits))

namespace MaskOp

variable {nbits : ℕ}

/-- `*dst = b`. -/
def put (t : Sets nbits) (dst : ℕ) (b : BitVec nbits) : Sets nbits × Option ℕ :=
  (Function.update t dst (some b), none)

/-- The bit `nr` alone. -/
abbrev bit (nbits nr : ℕ) : BitVec nbits := BitVec.twoPow nbits nr

/-- What a call does to sets of bits, and what it returns; `none` where it is given a bitmap
that was never written, or a bit or a shift outside the bitmap. -/
def spec (t : Sets nbits) : MaskOp → Option (Sets nbits × Option ℕ)
  | zero dst => some (put t dst 0#(nbits))
  | fill dst => some (put t dst (BitVec.allOnes nbits))
  | copy dst src => (t src).map (put t dst)
  | and dst src1 src2 => do return put t dst ((← t src1) &&& (← t src2))
  | or dst src1 src2 => do return put t dst ((← t src1) ||| (← t src2))
  | xor dst src1 src2 => do return put t dst ((← t src1) ^^^ (← t src2))
  | andnot dst src1 src2 => do return put t dst ((← t src1) &&& ~~~(← t src2))
  | complement dst src => (t src).map fun b => put t dst (~~~b)
  | shiftRight dst src n =>
    if ShiftFits nbits n then (t src).map fun b : BitVec nbits => put t dst (b >>> n) else none
  | shiftLeft dst src n =>
    if ShiftFits nbits n then (t src).map fun b : BitVec nbits => put t dst (b <<< n) else none
  | set nr addr =>
    if nr < nbits then (t addr).map fun b => put t addr (b ||| bit nbits nr) else none
  | clear nr addr =>
    if nr < nbits then (t addr).map fun b => put t addr (b &&& ~~~(bit nbits nr)) else none
  | change nr addr =>
    if nr < nbits then (t addr).map fun b => put t addr (b ^^^ bit nbits nr) else none
  | testAndSet nr addr =>
    if nr < nbits then
      (t addr).map fun b => ((put t addr (b ||| bit nbits nr)).1, some (b.getLsbD nr).toNat)
    else none
  | testAndClear nr addr =>
    if nr < nbits then
      (t addr).map fun b => ((put t addr (b &&& ~~~(bit nbits nr))).1, some (b.getLsbD nr).toNat)
    else none
  | testAndChange nr addr =>
    if nr < nbits then
      (t addr).map fun b => ((put t addr (b ^^^ bit nbits nr)).1, some (b.getLsbD nr).toNat)
    else none
  | test nr addr =>
    if nr < nbits then (t addr).map fun b => (t, some (b.getLsbD nr).toNat) else none
  | empty src => (t src).map fun b => (t, some (decide (b = 0#(nbits))).toNat)
  | full src => (t src).map fun b => (t, some (decide (b = BitVec.allOnes nbits)).toNat)
  | intersects src1 src2 => do
    return (t, some (decide ((← t src1) &&& (← t src2) ≠ 0#(nbits))).toNat)
  | equal src1 src2 => do return (t, some (decide ((← t src1) = (← t src2))).toNat)
  | weight src => (t src).map fun b => (t, some (countBits b.getLsbD nbits))

/-- The calls one after the other. -/
def specRun : List MaskOp → Sets nbits → Option (Sets nbits × List ℕ)
  | [], t => some (t, [])
  | op :: ops, t => do
    let (t, answer) ← spec t op
    let (t, answers) ← specRun ops t
    return (t, answer.toList ++ answers)

end MaskOp

/-! ## One call -/

section

variable {nbits : ℕ} {m m' : Bitmaps} {t : Sets nbits} {dst src nr : ℕ} {w : Words}
  {b : BitVec nbits}

/-- The bitmaps in memory are the sets. -/
def Stands (m : Bitmaps) (t : Sets nbits) : Prop := ∀ p b, t p = some b → IsSet nbits (m p) b

/-- The words of the bitmap `dst` are stored, and nothing else. -/
def Stores (nbits : ℕ) (m m' : Bitmaps) (dst : ℕ) (w : Words) : Prop :=
  ∀ p k, m' p k = if p = dst ∧ k < bitsToLongs nbits then w k else m p k

/-- A call left the sets and gave the answer, and wrote nowhere but into the words of
bitmaps. -/
structure CallOk (m : Bitmaps) (r : Bitmaps × Option ℕ) (r' : Sets nbits × Option ℕ) : Prop where
  answer : r.2 = r'.2
  stands : Stands r.1 r'.1
  inside : ∀ p k, bitsToLongs nbits ≤ k → r.1 p k = m p k

/-- A question. -/
theorem CallOk.of_answer (h : Stands m t) {x y : ℕ} (hxy : x = y) :
    CallOk m (m, some x) (t, some y) where
  answer := congrArg some hxy
  stands := h
  inside _ _ _ := rfl

theorem CallOk.of_stores (h : Stands m t) (hstores : Stores nbits m m' dst w)
    (hw : IsSet nbits w b) {x y : Option ℕ} (hxy : x = y) :
    CallOk m (m', x) ((MaskOp.put t dst b).1, y) where
  answer := hxy
  stands := by
    intro p c hc
    have hc : Function.update t dst (some b) p = some c := hc
    by_cases hp : p = dst
    · subst hp
      rw [Function.update_self] at hc
      cases hc
      exact hw.congr fun k hk => (hstores p k).trans (if_pos ⟨rfl, hk⟩)
    · rw [Function.update_of_ne hp] at hc
      exact (h p c hc).congr fun k _ => (hstores p k).trans (if_neg fun hin => hp hin.1)
  inside p k hk := (hstores p k).trans (if_neg fun hin => Nat.not_lt.mpr hk hin.2)

/-! ### What the functions store -/

/-- A bitmap of a single word. -/
theorem stores_single {word : UInt64} (hpos : 0 < nbits) (hsmall : nbits ≤ 64)
    (hw : w 0 = word) : Stores nbits m (m.store dst 0 word) dst w := by
  intro p k
  have hlim := bitsToLongs_eq nbits
  rw [Bitmaps.store_at]
  by_cases hk : k = 0
  · subst hk
    have hin : 0 < bitsToLongs nbits := by omega
    simp [hw, hin]
  · have hout : ¬k < bitsToLongs nbits := by omega
    simp [hk, hout]

/-- A loop over the words that looks at word `k` of its sources when it stores word `k`. -/
theorem stores_loop (word : Bitmaps → ℕ → UInt64)
    (hword : ∀ m m' : Bitmaps, ∀ k, (∀ p i, k ≤ i → m' p i = m p i) → word m' k = word m k) :
    Stores nbits m (storeLoop dst word (bitsToLongs nbits) m) dst (word m) :=
  fun p k => storeLoop_at _ hword p k

theorem stores_bitmapZeroAt (hpos : 0 < nbits) :
    Stores nbits m (bitmapZeroAt m dst nbits) dst fun _ => 0 := by
  unfold bitmapZeroAt
  split
  · rename_i hsmall
    exact stores_single hpos hsmall rfl
  · intro p k
    rw [Bitmaps.memset_at, Nat.zero_add]
    simp only [Nat.zero_le, true_and]

theorem stores_bitmapFill (hpos : 0 < nbits) :
    Stores nbits m (bitmapFill m dst nbits) dst
      fun k => if k + 1 < bitsToLongs nbits then ~~~0 else lastWordMask nbits := by
  intro p k
  have hlim := bitsToLongs_eq nbits
  have hmemset : (if bitsToLongs nbits > 1 then m.memset dst 0 (bitsToLongs nbits - 1) (~~~0)
      else m) p k = if p = dst ∧ k + 1 < bitsToLongs nbits then ~~~0 else m p k := by
    split
    · rw [Bitmaps.memset_at]
      congr 1
      exact propext ⟨fun hin => ⟨hin.1, by omega⟩, fun hin => ⟨hin.1, by omega, by omega⟩⟩
    · rw [if_neg (by omega)]
  unfold bitmapFill
  simp only
  rw [Bitmaps.store_at, hmemset]
  by_cases hp : p = dst
  · rcases Nat.lt_trichotomy (k + 1) (bitsToLongs nbits) with hlt | heq | hgt
    · rw [if_neg (by omega), if_pos ⟨hp, hlt⟩, if_pos ⟨hp, by omega⟩, if_pos hlt]
    · rw [if_pos (by omega), if_pos (by omega), if_neg (by omega)]
    · rw [if_neg (by omega), if_neg (by omega), if_neg (by omega)]
  · simp [hp]

theorem stores_bitmapCopy (hpos : 0 < nbits) :
    Stores nbits m (bitmapCopy m dst src nbits) dst (m src) := by
  unfold bitmapCopy
  split
  · rename_i hsmall
    exact stores_single hpos hsmall rfl
  · intro p k
    by_cases hp : p = dst
    · subst hp
      simp
    · simp [hp]

theorem stores_bitmapZip (hpos : 0 < nbits) (src1 src2 : ℕ) (op : UInt64 → UInt64 → UInt64) :
    Stores nbits m (bitmapZip m dst src1 src2 nbits op) dst
      fun k => op (m src1 k) (m src2 k) := by
  unfold bitmapZip
  split
  · rename_i hsmall
    exact stores_single hpos hsmall rfl
  · refine stores_loop (fun m k => op (m src1 k) (m src2 k)) fun m m' k hsame => ?_
    simp only [hsame _ k (Nat.le_refl k)]

theorem stores_bitmapComplement (hpos : 0 < nbits) :
    Stores nbits m (bitmapComplement m dst src nbits) dst
      fun k => if k < nbits / 64 then ~~~(m src k) else ~~~(m src k) &&& lastWordMask nbits := by
  have hlim := bitsToLongs_eq nbits
  unfold bitmapComplement
  split
  · rename_i hsmall
    have hsmall : nbits ≤ 64 := hsmall
    refine stores_single hpos hsmall ?_
    rcases Nat.lt_or_ge nbits 64 with hlt | hge
    · rw [if_neg (by omega)]
    · obtain rfl : nbits = 64 := Nat.le_antisymm hsmall hge
      have hall : lastWordMask 64 = ~~~0 := rfl
      simp [hall]
  · have hloop (p k : ℕ) : storeLoop dst (fun m k => ~~~(m src k)) (nbits / 64) m p k =
        if p = dst ∧ k < nbits / 64 then ~~~(m src k) else m p k :=
      storeLoop_at (nbits / 64) (fun m m' k hsame => by rw [hsame _ k (Nat.le_refl k)]) p k
    -- the last word is read after the loop has been over the words in front of it
    have hlast : storeLoop dst (fun m k => ~~~(m src k)) (nbits / 64) m src (nbits / 64) =
        m src (nbits / 64) :=
      (hloop src (nbits / 64)).trans (if_neg fun hin => Nat.lt_irrefl _ hin.2)
    intro p k
    unfold bitmapComplementWords
    simp only [show bitsPerLong = 64 from rfl]
    split
    · rename_i hleft
      rw [Bitmaps.store_at, hlast, hloop]
      by_cases hp : p = dst
      · rcases Nat.lt_trichotomy k (nbits / 64) with hlt | rfl | hgt
        · rw [if_neg (by omega), if_pos ⟨hp, hlt⟩, if_pos ⟨hp, by omega⟩, if_pos hlt]
        · rw [if_pos ⟨hp, rfl⟩, if_pos ⟨hp, by omega⟩, if_neg (Nat.lt_irrefl _)]
        · rw [if_neg (by omega), if_neg (by omega), if_neg (by omega)]
      · simp [hp]
    · rename_i hleft
      rw [hloop]
      have hsame : k < nbits / 64 ↔ k < bitsToLongs nbits := by omega
      by_cases hin : k < nbits / 64
      · simp [hin, hsame.mp hin]
      · rw [if_neg (fun h => hin h.2), if_neg (fun h => hin (hsame.mpr h.2))]

theorem stores_bitmapShiftRightWords {shift : ℕ} (hshift : shift / 64 ≤ bitsToLongs nbits) :
    Stores nbits m (bitmapShiftRightWords m dst src nbits shift) dst fun k =>
      if k < bitsToLongs nbits - shift / 64 then
        shiftRightWord (m src) (bitsToLongs nbits) (nbits % 64) (shift / 64) (shift % 64) k
      else 0 := by
  intro p k
  unfold bitmapShiftRightWords
  simp only [show bitsPerLong = 64 from rfl]
  rw [Bitmaps.memset_at, storeLoop_at]
  · by_cases hp : p = dst
    · rcases Nat.lt_or_ge k (bitsToLongs nbits - shift / 64) with hlt | hge
      · rw [if_neg (by omega), if_pos ⟨hp, hlt⟩, if_pos (by omega), if_pos hlt]
      · by_cases hin : k < bitsToLongs nbits
        · rw [if_pos (by omega), if_pos ⟨hp, hin⟩, if_neg (by omega)]
        · rw [if_neg (by omega), if_neg (by omega), if_neg (by omega)]
    · simp [hp]
  · intro m m' k hsame
    unfold shiftRightWord
    simp only [hsame src (shift / 64 + k + 1) (by omega), hsame src (shift / 64 + k) (by omega)]

theorem stores_bitmapShiftLeftWords {shift : ℕ} (hshift : shift / 64 ≤ bitsToLongs nbits) :
    Stores nbits m (bitmapShiftLeftWords m dst src nbits shift) dst fun k =>
      if k < shift / 64 then 0
      else shiftWord (m src) (bitsToLongs nbits) (nbits % 64) (shift / 64) (shift % 64)
        (k - shift / 64) := by
  intro p k
  unfold bitmapShiftLeftWords
  simp only [show bitsPerLong = 64 from rfl]
  rw [Bitmaps.memset_at, storeLoopDown_at]
  · by_cases hp : p = dst
    · rcases Nat.lt_or_ge k (shift / 64) with hlt | hge
      · rw [if_pos (by omega), if_pos ⟨hp, by omega⟩, if_pos hlt]
      · by_cases hin : k < bitsToLongs nbits
        · rw [if_neg (by omega), if_pos (by omega), if_pos ⟨hp, hin⟩, if_neg (by omega)]
        · rw [if_neg (by omega), if_neg (by omega), if_neg (by omega)]
    · simp [hp]
  · intro m m' k hsame
    unfold shiftWord
    simp only [hsame src (k - 1) (by omega), hsame src k (Nat.le_refl k)]

/-- A bit that is changed is in a word of the bitmap. -/
theorem stores_bit {word : UInt64} (hnr : nr < nbits) :
    Stores nbits m (m.store dst (bitopWord nr) word) dst
      (Function.update (m dst) (bitopWord nr) word) := by
  intro p k
  have hlim := bitsToLongs_eq nbits
  have hin : bitopWord nr < bitsToLongs nbits := by
    change nr / 64 < bitsToLongs nbits
    omega
  rw [Bitmaps.store_at]
  by_cases hp : p = dst
  · subst hp
    by_cases hk : k = bitopWord nr
    · subst hk
      simp [hin]
    · simp [hk]
  · simp [hp]

/-! ### The calls -/

variable {t' : Sets nbits} {op : MaskOp} {answer : Option ℕ} {a : BitVec nbits}

theorem IsSet.shiftRight_single {n : ℕ} (h : IsSet nbits (m src) b) (hpos : 0 < nbits)
    (hsmall : nbits ≤ 64) (hn : n < 64) :
    IsSet nbits (fun _ => m src 0 >>> n.toUInt64) (b >>> n) := by
  refine isSet_iff.mpr fun k hk j hj => ?_
  have hlim := bitsToLongs_eq nbits
  obtain rfl : k = 0 := by omega
  rw [UInt64.toNat_shiftRight, toNat_toUInt64 hn, Nat.testBit_shiftRight,
    BitVec.getLsbD_ushiftRight, Nat.mul_zero, Nat.zero_add]
  by_cases hin : n + j < 64
  · rw [h.word hk hin, Nat.mul_zero, Nat.zero_add]
  · rw [BitVec.getLsbD_of_ge b _ (by omega)]
    exact Nat.testBit_lt_two_pow
      (lt_of_lt_of_le (m src 0).toNat_lt (Nat.pow_le_pow_right (by decide) (by omega)))

theorem IsSet.shiftLeft_single {n : ℕ} (h : IsSet nbits (m src) b) (hpos : 0 < nbits)
    (hsmall : nbits ≤ 64) (hn : n < 64) :
    IsSet nbits (fun _ => (m src 0 <<< n.toUInt64) &&& lastWordMask nbits) (b <<< n) := by
  refine isSet_iff.mpr fun k hk j hj => ?_
  have hlim := bitsToLongs_eq nbits
  obtain rfl : k = 0 := by omega
  have hlast : decide (nbits % 64 ≠ 0 → j < nbits % 64) = decide (j < nbits) :=
    decide_eq_decide.mpr (by omega)
  rw [UInt64.toNat_and, Nat.testBit_and, UInt64.toNat_shiftLeft, toNat_toUInt64 hn,
    Nat.testBit_mod_two_pow, decide_eq_true hj, Bool.true_and, Nat.testBit_shiftLeft,
    testBit_lastWordMask nbits hj, hlast, BitVec.getLsbD_shiftLeft,
    Nat.mul_zero, Nat.zero_add, Bool.and_comm]
  by_cases hbit : n ≤ j
  · have hge : ¬j < n := by omega
    rw [h.word hk (by omega), Nat.mul_zero, Nat.zero_add]
    simp [hbit, hge]
  · have hlt : j < n := by omega
    simp [hbit, hlt]

theorem callOk_zip {src1 src2 : ℕ} {op : UInt64 → UInt64 → UInt64} {f : Bool → Bool → Bool}
    {g : BitVec nbits → BitVec nbits → BitVec nbits} (hpos : 0 < nbits) (h : Stands m t)
    (ha : t src1 = some a) (hb : t src2 = some b)
    (hop : ∀ x y : UInt64, ∀ j < 64,
      (op x y).toNat.testBit j = f (x.toNat.testBit j) (y.toNat.testBit j))
    (hg : ∀ i, (g a b).getLsbD i = f (a.getLsbD i) (b.getLsbD i)) :
    CallOk m (bitmapZip m dst src1 src2 nbits op, none) (MaskOp.put t dst (g a b)) :=
  .of_stores h (stores_bitmapZip hpos src1 src2 op) (IsSet.zip hop hg (h _ _ ha) (h _ _ hb)) rfl

theorem callOk_shiftRight {n : ℕ} (hpos : 0 < nbits) (h : Stands m t) (hb : t src = some b)
    (hfits : ShiftFits nbits n) :
    CallOk m (bitmapShiftRight m dst src nbits n, none) (MaskOp.put t dst (b >>> n)) := by
  unfold ShiftFits at hfits
  unfold bitmapShiftRight
  split
  · rename_i hsmall
    rw [if_pos hsmall] at hfits
    exact .of_stores h (stores_single hpos hsmall rfl)
      ((h _ _ hb).shiftRight_single hpos hsmall hfits) rfl
  · rename_i hlarge
    rw [if_neg hlarge] at hfits
    exact .of_stores h (stores_bitmapShiftRightWords hfits) ((h _ _ hb).shiftRight n) rfl

theorem callOk_shiftLeft {n : ℕ} (hpos : 0 < nbits) (h : Stands m t) (hb : t src = some b)
    (hfits : ShiftFits nbits n) :
    CallOk m (bitmapShiftLeftAt m dst src nbits n, none) (MaskOp.put t dst (b <<< n)) := by
  unfold ShiftFits at hfits
  unfold bitmapShiftLeftAt
  split
  · rename_i hsmall
    rw [if_pos hsmall] at hfits
    exact .of_stores h (stores_single hpos hsmall rfl)
      ((h _ _ hb).shiftLeft_single hpos hsmall hfits) rfl
  · rename_i hlarge
    rw [if_neg hlarge] at hfits
    exact .of_stores h (stores_bitmapShiftLeftWords hfits) ((h _ _ hb).shiftLeft n) rfl

/-- What the functions `__test_and_...` return is the bit as it was. -/
theorem oldBit_eq {addr : ℕ} (h : IsSet nbits (m addr) b) (hnr : nr < nbits) :
    oldBit m nr addr = b.getLsbD nr := by
  have hlim := bitsToLongs_eq nbits
  have hmod : nr % 64 < 64 := Nat.mod_lt _ (by decide)
  have hword : (m addr (nr / 64)).toNat.testBit (nr % 64) = b.getLsbD nr := by
    rw [h.word (by omega) hmod, Nat.div_add_mod]
  have hzero : m addr (nr / 64) &&& bitopMask nr = 0 ↔ b.getLsbD nr = false := by
    rw [word_eq_zero_iff, ← hword]
    constructor
    · intro hnone
      have hbit := hnone (nr % 64) hmod
      rw [UInt64.toNat_and, Nat.testBit_and, testBit_bitopMask nr hmod, decide_eq_true rfl,
        Bool.and_true] at hbit
      exact hbit
    · intro hbit j hj
      rw [UInt64.toNat_and, Nat.testBit_and, testBit_bitopMask nr hj]
      by_cases heq : nr % 64 = j
      · rw [← heq, hbit, Bool.false_and]
      · rw [decide_eq_false heq, Bool.and_false]
  unfold oldBit
  rw [show bitopWord nr = nr / 64 from rfl]
  cases hold : b.getLsbD nr with
  | false => exact decide_eq_false (not_not.mpr (hzero.mpr hold))
  | true =>
      refine decide_eq_true fun hnone => ?_
      rw [hzero.mp hnone] at hold
      cases hold

theorem callOk_bit {addr : ℕ} {op : UInt64 → UInt64 → UInt64} {f : Bool → Bool → Bool}
    {c : BitVec nbits} {x y : Option ℕ} (h : Stands m t) (hb : t addr = some b)
    (hnr : nr < nbits)
    (hop : ∀ x y : UInt64, ∀ j < 64,
      (op x y).toNat.testBit j = f (x.toNat.testBit j) (y.toNat.testBit j))
    (hf : ∀ x, f x false = x)
    (hc : ∀ i, c.getLsbD i = f (b.getLsbD i) (decide (nr = i))) (hxy : x = y) :
    CallOk m (m.store addr (bitopWord nr) (op (m addr (bitopWord nr)) (bitopMask nr)), x)
      ((MaskOp.put t addr c).1, y) :=
  .of_stores h (stores_bit hnr) ((h _ _ hb).update hop hf hc) hxy

theorem testBit_and_word (x y : UInt64) (j : ℕ) (_ : j < 64) :
    (x &&& y).toNat.testBit j = (x.toNat.testBit j && y.toNat.testBit j) := by
  rw [UInt64.toNat_and, Nat.testBit_and]

theorem testBit_or_word (x y : UInt64) (j : ℕ) (_ : j < 64) :
    (x ||| y).toNat.testBit j = (x.toNat.testBit j || y.toNat.testBit j) := by
  rw [UInt64.toNat_or, Nat.testBit_or]

theorem testBit_xor_word (x y : UInt64) (j : ℕ) (_ : j < 64) :
    (x ^^^ y).toNat.testBit j = (x.toNat.testBit j ^^ y.toNat.testBit j) := by
  rw [UInt64.toNat_xor, Nat.testBit_xor]

theorem testBit_andnot_word (x y : UInt64) (j : ℕ) (hj : j < 64) :
    (x &&& ~~~y).toNat.testBit j = (x.toNat.testBit j && !y.toNat.testBit j) := by
  rw [testBit_and_word _ _ j hj, testBit_not _ hj]

/-- Bits behind the last one are in no set, so `~~~` makes no difference there. -/
theorem getLsbD_andnot (a b : BitVec nbits) (i : ℕ) :
    (a &&& ~~~b).getLsbD i = (a.getLsbD i && !b.getLsbD i) := by
  rw [BitVec.getLsbD_and, BitVec.getLsbD_not]
  by_cases hi : i < nbits
  · simp [hi]
  · rw [BitVec.getLsbD_of_ge a i (by omega), Bool.false_and, Bool.false_and]

theorem getLsbD_bit (hnr : nr < nbits) (i : ℕ) :
    (MaskOp.bit nbits nr).getLsbD i = decide (nr = i) := by
  rw [MaskOp.bit, BitVec.getLsbD_twoPow, decide_eq_true hnr, Bool.true_and]

/-- What a call that needs a condition and a bitmap was given. -/
theorem guarded_map {α β : Type*} {p : Prop} [Decidable p] {o : Option α} {f : α → β} {r : β}
    (h : (if p then o.map f else none) = some r) : p ∧ ∃ a, o = some a ∧ f a = r := by
  split at h
  · exact ⟨‹p›, Option.map_eq_some_iff.mp h⟩
  · cases h

/-- A call on bitmaps is a call on sets. -/
theorem MaskOp.exec_ok (hpos : 0 < nbits) (h : Stands m t)
    (hspec : spec t op = some (t', answer)) : CallOk m (op.exec nbits m) (t', answer) := by
  cases op with
  | zero dst =>
      cases hspec
      exact .of_stores h (stores_bitmapZeroAt hpos) isSet_zero rfl
  | fill dst =>
      cases hspec
      exact .of_stores h (stores_bitmapFill hpos) isSet_allOnes rfl
  | copy dst src =>
      obtain ⟨b, hb, hput⟩ := Option.map_eq_some_iff.mp hspec
      cases hput
      exact .of_stores h (stores_bitmapCopy hpos) (h _ _ hb) rfl
  | and dst src1 src2 =>
      obtain ⟨a, ha, hspec⟩ := Option.bind_eq_some_iff.mp hspec
      obtain ⟨b, hb, hput⟩ := Option.bind_eq_some_iff.mp hspec
      cases hput
      exact callOk_zip hpos h ha hb testBit_and_word fun i => BitVec.getLsbD_and
  | or dst src1 src2 =>
      obtain ⟨a, ha, hspec⟩ := Option.bind_eq_some_iff.mp hspec
      obtain ⟨b, hb, hput⟩ := Option.bind_eq_some_iff.mp hspec
      cases hput
      exact callOk_zip hpos h ha hb testBit_or_word fun i => BitVec.getLsbD_or
  | xor dst src1 src2 =>
      obtain ⟨a, ha, hspec⟩ := Option.bind_eq_some_iff.mp hspec
      obtain ⟨b, hb, hput⟩ := Option.bind_eq_some_iff.mp hspec
      cases hput
      exact callOk_zip hpos h ha hb testBit_xor_word fun i => BitVec.getLsbD_xor
  | andnot dst src1 src2 =>
      obtain ⟨a, ha, hspec⟩ := Option.bind_eq_some_iff.mp hspec
      obtain ⟨b, hb, hput⟩ := Option.bind_eq_some_iff.mp hspec
      cases hput
      exact callOk_zip (f := fun x y => x && !y) (g := fun a b => a &&& ~~~b) hpos h ha hb
        testBit_andnot_word (getLsbD_andnot a b)
  | complement dst src =>
      obtain ⟨b, hb, hput⟩ := Option.map_eq_some_iff.mp hspec
      cases hput
      exact .of_stores h (stores_bitmapComplement hpos) (h _ _ hb).complement rfl
  | shiftRight dst src n =>
      obtain ⟨hfits, b, hb, hput⟩ := guarded_map hspec
      cases hput
      exact callOk_shiftRight hpos h hb hfits
  | shiftLeft dst src n =>
      obtain ⟨hfits, b, hb, hput⟩ := guarded_map hspec
      cases hput
      exact callOk_shiftLeft hpos h hb hfits
  | set nr addr =>
      obtain ⟨hnr, b, hb, hput⟩ := guarded_map hspec
      cases hput
      exact callOk_bit h hb hnr testBit_or_word Bool.or_false
        (fun i => by rw [BitVec.getLsbD_or, getLsbD_bit hnr]) rfl
  | clear nr addr =>
      obtain ⟨hnr, b, hb, hput⟩ := guarded_map hspec
      cases hput
      exact callOk_bit (f := fun x y => x && !y) h hb hnr testBit_andnot_word Bool.and_true
        (fun i => by rw [getLsbD_andnot, getLsbD_bit hnr]) rfl
  | change nr addr =>
      obtain ⟨hnr, b, hb, hput⟩ := guarded_map hspec
      cases hput
      exact callOk_bit h hb hnr testBit_xor_word Bool.xor_false
        (fun i => by rw [BitVec.getLsbD_xor, getLsbD_bit hnr]) rfl
  | testAndSet nr addr =>
      obtain ⟨hnr, b, hb, hput⟩ := guarded_map hspec
      cases hput
      exact callOk_bit h hb hnr testBit_or_word Bool.or_false
        (fun i => by rw [BitVec.getLsbD_or, getLsbD_bit hnr])
        (congrArg (fun x => some (Bool.toNat x)) (oldBit_eq (h _ _ hb) hnr))
  | testAndClear nr addr =>
      obtain ⟨hnr, b, hb, hput⟩ := guarded_map hspec
      cases hput
      exact callOk_bit (f := fun x y => x && !y) h hb hnr testBit_andnot_word Bool.and_true
        (fun i => by rw [getLsbD_andnot, getLsbD_bit hnr])
        (congrArg (fun x => some (Bool.toNat x)) (oldBit_eq (h _ _ hb) hnr))
  | testAndChange nr addr =>
      obtain ⟨hnr, b, hb, hput⟩ := guarded_map hspec
      cases hput
      exact callOk_bit h hb hnr testBit_xor_word Bool.xor_false
        (fun i => by rw [BitVec.getLsbD_xor, getLsbD_bit hnr])
        (congrArg (fun x => some (Bool.toNat x)) (oldBit_eq (h _ _ hb) hnr))
  | test nr addr =>
      obtain ⟨hnr, b, hb, hanswer⟩ := guarded_map hspec
      cases hanswer
      exact .of_answer h (congrArg Bool.toNat ((h _ _ hb).testBit_of_lt hnr))
  | empty src =>
      obtain ⟨b, hb, hanswer⟩ := Option.map_eq_some_iff.mp hspec
      cases hanswer
      exact .of_answer h (congrArg Bool.toNat (bitmapEmpty_eq hpos (h _ _ hb)))
  | full src =>
      obtain ⟨b, hb, hanswer⟩ := Option.map_eq_some_iff.mp hspec
      cases hanswer
      exact .of_answer h (congrArg Bool.toNat (bitmapFull_eq hpos (h _ _ hb)))
  | intersects src1 src2 =>
      obtain ⟨a, ha, hspec⟩ := Option.bind_eq_some_iff.mp hspec
      obtain ⟨b, hb, hanswer⟩ := Option.bind_eq_some_iff.mp hspec
      cases hanswer
      exact .of_answer h
        (congrArg Bool.toNat (bitmapIntersects_eq hpos (h _ _ ha) (h _ _ hb)))
  | equal src1 src2 =>
      obtain ⟨a, ha, hspec⟩ := Option.bind_eq_some_iff.mp hspec
      obtain ⟨b, hb, hanswer⟩ := Option.bind_eq_some_iff.mp hspec
      cases hanswer
      exact .of_answer h (congrArg Bool.toNat (bitmapEqual_eq hpos (h _ _ ha) (h _ _ hb)))
  | weight src =>
      obtain ⟨b, hb, hanswer⟩ := Option.map_eq_some_iff.mp hspec
      cases hanswer
      exact .of_answer h (bitmapWeight_eq hpos (h _ _ hb))

/-! ## Runs -/

variable {ops : List MaskOp} {answers : List ℕ}

theorem stands_none (m : Bitmaps) : Stands m fun _ => (none : Option (BitVec nbits)) := by
  intro p b hb
  cases hb

/-- Each call gives what it gives on sets, and the bitmaps stay the sets. -/
theorem MaskOp.run_ok (hpos : 0 < nbits) (h : Stands m t)
    (hspec : specRun ops t = some (t', answers)) :
    (run nbits ops m).2 = answers ∧ Stands (run nbits ops m).1 t' ∧
      ∀ p k, bitsToLongs nbits ≤ k → (run nbits ops m).1 p k = m p k := by
  induction ops generalizing m t answers with
  | nil =>
      cases hspec
      exact ⟨rfl, h, fun _ _ _ => rfl⟩
  | cons op ops ih =>
      obtain ⟨⟨t₁, answer⟩, hop, hspec⟩ := Option.bind_eq_some_iff.mp hspec
      obtain ⟨⟨t₂, rest⟩, hrest, heq⟩ := Option.bind_eq_some_iff.mp hspec
      cases heq
      have hcall := exec_ok hpos h hop
      obtain ⟨hanswers, hstands, hinside⟩ := ih hcall.stands hrest
      refine ⟨?_, hstands, fun p k hk => (hinside p k hk).trans (hcall.inside p k hk)⟩
      calc (run nbits (op :: ops) m).2
          = (op.exec nbits m).2.toList ++ (run nbits ops (op.exec nbits m).1).2 := rfl
        _ = answer.toList ++ rest := by rw [hcall.answer, hanswers]

end

/-- Whatever was in memory: a program that writes its bitmaps before it reads them gets the
answers that sets of bits give, and no word behind a bitmap is written. -/
theorem MaskOp.bitmaps_are_sets {nbits : ℕ} (hpos : 0 < nbits) (m : Bitmaps)
    {ops : List MaskOp} {t : Sets nbits} {answers : List ℕ}
    (hspec : specRun ops (fun _ => none) = some (t, answers)) :
    (run nbits ops m).2 = answers ∧ Stands (run nbits ops m).1 t ∧
      ∀ p k, bitsToLongs nbits ≤ k → (run nbits ops m).1 p k = m p k :=
  run_ok hpos (stands_none m) hspec

/-- Bitmaps of 70 bits; some of the calls write what they read. -/
def shiftedOnes : List MaskOp :=
  [.fill 0, .shiftLeft 1 0 66, .weight 1, .shiftRight 0 0 67, .andnot 1 1 0, .equal 0 1,
    .testAndChange 69 1, .complement 1 1, .weight 1]

/-- The answers, from any memory. -/
theorem MaskOp.bitmaps_are_sets_shiftedOnes :
    (run 70 shiftedOnes fun _ _ => 0x123456789).2 = [4, 0, 1, 67] := by
  have hspec : ∃ t : Sets 70, specRun shiftedOnes (fun _ => none) = some (t, [4, 0, 1, 67]) :=
    ⟨_, rfl⟩
  obtain ⟨t, ht⟩ := hspec
  exact (bitmaps_are_sets (by decide) _ ht).1

end CodeAnalyze.Irqbalance
