import CodeAnalyze.Irqbalance.MaskBits

/-!
# Operations on bitmaps: `bitmap.c`, `bitmap.h` and `non-atomic.h`

A function is given pointers, and the bitmaps they point to may be the same one: a loop
reads its sources when it comes to them, from memory it has already written to.  Memory is
an array of words for each pointer.

The functions whose names begin with `__` work on bitmaps of any width, and the inline
functions treat a bitmap of a single word apart.
-/

namespace CodeAnalyze.Irqbalance

/-- The bitmaps in memory. -/
abbrev Bitmaps : Type := ℕ → Words

namespace Bitmaps

/-- `dst[k] = word`. -/
def store (m : Bitmaps) (dst k : ℕ) (word : UInt64) : Bitmaps :=
  Function.update m dst (Function.update (m dst) k word)

/-- `memset` of `n` words from `dst[first]` on. -/
def memset (m : Bitmaps) (dst first n : ℕ) (word : UInt64) : Bitmaps :=
  Function.update m dst fun k => if first ≤ k ∧ k < first + n then word else m dst k

end Bitmaps

/-- `for (k = 0; k < n; k++) dst[k] = word(k)`. -/
def storeLoop (dst : ℕ) (word : Bitmaps → ℕ → UInt64) (n : ℕ) (m : Bitmaps) : Bitmaps :=
  (List.range n).foldl (fun m k => m.store dst k (word m k)) m

/-- `for (k = n - 1; k >= 0; k--) dst[k + off] = word(k)`. -/
def storeLoopDown (dst off : ℕ) (word : Bitmaps → ℕ → UInt64) (n : ℕ) (m : Bitmaps) : Bitmaps :=
  (List.range n).reverse.foldl (fun m k => m.store dst (k + off) (word m k)) m

/-- `(1UL << left) - 1`. -/
def onesBelow (left : ℕ) : UInt64 := (1 <<< left.toUInt64) - 1

/-- `BITMAP_LAST_WORD_MASK`. -/
def lastWordMask (nbits : ℕ) : UInt64 :=
  if nbits % bitsPerLong ≠ 0 then onesBelow (nbits % bitsPerLong) else ~~~0

section

variable (m : Bitmaps) (dst src src1 src2 nbits : ℕ)

/-! ## Filling and copying -/

/-- `bitmap_zero`. -/
def bitmapZeroAt : Bitmaps :=
  if nbits ≤ bitsPerLong then m.store dst 0 0 else m.memset dst 0 (bitsToLongs nbits) 0

/-- `bitmap_fill`. -/
def bitmapFill : Bitmaps :=
  let nlongs := bitsToLongs nbits
  let m := if nlongs > 1 then m.memset dst 0 (nlongs - 1) (~~~0) else m
  m.store dst (nlongs - 1) (lastWordMask nbits)

/-- `bitmap_copy`. -/
def bitmapCopy : Bitmaps :=
  if nbits ≤ bitsPerLong then m.store dst 0 (m src 0)
  else
    Function.update m dst fun k => if k < bitsToLongs nbits then m src k else m dst k

/-! ## Boolean operations -/

/-- `__bitmap_and`, `__bitmap_or`, `__bitmap_xor` and `__bitmap_andnot`, with the operation on
words. -/
def bitmapZipWords (op : UInt64 → UInt64 → UInt64) : Bitmaps :=
  storeLoop dst (fun m k => op (m src1 k) (m src2 k)) (bitsToLongs nbits) m

/-- `bitmap_and`, `bitmap_or`, `bitmap_xor` and `bitmap_andnot`, with the operation on words. -/
def bitmapZip (op : UInt64 → UInt64 → UInt64) : Bitmaps :=
  if nbits ≤ bitsPerLong then m.store dst 0 (op (m src1 0) (m src2 0))
  else bitmapZipWords m dst src1 src2 nbits op

/-- `bitmap_and`. -/
def bitmapAnd : Bitmaps := bitmapZip m dst src1 src2 nbits fun a b => a &&& b

/-- `bitmap_or`. -/
def bitmapOr : Bitmaps := bitmapZip m dst src1 src2 nbits fun a b => a ||| b

/-- `bitmap_xor`. -/
def bitmapXor : Bitmaps := bitmapZip m dst src1 src2 nbits fun a b => a ^^^ b

/-- `bitmap_andnot`. -/
def bitmapAndnot : Bitmaps := bitmapZip m dst src1 src2 nbits fun a b => a &&& ~~~b

/-- `__bitmap_complement`. -/
def bitmapComplementWords : Bitmaps :=
  let lim := nbits / bitsPerLong
  let m := storeLoop dst (fun m k => ~~~(m src k)) lim m
  if nbits % bitsPerLong ≠ 0 then m.store dst lim (~~~(m src lim) &&& lastWordMask nbits) else m

/-- `bitmap_complement`. -/
def bitmapComplement : Bitmaps :=
  if nbits ≤ bitsPerLong then m.store dst 0 (~~~(m src 0) &&& lastWordMask nbits)
  else bitmapComplementWords m dst src nbits

/-! ## Shifts -/

/-- The word that `__bitmap_shift_right` stores in `dst[k]`. -/
def shiftRightWord (src : Words) (lim left off rem k : ℕ) : UInt64 :=
  let mask := onesBelow left
  let upper :=
    if rem = 0 ∨ lim ≤ off + k + 1 then 0
    else if off + k + 1 = lim - 1 ∧ left ≠ 0 then src (off + k + 1) &&& mask
    else src (off + k + 1)
  let lower := if left ≠ 0 ∧ off + k = lim - 1 then src (off + k) &&& mask else src (off + k)
  let word := (upper <<< (bitsPerLong - rem).toUInt64) ||| (lower >>> rem.toUInt64)
  if left ≠ 0 ∧ k = lim - 1 then word &&& mask else word

/-- `__bitmap_shift_right`, for a shift of at most the words of the bitmap; a longer one would
write in front of it. -/
def bitmapShiftRightWords (shift : ℕ) : Bitmaps :=
  let lim := bitsToLongs nbits
  let left := nbits % bitsPerLong
  let off := shift / bitsPerLong
  let rem := shift % bitsPerLong
  let m := storeLoop dst (fun m k => shiftRightWord (m src) lim left off rem k) (lim - off) m
  m.memset dst (lim - off) off 0

/-- `bitmap_shift_right`. -/
def bitmapShiftRight (n : ℕ) : Bitmaps :=
  if nbits ≤ bitsPerLong then m.store dst 0 (m src 0 >>> n.toUInt64)
  else bitmapShiftRightWords m dst src nbits n

/-- `__bitmap_shift_left`, for a shift of at most the words of the bitmap. -/
def bitmapShiftLeftWords (shift : ℕ) : Bitmaps :=
  let lim := bitsToLongs nbits
  let left := nbits % bitsPerLong
  let off := shift / bitsPerLong
  let rem := shift % bitsPerLong
  let m := storeLoopDown dst off (fun m k => shiftWord (m src) lim left off rem k) (lim - off) m
  m.memset dst 0 off 0

/-- `bitmap_shift_left`. -/
def bitmapShiftLeftAt (n : ℕ) : Bitmaps :=
  if nbits ≤ bitsPerLong then m.store dst 0 ((m src 0 <<< n.toUInt64) &&& lastWordMask nbits)
  else bitmapShiftLeftWords m dst src nbits n

/-! ## Single bits -/

/-- `BITOP_MASK`. -/
def bitopMask (nr : ℕ) : UInt64 := 1 <<< (nr % bitsPerLong).toUInt64

/-- `BITOP_WORD`. -/
def bitopWord (nr : ℕ) : ℕ := nr / bitsPerLong

variable (nr addr : ℕ)

/-- `set_bit`. -/
def setBit : Bitmaps :=
  m.store addr (bitopWord nr) (m addr (bitopWord nr) ||| bitopMask nr)

/-- `clear_bit`. -/
def clearBit : Bitmaps :=
  m.store addr (bitopWord nr) (m addr (bitopWord nr) &&& ~~~(bitopMask nr))

/-- `__change_bit`. -/
def changeBit : Bitmaps :=
  m.store addr (bitopWord nr) (m addr (bitopWord nr) ^^^ bitopMask nr)

/-- What the functions `__test_and_...` return. -/
def oldBit : Bool := m addr (bitopWord nr) &&& bitopMask nr ≠ 0

/-- `__test_and_set_bit`. -/
def testAndSetBit : Bool × Bitmaps := (oldBit m nr addr, setBit m nr addr)

/-- `__test_and_clear_bit`. -/
def testAndClearBit : Bool × Bitmaps := (oldBit m nr addr, clearBit m nr addr)

/-- `__test_and_change_bit`. -/
def testAndChangeBit : Bool × Bitmaps := (oldBit m nr addr, changeBit m nr addr)

/-! ## Questions -/

/-- No word of the bitmap fails the test of `__bitmap_empty`, `__bitmap_full` and
`__bitmap_intersects`. -/
def noBits (word : ℕ → UInt64) : Bool :=
  let lim := nbits / bitsPerLong
  (List.range lim).all (fun k => word k = 0) &&
    (nbits % bitsPerLong = 0 || word lim &&& lastWordMask nbits = 0)

/-- `bitmap_empty`. -/
def bitmapEmpty : Bool :=
  if nbits ≤ bitsPerLong then m src 0 &&& lastWordMask nbits = 0 else noBits nbits (m src)

/-- `bitmap_full`. -/
def bitmapFull : Bool :=
  if nbits ≤ bitsPerLong then ~~~(m src 0) &&& lastWordMask nbits = 0
  else noBits nbits fun k => ~~~(m src k)

/-- `bitmap_intersects`. -/
def bitmapIntersects : Bool :=
  if nbits ≤ bitsPerLong then (m src1 0 &&& m src2 0) &&& lastWordMask nbits ≠ 0
  else !noBits nbits fun k => m src1 k &&& m src2 k

/-- `__bitmap_equal`. -/
def bitmapEqualWords : Bool :=
  let lim := nbits / bitsPerLong
  (List.range lim).all (fun k => m src1 k = m src2 k) &&
    (nbits % bitsPerLong = 0 || (m src1 lim ^^^ m src2 lim) &&& lastWordMask nbits = 0)

/-- `bitmap_equal`. -/
def bitmapEqual : Bool :=
  if nbits ≤ bitsPerLong then (m src1 0 ^^^ m src2 0) &&& lastWordMask nbits = 0
  else bitmapEqualWords m src1 src2 nbits

/-- `hweight64`. -/
def hweight64 (w : UInt64) : UInt64 :=
  let ones : UInt64 := w - ((w >>> 1 : UInt64) &&& 0x5555555555555555)
  let twos : UInt64 :=
    (ones &&& (0x3333333333333333 : UInt64)) + ((ones >>> 2 : UInt64) &&& 0x3333333333333333)
  let fours : UInt64 := (twos + (twos >>> 4 : UInt64)) &&& (0x0f0f0f0f0f0f0f0f : UInt64)
  (fours * (0x0101010101010101 : UInt64)) >>> 56

/-- `__bitmap_weight`. -/
def bitmapWeightWords : ℕ :=
  let lim := nbits / bitsPerLong
  let w := (List.range lim).foldl (fun w k => w + (hweight64 (m src k)).toNat) 0
  if nbits % bitsPerLong ≠ 0 then w + (hweight64 (m src lim &&& lastWordMask nbits)).toNat else w

/-- `bitmap_weight`. -/
def bitmapWeight : ℕ :=
  if nbits ≤ bitsPerLong then (hweight64 (m src 0 &&& lastWordMask nbits)).toNat
  else bitmapWeightWords m src nbits

end

/-! ## Programs -/

/-- A call of a function on bitmaps. -/
inductive MaskOp
  | zero (dst : ℕ)
  | fill (dst : ℕ)
  | copy (dst src : ℕ)
  | and (dst src1 src2 : ℕ)
  | or (dst src1 src2 : ℕ)
  | xor (dst src1 src2 : ℕ)
  | andnot (dst src1 src2 : ℕ)
  | complement (dst src : ℕ)
  | shiftRight (dst src n : ℕ)
  | shiftLeft (dst src n : ℕ)
  | set (nr addr : ℕ)
  | clear (nr addr : ℕ)
  | change (nr addr : ℕ)
  | testAndSet (nr addr : ℕ)
  | testAndClear (nr addr : ℕ)
  | testAndChange (nr addr : ℕ)
  | test (nr addr : ℕ)
  | empty (src : ℕ)
  | full (src : ℕ)
  | intersects (src1 src2 : ℕ)
  | equal (src1 src2 : ℕ)
  | weight (src : ℕ)
  deriving DecidableEq

/-- The effect of a call on bitmaps of `nbits` bits, and what it returns. -/
def MaskOp.exec (nbits : ℕ) (m : Bitmaps) : MaskOp → Bitmaps × Option ℕ
  | zero dst => (bitmapZeroAt m dst nbits, none)
  | fill dst => (bitmapFill m dst nbits, none)
  | copy dst src => (bitmapCopy m dst src nbits, none)
  | and dst src1 src2 => (bitmapAnd m dst src1 src2 nbits, none)
  | or dst src1 src2 => (bitmapOr m dst src1 src2 nbits, none)
  | xor dst src1 src2 => (bitmapXor m dst src1 src2 nbits, none)
  | andnot dst src1 src2 => (bitmapAndnot m dst src1 src2 nbits, none)
  | complement dst src => (bitmapComplement m dst src nbits, none)
  | shiftRight dst src n => (bitmapShiftRight m dst src nbits n, none)
  | shiftLeft dst src n => (bitmapShiftLeftAt m dst src nbits n, none)
  | set nr addr => (setBit m nr addr, none)
  | clear nr addr => (clearBit m nr addr, none)
  | change nr addr => (changeBit m nr addr, none)
  | testAndSet nr addr =>
    ((testAndSetBit m nr addr).2, some (testAndSetBit m nr addr).1.toNat)
  | testAndClear nr addr =>
    ((testAndClearBit m nr addr).2, some (testAndClearBit m nr addr).1.toNat)
  | testAndChange nr addr =>
    ((testAndChangeBit m nr addr).2, some (testAndChangeBit m nr addr).1.toNat)
  | test nr addr => (m, some (testBit (m addr) nr).toNat)
  | empty src => (m, some (bitmapEmpty m src nbits).toNat)
  | full src => (m, some (bitmapFull m src nbits).toNat)
  | intersects src1 src2 => (m, some (bitmapIntersects m src1 src2 nbits).toNat)
  | equal src1 src2 => (m, some (bitmapEqual m src1 src2 nbits).toNat)
  | weight src => (m, some (bitmapWeight m src nbits))

/-- Calls one after the other, and what they return. -/
def MaskOp.run (nbits : ℕ) : List MaskOp → Bitmaps → Bitmaps × List ℕ
  | [], m => (m, [])
  | op :: ops, m =>
    let (m, answer) := op.exec nbits m
    let (m, answers) := run nbits ops m
    (m, answer.toList ++ answers)

end CodeAnalyze.Irqbalance
