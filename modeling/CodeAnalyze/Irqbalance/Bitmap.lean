import CodeAnalyze.Irqbalance.CString
import CodeAnalyze.Irqbalance.Types

/-!
# Bitmaps as text: `bitmap.c`

A bitmap is an array of 64-bit words, as a function of the index.  A buffer of characters
is a function of the index too.
-/

namespace CodeAnalyze.Irqbalance

/-- An array of `unsigned long`. -/
abbrev Words : Type := ℕ → UInt64

/-- `CHUNKSZ`. -/
def chunkSz : ℕ := 32

/-- `BITS_PER_LONG`. -/
def bitsPerLong : ℕ := 64

/-- `BITS_TO_LONGS`. -/
def bitsToLongs (bits : ℕ) : ℕ := (bits + bitsPerLong - 1) / bitsPerLong

def einval : ℤ := 22

def eoverflow : ℤ := 75

/-- `test_bit`. -/
def testBit (maskp : Words) (i : ℕ) : Bool :=
  (maskp (i / bitsPerLong)).toNat.testBit (i % bitsPerLong)

/-! ## `bitmap_scnprintf` -/

/-- A hexadecimal digit, as `printf` writes it. -/
def hexDigit (d : ℕ) : UInt8 := if d < 10 then (48 + d).toUInt8 else (87 + d).toUInt8

/-- `%0*lx`: at least `width` digits, and no other leading zeros. -/
def lx (width : ℕ) (val : UInt64) : Bytes :=
  let digits := (List.range 16).reverse.map fun i => hexDigit (val.toNat / 16 ^ i % 16)
  let zeros := (digits.takeWhile (· = 48)).length
  List.replicate (width - 16) 48 ++ digits.drop (min zeros (16 - max width 1))

/-- `snprintf(buf + at, size, "%s", text)`: what fits is written, and a NUL behind it. -/
def snprintf (buf : ℕ → UInt8) (start size : ℕ) (text : Bytes) : ℕ → UInt8 := fun k =>
  let n := min text.length (size - 1)
  if size = 0 ∨ k < start ∨ start + n < k then buf k
  else if k = start + n then 0
  else text.getD (k - start) 0

/-- The loop of `bitmap_scnprintf`, with `i = 32 * j - 32`.  `sep` is a comma once the first
chunk is written. -/
def scnprintfLoop (buflen : UInt32) (maskp : Words) :
    ℕ → Bool → ℕ → (ℕ → UInt8) → ℕ → (ℕ → UInt8) × ℕ
  | 0, _, _, buf, len => (buf, len)
  | j + 1, first, chunksz, buf, len =>
    let i := chunkSz * j
    let chunkmask : UInt32 := ((1 <<< chunksz.toUInt64) - 1 : UInt64).toUInt32
    let val := (maskp (i / bitsPerLong) >>> (i % bitsPerLong).toUInt64) &&& chunkmask.toUInt64
    if val ≠ 0 || !first || i = 0 then
      let sep : Bytes := if first then [] else chars [',']
      let text := sep ++ lx ((chunksz + 3) / 4) val
      scnprintfLoop buflen maskp j false chunkSz
        (snprintf buf len (buflen - len.toUInt32).toNat text) (len + text.length)
    else scnprintfLoop buflen maskp j first chunksz buf len

/-- `bitmap_scnprintf`: what is in the buffer, and the length. -/
def bitmapScnprintf (buf : ℕ → UInt8) (buflen : UInt32) (maskp : Words) (nmaskbits : ℕ) :
    (ℕ → UInt8) × ℕ :=
  let chunksz := if nmaskbits % chunkSz = 0 then chunkSz else nmaskbits % chunkSz
  scnprintfLoop buflen maskp ((nmaskbits + chunkSz - 1) / chunkSz) true chunksz buf 0

/-! ## `__bitmap_parse` -/

/-- `bitmap_zero`. -/
def bitmapZero (maskp : Words) (nbits : ℕ) : Words := fun k =>
  if k < bitsToLongs nbits then 0 else maskp k

/-- The word that `__bitmap_shift_left` stores for `src[k]`. -/
def shiftWord (src : Words) (lim left off rem k : ℕ) : UInt64 :=
  let ones : UInt64 := (1 <<< left.toUInt64) - 1
  let lower := if rem ≠ 0 ∧ 0 < k then src (k - 1) else 0
  let upper := if left ≠ 0 ∧ k = lim - 1 then src k &&& ones else src k
  let word := (lower >>> (bitsPerLong - rem).toUInt64) ||| (upper <<< rem.toUInt64)
  if left ≠ 0 ∧ k + off = lim - 1 then word &&& ones else word

/-- The loop of `__bitmap_shift_left` from `k - 1` down to 0, where `dst` is `src`. -/
def shiftLeftLoop (lim left off rem : ℕ) : ℕ → Words → Words
  | 0, dst => dst
  | k + 1, dst =>
    shiftLeftLoop lim left off rem k
      (Function.update dst (k + off) (shiftWord dst lim left off rem k))

/-- `__bitmap_shift_left(maskp, maskp, shift, bits)`. -/
def bitmapShiftLeft (maskp : Words) (shift bits : ℕ) : Words :=
  let lim := bitsToLongs bits
  let left := bits % bitsPerLong
  let off := shift / bitsPerLong
  let rem := shift % bitsPerLong
  let dst := shiftLeftLoop lim left off rem (lim - off) maskp
  fun k => if k < off then 0 else dst k

/-- One test of `fls`: where the highest bits of `x` are zero, it is shifted by that many. -/
def flsStep (high : UInt32) (n : ℕ) (xr : UInt32 × ℕ) : UInt32 × ℕ :=
  if xr.1 &&& high = 0 then (xr.1 <<< n.toUInt32, xr.2 - n) else xr

/-- `fls`: the number of the highest bit that is set, from 1 on. -/
def fls (x : UInt32) : ℕ :=
  if x = 0 then 0
  else
    let xr := flsStep 0xffff0000 16 (x, 32)
    let xr := flsStep 0xff000000 8 xr
    let xr := flsStep 0xf0000000 4 xr
    let xr := flsStep 0xc0000000 2 xr
    (flsStep 0x80000000 1 xr).2

def isxdigit (c : UInt8) : Bool := isdigit c || (97 ≤ c && c ≤ 102) || (65 ≤ c && c ≤ 70)

def toupper (c : UInt8) : UInt8 := if 97 ≤ c && c ≤ 122 then c - 32 else c

/-- `unhex`. -/
def unhex (c : UInt8) : UInt8 := if isdigit c then c - 48 else toupper c - 65 + 10

/-- What the inner loop of `__bitmap_parse` leaves. -/
structure Chunk where
  c : UInt8
  totaldigits : ℕ
  ndigits : ℕ
  chunk : UInt32
  rest : Bytes

/-- The inner loop of `__bitmap_parse`, or what it returns. -/
def parseChunk (c : UInt8) (totaldigits ndigits : ℕ) (chunk : UInt32) : Bytes → Except ℤ Chunk
  | [] => .ok { c, totaldigits, ndigits, chunk, rest := [] }
  | c' :: rest =>
    if isspace c' then parseChunk c' totaldigits ndigits chunk rest
    else if totaldigits ≠ 0 ∧ c' ≠ 0 ∧ isspace c = true then .error 0
    else if c' = 0 ∨ c' = 44 then .ok { c := c', totaldigits, ndigits, chunk, rest }
    else if !isxdigit c' then .error (-einval)
    else if chunk &&& ~~~0x0fffffff ≠ 0 then .error (-eoverflow)
    else parseChunk c' (totaldigits + 1) (ndigits + 1) ((chunk <<< 4) ||| (unhex c').toUInt32) rest

/-- A chunk takes at least one character, if there is one. -/
theorem parseChunk_length {c : UInt8} {totaldigits ndigits : ℕ} {chunk : UInt32} {buf : Bytes}
    {r : Chunk} (h : parseChunk c totaldigits ndigits chunk buf = .ok r) (hrest : r.rest ≠ []) :
    r.rest.length < buf.length := by
  induction buf generalizing c totaldigits ndigits chunk with
  | nil =>
      cases h
      exact absurd rfl hrest
  | cons c' rest ih =>
      simp only [parseChunk] at h
      split at h
      · exact Nat.lt_succ_of_lt (ih h)
      · split at h
        · cases h
        · split at h
          · cases h
            exact Nat.lt_succ_self _
          · split at h
            · cases h
            · split at h
              · cases h
              · exact Nat.lt_succ_of_lt (ih h)

/-- `*maskp |= chunk` after the shift by a chunk. -/
def shiftIn (maskp : Words) (chunk : UInt32) (nmaskbits : ℕ) : Words :=
  let maskp := bitmapShiftLeft maskp chunkSz nmaskbits
  Function.update maskp 0 (maskp 0 ||| chunk.toUInt64)

/-- The outer loop of `__bitmap_parse`. -/
def parseLoop (nmaskbits : ℕ) (c : UInt8) (totaldigits nchunks nbits : ℕ) (maskp : Words)
    (buf : Bytes) : ℤ × Words :=
  match _h : parseChunk c totaldigits 0 0 buf with
  | .error ret => (ret, maskp)
  | .ok r =>
    if r.ndigits = 0 then (-einval, maskp)
    else if nchunks = 0 ∧ r.chunk = 0 then
      if _hrest : r.rest ≠ [] ∧ r.c = 44 then
        parseLoop nmaskbits r.c r.totaldigits nchunks nbits maskp r.rest
      else (0, maskp)
    else
      let maskp := shiftIn maskp r.chunk nmaskbits
      let nbits := nbits + if nchunks + 1 = 1 then fls r.chunk else chunkSz
      if nbits > nmaskbits then (-eoverflow, maskp)
      else if _hrest : r.rest ≠ [] ∧ r.c = 44 then
        parseLoop nmaskbits r.c r.totaldigits (nchunks + 1) nbits maskp r.rest
      else (0, maskp)
termination_by buf.length
decreasing_by
  · exact parseChunk_length _h _hrest.1
  · exact parseChunk_length _h _hrest.1

/-- `__bitmap_parse`: what it returns, and the mask. -/
def bitmapParse (buf : Bytes) (maskp : Words) (nmaskbits : ℕ) : ℤ × Words :=
  parseLoop nmaskbits 0 0 0 0 (bitmapZero maskp nmaskbits) buf

end CodeAnalyze.Irqbalance
