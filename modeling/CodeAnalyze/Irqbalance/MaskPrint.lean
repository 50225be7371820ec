import CodeAnalyze.Irqbalance.Bitmap
import CodeAnalyze.Lib.Digits
import Mathlib.Data.List.GetD

/-!
# Printing a bitmap

`bitmap_scnprintf` writes a bitmap in chunks of 32 bits, each as eight digits, and leaves
out the chunks of zeros at the front.  The chunks are numbered, the lowest with 0.
-/

namespace CodeAnalyze.Irqbalance

open Lib (digitRow)

/-- The chunk with number `j` of a bitmap. -/
def half (maskp : Words) (j : ℕ) : ℕ := (maskp (j / 2)).toNat / 2 ^ (32 * (j % 2)) % 2 ^ 32

theorem half_lt (maskp : Words) (j : ℕ) : half maskp j < 2 ^ 32 := Nat.mod_lt _ (by decide)

/-- The bits of a bitmap are those of its chunks. -/
theorem testBit_eq_half (maskp : Words) (i : ℕ) :
    testBit maskp i = (half maskp (i / 32)).testBit (i % 32) := by
  have hword : i / 32 / 2 = i / 64 := by omega
  have hplace : 32 * (i / 32 % 2) + i % 32 = i % 64 := by omega
  have hlt : i % 32 < 32 := Nat.mod_lt _ (by decide)
  unfold testBit half
  rw [Nat.testBit_mod_two_pow, decide_eq_true hlt, Bool.true_and, Nat.testBit_div_two_pow, hword,
    Nat.add_comm, hplace]
  rfl

/-! ## Printing -/

/-- A chunk as eight digits. -/
def hex8 (v : ℕ) : Bytes := (digitRow 16 v 8).map hexDigit

@[simp] theorem length_hex8 (v : ℕ) : (hex8 v).length = 8 := by
  simp [hex8]

/-- A value that fits is printed with as many digits as are asked for. -/
theorem lx_digits {val : UInt64} {width : ℕ} (hpos : 0 < width) (hwidth : width ≤ 16)
    (h : val.toNat < 16 ^ width) : lx width val = (digitRow 16 val.toNat width).map hexDigit := by
  have hrow : ((List.range 16).reverse.map fun i => hexDigit (val.toNat / 16 ^ i % 16)) =
      List.replicate (16 - width) 48 ++ (digitRow 16 val.toNat width).map hexDigit := by
    have hdigits : digitRow 16 val.toNat 16 =
        List.replicate (16 - width) 0 ++ digitRow 16 val.toNat width := by
      have hsplit := Lib.digitRow_add (by decide) h (16 - width)
      rwa [Nat.sub_add_cancel hwidth] at hsplit
    calc ((List.range 16).reverse.map fun i => hexDigit (val.toNat / 16 ^ i % 16))
        = (digitRow 16 val.toNat 16).map hexDigit := by rw [digitRow, List.map_map]; rfl
      _ = List.replicate (16 - width) 48 ++ (digitRow 16 val.toNat width).map hexDigit := by
          rw [hdigits, List.map_append, List.map_replicate]
          rfl
  have hzeros : 16 - width ≤ ((List.replicate (16 - width) 48 ++
      (digitRow 16 val.toNat width).map hexDigit).takeWhile (· = 48)).length := by
    rw [List.takeWhile_append_of_pos (by simp)]
    simp
  have hmax : max width 1 = width := Nat.max_eq_left hpos
  unfold lx
  simp only [hrow]
  rw [hmax, Nat.min_eq_right hzeros, Nat.sub_eq_zero_of_le hwidth, List.replicate_zero,
    List.nil_append]
  exact List.drop_left' (by simp)

theorem lx_eight {val : UInt64} (h : val.toNat < 2 ^ 32) : lx 8 val = hex8 val.toNat :=
  lx_digits (by decide) (by decide) h

/-- The chunks that follow the first, each behind a comma. -/
def tailText (vs : List ℕ) : Bytes := vs.flatMap fun v => 44 :: hex8 v

/-- The text of the chunks that are written. -/
def rowText : List ℕ → Bytes
  | [] => []
  | v :: vs => hex8 v ++ tailText vs

theorem tailText_cons (v : ℕ) (vs : List ℕ) : tailText (v :: vs) = 44 :: rowText (v :: vs) := by
  simp [tailText, rowText]

theorem rowText_ne_nil (v : ℕ) (vs : List ℕ) : rowText (v :: vs) ≠ [] := by
  simp [rowText, hex8, digitRow]

/-- The chunks that are written, of those below `j`. -/
def printed (maskp : Words) : ℕ → Bool → List ℕ
  | 0, _ => []
  | j + 1, first =>
    if half maskp j ≠ 0 ∨ first = false ∨ j = 0 then half maskp j :: printed maskp j false
    else printed maskp j first

/-- The bytes of a buffer. -/
def bytes (buf : ℕ → UInt8) (len : ℕ) : Bytes := (List.range len).map buf

theorem bytes_snprintf (buf : ℕ → UInt8) (len : ℕ) {size : ℕ} {text : Bytes}
    (h : text.length < size) :
    bytes (snprintf buf len size text) (len + text.length) = bytes buf len ++ text := by
  have hn : min text.length (size - 1) = text.length := Nat.min_eq_left (by omega)
  have hsize : size ≠ 0 := by omega
  apply List.ext_getElem
  · simp [bytes]
  · intro k hk _
    have hklen : k < len + text.length := by simpa [bytes] using hk
    simp only [bytes, List.getElem_map, List.getElem_range]
    by_cases hlt : k < len
    · rw [List.getElem_append_left (by simpa using hlt)]
      simp [snprintf, hlt]
    · have hother : ¬len + text.length < k := by omega
      have hne : k ≠ len + text.length := by omega
      rw [List.getElem_append_right (by simpa using Nat.le_of_not_lt hlt)]
      simp only [snprintf, hn, hsize, hlt, hother, or_self, if_false, if_neg hne,
        List.length_map, List.length_range]
      exact List.getD_eq_getElem _ _ (by omega)

/-- `val`, where a chunk is cut to its lowest `chunksz` bits. -/
theorem toNat_val (maskp : Words) (j : ℕ) {chunksz : ℕ} (h : chunksz ≤ 32) :
    ((maskp (chunkSz * j / bitsPerLong) >>> (chunkSz * j % bitsPerLong).toUInt64) &&&
      (((1 <<< chunksz.toUInt64) - 1 : UInt64).toUInt32).toUInt64).toNat =
        half maskp j % 2 ^ chunksz := by
  have hword : chunkSz * j / bitsPerLong = j / 2 := by
    simp only [chunkSz, bitsPerLong]
    omega
  have hplace : chunkSz * j % bitsPerLong = 32 * (j % 2) := by
    simp only [chunkSz, bitsPerLong]
    omega
  have hshift : (32 * (j % 2)).toUInt64.toNat = 32 * (j % 2) := by
    have : 32 * (j % 2) < 2 ^ 64 := by omega
    exact Nat.mod_eq_of_lt this
  have hones : ∀ chunksz : ℕ, chunksz ≤ 32 →
      ((((1 <<< chunksz.toUInt64) - 1 : UInt64).toUInt32).toUInt64).toNat = 2 ^ chunksz - 1 := by
    decide
  rw [hword, hplace, UInt64.toNat_and, UInt64.toNat_shiftRight, hshift, hones chunksz h,
    Nat.and_two_pow_sub_one_eq_mod, Nat.shiftRight_eq_div_pow]
  unfold half
  rw [Nat.mod_mod_of_dvd _ (Nat.pow_dvd_pow 2 h)]
  congr 3
  omega

/-- The value that is printed for a chunk. -/
theorem toNat_chunk (maskp : Words) (j : ℕ) :
    ((maskp (chunkSz * j / bitsPerLong) >>> (chunkSz * j % bitsPerLong).toUInt64) &&&
      (((1 <<< chunkSz.toUInt64) - 1 : UInt64).toUInt32).toUInt64).toNat = half maskp j := by
  rw [toNat_val maskp j (by decide)]
  exact Nat.mod_eq_of_lt (half_lt maskp j)

/-- The text of a chunk, behind a comma unless it is the first. -/
def chunkText (first : Bool) (v : ℕ) : Bytes := (if first then [] else [44]) ++ hex8 v

/-- A round of the loop. -/
theorem scnprintfLoop_succ (buflen : UInt32) (maskp : Words) (j : ℕ) (first : Bool)
    (buf : ℕ → UInt8) (len : ℕ) :
    scnprintfLoop buflen maskp (j + 1) first chunkSz buf len =
      if half maskp j ≠ 0 ∨ first = false ∨ j = 0 then
        scnprintfLoop buflen maskp j false chunkSz
          (snprintf buf len (buflen - len.toUInt32).toNat (chunkText first (half maskp j)))
          (len + (chunkText first (half maskp j)).length)
      else scnprintfLoop buflen maskp j first chunkSz buf len := by
  have hval := toNat_chunk maskp j
  have hwidth : (chunkSz + 3) / 4 = 8 := rfl
  rw [scnprintfLoop]
  simp only [hwidth]
  generalize hv : (maskp (chunkSz * j / bitsPerLong) >>> (chunkSz * j % bitsPerLong).toUInt64) &&&
    (((1 <<< chunkSz.toUInt64) - 1 : UInt64).toUInt32).toUInt64 = val at hval
  have hzero : val ≠ 0 ↔ half maskp j ≠ 0 := by
    rw [← hval, Ne, Ne, ← UInt64.toNat_inj]
    rfl
  have hplace : chunkSz * j = 0 ↔ j = 0 := by
    simp only [chunkSz]
    omega
  have hshow : (decide (val ≠ 0) || !first || decide (chunkSz * j = 0)) = true ↔
      half maskp j ≠ 0 ∨ first = false ∨ j = 0 := by
    rw [Bool.or_eq_true, Bool.or_eq_true, decide_eq_true_iff, decide_eq_true_iff, hzero, hplace,
      Bool.not_eq_true', or_assoc]
  have htext : lx 8 val = hex8 (half maskp j) := by
    rw [lx_eight (by rw [hval]; exact half_lt maskp j), hval]
  simp only [hshow, htext]
  rfl

/-- The text that a run of the loop adds. -/
def loopText (maskp : Words) (j : ℕ) (first : Bool) : Bytes :=
  if first = true then rowText (printed maskp j first) else tailText (printed maskp j first)

theorem loopText_succ (maskp : Words) (j : ℕ) (first : Bool) :
    loopText maskp (j + 1) first =
      if half maskp j ≠ 0 ∨ first = false ∨ j = 0 then
        chunkText first (half maskp j) ++ loopText maskp j false
      else loopText maskp j first := by
  unfold loopText
  rw [printed]
  by_cases hprint : half maskp j ≠ 0 ∨ first = false ∨ j = 0
  · rw [if_pos hprint, if_pos hprint, tailText_cons]
    cases first <;> simp [rowText, chunkText]
  · rw [if_neg hprint, if_neg hprint]

/-- The length is that of the text, whether it fits or not. -/
theorem length_scnprintfLoop (buflen : UInt32) (maskp : Words) (j : ℕ) (first : Bool)
    (buf : ℕ → UInt8) (len : ℕ) :
    (scnprintfLoop buflen maskp j first chunkSz buf len).2 =
      len + (loopText maskp j first).length := by
  induction j generalizing first buf len with
  | zero => cases first <;> rfl
  | succ j ih =>
      rw [scnprintfLoop_succ, loopText_succ]
      split
      · rw [ih, List.length_append, Nat.add_assoc]
      · exact ih first buf len

/-- What fits is written behind what is in the buffer, and a NUL behind it. -/
theorem snprintf_at_end (buf : ℕ → UInt8) (len : ℕ) {size : ℕ} {text : Bytes}
    (h : text.length < size) : snprintf buf len size text (len + text.length) = 0 := by
  have hn : min text.length (size - 1) = text.length := Nat.min_eq_left (by omega)
  have hwritten :
      ¬(size = 0 ∨ len + text.length < len ∨ len + text.length < len + text.length) := by
    omega
  simp only [snprintf, hn]
  rw [if_neg hwritten, if_pos trivial]

/-- The loop writes its text behind what is in the buffer, if it fits. -/
theorem scnprintfLoop_spec (buflen : UInt32) (maskp : Words) {j : ℕ} {first : Bool}
    (buf : ℕ → UInt8) {len : ℕ} (hfits : len + (loopText maskp j first).length < buflen.toNat) :
    bytes (scnprintfLoop buflen maskp j first chunkSz buf len).1
        (len + (loopText maskp j first).length) =
      bytes buf len ++ loopText maskp j first ∧
    (loopText maskp j first ≠ [] ∨ buf len = 0 →
      (scnprintfLoop buflen maskp j first chunkSz buf len).1
        (len + (loopText maskp j first).length) = 0) := by
  induction j generalizing first buf len with
  | zero =>
      have hnil : loopText maskp 0 first = [] := by cases first <;> rfl
      rw [hnil]
      refine ⟨by simp [scnprintfLoop], fun h => ?_⟩
      rcases h with hne | hnul
      · exact absurd rfl hne
      · exact hnul
  | succ j ih =>
      rw [scnprintfLoop_succ]
      rw [loopText_succ] at hfits ⊢
      split
      · -- a group is written: `buflen - len` does not wrap, and the group fits
        rename_i hprint
        rw [if_pos hprint, List.length_append] at hfits
        have hlen : len < 2 ^ 32 := by
          have := buflen.toNat_lt
          omega
        have hsub : (buflen - len.toUInt32).toNat = buflen.toNat - len := by
          have hconv : len.toUInt32.toNat = len := Nat.mod_eq_of_lt hlen
          rw [UInt32.toNat_sub_of_le _ _ (by rw [UInt32.le_iff_toNat_le, hconv]; omega), hconv]
        have hroom : (chunkText first (half maskp j)).length < (buflen - len.toUInt32).toNat := by
          rw [hsub]
          omega
        have hrest : len + (chunkText first (half maskp j)).length +
            (loopText maskp j false).length < buflen.toNat := by omega
        obtain ⟨hbytes, hend⟩ := ih
          (snprintf buf len (buflen - len.toUInt32).toNat (chunkText first (half maskp j))) hrest
        rw [List.length_append, ← Nat.add_assoc]
        refine ⟨?_, fun _ => ?_⟩
        · rw [hbytes, bytes_snprintf _ _ hroom, List.append_assoc]
        · exact hend (.inr (snprintf_at_end _ _ hroom))
      · rename_i hskip
        rw [if_neg hskip] at hfits
        exact ih buf hfits

/-- The text of a bitmap whose width is a multiple of 32. -/
theorem bitmapScnprintf_eq (buf : ℕ → UInt8) (buflen : UInt32) (maskp : Words) (n : ℕ) :
    bitmapScnprintf buf buflen maskp (32 * n) =
      scnprintfLoop buflen maskp n true chunkSz buf 0 := by
  have hchunks : (32 * n + chunkSz - 1) / chunkSz = n := by
    simp only [chunkSz]
    omega
  have hwhole : 32 * n % chunkSz = 0 := Nat.mul_mod_right 32 n
  unfold bitmapScnprintf
  rw [hchunks]
  simp only [hwhole, if_true]

/-! ## The chunks that are printed -/

theorem printed_false (maskp : Words) (j : ℕ) :
    printed maskp j false = ((List.range j).reverse.map (half maskp)) := by
  induction j with
  | zero => rfl
  | succ j ih =>
      rw [printed, if_pos (.inr (.inl rfl)), ih, List.range_succ, List.reverse_append]
      rfl

/-- Chunks that are not printed are zero. -/
theorem getD_printed (maskp : Words) (j : ℕ) (first : Bool) :
    (printed maskp j first).length ≤ j ∧
      ∀ i, (printed maskp j first).reverse.getD i 0 = if i < j then half maskp i else 0 := by
  induction j generalizing first with
  | zero => exact ⟨Nat.le_refl 0, fun i => rfl⟩
  | succ j ih =>
      obtain ⟨hlen, hget⟩ := ih first
      rw [printed]
      split
      · -- the chunk is printed, and with it every lower one
        have hfull : (printed maskp j false).length = j := by simp [printed_false]
        refine ⟨by rw [List.length_cons, hfull], fun i => ?_⟩
        rw [List.reverse_cons]
        rcases Nat.lt_trichotomy i j with hlt | rfl | hgt
        · rw [List.getD_append _ _ _ _ (by rw [List.length_reverse, hfull]; exact hlt),
            (ih false).2 i, if_pos hlt, if_pos (by omega)]
        · rw [List.getD_append_right _ _ _ _ (by rw [List.length_reverse, hfull]),
            List.length_reverse, hfull, Nat.sub_self, if_pos (Nat.lt_succ_self i)]
          rfl
        · rw [List.getD_append_right _ _ _ _ (by rw [List.length_reverse, hfull]; omega),
            List.getD_eq_default _ _
              (by rw [List.length_reverse, hfull, List.length_singleton]; omega),
            if_neg (by omega)]
      · -- the chunk is passed over
        rename_i hskip
        have hzero : half maskp j = 0 := by
          by_contra hne
          exact hskip (.inl hne)
        refine ⟨Nat.le_succ_of_le hlen, fun i => ?_⟩
        rw [hget i]
        by_cases heq : i = j
        · rw [heq, if_neg (Nat.lt_irrefl j), if_pos (Nat.lt_succ_self j), hzero]
        · by_cases hlt : i < j
          · rw [if_pos hlt, if_pos (by omega)]
          · rw [if_neg hlt, if_neg (by omega)]

/-- The first chunk that is printed is not zero, unless it is the last. -/
theorem printed_first (maskp : Words) {j : ℕ} (hj : 0 < j) :
    ∃ v vs, printed maskp j true = v :: vs ∧ (v ≠ 0 ∨ vs = []) := by
  induction j with
  | zero => exact absurd hj (Nat.lt_irrefl 0)
  | succ j ih =>
      rw [printed]
      split
      · rename_i hprint
        refine ⟨_, _, rfl, ?_⟩
        rcases hprint with hne | hfirst | rfl
        · exact .inl hne
        · cases hfirst
        · exact .inr rfl
      · rename_i hskip
        apply ih
        apply Nat.pos_of_ne_zero
        intro hzero
        exact hskip (.inr (.inr hzero))

theorem printed_lt (maskp : Words) (j : ℕ) (first : Bool) :
    ∀ v ∈ printed maskp j first, v < 2 ^ 32 := by
  induction j generalizing first with
  | zero =>
      intro v hv
      cases hv
  | succ j ih =>
      intro v hv
      rw [printed] at hv
      split at hv
      · rcases List.mem_cons.mp hv with rfl | hrest
        · exact half_lt maskp j
        · exact ih false v hrest
      · exact ih first v hv

end CodeAnalyze.Irqbalance
