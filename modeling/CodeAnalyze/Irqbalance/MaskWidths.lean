import CodeAnalyze.Irqbalance.MaskGrammar
import CodeAnalyze.Irqbalance.MaskParse
import CodeAnalyze.Irqbalance.MaskPrint

/-!
# Bitmaps of every width

Where the width is no multiple of 32, the topmost chunk is a short one, and
`bitmap_scnprintf` starts with the size of that chunk.  It goes back to the full size
where it prints a chunk, and not where it passes one over: with zeros in the topmost
chunk the next one is cut to the size of the short one, and so on until a chunk is
printed.

So the highest bit of the bitmap decides: the chunk it stands in is printed whole
exactly if it stands among the places that are left.
-/

namespace CodeAnalyze.Irqbalance

open Lib (digitRow rowValue)

variable {maskp : Words} {r : ℕ}

/-! ## Digits -/

/-- A value as `width` digits. -/
def hexRow (width v : ℕ) : Bytes := (digitRow 16 v width).map hexDigit

theorem hexValue_hexDigit : ∀ d < 16, hexValue (hexDigit d) = d := by
  decide

theorem length_hexRow (width v : ℕ) : (hexRow width v).length = width := by
  simp [hexRow]

theorem isxdigit_hexRow {width v : ℕ} : ∀ c ∈ hexRow width v, isxdigit c = true := by
  intro c hc
  obtain ⟨d, hd, rfl⟩ := List.mem_map.mp hc
  exact (hexDigit_spec d (Lib.lt_of_mem_digitRow (by decide) hd)).2.2.2.1

theorem groupValue_hexRow {width v : ℕ} (h : v < 16 ^ width) : groupValue (hexRow width v) = v := by
  have hvalues : (hexRow width v).map hexValue = digitRow 16 v width := by
    unfold hexRow
    rw [List.map_map]
    exact (List.map_congr_left fun d hd =>
      hexValue_hexDigit d (Lib.lt_of_mem_digitRow (by decide) hd)).trans (List.map_id _)
  rw [groupValue, hvalues, Lib.rowValue_digitRow, Nat.mod_eq_of_lt h]

theorem groupValue_hex8 {v : ℕ} (h : v < 2 ^ 32) : groupValue (hex8 v) = v := by
  have hsmall : v < 16 ^ 8 := Nat.lt_of_lt_of_eq h (by decide)
  exact groupValue_hexRow hsmall

/-- A chunk of `r` bits fits into its digits. -/
theorem mod_lt_digits (v r : ℕ) : v % 2 ^ r < 16 ^ ((r + 3) / 4) :=
  calc v % 2 ^ r < 2 ^ r := Nat.mod_lt _ (Nat.two_pow_pos r)
    _ ≤ 2 ^ (4 * ((r + 3) / 4)) := Nat.pow_le_pow_right (by decide) (by omega)
    _ = 16 ^ ((r + 3) / 4) := Nat.pow_mul 2 4 _

/-! ## The text -/

/-- The chunks below `j`, eight digits each. -/
def fullGroups (maskp : Words) (j : ℕ) : List Bytes :=
  (List.range j).reverse.map fun i => hex8 (half maskp i)

/-- The groups that are written of the chunks below `j`, as long as none is written: the
first is cut to `r` bits. -/
def cutGroups (maskp : Words) (r : ℕ) : ℕ → List Bytes
  | 0 => []
  | j + 1 =>
    if half maskp j % 2 ^ r ≠ 0 ∨ j = 0 then
      hexRow ((r + 3) / 4) (half maskp j % 2 ^ r) :: fullGroups maskp j
    else cutGroups maskp r j

theorem intercalate_comma (g : Bytes) (gs : List Bytes) :
    [44].intercalate (g :: gs) = g ++ gs.flatMap fun g => 44 :: g := by
  induction gs generalizing g with
  | nil => simp [List.intercalate]
  | cons g' gs ih =>
      rw [List.intercalate_cons_cons, ih, List.flatMap_cons, List.append_assoc]
      rfl

theorem loopText_false (maskp : Words) (j : ℕ) :
    loopText maskp j false = (fullGroups maskp j).flatMap fun g => 44 :: g := by
  unfold loopText fullGroups tailText
  rw [if_neg (by simp), printed_false, List.flatMap_map, List.flatMap_map]

/-- A round of the loop before anything is written. -/
theorem scnprintfLoop_cut (buflen : UInt32) (maskp : Words) (hpos : 0 < r) (hr : r ≤ 32) (j : ℕ)
    (buf : ℕ → UInt8) :
    scnprintfLoop buflen maskp (j + 1) true r buf 0 =
      if half maskp j % 2 ^ r ≠ 0 ∨ j = 0 then
        scnprintfLoop buflen maskp j false chunkSz
          (snprintf buf 0 buflen.toNat (hexRow ((r + 3) / 4) (half maskp j % 2 ^ r)))
          ((r + 3) / 4)
      else scnprintfLoop buflen maskp j true r buf 0 := by
  -- the bits of the chunk that `chunkmask` leaves
  have hval := toNat_val maskp j hr
  rw [scnprintfLoop]
  simp only
  generalize (maskp (chunkSz * j / bitsPerLong) >>> (chunkSz * j % bitsPerLong).toUInt64) &&&
    (((1 <<< r.toUInt64) - 1 : UInt64).toUInt32).toUInt64 = val at hval
  have hzero : val ≠ 0 ↔ half maskp j % 2 ^ r ≠ 0 := by
    rw [← hval, Ne, Ne, ← UInt64.toNat_inj]
    rfl
  have hplace : chunkSz * j = 0 ↔ j = 0 := by
    simp only [chunkSz]
    omega
  have hshow : (decide (val ≠ 0) || !true || decide (chunkSz * j = 0)) = true ↔
      half maskp j % 2 ^ r ≠ 0 ∨ j = 0 := by
    rw [Bool.not_true, Bool.or_false, Bool.or_eq_true, decide_eq_true_iff, decide_eq_true_iff,
      hzero, hplace]
  -- so they fill the minimum width of `%0*lx` and never exceed it
  have hsmall : val.toNat < 16 ^ ((r + 3) / 4) := by
    rw [hval]
    exact mod_lt_digits _ r
  have htext : lx ((r + 3) / 4) val = hexRow ((r + 3) / 4) (half maskp j % 2 ^ r) := by
    rw [lx_digits (by omega) (by omega) hsmall, hval]
    rfl
  have hsize : (buflen - (0 : ℕ).toUInt32).toNat = buflen.toNat :=
    congrArg UInt32.toNat (UInt32.sub_zero buflen)
  simp only [hshow, htext, hsize, if_true, List.nil_append, Nat.zero_add, length_hexRow]

/-- What the loop writes into a buffer in which it fits. -/
theorem scnprintfLoop_cut_spec (buflen : UInt32) (maskp : Words) (hpos : 0 < r) (hr : r ≤ 32)
    {j : ℕ} (hj : 0 < j) (buf : ℕ → UInt8)
    (hfits : (scnprintfLoop buflen maskp j true r buf 0).2 < buflen.toNat) :
    bytes (scnprintfLoop buflen maskp j true r buf 0).1
        (scnprintfLoop buflen maskp j true r buf 0).2 =
      [44].intercalate (cutGroups maskp r j) := by
  induction j with
  | zero => exact absurd hj (Nat.lt_irrefl 0)
  | succ j ih =>
      rw [scnprintfLoop_cut buflen maskp hpos hr] at hfits ⊢
      rw [cutGroups]
      by_cases hprint : half maskp j % 2 ^ r ≠ 0 ∨ j = 0
      · rw [if_pos hprint] at hfits ⊢
        rw [if_pos hprint, intercalate_comma, ← loopText_false]
        rw [length_scnprintfLoop] at hfits ⊢
        rw [(scnprintfLoop_spec buflen maskp _ hfits).1]
        have hroom : (hexRow ((r + 3) / 4) (half maskp j % 2 ^ r)).length < buflen.toNat := by
          rw [length_hexRow]
          omega
        have hfirst := bytes_snprintf buf 0 hroom
        rw [Nat.zero_add, length_hexRow] at hfirst
        rw [hfirst]
        rfl
      · rw [if_neg hprint] at hfits ⊢
        rw [if_neg hprint]
        have hlower : 0 < j := by
          apply Nat.pos_of_ne_zero
          rintro rfl
          exact hprint (.inr rfl)
        exact ih hlower hfits

/-! ## The values -/

/-- The number the lowest `nmaskbits` bits of a bitmap stand for. -/
def bitmapValue (maskp : Words) (nmaskbits : ℕ) : ℕ :=
  Nat.ofBits fun i : Fin nmaskbits => testBit maskp i

/-- The number the chunks below `j` stand for. -/
def chunksValue (maskp : Words) (j : ℕ) : ℕ :=
  rowValue (2 ^ 32) ((List.range j).reverse.map (half maskp))

theorem chunksValue_succ (maskp : Words) (j : ℕ) :
    chunksValue maskp (j + 1) = 2 ^ (32 * j) * half maskp j + chunksValue maskp j := by
  unfold chunksValue
  rw [List.range_succ, List.reverse_append, List.reverse_singleton, List.singleton_append,
    List.map_cons, Lib.rowValue_cons, List.length_map, List.length_reverse, List.length_range,
    ← Nat.pow_mul, Nat.mul_comm (half maskp j)]

theorem chunksValue_lt (maskp : Words) (j : ℕ) : chunksValue maskp j < 2 ^ (32 * j) := by
  have hrow : ∀ d ∈ (List.range j).reverse.map (half maskp), d < 2 ^ 32 := by
    intro d hd
    obtain ⟨i, -, rfl⟩ := List.mem_map.mp hd
    exact half_lt maskp i
  have hlt := Lib.rowValue_lt hrow
  rwa [List.length_map, List.length_reverse, List.length_range, ← Nat.pow_mul] at hlt

theorem testBit_chunksValue (maskp : Words) (j i : ℕ) :
    (chunksValue maskp j).testBit i = (decide (i < 32 * j) && testBit maskp i) := by
  induction j with
  | zero =>
      have hzero : chunksValue maskp 0 = 0 := rfl
      rw [hzero, Nat.zero_testBit, decide_eq_false (by omega), Bool.false_and]
  | succ j ih =>
      rw [chunksValue_succ, Nat.testBit_two_pow_mul_add _ (chunksValue_lt maskp j)]
      by_cases hlow : i < 32 * j
      · rw [if_pos hlow, ih, decide_eq_true hlow, decide_eq_true (by omega : i < 32 * (j + 1))]
      · rw [if_neg hlow]
        by_cases hin : i < 32 * (j + 1)
        · have hchunk : i / 32 = j := by omega
          have hbit : i % 32 = i - 32 * j := by omega
          rw [testBit_eq_half, hchunk, hbit, decide_eq_true hin, Bool.true_and]
        · rw [decide_eq_false hin, Bool.false_and]
          apply Nat.testBit_lt_two_pow
          exact Nat.lt_of_lt_of_le (half_lt maskp j) (Nat.pow_le_pow_right (by decide) (by omega))

/-- The bits of a bitmap are those of its topmost chunk, which is short, and of the
chunks below. -/
theorem bitmapValue_eq (maskp : Words) (m : ℕ) (hr : r ≤ 32) :
    bitmapValue maskp (32 * m + r) =
      2 ^ (32 * m) * (half maskp m % 2 ^ r) + chunksValue maskp m := by
  apply Nat.eq_of_testBit_eq
  intro i
  rw [Nat.testBit_two_pow_mul_add _ (chunksValue_lt maskp m)]
  unfold bitmapValue
  by_cases hin : i < 32 * m + r
  · rw [Nat.testBit_ofBits_lt _ _ hin]
    by_cases hlow : i < 32 * m
    · rw [if_pos hlow, testBit_chunksValue, decide_eq_true hlow, Bool.true_and]
    · have hchunk : i / 32 = m := by omega
      have hbit : i % 32 = i - 32 * m := by omega
      rw [if_neg hlow, Nat.testBit_mod_two_pow, decide_eq_true (by omega), Bool.true_and,
        testBit_eq_half, hchunk, hbit]
  · rw [Nat.testBit_ofBits_ge _ _ (by omega), if_neg (by omega), Nat.testBit_mod_two_pow,
      decide_eq_false (by omega), Bool.false_and]

/-- The number the groups stand for that are written of the chunks below `j`. -/
def cutValue (maskp : Words) (r : ℕ) : ℕ → ℕ
  | 0 => 0
  | j + 1 =>
    if half maskp j % 2 ^ r ≠ 0 ∨ j = 0 then
      2 ^ (32 * j) * (half maskp j % 2 ^ r) + chunksValue maskp j
    else cutValue maskp r j

theorem maskValue_cutGroups (maskp : Words) (r j : ℕ) :
    maskValue (cutGroups maskp r j) = cutValue maskp r j := by
  have hfull (j : ℕ) : (fullGroups maskp j).map groupValue =
      (List.range j).reverse.map (half maskp) := by
    unfold fullGroups
    rw [List.map_map]
    refine List.map_congr_left fun i _ => ?_
    rw [Function.comp_apply, groupValue_hex8 (half_lt maskp i)]
  induction j with
  | zero => rfl
  | succ j ih =>
      rw [cutGroups, cutValue]
      split
      · rw [maskValue, List.map_cons, groupValue_hexRow (mod_lt_digits _ r), hfull,
          Lib.rowValue_cons, List.length_map, List.length_reverse, List.length_range,
          ← Nat.pow_mul, Nat.mul_comm (half maskp j % 2 ^ r)]
        rfl
      · exact ih

/-! ## The highest bit -/

/-- The place of the highest bit in its chunk. -/
theorem log2_mod_lt_iff {c v m : ℕ} (hc : c ≠ 0) (hlt : c < 2 ^ 32) (hv : v < 2 ^ (32 * m)) :
    (2 ^ (32 * m) * c + v).log2 % 32 < r ↔ c < 2 ^ r := by
  have hlog : (2 ^ (32 * m) * c + v).log2 = 32 * m + c.log2 := by
    have hle : 2 ^ c.log2 ≤ c := Nat.log2_self_le hc
    have hup : c < 2 ^ (c.log2 + 1) := Nat.lt_log2_self
    have hpos : 0 < 2 ^ (32 * m) * c := Nat.mul_pos (Nat.two_pow_pos _) (Nat.pos_of_ne_zero hc)
    rw [Nat.log2_eq_iff (by omega)]
    constructor
    · calc 2 ^ (32 * m + c.log2) = 2 ^ (32 * m) * 2 ^ c.log2 := Nat.pow_add 2 _ _
        _ ≤ 2 ^ (32 * m) * c := Nat.mul_le_mul_left _ hle
        _ ≤ 2 ^ (32 * m) * c + v := Nat.le_add_right _ v
    · calc 2 ^ (32 * m) * c + v < 2 ^ (32 * m) * c + 2 ^ (32 * m) := Nat.add_lt_add_left hv _
        _ = 2 ^ (32 * m) * (c + 1) := by ring
        _ ≤ 2 ^ (32 * m) * 2 ^ (c.log2 + 1) := Nat.mul_le_mul_left _ hup
        _ = 2 ^ (32 * m + c.log2 + 1) := by rw [← Nat.pow_add, Nat.add_assoc]
  have hsmall : c.log2 < 32 := (Nat.log2_lt hc).mpr hlt
  rw [hlog, Nat.mul_add_mod, Nat.mod_eq_of_lt hsmall]
  exact Nat.log2_lt hc

theorem log2_no_chunks (maskp : Words) : (chunksValue maskp 0).log2 % 32 = 0 := by
  have hzero : chunksValue maskp 0 = 0 := rfl
  rw [hzero]
  simp

/-- A cut can only lose bits. -/
theorem cutValue_lt (maskp : Words) (r j : ℕ) : cutValue maskp r j < 2 ^ (32 * j) := by
  induction j with
  | zero => exact Nat.one_pos
  | succ j ih =>
      rw [cutValue]
      split
      · have hle : half maskp j % 2 ^ r ≤ half maskp j := Nat.mod_le _ _
        calc 2 ^ (32 * j) * (half maskp j % 2 ^ r) + chunksValue maskp j
            ≤ 2 ^ (32 * j) * half maskp j + chunksValue maskp j :=
              Nat.add_le_add_right (Nat.mul_le_mul_left _ hle) _
          _ = chunksValue maskp (j + 1) := (chunksValue_succ maskp j).symm
          _ < 2 ^ (32 * (j + 1)) := chunksValue_lt maskp (j + 1)
      · exact Nat.lt_of_lt_of_le ih (Nat.pow_le_pow_right (by decide) (by omega))

/-- The full chunks below `j` are written whole exactly if the highest bit is left. -/
theorem cutValue_eq_iff (maskp : Words) (hpos : 0 < r) (j : ℕ) :
    cutValue maskp r j = chunksValue maskp j ↔ (chunksValue maskp j).log2 % 32 < r := by
  induction j with
  | zero =>
      rw [log2_no_chunks]
      exact iff_of_true rfl hpos
  | succ j ih =>
      rw [cutValue, chunksValue_succ]
      by_cases hzero : half maskp j = 0
      · -- the chunk is zero: what follows decides
        rw [hzero, Nat.zero_mod, Nat.mul_zero, Nat.zero_add]
        by_cases hj : j = 0
        · subst hj
          rw [if_pos (.inr rfl)]
          rw [log2_no_chunks]
          exact iff_of_true rfl hpos
        · rw [if_neg (by simp [hj])]
          exact ih
      · -- the highest bit is in this chunk, and is left if the mask does not reach it
        rw [log2_mod_lt_iff hzero (half_lt maskp j) (chunksValue_lt maskp j)]
        by_cases hprint : half maskp j % 2 ^ r ≠ 0 ∨ j = 0
        · rw [if_pos hprint, Nat.add_right_cancel_iff,
            Nat.mul_left_cancel_iff (Nat.two_pow_pos _)]
          exact Nat.mod_eq_iff_lt (Nat.two_pow_pos r).ne'
        · -- the bits that are left are zeros: the chunk is passed over
          rw [if_neg hprint]
          rw [not_or, not_not] at hprint
          refine iff_of_false (Nat.ne_of_lt ?_) fun hsmall => ?_
          · calc cutValue maskp r j < 2 ^ (32 * j) := cutValue_lt maskp r j
              _ ≤ 2 ^ (32 * j) * half maskp j :=
                Nat.le_mul_of_pos_right _ (Nat.pos_of_ne_zero hzero)
              _ ≤ 2 ^ (32 * j) * half maskp j + chunksValue maskp j := Nat.le_add_right _ _
          · rw [Nat.mod_eq_of_lt hsmall] at hprint
            exact hzero hprint.1

/-- The same with the short chunk at the top. -/
theorem cutValue_top_iff (maskp : Words) (hpos : 0 < r) (hr : r ≤ 32) (m : ℕ) :
    cutValue maskp r (m + 1) = bitmapValue maskp (32 * m + r) ↔
      (bitmapValue maskp (32 * m + r)).log2 % 32 < r := by
  rw [bitmapValue_eq maskp m hr, cutValue]
  have hcut : half maskp m % 2 ^ r < 2 ^ r := Nat.mod_lt _ (Nat.two_pow_pos r)
  by_cases hzero : half maskp m % 2 ^ r = 0
  · rw [hzero, Nat.mul_zero, Nat.zero_add]
    by_cases hm : m = 0
    · subst hm
      rw [if_pos (.inr rfl)]
      rw [log2_no_chunks]
      exact iff_of_true rfl hpos
    · rw [if_neg (by simp [hm])]
      exact cutValue_eq_iff maskp hpos m
  · have hsmall : half maskp m % 2 ^ r < 2 ^ 32 :=
      Nat.lt_of_lt_of_le hcut (Nat.pow_le_pow_right (by decide) hr)
    rw [if_pos (.inl hzero), log2_mod_lt_iff hzero hsmall (chunksValue_lt maskp m)]
    exact iff_of_true rfl hcut

/-! ## What the text denotes -/

/-- The text is hexadecimal groups with commas between them, all but the first of eight
digits, which denote the number. -/
structure Denotes (text : Bytes) (value : ℕ) : Prop where
  digits : ∀ g ∈ text.splitOn 44, g ≠ [] ∧ ∀ c ∈ g, isxdigit c = true
  eight : ∀ g ∈ (text.splitOn 44).tail, g.length = 8
  value : maskValue (text.splitOn 44) = value

/-- The groups of the text: a first one, and those of the full chunks below. -/
theorem cutGroups_cons (maskp : Words) (r : ℕ) {j : ℕ} (hj : 0 < j) :
    ∃ k v, cutGroups maskp r j = hexRow ((r + 3) / 4) v :: fullGroups maskp k := by
  induction j with
  | zero => exact absurd hj (Nat.lt_irrefl 0)
  | succ j ih =>
      rw [cutGroups]
      split
      · exact ⟨j, _, rfl⟩
      · rename_i hskip
        apply ih
        apply Nat.pos_of_ne_zero
        intro hzero
        exact hskip (.inr hzero)

theorem digits_ne_comma {g : Bytes} (h : ∀ c ∈ g, isxdigit c = true) : 44 ∉ g :=
  fun hmem => absurd (h 44 hmem) (by decide)

/-- The text is in order in any case, and denotes what is left of the bitmap. -/
theorem denotes_iff (maskp : Words) (hpos : 0 < r) {j : ℕ} (hj : 0 < j) (value : ℕ) :
    Denotes ([44].intercalate (cutGroups maskp r j)) value ↔ cutValue maskp r j = value := by
  obtain ⟨k, v, hgroups⟩ := cutGroups_cons maskp r hj
  have hdigits : ∀ g ∈ cutGroups maskp r j, g ≠ [] ∧ ∀ c ∈ g, isxdigit c = true := by
    intro g hg
    rw [hgroups] at hg
    rcases List.mem_cons.mp hg with rfl | hfull
    · refine ⟨List.ne_nil_of_length_pos ?_, isxdigit_hexRow⟩
      rw [length_hexRow]
      omega
    · obtain ⟨i, -, rfl⟩ := List.mem_map.mp hfull
      refine ⟨List.ne_nil_of_length_pos ?_, isxdigit_hexRow⟩
      rw [length_hex8]
      decide
  have hsplit : ([44].intercalate (cutGroups maskp r j)).splitOn 44 = cutGroups maskp r j :=
    List.splitOn_intercalate 44 (fun g hg => digits_ne_comma (hdigits g hg).2) (by simp [hgroups])
  constructor
  · intro h
    rw [← maskValue_cutGroups, ← h.value, hsplit]
  · intro h
    refine ⟨?_, ?_, ?_⟩
    · rwa [hsplit]
    · rw [hsplit, hgroups]
      intro g hg
      obtain ⟨i, -, rfl⟩ := List.mem_map.mp hg
      exact length_hex8 _
    · rw [hsplit, maskValue_cutGroups, h]

/-- A text that fits into its buffer denotes the bitmap exactly if the width is a multiple
of 32, or the highest bit that is set stands no higher in its chunk than the short chunk
reaches. -/
theorem scnprintf_denotes_iff {nmaskbits : ℕ} (hpos : 0 < nmaskbits) (maskp : Words)
    (buf : ℕ → UInt8) {buflen : UInt32}
    (hfits : (bitmapScnprintf buf buflen maskp nmaskbits).2 < buflen.toNat) :
    Denotes (bytes (bitmapScnprintf buf buflen maskp nmaskbits).1
        (bitmapScnprintf buf buflen maskp nmaskbits).2) (bitmapValue maskp nmaskbits) ↔
      nmaskbits % 32 = 0 ∨ (bitmapValue maskp nmaskbits).log2 % 32 < nmaskbits % 32 := by
  -- the width is that of `m` full chunks and one of `r` bits
  obtain ⟨m, r, hr, hr', hwidth, hsize⟩ : ∃ m r, 0 < r ∧ r ≤ 32 ∧ nmaskbits = 32 * m + r ∧
      (if nmaskbits % 32 = 0 then 32 else nmaskbits % 32) = r := by
    by_cases hwhole : nmaskbits % 32 = 0
    · exact ⟨nmaskbits / 32 - 1, 32, by omega, by omega, by omega, if_pos hwhole⟩
    · exact ⟨nmaskbits / 32, nmaskbits % 32, by omega, by omega, by omega, if_neg hwhole⟩
  have hchunks : (nmaskbits + chunkSz - 1) / chunkSz = m + 1 := by
    simp only [chunkSz]
    omega
  have hloop : bitmapScnprintf buf buflen maskp nmaskbits =
      scnprintfLoop buflen maskp (m + 1) true r buf 0 := by
    unfold bitmapScnprintf
    rw [hchunks, ← hsize]
    rfl
  rw [hloop] at hfits ⊢
  rw [scnprintfLoop_cut_spec buflen maskp hr hr' (Nat.succ_pos m) buf hfits,
    denotes_iff maskp hr (Nat.succ_pos m), hwidth, cutValue_top_iff maskp hr hr' m]
  by_cases hwhole : nmaskbits % 32 = 0
  · have hfull : r = 32 := hsize.symm.trans (if_pos hwhole)
    rw [hfull]
    exact iff_of_true (Nat.mod_lt _ (by decide)) (.inl (by omega))
  · have hshort : nmaskbits % 32 = r := (if_neg hwhole).symm.trans hsize
    rw [← hwidth, hshort]
    constructor
    · exact .inr
    · rintro (hzero | hlt)
      · exact absurd hzero hr.ne'
      · exact hlt

/-- The two lowest bits. -/
def lowestBits : Words := fun k => if k = 0 then 3 else 0

/-- Of 33 bits of which these two are set one is lost: the text is `1`. -/
theorem width_33_loses_bit :
    bytes (bitmapScnprintf (fun _ => 0) 100 lowestBits 33).1
        (bitmapScnprintf (fun _ => 0) 100 lowestBits 33).2 = [49] ∧
      ¬ Denotes (bytes (bitmapScnprintf (fun _ => 0) 100 lowestBits 33).1
        (bitmapScnprintf (fun _ => 0) 100 lowestBits 33).2) (bitmapValue lowestBits 33) := by
  have htext : bytes (bitmapScnprintf (fun _ => 0) 100 lowestBits 33).1
      (bitmapScnprintf (fun _ => 0) 100 lowestBits 33).2 = [49] := by
    decide +kernel
  refine ⟨htext, fun h => ?_⟩
  have hvalue := h.value
  rw [htext] at hvalue
  exact absurd hvalue (by decide +kernel)

/-- Of 40 bits none is lost: the short chunk reaches as far as they do. -/
theorem scnprintf_denotes_iff_forty :
    Denotes (bytes (bitmapScnprintf (fun _ => 0) 100 lowestBits 40).1
      (bitmapScnprintf (fun _ => 0) 100 lowestBits 40).2) (bitmapValue lowestBits 40) :=
  (scnprintf_denotes_iff (by decide) lowestBits (fun _ => 0) (by decide +kernel)).mpr
    (.inr (by decide +kernel))

end CodeAnalyze.Irqbalance
