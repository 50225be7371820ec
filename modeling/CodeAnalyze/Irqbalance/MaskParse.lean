import CodeAnalyze.Irqbalance.MaskBits
import CodeAnalyze.Irqbalance.MaskPrint

/-!
# Parsing a bitmap

`__bitmap_parse` shifts the mask up by a chunk and puts the next chunk in, until the text
ends.  So the chunks of the text become those of the mask, the last one lowest.
-/

namespace CodeAnalyze.Irqbalance

open Lib (digitRow)

/-! ## Shifting in a chunk -/

theorem testBit_half (maskp : Words) (j : ℕ) {b : ℕ} (hb : b < 32) :
    (half maskp j).testBit b = testBit maskp (32 * j + b) := by
  have hchunk : (32 * j + b) / 32 = j := by omega
  have hplace : (32 * j + b) % 32 = b := by omega
  rw [testBit_eq_half, hchunk, hplace]

/-- A chunk is shifted in: it is the lowest now, and the others move up by one. -/
theorem half_shiftIn (maskp : Words) (chunk : UInt32) {n j : ℕ}
    (hj : j < 2 * bitsToLongs (32 * n)) :
    half (shiftIn maskp chunk (32 * n)) j =
      if n ≤ j then 0 else if j = 0 then chunk.toNat else half maskp (j - 1) := by
  have hlim : bitsToLongs (32 * n) = (32 * n + 63) / 64 := rfl
  have hsmall : (if n ≤ j then 0 else if j = 0 then chunk.toNat else half maskp (j - 1)) < 2 ^ 32 := by
    have hchunk := chunk.toNat_lt
    have hhalf := half_lt maskp (j - 1)
    split_ifs <;> omega
  apply Nat.eq_of_testBit_eq
  intro b
  by_cases hb : b < 32
  · rw [testBit_half _ _ hb, testBit_shiftIn _ _ (by omega)]
    by_cases hfirst : j = 0
    · have hlow : 32 * j + b < 32 := by omega
      have hn : ¬n ≤ j := by omega
      rw [if_pos hlow, if_neg hn, if_pos hfirst, hfirst, Nat.mul_zero, Nat.zero_add]
    · have hhigh : ¬32 * j + b < 32 := by omega
      have hplace : 32 * j + b - 32 = 32 * (j - 1) + b := by omega
      rw [if_neg hhigh, if_neg hfirst, hplace, ← testBit_half maskp (j - 1) hb]
      by_cases hn : n ≤ j
      · have hout : ¬32 * j + b < 32 * n := by omega
        simp [hn, hout]
      · have hin : 32 * j + b < 32 * n := by omega
        simp [hn, hin]
  · have hpow : 2 ^ 32 ≤ 2 ^ b := Nat.pow_le_pow_right (by decide) (by omega)
    rw [Nat.testBit_lt_two_pow (Nat.lt_of_lt_of_le (half_lt _ _) hpow),
      Nat.testBit_lt_two_pow (Nat.lt_of_lt_of_le hsmall hpow)]

/-! ## Parsing a chunk -/

/-- What the parser sees in a digit. -/
theorem hexDigit_spec : ∀ d < 16, isspace (hexDigit d) = false ∧ hexDigit d ≠ 0 ∧
    hexDigit d ≠ 44 ∧ isxdigit (hexDigit d) = true ∧ (unhex (hexDigit d)).toNat = d := by
  decide

theorem toNat_pushDigit {chunk : UInt32} (h : chunk.toNat < 2 ^ 28) {d : UInt8}
    (hd : d.toNat < 16) : ((chunk <<< 4) ||| d.toUInt32).toNat = chunk.toNat * 16 + d.toNat := by
  have hsmall : chunk.toNat <<< 4 % 2 ^ 32 = chunk.toNat <<< 4 := by
    rw [Nat.shiftLeft_eq]
    omega
  rw [UInt32.toNat_or, UInt32.toNat_shiftLeft, UInt8.toNat_toUInt32]
  calc chunk.toNat <<< 4 % 2 ^ 32 ||| d.toNat
      = chunk.toNat <<< 4 + d.toNat := by rw [hsmall, Nat.shiftLeft_add_eq_or_of_lt hd]
    _ = chunk.toNat * 16 + d.toNat := by rw [Nat.shiftLeft_eq]

/-- A row of digits is read into the chunk. -/
theorem parseChunk_row (v : ℕ) {k : ℕ} {c : UInt8} (chunk : UInt32) (rest : Bytes)
    (hk : k ≤ 8) (hc : isspace c = false) (hchunk : chunk.toNat < 16 ^ (8 - k)) :
    ∃ c', isspace c' = false ∧ ∀ t nd,
      parseChunk c t nd chunk ((digitRow 16 v k).map hexDigit ++ rest) =
        parseChunk c' (t + k) (nd + k) (UInt32.ofNat (chunk.toNat * 16 ^ k + v % 16 ^ k)) rest := by
  induction k generalizing c chunk with
  | zero =>
      refine ⟨c, hc, fun t nd => ?_⟩
      have hsame : UInt32.ofNat (chunk.toNat * 16 ^ 0 + v % 16 ^ 0) = chunk := by
        simp [Nat.mod_one]
      rw [hsame]
      rfl
  | succ k ih =>
      obtain ⟨d, hd⟩ : ∃ d, d = v / 16 ^ k % 16 := ⟨_, rfl⟩
      have hlt : d < 16 := by
        rw [hd]
        exact Nat.mod_lt _ (by decide)
      obtain ⟨hspace, hnul, hcomma, hhex, hvalue⟩ := hexDigit_spec d hlt
      have hpow : 16 ^ (8 - k) = 16 ^ (8 - (k + 1)) * 16 := by
        rw [← Nat.pow_succ]
        congr 1
        omega
      have hroom : chunk.toNat < 2 ^ 28 := by
        have : 16 ^ (8 - (k + 1)) ≤ 16 ^ 7 := Nat.pow_le_pow_right (by decide) (by omega)
        omega
      have hpush := toNat_pushDigit hroom (d := unhex (hexDigit d)) (by omega)
      rw [hvalue] at hpush
      have hnext : ((chunk <<< 4) ||| (unhex (hexDigit d)).toUInt32).toNat < 16 ^ (8 - k) := by
        omega
      obtain ⟨c', hc', hrest⟩ := ih _ (by omega) hspace hnext
      refine ⟨c', hc', fun t nd => ?_⟩
      have hsum : (chunk.toNat * 16 + d) * 16 ^ k + v % 16 ^ k =
          chunk.toNat * 16 ^ (k + 1) + v % 16 ^ (k + 1) := by
        rw [Nat.mod_pow_succ, ← hd]
        ring
      rw [Lib.digitRow_succ, ← hd, List.map_cons, List.cons_append, parseChunk,
        if_neg (by simp [hspace]), if_neg (by simp [hc]), if_neg (by simp [hnul, hcomma]),
        if_neg (by simp [hhex]), if_neg (by simp [chunk_full_iff.mpr hroom]), hrest, hpush, hsum]
      congr 1 <;> omega

/-- A chunk is read up to the end of the text, or up to the next comma. -/
theorem parseChunk_hex8 {v : ℕ} (hv : v < 2 ^ 32) {c : UInt8} (hc : isspace c = false) (t : ℕ) :
    (∃ c', parseChunk c t 0 0 (hex8 v) =
      .ok { c := c', totaldigits := t + 8, ndigits := 8, chunk := UInt32.ofNat v, rest := [] }) ∧
    ∀ more, parseChunk c t 0 0 (hex8 v ++ 44 :: more) =
      .ok { c := 44, totaldigits := t + 8, ndigits := 8, chunk := UInt32.ofNat v, rest := more } := by
  have hvalue : (0 : UInt32).toNat * 16 ^ 8 + v % 16 ^ 8 = v := by
    have hsmall : v < 16 ^ 8 := hv
    rw [Nat.mod_eq_of_lt hsmall]
    exact Nat.zero_add v
  constructor
  · obtain ⟨c', -, hrow⟩ := parseChunk_row v 0 [] (Nat.le_refl 8) hc (by decide)
    refine ⟨c', ?_⟩
    have heq := hrow t 0
    rw [List.append_nil, hvalue] at heq
    exact heq
  · intro more
    obtain ⟨c', hc', hrow⟩ := parseChunk_row v 0 (44 :: more) (Nat.le_refl 8) hc (by decide)
    have hcomma : isspace 44 = false := by decide
    rw [hex8, hrow t 0, hvalue, parseChunk, if_neg (by simp [hcomma]), if_neg (by simp [hc']),
      if_pos (.inr rfl)]

theorem fls_le (x : UInt32) : fls x ≤ 32 := by
  rw [fls_eq]
  exact Nat.size_le.mpr x.toNat_lt

/-! ## Parsing a mask -/

/-- All chunks are shifted in. -/
def shiftAll (n : ℕ) (maskp : Words) (vs : List ℕ) : Words :=
  vs.foldl (fun maskp v => shiftIn maskp (UInt32.ofNat v) (32 * n)) maskp

/-- The count of bits stays within the chunks that were read. -/
theorem nbits_le {n nchunks nbits len : ℕ} (chunk : UInt32) (hbits : nbits ≤ 32 * nchunks)
    (hroom : nchunks + (len + 1) ≤ n) :
    nbits + (if nchunks + 1 = 1 then fls chunk else chunkSz) ≤ 32 * (nchunks + 1) ∧
      ¬nbits + (if nchunks + 1 = 1 then fls chunk else chunkSz) > 32 * n := by
  have hfls := fls_le chunk
  simp only [chunkSz]
  split <;> omega

/-- A chunk that is not zero is not skipped. -/
theorem not_skipped {v nchunks : ℕ} (hv : v < 2 ^ 32) (hfirst : nchunks ≠ 0 ∨ v ≠ 0) :
    ¬(nchunks = 0 ∧ UInt32.ofNat v = 0) := by
  intro hskip
  have hzero : v % 2 ^ 32 = 0 := congrArg UInt32.toNat hskip.2
  rw [Nat.mod_eq_of_lt hv] at hzero
  rcases hfirst with hne | hne
  · exact hne hskip.1
  · exact hne hzero

/-- From a chunk on that is not zero, or not the first, all chunks are shifted in, as long
as they are no more than the mask has. -/
theorem parseLoop_row (n : ℕ) (vs : List ℕ) {v : ℕ} {c : UInt8} (t : ℕ) {nchunks nbits : ℕ}
    (maskp : Words) (hc : isspace c = false) (hlt : ∀ w ∈ v :: vs, w < 2 ^ 32)
    (hfirst : nchunks ≠ 0 ∨ v ≠ 0) (hbits : nbits ≤ 32 * nchunks)
    (hroom : nchunks + (v :: vs).length ≤ n) :
    parseLoop (32 * n) c t nchunks nbits maskp (rowText (v :: vs)) =
      (0, shiftAll n maskp (v :: vs)) := by
  induction vs generalizing v c t nchunks nbits maskp with
  | nil =>
      -- the last chunk: the buffer ends behind it
      obtain ⟨⟨c', hchunk⟩, -⟩ := parseChunk_hex8 (hlt v List.mem_cons_self) hc t
      obtain ⟨-, hover⟩ := nbits_le (UInt32.ofNat v) hbits hroom
      have hshift := not_skipped (hlt v List.mem_cons_self) hfirst
      have htext : rowText [v] = hex8 v := by simp [rowText, tailText]
      rw [htext, parseLoop]
      split
      · rename_i ret heq
        rw [hchunk] at heq
        cases heq
      · rename_i r heq
        rw [hchunk] at heq
        cases heq
        rw [if_neg (Nat.succ_ne_zero 7), if_neg hshift]
        simp only [if_neg hover]
        rw [dif_neg (fun h => h.1 rfl)]
        rfl
  | cons w ws ih =>
      -- a comma follows, and the loop goes round
      obtain ⟨-, hmore⟩ := parseChunk_hex8 (hlt v List.mem_cons_self) hc t
      obtain ⟨hbits', hover⟩ := nbits_le (UInt32.ofNat v) hbits hroom
      have hshift := not_skipped (hlt v List.mem_cons_self) hfirst
      have htext : rowText (v :: w :: ws) = hex8 v ++ 44 :: rowText (w :: ws) := by
        rw [rowText, tailText_cons]
      rw [htext, parseLoop]
      split
      · rename_i ret heq
        rw [hmore] at heq
        cases heq
      · rename_i r heq
        rw [hmore] at heq
        cases heq
        have hnext := rowText_ne_nil w ws
        rw [if_neg (Nat.succ_ne_zero 7), if_neg hshift]
        simp only [if_neg hover]
        rw [dif_pos ⟨hnext, trivial⟩, ih _ _ (by decide) (fun u hu => hlt u (List.mem_cons_of_mem v hu))
          (.inl (Nat.succ_ne_zero nchunks)) hbits' (by simp at hroom ⊢; omega)]
        rfl

/-- The chunks of a mask into which chunks were shifted: these, the last one lowest. -/
theorem half_shiftAll {n j : ℕ} (hj : j < 2 * bitsToLongs (32 * n)) (maskp : Words)
    {vs : List ℕ} (hlt : ∀ v ∈ vs, v < 2 ^ 32) (hne : vs ≠ []) :
    half (shiftAll n maskp vs) j =
      if n ≤ j then 0
      else if j < vs.length then vs.reverse.getD j 0 else half maskp (j - vs.length) := by
  induction vs using List.reverseRecOn generalizing j with
  | nil => exact absurd rfl hne
  | append_singleton vs v ih =>
      have hv : v < 2 ^ 32 := hlt v (by simp)
      have hvalue : (UInt32.ofNat v).toNat = v := Nat.mod_eq_of_lt hv
      have hlast : shiftAll n maskp (vs ++ [v]) =
          shiftIn (shiftAll n maskp vs) (UInt32.ofNat v) (32 * n) := by
        simp [shiftAll]
      rw [hlast, half_shiftIn _ _ hj, hvalue, List.reverse_append, List.reverse_singleton,
        List.singleton_append, List.length_append, List.length_singleton]
      by_cases hn : n ≤ j
      · rw [if_pos hn, if_pos hn]
      · rw [if_neg hn, if_neg hn]
        cases j with
        | zero => rw [if_pos rfl, if_pos (Nat.succ_pos _), List.getD_cons_zero]
        | succ j =>
            rw [if_neg (Nat.succ_ne_zero j), Nat.add_sub_cancel, List.getD_cons_succ,
              Nat.add_sub_add_right]
            by_cases hempty : vs = []
            · subst hempty
              simp [shiftAll]
            · rw [ih (by omega) (fun u hu => hlt u (List.mem_append_left _ hu)) hempty,
                if_neg (by omega)]
              by_cases hshort : j < vs.length
              · rw [if_pos hshort, if_pos (by omega)]
              · rw [if_neg hshort, if_neg (by omega)]

/-- The empty bitmap. -/
theorem half_bitmapZero (maskp : Words) {n j : ℕ} (hj : j < 2 * bitsToLongs (32 * n)) :
    half (bitmapZero maskp (32 * n)) j = 0 := by
  have hi : j / 2 < bitsToLongs (32 * n) := by omega
  unfold half bitmapZero
  rw [if_pos hi]
  simp

/-- The parser gets back the chunks that were printed. -/
theorem bitmapParse_rowText (maskp old : Words) {n : ℕ} (hn : 0 < n) :
    (bitmapParse (rowText (printed maskp n true)) old (32 * n)).1 = 0 ∧
      ∀ j < 2 * bitsToLongs (32 * n),
        half (bitmapParse (rowText (printed maskp n true)) old (32 * n)).2 j =
          if j < n then half maskp j else 0 := by
  obtain ⟨v, vs, hprinted, hcase⟩ := printed_first maskp hn
  obtain ⟨hlen, hget⟩ := getD_printed maskp n true
  have hlt := printed_lt maskp n true
  rw [hprinted] at hlen hget hlt ⊢
  have hspace : isspace 0 = false := by decide
  unfold bitmapParse
  by_cases hv : v = 0
  · -- only the lowest chunk is printed, and skipped
    have hvs : vs = [] := by
      rcases hcase with hne | hnil
      · exact absurd hv hne
      · exact hnil
    subst hv hvs
    obtain ⟨⟨c', hchunk⟩, -⟩ := parseChunk_hex8 (by decide : 0 < 2 ^ 32) hspace 0
    have htext : rowText [0] = hex8 0 := by simp [rowText, tailText]
    have hparse : parseLoop (32 * n) 0 0 0 0 (bitmapZero old (32 * n)) (rowText [0]) =
        (0, bitmapZero old (32 * n)) := by
      rw [htext, parseLoop]
      split
      · rename_i ret heq
        rw [hchunk] at heq
        cases heq
      · rename_i r heq
        rw [hchunk] at heq
        cases heq
        rw [if_neg (Nat.succ_ne_zero 7), if_pos ⟨rfl, rfl⟩, dif_neg (fun h => h.1 rfl)]
    rw [hparse]
    refine ⟨rfl, fun j hj => ?_⟩
    rw [half_bitmapZero old hj, ← hget j]
    cases j <;> rfl
  · -- no leading zeros are printed: all chunks are shifted in
    have hparse := parseLoop_row n vs 0 (bitmapZero old (32 * n)) hspace hlt
      (.inr hv) (Nat.le_refl 0) (by rw [Nat.zero_add]; exact hlen)
    rw [hparse]
    refine ⟨rfl, fun j hj => ?_⟩
    rw [half_shiftAll hj _ hlt (List.cons_ne_nil v vs), ← hget j]
    by_cases hnj : n ≤ j
    · rw [if_pos hnj, hget j, if_neg (by omega)]
    · rw [if_neg hnj]
      split
      · rfl
      · rename_i hlong
        rw [half_bitmapZero old (by omega), List.getD_eq_default]
        rw [List.length_reverse]
        omega

end CodeAnalyze.Irqbalance
