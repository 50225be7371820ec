import CodeAnalyze.Irqbalance.MaskGrammar
import CodeAnalyze.Irqbalance.MaskParse

/-!
# What the parser accepts

`__bitmap_parse` returns 0 for every text of a mask, with the value in the mask.  It also
returns 0 for two kinds of texts that are none: with whitespace behind a digit or a comma
and something else after it, and with a comma as the last byte of the buffer.
-/

namespace CodeAnalyze.Irqbalance

open Lib (rowValue)

/-! ## Reading a group -/

theorem parseChunk_spaces {s : Bytes} (hs : ∀ c ∈ s, isspace c = true) (c : UInt8) (t nd : ℕ)
    (chunk : UInt32) (rest : Bytes) :
    parseChunk c t nd chunk (s ++ rest) = parseChunk (s.getLastD c) t nd chunk rest := by
  induction s generalizing c with
  | nil => rfl
  | cons d s ih =>
      rw [List.cons_append, parseChunk, if_pos (hs d List.mem_cons_self),
        ih fun c hc => hs c (List.mem_cons_of_mem d hc), List.getLastD_cons]

theorem isspace_getLastD {s : Bytes} (hs : ∀ c ∈ s, isspace c = true) (hne : s ≠ []) (c : UInt8) :
    isspace (s.getLastD c) = true := by
  rw [List.getLastD_eq_getLast?, List.getLast?_eq_some_getLast hne, Option.getD_some]
  exact hs _ (List.getLast_mem hne)

/-- Digits are read until the chunk overflows.  The digit before them is not behind
whitespace, unless it is the first. -/
theorem parseChunk_digits {g : Bytes} (hg : ∀ c ∈ g, isxdigit c = true) {c : UInt8} {t : ℕ}
    (hc : t = 0 ∨ isspace c = false) (nd : ℕ) (chunk : UInt32) (rest : Bytes) :
    parseChunk c t nd chunk (g ++ rest) =
      if (g.map hexValue).foldl (fun a d => a * 16 + d) chunk.toNat < 2 ^ 32 then
        parseChunk (g.getLastD c) (t + g.length) (nd + g.length)
          (UInt32.ofNat ((g.map hexValue).foldl (fun a d => a * 16 + d) chunk.toNat)) rest
      else .error (-eoverflow) := by
  induction g generalizing c t nd chunk with
  | nil =>
      have hsame : UInt32.ofNat chunk.toNat = chunk := UInt32.ofNat_toNat
      rw [List.map_nil, List.foldl_nil, if_pos chunk.toNat_lt, hsame]
      rfl
  | cons d g ih =>
      obtain ⟨hspace, hnul, hcomma, hvalue, hlt⟩ := xdigit_spec (hg d List.mem_cons_self)
      have hembedded : ¬(t ≠ 0 ∧ d ≠ 0 ∧ isspace c = true) := by
        rintro ⟨ht, -, hsp⟩
        rcases hc with hzero | hnot
        · exact ht hzero
        · rw [hnot] at hsp
          cases hsp
      rw [List.cons_append, parseChunk, if_neg (by simp [hspace]), if_neg hembedded,
        if_neg (by simp [hnul, hcomma]), if_neg (by simp [hg d List.mem_cons_self])]
      simp only [ne_eq, chunk_full_iff, ite_not, List.map_cons, List.foldl_cons]
      by_cases hroom : chunk.toNat < 2 ^ 28
      · have hpush := toNat_pushDigit hroom (d := unhex d) (by omega)
        rw [if_pos hroom, ih (fun c hc => hg c (List.mem_cons_of_mem d hc)) (.inr hspace), hpush,
          hvalue, List.getLastD_cons, List.length_cons, Nat.add_right_comm t,
          Nat.add_right_comm nd, Nat.add_assoc t, Nat.add_assoc nd]
      · have hover := Lib.le_foldl_digits (b := 16) (by decide) (chunk.toNat * 16 + hexValue d)
          (g.map hexValue)
        rw [if_neg hroom, if_neg (by omega)]

section
variable {c : UInt8} {t nd : ℕ} {chunk : UInt32}

/-- A chunk is read that ends with the text. -/
theorem parseChunk_end {tail : Bytes} (htail : AtEnd tail) :
    ∃ r, parseChunk c t nd chunk tail = .ok r ∧ r.ndigits = nd ∧ r.chunk = chunk ∧
      ¬(r.rest ≠ [] ∧ r.c = 44) := by
  cases tail with
  | nil => exact ⟨_, rfl, rfl, rfl, fun h => h.1 rfl⟩
  | cons x rest =>
      obtain rfl : x = 0 := htail x rfl
      have hspace : isspace 0 = false := by decide
      refine ⟨{ c := 0, totaldigits := t, ndigits := nd, chunk, rest }, ?_, rfl, rfl, ?_⟩
      · simp [parseChunk, hspace]
      · rintro ⟨-, hcomma⟩
        cases hcomma

/-- A chunk is read that ends with a comma. -/
theorem parseChunk_comma (hc : t = 0 ∨ isspace c = false) (rest : Bytes) :
    parseChunk c t nd chunk (44 :: rest) =
      .ok { c := 44, totaldigits := t, ndigits := nd, chunk, rest } := by
  have hspace : isspace 44 = false := by decide
  rcases hc with rfl | hc
  · simp [parseChunk, hspace]
  · simp [parseChunk, hspace, hc]

/-- A character behind embedded whitespace ends the parse, with 0. -/
theorem parseChunk_embedded (ht : t ≠ 0) (hc : isspace c = true) {x : UInt8}
    (hx : isspace x = false) (hne : x ≠ 0) (rest : Bytes) :
    parseChunk c t nd chunk (x :: rest) = .error 0 := by
  rw [parseChunk, if_neg (by simp [hx]), if_pos ⟨ht, hne, hc⟩]

theorem parseChunk_invalid (hc : t = 0 ∨ isspace c = false) {x : UInt8} (hx : isspace x = false)
    (hword : isword x = false) (hne : x ≠ 0) (rest : Bytes) :
    parseChunk c t nd chunk (x :: rest) = .error (-einval) := by
  obtain ⟨hdigit, hcomma⟩ := Bool.or_eq_false_iff.mp hword
  have hcomma' : x ≠ 44 := by
    rintro rfl
    cases hcomma
  rcases hc with rfl | hc
  · simp [parseChunk, hx, hne, hcomma', hdigit]
  · simp [parseChunk, hx, hne, hcomma', hdigit, hc]

/-- The digits of a group, and the whitespace behind them. -/
theorem parseChunk_group {g s : Bytes} (hg : ∀ c ∈ g, isxdigit c = true)
    (hs : ∀ c ∈ s, isspace c = true) (hc : t = 0 ∨ isspace c = false) (rest : Bytes) :
    parseChunk c t 0 0 (g ++ s ++ rest) =
      if groupValue g < 2 ^ 32 then
        parseChunk (s.getLastD (g.getLastD c)) (t + g.length) g.length
          (UInt32.ofNat (groupValue g)) rest
      else .error (-eoverflow) := by
  rw [List.append_assoc, parseChunk_digits hg hc, Nat.zero_add, parseChunk_spaces hs]
  rfl

/-- Behind the digits of a group there is no whitespace. -/
theorem isspace_group {g : Bytes} (hg : ∀ c ∈ g, isxdigit c = true)
    (hc : t = 0 ∨ isspace c = false) :
    t + g.length = 0 ∨ isspace (g.getLastD c) = false := by
  by_cases hnil : g = []
  · subst hnil
    exact hc
  · right
    rw [List.getLastD_eq_getLast?, List.getLast?_eq_some_getLast hnil, Option.getD_some]
    exact (xdigit_spec (hg _ (List.getLast_mem hnil))).1

end

/-! ## Putting the groups into the mask -/

/-- A turn of the loop. -/
theorem parseLoop_eq (n : ℕ) (c : UInt8) (t nchunks nbits : ℕ) (maskp : Words) (buf : Bytes) :
    parseLoop n c t nchunks nbits maskp buf =
      match parseChunk c t 0 0 buf with
      | .error ret => (ret, maskp)
      | .ok r =>
        if r.ndigits = 0 then (-einval, maskp)
        else if nchunks = 0 ∧ r.chunk = 0 then
          if r.rest ≠ [] ∧ r.c = 44 then
            parseLoop n r.c r.totaldigits nchunks nbits maskp r.rest
          else (0, maskp)
        else if nbits + (if nchunks + 1 = 1 then fls r.chunk else chunkSz) > n then
          (-eoverflow, shiftIn maskp r.chunk n)
        else if r.rest ≠ [] ∧ r.c = 44 then
          parseLoop n r.c r.totaldigits (nchunks + 1)
            (nbits + if nchunks + 1 = 1 then fls r.chunk else chunkSz) (shiftIn maskp r.chunk n)
            r.rest
        else (0, shiftIn maskp r.chunk n) := by
  rw [parseLoop]
  split
  · rename_i ret heq
    rw [heq]
  · rename_i r heq
    rw [heq]
    simp only [dite_eq_ite]

theorem parseLoop_error {n t nchunks nbits : ℕ} {c : UInt8} {maskp : Words} {buf : Bytes} {ret : ℤ}
    (h : parseChunk c t 0 0 buf = .error ret) :
    (parseLoop n c t nchunks nbits maskp buf).1 = ret := by
  rw [parseLoop_eq, h]

theorem parseLoop_empty {n t nchunks nbits : ℕ} {c : UInt8} {maskp : Words} {buf : Bytes}
    {r : Chunk} (h : parseChunk c t 0 0 buf = .ok r) (hr : r.ndigits = 0) :
    (parseLoop n c t nchunks nbits maskp buf).1 = -einval := by
  rw [parseLoop_eq, h]
  simp only [if_pos hr]

/-- A value with a chunk behind it. -/
theorem size_mul_add {v w : ℕ} (hv : v ≠ 0) (hw : w < 2 ^ 32) :
    (v * 2 ^ 32 + w).size = v.size + 32 := by
  apply Nat.le_antisymm
  · rw [Nat.size_le, Nat.pow_add]
    have := Nat.lt_size_self v
    omega
  · have hpos : 0 < v.size := Nat.size_pos.mpr (Nat.pos_of_ne_zero hv)
    have hlow : 2 ^ (v.size - 1) ≤ v := Nat.lt_size.mp (by omega)
    have hgoal : v.size - 1 + 32 < (v * 2 ^ 32 + w).size := by
      rw [Nat.lt_size, Nat.pow_add]
      omega
    omega

/-- The groups are in order, and in the mask. -/
structure GroupsRead (n : ℕ) (gs : List Bytes) (nchunks nbits : ℕ) (maskp : Words) : Prop where
  groups : ∀ g ∈ gs, IsGroup g
  fits : maskValue gs < 2 ^ n
  nchunks : nchunks = 0 ↔ maskValue gs = 0
  nbits : nbits = (maskValue gs).size
  holds : Holds maskp n (maskValue gs)

theorem groupsRead_start (n : ℕ) (old : Words) : GroupsRead n [] 0 0 (bitmapZero old n) where
  groups := by simp
  fits := Nat.two_pow_pos n
  nchunks := by simp
  nbits := Nat.size_zero.symm
  holds := holds_bitmapZero old n

section
variable {n nchunks nbits t : ℕ} {gs : List Bytes} {maskp : Words} {g buf : Bytes} {c : UInt8}
  {r : Chunk}

/-- A group that is read comes into the mask. -/
theorem GroupsRead.next (h : GroupsRead n gs nchunks nbits maskp) (hg : IsGroup g)
    (hr : parseChunk c t 0 0 buf = .ok r) (hdigits : r.ndigits = g.length)
    (hchunk : r.chunk = UInt32.ofNat (groupValue g)) :
    if maskValue (gs ++ [g]) < 2 ^ n then
      ∃ nchunks' nbits' maskp', GroupsRead n (gs ++ [g]) nchunks' nbits' maskp' ∧
        parseLoop n c t nchunks nbits maskp buf =
          if r.rest ≠ [] ∧ r.c = 44 then
            parseLoop n r.c r.totaldigits nchunks' nbits' maskp' r.rest
          else (0, maskp')
    else (parseLoop n c t nchunks nbits maskp buf).1 = -eoverflow := by
  have hvalue : r.chunk.toNat = groupValue g := by
    rw [hchunk]
    exact Nat.mod_eq_of_lt hg.fits
  have hdig : r.ndigits ≠ 0 := by
    rw [hdigits]
    exact fun hzero => hg.nonempty (List.eq_nil_of_length_eq_zero hzero)
  have hgroups : ∀ g' ∈ gs ++ [g], IsGroup g' := by
    intro g' hg'
    rcases List.mem_append.mp hg' with hin | hlast
    · exact h.groups g' hin
    · exact List.mem_singleton.mp hlast ▸ hg
  have hzero : r.chunk = 0 ↔ groupValue g = 0 := by
    rw [← hvalue, ← UInt32.toNat_inj]
    rfl
  rw [parseLoop_eq, hr]
  simp only [if_neg hdig]
  by_cases hskip : nchunks = 0 ∧ r.chunk = 0
  · -- the value is still zero
    have hsame : maskValue (gs ++ [g]) = maskValue gs := by
      rw [maskValue_concat, h.nchunks.mp hskip.1, hzero.mp hskip.2, Nat.zero_mul]
    rw [if_pos hskip, hsame, if_pos h.fits]
    exact ⟨nchunks, nbits, maskp, ⟨hgroups, hsame ▸ h.fits, hsame ▸ h.nchunks, hsame ▸ h.nbits,
      hsame ▸ h.holds⟩, rfl⟩
  · -- `nbits` counts the bits of the value without its leading zeros
    have hbits : nbits + (if nchunks + 1 = 1 then fls r.chunk else chunkSz) =
        (maskValue (gs ++ [g])).size := by
      rw [maskValue_concat, h.nbits]
      by_cases hfirst : nchunks = 0
      · rw [if_pos (by omega), fls_eq, hvalue, h.nchunks.mp hfirst]
        simp
      · rw [if_neg (by omega), size_mul_add (mt h.nchunks.mpr hfirst) hg.fits]
        rfl
    rw [if_neg hskip]
    simp only [hbits]
    by_cases hfits : maskValue (gs ++ [g]) < 2 ^ n
    · have hroom : ¬(maskValue (gs ++ [g])).size > n := Nat.not_lt.mpr (Nat.size_le.mpr hfits)
      rw [if_pos hfits]
      simp only [if_neg hroom]
      refine ⟨nchunks + 1, _, shiftIn maskp r.chunk n, ⟨hgroups, hfits, ?_, rfl, ?_⟩, rfl⟩
      · have hne : maskValue (gs ++ [g]) ≠ 0 := by
          rw [maskValue_concat]
          intro hnone
          have hboth := Nat.add_eq_zero_iff.mp hnone
          refine hskip ⟨h.nchunks.mpr ?_, hzero.mpr hboth.2⟩
          exact (Nat.mul_eq_zero.mp hboth.1).resolve_right (by decide)
        exact ⟨fun h0 => absurd h0 (Nat.succ_ne_zero nchunks), fun h0 => absurd h0 hne⟩
      · rw [maskValue_concat, ← hvalue] at hfits ⊢
        exact h.holds.shiftIn hfits
    · -- more bits than the mask has: `-EOVERFLOW`
      have hover : (maskValue (gs ++ [g])).size > n := Nat.lt_of_not_le (mt Nat.size_le.mp hfits)
      rw [if_neg hfits]
      simp only [if_pos hover]

/-- A group with a comma behind it. -/
theorem GroupsRead.comma (h : GroupsRead n gs nchunks nbits maskp) (hg : IsGroup g)
    (hc : t = 0 ∨ isspace c = false) (rest : Bytes) :
    if maskValue (gs ++ [g]) < 2 ^ n then
      ∃ nchunks' nbits' maskp', GroupsRead n (gs ++ [g]) nchunks' nbits' maskp' ∧
        parseLoop n c t nchunks nbits maskp (g ++ 44 :: rest) =
          if rest ≠ [] then parseLoop n 44 (t + g.length) nchunks' nbits' maskp' rest
          else (0, maskp')
    else (parseLoop n c t nchunks nbits maskp (g ++ 44 :: rest)).1 = -eoverflow := by
  have hchunk := parseChunk_group (s := []) hg.digits (by simp) hc (44 :: rest)
  rw [List.append_nil, if_pos hg.fits] at hchunk
  have hnext := h.next hg (hchunk.trans (parseChunk_comma (isspace_group hg.digits hc) rest)) rfl rfl
  simpa only [and_true] using hnext

/-- The last group, where the text ends. -/
theorem GroupsRead.last (h : GroupsRead n gs nchunks nbits maskp) (hg : IsGroup g)
    (hc : t = 0 ∨ isspace c = false) {s tail : Bytes} (hs : ∀ c ∈ s, isspace c = true)
    (htail : AtEnd tail) :
    if maskValue (gs ++ [g]) < 2 ^ n then
      ∃ maskp', parseLoop n c t nchunks nbits maskp (g ++ s ++ tail) = (0, maskp') ∧
        Holds maskp' n (maskValue (gs ++ [g]))
    else (parseLoop n c t nchunks nbits maskp (g ++ s ++ tail)).1 = -eoverflow := by
  have hchunk := parseChunk_group hg.digits hs hc tail
  rw [if_pos hg.fits] at hchunk
  obtain ⟨r, hr, hdigits, hvalue, hend⟩ := parseChunk_end htail
  have hnext := h.next hg (hchunk.trans hr) hdigits hvalue
  by_cases hfits : maskValue (gs ++ [g]) < 2 ^ n
  · rw [if_pos hfits] at hnext ⊢
    obtain ⟨nchunks', nbits', maskp', hread, heq⟩ := hnext
    exact ⟨maskp', by rw [heq, if_neg hend], hread.holds⟩
  · rwa [if_neg hfits] at hnext ⊢

/-- All groups at the front of a text come into the mask. -/
theorem GroupsRead.heads (h : GroupsRead n [] nchunks nbits maskp) (hgs : ∀ g ∈ gs, IsGroup g)
    (hfits : maskValue gs < 2 ^ n) (hc : t = 0 ∨ isspace c = false) {rest : Bytes}
    (hrest : rest ≠ []) :
    ∃ c' t' nchunks' nbits' maskp', GroupsRead n gs nchunks' nbits' maskp' ∧
      (t' = 0 ∨ isspace c' = false) ∧ (gs ≠ [] → t' ≠ 0) ∧
      parseLoop n c t nchunks nbits maskp (heads gs ++ rest) =
        parseLoop n c' t' nchunks' nbits' maskp' rest := by
  induction gs using List.reverseRecOn generalizing rest with
  | nil => exact ⟨c, t, nchunks, nbits, maskp, h, hc, fun hne => absurd rfl hne, rfl⟩
  | append_singleton gs g ih =>
      have hg : IsGroup g := hgs g (by simp)
      have hbefore : maskValue gs < 2 ^ n := Nat.lt_of_le_of_lt (maskValue_le_append gs [g]) hfits
      have htext : CodeAnalyze.Irqbalance.heads (gs ++ [g]) ++ rest =
          CodeAnalyze.Irqbalance.heads gs ++ (g ++ 44 :: rest) := by
        simp [heads_concat]
      obtain ⟨c', t', nchunks', nbits', maskp', hread, hc', -, heq⟩ :=
        ih (fun g' hg' => hgs g' (by simp [hg'])) hbefore (by simp : g ++ 44 :: rest ≠ [])
      have hcomma := hread.comma hg hc' rest
      rw [if_pos hfits] at hcomma
      obtain ⟨nchunks'', nbits'', maskp'', hread', heq'⟩ := hcomma
      refine ⟨44, t' + g.length, nchunks'', nbits'', maskp'', hread', .inr (by decide), ?_, ?_⟩
      · have hpos := List.length_pos_of_ne_nil hg.nonempty
        exact fun _ => by omega
      · rw [htext, heq, heq', if_pos hrest]

end

/-! ## What is accepted -/

section
variable {n : ℕ} {buf : Bytes} {gs : List Bytes} {g s tail : Bytes}

/-- Leading whitespace is skipped. -/
theorem bitmapParse_eq (buf : Bytes) (old : Words) (n : ℕ) :
    ∃ c, bitmapParse buf old n =
      parseLoop n c 0 0 0 (bitmapZero old n) (buf.dropWhile isspace) := by
  refine ⟨(buf.takeWhile isspace).getLastD 0, ?_⟩
  have hspaces : ∀ c ∈ buf.takeWhile isspace, isspace c = true := fun c => List.mem_takeWhile_imp
  have hskip := parseChunk_spaces hspaces 0 0 0 0 (buf.dropWhile isspace)
  rw [List.takeWhile_append_dropWhile] at hskip
  rw [bitmapParse, parseLoop_eq, hskip, ← parseLoop_eq]

theorem bitmapParse_heads (old : Words) (hlayout : Layout (buf.dropWhile isspace) gs g s tail)
    (hfits : maskValue gs < 2 ^ n) (hrest : g ++ s ++ tail ≠ []) :
    ∃ c t nchunks nbits maskp, GroupsRead n gs nchunks nbits maskp ∧
      (t = 0 ∨ isspace c = false) ∧ (gs ≠ [] → t ≠ 0) ∧
      bitmapParse buf old n = parseLoop n c t nchunks nbits maskp (g ++ s ++ tail) := by
  obtain ⟨c, hparse⟩ := bitmapParse_eq buf old n
  obtain ⟨c', t', nchunks', nbits', maskp', hread, hc', ht', heq⟩ :=
    (groupsRead_start n old).heads hlayout.groups hfits (c := c) (t := 0) (.inl rfl) hrest
  refine ⟨c', t', nchunks', nbits', maskp', hread, hc', ht', ?_⟩
  rw [hparse, hlayout.text_eq, List.append_assoc, List.append_assoc, ← List.append_assoc g, heq]

/-- The text of a mask is accepted, and its value is in the mask. -/
theorem bitmapParse_layout (old : Words) (hlayout : Layout (buf.dropWhile isspace) gs g s tail)
    (hg : IsGroup g) (hfits : maskValue (gs ++ [g]) < 2 ^ n) (htail : AtEnd tail) :
    (bitmapParse buf old n).1 = 0 ∧ Holds (bitmapParse buf old n).2 n (maskValue (gs ++ [g])) := by
  have hbefore : maskValue gs < 2 ^ n := Nat.lt_of_le_of_lt (maskValue_le_append gs [g]) hfits
  obtain ⟨c, t, nchunks, nbits, maskp, hread, hc, -, hparse⟩ :=
    bitmapParse_heads old hlayout hbefore (by simp [hg.nonempty])
  have hlast := hread.last hg hc hlayout.spaces htail
  rw [if_pos hfits] at hlast
  obtain ⟨maskp', heq, hholds⟩ := hlast
  rw [hparse, heq]
  exact ⟨rfl, hholds⟩

theorem bitmapParse_embeddedSpace (old : Words)
    (h : EmbeddedSpace n (buf.dropWhile isspace)) : (bitmapParse buf old n).1 = 0 := by
  obtain ⟨gs, g, s, x, rest, hlayout, hfits, hg, hsome, hs, hx, hne⟩ := h
  obtain ⟨c, t, nchunks, nbits, maskp, -, hc, ht, hparse⟩ :=
    bitmapParse_heads old hlayout hfits (by simp)
  have hdigits : t + g.length ≠ 0 := by
    rcases hsome with hgs | hg
    · have := ht hgs
      omega
    · have := List.length_pos_of_ne_nil hg
      omega
  have hchunk := parseChunk_group hlayout.digits hlayout.spaces hc (x :: rest)
  rw [if_pos hg, parseChunk_embedded hdigits (isspace_getLastD hlayout.spaces hs _) hx hne] at hchunk
  rw [hparse, parseLoop_eq, hchunk]

theorem bitmapParse_endsInComma (old : Words)
    (h : EndsInComma n (buf.dropWhile isspace)) : (bitmapParse buf old n).1 = 0 := by
  obtain ⟨gs', hlayout, hne, hfits⟩ := h
  obtain ⟨gs, g, rfl⟩ := (List.eq_nil_or_concat' gs').resolve_left hne
  have hg : IsGroup g := hlayout.groups g (by simp)
  have hbefore : maskValue gs < 2 ^ n := Nat.lt_of_le_of_lt (maskValue_le_append gs [g]) hfits
  have hfront : Layout (buf.dropWhile isspace) gs g [] [44] := by
    refine ⟨fun g' hg' => hlayout.groups g' (by simp [hg']), hg.digits, by simp, ?_⟩
    rw [hlayout.text_eq, heads_concat]
    simp
  obtain ⟨c, t, nchunks, nbits, maskp, hread, hc, -, hparse⟩ :=
    bitmapParse_heads old hfront hbefore (by simp)
  have hcomma := hread.comma hg hc []
  rw [if_pos hfits] at hcomma
  obtain ⟨nchunks', nbits', maskp', -, heq⟩ := hcomma
  rw [hparse, List.append_nil, heq]
  rfl

end

/-! ## Nothing else is accepted -/

/-- The digits at the front, the whitespace behind them, and what follows. -/
theorem exists_split (buf : Bytes) :
    ∃ g s rest, buf = g ++ s ++ rest ∧ (∀ c ∈ g, isxdigit c = true) ∧
      (∀ c ∈ s, isspace c = true) ∧ (∀ x ∈ rest.head?, isspace x = false) ∧
      (s = [] → ∀ x ∈ rest.head?, isxdigit x = false) := by
  have hhead : ∀ (p : UInt8 → Bool) (l : Bytes), ∀ x ∈ (l.dropWhile p).head?, p x = false := by
    intro p l x hx
    have hnot := List.head?_dropWhile_not p l
    rw [Option.mem_def.mp hx] at hnot
    exact hnot
  refine ⟨buf.takeWhile isxdigit, (buf.dropWhile isxdigit).takeWhile isspace,
    (buf.dropWhile isxdigit).dropWhile isspace, ?_, fun c => List.mem_takeWhile_imp,
    fun c => List.mem_takeWhile_imp, hhead _ _, fun hnil x hx => ?_⟩
  · rw [List.append_assoc, List.takeWhile_append_dropWhile, List.takeWhile_append_dropWhile]
  · have hall := List.takeWhile_append_dropWhile (p := isspace) (l := buf.dropWhile isxdigit)
    rw [hnil, List.nil_append] at hall
    rw [hall] at hx
    exact hhead _ _ x hx

/-- A turn of the loop after which the parser can still return 0. -/
theorem GroupsRead.turn {n t nchunks nbits : ℕ} {gs : List Bytes} {c : UInt8} {maskp : Words}
    {buf : Bytes} (h : GroupsRead n gs nchunks nbits maskp) (hc : t = 0 ∨ isspace c = false)
    (hzero : (parseLoop n c t nchunks nbits maskp buf).1 = 0) :
    ∃ g s rest, buf = g ++ s ++ rest ∧ (∀ c ∈ g, isxdigit c = true) ∧
      (∀ c ∈ s, isspace c = true) ∧ groupValue g < 2 ^ 32 ∧
      ((AtEnd rest ∧ g ≠ [] ∧ maskValue (gs ++ [g]) < 2 ^ n) ∨
        (s ≠ [] ∧ ∃ x rest', rest = x :: rest' ∧ isspace x = false ∧ x ≠ 0) ∨
        (s = [] ∧ g ≠ [] ∧ maskValue (gs ++ [g]) < 2 ^ n ∧ ∃ rest', rest = 44 :: rest')) := by
  obtain ⟨g, s, rest, rfl, hg, hs, hspace, hdigit⟩ := exists_split buf
  have hchunk := parseChunk_group hg hs hc rest
  by_cases hfits : groupValue g < 2 ^ 32
  swap
  · -- a group of more than 32 bits
    rw [if_neg hfits] at hchunk
    rw [parseLoop_error hchunk] at hzero
    cases hzero
  rw [if_pos hfits] at hchunk
  refine ⟨g, s, rest, rfl, hg, hs, hfits, ?_⟩
  by_cases htail : AtEnd rest
  · -- the buffer ends behind the group, or there is no group to end with
    left
    by_cases hnil : g = []
    · subst hnil
      obtain ⟨r, hr, hdigits, -⟩ := parseChunk_end htail
      rw [parseLoop_empty (hchunk.trans hr) hdigits] at hzero
      cases hzero
    · have hlast := h.last ⟨hnil, hg, hfits⟩ hc hs htail
      by_cases hvalue : maskValue (gs ++ [g]) < 2 ^ n
      · exact ⟨htail, hnil, hvalue⟩
      · rw [if_neg hvalue, hzero] at hlast
        cases hlast
  right
  obtain ⟨x, rest', hx, rfl⟩ : ∃ x rest', x ≠ 0 ∧ rest = x :: rest' := by
    cases rest with
    | nil => exact absurd (fun x hx => by cases hx) htail
    | cons x rest' =>
        refine ⟨x, rest', ?_, rfl⟩
        rintro rfl
        exact htail fun y hy => (Option.mem_some.mp hy).symm
  by_cases hspaces : s = []
  swap
  · -- whitespace inside the text: the test for it returns 0
    exact .inl ⟨hspaces, x, rest', rfl, hspace x rfl, hx⟩
  right
  subst hspaces
  have hgroup := isspace_group hg hc
  by_cases hcomma : x = 44
  swap
  · -- an illegal character
    have hword : isword x = false := by
      rw [isword, hdigit rfl x rfl, Bool.false_or]
      exact beq_false_of_ne hcomma
    have hinvalid := hchunk.trans (parseChunk_invalid hgroup (hspace x rfl) hword hx rest')
    rw [parseLoop_error hinvalid] at hzero
    cases hzero
  subst hcomma
  by_cases hnil : g = []
  · -- an empty group
    subst hnil
    rw [parseLoop_empty (hchunk.trans (parseChunk_comma hgroup rest')) rfl] at hzero
    cases hzero
  have hnext := h.comma ⟨hnil, hg, hfits⟩ hc rest'
  by_cases hvalue : maskValue (gs ++ [g]) < 2 ^ n
  · exact ⟨rfl, hnil, hvalue, rest', rfl⟩
  · rw [List.append_nil] at hzero
    rw [if_neg hvalue, hzero] at hnext
    cases hnext

/-- Where the parser returns 0, it was given the text of a mask or one of the two kinds. -/
theorem accepted_cases {n : ℕ} {text : Bytes} {gs : List Bytes} {c : UInt8}
    {t nchunks nbits : ℕ} {maskp : Words} {buf : Bytes}
    (h : GroupsRead n gs nchunks nbits maskp) (hc : t = 0 ∨ isspace c = false)
    (hstart : gs = [] → ∀ x ∈ buf.head?, isspace x = false)
    (htext : text = heads gs ++ buf) (hzero : (parseLoop n c t nchunks nbits maskp buf).1 = 0) :
    (∃ gs g s tail, Layout text gs g s tail ∧ IsGroup g ∧ maskValue (gs ++ [g]) < 2 ^ n ∧
      AtEnd tail) ∨ EmbeddedSpace n text ∨ EndsInComma n text := by
  induction hlen : buf.length using Nat.strong_induction_on generalizing gs c t nchunks nbits maskp
    buf with
  | _ len ih =>
      obtain ⟨g, s, rest, hbuf, hg, hs, hfits, hturn⟩ := h.turn hc hzero
      have hlayout : Layout text gs g s rest := by
        refine ⟨h.groups, hg, hs, ?_⟩
        rw [htext, hbuf, List.append_assoc, List.append_assoc, List.append_assoc]
      obtain ⟨htail, hnil, hvalue⟩ | ⟨hspaces, x, rest', rfl, hx, hne⟩ |
        ⟨hspaces, hnil, hvalue, rest', rfl⟩ := hturn
      · exact .inl ⟨gs, g, s, rest, hlayout, ⟨hnil, hg, hfits⟩, hvalue, htail⟩
      · refine .inr (.inl ⟨gs, g, s, x, rest', hlayout, h.fits, hfits, ?_, hspaces, hx, hne⟩)
        by_contra hnone
        obtain ⟨hgs, hg'⟩ := not_or.mp hnone
        obtain ⟨d, s', rfl⟩ := List.exists_cons_of_ne_nil hspaces
        have hd := hstart (not_not.mp hgs) d (by rw [hbuf, not_not.mp hg']; rfl)
        exact absurd (hs d List.mem_cons_self) (by simp [hd])
      · rw [hspaces, List.append_nil] at hbuf
        have hnext := h.comma ⟨hnil, hg, hfits⟩ hc rest'
        rw [if_pos hvalue, ← hbuf] at hnext
        obtain ⟨nchunks', nbits', maskp', hread, heq⟩ := hnext
        have htext' : text = heads (gs ++ [g]) ++ rest' := by
          rw [htext, hbuf, heads_concat]
          simp
        by_cases hrest : rest' = []
        · -- the buffer ends behind the comma
          subst hrest
          refine .inr (.inr ⟨gs ++ [g], ⟨hread.groups, by simp, by simp, ?_⟩, by simp, hvalue⟩)
          simpa using htext'
        · rw [heq, if_pos hrest] at hzero
          refine ih rest'.length ?_ hread (.inr (by decide)) ?_ htext' hzero rfl
          · rw [← hlen, hbuf, List.length_append, List.length_cons]
            omega
          · intro hempty
            simp at hempty

/-! ## The grammar and the parser -/

/-- The parser accepts the texts of masks that fit, and then their value is in the mask. -/
def MeetsGrammar (buf : Bytes) (old : Words) (nmaskbits : ℕ) : Prop :=
  let r := bitmapParse buf old nmaskbits
  (r.1 = 0 ↔ ∃ gs, IsMaskText nmaskbits buf gs) ∧
    (r.1 = 0 → ∃ gs, IsMaskText nmaskbits buf gs ∧ Holds r.2 nmaskbits (maskValue gs))

theorem not_meetsGrammar_of_embedded {buf : Bytes} {old : Words} {nmaskbits : ℕ}
    (h : EmbeddedSpace nmaskbits (buf.dropWhile isspace)) : ¬MeetsGrammar buf old nmaskbits := by
  rintro ⟨haccept, -⟩
  obtain ⟨gs', hmask⟩ := haccept.mp (bitmapParse_embeddedSpace old h)
  obtain ⟨gs, g, s, tail, -, hlayout, -, -, htail⟩ := isMaskText_iff.mp hmask
  exact hlayout.not_embeddedSpace htail h

theorem not_meetsGrammar_of_comma {buf : Bytes} {old : Words} {nmaskbits : ℕ}
    (h : EndsInComma nmaskbits (buf.dropWhile isspace)) : ¬MeetsGrammar buf old nmaskbits := by
  rintro ⟨haccept, -⟩
  obtain ⟨gs', hmask⟩ := haccept.mp (bitmapParse_endsInComma old h)
  obtain ⟨gs, g, s, tail, -, hlayout, hg, -, htail⟩ := isMaskText_iff.mp hmask
  exact hlayout.not_endsInComma hg.nonempty htail h

/-- The parser meets its grammar but for embedded whitespace, after a beginning that is in
order, and a comma that ends the buffer. -/
theorem meetsGrammar_iff (buf : Bytes) (old : Words) (nmaskbits : ℕ) :
    MeetsGrammar buf old nmaskbits ↔
      ¬EmbeddedSpace nmaskbits (buf.dropWhile isspace) ∧
        ¬EndsInComma nmaskbits (buf.dropWhile isspace) := by
  constructor
  · intro hmeets
    exact ⟨fun hembedded => not_meetsGrammar_of_embedded hembedded hmeets,
      fun hcomma => not_meetsGrammar_of_comma hcomma hmeets⟩
  · rintro ⟨hembedded, hcomma⟩
    have hforward : ∀ gs', IsMaskText nmaskbits buf gs' → (bitmapParse buf old nmaskbits).1 = 0 ∧
        Holds (bitmapParse buf old nmaskbits).2 nmaskbits (maskValue gs') := by
      intro gs' hmask
      obtain ⟨gs, g, s, tail, rfl, hlayout, hg, hfits, htail⟩ := isMaskText_iff.mp hmask
      exact bitmapParse_layout old hlayout hg hfits htail
    have hback : (bitmapParse buf old nmaskbits).1 = 0 → ∃ gs, IsMaskText nmaskbits buf gs := by
      intro hzero
      obtain ⟨c, hparse⟩ := bitmapParse_eq buf old nmaskbits
      rw [hparse] at hzero
      have hstart : ∀ x ∈ (buf.dropWhile isspace).head?, isspace x = false := by
        intro x hx
        have hnot := List.head?_dropWhile_not isspace buf
        rw [Option.mem_def.mp hx] at hnot
        exact hnot
      obtain ⟨gs, g, s, tail, hlayout, hg, hfits, htail⟩ | hbad | hbad :=
        accepted_cases (groupsRead_start nmaskbits old) (.inl rfl) (fun _ => hstart) rfl hzero
      · exact ⟨gs ++ [g], isMaskText_iff.mpr ⟨gs, g, s, tail, rfl, hlayout, hg, hfits, htail⟩⟩
      · exact absurd hbad hembedded
      · exact absurd hbad hcomma
    refine ⟨⟨hback, fun ⟨gs, hmask⟩ => (hforward gs hmask).1⟩, fun hzero => ?_⟩
    obtain ⟨gs, hmask⟩ := hback hzero
    exact ⟨gs, hmask, (hforward gs hmask).2⟩

/-- For a mask of 64 bits the texts "1 2" and "5,", without a NUL, are accepted. -/
theorem not_meetsGrammar :
    ¬MeetsGrammar (chars ['1', ' ', '2']) (fun _ => 0) 64 ∧
      ¬MeetsGrammar (chars ['5', ',']) (fun _ => 0) 64 := by
  constructor
  · apply not_meetsGrammar_of_embedded
    have hdigit : ∀ c ∈ [49], isxdigit c = true := List.forall_mem_singleton.mpr (by decide)
    have hspace : ∀ c ∈ [32], isspace c = true := List.forall_mem_singleton.mpr (by decide)
    refine ⟨[], [49], [32], 50, [], ⟨by simp, hdigit, hspace, by decide⟩, ?_⟩
    exact ⟨by decide, by decide, .inr (by simp), by simp, by decide, by decide⟩
  · apply not_meetsGrammar_of_comma
    have hgroup : IsGroup [53] := ⟨by simp, List.forall_mem_singleton.mpr (by decide), by decide⟩
    exact ⟨[[53]], ⟨by simpa using hgroup, by simp, by simp, by decide⟩, by simp, by decide⟩

end CodeAnalyze.Irqbalance
