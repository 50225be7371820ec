import CodeAnalyze.Irqbalance.Activate
import CodeAnalyze.Irqbalance.MaskParse

/-!
# CPU masks as text

The parser gets back what the printer wrote, and so `check_affinity` reads the mask that
`activate_mapping` wrote.
-/

namespace CodeAnalyze.Irqbalance

theorem length_rowText_le (vs : List ℕ) : (rowText vs).length ≤ 9 * vs.length := by
  have htail (vs : List ℕ) : (tailText vs).length = 9 * vs.length := by
    induction vs with
    | nil => rfl
    | cons v vs ih =>
        rw [tailText, List.flatMap_cons, List.length_append, List.length_cons, length_hex8]
        rw [tailText] at ih
        rw [ih, List.length_cons]
        omega
  cases vs with
  | nil => exact Nat.le_refl 0
  | cons v vs =>
      rw [rowText, List.length_append, length_hex8, htail, List.length_cons]
      omega

/-- The text of a mask has no NUL. -/
theorem rowText_ne_zero (vs : List ℕ) : ∀ c ∈ rowText vs, c ≠ 0 := by
  have hdigits (v : ℕ) : ∀ c ∈ hex8 v, c ≠ 0 := by
    intro c hc
    obtain ⟨d, hd, rfl⟩ := List.mem_map.mp hc
    exact (hexDigit_spec d (Lib.lt_of_mem_digitRow (by decide) hd)).2.1
  cases vs with
  | nil =>
      intro c hc
      cases hc
  | cons v vs =>
      intro c hc
      rcases List.mem_append.mp hc with hfirst | htail
      · exact hdigits v c hfirst
      · obtain ⟨w, -, hw⟩ := List.mem_flatMap.mp htail
        rcases List.mem_cons.mp hw with rfl | hrest
        · decide
        · exact hdigits w c hrest

/-- What `activate_mapping` writes to the file: `cpumask_scnprintf` and `fprintf`, with a
buffer of `PATH_MAX` characters. -/
def smpAffinityText (buf : ℕ → UInt8) (appliedMask : Words) : Bytes :=
  cstr (bytes (bitmapScnprintf buf 4096 appliedMask nrCpus).1 4096)

/-- What `check_affinity` makes of a line of the file: `cpumask_parse_user`. -/
def smpAffinityMask (line : Bytes) (currentMask : Words) : Words :=
  (bitmapParse line currentMask nrCpus).2

/-- The words of a `cpumask_t`. -/
def IsMask (maskp : Words) (mask : Cpumask) : Prop :=
  ∀ i < nrCpus, testBit maskp i = mask.getLsbD i

theorem bytes_split (buf : ℕ → UInt8) {len size : ℕ} (h : len < size) :
    bytes buf size =
      bytes buf len ++ buf len :: (List.range (size - len - 1)).map fun k => buf (len + 1 + k) := by
  have hsize : size = len + (1 + (size - len - 1)) := by omega
  conv_lhs => rw [hsize]
  simp [bytes, List.range_add, Nat.add_assoc]

theorem smpAffinityText_eq (buf : ℕ → UInt8) (maskp : Words) :
    smpAffinityText buf maskp = rowText (printed maskp 128 true) := by
  have hcpus : nrCpus = 32 * 128 := rfl
  have htext : loopText maskp 128 true = rowText (printed maskp 128 true) := rfl
  have hlen := length_rowText_le (printed maskp 128 true)
  have hcount := (getD_printed maskp 128 true).1
  have hfits : 0 + (loopText maskp 128 true).length < (4096 : UInt32).toNat := by
    rw [htext]
    simp only [UInt32.reduceToNat]
    omega
  obtain ⟨hbytes, hend⟩ := scnprintfLoop_spec 4096 maskp buf hfits
  have hne : loopText maskp 128 true ≠ [] := by
    obtain ⟨v, vs, hprinted, -⟩ := printed_first maskp (by decide : 0 < 128)
    rw [htext, hprinted]
    exact rowText_ne_nil v vs
  have hnul := hend (.inl hne)
  rw [Nat.zero_add, htext] at hbytes hnul hfits
  rw [show bytes buf 0 = [] from rfl, List.nil_append] at hbytes
  have hshort : (rowText (printed maskp 128 true)).length < 4096 := hfits
  unfold smpAffinityText cstr
  rw [hcpus, bitmapScnprintf_eq, bytes_split _ hshort, hbytes, hnul,
    List.takeWhile_append_of_pos (by simpa using rowText_ne_zero _)]
  simp

/-- What is printed of a bitmap is parsed to the same bitmap, for every width that is a
multiple of 32 and every buffer in which the text fits; and the mask that
`activate_mapping` writes is the mask that `check_affinity` reads. -/
theorem mask_text_round_trip {nmaskbits : ℕ} (hpos : 0 < nmaskbits) (hwidth : nmaskbits % 32 = 0)
    (maskp old : Words) (buf : ℕ → UInt8) {buflen : UInt32}
    (hfits : (bitmapScnprintf buf buflen maskp nmaskbits).2 < buflen.toNat) :
    ((bitmapParse (bytes (bitmapScnprintf buf buflen maskp nmaskbits).1
        (bitmapScnprintf buf buflen maskp nmaskbits).2) old nmaskbits).1 = 0 ∧
      ∀ i < bitsPerLong * bitsToLongs nmaskbits,
        testBit (bitmapParse (bytes (bitmapScnprintf buf buflen maskp nmaskbits).1
            (bitmapScnprintf buf buflen maskp nmaskbits).2) old nmaskbits).2 i =
          (decide (i < nmaskbits) && testBit maskp i)) ∧
    ∀ (buf : ℕ → UInt8) (applied read : Words) (mask current : Cpumask), IsMask applied mask →
      IsMask (smpAffinityMask (smpAffinityText buf applied) read) current →
      ∀ writable, State.checkAffinity { current := some current, writable } mask = true := by
  obtain ⟨n, rfl⟩ := Nat.dvd_of_mod_eq_zero hwidth
  have hbits (maskp old : Words) {n : ℕ} (hn : 0 < n) {i : ℕ}
      (hi : i < bitsPerLong * bitsToLongs (32 * n)) :
      testBit (bitmapParse (rowText (printed maskp n true)) old (32 * n)).2 i =
        (decide (i < 32 * n) && testBit maskp i) := by
    have hj : i / 32 < 2 * bitsToLongs (32 * n) := by
      simp only [bitsPerLong] at hi
      omega
    rw [testBit_eq_half, (bitmapParse_rowText maskp old hn).2 _ hj, testBit_eq_half maskp]
    by_cases hin : i < 32 * n
    · rw [if_pos (by omega), decide_eq_true hin, Bool.true_and]
    · rw [if_neg (by omega), decide_eq_false hin, Bool.false_and, Nat.zero_testBit]
  refine ⟨?_, ?_⟩
  · have hlen := length_scnprintfLoop buflen maskp n true buf 0
    rw [bitmapScnprintf_eq] at hfits ⊢
    rw [hlen] at hfits ⊢
    have hbytes := (scnprintfLoop_spec buflen maskp buf hfits).1
    rw [hbytes]
    exact ⟨(bitmapParse_rowText maskp old (by omega)).1, fun i hi => hbits maskp old (by omega) hi⟩
  · intro buf applied read mask current happlied hcurrent writable
    have hsame : mask = current := by
      apply BitVec.eq_of_getLsbD_eq
      intro i hi
      have hcpus : nrCpus = 32 * 128 := rfl
      have hin : i < bitsPerLong * bitsToLongs (32 * 128) := hi
      rw [← happlied i hi, ← hcurrent i hi, smpAffinityText_eq, smpAffinityMask, hcpus,
        hbits applied read (by decide) hin, decide_eq_true (hcpus ▸ hi), Bool.true_and]
    rw [hsame]
    simp [State.checkAffinity]

/-- A bitmap of 96 bits in which the lowest chunk and one above it have bits. -/
def sparseMask : Words := fun k => if k = 0 then 0x5 else if k = 1 then 0x80000001 else 0

/-- It is printed as `80000001,00000000,00000005`. -/
theorem mask_text_round_trip_sparse :
    ((bitmapParse (bytes (bitmapScnprintf (fun _ => 0) 100 sparseMask 96).1
        (bitmapScnprintf (fun _ => 0) 100 sparseMask 96).2) (fun _ => 7) 96).1 = 0 ∧
      ∀ i < bitsPerLong * bitsToLongs 96,
        testBit (bitmapParse (bytes (bitmapScnprintf (fun _ => 0) 100 sparseMask 96).1
            (bitmapScnprintf (fun _ => 0) 100 sparseMask 96).2) (fun _ => 7) 96).2 i =
          (decide (i < 96) && testBit sparseMask i)) ∧
    ∀ (buf : ℕ → UInt8) (applied read : Words) (mask current : Cpumask), IsMask applied mask →
      IsMask (smpAffinityMask (smpAffinityText buf applied) read) current →
      ∀ writable, State.checkAffinity { current := some current, writable } mask = true :=
  mask_text_round_trip (by decide) (by decide) sparseMask (fun _ => 7) (fun _ => 0)
    (by decide +kernel)

end CodeAnalyze.Irqbalance
