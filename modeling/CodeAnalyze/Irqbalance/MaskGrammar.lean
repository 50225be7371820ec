import CodeAnalyze.Irqbalance.Bitmap
import CodeAnalyze.Lib.Digits
import Mathlib.Data.List.DropRight

/-!
# The texts of masks

What the comment on `__bitmap_parse` says is a mask: groups of hexadecimal digits with
commas between them, whitespace at both ends and nowhere else.  A text is the buffer up to
its first NUL.
-/

namespace CodeAnalyze.Irqbalance

open Lib (rowValue)

/-! ## Groups of digits -/

/-- The value of a hexadecimal digit. -/
def hexValue (c : UInt8) : ℕ :=
  if c ≤ 57 then c.toNat - 48 else if c ≤ 70 then c.toNat - 55 else c.toNat - 87

def groupValue (g : Bytes) : ℕ := rowValue 16 (g.map hexValue)

/-- The groups are the digits to the base `2 ^ 32`. -/
def maskValue (gs : List Bytes) : ℕ := rowValue (2 ^ 32) (gs.map groupValue)

structure IsGroup (g : Bytes) : Prop where
  nonempty : g ≠ []
  digits : ∀ c ∈ g, isxdigit c = true
  fits : groupValue g < 2 ^ 32

/-- The text is the list of the groups, with commas between them. -/
structure IsMaskList (text : Bytes) (gs : List Bytes) : Prop where
  nonempty : gs ≠ []
  groups : ∀ g ∈ gs, IsGroup g
  text_eq : text = [44].intercalate gs

/-- A text without the whitespace at both ends. -/
def trim (s : Bytes) : Bytes := (s.dropWhile isspace).rdropWhile isspace

/-- The buffer has the text of a mask, which fits into `n` bits. -/
def IsMaskText (n : ℕ) (buf : Bytes) (gs : List Bytes) : Prop :=
  IsMaskList (trim (cstr buf)) gs ∧ maskValue gs < 2 ^ n

@[simp] theorem maskValue_nil : maskValue [] = 0 := rfl

theorem maskValue_concat (gs : List Bytes) (g : Bytes) :
    maskValue (gs ++ [g]) = maskValue gs * 2 ^ 32 + groupValue g := by
  rw [maskValue, List.map_append, List.map_singleton, Lib.rowValue_concat]
  rfl

theorem maskValue_le_append (gs more : List Bytes) : maskValue gs ≤ maskValue (gs ++ more) := by
  rw [maskValue, maskValue, List.map_append]
  exact Lib.rowValue_le_append (by decide) _ _

/-! ## Characters -/

/-- What a digit is for the parser. -/
theorem xdigit_spec {c : UInt8} (h : isxdigit c = true) :
    isspace c = false ∧ c ≠ 0 ∧ c ≠ 44 ∧ (unhex c).toNat = hexValue c ∧ hexValue c < 16 := by
  have hall : ∀ n < 256, isxdigit n.toUInt8 = true → isspace n.toUInt8 = false ∧
      n.toUInt8 ≠ 0 ∧ n.toUInt8 ≠ 44 ∧ (unhex n.toUInt8).toNat = hexValue n.toUInt8 ∧
        hexValue n.toUInt8 < 16 := by
    decide +kernel
  have hc : c.toNat.toUInt8 = c := UInt8.ofNat_toNat
  have := hall c.toNat c.toNat_lt
  rw [hc] at this
  exact this h

theorem ne_zero_of_isspace {c : UInt8} (h : isspace c = true) : c ≠ 0 := by
  rintro rfl
  exact absurd h (by decide)

/-- Digits and commas. -/
def isword (c : UInt8) : Bool := isxdigit c || c == 44

theorem isword_spec {c : UInt8} (h : isword c = true) : isspace c = false ∧ c ≠ 0 := by
  rcases Bool.or_eq_true_iff.mp h with hdigit | hcomma
  · exact ⟨(xdigit_spec hdigit).1, (xdigit_spec hdigit).2.1⟩
  · rw [eq_of_beq hcomma]
    decide

/-! ## The beginning of a list -/

/-- Groups with a comma behind each. -/
def heads (gs : List Bytes) : Bytes := gs.flatMap (· ++ [44])

@[simp] theorem heads_nil : heads [] = [] := rfl

theorem heads_concat (gs : List Bytes) (g : Bytes) : heads (gs ++ [g]) = heads gs ++ g ++ [44] := by
  simp [heads]

theorem intercalate_concat (gs : List Bytes) (g : Bytes) :
    [44].intercalate (gs ++ [g]) = heads gs ++ g := by
  induction gs with
  | nil => simp [heads, List.intercalate]
  | cons g' gs ih =>
      obtain ⟨h, t, hcons⟩ : ∃ h t, gs ++ [g] = h :: t := List.exists_cons_of_ne_nil (by simp)
      rw [List.cons_append, hcons, List.intercalate_cons_cons, ← hcons, ih]
      simp [heads]

theorem isword_of_mem_heads {gs : List Bytes} (h : ∀ g ∈ gs, IsGroup g) {c : UInt8}
    (hc : c ∈ heads gs) : isword c = true := by
  obtain ⟨g, hg, hcg⟩ := List.mem_flatMap.mp hc
  rcases List.mem_append.mp hcg with hin | hcomma
  · rw [isword, (h g hg).digits c hin, Bool.true_or]
  · rw [List.mem_singleton.mp hcomma]
    rfl

/-- Digits and commas only. -/
theorem isword_of_mem {gs : List Bytes} {g : Bytes} (h : ∀ g ∈ gs, IsGroup g)
    (hg : ∀ c ∈ g, isxdigit c = true) {c : UInt8} (hc : c ∈ heads gs ++ g) : isword c = true := by
  rcases List.mem_append.mp hc with hhead | hlast
  · exact isword_of_mem_heads h hhead
  · rw [isword, hg c hlast, Bool.true_or]

/-! ## What stands in a buffer -/

/-- Groups with a comma behind each, then digits, whitespace and what follows. -/
structure Layout (text : Bytes) (gs : List Bytes) (g s tail : Bytes) : Prop where
  groups : ∀ g' ∈ gs, IsGroup g'
  digits : ∀ c ∈ g, isxdigit c = true
  spaces : ∀ c ∈ s, isspace c = true
  text_eq : text = heads gs ++ g ++ s ++ tail

/-- The buffer ends, or the text in it. -/
def AtEnd (tail : Bytes) : Prop := ∀ x ∈ tail.head?, x = 0

/-- After a beginning that is in order, the text goes on behind whitespace. -/
def EmbeddedSpace (n : ℕ) (text : Bytes) : Prop :=
  ∃ gs g s x rest, Layout text gs g s (x :: rest) ∧ maskValue gs < 2 ^ n ∧
    groupValue g < 2 ^ 32 ∧ (gs ≠ [] ∨ g ≠ []) ∧ s ≠ [] ∧ isspace x = false ∧ x ≠ 0

/-- Groups that are in order fill the buffer, and the last one has a comma behind it. -/
def EndsInComma (n : ℕ) (text : Bytes) : Prop :=
  ∃ gs, Layout text gs [] [] [] ∧ gs ≠ [] ∧ maskValue gs < 2 ^ n

section
variable {text g s tail : Bytes} {gs : List Bytes}

theorem Layout.isword (h : Layout text gs g s tail) {c : UInt8} (hc : c ∈ heads gs ++ g) :
    isword c = true :=
  isword_of_mem h.groups h.digits hc

/-- A list is divided in one way into elements of a kind and what follows them. -/
theorem append_inj_of_head {p : UInt8 → Bool} {a b a' b' : Bytes} (h : a ++ b = a' ++ b')
    (ha : ∀ c ∈ a, p c = true) (ha' : ∀ c ∈ a', p c = true) (hb : ∀ c ∈ b.head?, p c = false)
    (hb' : ∀ c ∈ b'.head?, p c = false) : a = a' ∧ b = b' := by
  have htake : ∀ a b : Bytes, (∀ c ∈ a, p c = true) → (∀ c ∈ b.head?, p c = false) →
      (a ++ b).takeWhile p = a := by
    intro a b ha hb
    rw [List.takeWhile_append_of_pos ha]
    cases b with
    | nil => simp
    | cons c b => rw [List.takeWhile_cons_of_neg (by simp [hb c rfl]), List.append_nil]
  have heq : a = a' := by rw [← htake a b ha hb, h, htake a' b' ha' hb']
  rw [heq] at h
  exact ⟨heq, List.append_cancel_left h⟩

/-- Behind the digits there is no word, if the text ends behind the whitespace or whitespace
follows. -/
theorem Layout.head_not_isword (h : Layout text gs g s tail) (htail : AtEnd tail ∨ s ≠ []) :
    ∀ c ∈ (s ++ tail).head?, CodeAnalyze.Irqbalance.isword c = false := by
  intro c hc
  cases hs : s with
  | nil =>
      rw [hs, List.nil_append] at hc
      rcases htail with hend | hne
      · rw [hend c hc]
        decide
      · exact absurd hs hne
  | cons d s' =>
      have hd : c = d := by
        rw [hs] at hc
        exact (Option.mem_some.mp hc).symm
      have hspace : isspace c = true := by
        rw [hd]
        exact h.spaces d (by rw [hs]; exact List.mem_cons_self)
      by_contra hword
      rw [Bool.not_eq_false] at hword
      exact absurd hspace (by simp [(isword_spec hword).1])

/-- The text of a mask goes on nowhere. -/
theorem Layout.not_embeddedSpace (h : Layout text gs g s tail) (htail : AtEnd tail) {n : ℕ} :
    ¬EmbeddedSpace n text := by
  rintro ⟨gs', g', s', x, rest, h', -, -, -, hs', hx, hne⟩
  have hsame : heads gs ++ g ++ (s ++ tail) = heads gs' ++ g' ++ (s' ++ x :: rest) := by
    rw [← List.append_assoc, ← h.text_eq, h'.text_eq, List.append_assoc _ s']
  obtain ⟨-, hrest⟩ := append_inj_of_head hsame (fun c => h.isword) (fun c => h'.isword)
    (h.head_not_isword (.inl htail)) (h'.head_not_isword (.inr hs'))
  have hnul : ∀ c ∈ tail.head?, isspace c = false := by
    intro c hc
    rw [htail c hc]
    decide
  obtain ⟨-, hend⟩ := append_inj_of_head hrest h.spaces h'.spaces hnul
    (fun c hc => Option.mem_some.mp hc ▸ hx)
  exact hne (htail x (by rw [hend]; rfl))

/-- The text of a mask does not end in a comma. -/
theorem Layout.not_endsInComma (h : Layout text gs g s tail) (hg : g ≠ []) (htail : AtEnd tail)
    {n : ℕ} : ¬EndsInComma n text := by
  rintro ⟨gs', h', hgs', -⟩
  have hsame : heads gs ++ g ++ (s ++ tail) = heads gs' ++ [] := by
    rw [← List.append_assoc, ← h.text_eq, h'.text_eq, List.append_nil, List.append_nil]
  obtain ⟨hhead, -⟩ := append_inj_of_head hsame (fun c => h.isword)
    (fun c => isword_of_mem_heads h'.groups) (h.head_not_isword (.inl htail))
    (fun c hc => by cases hc)
  obtain ⟨before, last, hlast⟩ := (List.eq_nil_or_concat' gs').resolve_left hgs'
  obtain ⟨front, d, hfront⟩ := (List.eq_nil_or_concat' g).resolve_left hg
  have hends : heads gs ++ front ++ [d] = heads before ++ last ++ [44] := by
    rw [List.append_assoc, ← hfront, hhead, hlast, heads_concat]
  have hd : d = 44 := by
    have := congrArg List.getLast? hends
    rw [List.getLast?_concat, List.getLast?_concat] at this
    exact Option.some.inj this
  have hdigit := h.digits d (by rw [hfront]; exact List.mem_append_right _ List.mem_cons_self)
  exact (xdigit_spec hdigit).2.2.1 hd

end

/-! ## Texts of masks -/

theorem dropWhile_eq_self {p : UInt8 → Bool} {l : Bytes} (h : ∀ c ∈ l, p c = false) :
    l.dropWhile p = l := by
  cases l with
  | nil => rfl
  | cons c l => rw [List.dropWhile_cons_of_neg (by simp [h c List.mem_cons_self])]

theorem trim_eq {lead body s : Bytes} (hlead : ∀ c ∈ lead, isspace c = true)
    (hbody : ∀ c ∈ body, isspace c = false) (hs : ∀ c ∈ s, isspace c = true) (hne : body ≠ []) :
    trim (lead ++ (body ++ s)) = body := by
  have hstart : (lead ++ (body ++ s)).dropWhile isspace = body ++ s := by
    rw [List.dropWhile_append_of_pos hlead, List.dropWhile_append, dropWhile_eq_self hbody]
    simp [hne]
  rw [trim, hstart, List.rdropWhile, List.reverse_append,
    List.dropWhile_append_of_pos (fun c hc => hs c (List.mem_reverse.mp hc)),
    dropWhile_eq_self (fun c hc => hbody c (List.mem_reverse.mp hc)), List.reverse_reverse]

/-- A buffer up to its first NUL. -/
theorem cstr_append {u tail : Bytes} (hu : ∀ c ∈ u, c ≠ 0) (htail : AtEnd tail) :
    cstr (u ++ tail) = u := by
  rw [cstr, List.takeWhile_append_of_pos (by simpa using hu)]
  cases tail with
  | nil => simp
  | cons x tail => rw [List.takeWhile_cons_of_neg (by simp [htail x rfl]), List.append_nil]

/-- Where the text of a mask stands in the buffer. -/
theorem isMaskText_iff {n : ℕ} {buf : Bytes} {gs' : List Bytes} :
    IsMaskText n buf gs' ↔
      ∃ gs g s tail, gs' = gs ++ [g] ∧ Layout (buf.dropWhile isspace) gs g s tail ∧ IsGroup g ∧
        maskValue (gs ++ [g]) < 2 ^ n ∧ AtEnd tail := by
  constructor
  · rintro ⟨⟨hne, hgroups, htext⟩, hvalue⟩
    obtain ⟨gs, g, rfl⟩ := (List.eq_nil_or_concat' gs').resolve_left hne
    rw [intercalate_concat] at htext
    have hg : IsGroup g := hgroups g (by simp)
    obtain ⟨u, hu⟩ : ∃ u, u = (cstr buf).dropWhile isspace := ⟨_, rfl⟩
    have hsplit : u = heads gs ++ g ++ u.rtakeWhile isspace := by
      rw [← htext, trim, ← hu]
      exact List.rdropWhile_append_rtakeWhile.symm
    have hune : u ≠ [] := by
      rw [hsplit]
      simp [hg.nonempty]
    refine ⟨gs, g, u.rtakeWhile isspace, buf.dropWhile (· ≠ 0), rfl,
      ⟨fun g' hg' => hgroups g' (by simp [hg']), hg.digits, fun c => List.mem_rtakeWhile_imp, ?_⟩,
      hg, hvalue, ?_⟩
    · -- the layout starts behind the leading spaces, and the rest starts at the NUL
      rw [← hsplit, hu]
      conv_lhs => rw [← List.takeWhile_append_dropWhile (p := (· ≠ 0)) (l := buf)]
      rw [List.dropWhile_append, if_neg]
      · rfl
      · simpa [hu, cstr] using hune
    · intro x hx
      have hnot := List.head?_dropWhile_not (fun c : UInt8 => c ≠ 0) buf
      rw [Option.mem_def.mp hx] at hnot
      simpa using hnot
  · rintro ⟨gs, g, s, tail, rfl, hlayout, hg, hvalue, htail⟩
    refine ⟨⟨by simp, ?_, ?_⟩, hvalue⟩
    · intro g' hg'
      rcases List.mem_append.mp hg' with hin | hlast
      · exact hlayout.groups g' hin
      · exact List.mem_singleton.mp hlast ▸ hg
    · have hlead : ∀ c ∈ buf.takeWhile isspace, isspace c = true := fun c => List.mem_takeWhile_imp
      have hbuf : buf = buf.takeWhile isspace ++ (heads gs ++ g ++ s) ++ tail := by
        rw [List.append_assoc, ← hlayout.text_eq, List.takeWhile_append_dropWhile]
      -- the text of the mask holds no NUL, so the string is all of it
      have hnul : ∀ c ∈ buf.takeWhile isspace ++ (heads gs ++ g ++ s), c ≠ 0 := by
        intro c hc
        rcases List.mem_append.mp hc with hin | hin
        · exact ne_zero_of_isspace (hlead c hin)
        · rcases List.mem_append.mp hin with hword | hspace
          · exact (isword_spec (hlayout.isword hword)).2
          · exact ne_zero_of_isspace (hlayout.spaces c hspace)
      have hcstr : cstr buf = buf.takeWhile isspace ++ (heads gs ++ g ++ s) := by
        conv_lhs => rw [hbuf]
        exact cstr_append hnul htail
      rw [hcstr, intercalate_concat]
      exact trim_eq hlead (fun c hc => (isword_spec (hlayout.isword hc)).1) hlayout.spaces
        (by simp [hg.nonempty])

end CodeAnalyze.Irqbalance
