import CodeAnalyze.Irqbalance.CString
import CodeAnalyze.Lib.Digits
import Mathlib.Data.List.TakeWhile

/-!
# Lines in a buffer, numbers in a line

`fgets` hands a line over in pieces of the size of its buffer.  What `strtoul` makes of
a decimal number is the number, as long as an `int` holds it.
-/

namespace CodeAnalyze.Irqbalance

open Lib

variable {size room : ℕ} {buffer line rest : Bytes}

/-! ## The pieces of a line -/

/-- The pieces of a text are those of its first line and those of the rest. -/
theorem fgetsFill_append_newline (hline : 10 ∉ line) :
    fgetsFill size room buffer (line ++ 10 :: rest) =
      fgetsFill size room buffer (line ++ [10]) ++ fgetsChunks size rest := by
  induction line generalizing room buffer with
  | nil => simp [fgetsFill, fgetsChunks]
  | cons c line ih =>
      rw [List.mem_cons, not_or] at hline
      simp only [List.cons_append, fgetsFill]
      split
      · rw [ih hline.2]
        rfl
      · exact ih hline.2

/-- The newline at the end of a line makes no difference to a reader that stops at it. -/
theorem foldl_fgetsFill_newline {σ : Type*} {step : σ → Bytes → σ} (hempty : ∀ s, step s [] = s)
    (hnewline : ∀ s piece, 10 ∉ piece → step s (piece ++ [10]) = step s piece) {s : σ}
    (hline : 10 ∉ line) (hbuffer : 10 ∉ buffer) :
    (fgetsFill size room buffer (line ++ [10])).foldl step s =
      (fgetsFill size room buffer line).foldl step s := by
  induction line generalizing room buffer s with
  | nil =>
      simp only [List.nil_append, fgetsFill, true_or, if_true, List.isEmpty_nil, List.foldl_cons,
        List.foldl_nil, hnewline s buffer hbuffer]
      split
      · rename_i hnil
        rw [List.isEmpty_iff.mp hnil, hempty]
        rfl
      · rfl
  | cons c line ih =>
      rw [List.mem_cons, not_or] at hline
      have hlonger : 10 ∉ buffer ++ [c] := by simp [hbuffer, hline.1]
      simp only [List.cons_append, fgetsFill]
      split
      · exact ih hline.2 (List.not_mem_nil)
      · exact ih hline.2 hlonger

/-- A line without its newline is cut wherever the buffer is full. -/
theorem fgetsFill_line (hline : 10 ∉ line) (hroom : 0 < room) :
    fgetsFill size room buffer line =
      if line.length < room then if (buffer ++ line).isEmpty then [] else [buffer ++ line]
      else (buffer ++ line.take room) :: fgetsChunks size (line.drop room) := by
  induction line generalizing room buffer with
  | nil => simp [fgetsFill, hroom]
  | cons c line ih =>
      rw [List.mem_cons, not_or] at hline
      simp only [fgetsFill]
      by_cases hfull : room ≤ 1
      · obtain rfl : room = 1 := by omega
        simp [fgetsChunks]
      · obtain ⟨room, rfl⟩ : ∃ k, room = k + 1 := ⟨room - 1, by omega⟩
        rw [if_neg (by simp [hfull, Ne.symm hline.1]), Nat.add_sub_cancel,
          ih hline.2 (by omega)]
        simp [List.append_assoc]

theorem fgetsChunks_short (hline : 10 ∉ line) (hsize : line.length ≤ size) (hne : line ≠ []) :
    fgetsChunks size line = [line] := by
  have hpos : 0 < line.length := List.length_pos_of_ne_nil hne
  rw [fgetsChunks, fgetsFill_line hline (by omega)]
  split
  · simp [hne]
  · rw [List.take_of_length_le hsize, List.drop_of_length_le hsize]
    rfl

theorem fgetsChunks_long (hline : 10 ∉ line) (hpos : 0 < size) (hsize : size < line.length) :
    fgetsChunks size line = line.take size :: fgetsChunks size (line.drop size) := by
  rw [fgetsChunks, fgetsFill_line hline hpos, if_neg (by omega)]
  rfl

/-- The bytes of the pieces are those of the line. -/
theorem mem_of_mem_fgetsFill {piece : Bytes} {c : UInt8}
    (hpiece : piece ∈ fgetsFill size room buffer line) (hc : c ∈ piece) :
    c ∈ buffer ∨ c ∈ line := by
  induction line generalizing room buffer with
  | nil =>
      unfold fgetsFill at hpiece
      split at hpiece
      · cases hpiece
      · rw [List.mem_singleton.mp hpiece] at hc
        exact .inl hc
  | cons b line ih =>
      have hlonger : c ∈ buffer ++ [b] → c ∈ buffer ∨ c ∈ b :: line := by
        intro h
        rcases List.mem_append.mp h with h | h
        · exact .inl h
        · exact .inr (List.mem_cons.mpr (.inl (List.mem_singleton.mp h)))
      unfold fgetsFill at hpiece
      split at hpiece
      · rcases List.mem_cons.mp hpiece with rfl | hpiece
        · exact hlonger hc
        · rcases ih hpiece with h | h
          · cases h
          · exact .inr (List.mem_cons_of_mem _ h)
      · rcases ih hpiece with h | h
        · exact hlonger h
        · exact .inr (List.mem_cons_of_mem _ h)

/-! ## Decimal numbers -/

theorem digitsValue_eq (digits : Bytes) :
    digitsValue digits = rowValue 10 (digits.map fun c => c.toNat - 48) := by
  simp only [digitsValue, rowValue, List.foldl_map, Nat.mul_comm 10]

/-- The first digits of a number are worth less than the number, unless it is zero. -/
theorem digitsValue_take_lt (digits : Bytes) (k : ℕ) (hk : k < digits.length)
    (hpos : 0 < digitsValue digits) : digitsValue (digits.take k) < digitsValue digits := by
  have hsplit : digitsValue digits =
      digitsValue (digits.take k) * 10 ^ (digits.drop k).length + digitsValue (digits.drop k) := by
    rw [digitsValue_eq, digitsValue_eq, digitsValue_eq, ← List.length_map, ← rowValue_append,
      ← List.map_append, List.take_append_drop]
  have hlength : (digits.drop k).length ≠ 0 := by
    rw [List.length_drop]
    omega
  obtain ⟨m, hm⟩ := Nat.exists_eq_succ_of_ne_zero hlength
  have hten : 10 ≤ 10 ^ (digits.drop k).length := by
    rw [hm, Nat.pow_succ]
    exact Nat.le_mul_of_pos_left 10 (Nat.pow_pos (by decide))
  have hle : digitsValue (digits.take k) * 10 ≤
      digitsValue (digits.take k) * 10 ^ (digits.drop k).length := Nat.mul_le_mul_left _ hten
  omega

/-- The sign of a number, as it is written. -/
inductive SignText : Bool → Bytes → Prop
  | minus : SignText true [45]
  | plus : SignText false [43]
  | none : SignText false []

/-- The number a row of digits stands for. -/
def signed (minus : Bool) (digits : Bytes) : ℤ :=
  if minus then -(digitsValue digits : ℤ) else digitsValue digits

/-- A decimal integer: digits, with a sign or without. -/
def decimal (text : Bytes) : Option ℤ :=
  if !(readSign text).2.isEmpty && (readSign text).2.all isdigit then
    some (signed (readSign text).1 (readSign text).2)
  else none

/-- An `int` holds it. -/
def IsInt (v : ℤ) : Prop := -2 ^ 31 ≤ v ∧ v < 2 ^ 31

theorem ne_of_isdigit {c d : UInt8} (hc : isdigit c) (hd : isdigit d = false) : c ≠ d := by
  rintro rfl
  rw [hc] at hd
  cases hd

section Number

variable {minus : Bool} {sign digits : Bytes} {v : ℤ} (hsign : SignText minus sign)
  (hne : digits ≠ []) (hdigits : ∀ c ∈ digits, isdigit c)
include hsign hne hdigits

theorem readSign_append : readSign (sign ++ digits) = (minus, digits) := by
  cases hsign with
  | minus => rfl
  | plus => rfl
  | none =>
      obtain ⟨c, rest, rfl⟩ := List.exists_cons_of_ne_nil hne
      have hc := hdigits c List.mem_cons_self
      rw [List.nil_append]
      unfold readSign
      split
      · rename_i heq
        exact absurd (List.cons.inj heq).1 (ne_of_isdigit hc (by decide))
      · rename_i heq
        exact absurd (List.cons.inj heq).1 (ne_of_isdigit hc (by decide))
      · rfl

/-- `strtoul` finds the digits. -/
theorem strtoul_append :
    strtoul (sign ++ digits) = UInt64.ofNat (
      if digitsValue digits < 2 ^ 64 then
        (if minus then (2 ^ 64 - digitsValue digits) % 2 ^ 64 else digitsValue digits)
      else 2 ^ 64 - 1) := by
  have hspaces : (sign ++ digits).dropWhile isspace = sign ++ digits := by
    cases hsign with
    | minus => rfl
    | plus => rfl
    | none =>
        obtain ⟨c, rest, rfl⟩ := List.exists_cons_of_ne_nil hne
        refine List.dropWhile_cons_of_neg fun hspace => ?_
        have hc := hdigits c List.mem_cons_self
        simp only [isspace, isdigit, Bool.or_eq_true, Bool.and_eq_true, beq_iff_eq,
          decide_eq_true_eq, UInt8.le_iff_toNat_le] at hspace hc
        rcases hspace with rfl | hspace
        · revert hc
          decide
        · have h13 : (13 : UInt8).toNat = 13 := rfl
          have h48 : (48 : UInt8).toNat = 48 := rfl
          omega
  have hall : digits.takeWhile isdigit = digits := List.takeWhile_eq_self_iff.mpr hdigits
  unfold strtoul strtoull
  rw [hspaces, readSign_append hsign hne hdigits]
  dsimp only
  rw [hall, if_neg (by simpa using hne)]
  rfl

/-- The number, where an `int` holds it. -/
theorem toInt_strtoul_append (hint : IsInt (signed minus digits)) :
    toInt (strtoul (sign ++ digits)) = signed minus digits := by
  rw [strtoul_append hsign hne hdigits]
  unfold IsInt signed at *
  unfold toInt
  cases minus with
  | false =>
      simp only [Bool.false_eq_true, if_false] at hint ⊢
      rw [if_pos (by omega), UInt64.toNat_ofNat', Nat.mod_eq_of_lt (by omega)]
      exact Int.bmod_eq_of_le (by omega) (by omega)
  | true =>
      simp only [if_true] at hint ⊢
      rw [if_pos (by omega), UInt64.toNat_ofNat', Nat.mod_mod]
      rw [Int.bmod_eq_iff (by decide)]
      omega

end Number

/-- How a decimal integer is written. -/
theorem decimal_cases {text : Bytes} {v : ℤ} (h : decimal text = some v) :
    ∃ minus sign digits, SignText minus sign ∧ text = sign ++ digits ∧ digits ≠ [] ∧
      (∀ c ∈ digits, isdigit c) ∧ v = signed minus digits := by
  unfold decimal at h
  split at h
  · rename_i hnumber
    have hdigits : (readSign text).2 ≠ [] ∧ ∀ c ∈ (readSign text).2, isdigit c = true := by
      simpa using hnumber
    have hv := (Option.some.inj h).symm
    revert hdigits hv
    unfold readSign
    split
    · exact fun hdigits hv => ⟨_, _, _, .minus, rfl, hdigits.1, hdigits.2, hv⟩
    · exact fun hdigits hv => ⟨_, _, _, .plus, rfl, hdigits.1, hdigits.2, hv⟩
    · exact fun hdigits hv => ⟨_, _, _, .none, rfl, hdigits.1, hdigits.2, hv⟩
  · cases h

theorem toInt_strtoul_decimal {text : Bytes} {v : ℤ} (h : decimal text = some v) (hv : IsInt v) :
    toInt (strtoul text) = v := by
  obtain ⟨minus, sign, digits, hsign, rfl, hne, hdigits, rfl⟩ := decimal_cases h
  exact toInt_strtoul_append hsign hne hdigits hv

/-- Of a decimal integer that is cut off, the daemon reads another number, unless it is
zero. -/
theorem toInt_strtoul_take {text : Bytes} {v : ℤ} {k : ℕ} (h : decimal text = some v)
    (hv : IsInt v) (hk : 2 ≤ k) (hlong : k < text.length) :
    toInt (strtoul (text.take k)) = v ↔ v = 0 := by
  obtain ⟨minus, sign, digits, hsign, rfl, hne, hdigits, rfl⟩ := decimal_cases h
  have hlength : sign.length ≤ 1 := by cases hsign <;> decide
  have htake : (sign ++ digits).take k = sign ++ digits.take (k - sign.length) := by
    rw [List.take_append, List.take_of_length_le (by omega)]
  rw [List.length_append] at hlong
  have hfirst : digits.take (k - sign.length) ≠ [] := by
    rw [Ne, List.take_eq_nil_iff, not_or]
    exact ⟨by omega, hne⟩
  have hprefix : ∀ c ∈ digits.take (k - sign.length), isdigit c :=
    fun c hc => hdigits c (List.mem_of_mem_take hc)
  have hless := digitsValue_take_lt digits (k - sign.length) (by omega)
  have hzero : digitsValue digits = 0 → digitsValue (digits.take (k - sign.length)) = 0 := by
    intro hzero
    have hle := rowValue_le_append (b := 10) (by decide)
      ((digits.take (k - sign.length)).map fun c => c.toNat - 48)
      ((digits.drop (k - sign.length)).map fun c => c.toNat - 48)
    rw [← List.map_append, List.take_append_drop, ← digitsValue_eq, ← digitsValue_eq] at hle
    omega
  rw [htake, toInt_strtoul_append hsign hfirst hprefix]
  · unfold signed
    cases minus <;> simp <;> omega
  · unfold IsInt signed at *
    cases minus <;> simp at * <;> omega

end CodeAnalyze.Irqbalance
