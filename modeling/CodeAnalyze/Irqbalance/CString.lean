import Mathlib.Algebra.Group.Nat.Defs
import Mathlib.Data.Int.Notation
import Mathlib.Data.List.Basic
import Mathlib.Tactic.Common

/-!
# Reading text

The parts of the C library with which the daemon takes apart the files of
`/proc` and the answers of scripts.  Text is a list of bytes; a C string is one
read up to its first NUL.
-/

namespace CodeAnalyze.Irqbalance

abbrev Bytes := List UInt8

/-- The bytes of a literal. -/
def chars (s : List Char) : Bytes := s.map fun c => c.toNat.toUInt8

/-- The part of a buffer that is a C string. -/
def cstr (s : Bytes) : Bytes := s.takeWhile (· ≠ 0)

def isblank (c : UInt8) : Bool := c == 32 || c == 9

def isspace (c : UInt8) : Bool := c == 32 || (9 ≤ c && c ≤ 13)

def isdigit (c : UInt8) : Bool := 48 ≤ c && c ≤ 57

def tolower (c : UInt8) : UInt8 := if 65 ≤ c && c ≤ 90 then c + 32 else c

/-- `strcasecmp(a, b) == 0`. -/
def strcaseeq (a b : Bytes) : Bool := a.map tolower == b.map tolower

/-- `strstr(haystack, needle) != NULL`. -/
def strstr (haystack needle : Bytes) : Bool := haystack.tails.any needle.isPrefixOf

/-- `strchr`: the string cut at the first `c`, and what follows it. -/
def strchr (s : Bytes) (c : UInt8) : Option (Bytes × Bytes) :=
  if c ∈ s then some (s.takeWhile (· ≠ c), (s.dropWhile (· ≠ c)).tail) else none

/-- The optional sign of a number, and what follows it. -/
def readSign : Bytes → Bool × Bytes
  | 45 :: rest => (true, rest)
  | 43 :: rest => (false, rest)
  | s => (false, s)

/-- The value of a row of decimal digits. -/
def digitsValue (digits : Bytes) : ℕ :=
  digits.foldl (fun n c => 10 * n + (c.toNat - 48)) 0

/-- `strtoull(s, &end, 10)`: the value and `end`, or nothing where no digit is
found and `end == s`.  A value that does not fit is `ULLONG_MAX`. -/
def strtoull (s : Bytes) : Option (UInt64 × Bytes) :=
  let (minus, s) := readSign (s.dropWhile isspace)
  let digits := s.takeWhile isdigit
  if digits.isEmpty then none
  else
    let n := digitsValue digits
    let value :=
      if n < 2 ^ 64 then (if minus then (2 ^ 64 - n) % 2 ^ 64 else n) else 2 ^ 64 - 1
    some (UInt64.ofNat value, s.dropWhile isdigit)

theorem readSign_length (s : Bytes) : (readSign s).2.length ≤ s.length := by
  fun_cases readSign s <;> simp

theorem strtoull_length {s rest : Bytes} {n : UInt64} (h : strtoull s = some (n, rest)) :
    rest.length < s.length := by
  have hle : (readSign (s.dropWhile isspace)).2.length ≤ s.length :=
    Nat.le_trans (readSign_length _) (List.dropWhile_sublist isspace).length_le
  unfold strtoull at h
  generalize readSign (s.dropWhile isspace) = signed at h hle
  obtain ⟨minus, t⟩ := signed
  dsimp only at h hle
  split at h
  · simp at h
  · rename_i hdigits
    simp only [Option.some.injEq, Prod.mk.injEq] at h
    have hsplit := congrArg List.length (List.takeWhile_append_dropWhile (p := isdigit) (l := t))
    have hpos : 0 < (t.takeWhile isdigit).length := by
      simpa [List.length_pos_iff] using hdigits
    rw [List.length_append] at hsplit
    rw [← h.2]
    omega

/-- The numbers a loop of `strtoull(c, &c, 10)` finds before `c` stops moving. -/
def strtoulls (s : Bytes) : List UInt64 :=
  match _h : strtoull s with
  | none => []
  | some (n, rest) => n :: strtoulls rest
termination_by s.length
decreasing_by exact strtoull_length _h

/-- `strtoul(s, NULL, 10)`. -/
def strtoul (s : Bytes) : UInt64 := ((strtoull s).map (·.1)).getD 0

/-- The conversion of an `unsigned long` to `int`. -/
def toInt (n : UInt64) : ℤ := (n.toNat : ℤ).bmod (2 ^ 32)

/-- The lines of a file, each with its newline if it has one. -/
def getlines : Bytes → List Bytes
  | [] => []
  | c :: rest =>
    if c = 10 then [c] :: getlines rest
    else
      match getlines rest with
      | [] => [[c]]
      | line :: lines => (c :: line) :: lines

/-- What is left in the buffer by the `getline` that meets the end of a file: the
last line of a file that ends in a newline.  `feof` is not yet true after such a
line, so the `while (!feof(file))` loops of the daemon go round once more. -/
def staleLine (lines : List Bytes) : Option Bytes :=
  lines.getLast?.filter fun line => line.getLast? = some 10

/-- The buffers `fgets` fills while it reads `text`: each ends after a newline or
after `size` bytes.  `room` and `buffer` are the state of the current one. -/
def fgetsFill (size : ℕ) : ℕ → Bytes → Bytes → List Bytes
  | _, buffer, [] => if buffer.isEmpty then [] else [buffer]
  | room, buffer, c :: rest =>
    if c = 10 ∨ room ≤ 1 then (buffer ++ [c]) :: fgetsFill size size [] rest
    else fgetsFill size (room - 1) (buffer ++ [c]) rest

/-- The buffers of `fgets(buffer, size + 1, file)` until the end of the file. -/
def fgetsChunks (size : ℕ) (text : Bytes) : List Bytes := fgetsFill size size [] text

/-- `strtok_r(.., " ", ..)` until it returns NULL. -/
def strtok (s : Bytes) : List Bytes :=
  (s.splitOn 32).filter (· ≠ [])

end CodeAnalyze.Irqbalance
