import CodeAnalyze.Irqbalance.Sysfs

/-!
# The lines of `/proc/interrupts`

`collect_full_irq_list` and `parse_proc_interrupts` both skip the first line, stop
at the first line that does not begin with a number and pass over a line without
a colon.  `procLine` is that common part; what each does with a numbered line is
its own.
-/

namespace CodeAnalyze.Irqbalance

/-- What the head of both loops makes of a line. -/
inductive ProcLine
  /-- The first character after the blanks is no digit: `break`. -/
  | stop
  /-- There is no colon: `continue`. -/
  | skip
  /-- The number before the colon, and the text after it. -/
  | irq (number : ℤ) (counts : Bytes)
  deriving DecidableEq

/-- The head of both loops, up to `number = strtoul(line, NULL, 10)`. -/
def procLine (line : Bytes) : ProcLine :=
  let line := cstr line
  match line.dropWhile isblank with
  | [] => .stop
  | c :: _ =>
    if !isdigit c then .stop
    else
      match strchr line 58 with
      | none => .skip
      | some (number, counts) => .irq (toInt (strtoul number)) counts

/-- The buffers both loops look at: the lines after the first, and once more what
is left in the buffer at the end of the file.  Both loops have cut the last line
at its colon by then; a first line that is also the last is still whole. -/
def procBuffers (file : Bytes) : List Bytes :=
  match getlines file with
  | [] => []
  | first :: rest =>
    match rest with
    | [] => (staleLine [first]).toList
    | _ :: _ => rest ++ ((staleLine rest).map fun line => line.takeWhile (· ≠ 58)).toList

/-- The numbered lines both loops get to. -/
def numberedLines : List Bytes → List (Bytes × ℤ × Bytes)
  | [] => []
  | line :: rest =>
    match procLine line with
    | .stop => []
    | .skip => numberedLines rest
    | .irq number counts => (line, number, counts) :: numberedLines rest

/-- `sizeof(savedline)`. -/
def savedlineSize : ℕ := 1024

/-- The copy of a line the tokeniser works on.  `strncpy` leaves it without a
terminator when the line fills the array. -/
def savedline (sysfs : Sysfs) (line : Bytes) : Bytes :=
  let line := cstr line
  if line.length < savedlineSize then line
  else line.take savedlineSize ++ sysfs.behindSavedline line

/-- `irq_name` after the loop over the tokens: the last but one, or the only one. -/
def irqName : List Bytes → Option Bytes
  | [] => none
  | [only] => some only
  | first :: second :: rest =>
    some (rest.foldl (fun (tokens : Bytes × Bytes) p => (tokens.2, p)) (first, second)).1

/-- `"xen-dyn-event"`. -/
def xenDynEvent : Bytes :=
  chars ['x', 'e', 'n', '-', 'd', 'y', 'n', '-', 'e', 'v', 'e', 'n', 't']

/-- The entry `collect_full_irq_list` makes for a numbered line. -/
def collectedIrq (cfg : Config) (sysfs : Sysfs) (line : Bytes) (number : ℤ) : IrqInfo :=
  let event :=
    match irqName (strtok (savedline sysfs line)) with
    | none => false
    | some name => strstr name xenDynEvent
  { irq := number
    type := if event then .virtEvent else .legacy
    irqClass := if event then .virtEvent else .other
    hintPolicy := cfg.globalHintPolicy }

/-- `collect_full_irq_list`. -/
def collectFullIrqList (cfg : Config) (sysfs : Sysfs) : List IrqInfo :=
  match sysfs.procInterrupts with
  | none => []
  | some file =>
    (numberedLines (procBuffers file)).map fun (line, number, _) =>
      collectedIrq cfg sysfs line number

end CodeAnalyze.Irqbalance
