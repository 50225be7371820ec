import CodeAnalyze.Irqbalance.Database
import CodeAnalyze.Irqbalance.Frame
import CodeAnalyze.Irqbalance.PolicyLines

/-!
# The table in `/proc/interrupts`

The kernel writes a line of column heads, a line for each IRQ with a counter for each CPU and
the names of the devices, and lines that begin with letters.  `ProcTable` is such a table, with
any padding.

`parse_proc_interrupts` reads the counters that the table shows, up to the first row that it
does not accept.
-/

namespace CodeAnalyze.Irqbalance

/-! ## Tables -/

/-- A number in decimal digits. -/
structure Digits where
  text : Bytes
  ne_nil : text ≠ []
  isdigit_of_mem : ∀ c ∈ text, isdigit c

def Digits.value (d : Digits) : ℕ := digitsValue d.text

/-- The number as a `uint64_t`; `ULLONG_MAX` if it does not fit. -/
def Digits.toUInt64 (d : Digits) : UInt64 :=
  UInt64.ofNat (if d.value < 2 ^ 64 then d.value else 2 ^ 64 - 1)

/-- A counter, and the number of spaces before the one that is always there. -/
structure Column where
  pad : ℕ
  count : Digits

def Column.text (c : Column) : Bytes := List.replicate (c.pad + 1) 32 ++ c.count.text

/-- The row of an IRQ. -/
structure IrqRow where
  pad : ℕ
  irq : Digits
  irq_lt : irq.value < 2 ^ 31
  columns : List Column
  /-- The names of the chip and the devices. -/
  names : Bytes
  names_text : 0 ∉ names ∧ 10 ∉ names
  /-- The names do not begin with a number. -/
  names_noCount : strtoull (names ++ [10]) = none

namespace IrqRow

def counts (row : IrqRow) : Bytes := row.columns.flatMap Column.text ++ (row.names ++ [10])

def line (row : IrqRow) : Bytes :=
  List.replicate row.pad 32 ++ row.irq.text ++ 58 :: row.counts

/-- The line without its newline. -/
def body (row : IrqRow) : Bytes :=
  List.replicate row.pad 32 ++ row.irq.text ++
    58 :: (row.columns.flatMap Column.text ++ row.names)

/-- The sum of the counters, modulo `2 ^ 64`. -/
def total (row : IrqRow) : UInt64 := (row.columns.map (·.count.toUInt64)).foldl (· + ·) 0

end IrqRow

/-- What follows the rows: a line that does not begin with a digit, and anything. -/
structure ProcFooter where
  pad : ℕ
  first : UInt8
  first_ne : isdigit first = false ∧ isblank first = false
  rest : Bytes

def ProcFooter.text (f : ProcFooter) : Bytes := List.replicate f.pad 32 ++ f.first :: f.rest

/-- `/proc/interrupts`. -/
structure ProcTable where
  heads : Bytes
  heads_text : 10 ∉ heads
  rows : List IrqRow
  distinct : rows.Pairwise fun row row' => row.irq.value ≠ row'.irq.value
  footer : ProcFooter

def ProcTable.text (t : ProcTable) : Bytes :=
  t.heads ++ 10 :: (t.rows.flatMap IrqRow.line ++ t.footer.text)

/-! ## Numbers -/

theorem isspace_of_isdigit {c : UInt8} (h : isdigit c) : isspace c = false := by
  simp only [isspace, isdigit, Bool.and_eq_true, decide_eq_true_eq, UInt8.le_iff_toNat_le] at *
  have h13 : (13 : UInt8).toNat = 13 := rfl
  have h48 : (48 : UInt8).toNat = 48 := rfl
  have hne : c ≠ 32 := by
    rintro rfl
    revert h
    decide
  simp only [Bool.or_eq_false_iff, beq_eq_false_iff_ne, Bool.and_eq_false_iff,
    decide_eq_false_iff_not]
  exact ⟨hne, .inr (by omega)⟩

/-- Spaces before a number are skipped. -/
theorem strtoull_spaces (n : ℕ) (s : Bytes) : strtoull (List.replicate n 32 ++ s) = strtoull s := by
  have hspaces : (List.replicate n 32 ++ s).dropWhile isspace = s.dropWhile isspace :=
    List.dropWhile_append_of_pos fun c hc => by rw [List.eq_of_mem_replicate hc]; rfl
  unfold strtoull
  rw [hspaces]

/-- A digit is no sign. -/
theorem readSign_digit {c : UInt8} (h : isdigit c) (s : Bytes) :
    readSign (c :: s) = (false, c :: s) := by
  unfold readSign
  split
  · rename_i heq
    exact absurd (List.cons.inj heq).1 (ne_of_isdigit h (by decide))
  · rename_i heq
    exact absurd (List.cons.inj heq).1 (ne_of_isdigit h (by decide))
  · rfl

/-- Where no number is found, there is no digit. -/
theorem head_of_strtoull_none {c : UInt8} {s : Bytes} (h : strtoull (c :: s) = none) :
    isdigit c = false := by
  by_contra hdigit
  rw [Bool.not_eq_false] at hdigit
  have hspaces : (c :: s).dropWhile isspace = c :: s :=
    List.dropWhile_cons_of_neg (by simp [isspace_of_isdigit hdigit])
  unfold strtoull at h
  rw [hspaces, readSign_digit hdigit] at h
  simp [hdigit] at h

/-- A number is read up to its last digit. -/
theorem strtoull_digits (d : Digits) {rest : Bytes}
    (hrest : ∀ c ∈ rest.head?, isdigit c = false) :
    strtoull (d.text ++ rest) = some (d.toUInt64, rest) := by
  obtain ⟨c, digits, htext⟩ := List.exists_cons_of_ne_nil d.ne_nil
  have hc : isdigit c := d.isdigit_of_mem c (by simp [htext])
  have hspaces : (d.text ++ rest).dropWhile isspace = d.text ++ rest := by
    rw [htext]
    exact List.dropWhile_cons_of_neg (by simp [isspace_of_isdigit hc])
  have hsign : readSign (d.text ++ rest) = (false, d.text ++ rest) := by
    rw [htext]
    exact readSign_digit hc _
  have hend : rest.takeWhile isdigit = [] ∧ rest.dropWhile isdigit = rest := by
    cases rest with
    | nil => exact ⟨rfl, rfl⟩
    | cons c rest =>
        have hnot : ¬isdigit c = true := by simp [hrest c rfl]
        exact ⟨List.takeWhile_cons_of_neg hnot, List.dropWhile_cons_of_neg hnot⟩
  unfold strtoull
  rw [hspaces, hsign]
  dsimp only
  rw [List.takeWhile_append_of_pos d.isdigit_of_mem, List.dropWhile_append_of_pos d.isdigit_of_mem,
    hend.1, hend.2, List.append_nil, if_neg (by simpa using d.ne_nil)]
  rfl

theorem Digits.strtoull_text (d : Digits) : strtoull d.text = some (d.toUInt64, []) := by
  have hread : strtoull (d.text ++ []) = some (d.toUInt64, []) := strtoull_digits d (by simp)
  rwa [List.append_nil] at hread

/-- A number that an `int` holds. -/
theorem Digits.toInt_toUInt64 (d : Digits) (h : d.value < 2 ^ 31) : toInt d.toUInt64 = d.value := by
  have hvalue : signed false d.text = (d.value : ℤ) := rfl
  have hint : IsInt (signed false d.text) := by
    rw [hvalue]
    constructor <;> omega
  have hread := toInt_strtoul_append .none d.ne_nil d.isdigit_of_mem hint
  rw [List.nil_append, strtoul, d.strtoull_text] at hread
  exact hread

theorem strtoulls_none {s : Bytes} (h : strtoull s = none) : strtoulls s = [] := by
  rw [strtoulls]
  split
  · rfl
  · simp_all

theorem strtoulls_some {s rest : Bytes} {n : UInt64} (h : strtoull s = some (n, rest)) :
    strtoulls s = n :: strtoulls rest := by
  rw [strtoulls]
  split
  · simp_all
  · simp_all

/-- All counters of a row are read, and nothing else. -/
theorem strtoulls_counts (row : IrqRow) :
    strtoulls row.counts = row.columns.map (·.count.toUInt64) := by
  obtain ⟨c, rest, hnames⟩ : ∃ c rest, row.names ++ [10] = c :: rest :=
    List.exists_cons_of_ne_nil (by simp)
  have hend := row.names_noCount
  rw [hnames] at hend
  have hc := head_of_strtoull_none hend
  unfold IrqRow.counts
  rw [hnames]
  induction row.columns with
  | nil => exact strtoulls_none hend
  | cons column columns ih =>
      have hrest : ∀ d ∈ (columns.flatMap Column.text ++ c :: rest).head?, isdigit d = false := by
        cases columns with
        | nil => simpa using hc
        | cons next columns => simp [Column.text, List.replicate_succ, isdigit]
      have hread := strtoull_digits column.count hrest
      rw [List.flatMap_cons, List.append_assoc, Column.text, List.append_assoc, List.map_cons, ← ih]
      exact strtoulls_some ((strtoull_spaces _ _).trans hread)

/-! ## Lines -/

theorem getlines_append {a : Bytes} (ha : 10 ∉ a) (rest : Bytes) :
    getlines (a ++ 10 :: rest) = (a ++ [10]) :: getlines rest := by
  induction a with
  | nil => rfl
  | cons c a ih =>
      rw [List.mem_cons, not_or] at ha
      rw [List.cons_append, getlines, if_neg (Ne.symm ha.1), ih ha.2]
      rfl

/-- The line with which the loop ends. -/
theorem ProcFooter.getlines_text (f : ProcFooter) :
    ∃ rest lines, getlines f.text = (List.replicate f.pad 32 ++ f.first :: rest) :: lines := by
  unfold ProcFooter.text
  induction f.pad with
  | zero =>
      rw [List.replicate_zero, List.nil_append, getlines]
      split
      · rename_i hnewline
        exact ⟨[], getlines f.rest, by rw [hnewline]; rfl⟩
      · split
        · exact ⟨[], [], rfl⟩
        · rename_i line lines _
          exact ⟨line, lines, rfl⟩
  | succ n ih =>
      obtain ⟨rest, lines, hlines⟩ := ih
      refine ⟨rest, lines, ?_⟩
      rw [List.replicate_succ, List.cons_append, getlines, if_neg (by decide), hlines]
      rfl

theorem ProcFooter.procLine_eq (f : ProcFooter) (rest : Bytes) :
    procLine (List.replicate f.pad 32 ++ f.first :: rest) = .stop := by
  have hcut : cstr (List.replicate f.pad 32 ++ f.first :: rest) =
      List.replicate f.pad 32 ++ cstr (f.first :: rest) :=
    List.takeWhile_append_of_pos fun c hc => by rw [List.eq_of_mem_replicate hc]; rfl
  have hblanks : (cstr (List.replicate f.pad 32 ++ f.first :: rest)).dropWhile isblank =
      (cstr (f.first :: rest)).dropWhile isblank := by
    rw [hcut]
    exact List.dropWhile_append_of_pos fun c hc => by rw [List.eq_of_mem_replicate hc]; rfl
  unfold procLine
  dsimp only
  rw [hblanks]
  by_cases hzero : f.first = 0
  · simp [cstr, hzero]
  · simp [cstr, hzero, f.first_ne]

theorem Column.mem_text {c : Column} {d : UInt8} (h : d ∈ c.text) : d = 32 ∨ isdigit d := by
  rcases List.mem_append.mp h with hpad | hcount
  · exact .inl (List.eq_of_mem_replicate hpad)
  · exact .inr (c.count.isdigit_of_mem d hcount)

namespace IrqRow

variable (row : IrqRow)

theorem line_eq : row.line = row.body ++ [10] := by simp [line, body, counts]

theorem mem_body {c : UInt8} (h : c ∈ row.body) :
    c = 32 ∨ isdigit c ∨ c = 58 ∨ c ∈ row.names := by
  simp only [body, List.mem_append, List.mem_cons, List.mem_flatMap] at h
  rcases h with (hpad | hirq) | hcolon | ⟨column, -, htext⟩ | hnames
  · exact .inl (List.eq_of_mem_replicate hpad)
  · exact .inr (.inl (row.irq.isdigit_of_mem c hirq))
  · exact .inr (.inr (.inl hcolon))
  · rcases Column.mem_text htext with hspace | hdigit
    · exact .inl hspace
    · exact .inr (.inl hdigit)
  · exact .inr (.inr (.inr hnames))

theorem not_mem_body {c : UInt8} (hspace : c ≠ 32) (hdigit : isdigit c = false) (hcolon : c ≠ 58)
    (hnames : c ∉ row.names) : c ∉ row.body := by
  intro hmem
  rcases row.mem_body hmem with h | h | h | h
  · exact hspace h
  · simp [hdigit] at h
  · exact hcolon h
  · exact hnames h

theorem getlines_line (rest : Bytes) : getlines (row.line ++ rest) = row.line :: getlines rest := by
  have hbody : 10 ∉ row.body :=
    row.not_mem_body (by decide) (by decide) (by decide) row.names_text.2
  rw [line_eq, List.append_assoc]
  exact getlines_append hbody rest

/-- The number of the IRQ. -/
theorem toInt_irq :
    toInt (strtoul (List.replicate row.pad 32 ++ row.irq.text)) = row.irq.value := by
  rw [strtoul, strtoull_spaces, row.irq.strtoull_text]
  exact row.irq.toInt_toUInt64 row.irq_lt

/-- What the loop makes of a row. -/
theorem procLine_eq : procLine row.line = .irq row.irq.value row.counts := by
  have hbody : 0 ∉ row.body :=
    row.not_mem_body (by decide) (by decide) (by decide) row.names_text.1
  have hcstr : cstr row.line = row.line :=
    cstr_eq_self (by rw [line_eq]; simpa using hbody)
  obtain ⟨c, digits, htext⟩ := List.exists_cons_of_ne_nil row.irq.ne_nil
  have hc : isdigit c := row.irq.isdigit_of_mem c (by simp [htext])
  have hblanks : row.line.dropWhile isblank = c :: (digits ++ 58 :: row.counts) := by
    have hblank : ¬isblank c = true := by
      rintro hblank
      simp only [isblank, Bool.or_eq_true, beq_iff_eq] at hblank
      rcases hblank with rfl | rfl <;> simp [isdigit] at hc
    unfold line
    rw [List.append_assoc, List.dropWhile_append_of_pos, htext, List.cons_append,
      List.dropWhile_cons_of_neg hblank]
    intro d hd
    rw [List.eq_of_mem_replicate hd]
    rfl
  have hcolon : 58 ∉ List.replicate row.pad 32 ++ row.irq.text := by
    intro hmem
    rcases List.mem_append.mp hmem with hpad | hirq
    · cases List.eq_of_mem_replicate hpad
    · have hdigit := row.irq.isdigit_of_mem 58 hirq
      simp [isdigit] at hdigit
  unfold procLine
  dsimp only
  rw [hcstr, hblanks]
  dsimp only
  rw [hc, line, strchr_append 58 hcolon]
  simp only [Bool.not_true, Bool.false_eq_true, if_false]
  rw [toInt_irq]

end IrqRow

/-- The lines both loops look at: the rows, and one behind them at which they stop. -/
theorem ProcTable.procBuffers_text (t : ProcTable) :
    ∃ rest lines, procBuffers t.text = t.rows.map IrqRow.line ++
      (List.replicate t.footer.pad 32 ++ t.footer.first :: rest) :: lines := by
  obtain ⟨rest, lines, hfooter⟩ := t.footer.getlines_text
  have hrows : ∀ rows : List IrqRow, getlines (rows.flatMap IrqRow.line ++ t.footer.text) =
      rows.map IrqRow.line ++
        (List.replicate t.footer.pad 32 ++ t.footer.first :: rest) :: lines := by
    intro rows
    induction rows with
    | nil => exact hfooter
    | cons row rows ih =>
        rw [List.flatMap_cons, List.append_assoc, row.getlines_line, ih]
        rfl
  have htext : getlines t.text = (t.heads ++ [10]) :: getlines (t.rows.flatMap IrqRow.line ++
      t.footer.text) := getlines_append t.heads_text _
  unfold procBuffers
  rw [htext, hrows]
  dsimp only
  split
  · rename_i hnil
    simp at hnil
  · rw [List.append_assoc]
    exact ⟨rest, _, rfl⟩

/-! ## Counters -/

/-- `irq_count` and `last_irq_count`. -/
structure IrqCounters where
  irqCount : UInt64
  lastIrqCount : UInt64
  deriving DecidableEq

def IrqInfo.counters (info : IrqInfo) : IrqCounters := ⟨info.irqCount, info.lastIrqCount⟩

namespace IrqDb

/-- The entry a pointer of `get_irq_info` points to. -/
def at? (db : IrqDb) : InfoRef → Option IrqInfo
  | .db place => db.interruptsDb[place]?
  | .banned place => db.bannedIrqs[place]?

/-- The entry that is found has the number that is looked for. -/
theorem at?_of_getIrqInfo {db : IrqDb} {irq : ℤ} {ref : InfoRef}
    (h : db.getIrqInfo irq = some ref) : ∃ info, db.at? ref = some info ∧ info.irq = irq := by
  unfold getIrqInfo at h
  split at h
  · rename_i place hplace
    cases h
    obtain ⟨hlt, hirq, -⟩ := List.findIdx?_eq_some_iff_getElem.mp hplace
    exact ⟨_, List.getElem?_eq_getElem hlt, by simpa using hirq⟩
  · obtain ⟨place, hplace, rfl⟩ := Option.map_eq_some_iff.mp h
    obtain ⟨hlt, hirq, -⟩ := List.findIdx?_eq_some_iff_getElem.mp hplace
    exact ⟨_, List.getElem?_eq_getElem hlt, by simpa using hirq⟩

theorem at?_modifyRef (db : IrqDb) (ref ref' : InfoRef) (f : IrqInfo → IrqInfo) :
    (db.modifyRef ref f).at? ref' = if ref' = ref then (db.at? ref').map f else db.at? ref' := by
  cases ref with
  | db place =>
      cases ref' with
      | db place' =>
          simp only [modifyRef, at?, List.getElem?_modify, InfoRef.db.injEq, eq_comm]
          split <;> simp
      | banned place' => simp [modifyRef, at?]
  | banned place =>
      cases ref' with
      | db place' => simp [modifyRef, at?]
      | banned place' =>
          simp only [modifyRef, at?, List.getElem?_modify, InfoRef.banned.injEq, eq_comm]
          split <;> simp

/-- Writing to an entry leaves the numbers where they are. -/
theorem getIrqInfo_modifyRef (db : IrqDb) (ref : InfoRef) {f : IrqInfo → IrqInfo}
    (hf : ∀ info, (f info).irq = info.irq) (irq : ℤ) :
    (db.modifyRef ref f).getIrqInfo irq = db.getIrqInfo irq := by
  have hfind (list : List IrqInfo) (place : ℕ) :
      ((list.modify place f).findIdx? fun info => info.irq == irq) =
        list.findIdx? fun info => info.irq == irq := by
    have hmap := congrArg (List.findIdx? (· == irq)) (map_modify_eq hf list place)
    rw [List.findIdx?_map, List.findIdx?_map] at hmap
    exact hmap
  unfold getIrqInfo
  cases ref with
  | db place => simp only [modifyRef, hfind]
  | banned place => simp only [modifyRef, hfind]

end IrqDb

namespace State

/-- The counters of an IRQ, if it is known. -/
def counters (s : State) (irq : ℤ) : Option IrqCounters :=
  (s.irqs.getIrqInfo irq).bind fun ref => (s.irqs.at? ref).map IrqInfo.counters

/-- The IRQ is known, each CPU has a counter, and the count has not gone down. -/
def accepts (s : State) (row : IrqRow) : Bool :=
  match s.counters row.irq.value with
  | none => false
  | some old => row.columns.length == s.topo.coreCount && old.irqCount ≤ row.total

/-- What the daemon knows of the counters when it has read some rows. -/
structure Read (s : State) (rows : List IrqRow) (s' : State) : Prop where
  coreCount : s'.topo.coreCount = s.topo.coreCount
  needRescan : s'.needRescan = s.needRescan
  counters : ∀ irq, s'.counters irq =
    match rows.find? fun row => row.irq.value = irq with
    | none => s.counters irq
    | some row => (s.counters irq).map fun old => ⟨row.total, old.irqCount⟩

variable {s s' : State} {row : IrqRow}

theorem refInfo_eq (s : State) (ref : InfoRef) : s.refInfo ref = (s.irqs.at? ref).getD default := by
  cases ref <;> rfl

theorem counters_setCount {irq : ℤ} {ref : InfoRef} (href : s.irqs.getIrqInfo irq = some ref)
    (hirqs : s'.irqs = s.irqs.modifyRef ref fun info =>
      { info with lastIrqCount := info.irqCount, irqCount := row.total }) (irq' : ℤ) :
    s'.counters irq' = if irq = irq' then
      (s.counters irq').map fun old => ⟨row.total, old.irqCount⟩ else s.counters irq' := by
  have hget : s'.irqs.getIrqInfo irq' = s.irqs.getIrqInfo irq' := by
    rw [hirqs]
    apply IrqDb.getIrqInfo_modifyRef
    intro info
    rfl
  unfold counters
  rw [hget, hirqs]
  by_cases hirq : irq = irq'
  · subst hirq
    obtain ⟨info, hinfo, -⟩ := IrqDb.at?_of_getIrqInfo href
    simp [href, IrqDb.at?_modifyRef, hinfo, IrqInfo.counters]
  · rw [if_neg hirq]
    cases href' : s.irqs.getIrqInfo irq' with
    | none => rfl
    | some ref' =>
        -- entries with different numbers are different entries
        have hne : ref' ≠ ref := by
          rintro rfl
          obtain ⟨info, hinfo, rfl⟩ := IrqDb.at?_of_getIrqInfo href
          obtain ⟨info', hinfo', hirq'⟩ := IrqDb.at?_of_getIrqInfo href'
          rw [hinfo] at hinfo'
          cases hinfo'
          exact hirq hirq'
        simp [IrqDb.at?_modifyRef, hne]

theorem read_row (hcore : s'.topo.coreCount = s.topo.coreCount)
    (hrescan : s'.needRescan = s.needRescan)
    (hcounters : ∀ irq, s'.counters irq = if row.irq.value = irq then
      (s.counters irq).map fun old => ⟨row.total, old.irqCount⟩ else s.counters irq) :
    s.Read [row] s' := by
  refine ⟨hcore, hrescan, fun irq => ?_⟩
  rw [hcounters]
  by_cases hirq : (row.irq.value : ℤ) = irq <;> simp [hirq]

/-- A row that is accepted is read, and another asks for a rescan. -/
theorem updateCount_row (s : State) (row : IrqRow) :
    if s.accepts row then ∃ s', s.updateCount row.irq.value row.counts = .ok s' ∧ s.Read [row] s'
    else ∃ cause, s.updateCount row.irq.value row.counts = .error cause := by
  cases href : s.irqs.getIrqInfo row.irq.value with
  | none =>
      have hunknown : s.accepts row = false := by simp [accepts, counters, href]
      rw [hunknown]
      exact ⟨.unknownIrq, by simp [updateCount, href]⟩
  | some ref =>
      obtain ⟨info, hinfo, -⟩ := IrqDb.at?_of_getIrqInfo href
      have hknown : s.accepts row =
          (row.columns.length == s.topo.coreCount && info.irqCount ≤ row.total) := by
        simp [accepts, counters, href, hinfo, IrqInfo.counters]
      have htotal : (row.columns.map (·.count.toUInt64)).foldl (· + ·) 0 = row.total := rfl
      unfold updateCount
      rw [href]
      dsimp only
      rw [strtoulls_counts, refInfo_eq, hinfo, htotal, List.length_map, Option.getD_some]
      by_cases hcolumns : row.columns.length = s.topo.coreCount
      · by_cases hless : row.total < info.irqCount
        · have hnot : s.accepts row = false := by simp [hknown, UInt64.not_le.mpr hless]
          rw [hnot, if_neg (not_not.mpr hcolumns), if_pos hless]
          exact ⟨_, rfl⟩
        · have haccepts : s.accepts row = true := by
            simp [hknown, hcolumns, UInt64.not_lt.mp hless]
          rw [haccepts, if_neg (not_not.mpr hcolumns), if_neg hless, if_pos rfl]
          split
          · exact ⟨_, rfl, read_row rfl rfl (counters_setCount href rfl)⟩
          · exact ⟨_, rfl, read_row rfl rfl (counters_setCount href rfl)⟩
      · have hnot : s.accepts row = false := by simp [hknown, hcolumns]
        rw [hnot, if_pos hcolumns]
        exact ⟨_, rfl⟩

theorem takeWhile_all_congr {α : Type*} {p q : α → Bool} {l : List α} (h : ∀ a ∈ l, p a = q a) :
    l.takeWhile p = l.takeWhile q ∧ l.all p = l.all q := by
  induction l with
  | nil => exact ⟨rfl, rfl⟩
  | cons a l ih =>
      obtain ⟨htake, hall⟩ := ih fun b hb => h b (List.mem_cons_of_mem a hb)
      rw [List.takeWhile_cons, List.takeWhile_cons, List.all_cons, List.all_cons,
        h a List.mem_cons_self, htake, hall]
      exact ⟨rfl, rfl⟩

/-- Reading a row decides nothing about the rows of other IRQs. -/
theorem Read.accepts (hs : s.Read [row] s') {row' : IrqRow}
    (hne : row.irq.value ≠ row'.irq.value) : s'.accepts row' = s.accepts row' := by
  have hfind : [row].find? (fun r => (r.irq.value : ℤ) = (row'.irq.value : ℤ)) = none := by
    simp [hne]
  have hsame := hs.counters row'.irq.value
  rw [hfind] at hsame
  unfold State.accepts
  rw [hsame, hs.coreCount]

theorem Read.cons {s₁ s₂ : State} {rows : List IrqRow} (hs : s.Read [row] s₁)
    (hrest : s₁.Read rows s₂) (hne : ∀ row' ∈ rows, row.irq.value ≠ row'.irq.value) :
    s.Read (row :: rows) s₂ := by
  refine ⟨hrest.coreCount.trans hs.coreCount, hrest.needRescan.trans hs.needRescan, fun irq => ?_⟩
  rw [hrest.counters irq, hs.counters irq]
  by_cases hirq : (row.irq.value : ℤ) = irq
  · have hnone : rows.find? (fun row => (row.irq.value : ℤ) = irq) = none := by
      rw [List.find?_eq_none]
      intro row' hmem heq
      have hcast : (row.irq.value : ℤ) = row'.irq.value := hirq.trans (of_decide_eq_true heq).symm
      exact hne row' hmem (by exact_mod_cast hcast)
    rw [hnone]
    simp [hirq]
  · simp [hirq]

/-- A state with the same counters accepts the same rows. -/
theorem Read.accepts_nil (hs : s.Read [] s') (row : IrqRow) : s'.accepts row = s.accepts row := by
  unfold State.accepts
  rw [hs.coreCount, hs.counters]
  rfl

theorem Read.trans {s₁ : State} {rows : List IrqRow} (hs : s.Read [] s₁) (hrest : s₁.Read rows s') :
    s.Read rows s' := by
  refine ⟨hrest.coreCount.trans hs.coreCount, hrest.needRescan.trans hs.needRescan, fun irq => ?_⟩
  rw [hrest.counters irq, hs.counters irq]
  rfl

/-- The loop reads the rows up to the first that is not accepted. -/
theorem parseProcLines_rows {rows : List IrqRow} {stop : Bytes} (hstop : procLine stop = .stop)
    (lines : List Bytes)
    (hdistinct : rows.Pairwise fun row row' => row.irq.value ≠ row'.irq.value) (s : State) :
    ∃ s' cause, s.parseProcLines (rows.map IrqRow.line ++ stop :: lines) = (s', cause) ∧
      s.Read (rows.takeWhile s.accepts) s' ∧ cause.isSome = !rows.all s.accepts := by
  have hmsi (s : State) (b : Bool) :
      s.Read [] (if b then { s with procIntHasMsi := true } else s) := by
    cases b <;> exact ⟨rfl, rfl, fun _ => rfl⟩
  induction rows generalizing s with
  | nil =>
      rw [List.map_nil, List.nil_append, parseProcLines, hstop]
      exact ⟨_, none, rfl, hmsi s _, rfl⟩
  | cons row rows ih =>
      rw [List.map_cons, List.cons_append, parseProcLines, row.procLine_eq]
      dsimp only
      have hread := hmsi s (strstr (cstr row.line) (chars ['M', 'S', 'I']))
      revert hread
      generalize (if strstr (cstr row.line) (chars ['M', 'S', 'I']) then
        { s with procIntHasMsi := true } else s) = s₁
      intro hread
      have hrow := updateCount_row s₁ row
      rw [hread.accepts_nil] at hrow
      cases haccepts : s.accepts row with
      | false =>
          rw [haccepts] at hrow
          obtain ⟨cause, hcause⟩ := hrow
          rw [hcause]
          refine ⟨s₁, some cause, rfl, ?_, by simp [haccepts]⟩
          rw [List.takeWhile_cons_of_neg (by simp [haccepts])]
          exact hread
      | true =>
          rw [haccepts] at hrow
          obtain ⟨s₂, hs₂, hread₂⟩ := hrow
          obtain ⟨hne, hrows⟩ := List.pairwise_cons.mp hdistinct
          have hfirst := hread.trans hread₂
          -- what is read of this row leaves the other rows as they were
          obtain ⟨htake, hall⟩ :=
            takeWhile_all_congr fun row' hmem => hfirst.accepts (hne row' hmem)
          obtain ⟨s₃, cause, hrun, hread₃, hcause⟩ := ih hrows s₂
          rw [hs₂]
          refine ⟨s₃, cause, hrun, ?_, ?_⟩
          · rw [List.takeWhile_cons_of_pos haccepts, ← htake]
            exact hfirst.cons hread₃ fun row' hmem =>
              hne row' ((List.takeWhile_prefix _).subset hmem)
          · rw [hcause, hall, List.all_cons, haccepts, Bool.true_and]

end State

/-- Of a table `parse_proc_interrupts` reads the counters of the rows before the first that is not
accepted, and no others; it asks for a rescan exactly where there is such a row. -/
theorem parseProcInterrupts_table (s : State) (t : ProcTable) :
    (s.parseProcInterrupts (some t.text)).needRescan =
      (s.needRescan || !t.rows.all s.accepts) ∧
    ∀ irq, (s.parseProcInterrupts (some t.text)).counters irq =
      match (t.rows.takeWhile s.accepts).find? fun row => row.irq.value = irq with
      | none => s.counters irq
      | some row => (s.counters irq).map fun old => ⟨row.total, old.irqCount⟩ := by
  obtain ⟨rest, lines, hbuffers⟩ := t.procBuffers_text
  obtain ⟨s', cause, hrun, ⟨-, hrescan, hcounters⟩, hcause⟩ :=
    State.parseProcLines_rows (t.footer.procLine_eq rest) lines t.distinct s
  unfold State.parseProcInterrupts
  dsimp only
  rw [hbuffers, hrun]
  dsimp only
  rw [hcause, hrescan]
  split
  · exact ⟨rfl, hcounters⟩
  · exact ⟨rfl, hcounters⟩

namespace Sample

def zero : Digits := ⟨chars ['0'], by decide, List.all_eq_true.mp (by decide)⟩

/-- The row of the first card. -/
def cardRow : IrqRow where
  pad := 2
  irq := ⟨chars ['1', '1'], by decide, List.all_eq_true.mp (by decide)⟩
  irq_lt := by decide
  columns :=
    [⟨8, ⟨chars ['4', '6'], by decide, List.all_eq_true.mp (by decide)⟩⟩,
      ⟨9, ⟨chars ['7'], by decide, List.all_eq_true.mp (by decide)⟩⟩]
  names :=
    chars [' ', ' ', ' ', 'I', 'O', '-', 'A', 'P', 'I', 'C', ' ', '1', '1', ' ', 'e', 't', 'h']
  names_text := by decide
  names_noCount := by decide

/-- The row of an IRQ that the daemon does not know. -/
def timerRow : IrqRow where
  pad := 3
  irq := zero
  irq_lt := by decide
  columns := cardRow.columns
  names := chars [' ', 't', 'i', 'm', 'e', 'r']
  names_text := by decide
  names_noCount := by decide

def interrupts : ProcTable where
  heads := chars [' ', ' ', ' ', 'C', 'P', 'U', '0', ' ', ' ', ' ', 'C', 'P', 'U', '1']
  heads_text := by decide
  rows := [cardRow, timerRow]
  distinct := by decide
  footer :=
    { pad := 1, first := 78, first_ne := by decide, rest := chars ['M', 'I', ':', ' ', '0', '\n'] }

end Sample

theorem parseProcInterrupts_table_started :
    (Sample.started.parseProcInterrupts (some Sample.interrupts.text)).needRescan = true ∧
      (Sample.started.parseProcInterrupts (some Sample.interrupts.text)).counters 11 =
        some ⟨53, 0⟩ :=
  have htable := parseProcInterrupts_table Sample.started Sample.interrupts
  ⟨htable.1.trans (by decide +kernel), (htable.2 11).trans (by decide +kernel)⟩

end CodeAnalyze.Irqbalance
