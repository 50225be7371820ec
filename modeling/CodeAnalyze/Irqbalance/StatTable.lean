import CodeAnalyze.Irqbalance.Loads
import CodeAnalyze.Irqbalance.ProcTable
import Mathlib.Data.List.Infix

/-!
# The table in `/proc/stat`

The kernel writes a line for all CPUs, a line for each CPU with the time it spent in ten ways,
and other lines.  `StatTable` is such a file, with any padding.

The loop of `parse_proc_stat` takes the sixth and the seventh column of the CPUs that are not
banned, up to the first that is not in the tree.
-/

namespace CodeAnalyze.Irqbalance

/-- `"cpu"`. -/
def cpuText : Bytes := chars ['c', 'p', 'u']

/-- The line of a CPU. -/
structure StatRow where
  cpu : Digits
  cpu_lt : cpu.value < nrCpus
  user : Column
  nice : Column
  system : Column
  idle : Column
  iowait : Column
  irq : Column
  softirq : Column
  /-- The other columns. -/
  rest : Bytes
  rest_text : 0 ∉ rest ∧ 10 ∉ rest
  rest_head : ∀ c ∈ rest.head?, isdigit c = false

namespace StatRow

variable (row : StatRow)

/-- The columns that are read, or skipped before. -/
def columns : List Column :=
  [row.user, row.nice, row.system, row.idle, row.iowait, row.irq, row.softirq]

/-- The line behind the number. -/
def times : Bytes := row.columns.flatMap Column.text ++ row.rest

def line : Bytes := cpuText ++ (row.cpu.text ++ (row.times ++ [10]))

end StatRow

/-- What follows the CPUs: a line without `cpu`, and anything. -/
structure StatFooter where
  text : Bytes
  isLine : 10 ∉ text
  noCpu : strstr (cstr (text ++ [10])) cpuText = false
  rest : Bytes

/-- `/proc/stat`. -/
structure StatTable where
  /-- The line for all CPUs. -/
  all : Bytes
  all_text : 10 ∉ all
  rows : List StatRow
  distinct : rows.Pairwise fun row row' => row.cpu.value ≠ row'.cpu.value
  footer : StatFooter

def StatTable.text (t : StatTable) : Bytes :=
  t.all ++ 10 :: (t.rows.flatMap StatRow.line ++ (t.footer.text ++ 10 :: t.footer.rest))

/-! ## Lines -/

/-- The columns are separated by spaces. -/
theorem Column.strtoull_text (c : Column) {rest : Bytes}
    (hrest : ∀ d ∈ rest.head?, isdigit d = false) :
    strtoull (c.text ++ rest) = some (c.count.toUInt64, rest) := by
  rw [Column.text, List.append_assoc, strtoull_spaces]
  exact strtoull_digits c.count hrest

namespace StatRow

variable (row : StatRow)

theorem not_mem_times {c : UInt8} (hspace : c ≠ 32) (hdigit : isdigit c = false)
    (hrest : c ∉ row.rest) : c ∉ row.times := by
  intro hmem
  rcases List.mem_append.mp hmem with hcolumns | hmem
  · obtain ⟨column, -, htext⟩ := List.mem_flatMap.mp hcolumns
    rcases Column.mem_text htext with h | h
    · exact hspace h
    · simp [hdigit] at h
  · exact hrest hmem

theorem not_mem_body {c : UInt8} (hcpu : c ∉ cpuText) (hspace : c ≠ 32)
    (hdigit : isdigit c = false) (hrest : c ∉ row.rest) :
    c ∉ cpuText ++ (row.cpu.text ++ row.times) := by
  intro hmem
  rcases List.mem_append.mp hmem with h | hmem
  · exact hcpu h
  · rcases List.mem_append.mp hmem with h | h
    · have htrue := row.cpu.isdigit_of_mem c h
      simp [hdigit] at htrue
    · exact row.not_mem_times hspace hdigit hrest h

theorem getlines_line (rest : Bytes) : getlines (row.line ++ rest) = row.line :: getlines rest := by
  have hbody : 10 ∉ cpuText ++ (row.cpu.text ++ row.times) :=
    row.not_mem_body (by decide) (by decide) (by decide) row.rest_text.2
  have hline := getlines_append hbody rest
  simp only [List.append_assoc] at hline
  simp only [line, List.append_assoc, List.singleton_append]
  exact hline

end StatRow

/-- The CPU that is found has the number that is looked for. -/
theorem number_of_findCpuCore {t : Topology} {cpunr : ℤ} {i : ℕ}
    (h : findCpuCore t cpunr = some i) :
    t.Valid ⟨.cpu, i⟩ ∧ (t.obj ⟨.cpu, i⟩).number = cpunr := by
  obtain ⟨hlt, hnumber, -⟩ := List.findIdx?_eq_some_iff_getElem.mp h
  refine ⟨hlt, ?_⟩
  have hobj : t.obj ⟨.cpu, i⟩ = t.cpus[i] := by
    change t.cpus[i]?.getD default = _
    rw [List.getElem?_eq_getElem hlt]
    rfl
  rw [hobj]
  simpa using hnumber

/-- The loads a CPU gets from its row. -/
def StatRow.setLoad (cfg : Config) (cycleCount : UInt64) (row : StatRow) : TopoObj → TopoObj :=
  setCpuLoad cfg cycleCount row.irq.count.toUInt64 row.softirq.count.toUInt64

/-- A new load leaves the numbers of the CPUs where they are. -/
theorem StatRow.findCpuCore_setLoad (cfg : Config) (cycleCount : UInt64) (row : StatRow)
    (t : Topology) (i : ℕ) :
    findCpuCore (t.modify ⟨.cpu, i⟩ (row.setLoad cfg cycleCount)) = findCpuCore t := by
  funext cpunr
  have hnumber (o : TopoObj) : (row.setLoad cfg cycleCount o).number = o.number := rfl
  have hmap := congrArg (List.findIdx? (· == cpunr)) (map_modify_eq hnumber t.cpus i)
  rw [List.findIdx?_map, List.findIdx?_map] at hmap
  exact hmap

/-- What the tree is when some rows have been taken. -/
def CpusRead (cfg : Config) (cycleCount : UInt64) (t : Topology) (rows : List StatRow)
    (t' : Topology) : Prop :=
  ∀ i, t'.obj ⟨.cpu, i⟩ =
    match rows.find? fun row => findCpuCore t row.cpu.value = some i with
    | none => t.obj ⟨.cpu, i⟩
    | some row => row.setLoad cfg cycleCount (t.obj ⟨.cpu, i⟩)

variable {cfg : Config}

/-- A row more is taken; the others are those of other CPUs. -/
theorem CpusRead.cons {cycleCount : UInt64} {t t' : Topology} {row : StatRow}
    {rows : List StatRow} {cpu : ℕ}
    (hcpu : findCpuCore t row.cpu.value = some cpu)
    (hs : CpusRead cfg cycleCount (t.modify ⟨.cpu, cpu⟩ (row.setLoad cfg cycleCount)) rows t')
    (hne : ∀ row' ∈ rows, row.cpu.value ≠ row'.cpu.value) :
    CpusRead cfg cycleCount t (row :: rows) t' := by
  obtain ⟨hvalid, hnumber⟩ := number_of_findCpuCore hcpu
  intro i
  have hread := hs i
  rw [row.findCpuCore_setLoad] at hread
  rw [hread]
  by_cases hi : cpu = i
  · subst hi
    have hnone : rows.find? (fun row' => findCpuCore t row'.cpu.value = some cpu) = none := by
      rw [List.find?_eq_none]
      intro row' hmem hfound
      have hsame := (number_of_findCpuCore (of_decide_eq_true hfound)).2
      exact hne row' hmem (by exact_mod_cast hnumber.symm.trans hsame)
    rw [hnone, List.find?_cons_of_pos (by simp [hcpu])]
    exact t.obj_modify_self _ _ hvalid
  · have hother : (⟨.cpu, i⟩ : ObjRef) ≠ ⟨.cpu, cpu⟩ := by
      intro heq
      exact hi (congrArg ObjRef.place heq).symm
    rw [t.obj_modify_of_ne _ hother, List.find?_cons_of_neg (by simp [hcpu, hi])]

namespace Sample

def zeroColumn : Column := ⟨0, zero⟩

/-- The row of a CPU that has spent some time in interrupts. -/
def busyRow (cpu : Digits) (hcpu : cpu.value < nrCpus) : StatRow where
  cpu := cpu
  cpu_lt := hcpu
  user := zeroColumn
  nice := zeroColumn
  system := zeroColumn
  idle := zeroColumn
  iowait := zeroColumn
  irq := ⟨1, ⟨chars ['1', '2'], by decide, List.all_eq_true.mp (by decide)⟩⟩
  softirq := ⟨0, ⟨chars ['3'], by decide, List.all_eq_true.mp (by decide)⟩⟩
  rest := chars [' ', '0', ' ', '0']
  rest_text := by decide
  rest_head := by simp [chars, isdigit]

def stat : StatTable where
  all := chars ['c', 'p', 'u', ' ', ' ', '0']
  all_text := by decide
  rows :=
    [busyRow zero (by decide),
      busyRow ⟨chars ['1'], by decide, List.all_eq_true.mp (by decide)⟩ (by decide)]
  distinct := by decide
  footer :=
    { text := chars ['i', 'n', 't', 'r', ' ', '5', '3']
      isLine := by decide
      noCpu := by decide
      rest := chars ['c', 't', 'x', 't', ' ', '0', '\n'] }

end Sample

end CodeAnalyze.Irqbalance
