import CodeAnalyze.Irqbalance.Classify
import CodeAnalyze.Irqbalance.CpuTree

/-!
# Counts and loads: `procinterrupts.c`

`parse_proc_interrupts` brings the counters of the IRQs up to date;
`parse_proc_stat` reads the load of each CPU, carries it up the tree and shares
the load of each object out among its IRQs.
-/

namespace CodeAnalyze.Irqbalance

/-! ## `parse_proc_interrupts` -/

/-- Why `parse_proc_interrupts` asks for a rescan. -/
inductive RescanCause
  /-- `get_irq_info` does not know the IRQ. -/
  | unknownIrq
  /-- The number of columns is not `core_count`. -/
  | cpuColumns
  /-- The count went down. -/
  | countDecreased
  deriving DecidableEq

namespace State

/-- The entry a pointer of `get_irq_info` points to. -/
def refInfo (s : State) : InfoRef → IrqInfo
  | .db place => s.info place
  | .banned place => s.irqs.bannedIrqs[place]?.getD default

/-- What `parse_proc_interrupts` does with a numbered line. -/
def updateCount (s : State) (number : ℤ) (counts : Bytes) : Except RescanCause State :=
  match s.irqs.getIrqInfo number with
  | none => .error .unknownIrq
  | some ref =>
    let columns := strtoulls counts
    let count := columns.foldl (· + ·) 0
    if columns.length ≠ s.topo.coreCount then .error .cpuColumns
    else if count < (s.refInfo ref).irqCount then .error .countDecreased
    else
      let s :=
        { s with
          irqs := s.irqs.modifyRef ref fun info =>
            { info with lastIrqCount := info.irqCount, irqCount := count } }
      if (s.refInfo ref).type = .msi || (s.refInfo ref).type = .msix then
        .ok { s with msiFoundInSysfs := true }
      else .ok s

/-- The loop of `parse_proc_interrupts`. -/
def parseProcLines (s : State) : List Bytes → State × Option RescanCause
  | [] => (s, none)
  | line :: rest =>
    let s :=
      if strstr (cstr line) (chars ['M', 'S', 'I']) then { s with procIntHasMsi := true } else s
    match procLine line with
    | .stop => (s, none)
    | .skip => s.parseProcLines rest
    | .irq number counts =>
      match s.updateCount number counts with
      | .error cause => (s, some cause)
      | .ok s => s.parseProcLines rest

/-- `parse_proc_interrupts`. -/
def parseProcInterrupts (s : State) (file : Option Bytes) : State :=
  match file with
  | none => s
  | some file =>
    let (s, cause) := s.parseProcLines (procBuffers file)
    let s := { s with needRescan := s.needRescan || cause.isSome }
    if s.procIntHasMsi && !s.msiFoundInSysfs && !s.needRescan then
      { s with msiFoundInSysfs := true }
    else s

end State

/-! ## `parse_proc_stat`: the CPUs -/

/-- The buffers the loop of `parse_proc_stat` looks at. -/
def statBuffers (file : Bytes) : List Bytes :=
  match getlines file with
  | [] => []
  | first :: rest => rest ++ (staleLine (first :: rest)).toList

/-- `sscanf(line, "%*s %*u %*u %*u %*u %*u %llu %llu", &irq_load, &softirq_load)`,
where it converts both. -/
def scanLoads (line : Bytes) : Option (UInt64 × UInt64) := do
  let rest := (line.dropWhile isspace).dropWhile fun c => !isspace c
  let (_, rest) ← strtoull rest
  let (_, rest) ← strtoull rest
  let (_, rest) ← strtoull rest
  let (_, rest) ← strtoull rest
  let (_, rest) ← strtoull rest
  let (irqLoad, rest) ← strtoull rest
  let (softirqLoad, _) ← strtoull rest
  return (irqLoad, softirqLoad)

/-- `find_cpu_core`. -/
def findCpuCore (t : Topology) (cpunr : ℤ) : Option ℕ :=
  t.cpus.findIdx? fun cpu => cpu.number == cpunr

/-- What the loop of `parse_proc_stat` makes of a line. -/
inductive StatLine
  /-- `break`. -/
  | stop
  /-- A banned CPU: `continue`. -/
  | banned
  /-- The number and the two loads of a CPU that is not banned. -/
  | loads (cpunr : ℤ) (irqLoad softirqLoad : UInt64)
  deriving DecidableEq

/-- The head of the loop, up to `find_cpu_core`. -/
def statLine (cfg : Config) (line : Bytes) : StatLine :=
  let line := cstr line
  if !strstr line (chars ['c', 'p', 'u']) then .stop
  else
    let cpunr := toInt (strtoul (line.drop 3))
    if cpuIsset cpunr cfg.bannedCpus then .banned
    else
      match scanLoads line with
      | none => .stop
      | some (irqLoad, softirqLoad) => .loads cpunr irqLoad softirqLoad

/-- The loads a CPU object gets from its line. -/
def setCpuLoad (cfg : Config) (cycleCount : UInt64) (irqLoad softirqLoad : UInt64)
    (cpu : TopoObj) : TopoObj :=
  { cpu with
    load :=
      if cycleCount ≠ 0 then cfg.fpu.toNsec (irqLoad + softirqLoad - cpu.lastLoad) else cpu.load
    lastLoad := irqLoad + softirqLoad }

/-- The loop of `parse_proc_stat`, with the value of `cpucount` at its end. -/
def readCpuLoads (cfg : Config) (cycleCount : UInt64) (t : Topology) (cpucount : ℕ) :
    List Bytes → Topology × ℕ
  | [] => (t, cpucount)
  | line :: rest =>
    match statLine cfg line with
    | .stop => (t, cpucount)
    | .banned => readCpuLoads cfg cycleCount t cpucount rest
    | .loads cpunr irqLoad softirqLoad =>
      match findCpuCore t cpunr with
      | none => (t, cpucount)
      | some cpu =>
        readCpuLoads cfg cycleCount
          (t.modify ⟨.cpu, cpu⟩ (setCpuLoad cfg cycleCount irqLoad softirqLoad))
          (cpucount + 1) rest

/-! ## `parse_proc_stat`: the tree -/

/-- `reset_load`. -/
def Topology.resetLoad (t : Topology) (d : ObjRef) : Topology :=
  let t :=
    match _h : t.parentRef d with
    | none => t
    | some p => t.resetLoad p
  t.modify d fun o => { o with load := 0 }
termination_by 3 - d.objType.height
decreasing_by
  have := ObjType.height_above (Topology.objType_of_parentRef _h)
  have := p.objType.height_le
  omega

theorem Topology.resetLoad_root {t : Topology} {d : ObjRef} (h : t.parentRef d = none) :
    t.resetLoad d = t.modify d fun o => { o with load := 0 } := by
  rw [resetLoad]
  split
  · rfl
  · simp_all

theorem Topology.resetLoad_child {t : Topology} {d p : ObjRef} (h : t.parentRef d = some p) :
    t.resetLoad d = (t.resetLoad p).modify d fun o => { o with load := 0 } := by
  rw [resetLoad]
  split
  · simp_all
  · rename_i q hq
    rw [h, Option.some.injEq] at hq
    rw [hq]

namespace State

/-- `irq_count - last_irq_count`. -/
def irqDelta (s : State) (i : ℕ) : UInt64 := (s.info i).irqCount - (s.info i).lastIrqCount

/-- `accumulate_irq_count`. -/
def accumulateIrqCount (s : State) (acc : UInt64) (i : ℕ) : UInt64 := acc + s.irqDelta i

/-- `get_parent_branch_irq_count_share`. -/
def getParentBranchIrqCountShare (s : State) (d : ObjRef) : UInt64 :=
  let total :=
    match _h : s.topo.parentRef d with
    | none => 0
    | some p =>
      s.getParentBranchIrqCountShare p / UInt64.ofNat (s.obj p).children.length
  (s.obj d).interrupts.foldl s.accumulateIrqCount total
termination_by 3 - d.objType.height
decreasing_by
  have := ObjType.height_above (Topology.objType_of_parentRef _h)
  have := p.objType.height_le
  omega

theorem share_root {s : State} {d : ObjRef} (h : s.topo.parentRef d = none) :
    s.getParentBranchIrqCountShare d = (s.obj d).interrupts.foldl s.accumulateIrqCount 0 := by
  rw [getParentBranchIrqCountShare]
  split
  · rfl
  · simp_all

theorem share_child {s : State} {d p : ObjRef} (h : s.topo.parentRef d = some p) :
    s.getParentBranchIrqCountShare d =
      (s.obj d).interrupts.foldl s.accumulateIrqCount
        (s.getParentBranchIrqCountShare p / UInt64.ofNat (s.obj p).children.length) := by
  rw [getParentBranchIrqCountShare]
  split
  · simp_all
  · rename_i q hq
    rw [h, Option.some.injEq] at hq
    rw [hq]

/-- `assign_load_slice`. -/
def assignLoadSlice (loadSlice : UInt64) (s : State) (i : ℕ) : State :=
  let load := s.irqDelta i * loadSlice
  s.modifyInfo i fun info => { info with load := if load = 0 then 1 else load }

/-- `load_slice` of `compute_irq_branch_load_share`. -/
def loadSlice (s : State) (d : ObjRef) : UInt64 :=
  let localIrqCounts := s.getParentBranchIrqCountShare d
  if localIrqCounts ≠ 0 then (s.obj d).load / localIrqCounts else 1

/-- `d->load /= (load_divisor ? load_divisor : 1)`. -/
def divideLoad (s : State) (d : ObjRef) : State :=
  let loadDivisor := (s.obj d).children.length
  s.modifyObj d fun o =>
    { o with load := o.load / (if loadDivisor ≠ 0 then UInt64.ofNat loadDivisor else 1) }

/-- The load of `d` shared out among its IRQs. -/
def assignLoadSlices (s : State) (d : ObjRef) : State :=
  (s.obj d).interrupts.foldl (assignLoadSlice (s.loadSlice d)) s

/-- `if (d->parent) d->parent->load += d->load`. -/
def addLoadToParent (s : State) (d : ObjRef) : State :=
  match s.topo.parentRef d with
  | none => s
  | some p => s.modifyObj p fun o => { o with load := o.load + (s.obj d).load }

/-- `compute_irq_branch_load_share`. -/
def computeIrqBranchLoadShare (s : State) (d : ObjRef) : State :=
  ((s.divideLoad d).assignLoadSlices d).addLoadToParent d

/-- The passes of `parse_proc_stat` after its loop. -/
def propagateLoads (s : State) : State :=
  let s := { s with topo := (s.topo.refs .cache).foldl Topology.resetLoad s.topo }
  let s := (s.topo.refs .cpu).foldl computeIrqBranchLoadShare s
  let s := (s.topo.refs .cache).foldl computeIrqBranchLoadShare s
  let s := (s.topo.refs .package).foldl computeIrqBranchLoadShare s
  (s.topo.refs .node).foldl computeIrqBranchLoadShare s

/-- `parse_proc_stat`. -/
def parseProcStat (cfg : Config) (s : State) (file : Option Bytes) : State :=
  match file with
  | none => s
  | some file =>
    let (topo, cpucount) := readCpuLoads cfg s.cycleCount s.topo 0 (statBuffers file)
    let s := { s with topo := topo }
    if cpucount ≠ s.topo.cpus.length then s else s.propagateLoads

end State

end CodeAnalyze.Irqbalance
