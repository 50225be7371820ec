import CodeAnalyze.Irqbalance.ProcInterrupts

/-!
# Choosing the IRQs to move: `irqlist.c`

A function that would follow a NULL pointer returns `none`.
-/

namespace CodeAnalyze.Irqbalance

/-- `ULONG_MAX`, `ULLONG_MAX`. -/
def ulongMax : UInt64 := 0xFFFFFFFFFFFFFFFF

/-- `struct load_balance_info`.  In place of `std_deviation` it holds the number
under the root; the root is taken where the deviation is compared. -/
structure LoadBalanceInfo where
  totalLoad : UInt64 := 0
  avgLoad : UInt64 := 0
  minLoad : UInt64 := 0
  adjustmentLoad : UInt64 := 0
  loadSources : ℕ := 0
  deviations : UInt64 := 0
  variance : UInt64 := 0
  numOver : ℕ := 0
  numUnder : ℕ := 0
  numPowersave : ℕ := 0
  powersave : Option ObjRef := none
  deriving DecidableEq

/-- `gather_load_stats`. -/
def gatherLoadStats (t : Topology) (info : LoadBalanceInfo) (d : ObjRef) : LoadBalanceInfo :=
  { info with
    minLoad :=
      if info.minLoad = 0 || (t.obj d).load < info.minLoad then (t.obj d).load else info.minLoad
    totalLoad := info.totalLoad + (t.obj d).load
    loadSources := info.loadSources + 1 }

/-- `compute_deviations`. -/
def computeDeviations (t : Topology) (info : LoadBalanceInfo) (d : ObjRef) : LoadBalanceInfo :=
  let deviation :=
    if (t.obj d).load > info.avgLoad then (t.obj d).load - info.avgLoad
    else info.avgLoad - (t.obj d).load
  { info with deviations := info.deviations + deviation * deviation }

/-- The statistics `find_overloaded_objs` computes before it looks at the objects
one by one. -/
def loadStats (t : Topology) (name : List ObjRef) : LoadBalanceInfo :=
  let info := name.foldl (gatherLoadStats t) {}
  let info := { info with loadSources := if info.loadSources = 0 then 1 else info.loadSources }
  let info := { info with avgLoad := info.totalLoad / UInt64.ofNat info.loadSources }
  let info := name.foldl (computeDeviations t) info
  { info with
    variance :=
      if info.loadSources = 1 then 0
      else info.deviations / UInt64.ofNat (info.loadSources - 1) }

namespace State

/-- `move_candidate_irqs`. -/
def moveCandidateIrqs (si : State × LoadBalanceInfo) (i : ℕ) :
    Option (State × LoadBalanceInfo) :=
  let (s, lb) := si
  let info := s.info i
  if info.hintPolicy = .exact && !cpusEmpty info.affinityHint then some (s, lb)
  else if info.level = .none then some (s, lb)
  else
    match info.assignedObj with
    | none => none
    | some d =>
      if (s.obj d).interrupts.length ≤ 1 then some (s, lb)
      else if info.load ≤ 1 then some (s, lb)
      else if lb.adjustmentLoad - info.load > lb.minLoad + info.load then
        let lb :=
          { lb with
            adjustmentLoad := lb.adjustmentLoad - info.load
            minLoad := lb.minLoad + info.load }
        let s := s.migrateIrq (.ofObj d) .rebalance i
        some (s.modifyInfo i fun info => { info with assignedObj := none }, lb)
      else some (s, lb)

/-- The bookkeeping of `migrate_overloaded_irqs`: the powersave, under and over
counters, and the candidate for powersave. -/
def countObj (cfg : Config) (s : State) (d : ObjRef) (lb : LoadBalanceInfo) : LoadBalanceInfo :=
  let obj := s.obj d
  let lb := if obj.powersaveMode then { lb with numPowersave := lb.numPowersave + 1 } else lb
  if cfg.fpu.below obj.load lb.variance lb.avgLoad then
    let lb := { lb with numUnder := lb.numUnder + 1 }
    if cfg.powerThresh ≠ ulongMax && lb.powersave.isNone && !obj.powersaveMode then
      { lb with powersave := some d }
    else lb
  else if cfg.fpu.above obj.load lb.variance lb.avgLoad then
    { lb with numOver := lb.numOver + 1 }
  else lb

/-- The walk of `migrate_overloaded_irqs` over the IRQs of an object. -/
def moveCandidates (s : State) (lb : LoadBalanceInfo) (d : ObjRef) (list : List ℕ) :
    Option (State × LoadBalanceInfo) :=
  list.foldlM moveCandidateIrqs (s, { lb with adjustmentLoad := (s.obj d).load })

/-- `migrate_overloaded_irqs`. -/
def migrateOverloadedIrqs (cfg : Config) (addr : ℕ → ℕ) (si : State × LoadBalanceInfo)
    (d : ObjRef) : Option (State × LoadBalanceInfo) :=
  let (s, lb) := si
  let lb := s.countObj cfg d lb
  if (s.obj d).load > lb.minLoad && (s.obj d).interrupts.length > 1 then
    let s := s.sortIrqList addr (.ofObj d)
    s.moveCandidates lb d (s.obj d).interrupts
  else some (s, lb)

/-- `force_irq_migration`. -/
def forceIrqMigration (s : State) (i : ℕ) : Option State :=
  match (s.info i).assignedObj with
  | none => none
  | some d =>
    some ((s.migrateIrq (.ofObj d) .rebalance i).modifyInfo i
      fun info => { info with assignedObj := none })

/-- `clear_powersave_mode`. -/
def clearPowersaveMode (s : State) (d : ObjRef) : State :=
  s.modifyObj d fun o => { o with powersaveMode := false }

/-- `find_overloaded_objs`. -/
def findOverloadedObjs (cfg : Config) (addr : ℕ → ℕ) (s : State) (ty : ObjType) :
    Option (State × LoadBalanceInfo) :=
  (s.topo.refs ty).foldlM (migrateOverloadedIrqs cfg addr) (s, loadStats s.topo (s.topo.refs ty))

/-- The branch of `update_migration_status` that puts a CPU into powersave mode. -/
def enterPowersave (s : State) (d : ObjRef) : Option State :=
  let s := s.modifyObj d fun o => { o with powersaveMode := true }
  (s.obj d).interrupts.foldlM forceIrqMigration s

/-- The powersave part of `update_migration_status`. -/
def powersaveStep (cfg : Config) (s : State) (info : LoadBalanceInfo) : Option State :=
  if cfg.powerThresh ≠ ulongMax && s.cycleCount > 5 then
    match info.numOver = 0 && info.numUnder ≥ cfg.powerThresh.toNat, info.powersave with
    | true, some d => s.enterPowersave d
    | _, _ =>
      if info.numOver ≠ 0 && info.numPowersave ≠ 0 then
        some ((s.topo.refs .cpu).foldl clearPowersaveMode s)
      else some s
  else some s

/-- `update_migration_status`. -/
def updateMigrationStatus (cfg : Config) (addr : ℕ → ℕ) (s : State) : Option State := do
  let (s, info) ← s.findOverloadedObjs cfg addr .cpu
  let s ← s.powersaveStep cfg info
  let (s, _) ← s.findOverloadedObjs cfg addr .cache
  let (s, _) ← s.findOverloadedObjs cfg addr .package
  let (s, _) ← s.findOverloadedObjs cfg addr .node
  return s

end State

end CodeAnalyze.Irqbalance
