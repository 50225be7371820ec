import CodeAnalyze.Irqbalance.Frame
import CodeAnalyze.Irqbalance.GlistCode

/-!
# The daemon on linked lists

The calls of `main` once more, with `rebalance_irq_list` and the `interrupts` of the
objects as lists of cells in a heap.  `LinkedState.rest` is the rest of the daemon's state;
its own lists are empty, so that whatever a function reads of these lists it reads from the
heap.  A function that reads none of them is taken over as it is.

A head that is read or written is in an object that exists.
-/

namespace CodeAnalyze.Irqbalance

open Lib GlistCode

/-- Everything but the list of IRQs. -/
def TopoObj.withoutList (o : TopoObj) : TopoObj := { o with interrupts := [] }

/-- Everything but the lists of IRQs. -/
def State.withoutLists (s : State) : State :=
  { s with
    topo := s.topo.map TopoObj.withoutList
    irqs := { s.irqs with rebalanceIrqList := [] } }

/-- The daemon with its lists of IRQs in a heap. -/
structure LinkedState where
  rest : State := {}
  heap : Heap ℕ := {}
  head : IrqList → Ptr := fun _ => none

abbrev ListProg := StateT LinkedState Option

namespace LinkedState

variable {β τ : Type}

def onHeap (x : HeapProg ℕ β) : ListProg β := fun c =>
  (x.run c.heap).map fun r => (r.1, { c with heap := r.2 })

def readHead (l : IrqList) : ListProg Ptr := fun c =>
  if c.rest.ListValid l then some (c.head l, c) else none

def writeHead (l : IrqList) (p : Ptr) : ListProg Unit := fun c =>
  if c.rest.ListValid l then some ((), { c with head := Function.update c.head l p }) else none

def readRest (f : State → β) : ListProg β := fun c => some (f c.rest, c)

/-- A change of something else than the lists. -/
def modifyRest (f : State → State) : ListProg Unit := fun c =>
  some ((), { c with rest := f c.rest })

/-- A call of a function of `glist.c` whose result goes back into the head. -/
def updateList (l : IrqList) (f : Ptr → HeapProg ℕ Ptr) : ListProg Unit := do
  let p ← readHead l
  let p ← onHeap (f p)
  writeHead l p

/-- `g_list_length` of a list of IRQs. -/
def listLength (l : IrqList) : ListProg ℕ := do
  let p ← readHead l
  onHeap (gListLength p)

/-- `for_each_irq`. -/
def forEachIrq (l : IrqList) (cb : τ → ℕ → ListProg τ) (t : τ) : ListProg τ := do
  let list ← readHead l
  if list.isSome then
    let entry ← onHeap (gListFirst list)
    let n ← onHeap rounds
    walk (fun p => onHeap (load p)) cb n t entry
  else
    let n ← readRest State.dbSize
    (List.range n).foldlM cb t

/-! ## `classify.c` -/

/-- `compare_ints` says that `j` is the IRQ looked for. -/
def sameIrq (s : State) (i j : ℕ) : Bool := (s.info j).irq == (s.info i).irq

variable (cfg : Config) (alloc : Allocator ℕ) (addr : ℕ → ℕ)

/-- `migrate_irq`. -/
def migrateIrq (src dst : IrqList) (i : ℕ) : ListProg Unit := do
  let same ← readRest fun s => sameIrq s i
  let p ← readHead src
  let entry ← onHeap (gListFindCustom p same)
  if entry.isSome then
    let node ← onHeap (load entry)
    updateList src fun p => gListDeleteLink p entry
    updateList dst fun p => gListAppend alloc p node.data
    modifyRest fun s => s.modifyInfo i fun info => { info with moved := true }
  else return ()

/-- `info->assigned_obj = d`. -/
def setAssigned (i : ℕ) (d : Option ObjRef) : ListProg Unit :=
  modifyRest fun s => s.modifyInfo i fun info => { info with assignedObj := d }

/-- `sort_irq_list`. -/
def sortIrqList (l : IrqList) : ListProg Unit := do
  let cmp ← readRest fun s => s.sortIrqs addr
  updateList l (GlistCode.gListSort cmp)

/-- `force_rebalance_irq`. -/
def forceRebalanceIrq (_ : Unit) (i : ℕ) : ListProg Unit := do
  let info ← readRest fun s => s.info i
  if info.level = .none then return ()
  else
    match info.assignedObj with
    | none => do
      updateList .rebalance fun p => gListAppend alloc p i
      setAssigned i none
    | some d => do
      migrateIrq alloc (.ofObj d) .rebalance i
      setAssigned i none

/-! ## `irqlist.c` -/

/-- `move_candidate_irqs`. -/
def moveCandidateIrqs (lb : LoadBalanceInfo) (i : ℕ) : ListProg LoadBalanceInfo := do
  let info ← readRest fun s => s.info i
  if info.hintPolicy = .exact && !cpusEmpty info.affinityHint then return lb
  else if info.level = .none then return lb
  else
    match info.assignedObj with
    | none => failure
    | some d => do
      let length ← listLength (.ofObj d)
      if length ≤ 1 then return lb
      else if info.load ≤ 1 then return lb
      else if lb.adjustmentLoad - info.load > lb.minLoad + info.load then
        migrateIrq alloc (.ofObj d) .rebalance i
        setAssigned i none
        return { lb with
          adjustmentLoad := lb.adjustmentLoad - info.load
          minLoad := lb.minLoad + info.load }
      else return lb

/-- `migrate_overloaded_irqs`. -/
def migrateOverloadedIrqs (lb : LoadBalanceInfo) (d : ObjRef) : ListProg LoadBalanceInfo := do
  let lb ← readRest fun s => s.countObj cfg d lb
  let load ← readRest fun s => (s.obj d).load
  let length ← listLength (.ofObj d)
  if load > lb.minLoad && length > 1 then
    sortIrqList addr (.ofObj d)
    forEachIrq (.ofObj d) (moveCandidateIrqs alloc) { lb with adjustmentLoad := load }
  else return lb

/-- `find_overloaded_objs`. -/
def findOverloadedObjs (ty : ObjType) : ListProg LoadBalanceInfo := do
  let name ← readRest fun s => s.topo.refs ty
  let lb ← readRest fun s => loadStats s.topo name
  name.foldlM (migrateOverloadedIrqs cfg alloc addr) lb

/-- `force_irq_migration`. -/
def forceIrqMigration (_ : Unit) (i : ℕ) : ListProg Unit := do
  let assigned ← readRest fun s => (s.info i).assignedObj
  match assigned with
  | none => failure
  | some d => do
    migrateIrq alloc (.ofObj d) .rebalance i
    setAssigned i none

/-- The branch of `update_migration_status` that puts a CPU into powersave mode. -/
def enterPowersave (d : ObjRef) : ListProg Unit := do
  modifyRest fun s => s.modifyObj d fun o => { o with powersaveMode := true }
  let length ← listLength (.ofObj d)
  if length > 0 then forEachIrq (.ofObj d) (forceIrqMigration alloc) () else return ()

/-- The powersave part of `update_migration_status`. -/
def powersaveStep (info : LoadBalanceInfo) : ListProg Unit := do
  let cycleCount ← readRest State.cycleCount
  if cfg.powerThresh ≠ ulongMax && cycleCount > 5 then
    match info.numOver = 0 && info.numUnder ≥ cfg.powerThresh.toNat, info.powersave with
    | true, some d => enterPowersave alloc d
    | _, _ =>
      if info.numOver ≠ 0 && info.numPowersave ≠ 0 then
        modifyRest fun s => (s.topo.refs .cpu).foldl State.clearPowersaveMode s
      else return ()
  else return ()

/-- `update_migration_status`. -/
def updateMigrationStatus : ListProg Unit := do
  let info ← findOverloadedObjs cfg alloc addr .cpu
  powersaveStep cfg alloc info
  discard (findOverloadedObjs cfg alloc addr .cache)
  discard (findOverloadedObjs cfg alloc addr .package)
  discard (findOverloadedObjs cfg alloc addr .node)

/-! ## `placement.c` -/

/-- `find_best_object`. -/
def findBestObject (info : IrqInfo) (place : ObjPlacement) (d : ObjRef) :
    ListProg ObjPlacement := do
  let skips ← readRest fun s => s.skipsObject cfg info d
  let newload ← readRest fun s => (s.obj d).load
  if skips then return place
  else
    let place :=
      if newload < place.bestCost then
        { best := some d, bestCost := newload, leastIrqs := none }
      else place
    if newload = place.bestCost then
      match place.best with
      | none => failure
      | some best => do
        let length ← listLength (.ofObj d)
        let bestLength ← listLength (.ofObj best)
        if length < bestLength then return { place with leastIrqs := some d } else return place
    else return place

/-- The walk over candidates and the choice made from it. -/
def selectObject (info : IrqInfo) (candidates : List ObjRef) : ListProg (Option ObjRef) := do
  let place ← candidates.foldlM (findBestObject cfg info) {}
  return place.leastIrqs <|> place.best

/-- The three statements that put an IRQ on an object, with the load they add. -/
def assignIrq (src : IrqList) (d : ObjRef) (i : ℕ) (load : UInt64) : ListProg Unit := do
  migrateIrq alloc src (.ofObj d) i
  setAssigned i (some d)
  modifyRest fun s => s.modifyObj d fun o => { o with load := o.load + load }

/-- `find_best_object_for_irq`. -/
def findBestObjectForIrq (d : ObjRef) (_ : Unit) (i : ℕ) : ListProg Unit := do
  let info ← readRest fun s => s.info i
  if !info.moved then return ()
  else if State.staysAt d info.level then return ()
  else
    let children ← readRest fun s => s.topo.childRefs d
    let asign ← selectObject cfg info children
    match asign with
    | none => return ()
    | some asign => assignIrq alloc (.ofObj d) asign i info.load

/-- `place_irq_in_object`. -/
def placeIrqInObject (_ : Unit) (d : ObjRef) : ListProg Unit := do
  let length ← listLength (.ofObj d)
  if length > 0 then forEachIrq (.ofObj d) (findBestObjectForIrq cfg alloc d) () else return ()

/-- The part of `place_irq_in_node` after the label `find_placement`. -/
def findPlacement (i : ℕ) : ListProg Unit := do
  let info ← readRest fun s => s.info i
  let nodes ← readRest fun s => s.topo.refs .node
  let asign ← selectObject cfg info nodes
  match asign with
  | none => return ()
  | some asign => assignIrq alloc .rebalance asign i info.load

/-- `place_irq_in_node`. -/
def placeIrqInNode (_ : Unit) (i : ℕ) : ListProg Unit := do
  let info ← readRest fun s => s.info i
  if info.level = .none && cpusEmpty cfg.bannedCpus then return ()
  else
    match info.numaNode with
    | none => failure
    | some node => do
      let number ← readRest fun s => (s.obj ⟨.node, node⟩).number
      let usable ← readRest fun s =>
        cpusIntersects (s.obj ⟨.node, node⟩).mask s.topo.unbannedCpus
      if number ≠ -1 then
        if !usable then findPlacement cfg alloc i
        else assignIrq alloc .rebalance ⟨.node, node⟩ i (info.load + 1)
      else findPlacement cfg alloc i

/-- The walk of a master list whose callback is `place_irq_in_object`. -/
def placeLevel (ty : ObjType) : ListProg Unit := do
  let objs ← readRest fun s => s.topo.refs ty
  objs.foldlM (placeIrqInObject cfg alloc) ()

/-- `calculate_placement`. -/
def calculatePlacement : ListProg Unit := do
  sortIrqList addr .rebalance
  let length ← listLength .rebalance
  if length > 0 then
    forEachIrq .rebalance (placeIrqInNode cfg alloc) ()
    placeLevel cfg alloc .node
    placeLevel cfg alloc .package
    placeLevel cfg alloc .cache
  else return ()

/-! ## `cputree.c` and `procinterrupts.c` -/

/-- `clear_irq_stats`. -/
def clearIrqStats (_ : Unit) (i : ℕ) : ListProg Unit :=
  modifyRest fun s => s.clearIrqStats i

/-- `clear_obj_stats`. -/
def clearObjStats (d : ObjRef) : ListProg Unit := fun c =>
  (do
    (c.rest.topo.childRefs d).attach.foldlM (fun _ child => clearObjStats child.1) ()
    forEachIrq (.ofObj d) clearIrqStats () : ListProg Unit).run c
termination_by d.objType.height
decreasing_by
  have := ObjType.height_below (Topology.objType_of_mem_childRefs child.2)
  omega

/-- `clear_work_stats`. -/
def clearWorkStats : ListProg Unit := do
  let nodes ← readRest fun s => s.topo.refs .node
  nodes.foldlM (fun _ d => clearObjStats d) ()

/-- `accumulate_irq_count`. -/
def accumulateIrqCount (acc : UInt64) (i : ℕ) : ListProg UInt64 :=
  readRest fun s => s.accumulateIrqCount acc i

/-- The counts of the IRQs of `d`, on top of what comes from above. -/
def addIrqCounts (d : ObjRef) (total : UInt64) : ListProg UInt64 := do
  let length ← listLength (.ofObj d)
  if length > 0 then forEachIrq (.ofObj d) accumulateIrqCount total else return total

/-- `get_parent_branch_irq_count_share`. -/
def getParentBranchIrqCountShare (d : ObjRef) : ListProg UInt64 := fun c =>
  match _h : c.rest.topo.parentRef d with
  | none => (addIrqCounts d 0).run c
  | some p =>
    (do
      let total ← getParentBranchIrqCountShare p
      let children ← readRest fun s => (s.obj p).children.length
      addIrqCounts d (total / UInt64.ofNat children) : ListProg UInt64).run c
termination_by 3 - d.objType.height
decreasing_by
  have := ObjType.height_above (Topology.objType_of_parentRef _h)
  have := p.objType.height_le
  omega

/-- `assign_load_slice`. -/
def assignLoadSlice (loadSlice : UInt64) (_ : Unit) (i : ℕ) : ListProg Unit :=
  modifyRest fun s => s.assignLoadSlice loadSlice i

/-- The load of `d` shared out among its IRQs. -/
def assignLoadSlices (d : ObjRef) : ListProg Unit := do
  let length ← listLength (.ofObj d)
  if length > 0 then
    let localIrqCounts ← getParentBranchIrqCountShare d
    let load ← readRest fun s => (s.obj d).load
    let loadSlice := if localIrqCounts ≠ 0 then load / localIrqCounts else 1
    forEachIrq (.ofObj d) (assignLoadSlice loadSlice) ()
  else return ()

/-- `compute_irq_branch_load_share`. -/
def computeIrqBranchLoadShare (_ : Unit) (d : ObjRef) : ListProg Unit := do
  modifyRest fun s => s.divideLoad d
  assignLoadSlices d
  modifyRest fun s => s.addLoadToParent d

/-- The walk of a master list whose callback is `compute_irq_branch_load_share`. -/
def shareLevel (ty : ObjType) : ListProg Unit := do
  let objs ← readRest fun s => s.topo.refs ty
  objs.foldlM computeIrqBranchLoadShare ()

/-- The passes of `parse_proc_stat` after its loop. -/
def propagateLoads : ListProg Unit := do
  modifyRest fun s => { s with topo := (s.topo.refs .cache).foldl Topology.resetLoad s.topo }
  shareLevel .cpu
  shareLevel .cache
  shareLevel .package
  shareLevel .node

/-- `parse_proc_stat`. -/
def parseProcStat (file : Option Bytes) : ListProg Unit :=
  match file with
  | none => return ()
  | some file => do
    let cpucount ← readRest fun s =>
      (readCpuLoads cfg s.cycleCount s.topo 0 (statBuffers file)).2
    modifyRest fun s =>
      { s with topo := (readCpuLoads cfg s.cycleCount s.topo 0 (statBuffers file)).1 }
    let cpus ← readRest fun s => s.topo.cpus.length
    if cpucount ≠ cpus then return () else propagateLoads

/-! ## `irqbalance.c` -/

/-- `g_list_free` of a list of IRQs, whose head is cleared or goes with its object. -/
def freeList (_ : Unit) (l : IrqList) : ListProg Unit :=
  updateList l fun p => do
    gListFree p
    return none

/-- The lists `free_object_tree` frees. -/
def freeLists : ListProg Unit := do
  let objs ← readRest fun s =>
    s.topo.refs .node ++ s.topo.refs .package ++ s.topo.refs .cache ++ s.topo.refs .cpu
  (objs.map IrqList.ofObj ++ [IrqList.rebalance]).foldlM freeList ()

/-- `for_each_irq(NULL, force_rebalance_irq, NULL)`. -/
def forceRebalance : ListProg Unit := do
  let n ← readRest State.dbSize
  (List.range n).foldlM (forceRebalanceIrq alloc) ()

/-- What `main` does before it enters its loop, up to `force_rebalance_irq`. -/
def start (sysfs : Sysfs) (stack : Stack) : ListProg Unit := do
  modifyRest fun s => s.buildObjectTree cfg sysfs stack
  forceRebalance alloc

/-- The rescan sequence of the main loop. -/
def rescan (sysfs : Sysfs) (stack : Stack) : ListProg Unit := do
  modifyRest fun s => { s with needRescan := false, cycleCount := 0 }
  freeLists
  modifyRest fun s => s.freeObjectTree.buildObjectTree cfg sysfs stack
  forceRebalance alloc

/-- The effect of a call of `main`. -/
def exec : Op → ListProg Unit
  | .clearWorkStats => clearWorkStats
  | .parseProcInterrupts file => modifyRest fun s => s.parseProcInterrupts file
  | .parseProcStat file => parseProcStat cfg file
  | .rescan sysfs stack => do
    clearWorkStats
    rescan cfg alloc sysfs stack
  | .updateMigrationStatus addr => updateMigrationStatus cfg alloc addr
  | .calculatePlacement addr => calculatePlacement cfg alloc addr
  | .activateMappings smpAffinity => modifyRest fun s => s.activateMappings cfg smpAffinity
  | .nextCycle => modifyRest fun s => { s with cycleCount := s.cycleCount + 1 }
  | .forceRescan => modifyRest fun s =>
    if s.cycleCount ≠ 0 then { s with needRescan := true } else s

end LinkedState

end CodeAnalyze.Irqbalance
