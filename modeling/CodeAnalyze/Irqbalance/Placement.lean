import CodeAnalyze.Irqbalance.IrqBalancing

/-!
# Placing the IRQs: `placement.c`
-/

namespace CodeAnalyze.Irqbalance

/-- `struct obj_placement`; the IRQ it is for is passed along. -/
structure ObjPlacement where
  best : Option ObjRef := none
  leastIrqs : Option ObjRef := none
  bestCost : UInt64 := ulongMax
  deriving DecidableEq

namespace State

/-- The tests with which `find_best_object` passes an object over. -/
def skipsObject (cfg : Config) (s : State) (info : IrqInfo) (d : ObjRef) : Bool :=
  let obj := s.obj d
  (cfg.numaAvail && d.objType = .node && obj.number = -1) ||
    (d.objType = .node && !cpusIntersects obj.mask s.topo.unbannedCpus) ||
    (info.hintPolicy = .subset && !cpusEmpty info.affinityHint &&
      cpusEmpty (info.affinityHint &&& obj.mask)) ||
    obj.powersaveMode

/-- `find_best_object`. -/
def findBestObject (cfg : Config) (s : State) (info : IrqInfo) (place : ObjPlacement)
    (d : ObjRef) : Option ObjPlacement :=
  if s.skipsObject cfg info d then some place
  else
    let newload := (s.obj d).load
    let place :=
      if newload < place.bestCost then
        { best := some d, bestCost := newload, leastIrqs := none }
      else place
    if newload = place.bestCost then
      match place.best with
      | none => none
      | some best =>
        if (s.obj d).interrupts.length < (s.obj best).interrupts.length then
          some { place with leastIrqs := some d }
        else some place
    else some place

/-- The walk over candidates and the choice made from it. -/
def selectObject (cfg : Config) (s : State) (info : IrqInfo) (candidates : List ObjRef) :
    Option (Option ObjRef) := do
  let place ← candidates.foldlM (s.findBestObject cfg info) {}
  return place.leastIrqs <|> place.best

/-- The three statements that put an IRQ on an object, with the load they add. -/
def assignIrq (s : State) (src : IrqList) (d : ObjRef) (i : ℕ) (load : UInt64) : State :=
  let s := s.migrateIrq src (.ofObj d) i
  let s := s.modifyInfo i fun info => { info with assignedObj := some d }
  s.modifyObj d fun o => { o with load := o.load + load }

/-- The level at which `find_best_object_for_irq` leaves an IRQ on an object. -/
def staysAt (d : ObjRef) (level : BalanceLevel) : Bool :=
  match d.objType with
  | .node => level = .none
  | .package => level = .package
  | .cache => level = .cache
  | .cpu => level = .core

/-- `find_best_object_for_irq`. -/
def findBestObjectForIrq (cfg : Config) (d : ObjRef) (s : State) (i : ℕ) : Option State := do
  if !(s.info i).moved then return s
  if staysAt d (s.info i).level then return s
  match ← s.selectObject cfg (s.info i) (s.topo.childRefs d) with
  | none => return s
  | some asign => return s.assignIrq (.ofObj d) asign i (s.info i).load

/-- `place_irq_in_object`. -/
def placeIrqInObject (cfg : Config) (s : State) (d : ObjRef) : Option State :=
  (s.obj d).interrupts.foldlM (findBestObjectForIrq cfg d) s

/-- The part of `place_irq_in_node` after the label `find_placement`. -/
def findPlacement (cfg : Config) (s : State) (i : ℕ) : Option State := do
  match ← s.selectObject cfg (s.info i) (s.topo.refs .node) with
  | none => return s
  | some asign => return s.assignIrq .rebalance asign i (s.info i).load

/-- `place_irq_in_node`. -/
def placeIrqInNode (cfg : Config) (s : State) (i : ℕ) : Option State :=
  if (s.info i).level = .none && cpusEmpty cfg.bannedCpus then some s
  else
    match (s.info i).numaNode with
    | none => none
    | some node =>
      if (s.obj ⟨.node, node⟩).number ≠ -1 then
        if !cpusIntersects (s.obj ⟨.node, node⟩).mask s.topo.unbannedCpus then
          s.findPlacement cfg i
        else some (s.assignIrq .rebalance ⟨.node, node⟩ i ((s.info i).load + 1))
      else s.findPlacement cfg i

/-- `calculate_placement`. -/
def calculatePlacement (cfg : Config) (addr : ℕ → ℕ) (s : State) : Option State :=
  let s := s.sortIrqList addr .rebalance
  if s.irqs.rebalanceIrqList.length > 0 then do
    let s ← s.irqs.rebalanceIrqList.foldlM (placeIrqInNode cfg) s
    let s ← (s.topo.refs .node).foldlM (placeIrqInObject cfg) s
    let s ← (s.topo.refs .package).foldlM (placeIrqInObject cfg) s
    (s.topo.refs .cache).foldlM (placeIrqInObject cfg) s
  else some s

end State

end CodeAnalyze.Irqbalance
