import CodeAnalyze.Irqbalance.Activate
import CodeAnalyze.Lib.Run

/-!
# The daemon: `irqbalance.c`

`Op` is one of the calls `main` makes, with everything it reads from outside, and
`exec` is its effect.  `Main.next` is the control flow of `main`: which call
follows which.  `Ops.Reachable` lets the calls come in any order, and
`Main.Reachable` only in the order of `main`; what holds of every state of the
first kind holds of every state of the second.
-/

namespace CodeAnalyze.Irqbalance

/-- `build_object_tree`. -/
def State.buildObjectTree (cfg : Config) (sysfs : Sysfs) (stack : Stack) (s : State) : State :=
  let topo := buildNumaNodeList cfg sysfs s.topo
  let topo := parseCpuTree cfg sysfs stack topo
  { s with topo := topo, irqs := rebuildIrqDb cfg sysfs topo s.irqs }

/-- `free_object_tree`. -/
def State.freeObjectTree (s : State) : State :=
  { s with topo := clearCpuTree (freeNumaNodeList s.topo), irqs := s.irqs.freeIrqDb }

/-- `for_each_irq(NULL, force_rebalance_irq, NULL)`. -/
def State.forceRebalance (s : State) : State :=
  (List.range s.dbSize).foldl State.forceRebalanceIrq s

/-- What `main` does before it enters its loop, up to `force_rebalance_irq`. -/
def start (cfg : Config) (sysfs : Sysfs) (stack : Stack) : State :=
  (({} : State).buildObjectTree cfg sysfs stack).forceRebalance

/-- The rescan sequence of the main loop. -/
def State.rescan (cfg : Config) (sysfs : Sysfs) (stack : Stack) (s : State) : State :=
  let s := { s with needRescan := false, cycleCount := 0 }
  (s.freeObjectTree.buildObjectTree cfg sysfs stack).forceRebalance

/-- The calls of `main`. -/
inductive Op
  | clearWorkStats
  | parseProcInterrupts (file : Option Bytes)
  | parseProcStat (file : Option Bytes)
  /-- `need_rescan = 0` and the calls up to `force_rebalance_irq`. -/
  | rescan (sysfs : Sysfs) (stack : Stack)
  | updateMigrationStatus (addr : ℕ → ℕ)
  | calculatePlacement (addr : ℕ → ℕ)
  | activateMappings (smpAffinity : ℤ → SmpAffinity)
  /-- `cycle_count++`. -/
  | nextCycle
  /-- The handler of `SIGHUP`, which may run between any two calls. -/
  | forceRescan

/-- The effect of a call; `none` where it follows a NULL pointer. -/
def exec (cfg : Config) (s : State) : Op → Option State
  | .clearWorkStats => some s.clearWorkStats
  | .parseProcInterrupts file => some (s.parseProcInterrupts file)
  | .parseProcStat file => some (s.parseProcStat cfg file)
  | .rescan sysfs stack => some (s.clearWorkStats.rescan cfg sysfs stack)
  | .updateMigrationStatus addr => s.updateMigrationStatus cfg addr
  | .calculatePlacement addr => s.calculatePlacement cfg addr
  | .activateMappings smpAffinity => some (s.activateMappings cfg smpAffinity)
  | .nextCycle => some { s with cycleCount := s.cycleCount + 1 }
  | .forceRescan => some (if s.cycleCount ≠ 0 then { s with needRescan := true } else s)

namespace Ops

/-- The state after `force_rebalance_irq` has run for the first time. -/
def Init (cfg : Config) (s : State) : Prop := ∃ sysfs stack, s = start cfg sysfs stack

def Step (cfg : Config) (s : State) (op : Op) (s' : State) : Prop := exec cfg s op = some s'

/-- The states between the calls of `main`, whatever their order. -/
abbrev Reachable (cfg : Config) : State → Prop := Lib.Reachable (Init cfg) (Step cfg)

end Ops

namespace Main

/-- Where `main` stands: the call it is about to make. -/
inductive Pc
  /-- Before the loop. -/
  | firstInterrupts | firstStat
  /-- The head of the loop. -/
  | clear | interrupts | stat
  /-- At `if (need_rescan)`. -/
  | testRescan
  /-- The rest of the rescan branch. -/
  | rescanInterrupts | rescanStat | rescanClear | rescanInterrupts2 | rescanStat2
  /-- At `if (cycle_count)`. -/
  | testCycle
  | place | activate | count
  deriving DecidableEq

/-- The control flow of `main`: where it stands after a call, if it makes that
call there. -/
def next (s : State) : Pc → Op → Option Pc
  | .firstInterrupts, .parseProcInterrupts _ => some .firstStat
  | .firstStat, .parseProcStat _ => some .clear
  | .clear, .clearWorkStats => some .interrupts
  | .interrupts, .parseProcInterrupts _ => some .stat
  | .stat, .parseProcStat _ => some .testRescan
  | .testRescan, .rescan _ _ => if s.needRescan then some .rescanInterrupts else none
  | .testRescan, .updateMigrationStatus _ =>
    if !s.needRescan && s.cycleCount ≠ 0 then some .place else none
  | .testRescan, .calculatePlacement _ =>
    if !s.needRescan && s.cycleCount = 0 then some .activate else none
  | .rescanInterrupts, .parseProcInterrupts _ => some .rescanStat
  | .rescanStat, .parseProcStat _ => some .rescanClear
  | .rescanClear, .clearWorkStats => some .rescanInterrupts2
  | .rescanInterrupts2, .parseProcInterrupts _ => some .rescanStat2
  | .rescanStat2, .parseProcStat _ => some .testCycle
  | .testCycle, .updateMigrationStatus _ => if s.cycleCount ≠ 0 then some .place else none
  | .testCycle, .calculatePlacement _ => if s.cycleCount = 0 then some .activate else none
  | .place, .calculatePlacement _ => some .activate
  | .activate, .activateMappings _ => some .count
  | .count, .nextCycle => some .clear
  -- the signal handler returns to where it came from
  | pc, .forceRescan => some pc
  | _, _ => none

def Init (cfg : Config) (c : Pc × State) : Prop :=
  c.1 = .firstInterrupts ∧ Ops.Init cfg c.2

def Step (cfg : Config) (c : Pc × State) (op : Op) (c' : Pc × State) : Prop :=
  next c.2 c.1 op = some c'.1 ∧ Irqbalance.exec cfg c.2 op = some c'.2

/-- A step of `main`, computed. -/
def exec (cfg : Config) (c : Pc × State) (op : Op) : Option (Pc × State) := do
  let pc ← next c.2 c.1 op
  let s ← Irqbalance.exec cfg c.2 op
  return (pc, s)

theorem exec_eq_some {cfg : Config} {c c' : Pc × State} {op : Op} :
    exec cfg c op = some c' ↔ Step cfg c op c' := by
  obtain ⟨pc', s'⟩ := c'
  simp [exec, Step, Option.bind_eq_some_iff]

/-- The states of `main` between its calls. -/
abbrev Reachable (cfg : Config) : Pc × State → Prop := Lib.Reachable (Init cfg) (Step cfg)

/-- What `main` reaches in its own order, the calls reach in some order. -/
theorem Reachable.ops {cfg : Config} {c : Pc × State} (h : Reachable cfg c) :
    Ops.Reachable cfg c.2 := by
  refine Lib.Reachable.invariant_of (P := fun c => Ops.Reachable cfg c.2) ?_ ?_ h
  · exact fun c hinit => .init hinit.2 trivial
  · exact fun c op c' hreach hstep => .step hreach hstep.2 trivial

end Main

end CodeAnalyze.Irqbalance
