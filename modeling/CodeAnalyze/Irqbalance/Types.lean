import Mathlib.Data.Int.Notation
import Mathlib.Data.List.Count
import Mathlib.Tactic.Push
import Mathlib.Tactic.Common

/-!
# The daemon's data

The types of `types.h`, `cpumask.h` and `irqbalance.h`, and the state the
daemon keeps in its globals.

A pointer to a `struct topo_obj` is an `ObjRef`: which of the four master lists
the object is on, and its place there.  The lists only ever grow at their end
until the whole tree is torn down, so a place names the same object for as long
as the object lives, and two runs that build the same tree give its objects the
same names.  In the same way a pointer to an `irq_info` of `interrupts_db` is
its place in that list.

The levels of the tree are typed: the parent of a CPU is a place among the cache
domains, the children of a package are places among the cache domains, and so
on.  This is how the three functions that link objects use the untyped pointers
of the source.
-/

namespace CodeAnalyze.Irqbalance

/-! ## CPU masks -/

/-- `NR_CPUS`. -/
def nrCpus : ℕ := 4096

/-- `cpumask_t`. -/
abbrev Cpumask := BitVec nrCpus

/-- `cpu_set`. -/
def cpuSet (cpu : Fin nrCpus) (mask : Cpumask) : Cpumask :=
  mask ||| BitVec.twoPow nrCpus cpu

/-- `cpu_isset`, for a number below `NR_CPUS`: with any other the code reads behind the mask,
and here the CPU counts as not set. -/
def cpuIsset (cpu : ℤ) (mask : Cpumask) : Bool :=
  match cpu with
  | .ofNat n => mask.getLsbD n
  | .negSucc _ => false

def cpusEmpty (mask : Cpumask) : Bool := mask == 0#(nrCpus)

def cpusIntersects (a b : Cpumask) : Bool := !cpusEmpty (a &&& b)

/-- `CPU_MASK_ALL`, and what `cpus_setall` stores. -/
def cpuMaskAll : Cpumask := BitVec.allOnes nrCpus

theorem cpusEmpty_iff {mask : Cpumask} :
    cpusEmpty mask = true ↔ ∀ cpu : Fin nrCpus, mask.getLsbD cpu = false := by
  constructor
  · intro h cpu
    rw [show mask = 0#(nrCpus) by simpa [cpusEmpty] using h]
    simp
  · intro h
    have : mask = 0#(nrCpus) := by
      apply BitVec.eq_of_getLsbD_eq
      intro i hi
      simpa using h ⟨i, hi⟩
    simp [cpusEmpty, this]

theorem cpusIntersects_eq_false_iff {a b : Cpumask} :
    cpusIntersects a b = false ↔
      ∀ cpu : Fin nrCpus, a.getLsbD cpu = true → b.getLsbD cpu = false := by
  simp only [cpusIntersects, Bool.not_eq_false', cpusEmpty_iff, BitVec.getLsbD_and,
    Bool.and_eq_false_iff]
  refine forall_congr' fun cpu => ?_
  cases a.getLsbD cpu <;> simp

theorem cpusIntersects_of_mem {a b : Cpumask} (cpu : Fin nrCpus) (ha : a.getLsbD cpu = true)
    (hb : b.getLsbD cpu = true) : cpusIntersects a b = true := by
  by_contra h
  have hnot := cpusIntersects_eq_false_iff.mp (Bool.eq_false_iff.mpr h) cpu ha
  rw [hb] at hnot
  cases hnot

theorem cpusIntersects_eq_true_iff {a b : Cpumask} :
    cpusIntersects a b = true ↔
      ∃ cpu : Fin nrCpus, a.getLsbD cpu = true ∧ b.getLsbD cpu = true := by
  refine ⟨fun h => ?_, fun ⟨cpu, ha, hb⟩ => cpusIntersects_of_mem cpu ha hb⟩
  by_contra hnone
  push Not at hnone
  rw [cpusIntersects_eq_false_iff.mpr fun cpu ha => by simpa using hnone cpu ha] at h
  cases h

/-! ## Enumerations -/

/-- `BALANCE_NONE`, `BALANCE_PACKAGE`, `BALANCE_CACHE`, `BALANCE_CORE`. -/
inductive BalanceLevel
  | none | package | cache | core
  deriving DecidableEq, Repr

/-- The IRQ classes, in the numeric order `IRQ_OTHER = 0` to `IRQ_VIRT_EVENT = 7`. -/
inductive IrqClass
  | other | legacy | scsi | video | eth | gbeth | tenGbeth | virtEvent
  deriving DecidableEq, Repr

/-- The number the source gives a class. -/
def IrqClass.toNat : IrqClass → ℕ
  | other => 0
  | legacy => 1
  | scsi => 2
  | video => 3
  | eth => 4
  | gbeth => 5
  | tenGbeth => 6
  | virtEvent => 7

/-- `IRQ_TYPE_LEGACY` and the other IRQ types. -/
inductive IrqType
  | legacy | msi | msix | virtEvent
  deriving DecidableEq, Repr

/-- `enum hp_e`. -/
inductive HintPolicy
  | ignore | subset | exact
  deriving DecidableEq, Repr

/-- `enum obj_type_e`. -/
inductive ObjType
  | cpu | cache | package | node
  deriving DecidableEq, Repr

/-- The type of a parent. -/
def ObjType.above : ObjType → Option ObjType
  | cpu => some cache
  | cache => some package
  | package => some node
  | node => none

/-- The type of a child. -/
def ObjType.below : ObjType → Option ObjType
  | cpu => none
  | cache => some cpu
  | package => some cache
  | node => some package

/-- How far above the CPUs a type stands. -/
def ObjType.height : ObjType → ℕ
  | cpu => 0
  | cache => 1
  | package => 2
  | node => 3

theorem ObjType.above_eq_some_iff {a b : ObjType} : a.above = some b ↔ b.below = some a := by
  cases a <;> cases b <;> simp [above, below]

theorem ObjType.height_injective : Function.Injective ObjType.height := by
  intro a b h
  cases a <;> cases b <;> first | rfl | cases h

theorem ObjType.height_below {a b : ObjType} (h : a.below = some b) :
    b.height + 1 = a.height := by
  cases a <;> simp_all [below] <;> subst h <;> rfl

theorem ObjType.height_above {a b : ObjType} (h : a.above = some b) :
    a.height + 1 = b.height :=
  height_below (above_eq_some_iff.mp h)

theorem ObjType.height_le (a : ObjType) : a.height ≤ 3 := by
  cases a <;> simp [height]

/-! ## Topology objects -/

/-- A pointer to a `struct topo_obj`. -/
structure ObjRef where
  objType : ObjType
  place : ℕ
  deriving DecidableEq, Repr

/-- `struct topo_obj`.  `obj_type` and `obj_type_list` say which master list the
object is on, which its `ObjRef` says already. -/
structure TopoObj where
  load : UInt64 := 0
  lastLoad : UInt64 := 0
  number : ℤ := 0
  powersaveMode : Bool := false
  mask : Cpumask := 0#(nrCpus)
  /-- Places in `interrupts_db`. -/
  interrupts : List ℕ := []
  /-- A place on the list of the type above. -/
  parent : Option ℕ := none
  /-- Places on the list of the type below. -/
  children : List ℕ := []
  deriving DecidableEq

instance : Inhabited TopoObj := ⟨{}⟩

/-- The globals of `numa.c` and `cputree.c`. -/
structure Topology where
  numaNodes : List TopoObj := []
  packages : List TopoObj := []
  cacheDomains : List TopoObj := []
  cpus : List TopoObj := []
  packageCount : ℕ := 0
  cacheDomainCount : ℕ := 0
  coreCount : ℕ := 0
  cpuPossibleMap : Cpumask := 0#(nrCpus)
  unbannedCpus : Cpumask := 0#(nrCpus)
  deriving DecidableEq

namespace Topology

/-- The master list of a type. -/
def objs (t : Topology) : ObjType → List TopoObj
  | .node => t.numaNodes
  | .package => t.packages
  | .cache => t.cacheDomains
  | .cpu => t.cpus

/-- `r` points to an object on its master list. -/
def Valid (t : Topology) (r : ObjRef) : Prop :=
  r.place < (t.objs r.objType).length

instance (t : Topology) (r : ObjRef) : Decidable (t.Valid r) :=
  inferInstanceAs (Decidable (_ < _))

/-- The object a pointer points to. -/
def obj (t : Topology) (r : ObjRef) : TopoObj :=
  (t.objs r.objType)[r.place]?.getD default

/-- Writing through a pointer. -/
def modify (t : Topology) (r : ObjRef) (f : TopoObj → TopoObj) : Topology :=
  match r.objType with
  | .node => { t with numaNodes := t.numaNodes.modify r.place f }
  | .package => { t with packages := t.packages.modify r.place f }
  | .cache => { t with cacheDomains := t.cacheDomains.modify r.place f }
  | .cpu => { t with cpus := t.cpus.modify r.place f }

/-- The pointers a walk of a master list visits. -/
def refs (t : Topology) (ty : ObjType) : List ObjRef :=
  (List.range (t.objs ty).length).map (⟨ty, ·⟩)

/-- The pointers a walk of `d->children` visits. -/
def childRefs (t : Topology) (d : ObjRef) : List ObjRef :=
  match d.objType.below with
  | none => []
  | some ty => (t.obj d).children.map (⟨ty, ·⟩)

/-- `d->parent`. -/
def parentRef (t : Topology) (d : ObjRef) : Option ObjRef :=
  match d.objType.above, (t.obj d).parent with
  | some ty, some place => some ⟨ty, place⟩
  | _, _ => none

end Topology

/-! ## IRQs -/

/-- `struct irq_info`. -/
structure IrqInfo where
  irq : ℤ := 0
  irqClass : IrqClass := .other
  type : IrqType := .legacy
  level : BalanceLevel := .none
  /-- `IRQ_FLAG_BANNED` is set in `flags`. -/
  banned : Bool := false
  /-- A place in `numa_nodes`, or NULL. -/
  numaNode : Option ℕ := none
  cpumask : Cpumask := 0#(nrCpus)
  affinityHint : Cpumask := 0#(nrCpus)
  hintPolicy : HintPolicy := .ignore
  irqCount : UInt64 := 0
  lastIrqCount : UInt64 := 0
  load : UInt64 := 0
  moved : Bool := false
  assignedObj : Option ObjRef := none
  deriving DecidableEq

instance : Inhabited IrqInfo := ⟨{}⟩

/-- `struct user_irq_policy`.  A field the script has not set is `none`; the
source keeps `-1` there. -/
structure UserIrqPolicy where
  ban : Option Bool := none
  level : Option BalanceLevel := none
  /-- `numa_node`, once `numa_node_set` is 1. -/
  numaNode : Option ℤ := none
  hintpolicy : HintPolicy
  deriving DecidableEq

/-- The globals of `classify.c`, and `rebalance_irq_list`. -/
structure IrqDb where
  interruptsDb : List IrqInfo := []
  bannedIrqs : List IrqInfo := []
  /-- Places in `interrupts_db`. -/
  rebalanceIrqList : List ℕ := []
  /-- Ghost: the answers of the policy script since the last `free_irq_db`, in order. -/
  policyLog : List (ℤ × UserIrqPolicy) := []
  deriving DecidableEq

/-! ## The daemon -/

/-- The parts of the program that compute in floating point.  Each field is one
expression of the source. -/
structure Fpu where
  /-- `cpu->load *= NSEC_PER_SEC/HZ`. -/
  toNsec : UInt64 → UInt64
  /-- `(obj->load + info->std_deviation) <= info->avg_load`, where the deviation
  is the root of the middle argument. -/
  below : UInt64 → UInt64 → UInt64 → Bool
  /-- `(obj->load - info->std_deviation) >= info->avg_load`. -/
  above : UInt64 → UInt64 → UInt64 → Bool

/-- What `main` settles before it builds the tree. -/
structure Config where
  bannedCpus : Cpumask := 0#(nrCpus)
  numaAvail : Bool := false
  /-- `ULONG_MAX` is off. -/
  powerThresh : UInt64 := 0xFFFFFFFFFFFFFFFF
  /-- At least 1: `parse_command_line` exits otherwise. -/
  deepestCache : ℕ := 2
  globalHintPolicy : HintPolicy := .ignore
  /-- The arguments of `--banirq`, converted to `int`, in order. -/
  banirq : List ℤ := []
  /-- A policy script is given. -/
  polscript : Bool := false
  /-- A ban script is given. -/
  banscript : Bool := false
  fpu : Fpu

/-- The daemon's globals, between two of the calls `main` makes. -/
structure State where
  topo : Topology := {}
  irqs : IrqDb := {}
  needRescan : Bool := false
  cycleCount : UInt64 := 0
  procIntHasMsi : Bool := false
  msiFoundInSysfs : Bool := false
  /-- Ghost: what was written to `/proc/irq/N/smp_affinity`, in order. -/
  writes : List (ℤ × Cpumask) := []
  deriving DecidableEq

end CodeAnalyze.Irqbalance
