import CodeAnalyze.Irqbalance.Daemon
import CodeAnalyze.Lib.Loop
import Mathlib.Data.Nat.Init

/-!
# What the calls of `main` leave alone

Two views of the state.  `fixed` is what only a rebuild changes: the shape of the
tree, the masks and numbers of its objects, and of each IRQ what
`add_one_irq_to_db` stored.  `still` is what the calls that only collect
statistics leave alone: it forgets the loads and the counters and keeps
everything else about objects and IRQs, the lists and what was written.
-/

namespace CodeAnalyze.Irqbalance

open Lib

/-! ## Views -/

theorem map_modify_eq {α β : Type*} {f : α → α} {g : α → β} (h : ∀ a, g (f a) = g a)
    (l : List α) (i : ℕ) : (l.modify i f).map g = l.map g := by
  apply List.ext_getElem?
  intro n
  rw [List.getElem?_map, List.getElem?_map, List.getElem?_modify]
  cases l[n]? with
  | none => rfl
  | some a => by_cases hi : i = n <;> simp [hi, h]

/-- The tree with every object seen through `g`. -/
def Topology.map (g : TopoObj → TopoObj) (t : Topology) : Topology :=
  { t with
    numaNodes := t.numaNodes.map g
    packages := t.packages.map g
    cacheDomains := t.cacheDomains.map g
    cpus := t.cpus.map g }

/-- What a view of the state shows. -/
abbrev Seen := Topology × List IrqInfo × List IrqInfo × List (ℤ × UserIrqPolicy)

/-- The tree and the database with every object seen through `g` and every entry
through `k`. -/
def State.seen (g : TopoObj → TopoObj) (k : IrqInfo → IrqInfo) (s : State) : Seen :=
  (s.topo.map g, s.irqs.interruptsDb.map k, s.irqs.bannedIrqs.map k, s.irqs.policyLog)

def TopoObj.fixed (o : TopoObj) : TopoObj :=
  { o with load := 0, lastLoad := 0, powersaveMode := false, interrupts := [] }

def IrqInfo.fixed (info : IrqInfo) : IrqInfo :=
  { info with irqCount := 0, lastIrqCount := 0, load := 0, moved := false, assignedObj := none }

def TopoObj.still (o : TopoObj) : TopoObj := { o with load := 0, lastLoad := 0 }

def IrqInfo.still (info : IrqInfo) : IrqInfo :=
  { info with irqCount := 0, lastIrqCount := 0, load := 0 }

/-- What only a rebuild changes. -/
def State.fixed (s : State) : Seen :=
  s.seen TopoObj.fixed IrqInfo.fixed

/-- What collecting statistics leaves alone. -/
def State.still (s : State) : Seen × List ℕ × List (ℤ × Cpumask) :=
  (s.seen TopoObj.still IrqInfo.still, s.irqs.rebalanceIrqList, s.writes)

section Views

variable {g : TopoObj → TopoObj} {k : IrqInfo → IrqInfo} (s : State) (r : ObjRef)

theorem Topology.map_modify {f : TopoObj → TopoObj} (hf : ∀ o, g (f o) = g o) (t : Topology) :
    (t.modify r f).map g = t.map g := by
  obtain ⟨ty, place⟩ := r
  cases ty <;> simp [map, modify, map_modify_eq hf]

theorem State.seen_modifyObj {f : TopoObj → TopoObj} (hf : ∀ o, g (f o) = g o) :
    (s.modifyObj r f).seen g k = s.seen g k := by
  simp [seen, modifyObj, Topology.map_modify r hf]

theorem State.seen_modifyInfo {f : IrqInfo → IrqInfo} (i : ℕ) (hf : ∀ o, k (f o) = k o) :
    (s.modifyInfo i f).seen g k = s.seen g k := by
  simp [seen, modifyInfo, map_modify_eq hf]

theorem State.seen_modifyIrqList (hg : ∀ (o : TopoObj) l, g { o with interrupts := l } = g o)
    (l : IrqList) (f : List ℕ → List ℕ) : (s.modifyIrqList l f).seen g k = s.seen g k := by
  cases l with
  | rebalance => rfl
  | ofObj r => exact s.seen_modifyObj r fun o => hg o _

theorem Topology.map_objs (t : Topology) (ty : ObjType) :
    (t.map g).objs ty = (t.objs ty).map g := by
  cases ty <;> rfl

theorem Topology.map_obj (hg : g default = default) (t : Topology) :
    (t.map g).obj r = g (t.obj r) := by
  unfold obj
  rw [map_objs, List.getElem?_map]
  cases (t.objs r.objType)[r.place]? with
  | none => exact hg.symm
  | some o => rfl

variable {s} {s' : State}

theorem State.obj_of_seen (h : s'.seen g k = s.seen g k) (hg : g default = default) :
    g (s'.obj r) = g (s.obj r) := by
  have htopo : s'.topo.map g = s.topo.map g := congrArg Prod.fst h
  rw [← Topology.map_obj r hg, ← Topology.map_obj r hg, htopo]

theorem State.info_of_seen (h : s'.seen g k = s.seen g k) (hk : k default = default) (i : ℕ) :
    k (s'.info i) = k (s.info i) := by
  have hmap : s'.irqs.interruptsDb.map k = s.irqs.interruptsDb.map k :=
    congrArg (fun v => v.2.1) h
  have hget := congrArg (fun l : List IrqInfo => l[i]?.getD default) hmap
  simp only [List.getElem?_map] at hget
  unfold info
  cases hs : s.irqs.interruptsDb[i]? <;> cases hs' : s'.irqs.interruptsDb[i]? <;>
    simp_all

theorem State.dbSize_of_seen (h : s'.seen g k = s.seen g k) : s'.dbSize = s.dbSize := by
  have hlength := congrArg (fun v => v.2.1.length) h
  simpa only [seen, List.length_map] using hlength

theorem State.length_objs_of_seen (h : s'.seen g k = s.seen g k) (ty : ObjType) :
    (s'.topo.objs ty).length = (s.topo.objs ty).length := by
  have hmap := congrArg (fun v => (v.1.objs ty).length) h
  simpa [seen, Topology.map_objs] using hmap

end Views

/-! ## What equal views say -/

namespace State

variable {s s' : State} (h : s'.fixed = s.fixed) (r : ObjRef) (i : ℕ) (ty : ObjType)
include h

theorem fixed_obj : (s'.obj r).fixed = (s.obj r).fixed := obj_of_seen r h rfl

theorem fixed_info : (s'.info i).fixed = (s.info i).fixed := info_of_seen h rfl i

theorem fixed_dbSize : s'.dbSize = s.dbSize := dbSize_of_seen h

theorem fixed_mask : (s'.obj r).mask = (s.obj r).mask := (congrArg TopoObj.mask (fixed_obj h r) :)

theorem fixed_number : (s'.obj r).number = (s.obj r).number :=
  (congrArg TopoObj.number (fixed_obj h r) :)

theorem fixed_children : (s'.obj r).children = (s.obj r).children :=
  (congrArg TopoObj.children (fixed_obj h r) :)

theorem fixed_parent : (s'.obj r).parent = (s.obj r).parent :=
  (congrArg TopoObj.parent (fixed_obj h r) :)

theorem fixed_irq : (s'.info i).irq = (s.info i).irq := (congrArg IrqInfo.irq (fixed_info h i) :)

theorem fixed_level : (s'.info i).level = (s.info i).level :=
  (congrArg IrqInfo.level (fixed_info h i) :)

theorem fixed_numaNode : (s'.info i).numaNode = (s.info i).numaNode :=
  (congrArg IrqInfo.numaNode (fixed_info h i) :)

theorem fixed_affinityHint : (s'.info i).affinityHint = (s.info i).affinityHint :=
  (congrArg IrqInfo.affinityHint (fixed_info h i) :)

theorem fixed_hintPolicy : (s'.info i).hintPolicy = (s.info i).hintPolicy :=
  (congrArg IrqInfo.hintPolicy (fixed_info h i) :)

theorem fixed_valid : s'.topo.Valid r ↔ s.topo.Valid r := by
  unfold Topology.Valid
  rw [length_objs_of_seen h]

theorem fixed_refs : s'.topo.refs ty = s.topo.refs ty := by
  unfold Topology.refs
  rw [length_objs_of_seen h]

theorem fixed_childRefs : s'.topo.childRefs r = s.topo.childRefs r := by
  unfold Topology.childRefs
  rw [show (s'.topo.obj r).children = (s.topo.obj r).children from fixed_children h r]

theorem fixed_parentRef : s'.topo.parentRef r = s.topo.parentRef r := by
  unfold Topology.parentRef
  rw [show (s'.topo.obj r).parent = (s.topo.obj r).parent from fixed_parent h r]

theorem fixed_unbannedCpus : s'.topo.unbannedCpus = s.topo.unbannedCpus :=
  congrArg (fun v => v.1.unbannedCpus) h

theorem fixed_irqNumbers :
    s'.irqs.interruptsDb.map IrqInfo.irq = s.irqs.interruptsDb.map IrqInfo.irq := by
  have hmap := congrArg (fun v => v.2.1.map IrqInfo.irq) h
  simpa [fixed, seen, List.map_map, Function.comp_def, IrqInfo.fixed] using hmap

theorem fixed_bannedNumbers :
    s'.irqs.bannedIrqs.map IrqInfo.irq = s.irqs.bannedIrqs.map IrqInfo.irq := by
  have hmap := congrArg (fun v => v.2.2.1.map IrqInfo.irq) h
  simpa [fixed, seen, List.map_map, Function.comp_def, IrqInfo.fixed] using hmap

theorem fixed_policyLog : s'.irqs.policyLog = s.irqs.policyLog := congrArg (fun v => v.2.2.2) h

end State

namespace State

variable {s s' : State} (h : s'.still = s.still) (r : ObjRef) (i : ℕ)
include h

/-- What statistics leave alone includes what only a rebuild changes. -/
theorem fixed_of_still : s'.fixed = s.fixed := by
  have hseen : s'.seen TopoObj.still IrqInfo.still = s.seen TopoObj.still IrqInfo.still :=
    congrArg Prod.fst h
  have hmap := congrArg (fun v : Seen =>
    (v.1.map TopoObj.fixed, v.2.1.map IrqInfo.fixed, v.2.2.1.map IrqInfo.fixed, v.2.2.2)) hseen
  simp only [seen, Topology.map, List.map_map] at hmap
  exact hmap

theorem still_obj : (s'.obj r).still = (s.obj r).still :=
  obj_of_seen (k := IrqInfo.still) r (congrArg Prod.fst h) rfl

theorem still_info : (s'.info i).still = (s.info i).still :=
  info_of_seen (g := TopoObj.still) (congrArg Prod.fst h) rfl i

theorem still_irqList (l : IrqList) : s'.irqList l = s.irqList l := by
  cases l with
  | rebalance => exact congrArg (fun v => v.2.1) h
  | ofObj r => exact (congrArg TopoObj.interrupts (still_obj h r) :)

theorem still_interrupts : (s'.obj r).interrupts = (s.obj r).interrupts :=
  still_irqList h (.ofObj r)

theorem still_powersaveMode : (s'.obj r).powersaveMode = (s.obj r).powersaveMode :=
  (congrArg TopoObj.powersaveMode (still_obj h r) :)

theorem still_assignedObj : (s'.info i).assignedObj = (s.info i).assignedObj :=
  (congrArg IrqInfo.assignedObj (still_info h i) :)

theorem still_moved : (s'.info i).moved = (s.info i).moved :=
  (congrArg IrqInfo.moved (still_info h i) :)

theorem still_writes : s'.writes = s.writes := congrArg (fun v => v.2.2) h

end State

/-! ## The calls that only collect statistics -/

namespace State

theorem still_modifyInfo {f : IrqInfo → IrqInfo} (s : State) (i : ℕ)
    (hf : ∀ o, (f o).still = o.still) : (s.modifyInfo i f).still = s.still := by
  unfold still
  rw [seen_modifyInfo s i hf]
  rfl

theorem still_modifyObj {f : TopoObj → TopoObj} (s : State) (r : ObjRef)
    (hf : ∀ o, (f o).still = o.still) : (s.modifyObj r f).still = s.still := by
  unfold still
  rw [seen_modifyObj s r hf]
  rfl

theorem still_of_topo {s : State} {t : Topology}
    (h : t.map TopoObj.still = s.topo.map TopoObj.still) : ({ s with topo := t } : State).still =
      s.still := by
  simp [still, seen, h]

theorem clearIrqStats_still (s : State) (i : ℕ) : (s.clearIrqStats i).still = s.still :=
  s.still_modifyInfo i fun _ => rfl

theorem clearObjStats_still (s : State) (d : ObjRef) : (s.clearObjStats d).still = s.still := by
  induction hn : d.objType.height using Nat.strong_induction_on generalizing s d with
  | _ n ih =>
      rw [clearObjStats_eq]
      dsimp only
      rw [foldl_keeps still fun i t => t.clearIrqStats_still i]
      refine foldl_invariant (fun t : State => t.still = s.still) (fun c hc t ht => ?_) rfl
      have := ObjType.height_below (Topology.objType_of_mem_childRefs hc)
      exact (ih _ (by omega) t c rfl).trans ht

theorem clearWorkStats_still (s : State) : s.clearWorkStats.still = s.still :=
  foldl_keeps still (fun d t => t.clearObjStats_still d) _ _

section Counts

variable {β : Type*} (g : State → β)
  (hflags : ∀ (s : State) msi found rescan,
    g { s with procIntHasMsi := msi, msiFoundInSysfs := found, needRescan := rescan } = g s)
  (hcount : ∀ (s : State) ref count, g { s with irqs := s.irqs.modifyRef ref fun info =>
    { info with lastIrqCount := info.irqCount, irqCount := count } } = g s)
include hflags hcount

theorem updateCount_keeps {s s' : State} {number : ℤ} {counts : Bytes}
    (h : s.updateCount number counts = .ok s') : g s' = g s := by
  unfold updateCount at h
  split at h
  · simp at h
  · dsimp only at h
    split at h
    · simp at h
    · split at h
      · simp at h
      · split at h <;> cases h
        · exact (hflags _ _ _ _).trans (hcount _ _ _)
        · exact hcount _ _ _

theorem parseProcLines_keeps (s : State) (lines : List Bytes) :
    g (s.parseProcLines lines).1 = g s := by
  induction lines generalizing s with
  | nil => rfl
  | cons line rest ih =>
      have hmsi : ∀ b : Bool, g (if b then { s with procIntHasMsi := true } else s) = g s := by
        intro b
        cases b with
        | false => rfl
        | true => exact hflags s true s.msiFoundInSysfs s.needRescan
      unfold parseProcLines
      dsimp only
      cases hline : procLine line with
      | stop => exact hmsi _
      | skip => exact (ih _).trans (hmsi _)
      | irq number counts =>
          dsimp only
          split
          · exact hmsi _
          · rename_i hupdate
            exact (ih _).trans ((updateCount_keeps g hflags hcount hupdate).trans (hmsi _))

/-- `parse_proc_interrupts` changes counts and flags. -/
theorem parseProcInterrupts_keeps (s : State) (file : Option Bytes) :
    g (s.parseProcInterrupts file) = g s := by
  cases file with
  | none => rfl
  | some file =>
      have hlines := parseProcLines_keeps g hflags hcount s (procBuffers file)
      simp only [parseProcInterrupts]
      split
      · exact (hflags _ _ _ _).trans hlines
      · exact (hflags (s.parseProcLines (procBuffers file)).1 _ _ _).trans hlines

end Counts

theorem still_setCount (s : State) (ref : InfoRef) (count : UInt64) :
    ({ s with irqs := s.irqs.modifyRef ref fun info =>
      { info with lastIrqCount := info.irqCount, irqCount := count } } : State).still =
        s.still := by
  have hsame : ∀ info : IrqInfo, IrqInfo.still
      { info with lastIrqCount := info.irqCount, irqCount := count } = info.still := by
    intro info
    rfl
  cases ref <;> simp [still, seen, IrqDb.modifyRef, map_modify_eq hsame]

theorem updateCount_still {s s' : State} {number : ℤ} {counts : Bytes}
    (h : s.updateCount number counts = .ok s') : s'.still = s.still :=
  updateCount_keeps still (fun _ _ _ _ => rfl) still_setCount h

theorem parseProcInterrupts_still (s : State) (file : Option Bytes) :
    (s.parseProcInterrupts file).still = s.still :=
  parseProcInterrupts_keeps still (fun _ _ _ _ => rfl) still_setCount s file

end State

theorem readCpuLoads_still (cfg : Config) (cycleCount : UInt64) (t : Topology) (cpucount : ℕ)
    (lines : List Bytes) :
    (readCpuLoads cfg cycleCount t cpucount lines).1.map TopoObj.still =
      t.map TopoObj.still := by
  induction lines generalizing t cpucount with
  | nil => rfl
  | cons line rest ih =>
      unfold readCpuLoads
      split
      · rfl
      · exact ih t cpucount
      · split
        · rfl
        · exact (ih _ _).trans (Topology.map_modify _ (by intro o; rfl) t)

theorem Topology.resetLoad_still (t : Topology) (d : ObjRef) :
    (t.resetLoad d).map TopoObj.still = t.map TopoObj.still := by
  fun_induction Topology.resetLoad t d with
  | case1 d t' ih =>
      cases hp : t.parentRef d with
      | none => rw [← Topology.resetLoad, resetLoad_root hp, Topology.map_modify _ (by intro o; rfl)]
      | some p =>
          rw [← Topology.resetLoad, resetLoad_child hp, Topology.map_modify _ (by intro o; rfl)]
          exact ih p hp

namespace State

theorem divideLoad_still (s : State) (d : ObjRef) : (s.divideLoad d).still = s.still :=
  s.still_modifyObj d (by intro o; rfl)

theorem assignLoadSlices_still (s : State) (d : ObjRef) :
    (s.assignLoadSlices d).still = s.still :=
  foldl_keeps still (fun i t => t.still_modifyInfo i (by intro o; rfl)) _ s

theorem addLoadToParent_still (s : State) (d : ObjRef) : (s.addLoadToParent d).still = s.still := by
  unfold addLoadToParent
  split
  · rfl
  · exact s.still_modifyObj _ (by intro o; rfl)

theorem computeIrqBranchLoadShare_still (s : State) (d : ObjRef) :
    (s.computeIrqBranchLoadShare d).still = s.still := by
  rw [computeIrqBranchLoadShare, addLoadToParent_still, assignLoadSlices_still, divideLoad_still]

theorem propagateLoads_still (s : State) : s.propagateLoads.still = s.still := by
  have hpass : ∀ (list : List ObjRef) (t : State),
      (list.foldl computeIrqBranchLoadShare t).still = t.still :=
    foldl_keeps still fun d t => t.computeIrqBranchLoadShare_still d
  have hreset : ((s.topo.refs .cache).foldl Topology.resetLoad s.topo).map TopoObj.still =
      s.topo.map TopoObj.still :=
    foldl_keeps (fun t => Topology.map TopoObj.still t) (fun d t => t.resetLoad_still d) _ _
  simp only [propagateLoads, hpass]
  exact still_of_topo hreset

theorem parseProcStat_still (cfg : Config) (s : State) (file : Option Bytes) :
    (s.parseProcStat cfg file).still = s.still := by
  cases file with
  | none => rfl
  | some file =>
      have hread := still_of_topo (readCpuLoads_still cfg s.cycleCount s.topo 0 (statBuffers file))
      simp only [parseProcStat]
      split
      · exact hread
      · rw [propagateLoads_still]
        exact hread

end State

end CodeAnalyze.Irqbalance
