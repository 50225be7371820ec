import CodeAnalyze.Irqbalance.Slices

/-!
# The arithmetic of overload migration

`move_candidate_irqs` subtracts the load of an IRQ from what is left of the load of its
object without a test.  In the runs of `main` the IRQs of an object are covered by its
load whenever `update_migration_status` is called, so the difference does not wrap.
-/

namespace CodeAnalyze.Irqbalance

open Lib Relation

variable {cfg : Config} {s s' t u : State} {d x : ObjRef} {ty : ObjType}

/-! ## Covered loads in the runs of `main` -/

namespace State

/-- The sums of loads and of counts fit into 64 bits. -/
structure SumsBounded (s : State) : Prop where
  loads : ∀ ty, wordSum (fun d => (s.obj d).load) (s.topo.refs ty) < 2 ^ 64
  counts : s.CountsFit

theorem clearObjStats_cycleCount (s : State) (d : ObjRef) :
    (s.clearObjStats d).cycleCount = s.cycleCount := by
  induction hn : d.objType.height using Nat.strong_induction_on generalizing d s with
  | _ n ih =>
      rw [clearObjStats_eq]
      refine (foldl_keeps cycleCount (by intro i t; rfl) _ _).trans ?_
      refine foldl_invariant (fun t : State => t.cycleCount = s.cycleCount) (fun c hc t ht => ?_) rfl
      have hlt := ObjType.height_below (Topology.objType_of_mem_childRefs hc)
      exact (ih c.objType.height (by omega) t c rfl).trans ht

theorem computeIrqBranchLoadShare_cycleCount (s : State) (d : ObjRef) :
    (s.computeIrqBranchLoadShare d).cycleCount = s.cycleCount := by
  have hslices : ((s.divideLoad d).assignLoadSlices d).cycleCount = s.cycleCount :=
    foldl_keeps cycleCount (by intro i t; rfl) _ _
  unfold computeIrqBranchLoadShare addLoadToParent
  split
  · exact hslices
  · exact hslices

theorem parseProcStat_cycleCount (cfg : Config) (s : State) (file : Option Bytes) :
    (s.parseProcStat cfg file).cycleCount = s.cycleCount := by
  have hpass : ∀ ty (t : State), (t.pass ty).cycleCount = t.cycleCount := fun ty t =>
    foldl_keeps cycleCount (fun d u => u.computeIrqBranchLoadShare_cycleCount d) _ t
  cases file with
  | none => rfl
  | some file =>
      unfold parseProcStat
      dsimp only
      split
      · rfl
      · rw [propagateLoads_eq, hpass, hpass, hpass, hpass]

end State

namespace Main

/-- What is known of the loads, by where `main` stands: from `clear_work_stats` on no IRQ
on an object has a load, after `parse_proc_stat` every object is covered, and in the rest
of the rescan branch `cycle_count` is zero, so that nothing is migrated. -/
def LoadsKept : Pc → State → Prop
  | .interrupts, s => s.Unloaded
  | .stat, s => s.Unloaded
  | .testRescan, s => ∀ d, s.Covered d
  | .rescanInterrupts, s => s.cycleCount = 0
  | .rescanStat, s => s.cycleCount = 0
  | .rescanClear, s => s.cycleCount = 0
  | .rescanInterrupts2, s => s.cycleCount = 0
  | .rescanStat2, s => s.cycleCount = 0
  | .testCycle, s => s.cycleCount = 0
  | _, _ => True

theorem loadsKept_step {pc pc' : Pc} {op : Op} (howned : s.Owned) (hrooted : s.Rooted)
    (hcounts : s.CountsFit) (hkept : LoadsKept pc s) (hnext : next s pc op = some pc')
    (hrun : Irqbalance.exec cfg s op = some s') : LoadsKept pc' s' := by
  cases op with
  | clearWorkStats =>
      cases hrun
      -- before the snapshot, and in the rescan branch
      cases pc <;> cases hnext
      · exact State.clearWorkStats_unloaded hrooted
      · exact (foldl_keeps State.cycleCount (fun d t => t.clearObjStats_cycleCount d) _ s).trans hkept
  | parseProcInterrupts file =>
      cases hrun
      have hcycle : (s.parseProcInterrupts file).cycleCount = s.cycleCount :=
        State.parseProcInterrupts_keeps State.cycleCount (fun _ _ _ _ => rfl)
          (fun _ _ _ => rfl) s file
      cases pc <;> cases hnext
      · trivial
      · exact hkept.parseProcInterrupts file
      · exact hcycle.trans hkept
      · exact hcycle.trans hkept
  | parseProcStat file =>
      cases hrun
      have hcycle := s.parseProcStat_cycleCount cfg file
      cases pc <;> cases hnext
      · trivial
      · exact State.parseProcStat_covered cfg howned hcounts hkept file
      · exact hcycle.trans hkept
      · exact hcycle.trans hkept
  | rescan sysfs stack =>
      -- the rescan branch sets `cycle_count` to zero
      cases hrun
      have hcycle : (s.clearWorkStats.rescan cfg sysfs stack).cycleCount = 0 :=
        State.rebuild_cycleCount cfg sysfs stack _
      cases pc <;> simp only [next, reduceCtorEq] at hnext
      split at hnext <;> cases hnext
      exact hcycle
  | updateMigrationStatus addr =>
      cases pc <;> simp only [next, reduceCtorEq] at hnext <;> split at hnext <;> cases hnext
      · trivial
      · trivial
  | calculatePlacement addr =>
      cases pc <;> simp only [next, reduceCtorEq] at hnext
      · split at hnext <;> cases hnext
        trivial
      · split at hnext <;> cases hnext
        trivial
      · cases hnext
        trivial
  | activateMappings smpAffinity =>
      cases pc <;> cases hnext
      trivial
  | nextCycle =>
      cases pc <;> cases hnext
      trivial
  | forceRescan =>
      -- a signal, wherever `main` stands
      have hflag : ∀ b : Bool, LoadsKept pc { s with needRescan := b } := by
        intro b
        cases pc <;> exact hkept
      have hpc : pc' = pc := by
        cases pc <;> exact (Option.some.inj hnext).symm
      cases hrun
      rw [hpc]
      split
      · exact hflag true
      · exact hkept

/-- Wherever `main` may call `update_migration_status`, every object is covered. -/
theorem reachable_covered {c : Pc × State}
    (h : ReachableWith (fun c => c.2.SumsBounded) (Init cfg) (Step cfg) c) {addr : ℕ → ℕ}
    (hnext : (next c.2 c.1 (.updateMigrationStatus addr)).isSome) (d : ObjRef) :
    c.2.Covered d := by
  have hboth : Ops.Reachable cfg c.2 ∧ LoadsKept c.1 c.2 := by
    refine ReachableWith.invariant (P := fun c => Ops.Reachable cfg c.2 ∧ LoadsKept c.1 c.2)
      ?_ ?_ h
    · rintro ⟨pc, s⟩ ⟨rfl, hinit⟩ -
      exact ⟨.start hinit, trivial⟩
    · rintro ⟨pc, s⟩ op ⟨pc', s'⟩ hbounded ⟨hreach, hkept⟩ ⟨hstep, hrun⟩ -
      exact ⟨hreach.next hrun, loadsKept_step (reachable_owned hreach) (reachable_rooted hreach)
        hbounded.counts hkept hstep hrun⟩
  obtain ⟨pc, s⟩ := c
  obtain ⟨-, hkept⟩ := hboth
  cases pc <;> try cases hnext
  · exact hkept d
  · -- the rescan branch has set `cycle_count` to zero
    have hzero : s.cycleCount = 0 := hkept
    simp [next, hzero] at hnext

end Main

namespace State

/-! ## Taking IRQs off -/

/-- From `s` to `s'` objects lose IRQs, and all loads stay. -/
structure Shed (s s' : State) : Prop where
  load : ∀ d, (s'.obj d).load = (s.obj d).load
  irqLoad : ∀ i, (s'.info i).load = (s.info i).load
  interrupts : ∀ d, (s'.obj d).interrupts.Subperm (s.obj d).interrupts

theorem Shed.refl (s : State) : s.Shed s :=
  ⟨fun _ => rfl, fun _ => rfl, fun _ => .refl _⟩

theorem Shed.trans (h : s.Shed t) (h' : t.Shed u) : s.Shed u :=
  ⟨fun d => (h'.load d).trans (h.load d), fun i => (h'.irqLoad i).trans (h.irqLoad i),
    fun d => (h'.interrupts d).trans (h.interrupts d)⟩

/-- Objects that lose IRQs stay covered. -/
theorem Shed.covered (h : s.Shed t) (hcovered : s.Covered d) : t.Covered d := by
  have hmovable : t.movable = s.movable := by
    funext i
    unfold movable
    rw [h.irqLoad]
  unfold Covered movableOn at hcovered ⊢
  calc ((t.obj d).interrupts.map t.movable).sum
      = ((t.obj d).interrupts.map s.movable).sum := by rw [hmovable]
    _ ≤ ((s.obj d).interrupts.map s.movable).sum := sum_map_le_of_subperm _ (h.interrupts d)
    _ ≤ (s.obj d).load.toNat := hcovered
    _ = (t.obj d).load.toNat := by rw [h.load]

theorem shed_reassign (howned : s.Owned) {i : ℕ} (hi : s.home i = some (.ofObj d)) :
    s.Shed (s.reassign (.ofObj d) none i) where
  load := objField_migrateIrq TopoObj.load (fun _ _ => rfl) s _ _ i
  irqLoad := by
    intro j
    rw [howned.info_reassign hi]
    split <;> rfl
  interrupts := by
    intro x
    have hlist := howned.irqList_reassign hi (a := none) trivial (by simp [homeList]) (.ofObj x)
    rw [if_neg (by simp [homeList])] at hlist
    rw [show ((s.reassign (.ofObj d) none i).obj x).interrupts = _ from hlist]
    split
    · exact (List.erase_sublist (a := i) (l := (s.obj x).interrupts)).subperm
    · exact .refl _

theorem shed_modifyIrqList (s : State) (d : ObjRef) {order : List ℕ → List ℕ}
    (horder : (order (s.obj d).interrupts).Perm (s.obj d).interrupts) :
    s.Shed (s.modifyIrqList (.ofObj d) order) where
  load := fun x => s.objField_modifyIrqList x (.ofObj d) _ TopoObj.load fun _ _ => rfl
  irqLoad := by
    intro i
    rw [info_modifyIrqList]
  interrupts := by
    intro x
    have hmod := s.irqList_modifyIrqList (.ofObj d) (.ofObj x) order
    rw [show ((s.modifyIrqList (.ofObj d) order).obj x).interrupts = _ from hmod]
    split
    · rename_i hx
      rw [IrqList.ofObj.inj hx.1]
      exact horder.subperm
    · exact .refl _

theorem shed_modifyObj (s : State) (d : ObjRef) {f : TopoObj → TopoObj}
    (hload : ∀ o, (f o).load = o.load) (hlist : ∀ o, (f o).interrupts = o.interrupts) :
    s.Shed (s.modifyObj d f) where
  load := fun x => s.topo.field_modify d x TopoObj.load hload
  irqLoad := fun _ => rfl
  interrupts := by
    intro x
    have hsame : ((s.modifyObj d f).obj x).interrupts = (s.obj x).interrupts :=
      s.topo.field_modify d x TopoObj.interrupts hlist
    rw [hsame]

/-! ## The walk over the IRQs of one object -/

/-- The loads of IRQs, added up. -/
def irqLoads (s : State) (list : List ℕ) : ℕ := wordSum (fun i => (s.info i).load) list

/-- Where the walk over `list`, the IRQs of `d`, stands that began in `s` with this
`min_load`: which IRQs are still to come, and what has become of the state and the
statistics. -/
structure Walked (s : State) (d : ObjRef) (list : List ℕ) (minLoad : UInt64) (rest : List ℕ)
    (si : State × LoadBalanceInfo) : Prop where
  shed : s.Shed si.1
  owned : si.1.Owned
  nodup : rest.Nodup
  ahead : ∀ i ∈ rest, i ∈ (si.1.obj d).interrupts
  kept : list ≠ [] → (si.1.obj d).interrupts ≠ []
  taken : ∃ taken, list.Perm (taken ++ (si.1.obj d).interrupts) ∧
    (∀ i ∈ taken, 1 < (s.info i).load) ∧
    si.2.adjustmentLoad.toNat + s.irqLoads taken = (s.obj d).load.toNat ∧
    si.2.minLoad.toNat = minLoad.toNat + s.irqLoads taken ∧
    (taken ≠ [] → si.2.minLoad < si.2.adjustmentLoad)

variable {list rest : List ℕ} {minLoad : UInt64} {si : State × LoadBalanceInfo} {i : ℕ}

theorem movable_of_lt (h : 1 < (s.info i).load) : s.movable i = (s.info i).load.toNat := if_pos h

theorem irqLoads_eq_movable {taken : List ℕ} (h : ∀ i ∈ taken, 1 < (s.info i).load) :
    s.irqLoads taken = (taken.map s.movable).sum := by
  unfold irqLoads wordSum
  rw [List.map_congr_left fun i hi => (movable_of_lt (h i hi)).symm]

/-- What is left of the load of the object is enough for every IRQ still on it that may
be taken. -/
theorem Walked.load_le (h : s.Walked d list minLoad rest si) (hlist : list = (s.obj d).interrupts)
    (hcovered : s.Covered d) (hi : i ∈ (si.1.obj d).interrupts) (hload : 1 < (s.info i).load) :
    (s.info i).load ≤ si.2.adjustmentLoad := by
  obtain ⟨taken, hperm, hheavy, hadjustment, -, -⟩ := h.taken
  have hsplit : s.movableOn d = s.irqLoads taken + ((si.1.obj d).interrupts.map s.movable).sum := by
    rw [irqLoads_eq_movable hheavy]
    unfold movableOn
    rw [← hlist, (hperm.map _).sum_eq, List.map_append, List.sum_append]
  have hone : (s.info i).load.toNat ≤ ((si.1.obj d).interrupts.map s.movable).sum := by
    rw [← movable_of_lt hload]
    exact List.single_le_sum (fun _ _ => Nat.zero_le _) _ (List.mem_map_of_mem hi)
  have hcovered : s.movableOn d ≤ (s.obj d).load.toNat := hcovered
  rw [UInt64.le_iff_toNat_le]
  omega

/-- `move_candidate_irqs` does not stop at an IRQ that is on an object. -/
theorem moveCandidateIrqs_isSome (hi : (si.1.info i).assignedObj = some d) :
    ∃ si', moveCandidateIrqs si i = some si' := by
  obtain ⟨s, lb⟩ := si
  unfold moveCandidateIrqs
  dsimp only at hi ⊢
  rw [hi]
  split
  · exact ⟨_, rfl⟩
  · split
    · exact ⟨_, rfl⟩
    · dsimp only
      split
      · exact ⟨_, rfl⟩
      · split
        · exact ⟨_, rfl⟩
        · split <;> exact ⟨_, rfl⟩

/-- One round of the walk. -/
theorem Walked.step (h : s.Walked d list minLoad (i :: rest) si)
    (hlist : list = (s.obj d).interrupts) (hcovered : s.Covered d)
    (hroom : minLoad.toNat + (s.obj d).load.toNat < 2 ^ 64) :
    ∃ si', moveCandidateIrqs si i = some si' ∧ s.Walked d list minLoad rest si' := by
  have hmem := h.ahead i List.mem_cons_self
  have hhome : si.1.home i = some (.ofObj d) := h.owned.mem_iff.mp hmem
  have hassigned := assigned_of_home hhome
  have hnodup := List.nodup_cons.mp h.nodup
  obtain ⟨si', hrun⟩ := moveCandidateIrqs_isSome hassigned
  refine ⟨si', hrun, ?_⟩
  rcases moveCandidateIrqs_cases hrun with rfl | ⟨d', hd', hlength, hheavy, hless, rfl⟩
  · -- the IRQ stays
    exact ⟨h.shed, h.owned, hnodup.2, fun j hj => h.ahead j (List.mem_cons_of_mem _ hj), h.kept,
      h.taken⟩
  · rw [hassigned, Option.some.injEq] at hd'
    subst hd'
    have hlist' : ((si.1.reassign (.ofObj d) none i).obj d).interrupts =
        (si.1.obj d).interrupts.erase i := by
      have herase := h.owned.irqList_reassign hhome (a := none) trivial (by simp [homeList]) (.ofObj d)
      rw [if_neg (by simp [homeList]), if_pos rfl] at herase
      exact herase
    rw [h.shed.irqLoad] at hheavy hless
    have hle := h.load_le hlist hcovered hmem hheavy
    obtain ⟨taken, hperm, htaken, hadjustment, hmin, -⟩ := h.taken
    -- neither the subtraction from `adjustment_load` nor the addition to `min_load` wraps
    have hsub := toNat_sub_add hle
    have hadd : (si.2.minLoad + (s.info i).load).toNat =
        si.2.minLoad.toNat + (s.info i).load.toNat := by
      refine toNat_add_of_lt ?_
      omega
    have hloads : s.irqLoads (i :: taken) = (s.info i).load.toNat + s.irqLoads taken :=
      wordSum_cons _ _ _
    constructor
    · exact h.shed.trans (shed_reassign h.owned hhome)
    · exact h.owned.reassign hhome trivial (by simp [homeList])
    · exact hnodup.2
    · intro j hj
      rw [hlist']
      have hji : j ≠ i := fun heq => hnodup.1 (heq ▸ hj)
      exact (List.mem_erase_of_ne hji).mpr (h.ahead j (List.mem_cons_of_mem _ hj))
    · -- an object with one IRQ keeps it
      intro _ hnil
      rw [hlist'] at hnil
      have herased := List.length_erase_of_mem hmem
      rw [hnil, List.length_nil] at herased
      omega
    · refine ⟨i :: taken, ?_, ?_, ?_, ?_, fun _ => ?_⟩
      · rw [hlist', List.cons_append]
        refine hperm.trans ?_
        exact ((List.perm_cons_erase hmem).append_left taken).trans List.perm_middle
      · intro j hj
        rcases List.mem_cons.mp hj with rfl | hj
        · exact hheavy
        · exact htaken j hj
      · rw [hloads, h.shed.irqLoad]
        dsimp only
        omega
      · rw [hloads, h.shed.irqLoad]
        dsimp only
        omega
      · rw [h.shed.irqLoad]
        exact hless

/-- The walk over a part of the IRQs. -/
theorem walked_prefix (howned : s.Owned) (hcovered : s.Covered d) (lb : LoadBalanceInfo)
    (hroom : lb.minLoad.toNat + (s.obj d).load.toNat < 2 ^ 64) {done rest : List ℕ}
    (hlist : (s.obj d).interrupts = done ++ rest) :
    ∃ si, s.moveCandidates lb d done = some si ∧
      s.Walked d (s.obj d).interrupts lb.minLoad rest si := by
  refine foldlM_total (fun rest si => s.Walked d (s.obj d).interrupts lb.minLoad rest si)
    (fun i rest si h => h.step rfl hcovered hroom) ?_
  refine ⟨.refl s, howned, ?_, ?_, fun hne => hne, [], .refl _, ?_, ?_, ?_, fun hne => absurd rfl hne⟩
  · rw [← hlist]
    exact howned.agrees.nodup (.ofObj d)
  · rw [← hlist]
    exact fun _ hi => hi
  · exact fun _ hi => absurd hi List.not_mem_nil
  · rfl
  · rfl

end State

end CodeAnalyze.Irqbalance
