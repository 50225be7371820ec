import CodeAnalyze.Irqbalance.Calls
import CodeAnalyze.Irqbalance.Database

/-!
# Reachable states

A run starts with a build and goes on with calls and rescans, and a rescan is a
build that starts from nothing again.  `reachable_induct` is the rule for what
holds between the calls: it has to hold of what a build leaves, and every turn
has to keep it.
-/

namespace CodeAnalyze.Irqbalance

open Lib

variable {cfg : Config} {sysfs : Sysfs} {stack : Stack} {s s' : State}

namespace State

/-! ## `force_rebalance_irq` on a new database -/

theorem modifyInfo_eq_self {i : ℕ} {g : IrqInfo → IrqInfo} (h : g (s.info i) = s.info i) :
    s.modifyInfo i g = s := by
  have hlist : s.irqs.interruptsDb.modify i g = s.irqs.interruptsDb := by
    apply List.ext_getElem?
    intro n
    rw [List.getElem?_modify]
    by_cases hn : i = n
    · subst hn
      unfold info at h
      cases hget : s.irqs.interruptsDb[i]? with
      | none => rfl
      | some e =>
          rw [hget] at h
          simpa using h
    · simp [hn]
  unfold modifyInfo
  rw [hlist]

/-- The IRQs `force_rebalance_irq` puts on `rebalance_irq_list`. -/
def balanced (s : State) (list : List ℕ) : List ℕ :=
  list.filter fun i => (s.info i).level ≠ .none

/-- Where no IRQ is placed, all that are to be balanced are appended in order. -/
theorem foldl_forceRebalanceIrq_eq (h : ∀ i, (s.info i).assignedObj = none) (list : List ℕ) :
    list.foldl forceRebalanceIrq s =
      s.modifyIrqList .rebalance fun old => old ++ s.balanced list := by
  induction list generalizing s with
  | nil => simp [balanced, modifyIrqList]
  | cons i rest ih =>
      have hone : s.forceRebalanceIrq i =
          s.modifyIrqList .rebalance fun old => old ++ s.balanced [i] := by
        unfold forceRebalanceIrq
        by_cases hlevel : (s.info i).level = .none
        · simp [hlevel, balanced, modifyIrqList]
        · rw [if_neg hlevel, h i]
          dsimp only
          rw [modifyInfo_eq_self]
          · simp [balanced, hlevel]
          · have hnone : (s.info i).assignedObj = none := h i
            rw [info_modifyIrqList]
            generalize s.info i = info at hnone
            cases info
            simp_all
      rw [List.foldl_cons, hone, ih fun j => by rw [info_modifyIrqList]; exact h j]
      have hsplit : s.balanced (i :: rest) = s.balanced [i] ++ s.balanced rest := by
        rw [← List.singleton_append]
        exact List.filter_append ..
      simp only [modifyIrqList, hsplit, List.append_assoc]
      rfl

/-! ## What a build leaves -/

/-- There is no tree. -/
def Treeless (s : State) : Prop := ∀ ty, s.topo.objs ty = []

theorem treeless_empty : ({} : State).Treeless := by
  intro ty
  cases ty <;> rfl

/-- A build and the pass of `force_rebalance_irq` that follows it. -/
def rebuild (cfg : Config) (sysfs : Sysfs) (stack : Stack) (s : State) : State :=
  (s.buildObjectTree cfg sysfs stack).forceRebalance

theorem info_of_unplaced {db : List IrqInfo} (h : ∀ info ∈ db, info.Unplaced) (i : ℕ) :
    (db[i]?.getD default).Unplaced := by
  cases hget : db[i]? with
  | none => constructor <;> rfl
  | some info => exact h info (List.mem_of_getElem? hget)

theorem buildObjectTree_unplaced (s : State) (i : ℕ) :
    ((s.buildObjectTree cfg sysfs stack).info i).Unplaced :=
  info_of_unplaced (rebuildIrqDb_sound cfg sysfs _ _).unplaced i

theorem rebuild_eq (cfg : Config) (sysfs : Sysfs) (stack : Stack) (s : State) :
    s.rebuild cfg sysfs stack =
      (s.buildObjectTree cfg sysfs stack).modifyIrqList .rebalance fun _ =>
        (s.buildObjectTree cfg sysfs stack).balanced
          (List.range (s.buildObjectTree cfg sysfs stack).dbSize) := by
  have hempty : (s.buildObjectTree cfg sysfs stack).irqs.rebalanceIrqList = [] :=
    (rebuildIrqDb_sound cfg sysfs _ _).rebalance
  unfold rebuild forceRebalance
  rw [foldl_forceRebalanceIrq_eq fun i => (buildObjectTree_unplaced s i).assignedObj]
  simp only [modifyIrqList, hempty, List.nil_append]

theorem rebuild_topo (cfg : Config) (sysfs : Sysfs) (stack : Stack) (s : State) :
    (s.rebuild cfg sysfs stack).topo = buildTree cfg sysfs stack s.topo := by
  rw [rebuild_eq]
  rfl

theorem rebuild_irqs (cfg : Config) (sysfs : Sysfs) (stack : Stack) (s : State) :
    (s.rebuild cfg sysfs stack).irqs =
      let db := rebuildIrqDb cfg sysfs (buildTree cfg sysfs stack s.topo) s.irqs
      { db with
        rebalanceIrqList := (List.range db.interruptsDb.length).filter fun i =>
          (db.interruptsDb[i]?.getD default).level ≠ .none } := by
  rw [rebuild_eq]
  rfl

theorem rebuild_needRescan (cfg : Config) (sysfs : Sysfs) (stack : Stack) (s : State) :
    (s.rebuild cfg sysfs stack).needRescan = s.needRescan := by
  rw [rebuild_eq]
  rfl

theorem rebuild_cycleCount (cfg : Config) (sysfs : Sysfs) (stack : Stack) (s : State) :
    (s.rebuild cfg sysfs stack).cycleCount = s.cycleCount := by
  rw [rebuild_eq]
  rfl

theorem rebuild_writes (cfg : Config) (sysfs : Sysfs) (stack : Stack) (s : State) :
    (s.rebuild cfg sysfs stack).writes = s.writes := by
  rw [rebuild_eq, writes_modifyIrqList]
  rfl

/-- What a build leaves, in the terms later proofs use. -/
structure Fresh (cfg : Config) (s : State) : Prop where
  tree : s.topo.Sound cfg.bannedCpus
  unbannedCpus : s.topo.unbannedCpus = ~~~cfg.bannedCpus
  nodes : 0 < s.topo.numaNodes.length
  database : { s.irqs with rebalanceIrqList := [] }.Sound cfg s.topo
  rebalance : s.irqs.rebalanceIrqList = s.balanced (List.range s.dbSize)

theorem fresh_rebuild (cfg : Config) (sysfs : Sysfs) (stack : Stack) (hs : s.Treeless) :
    (s.rebuild cfg sysfs stack).Fresh cfg := by
  have htree : (s.buildObjectTree cfg sysfs stack).topo = buildTree cfg sysfs stack s.topo := rfl
  rw [rebuild_eq]
  constructor
  · exact htree ▸ buildTree_sound cfg sysfs stack hs
  · exact htree ▸ buildTree_unbannedCpus cfg sysfs stack s.topo
  · exact htree ▸ buildTree_pos cfg sysfs stack s.topo
  · have hdb := rebuildIrqDb_sound cfg sysfs (buildTree cfg sysfs stack s.topo) s.irqs
    have hsame : { (rebuildIrqDb cfg sysfs (buildTree cfg sysfs stack s.topo) s.irqs) with
        rebalanceIrqList := [] } =
        rebuildIrqDb cfg sysfs (buildTree cfg sysfs stack s.topo) s.irqs := by
      rw [← hdb.rebalance]
    exact hsame.symm ▸ hdb
  · rfl

theorem Fresh.unplaced (h : s.Fresh cfg) (i : ℕ) : (s.info i).Unplaced :=
  info_of_unplaced h.database.unplaced i

/-- The first pass of `force_rebalance_irq` brings lists and homes together. -/
theorem Fresh.owned (h : s.Fresh cfg) : s.Owned where
  agrees := by
    have hnone : ∀ i, (s.info i).assignedObj = none := fun i => (h.unplaced i).assignedObj
    refine Agrees.of_mem_iff (fun l => ?_) fun i l => ?_
    · cases l with
      | rebalance =>
          change s.irqs.rebalanceIrqList.Nodup
          rw [h.rebalance]
          exact List.nodup_range.filter _
      | ofObj d =>
          change (s.topo.obj d).interrupts.Nodup
          rw [(h.tree.idle d).interrupts]
          exact List.nodup_nil
    · cases l with
      | rebalance =>
          change i ∈ s.irqs.rebalanceIrqList ↔ _
          rw [h.rebalance]
          simp [balanced, home, hnone, homeList]
      | ofObj d =>
          change i ∈ (s.topo.obj d).interrupts ↔ _
          rw [(h.tree.idle d).interrupts]
          simp [home, hnone, homeList]
  unique := by
    have hunique := h.database.unique
    rw [IrqDb.known, List.map_append] at hunique
    exact hunique.of_append_left
  children_valid := h.tree.child_valid
  numaNode_valid := by
    intro i n hn
    unfold info at hn
    cases hget : s.irqs.interruptsDb[i]? with
    | none =>
        rw [hget] at hn
        cases hn
    | some e =>
        rw [hget] at hn
        obtain ⟨nodeid, hnode⟩ := h.database.numaNode e (List.mem_of_getElem? hget)
        exact getNumaNode_valid h.nodes (hnode.symm.trans hn)

end State

/-! ## Induction over runs -/

theorem start_writes (cfg : Config) (sysfs : Sysfs) (stack : Stack) :
    (start cfg sysfs stack).writes = [] :=
  State.rebuild_writes cfg sysfs stack {}

theorem exec_rescan (s : State) (hrun : exec cfg s (.rescan sysfs stack) = some s') :
    ∃ blank : State, blank.Treeless ∧ blank.writes = s.writes ∧
      s' = blank.rebuild cfg sysfs stack := by
  cases hrun
  refine ⟨{ s.clearWorkStats with needRescan := false, cycleCount := 0 }.freeObjectTree, ?_, ?_,
    rfl⟩
  · intro ty
    cases ty <;> rfl
  · exact (State.still_writes s.clearWorkStats_still :)

/-- The rule for one call: it is a rescan, which is a build, or it is made of turns. -/
theorem exec_keeps {P : State → Prop} {op : Op}
    (hbuild : ∀ sysfs stack, op = .rescan sysfs stack → ∀ blank : State, blank.Treeless →
      blank.writes = s.writes → P (blank.rebuild cfg sysfs stack))
    (hturns : s.Owned → P s → State.Turns cfg s s' → P s') (h : s.Owned ∧ P s)
    (hrun : exec cfg s op = some s') : s'.Owned ∧ P s' := by
  obtain ⟨howned, hP⟩ := h
  by_cases hop : ∃ sysfs stack, op = .rescan sysfs stack
  · obtain ⟨sysfs, stack, rfl⟩ := hop
    obtain ⟨blank, hblank, hwrites, rfl⟩ := exec_rescan s hrun
    exact ⟨(State.fresh_rebuild cfg sysfs stack hblank).owned,
      hbuild sysfs stack rfl blank hblank hwrites⟩
  · have hturn := exec_turns howned (fun sysfs stack heq => hop ⟨sysfs, stack, heq⟩) hrun
    exact ⟨howned.turns hturn, hturns howned hP hturn⟩

/-- The rule for states between calls: a build establishes the property and turns
keep it. -/
theorem reachable_induct {P : State → Prop}
    (hbuild : ∀ blank sysfs stack, blank.Treeless →
      (blank.writes = [] ∨ ∃ s : State, P s ∧ blank.writes = s.writes) →
      P (State.rebuild cfg sysfs stack blank))
    (hturns : ∀ s s', s.Owned → P s → State.Turns cfg s s' → P s') {s : State}
    (h : Ops.Reachable cfg s) : s.Owned ∧ P s := by
  refine Reachable.invariant_of (P := fun s => s.Owned ∧ P s) ?_ ?_ h
  · rintro s ⟨sysfs, stack, rfl⟩
    exact ⟨(State.fresh_rebuild cfg sysfs stack State.treeless_empty).owned,
      hbuild _ sysfs stack State.treeless_empty (.inl rfl)⟩
  · intro s op s' hs hrun
    exact exec_keeps (fun sysfs stack _ blank hblank hwrites =>
      hbuild blank sysfs stack hblank (.inr ⟨s, hs.2, hwrites⟩)) (hturns s s') hs hrun

/-- What depends on nothing but what a build fixes, and holds after a build, always
holds. -/
theorem reachable_fixed {P : State → Prop} (hfresh : ∀ s, s.Fresh cfg → P s)
    (hfixed : ∀ s s' : State, s'.fixed = s.fixed → P s → P s') {s : State}
    (h : Ops.Reachable cfg s) : P s := by
  refine (reachable_induct (P := P) (fun blank sysfs stack hblank _ => ?_) ?_ h).2
  · exact hfresh _ (State.fresh_rebuild cfg sysfs stack hblank)
  · exact fun s s' _ hP hturns => hfixed s s' hturns.fixed_eq hP

theorem reachable_owned (h : Ops.Reachable cfg s) : s.Owned :=
  (reachable_induct (P := fun _ => True) (fun _ _ _ _ _ => trivial) (fun _ _ _ _ _ => trivial) h).1

end CodeAnalyze.Irqbalance
