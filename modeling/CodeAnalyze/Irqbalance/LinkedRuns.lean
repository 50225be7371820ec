import CodeAnalyze.Irqbalance.LinkedCalls
import CodeAnalyze.Irqbalance.Ownership
import Mathlib.Data.Fintype.EquivFin

/-!
# Whole runs on linked lists

A run of the daemon on lists is a run of the daemon on linked lists: no call follows a pointer
that points nowhere, the lists never share a cell, and no cell is lost.
-/

namespace CodeAnalyze.Irqbalance

open Lib Lib.Cells GlistCode

/-! ## What a build leaves -/

/-- Where no object has IRQs there is nothing to leave out. -/
theorem Topology.map_withoutList_of_idle {t : Topology} (h : ∀ r, (t.obj r).Idle) :
    t.map TopoObj.withoutList = t := by
  have hobjs (ty : ObjType) : (t.objs ty).map TopoObj.withoutList = t.objs ty := by
    refine (List.map_congr_left fun o ho => ?_).trans (List.map_id _)
    obtain ⟨place, hplace⟩ := List.getElem?_of_mem ho
    have hidle := h ⟨ty, place⟩
    rw [show t.obj ⟨ty, place⟩ = o by simp [obj, hplace]] at hidle
    have hnil := hidle.interrupts
    cases o
    simp_all [TopoObj.withoutList]
  have hnode : t.numaNodes.map TopoObj.withoutList = t.numaNodes := hobjs .node
  have hpackage : t.packages.map TopoObj.withoutList = t.packages := hobjs .package
  have hcache : t.cacheDomains.map TopoObj.withoutList = t.cacheDomains := hobjs .cache
  have hcpu : t.cpus.map TopoObj.withoutList = t.cpus := hobjs .cpu
  simp [map, hnode, hpackage, hcache, hcpu]

namespace State

variable {s : State} (cfg : Config) (sysfs : Sysfs) (stack : Stack)

theorem buildObjectTree_irqList (hs : s.Treeless) (l : IrqList) :
    (s.buildObjectTree cfg sysfs stack).irqList l = [] := by
  cases l with
  | rebalance => exact (rebuildIrqDb_sound cfg sysfs _ _).rebalance
  | ofObj d => exact ((buildTree_sound cfg sysfs stack hs).idle d).interrupts

theorem buildObjectTree_withoutLists (hs : s.Treeless) :
    (s.buildObjectTree cfg sysfs stack).withoutLists = s.buildObjectTree cfg sysfs stack := by
  have htree : (s.buildObjectTree cfg sysfs stack).topo.map TopoObj.withoutList =
      (s.buildObjectTree cfg sysfs stack).topo :=
    Topology.map_withoutList_of_idle (buildTree_sound cfg sysfs stack hs).idle
  have hrebalance : (s.buildObjectTree cfg sysfs stack).irqs.rebalanceIrqList = [] :=
    buildObjectTree_irqList cfg sysfs stack hs .rebalance
  rw [withoutLists, htree, ← hrebalance]

theorem buildObjectTree_pointing (hs : s.Treeless) :
    (s.buildObjectTree cfg sysfs stack).Pointing := by
  have hsound := buildTree_sound cfg sysfs stack hs
  refine ⟨fun i d hd => ?_, hsound.child_valid, hsound.parent_valid, fun i n hn => ?_⟩
  · rw [(buildObjectTree_unplaced s i).assignedObj] at hd
    cases hd
  · have hnode := (fresh_rebuild cfg sysfs stack hs).owned.numaNode_valid i n
    rw [rebuild_eq, info_modifyIrqList, valid_modifyIrqList] at hnode
    exact hnode hn

end State

namespace LinkedState

variable {L : IrqList → Cells ℕ} {c : LinkedState} {s s' : State} {i : ℕ}
  (cfg : Config) (alloc : Allocator ℕ)

theorem represents_build (sysfs : Sysfs) (stack : Stack) (hs : s.Treeless)
    (hrest : c.rest = s.buildObjectTree cfg sysfs stack) (hholds : HeapHolds c.heap c.head fun _ => []) :
    Represents (fun _ => []) c (s.buildObjectTree cfg sysfs stack) where
  rest := hrest.trans (s.buildObjectTree_withoutLists cfg sysfs stack hs).symm
  holds := hholds
  lists l := (State.buildObjectTree_irqList cfg sysfs stack hs l).symm
  pointing := State.buildObjectTree_pointing cfg sysfs stack hs

/-! ## `force_rebalance_irq` -/

theorem forceRebalanceIrq_leads (h : Represents L c s) :
    Leads s (forceRebalanceIrq alloc () i) c () (s.forceRebalanceIrq i) := by
  unfold State.forceRebalanceIrq forceRebalanceIrq
  refine .readRest h (v := s.info i) rfl ?_
  split
  · exact .pure h trivial ()
  · dsimp only
    cases hd : (s.info i).assignedObj with
    | none =>
        refine .bind (ends_append alloc (l := .rebalance) h trivial) fun L₁ c₁ h₁ _ _ => ?_
        exact (ends_setAssigned h₁ (by simp)).mono fun _ _ => trivial
    | some d =>
        have hsrc : s.ListValid (.ofObj d) := h.pointing.assigned i d hd
        exact (reassign_ends alloc (a := none) h hsrc (by simp)).mono fun _ _ => trivial

theorem forceRebalance_leads (h : Represents L c s) :
    Leads s (forceRebalance alloc) c () s.forceRebalance := by
  refine .readRest h (v := s.dbSize) rfl ?_
  refine foldlM_leads id (fun _ => ()) (f := fun s i => some (s.forceRebalanceIrq i)) ?_ h
    (.refl s) (List.foldlM_pure (m := Option))
  rintro i - L₁ c₁ s₁ _ h₁ - hstep
  cases hstep
  exact forceRebalanceIrq_leads alloc h₁

/-! ## Rescans -/

theorem foldl_cleared (lists : List IrqList) (l : IrqList) (hl : l ∈ lists ∨ s.irqList l = []) :
    (lists.foldl (fun t l => t.modifyIrqList l fun _ => []) s).irqList l = [] := by
  induction lists generalizing s with
  | nil => exact hl.resolve_left (by simp)
  | cons x rest ih =>
      refine ih ?_
      rw [State.irqList_modifyIrqList]
      split
      · exact .inr rfl
      · rename_i hother
        rcases hl with hl | hnil
        · rcases List.mem_cons.mp hl with rfl | hrest
          · exact .inr (s.irqList_of_not_listValid l fun hvalid => hother ⟨rfl, hvalid⟩)
          · exact .inl hrest
        · exact .inr hnil

theorem freeList_leads {l : IrqList} (h : Represents L c s) (hl : s.ListValid l) :
    Leads s (freeList () l) c () (s.modifyIrqList l fun _ => []) := by
  refine (ends_updateList (g := fun _ => []) h hl ?_ contents_nil).mono fun _ _ => trivial
  obtain ⟨heap, hrun, hreplaces⟩ := gListFree_spec (h.isList l)
  exact ⟨none, heap, run_bind_of_eq hrun _, isList_nil heap, hreplaces⟩

/-- All lists are freed. -/
theorem freeLists_spec (h : Represents L c s) :
    ∃ c', freeLists.run c = some ((), c') ∧ c'.rest = s.withoutLists ∧
      HeapHolds c'.heap c'.head fun _ => [] := by
  set lists := s.topo.allRefs.map IrqList.ofObj ++ [IrqList.rebalance] with hlists
  have hfree : Leads s freeLists c ()
      (lists.foldl (fun t l => t.modifyIrqList l fun _ => []) s) := by
    refine .readRest h (v := s.topo.allRefs) ?_ ?_
    · simp only [State.refs_withoutLists]
      rfl
    · refine foldlM_leads id (fun _ => ()) (f := fun t l => some (t.modifyIrqList l fun _ => []))
        ?_ h (.refl s) (List.foldlM_pure (m := Option))
      rintro l hl L₁ c₁ t _ h₁ htree hstep
      cases hstep
      refine freeList_leads h₁ (htree.listValid ?_)
      rcases List.mem_append.mp hl with hobj | hrebalance
      · obtain ⟨d, hd, rfl⟩ := List.mem_map.mp hobj
        exact Topology.mem_allRefs.mp hd
      · rw [List.mem_singleton.mp hrebalance]
        trivial
  obtain ⟨L', c', hrun, h', -⟩ := hfree
  refine ⟨c', hrun, ?_, ?_⟩
  · rw [h'.rest]
    exact foldl_keeps State.withoutLists (fun l t => t.withoutLists_modifyIrqList l _) lists s
  · have hempty : L' = fun _ => [] := by
      funext l
      refine List.map_eq_nil_iff.mp ((h'.lists l).trans (foldl_cleared lists l ?_))
      cases l with
      | rebalance => simp [hlists]
      | ofObj d =>
          by_cases hd : s.topo.Valid d
          · exact .inl (by simpa [hlists] using Topology.mem_allRefs.mpr hd)
          · exact .inr (s.irqList_of_not_listValid (.ofObj d) hd)
    exact hempty ▸ h'.holds

/-- A build from nothing and the pass that follows it. -/
theorem rebuild_spec (sysfs : Sysfs) (stack : Stack) (hs : s.Treeless)
    (hrest : c.rest = s.buildObjectTree cfg sysfs stack)
    (hholds : HeapHolds c.heap c.head fun _ => []) :
    ∃ L' c', (forceRebalance alloc).run c = some ((), c') ∧
      Represents L' c' (s.rebuild cfg sysfs stack) := by
  obtain ⟨L', c', hrun, h', -⟩ :=
    forceRebalance_leads alloc (represents_build cfg sysfs stack hs hrest hholds)
  exact ⟨L', c', hrun, h'⟩

theorem start_spec (sysfs : Sysfs) (stack : Stack) :
    ∃ L' c', (LinkedState.start cfg alloc sysfs stack).run {} = some ((), c') ∧
      Represents L' c' (Irqbalance.start cfg sysfs stack) :=
  rebuild_spec cfg alloc (c := { rest := ({} : State).buildObjectTree cfg sysfs stack }) sysfs stack
    State.treeless_empty rfl .empty

theorem rescan_spec (sysfs : Sysfs) (stack : Stack) (h : Represents L c s) :
    ∃ L' c', (rescan cfg alloc sysfs stack).run c = some ((), c') ∧
      Represents L' c' (s.rescan cfg sysfs stack) := by
  have hflags := ends_still (f := fun s => { s with needRescan := false, cycleCount := 0 }) h rfl
    rfl
  obtain ⟨L₁, c₁, hrun₁, h₁, -⟩ := hflags
  obtain ⟨c₂, hrun₂, hrest₂, hholds₂⟩ := freeLists_spec h₁
  -- what `free_object_tree` leaves does not depend on the lists
  set blank := ({ s with needRescan := false, cycleCount := 0 } : State).freeObjectTree
  have hblank : blank.Treeless := by
    intro ty
    cases ty <;> rfl
  have hrest₃ : c₂.rest.freeObjectTree.buildObjectTree cfg sysfs stack =
      blank.buildObjectTree cfg sysfs stack := by
    rw [hrest₂]
    rfl
  obtain ⟨L', c', hrun', h'⟩ := rebuild_spec cfg alloc
    (c := { c₂ with rest := c₂.rest.freeObjectTree.buildObjectTree cfg sysfs stack }) sysfs stack
    hblank hrest₃ hholds₂
  refine ⟨L', c', ?_, h'⟩
  rw [rescan, run_bind_of_eq hrun₁, run_bind_of_eq hrun₂]
  exact hrun'

/-! ## Runs -/

/-- A call of `main` on linked lists is the call on lists. -/
theorem exec_spec {op : Op} (h : Represents L c s) (hrun : Irqbalance.exec cfg s op = some s') :
    ∃ L' c', (exec cfg alloc op).run c = some ((), c') ∧ Represents L' c' s' := by
  have leads {x : ListProg Unit} {t : State} (hx : Leads s x c () t) :
      ∃ L' c', x.run c = some ((), c') ∧ Represents L' c' t := by
    obtain ⟨L', c', hrun', h', -⟩ := hx
    exact ⟨L', c', hrun', h'⟩
  have counts (f : State → State) (hrest : f s.withoutLists = (f s).withoutLists)
      (hstill : (f s).still = s.still) :
      ∃ L' c', (modifyRest f).run c = some ((), c') ∧ Represents L' c' (f s) :=
    leads ((ends_still h hrest hstill).mono fun _ _ => trivial)
  cases op with
  | clearWorkStats =>
      cases hrun
      exact leads (clearWorkStats_leads h)
  | parseProcInterrupts file =>
      cases hrun
      exact counts (fun s => s.parseProcInterrupts file) (s.parseProcInterrupts_withoutLists file)
        (s.parseProcInterrupts_still file)
  | parseProcStat file =>
      cases hrun
      exact leads (parseProcStat_leads cfg file h)
  | rescan sysfs stack =>
      cases hrun
      obtain ⟨L₁, c₁, hrun₁, h₁, -⟩ := clearWorkStats_leads h
      obtain ⟨L', c', hrun', h'⟩ := rescan_spec cfg alloc sysfs stack h₁
      exact ⟨L', c', (run_bind_of_eq hrun₁ _).trans hrun', h'⟩
  | updateMigrationStatus addr => exact leads (updateMigrationStatus_leads cfg alloc addr h hrun)
  | calculatePlacement addr => exact leads (calculatePlacement_leads cfg alloc addr h hrun)
  | activateMappings smpAffinity =>
      cases hrun
      exact leads (activateMappings_leads cfg smpAffinity h)
  | nextCycle =>
      cases hrun
      exact counts (fun s => { s with cycleCount := s.cycleCount + 1 }) rfl rfl
  | forceRescan =>
      cases hrun
      refine counts (fun s => if s.cycleCount ≠ 0 then { s with needRescan := true } else s) ?_ ?_
      · rw [apply_ite State.withoutLists]
        rfl
      · split <;> rfl

/-- `main` from its start through some calls. -/
def runs (sysfs : Sysfs) (stack : Stack) (ops : List Op) : ListProg Unit := do
  LinkedState.start cfg alloc sysfs stack
  ops.foldlM (fun _ op => exec cfg alloc op) ()

theorem foldlM_exec_spec {ops : List Op} (h : Represents L c s)
    (hrun : ops.foldlM (Irqbalance.exec cfg) s = some s') :
    ∃ L' c', (ops.foldlM (fun _ op => exec cfg alloc op) ()).run c = some ((), c') ∧
      Represents L' c' s' := by
  induction ops generalizing L c s with
  | nil =>
      cases hrun
      exact ⟨L, c, rfl, h⟩
  | cons op ops ih =>
      rw [List.foldlM_cons] at hrun ⊢
      obtain ⟨mid, hmid, hrest⟩ := Option.bind_eq_some_iff.mp hrun
      obtain ⟨L₁, c₁, hrun₁, h₁⟩ := exec_spec cfg alloc h hmid
      obtain ⟨L', c', hrun', h'⟩ := ih h₁ hrest
      exact ⟨L', c', (run_bind_of_eq hrun₁ _).trans hrun', h'⟩

theorem Represents.card_live (h : Represents L c s) : c.heap.live.card = s.irqLists.length := by
  rw [h.holds.card_live s.nodup_listHeads, s.irqLists_eq, List.length_flatMap, List.length_flatMap]
  · simp only [h.length]
  · intro l hl
    have hne : s.irqList l ≠ [] := by
      rw [← h.lists l]
      simpa [contents] using hl
    cases l with
    | rebalance => exact List.mem_cons_self
    | ofObj d =>
        have hvalid : s.topo.Valid d := by
          by_contra hnot
          exact hne (s.irqList_of_not_listValid (.ofObj d) hnot)
        simpa [State.listHeads] using Topology.mem_allRefs.mpr hvalid

end LinkedState

/-- Every run of the daemon on lists is one on linked lists, wherever `malloc` puts the cells
and whatever it leaves in them: the lists hold the same IRQs in the same order, everything else
is the same, and there is a cell for each entry of a list and no other. -/
theorem linked_runs (cfg : Config) (alloc : Allocator ℕ) (sysfs : Sysfs) (stack : Stack)
    (ops : List Op) (s : State) (hrun : ops.foldlM (exec cfg) (start cfg sysfs stack) = some s) :
    ∃ c, (LinkedState.runs cfg alloc sysfs stack ops).run {} = some ((), c) ∧
      c.rest = s.withoutLists ∧ c.heap.live.card = s.irqLists.length ∧
      ∃ L, HeapHolds c.heap c.head L ∧ ∀ l, contents (L l) = s.irqList l := by
  obtain ⟨L₁, c₁, hrun₁, h₁⟩ := LinkedState.start_spec cfg alloc sysfs stack
  obtain ⟨L, c, hrun', h⟩ := LinkedState.foldlM_exec_spec cfg alloc h₁ hrun
  exact ⟨c, (run_bind_of_eq hrun₁ _).trans hrun', h.rest, h.card_live, L, h.holds, h.lists⟩

/-- The lowest free address, with stale pointers in the cell. -/
def Sample.lowest : Allocator ℕ where
  addr _ live := Nat.find (Infinite.exists_notMem_finset live)
  fresh _ live := Nat.find_spec (Infinite.exists_notMem_finset live)
  junk n := ⟨n, some 0, some 0⟩

theorem linked_runs_placed :
    ∃ c, (LinkedState.runs Sample.config Sample.lowest Sample.machine {} Sample.placing).run {} =
        some ((), c) ∧
      c.rest = Sample.placed.withoutLists ∧ c.heap.live.card = Sample.placed.irqLists.length ∧
      ∃ L, HeapHolds c.heap c.head L ∧ ∀ l, contents (L l) = Sample.placed.irqList l :=
  linked_runs Sample.config Sample.lowest Sample.machine {} Sample.placing Sample.placed
    Sample.placing_run

end CodeAnalyze.Irqbalance
