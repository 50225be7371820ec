import CodeAnalyze.Irqbalance.LinkedLists

/-!
# Statistics on linked lists

The calls that collect statistics walk lists of IRQs and change none.
-/

namespace CodeAnalyze.Irqbalance

open Lib Lib.Cells GlistCode

/-! ## What never looks at a list -/

namespace Topology

variable (t : Topology) (d : ObjRef)

@[simp] theorem obj_map_withoutList :
    (t.map TopoObj.withoutList).obj d = (t.obj d).withoutList :=
  map_obj d rfl t

@[simp] theorem parentRef_map_withoutList :
    (t.map TopoObj.withoutList).parentRef d = t.parentRef d := by
  simp only [parentRef, obj_map_withoutList]
  rfl

theorem resetLoad_map_withoutList :
    (t.map TopoObj.withoutList).resetLoad d = (t.resetLoad d).map TopoObj.withoutList := by
  fun_induction resetLoad t d with
  | case1 d t' ih =>
      have hwrite (u : Topology) := map_modify_comm
        (f := fun o => { o with load := 0 }) (g := TopoObj.withoutList) (fun _ => rfl) u d
      cases hp : t.parentRef d with
      | none =>
          have hp' : (t.map TopoObj.withoutList).parentRef d = none := by simpa using hp
          rw [← resetLoad, resetLoad_root hp, resetLoad_root hp', hwrite]
      | some p =>
          have hp' : (t.map TopoObj.withoutList).parentRef d = some p := by simpa using hp
          rw [← resetLoad, resetLoad_child hp, resetLoad_child hp', hwrite, ih p hp]

theorem foldl_resetLoad_map_withoutList (list : List ObjRef) :
    list.foldl resetLoad (t.map TopoObj.withoutList) =
      (list.foldl resetLoad t).map TopoObj.withoutList := by
  induction list generalizing t with
  | nil => rfl
  | cons d list ih => rw [List.foldl_cons, List.foldl_cons, resetLoad_map_withoutList, ih]

end Topology

theorem readCpuLoads_map_withoutList (cfg : Config) (cycleCount : UInt64) (t : Topology)
    (cpucount : ℕ) (lines : List Bytes) :
    readCpuLoads cfg cycleCount (t.map TopoObj.withoutList) cpucount lines =
      ((readCpuLoads cfg cycleCount t cpucount lines).1.map TopoObj.withoutList,
        (readCpuLoads cfg cycleCount t cpucount lines).2) := by
  induction lines generalizing t cpucount with
  | nil => rfl
  | cons line rest ih =>
      have hfind (cpunr : ℤ) :
          findCpuCore (t.map TopoObj.withoutList) cpunr = findCpuCore t cpunr := by
        simp [findCpuCore, Topology.map, List.findIdx?_map, Function.comp_def,
          TopoObj.withoutList]
      unfold readCpuLoads
      cases statLine cfg line with
      | stop => rfl
      | banned => exact ih t cpucount
      | loads cpunr irqLoad softirqLoad =>
          simp only [hfind]
          cases findCpuCore t cpunr with
          | none => rfl
          | some cpu =>
              simp only
              rw [← ih, Topology.map_modify_comm]
              intro o
              rfl

namespace State

variable (s : State)

theorem updateCount_withoutLists (number : ℤ) (counts : Bytes) :
    s.withoutLists.updateCount number counts =
      (s.updateCount number counts).map withoutLists := by
  unfold updateCount
  rw [show s.withoutLists.irqs.getIrqInfo number = s.irqs.getIrqInfo number from rfl]
  cases s.irqs.getIrqInfo number with
  | none => rfl
  | some ref =>
      dsimp only
      rw [show s.withoutLists.topo.coreCount = s.topo.coreCount from rfl,
        show s.withoutLists.refInfo ref = s.refInfo ref from by cases ref <;> rfl]
      split
      · rfl
      · split
        · rfl
        · rw [apply_ite (Except.map withoutLists)]
          cases ref <;> rfl

theorem parseProcLines_withoutLists (lines : List Bytes) :
    s.withoutLists.parseProcLines lines =
      ((s.parseProcLines lines).1.withoutLists, (s.parseProcLines lines).2) := by
  induction lines generalizing s with
  | nil => rfl
  | cons line rest ih =>
      unfold parseProcLines
      dsimp only
      have hflag (b : Bool) :
          (if b then { s.withoutLists with procIntHasMsi := true } else s.withoutLists) =
            (if b then { s with procIntHasMsi := true } else s).withoutLists := by
        cases b <;> rfl
      rw [hflag]
      cases procLine line with
      | stop => rfl
      | skip => exact ih _
      | irq number counts =>
          dsimp only
          rw [updateCount_withoutLists]
          generalize (if strstr (cstr line) (chars ['M', 'S', 'I']) then
            { s with procIntHasMsi := true } else s) = t
          cases t.updateCount number counts with
          | error cause => rfl
          | ok t => exact ih t

theorem parseProcInterrupts_withoutLists (file : Option Bytes) :
    s.withoutLists.parseProcInterrupts file = (s.parseProcInterrupts file).withoutLists := by
  cases file with
  | none => rfl
  | some file =>
      simp only [parseProcInterrupts, parseProcLines_withoutLists]
      rw [apply_ite withoutLists]
      rfl

theorem divideLoad_withoutLists (d : ObjRef) :
    s.withoutLists.divideLoad d = (s.divideLoad d).withoutLists := by
  rw [divideLoad, divideLoad, obj_withoutLists, withoutLists_modifyObj]
  · rfl
  intro o
  rfl

theorem addLoadToParent_withoutLists (d : ObjRef) :
    s.withoutLists.addLoadToParent d = (s.addLoadToParent d).withoutLists := by
  rw [addLoadToParent, addLoadToParent, obj_withoutLists, parentRef_withoutLists]
  cases s.topo.parentRef d with
  | none => rfl
  | some p => exact (withoutLists_modifyObj s p (by intro o; rfl)).symm

end State

namespace LinkedState

variable {L : IrqList → Cells ℕ} {c : LinkedState} {s : State} {d : ObjRef} {l : IrqList}

/-! ## Walks -/

/-- A walk of the list whose callback keeps the lists. -/
theorem forEachIrq_keeps {τ σ : Type} (st : σ → State) (acc : σ → τ)
    (cb : τ → ℕ → ListProg τ) {f : σ → ℕ → σ} {x : σ}
    (hcb : ∀ i L c x, Represents L c (st x) → Ends (st x) (cb (acc x) i) c (acc (f x i))
      (st (f x i)) fun L' => L' = L)
    (h : Represents L c (st x)) (hl : (st x).ListValid l) :
    Leads (st x) (forEachIrq l cb (acc x)) c
      (acc (((st x).forEachIrq ((st x).irqList l)).foldl f x))
      (st (((st x).forEachIrq ((st x).irqList l)).foldl f x)) := by
  refine forEachIrq_leads st acc (f := fun x i => some (f x i)) ?_ h (.refl _) hl
    (List.foldlM_pure (m := Option))
  rintro i L c x x' h - hx
  cases hx
  exact (hcb i L c x h).mono fun L' hL' => .of_eq (congrFun hL' l)

/-! ## `clear_work_stats` -/

theorem run_clearObjStats (c : LinkedState) (d : ObjRef) :
    (clearObjStats d).run c =
      (do
        (c.rest.topo.childRefs d).foldlM (fun _ child => clearObjStats child) ()
        forEachIrq (.ofObj d) clearIrqStats () : ListProg Unit).run c := by
  change clearObjStats d c = _
  rw [clearObjStats]
  simp only [List.foldlM_subtype, List.unattach_attach]

theorem clearObjStats_leads (h : Represents L c s) (hd : s.topo.Valid d) :
    Leads s (clearObjStats d) c () (s.clearObjStats d) := by
  induction hn : d.objType.height using Nat.strong_induction_on generalizing L c s d with
  | _ n ih =>
      have hrun : Leads s (do
          (s.topo.childRefs d).foldlM (fun _ child => clearObjStats child) ()
          forEachIrq (.ofObj d) clearIrqStats ()) c () (s.clearObjStats d) := by
        rw [State.clearObjStats_eq]
        refine .bind (foldlM_leads id (fun _ => ()) (f := fun s child => some (s.clearObjStats child))
          ?_ h (.refl s) (List.foldlM_pure (m := Option))) ?_
        · rintro x hx L₁ c₁ s₁ _ h₁ htree₁ hstep
          cases hstep
          have := ObjType.height_below (Topology.objType_of_mem_childRefs hx)
          exact ih _ (by omega) h₁ ((htree₁ x).mpr (h.pointing.children d x hx)) rfl
        · intro L₁ c₁ h₁ htree₁ _
          exact forEachIrq_keeps id (fun _ => ()) clearIrqStats (fun i L c x hx =>
            ends_still hx rfl (x.clearIrqStats_still i)) h₁ ((htree₁ d).mpr hd)
      obtain ⟨L', c', hrun, hrest⟩ := hrun
      refine ⟨L', c', ?_, hrest⟩
      rw [run_clearObjStats, h.rest, State.childRefs_withoutLists]
      exact hrun

theorem clearWorkStats_leads (h : Represents L c s) :
    Leads s clearWorkStats c () s.clearWorkStats := by
  refine .readRest h (v := s.topo.refs .node) (s.refs_withoutLists .node) ?_
  refine foldlM_leads id (fun _ => ()) (f := fun s d => some (s.clearObjStats d)) ?_ h (.refl s)
    (List.foldlM_pure (m := Option))
  rintro d hd L₁ c₁ s₁ _ h₁ htree₁ hstep
  cases hstep
  exact clearObjStats_leads h₁ ((htree₁ d).mpr (Topology.mem_refs.mp hd).2)

/-! ## `parse_proc_stat` -/

/-- A list that is not empty is walked as it is. -/
theorem forEachIrq_of_length {list : List ℕ} (hlength : list.length > 0) :
    s.forEachIrq list = list :=
  s.mem_forEachIrq_of_ne_nil (List.length_pos_iff.mp hlength)

theorem addIrqCounts_leads (h : Represents L c s) (hd : s.topo.Valid d) (total : UInt64) :
    Leads s (addIrqCounts d total) c ((s.obj d).interrupts.foldl s.accumulateIrqCount total) s := by
  refine .listLength h hd ?_
  split
  · rename_i hlength
    have hwalk := forEachIrq_keeps (fun _ => s) id accumulateIrqCount (x := total)
      (l := .ofObj d) (f := s.accumulateIrqCount)
      (fun i L c acc hrep => ends_readRest hrep rfl) h hd
    rwa [forEachIrq_of_length hlength] at hwalk
  · rename_i hlength
    rw [show (s.obj d).interrupts = [] by simpa [State.irqList] using hlength]
    exact .pure h trivial _

theorem share_leads (h : Represents L c s) (hd : s.topo.Valid d) :
    Leads s (getParentBranchIrqCountShare d) c (s.getParentBranchIrqCountShare d) s := by
  induction hn : 3 - d.objType.height using Nat.strong_induction_on generalizing L c d with
  | _ n ih =>
      have hparent : c.rest.topo.parentRef d = s.topo.parentRef d := by
        rw [h.rest, State.parentRef_withoutLists]
      cases hp : s.topo.parentRef d with
      | none =>
          have hrun : getParentBranchIrqCountShare d c = (addIrqCounts d 0).run c := by
            rw [getParentBranchIrqCountShare]
            split <;> simp_all
          rw [State.share_root hp]
          obtain ⟨L', c', hcounts, hrest⟩ := addIrqCounts_leads h hd 0
          exact ⟨L', c', hrun.trans hcounts, hrest⟩
      | some p =>
          have hrun : getParentBranchIrqCountShare d c =
              (do
                let total ← getParentBranchIrqCountShare p
                let children ← readRest fun s => (s.obj p).children.length
                addIrqCounts d (total / UInt64.ofNat children) : ListProg UInt64).run c := by
            rw [getParentBranchIrqCountShare]
            split <;> simp_all
          rw [State.share_child hp]
          have := ObjType.height_above (Topology.objType_of_parentRef hp)
          have := p.objType.height_le
          have hbind := (ih _ (by omega) h (h.pointing.parents d p hp) rfl).bind
            (f := fun total => do
              let children ← readRest fun s => (s.obj p).children.length
              addIrqCounts d (total / UInt64.ofNat children)) (K := fun _ => True)
            fun L₁ c₁ h₁ _ _ => Ends.readRest h₁ (v := (s.obj p).children.length)
              (by rw [State.obj_withoutLists]; rfl) (addIrqCounts_leads h₁ hd _)
          obtain ⟨L', c', hcounts, hrest⟩ := hbind
          exact ⟨L', c', hrun.trans hcounts, hrest⟩

theorem assignLoadSlices_leads (h : Represents L c s) (hd : s.topo.Valid d) :
    Leads s (assignLoadSlices d) c () (s.assignLoadSlices d) := by
  refine .listLength h hd ?_
  split
  · rename_i hlength
    refine .bind (share_leads h hd) fun L₁ c₁ h₁ _ _ => ?_
    refine .readRest h₁ (v := (s.obj d).load) (by rw [State.obj_withoutLists]; rfl) ?_
    have hwalk := forEachIrq_keeps id (fun _ => ()) (assignLoadSlice (s.loadSlice d)) (x := s)
      (l := .ofObj d) (f := State.assignLoadSlice (s.loadSlice d))
      (fun i L c x hx => ends_still hx rfl (x.still_modifyInfo i (by intro o; rfl))) h₁ hd
    rw [id, forEachIrq_of_length hlength] at hwalk
    exact hwalk
  · rename_i hlength
    rw [State.assignLoadSlices,
      show (s.obj d).interrupts = [] by simpa [State.irqList] using hlength]
    exact .pure h trivial _

theorem computeIrqBranchLoadShare_leads (h : Represents L c s) (hd : s.topo.Valid d) :
    Leads s (computeIrqBranchLoadShare () d) c () (s.computeIrqBranchLoadShare d) := by
  refine .bind (ends_still h (s.divideLoad_withoutLists d) (s.divideLoad_still d)) ?_
  intro L₁ c₁ h₁ htree₁ _
  refine .bind (assignLoadSlices_leads h₁ ((htree₁ d).mpr hd)) fun L₂ c₂ h₂ _ _ => ?_
  exact (ends_still h₂ (State.addLoadToParent_withoutLists _ d)
    (State.addLoadToParent_still _ d)).mono fun _ _ => trivial

theorem shareLevel_leads (ty : ObjType) (h : Represents L c s) :
    Leads s (shareLevel ty) c () ((s.topo.refs ty).foldl State.computeIrqBranchLoadShare s) := by
  refine .readRest h (v := s.topo.refs ty) (s.refs_withoutLists ty) ?_
  refine foldlM_leads id (fun _ => ()) (f := fun s d => some (s.computeIrqBranchLoadShare d)) ?_ h
    (.refl s) (List.foldlM_pure (m := Option))
  rintro d hd L₁ c₁ s₁ _ h₁ htree₁ hstep
  cases hstep
  exact computeIrqBranchLoadShare_leads h₁ ((htree₁ d).mpr (Topology.mem_refs.mp hd).2)

theorem propagateLoads_leads (h : Represents L c s) :
    Leads s propagateLoads c () s.propagateLoads := by
  have hreset : ((s.topo.refs .cache).foldl Topology.resetLoad s.topo).map TopoObj.still =
      s.topo.map TopoObj.still :=
    foldl_keeps (fun t => Topology.map TopoObj.still t) (fun d t => t.resetLoad_still d) _ _
  refine .bind (ends_still h ?_ (State.still_of_topo hreset)) fun L₁ c₁ h₁ _ _ => ?_
  · rw [s.refs_withoutLists .cache]
    have hcomm := s.topo.foldl_resetLoad_map_withoutList (s.topo.refs .cache)
    simp only [State.withoutLists, hcomm]
  · refine .bind (shareLevel_leads .cpu h₁) fun L₂ c₂ h₂ _ _ => ?_
    refine .bind (shareLevel_leads .cache h₂) fun L₃ c₃ h₃ _ _ => ?_
    refine .bind (shareLevel_leads .package h₃) fun L₄ c₄ h₄ _ _ => ?_
    exact shareLevel_leads .node h₄

theorem parseProcStat_leads (cfg : Config) (file : Option Bytes) (h : Represents L c s) :
    Leads s (parseProcStat cfg file) c () (s.parseProcStat cfg file) := by
  cases file with
  | none => exact .pure h trivial ()
  | some file =>
      have hcomm := readCpuLoads_map_withoutList cfg s.cycleCount s.topo 0 (statBuffers file)
      have hread := readCpuLoads_still cfg s.cycleCount s.topo 0 (statBuffers file)
      refine .readRest h (congrArg Prod.snd hcomm) ?_
      refine .bind (ends_still h ?_ (State.still_of_topo hread)) fun L₁ c₁ h₁ _ _ => ?_
      · change { s.withoutLists with topo := (readCpuLoads cfg s.cycleCount
          (s.topo.map TopoObj.withoutList) 0 (statBuffers file)).1 } = _
        rw [hcomm]
        rfl
      · refine .readRest h₁ (List.length_map _) ?_
        simp only [State.parseProcStat]
        split
        · exact .pure h₁ trivial ()
        · exact propagateLoads_leads h₁

end LinkedState

end CodeAnalyze.Irqbalance
