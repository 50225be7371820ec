import CodeAnalyze.Irqbalance.LinkedStats
import CodeAnalyze.Irqbalance.Calls

/-!
# Migration and placement on linked lists

Each call of `main` that moves IRQs does on linked lists what it does on lists.  The callbacks
move an IRQ off the list that is walked, and free its cell, but put none on it: this is what
`Passes` says of each of them.
-/

namespace CodeAnalyze.Irqbalance

open Lib Lib.Cells GlistCode

/-! ## What never looks at a list -/

namespace State

variable (cfg : Config) (s : State)

@[simp] theorem loadStats_withoutLists (name : List ObjRef) :
    loadStats s.withoutLists.topo name = loadStats s.topo name := by
  have hgather : gatherLoadStats s.withoutLists.topo = gatherLoadStats s.topo := by
    funext info d
    simp only [gatherLoadStats, obj_withoutLists, TopoObj.withoutList]
  have hdeviations : computeDeviations s.withoutLists.topo = computeDeviations s.topo := by
    funext info d
    simp only [computeDeviations, obj_withoutLists, TopoObj.withoutList]
  simp only [loadStats, hgather, hdeviations]

theorem countObj_withoutLists (d : ObjRef) (lb : LoadBalanceInfo) :
    s.withoutLists.countObj cfg d lb = s.countObj cfg d lb := by
  simp only [countObj, obj_withoutLists, TopoObj.withoutList]

theorem skipsObject_withoutLists (info : IrqInfo) (d : ObjRef) :
    s.withoutLists.skipsObject cfg info d = s.skipsObject cfg info d := by
  simp only [skipsObject, obj_withoutLists, TopoObj.withoutList]
  rfl

theorem foldl_clearPowersaveMode_withoutLists (list : List ObjRef) :
    list.foldl clearPowersaveMode s.withoutLists =
      (list.foldl clearPowersaveMode s).withoutLists := by
  induction list generalizing s with
  | nil => rfl
  | cons d list ih =>
      rw [List.foldl_cons, List.foldl_cons, ← ih, clearPowersaveMode, clearPowersaveMode,
        withoutLists_modifyObj]
      intro o
      rfl

theorem activateMapping_withoutLists (smpAffinity : ℤ → SmpAffinity) (i : ℕ) :
    s.withoutLists.activateMapping cfg smpAffinity i =
      (s.activateMapping cfg smpAffinity i).withoutLists := by
  have hmask (info : IrqInfo) :
      s.withoutLists.appliedMask cfg info = s.appliedMask cfg info := by
    simp only [appliedMask, obj_withoutLists, TopoObj.withoutList]
    rfl
  simp only [activateMapping, hmask, info_withoutLists]
  split
  · rfl
  · split
    · rfl
    · repeat rw [apply_ite withoutLists]
      rfl

theorem activateMappings_withoutLists (smpAffinity : ℤ → SmpAffinity) :
    s.withoutLists.activateMappings cfg smpAffinity =
      (s.activateMappings cfg smpAffinity).withoutLists := by
  have hfold (list : List ℕ) (t : State) :
      list.foldl (activateMapping cfg smpAffinity) t.withoutLists =
        (list.foldl (activateMapping cfg smpAffinity) t).withoutLists := by
    induction list generalizing t with
    | nil => rfl
    | cons i list ih => rw [List.foldl_cons, List.foldl_cons, activateMapping_withoutLists, ih]
  exact hfold _ s

end State

namespace LinkedState

variable {L : IrqList → Cells ℕ} {c : LinkedState} {s s' s₂ : State} {d : ObjRef} {i : ℕ}
  {src : IrqList} {a : Option ObjRef} {γ : Type} {b₂ : γ} {K : (IrqList → Cells ℕ) → Prop}
  (cfg : Config) (alloc : Allocator ℕ) (addr : ℕ → ℕ)

/-! ## `migrate_irq` with the assignment -/

theorem listValid_homeList (ha : ∀ d, a = some d → s.topo.Valid d) :
    s.ListValid (homeList a) := by
  cases a with
  | none => trivial
  | some d => exact ha d rfl

theorem reassign_ends (h : Represents L c s) (hsrc : s.ListValid src)
    (ha : ∀ d, a = some d → s.topo.Valid d) :
    Ends s (do
      migrateIrq alloc src (homeList a) i
      setAssigned i a) c () (s.reassign src a i)
      fun L' => ∀ l, l ≠ homeList a → Passes i l L L' := by
  refine .bind (migrateIrq_ends alloc h hsrc (listValid_homeList ha)) fun L₁ c₁ h₁ htree hpass => ?_
  refine (ends_setAssigned h₁ fun d hd => (htree d).mpr (ha d hd)).mono ?_
  rintro _ rfl
  exact hpass

/-- The same before something else. -/
theorem Ends.reassign {x : ListProg γ} (h : Represents L c s) (hsrc : s.ListValid src)
    (ha : ∀ d, a = some d → s.topo.Valid d)
    (hx : ∀ L₁ c₁, Represents L₁ c₁ (s.reassign src a i) → (s.reassign src a i).SameTree s →
      (∀ l, l ≠ homeList a → Passes i l L L₁) → Ends (s.reassign src a i) x c₁ b₂ s₂ K) :
    Ends s (do
      migrateIrq alloc src (homeList a) i
      setAssigned i a
      x) c b₂ s₂ K := by
  have hbind := (reassign_ends alloc h hsrc ha).bind (f := fun _ => x) hx
  rwa [bind_assoc] at hbind

/-! ## `update_migration_status` -/

theorem moveCandidateIrqs_ends {lb lb' : LoadBalanceInfo} (h : Represents L c s)
    (hrun : State.moveCandidateIrqs (s, lb) i = some (s', lb')) :
    Ends s (moveCandidateIrqs alloc lb i) c lb' s' fun L' => ∀ d, Passes i (.ofObj d) L L' := by
  unfold State.moveCandidateIrqs at hrun
  unfold moveCandidateIrqs
  refine .readRest h (v := s.info i) rfl ?_
  dsimp only at hrun ⊢
  have hstays : Ends s (pure lb) c lb s fun L' => ∀ d, Passes i (.ofObj d) L L' :=
    .pure h (fun d => .of_eq rfl) lb
  split at hrun
  · cases hrun
    rwa [if_pos ‹_›]
  · rw [if_neg ‹_›]
    split at hrun
    · cases hrun
      rwa [if_pos ‹_›]
    · rw [if_neg ‹_›]
      cases hd : (s.info i).assignedObj with
      | none =>
          rw [hd] at hrun
          cases hrun
      | some d =>
          rw [hd] at hrun
          dsimp only at hrun ⊢
          refine .listLength h (h.pointing.assigned i d hd) ?_
          split at hrun
          · cases hrun
            rwa [if_pos ‹_›]
          · rw [if_neg ‹_›]
            split at hrun
            · cases hrun
              rwa [if_pos ‹_›]
            · rw [if_neg ‹_›]
              split at hrun
              · cases hrun
                rw [if_pos ‹_›]
                refine .reassign alloc (a := none) h (h.pointing.assigned i d hd) (by simp) ?_
                intro L₁ c₁ h₁ _ hpass
                exact .pure h₁ (fun d => hpass _ (by simp [homeList])) _
              · cases hrun
                rwa [if_neg ‹_›]

theorem migrateOverloadedIrqs_leads {lb lb' : LoadBalanceInfo} (h : Represents L c s)
    (hd : s.topo.Valid d)
    (hrun : State.migrateOverloadedIrqs cfg addr (s, lb) d = some (s', lb')) :
    Leads s (migrateOverloadedIrqs cfg alloc addr lb d) c lb' s' := by
  unfold State.migrateOverloadedIrqs at hrun
  refine .readRest h (s.countObj_withoutLists cfg d lb) ?_
  refine .readRest h (v := (s.obj d).load) (by rw [State.obj_withoutLists]; rfl) ?_
  refine .listLength h hd ?_
  dsimp only at hrun
  split at hrun
  · rename_i hmany
    rw [if_pos (by exact hmany)]
    refine .bind (sortIrqList_ends addr h hd) fun L₁ c₁ h₁ htree _ => ?_
    have hmany' : (s.obj d).interrupts.length > 1 := by
      simp only [Bool.and_eq_true, decide_eq_true_eq] at hmany
      exact hmany.2
    have hlength : ((s.sortIrqList addr (.ofObj d)).irqList (.ofObj d)).length > 0 := by
      rw [(s.sortIrqList_perm addr _ _).length_eq]
      exact Nat.lt_of_succ_lt hmany'
    have hload : ((s.sortIrqList addr (.ofObj d)).obj d).load = (s.obj d).load :=
      s.objField_modifyIrqList d (.ofObj d) _ TopoObj.load fun _ _ => rfl
    rw [State.moveCandidates, hload] at hrun
    generalize s.sortIrqList addr (.ofObj d) = sorted at *
    generalize ({ s.countObj cfg d lb with adjustmentLoad := (s.obj d).load } :
      LoadBalanceInfo) = start at *
    refine forEachIrq_leads Prod.fst Prod.snd (x := (sorted, start)) ?_ h₁ (.refl _)
      (show sorted.ListValid (.ofObj d) from (htree d).mpr hd)
      (show _ = some (s', lb') by rwa [forEachIrq_of_length hlength])
    rintro i L c ⟨t, lb₁⟩ ⟨t', lb₂⟩ ht - hstep
    exact (moveCandidateIrqs_ends alloc ht hstep).mono fun _ hpass => hpass d
  · rename_i hfew
    cases hrun
    rw [if_neg (by exact hfew)]
    exact .pure h trivial _

theorem findOverloadedObjs_leads (ty : ObjType) {lb : LoadBalanceInfo} (h : Represents L c s)
    (hrun : s.findOverloadedObjs cfg addr ty = some (s', lb)) :
    Leads s (findOverloadedObjs cfg alloc addr ty) c lb s' := by
  refine .readRest h (v := s.topo.refs ty) (s.refs_withoutLists ty) ?_
  refine .readRest h (s.loadStats_withoutLists _) ?_
  refine foldlM_leads Prod.fst Prod.snd (s := s)
    (x := (s, loadStats s.topo (s.topo.refs ty))) ?_ h (.refl s) hrun
  rintro d hd L₁ c₁ ⟨t, lb₁⟩ ⟨t', lb₂⟩ ht htree hstep
  exact migrateOverloadedIrqs_leads cfg alloc addr ht
    ((htree d).mpr (Topology.mem_refs.mp hd).2) hstep

theorem forceIrqMigration_ends (h : Represents L c s)
    (hrun : s.forceIrqMigration i = some s') :
    Ends s (forceIrqMigration alloc () i) c () s' fun L' => ∀ d, Passes i (.ofObj d) L L' := by
  unfold State.forceIrqMigration at hrun
  refine .readRest h (v := (s.info i).assignedObj) rfl ?_
  cases hd : (s.info i).assignedObj with
  | none =>
      rw [hd] at hrun
      cases hrun
  | some d =>
      rw [hd] at hrun
      cases hrun
      have hvalid : s.ListValid (.ofObj d) := h.pointing.assigned i d hd
      exact (reassign_ends alloc (a := none) h hvalid (by simp)).mono
        fun _ hpass d => hpass _ (by simp [homeList])

theorem enterPowersave_leads (h : Represents L c s) (hd : s.topo.Valid d)
    (hrun : s.enterPowersave d = some s') : Leads s (enterPowersave alloc d) c () s' := by
  refine .bind (ends_modifyObj h (by intro o; rfl) (by intro o; rfl) (by intro o; rfl)) ?_
  intro L₁ c₁ h₁ htree _
  unfold State.enterPowersave at hrun
  generalize s.modifyObj d (fun o => { o with powersaveMode := true }) = asleep at *
  have hd₁ : asleep.topo.Valid d := (htree d).mpr hd
  refine .listLength h₁ hd₁ ?_
  split
  · rename_i hlength
    refine forEachIrq_leads id (fun _ => ()) (x := asleep) ?_ h₁ (.refl _)
      (show asleep.ListValid (.ofObj d) from hd₁)
      (show _ = some s' by rwa [id, forEachIrq_of_length hlength])
    rintro i L c t t' ht - hstep
    exact (forceIrqMigration_ends alloc ht hstep).mono fun _ hpass => hpass d
  · rename_i hlength
    dsimp only at hrun
    rw [show (asleep.obj d).interrupts = [] by simpa [State.irqList] using hlength] at hrun
    cases hrun
    exact .pure h₁ trivial ()

/-- The branch that takes all CPUs out of powersave mode. -/
theorem wake_leads {wakes : Bool} (h : Represents L c s)
    (hrun : (if wakes then some ((s.topo.refs .cpu).foldl State.clearPowersaveMode s) else some s) =
      some s') :
    Leads s (if wakes then
        modifyRest fun s => (s.topo.refs .cpu).foldl State.clearPowersaveMode s
      else return ()) c () s' := by
  cases wakes with
  | false =>
      cases hrun
      exact .pure h trivial ()
  | true =>
      cases hrun
      have hfixed : ((s.topo.refs .cpu).foldl State.clearPowersaveMode s).fixed = s.fixed :=
        foldl_keeps State.fixed (fun d t => t.seen_modifyObj d (by intro o; rfl)) _ s
      refine (ends_modifyRest
        (f := fun s => (s.topo.refs .cpu).foldl State.clearPowersaveMode s) h ?_ hfixed ?_
        ?_).mono fun _ _ => trivial
      · rw [s.refs_withoutLists .cpu, State.foldl_clearPowersaveMode_withoutLists]
      · exact fun l => foldl_keeps (fun t => State.irqList t l)
          (fun d t => t.irqList_modifyObj d l (by intro o; rfl)) _ s
      · intro i d hd
        have hinfo := foldl_keeps (f := State.clearPowersaveMode) State.info
          (fun _ _ => rfl) (s.topo.refs .cpu) s
        exact h.pointing.assigned i d (hinfo ▸ hd)

theorem powersaveStep_leads {lb : LoadBalanceInfo} (h : Represents L c s)
    (hvalid : ∀ d, lb.powersave = some d → s.topo.Valid d)
    (hrun : s.powersaveStep cfg lb = some s') : Leads s (powersaveStep cfg alloc lb) c () s' := by
  unfold State.powersaveStep at hrun
  refine .readRest h (v := s.cycleCount) rfl ?_
  split at hrun
  · rw [if_pos ‹_›]
    generalize (lb.numOver = 0 && lb.numUnder ≥ cfg.powerThresh.toNat : Bool) = idle at hrun ⊢
    cases hd : lb.powersave with
    | none =>
        rw [hd] at hrun
        cases idle <;> exact wake_leads h hrun
    | some d =>
        rw [hd] at hrun
        cases idle with
        | false => exact wake_leads h hrun
        | true => exact enterPowersave_leads alloc h (hvalid d hd) hrun
  · rw [if_neg ‹_›]
    cases hrun
    exact .pure h trivial ()

theorem updateMigrationStatus_leads (h : Represents L c s)
    (hrun : s.updateMigrationStatus cfg addr = some s') :
    Leads s (updateMigrationStatus cfg alloc addr) c () s' := by
  simp only [State.updateMigrationStatus, Option.bind_eq_bind, Option.bind_eq_some_iff,
    Option.pure_def, Option.some.injEq] at hrun
  obtain ⟨⟨s₁, lb⟩, hcpu, s₂, hpowersave, ⟨s₃, _⟩, hcache, ⟨s₄, _⟩, hpackage, ⟨s₅, _⟩, hnode, rfl⟩ :=
    hrun
  refine .bind (findOverloadedObjs_leads cfg alloc addr .cpu h hcpu) fun L₁ c₁ h₁ htree _ => ?_
  refine .bind (powersaveStep_leads cfg alloc h₁ (fun d hd => (htree d).mpr ?_) hpowersave) ?_
  · exact (Topology.mem_refs.mp (State.findOverloadedObjs_powersave hcpu hd)).2
  · intro L₂ c₂ h₂ _ _
    refine .bind (.discard (findOverloadedObjs_leads cfg alloc addr .cache h₂ hcache)) ?_
    intro L₃ c₃ h₃ _ _
    refine .bind (.discard (findOverloadedObjs_leads cfg alloc addr .package h₃ hpackage)) ?_
    intro L₄ c₄ h₄ _ _
    exact .discard (findOverloadedObjs_leads cfg alloc addr .node h₄ hnode)

/-! ## `calculate_placement` -/

/-- The objects a scan has named exist. -/
def Exist (s : State) (place : ObjPlacement) : Prop :=
  ∀ x, place.best = some x ∨ place.leastIrqs = some x → s.topo.Valid x

theorem findBestObject_ends {info : IrqInfo} {place place' : ObjPlacement}
    (h : Represents L c s) (hd : s.topo.Valid d) (hplace : Exist s place)
    (hrun : s.findBestObject cfg info place d = some place') :
    Ends s (findBestObject cfg info place d) c place' s (fun L' => L' = L) ∧ Exist s place' := by
  refine ⟨?_, fun x hx => ?_⟩
  · unfold State.findBestObject at hrun
    refine .readRest h (s.skipsObject_withoutLists cfg info d) ?_
    refine .readRest h (v := (s.obj d).load) (by rw [State.obj_withoutLists]; rfl) ?_
    split at hrun
    · rw [if_pos ‹_›]
      cases hrun
      exact .same h _
    · rw [if_neg ‹_›]
      dsimp only at hrun ⊢
      -- the candidate has taken the place of `best`, or not
      generalize hbetter : (if (s.obj d).load < place.bestCost then
        ({ best := some d, bestCost := (s.obj d).load, leastIrqs := none } : ObjPlacement)
        else place) = better at hrun ⊢
      have hbest : ∀ x, better.best = some x → s.topo.Valid x := by
        intro x hx
        rw [← hbetter] at hx
        split at hx
        · cases hx
          exact hd
        · exact hplace x (.inl hx)
      split at hrun
      · rw [if_pos ‹_›]
        split at hrun
        · cases hrun
        · rename_i best hbest'
          rw [hbest']
          refine .listLength h hd (.listLength h (hbest best hbest') ?_)
          split at hrun
          · rename_i hfewer
            rw [if_pos (by exact hfewer), ← hbest']
            cases hrun
            exact .same h _
          · rename_i hfewer
            rw [if_neg (by exact hfewer)]
            cases hrun
            exact .same h _
      · rw [if_neg ‹_›]
        cases hrun
        exact .same h _
  · rcases State.findBestObject_names hrun hx with hnamed | ⟨rfl, -⟩
    · exact hplace x hnamed
    · exact hd

theorem foldlM_findBestObject_ends {info : IrqInfo} {candidates : List ObjRef}
    {place place' : ObjPlacement} (hvalid : ∀ d ∈ candidates, s.topo.Valid d)
    (h : Represents L c s) (hplace : Exist s place)
    (hrun : candidates.foldlM (s.findBestObject cfg info) place = some place') :
    Ends s (candidates.foldlM (findBestObject cfg info) place) c place' s fun L' => L' = L := by
  induction candidates generalizing L c place with
  | nil =>
      cases hrun
      exact .same h _
  | cons d candidates ih =>
      rw [List.foldlM_cons] at hrun ⊢
      obtain ⟨mid, hmid, hrest⟩ := Option.bind_eq_some_iff.mp hrun
      obtain ⟨hstep, hplace₁⟩ :=
        findBestObject_ends cfg h (hvalid d List.mem_cons_self) hplace hmid
      refine .bind hstep ?_
      rintro L₁ c₁ h₁ - rfl
      exact ih (fun x hx => hvalid x (List.mem_cons_of_mem d hx)) h₁ hplace₁ hrest

theorem selectObject_ends {info : IrqInfo} {candidates : List ObjRef} {best : Option ObjRef}
    (hvalid : ∀ d ∈ candidates, s.topo.Valid d) (h : Represents L c s)
    (hrun : s.selectObject cfg info candidates = some best) :
    Ends s (selectObject cfg info candidates) c best s fun L' => L' = L := by
  simp only [State.selectObject, Option.bind_eq_bind, Option.bind_eq_some_iff,
    Option.pure_def, Option.some.injEq] at hrun
  obtain ⟨place, hplace, rfl⟩ := hrun
  refine .bind (foldlM_findBestObject_ends cfg hvalid h (by simp [Exist]) hplace) ?_
  exact fun L₁ c₁ h₁ _ hL => .pure h₁ hL _

theorem assignIrq_ends {load : UInt64} (h : Represents L c s) (hsrc : s.ListValid src)
    (hd : s.topo.Valid d) :
    Ends s (assignIrq alloc src d i load) c () (s.assignIrq src d i load)
      fun L' => ∀ l, l ≠ .ofObj d → Passes i l L L' := by
  refine .reassign alloc (a := some d) h hsrc (fun d' hd' => by cases hd'; exact hd) ?_
  intro L₁ c₁ h₁ _ hpass
  refine (ends_modifyObj h₁ (by intro o; rfl) (by intro o; rfl) (by intro o; rfl)).mono ?_
  rintro _ rfl
  exact hpass

theorem findBestObjectForIrq_ends (h : Represents L c s) (hd : s.topo.Valid d)
    (hrun : s.findBestObjectForIrq cfg d i = some s') :
    Ends s (findBestObjectForIrq cfg alloc d () i) c () s' (Passes i (.ofObj d) L) := by
  unfold State.findBestObjectForIrq at hrun
  unfold findBestObjectForIrq
  refine .readRest h (v := s.info i) rfl ?_
  split at hrun
  · rw [if_pos ‹_›]
    cases hrun
    exact .pure h (.of_eq rfl) ()
  · rw [if_neg ‹_›]
    split at hrun
    · rw [if_pos ‹_›]
      cases hrun
      exact .pure h (.of_eq rfl) ()
    · rw [if_neg ‹_›]
      simp only [Option.bind_eq_bind, Option.bind_eq_some_iff] at hrun
      obtain ⟨asign, hasign, hrun⟩ := hrun
      refine .readRest h (v := s.topo.childRefs d) (s.childRefs_withoutLists d) ?_
      refine .bind (selectObject_ends cfg (h.pointing.children d) h hasign) ?_
      rintro L₁ c₁ h₁ - rfl
      cases asign with
      | none =>
          cases hrun
          exact .pure h₁ (.of_eq rfl) ()
      | some x =>
          cases hrun
          -- a child is another object
          obtain ⟨hx, -⟩ := State.selectObject_spec hasign
          have hsrc : s.ListValid (.ofObj d) := hd
          refine (assignIrq_ends alloc h₁ hsrc (h.pointing.children d x hx)).mono fun _ hpass => ?_
          exact hpass _ fun heq => Topology.ne_of_mem_childRefs hx (IrqList.ofObj.inj heq).symm

theorem placeIrqInObject_leads (h : Represents L c s) (hd : s.topo.Valid d)
    (hrun : s.placeIrqInObject cfg d = some s') :
    Leads s (placeIrqInObject cfg alloc () d) c () s' := by
  refine .listLength h hd ?_
  unfold State.placeIrqInObject at hrun
  split
  · rename_i hlength
    refine forEachIrq_leads id (fun _ => ()) (x := s) ?_ h (.refl s)
      (show s.ListValid (.ofObj d) from hd)
      (show _ = some s' by rwa [id, forEachIrq_of_length hlength])
    exact fun i L c t t' ht htree hstep =>
      findBestObjectForIrq_ends cfg alloc ht ((htree d).mpr hd) hstep
  · rename_i hlength
    rw [show (s.obj d).interrupts = [] by simpa [State.irqList] using hlength] at hrun
    cases hrun
    exact .pure h trivial ()

theorem findPlacement_ends (h : Represents L c s) (hrun : s.findPlacement cfg i = some s') :
    Ends s (findPlacement cfg alloc i) c () s' (Passes i .rebalance L) := by
  simp only [State.findPlacement, Option.bind_eq_bind, Option.bind_eq_some_iff] at hrun
  obtain ⟨asign, hasign, hrun⟩ := hrun
  refine .readRest h (v := s.info i) rfl ?_
  refine .readRest h (v := s.topo.refs .node) (s.refs_withoutLists .node) ?_
  have hnodes : ∀ d ∈ s.topo.refs .node, s.topo.Valid d := fun d hd =>
    (Topology.mem_refs.mp hd).2
  refine .bind (selectObject_ends cfg hnodes h hasign) ?_
  rintro L₁ c₁ h₁ - rfl
  cases asign with
  | none =>
      cases hrun
      exact .pure h₁ (.of_eq rfl) ()
  | some x =>
      cases hrun
      obtain ⟨hx, -⟩ := State.selectObject_spec hasign
      have hsrc : s.ListValid .rebalance := trivial
      exact (assignIrq_ends alloc h₁ hsrc (hnodes x hx)).mono fun _ hpass =>
        hpass _ (by simp)

theorem placeIrqInNode_ends (h : Represents L c s) (hrun : s.placeIrqInNode cfg i = some s') :
    Ends s (placeIrqInNode cfg alloc () i) c () s' (Passes i .rebalance L) := by
  unfold State.placeIrqInNode at hrun
  unfold placeIrqInNode
  refine .readRest h (v := s.info i) rfl ?_
  split at hrun
  · rw [if_pos ‹_›]
    cases hrun
    exact .pure h (.of_eq rfl) ()
  · rw [if_neg ‹_›]
    cases hnode : (s.info i).numaNode with
    | none =>
        rw [hnode] at hrun
        cases hrun
    | some node =>
        rw [hnode] at hrun
        dsimp only at hrun ⊢
        have hread : s.withoutLists.obj ⟨.node, node⟩ = (s.obj ⟨.node, node⟩).withoutList :=
          s.obj_withoutLists _
        refine .readRest h (v := (s.obj ⟨.node, node⟩).number) (by rw [hread]; rfl) ?_
        refine .readRest h (by rw [hread]; rfl : _ =
          cpusIntersects (s.obj ⟨.node, node⟩).mask s.topo.unbannedCpus) ?_
        split at hrun
        · rw [if_pos ‹_›]
          split at hrun
          · rw [if_pos ‹_›]
            exact findPlacement_ends cfg alloc h hrun
          · rw [if_neg ‹_›]
            cases hrun
            have hsrc : s.ListValid .rebalance := trivial
            exact (assignIrq_ends alloc h hsrc (h.pointing.nodes i node hnode)).mono
              fun _ hpass => hpass _ (by simp)
        · rw [if_neg ‹_›]
          exact findPlacement_ends cfg alloc h hrun

theorem placeLevel_leads (ty : ObjType) (h : Represents L c s)
    (hrun : (s.topo.refs ty).foldlM (State.placeIrqInObject cfg) s = some s') :
    Leads s (placeLevel cfg alloc ty) c () s' := by
  refine .readRest h (v := s.topo.refs ty) (s.refs_withoutLists ty) ?_
  refine foldlM_leads id (fun _ => ()) ?_ h (.refl s) hrun
  exact fun d hd L c t t' ht htree hstep =>
    placeIrqInObject_leads cfg alloc ht ((htree d).mpr (Topology.mem_refs.mp hd).2) hstep

theorem calculatePlacement_leads (h : Represents L c s)
    (hrun : s.calculatePlacement cfg addr = some s') :
    Leads s (calculatePlacement cfg alloc addr) c () s' := by
  unfold State.calculatePlacement at hrun
  dsimp only at hrun
  refine .bind (sortIrqList_ends (l := .rebalance) addr h trivial) fun L₁ c₁ h₁ _ _ => ?_
  generalize s.sortIrqList addr .rebalance = sorted at *
  refine .listLength h₁ trivial ?_
  split at hrun
  · rename_i hlength
    rw [if_pos (by exact hlength)]
    simp only [Option.bind_eq_bind, Option.bind_eq_some_iff] at hrun
    obtain ⟨s₁, hrebalance, s₂, hnode, s₃, hpackage, hcache⟩ := hrun
    refine .bind (forEachIrq_leads id (fun _ => ()) (x := sorted) ?_ h₁ (.refl _)
      (show sorted.ListValid .rebalance from trivial)
      (show _ = some s₁ by rwa [id, forEachIrq_of_length (by exact hlength)])) ?_
    · exact fun i L c t t' ht _ hstep => placeIrqInNode_ends cfg alloc ht hstep
    · intro L₂ c₂ h₂ _ _
      refine .bind (placeLevel_leads cfg alloc .node h₂ hnode) fun L₃ c₃ h₃ _ _ => ?_
      refine .bind (placeLevel_leads cfg alloc .package h₃ hpackage) fun L₄ c₄ h₄ _ _ => ?_
      exact placeLevel_leads cfg alloc .cache h₄ hcache
  · rename_i hlength
    rw [if_neg (by exact hlength)]
    cases hrun
    exact .pure h₁ trivial ()

/-! ## `activate_mappings` -/

theorem activateMappings_leads (smpAffinity : ℤ → SmpAffinity) (h : Represents L c s) :
    Leads s (modifyRest fun s => s.activateMappings cfg smpAffinity) c ()
      (s.activateMappings cfg smpAffinity) := by
  have hone (t : State) (j : ℕ) : (∀ l, (t.activateMapping cfg smpAffinity j).irqList l =
      t.irqList l) ∧ ∀ i, ((t.activateMapping cfg smpAffinity j).info i).assignedObj =
      (t.info i).assignedObj := by
    rcases State.activateMapping_cases cfg smpAffinity t j with heq | ⟨mask, -, -, -, -, -, heq⟩
    · rw [heq]
      exact ⟨fun _ => rfl, fun _ => rfl⟩
    · rw [heq]
      exact ⟨fun l => t.irqList_modifyInfo j _ l, fun i =>
        t.field_modifyInfo j i IrqInfo.assignedObj fun _ => rfl⟩
  refine (ends_modifyRest h (s.activateMappings_withoutLists cfg smpAffinity) ?_ ?_ ?_).mono
    fun _ _ => trivial
  · exact foldl_keeps State.fixed (fun i t => t.activateMapping_fixed smpAffinity i) _ s
  · exact fun l => foldl_keeps (fun t => State.irqList t l) (fun j t => (hone t j).1 l) _ s
  · intro i d hd
    have hassigned := foldl_keeps (f := State.activateMapping cfg smpAffinity)
      (fun t => (State.info t i).assignedObj) (fun j t => (hone t j).2 i) (List.range s.dbSize) s
    exact h.pointing.assigned i d (hassigned ▸ hd)

end LinkedState

end CodeAnalyze.Irqbalance
