import CodeAnalyze.Irqbalance.Steps

/-!
# The calls of `main` as turns

`exec_turns` says that a call other than a rescan is made of turns.  Ownership is
what the proof goes by: it is the reason why every IRQ a loop comes to is still
on the list the loop walks.
-/

namespace CodeAnalyze.Irqbalance

open Lib Relation

variable {cfg : Config} {s s' : State}

namespace State

/-! ## `update_migration_status` -/

theorem powersaveStep_turns {lb : LoadBalanceInfo} (h : s.Owned)
    (hcpus : ∀ d, lb.powersave = some d → d.objType = .cpu)
    (hrun : s.powersaveStep cfg lb = some s') : Turns cfg s s' := by
  unfold powersaveStep at hrun
  split at hrun
  · split at hrun
    · rename_i d _ hd
      obtain ⟨hmoves, hhome⟩ := enterPowersave_spec cfg h hrun
      refine .single (.nap (hcpus d hd) hmoves ?_)
      refine List.eq_nil_iff_forall_not_mem.mpr fun i hi => ?_
      have hat : s'.home i = some (.ofObj d) := ((h.sleep d).moves hmoves).mem_iff.mp hi
      rw [hhome] at hat
      split at hat
      · cases hat
      · rename_i hnot
        exact hnot (h.mem_iff (l := .ofObj d).mpr hat)
    · split at hrun
      · cases hrun
        refine foldl_invariant (fun t => Turns cfg s t) (fun d _ t ht => ?_) .refl
        exact ht.tail (.wake d)
      · cases hrun
        exact .refl
  · cases hrun
    exact .refl

/-- What `update_migration_status` does before, in and after its powersave part. -/
theorem updateMigrationStatus_spec {addr : ℕ → ℕ} (h : s.Owned)
    (hrun : s.updateMigrationStatus cfg addr = some s') :
    ∃ s₁ lb s₂, s.findOverloadedObjs cfg addr .cpu = some (s₁, lb) ∧ Moves cfg s s₁ ∧
      s₁.powersaveStep cfg lb = some s₂ ∧ Turns cfg s₁ s₂ ∧ Moves cfg s₂ s' := by
  simp only [updateMigrationStatus, Option.bind_eq_bind, Option.bind_eq_some_iff,
    Option.pure_def, Option.some.injEq] at hrun
  obtain ⟨⟨s₁, lb⟩, h₁, s₂, h₂, ⟨s₃, _⟩, h₃, ⟨s₄, _⟩, h₄, ⟨s₅, _⟩, h₅, rfl⟩ := hrun
  have moves₁ : Moves cfg s s₁ := findOverloadedObjs_moves h h₁
  have owned₁ := h.moves moves₁
  have turns₂ := powersaveStep_turns owned₁
    (fun d hd => (Topology.mem_refs.mp (findOverloadedObjs_powersave h₁ hd)).1) h₂
  have owned₂ := owned₁.turns turns₂
  have moves₃ : Moves cfg s₂ s₃ := findOverloadedObjs_moves owned₂ h₃
  have owned₃ := owned₂.moves moves₃
  have moves₄ : Moves cfg s₃ s₄ := findOverloadedObjs_moves owned₃ h₄
  have moves₅ : Moves cfg s₄ s₅ := findOverloadedObjs_moves (owned₃.moves moves₄) h₅
  exact ⟨s₁, lb, s₂, h₁, moves₁, h₂, turns₂, moves₃.trans (moves₄.trans moves₅)⟩

theorem updateMigrationStatus_turns {addr : ℕ → ℕ} (h : s.Owned)
    (hrun : s.updateMigrationStatus cfg addr = some s') : Turns cfg s s' := by
  obtain ⟨s₁, lb, s₂, -, hbefore, -, hpowersave, hafter⟩ := updateMigrationStatus_spec h hrun
  exact hbefore.turns.trans (hpowersave.trans hafter.turns)

/-! ## `calculate_placement` -/

/-- The scan names an object it has named before, or the candidate if that is not passed
over. -/
theorem findBestObject_names {info : IrqInfo} {place place' : ObjPlacement} {y x : ObjRef}
    (hstep : s.findBestObject cfg info place y = some place')
    (hx : place'.best = some x ∨ place'.leastIrqs = some x) :
    (place.best = some x ∨ place.leastIrqs = some x) ∨
      x = y ∧ s.skipsObject cfg info y = false := by
  unfold findBestObject at hstep
  split at hstep
  · cases hstep
    exact .inl hx
  · rename_i hskips
    have hskips' : s.skipsObject cfg info y = false := by simpa using hskips
    dsimp only at hstep
    -- the candidate has taken the place of `best`, or not
    generalize hbetter : (if (s.obj y).load < place.bestCost then
      ({ best := some y, bestCost := (s.obj y).load, leastIrqs := none } : ObjPlacement)
      else place) = better at hstep
    have hnamed : better.best = some x ∨ better.leastIrqs = some x →
        (place.best = some x ∨ place.leastIrqs = some x) ∨
          x = y ∧ s.skipsObject cfg info y = false := by
      intro hx
      rw [← hbetter] at hx
      split at hx
      · simp only [Option.some.injEq, reduceCtorEq, or_false] at hx
        exact .inr ⟨hx.symm, hskips'⟩
      · exact .inl hx
    split at hstep
    · split at hstep
      · cases hstep
      · split at hstep
        · cases hstep
          rcases hx with hbest | hleast
          · exact hnamed (.inl hbest)
          · exact .inr ⟨(Option.some.inj hleast).symm, hskips'⟩
        · cases hstep
          exact hnamed hx
    · cases hstep
      exact hnamed hx

/-- The object chosen is a candidate that is not passed over. -/
theorem selectObject_spec {info : IrqInfo} {candidates : List ObjRef} {d : ObjRef}
    (hrun : s.selectObject cfg info candidates = some (some d)) :
    d ∈ candidates ∧ s.skipsObject cfg info d = false := by
  simp only [selectObject, Option.bind_eq_bind, Option.bind_eq_some_iff, Option.pure_def,
    Option.some.injEq] at hrun
  obtain ⟨place, hplace, hd⟩ := hrun
  have hnamed := foldlM_invariant (fun p : ObjPlacement => ∀ x,
    p.best = some x ∨ p.leastIrqs = some x → x ∈ candidates ∧ s.skipsObject cfg info x = false)
    ?_ (by simp) hplace
  · apply hnamed
    cases hleast : place.leastIrqs with
    | none =>
        rw [hleast] at hd
        exact .inl hd
    | some x =>
        rw [hleast] at hd
        exact .inr hd
  · intro y hy p p' hp hstep x hx
    rcases findBestObject_names hstep hx with hbefore | ⟨rfl, hskips⟩
    · exact hp x hbefore
    · exact ⟨hy, hskips⟩

/-- An IRQ is put on an object, and nothing else changes its home. -/
theorem assignIrq_moves (h : s.Owned) {i : ℕ} {src : IrqList} {d : ObjRef}
    (hi : s.home i = some src) (hd : s.topo.Valid d) (hbelow : s.Below src d)
    (hchosen : s.Chosen cfg i d) (load : UInt64) :
    Moves cfg s (s.assignIrq src d i load) ∧
      ∀ j, j ≠ i → (s.assignIrq src d i load).home j = s.home j := by
  have hload : (s.assignIrq src d i load).still = (s.reassign src (some d) i).still :=
    still_modifyObj _ d (by intro o; rfl)
  refine ⟨(ReflTransGen.single (.put hi hd hbelow hchosen)).tail (.count hload), fun j hj => ?_⟩
  exact (h.home_reassign hi j).trans (if_neg hj)

theorem findBestObjectForIrq_moves {d : ObjRef} {i : ℕ} (h : s.Owned)
    (hi : s.home i = some (.ofObj d)) (hrun : findBestObjectForIrq cfg d s i = some s') :
    Moves cfg s s' ∧ ∀ j, j ≠ i → s'.home j = s.home j := by
  unfold findBestObjectForIrq at hrun
  split at hrun
  · cases hrun
    exact ⟨.refl, fun _ _ => rfl⟩
  · split at hrun
    · cases hrun
      exact ⟨.refl, fun _ _ => rfl⟩
    · simp only [Option.bind_eq_bind, Option.bind_eq_some_iff] at hrun
      obtain ⟨asign, hasign, hrun⟩ := hrun
      cases asign with
      | none =>
          cases hrun
          exact ⟨.refl, fun _ _ => rfl⟩
      | some c =>
          cases hrun
          obtain ⟨hc, hskips⟩ := selectObject_spec hasign
          exact assignIrq_moves h hi (h.children_valid d c hc) hc (.inl hskips) _

theorem placeIrqInObject_moves {d : ObjRef} (h : s.Owned)
    (hrun : s.placeIrqInObject cfg d = some s') : Moves cfg s s' :=
  foldlM_irqList_moves id (l := .ofObj d) (fun _ _ _ => findBestObjectForIrq_moves) h hrun

theorem findPlacement_moves {i : ℕ} (h : s.Owned) (hi : s.home i = some .rebalance)
    (hrun : s.findPlacement cfg i = some s') :
    Moves cfg s s' ∧ ∀ j, j ≠ i → s'.home j = s.home j := by
  simp only [findPlacement, Option.bind_eq_bind, Option.bind_eq_some_iff] at hrun
  obtain ⟨asign, hasign, hrun⟩ := hrun
  cases asign with
  | none =>
      cases hrun
      exact ⟨.refl, fun _ _ => rfl⟩
  | some d =>
      cases hrun
      obtain ⟨hd, hskips⟩ := selectObject_spec hasign
      have hnode := Topology.mem_refs.mp hd
      exact assignIrq_moves h hi hnode.2 hnode.1 (.inl hskips) _

theorem placeIrqInNode_moves {i : ℕ} (h : s.Owned) (hi : s.home i = some .rebalance)
    (hrun : s.placeIrqInNode cfg i = some s') :
    Moves cfg s s' ∧ ∀ j, j ≠ i → s'.home j = s.home j := by
  unfold placeIrqInNode at hrun
  split at hrun
  · cases hrun
    exact ⟨.refl, fun _ _ => rfl⟩
  · split at hrun
    · cases hrun
    · rename_i node hnode
      split at hrun
      · split at hrun
        · exact findPlacement_moves h hi hrun
        · rename_i hunbanned
          cases hrun
          exact assignIrq_moves h hi (h.numaNode_valid i node hnode) rfl
            (.inr ⟨rfl, hnode, by simpa using hunbanned⟩) _
      · exact findPlacement_moves h hi hrun

theorem calculatePlacement_moves {addr : ℕ → ℕ} (h : s.Owned)
    (hrun : s.calculatePlacement cfg addr = some s') : Moves cfg s s' := by
  have hsort : Move cfg s (s.sortIrqList addr .rebalance) := .sort addr _
  have hsorted := h.move hsort
  unfold calculatePlacement at hrun
  dsimp only at hrun
  refine ReflTransGen.head hsort ?_
  split at hrun
  · simp only [Option.bind_eq_bind, Option.bind_eq_some_iff] at hrun
    obtain ⟨s₁, h₁, s₂, h₂, s₃, h₃, h₄⟩ := hrun
    have moves₁ : Moves cfg _ s₁ := foldlM_irqList_moves id (l := .rebalance)
      (fun _ _ _ => placeIrqInNode_moves) hsorted h₁
    have owned₁ := hsorted.moves moves₁
    have moves₂ : Moves cfg s₁ s₂ :=
      foldlM_objs_moves id (fun _ _ _ _ => placeIrqInObject_moves) owned₁ h₂
    have owned₂ := owned₁.moves moves₂
    have moves₃ : Moves cfg s₂ s₃ :=
      foldlM_objs_moves id (fun _ _ _ _ => placeIrqInObject_moves) owned₂ h₃
    have moves₄ : Moves cfg s₃ s' :=
      foldlM_objs_moves id (fun _ _ _ _ => placeIrqInObject_moves) (owned₂.moves moves₃) h₄
    exact moves₁.trans (moves₂.trans (moves₃.trans moves₄))
  · cases hrun
    exact .refl

/-! ## `activate_mappings` -/

/-- What `activate_mapping` does: nothing, or it writes the mask that is called for. -/
theorem activateMapping_cases (cfg : Config) (smpAffinity : ℤ → SmpAffinity) (s : State)
    (i : ℕ) :
    s.activateMapping cfg smpAffinity i = s ∨
      ∃ mask, (s.info i).moved = true ∧ s.appliedMask cfg (s.info i) = some mask ∧
        (s.info i).assignedObj ≠ none ∧
        checkAffinity (smpAffinity (s.info i).irq) mask = false ∧
        (smpAffinity (s.info i).irq).writable = true ∧
        s.activateMapping cfg smpAffinity i = s.writeAffinity i mask := by
  unfold activateMapping
  dsimp only
  split
  · exact .inl rfl
  · rename_i hmoved
    split
    · exact .inl rfl
    · rename_i mask hmask
      split
      · exact .inl rfl
      · rename_i hcheck
        split
        · exact .inl rfl
        · rename_i hassigned
          split
          · exact .inl rfl
          · rename_i hwritable
            exact .inr ⟨mask, by simpa using hmoved, hmask, by simpa using hassigned,
              by simpa using hcheck, by simpa using hwritable, rfl⟩

/-- `activate_mapping` looks at an entry, and at nothing else that it changes. -/
theorem activateMapping_info_of_ne (smpAffinity : ℤ → SmpAffinity) {i j : ℕ} (hij : j ≠ i) :
    (s.activateMapping cfg smpAffinity i).info j = s.info j := by
  rcases activateMapping_cases cfg smpAffinity s i with heq | ⟨mask, -, -, -, -, -, heq⟩
  · rw [heq]
  · rw [heq]
    exact s.info_modifyInfo_of_ne _ hij

theorem activateMapping_fixed (smpAffinity : ℤ → SmpAffinity) (i : ℕ) :
    (s.activateMapping cfg smpAffinity i).fixed = s.fixed := by
  rcases activateMapping_cases cfg smpAffinity s i with heq | ⟨mask, -, -, -, -, -, heq⟩
  · rw [heq]
  · rw [heq]
    exact s.writeAffinity_fixed i mask

theorem appliedMask_congr {info : IrqInfo} (hfixed : s'.fixed = s.fixed) :
    s'.appliedMask cfg info = s.appliedMask cfg info := by
  unfold appliedMask
  rw [fixed_unbannedCpus hfixed]
  cases info.assignedObj with
  | none => rfl
  | some d => simp only [fixed_mask hfixed]

theorem activateMappings_turns (cfg : Config) (smpAffinity : ℤ → SmpAffinity) (s : State) :
    Turns cfg s (s.activateMappings cfg smpAffinity) := by
  refine (foldl_invariant (fun t => Turns cfg s t ∧ t.dbSize = s.dbSize) (fun i hi t ht => ?_)
    ⟨.refl, rfl⟩).1
  obtain ⟨hturns, hsize⟩ := ht
  rcases activateMapping_cases cfg smpAffinity t i with heq | ⟨mask, -, hmask, -, -, -, heq⟩
  · rw [heq]
    exact ⟨hturns, hsize⟩
  · rw [heq]
    have hlt : i < t.dbSize := hsize ▸ List.mem_range.mp hi
    refine ⟨hturns.tail (.write hlt hmask), ?_⟩
    exact (fixed_dbSize (t.writeAffinity_fixed i mask)).trans hsize

end State

/-! ## All calls -/

/-- A call other than a rescan is made of turns. -/
theorem exec_turns {op : Op} (h : s.Owned) (hop : ∀ sysfs stack, op ≠ .rescan sysfs stack)
    (hrun : exec cfg s op = some s') : State.Turns cfg s s' := by
  have count : ∀ {t : State}, t.still = s.still → State.Turns cfg s t :=
    fun hstill => .single (.move (.count hstill))
  cases op with
  | clearWorkStats =>
      cases hrun
      exact count s.clearWorkStats_still
  | parseProcInterrupts file =>
      cases hrun
      exact count (s.parseProcInterrupts_still file)
  | parseProcStat file =>
      cases hrun
      exact count (State.parseProcStat_still cfg s file)
  | rescan sysfs stack => exact absurd rfl (hop sysfs stack)
  | updateMigrationStatus addr => exact State.updateMigrationStatus_turns h hrun
  | calculatePlacement addr => exact (State.calculatePlacement_moves h hrun).turns
  | activateMappings smpAffinity =>
      cases hrun
      exact State.activateMappings_turns cfg smpAffinity s
  | nextCycle =>
      cases hrun
      exact count rfl
  | forceRescan =>
      cases hrun
      refine count ?_
      split <;> rfl

end CodeAnalyze.Irqbalance
