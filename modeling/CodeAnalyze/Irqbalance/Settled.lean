import CodeAnalyze.Irqbalance.Reach
import CodeAnalyze.Irqbalance.Sample

/-!
# No placement decision is lost

An IRQ is settled when its `smp_affinity` was last written what its state calls
for.  An IRQ that is placed and does not carry `moved` is settled: `migrate_irq`
sets `moved` whenever it changes what is called for, and only the write clears it.
For the same reason it is where it was when it was last written.
-/

namespace CodeAnalyze.Irqbalance

open Lib

variable {cfg : Config} {s s' : State}

/-- The mask last written to the `smp_affinity` of an IRQ. -/
def lastWrite (writes : List (ℤ × Cpumask)) (irq : ℤ) : Option Cpumask :=
  (writes.reverse.find? fun write => write.1 == irq).map (·.2)

theorem lastWrite_append_self (writes : List (ℤ × Cpumask)) (irq : ℤ) (mask : Cpumask) :
    lastWrite (writes ++ [(irq, mask)]) irq = some mask := by
  simp [lastWrite]

theorem lastWrite_append_of_ne {irq irq' : ℤ} (h : irq' ≠ irq) (writes : List (ℤ × Cpumask))
    (mask : Cpumask) : lastWrite (writes ++ [(irq', mask)]) irq = lastWrite writes irq := by
  simp [lastWrite, h]

namespace State

/-- The mask the state of an IRQ on object `d` calls for. -/
def calledFor (s : State) (info : IrqInfo) (d : ObjRef) : Cpumask :=
  if info.hintPolicy = .exact ∧ cpusEmpty info.affinityHint = false then info.affinityHint
  else if info.hintPolicy = .subset ∧ cpusEmpty info.affinityHint = false then
    (s.obj d).mask &&& info.affinityHint
  else (s.obj d).mask

/-- Where `activate_mapping` has a mask to write, it is the one called for. -/
theorem appliedMask_eq {info : IrqInfo} {mask : Cpumask} {d : ObjRef}
    (h : s.appliedMask cfg info = some mask) (hd : info.assignedObj = some d) :
    mask = s.calledFor info d := by
  unfold appliedMask at h
  unfold calledFor
  by_cases hexact : info.hintPolicy = .exact ∧ cpusEmpty info.affinityHint = false
  · simp only [hexact.1, hexact.2, decide_true, Bool.not_false, Bool.and_self, if_true] at h
    rw [if_pos hexact]
    split at h
    · cases h
    · exact (Option.some.inj h).symm
  · have hnot : (decide (info.hintPolicy = .exact) && !cpusEmpty info.affinityHint) = false := by
      simpa using hexact
    rw [hnot, hd] at h
    rw [if_neg hexact]
    simp only [Bool.false_eq_true, if_false] at h
    by_cases hsubset : info.hintPolicy = .subset ∧ cpusEmpty info.affinityHint = false
    · simp only [hsubset.1, hsubset.2, decide_true, Bool.not_false, Bool.and_self, if_true] at h
      rw [if_pos hsubset]
      split at h
      · exact (Option.some.inj h).symm
      · cases h
    · have hnot : (decide (info.hintPolicy = .subset) && !cpusEmpty info.affinityHint) = false := by
        simpa using hsubset
      rw [hnot] at h
      rw [if_neg hsubset]
      exact (Option.some.inj h).symm

/-- What `calledFor` reads does not change. -/
theorem calledFor_congr {info info' : IrqInfo} {d : ObjRef}
    (hpolicy : info'.hintPolicy = info.hintPolicy) (hhint : info'.affinityHint = info.affinityHint)
    (hmask : (s'.obj d).mask = (s.obj d).mask) : s'.calledFor info' d = s.calledFor info d := by
  unfold calledFor
  rw [hpolicy, hhint, hmask]

/-- Every placed IRQ without `moved` was last written what its state calls for. -/
def Settled (s : State) : Prop :=
  ∀ i < s.dbSize, (s.info i).moved = false → ∀ d, (s.info i).assignedObj = some d →
    lastWrite s.writes (s.info i).irq = some (s.calledFor (s.info i) d)

/-- A change that keeps `moved`, `assigned_obj` and the writes. -/
theorem Settled.of_same (h : s.Settled) (hfixed : s'.fixed = s.fixed)
    (hwrites : s'.writes = s.writes)
    (hinfo : ∀ i, (s'.info i).moved = false → ∀ d, (s'.info i).assignedObj = some d →
      (s.info i).moved = false ∧ (s.info i).assignedObj = some d) : s'.Settled := by
  intro i hi hmoved d hd
  obtain ⟨hmoved, hd⟩ := hinfo i hmoved d hd
  rw [hwrites, fixed_irq hfixed, calledFor_congr (s := s) (fixed_hintPolicy hfixed i)
    (fixed_affinityHint hfixed i) (fixed_mask hfixed d)]
  exact h i (fixed_dbSize hfixed ▸ hi) hmoved d hd

/-- An IRQ that has no `moved` after a move has had none before, and is where it was. -/
theorem Move.unmoved (howned : s.Owned) (hmv : Move cfg s s') {i : ℕ} {d : ObjRef}
    (hmoved : (s'.info i).moved = false) (hd : (s'.info i).assignedObj = some d) :
    (s.info i).moved = false ∧ (s.info i).assignedObj = some d := by
  have hreassign {src : IrqList} {j : ℕ} {a : Option ObjRef} (hj : s.home j = some src)
      (hmoved : ((s.reassign src a j).info i).moved = false)
      (hd : ((s.reassign src a j).info i).assignedObj = some d) :
      (s.info i).moved = false ∧ (s.info i).assignedObj = some d := by
    rw [howned.info_reassign hj] at hmoved hd
    by_cases hij : i = j
    · simp [hij] at hmoved
    · rw [if_neg hij] at hmoved hd
      exact ⟨hmoved, hd⟩
  cases hmv with
  | count hstill =>
      rw [still_moved hstill] at hmoved
      rw [still_assignedObj hstill] at hd
      exact ⟨hmoved, hd⟩
  | sort addr l =>
      rw [sortIrqList, info_modifyIrqList] at hmoved hd
      exact ⟨hmoved, hd⟩
  | take hj => exact hreassign hj hmoved hd
  | put hj _ _ _ => exact hreassign hj hmoved hd

theorem Settled.write (h : s.Settled) (howned : s.Owned) {i : ℕ} {mask : Cpumask}
    (hi : i < s.dbSize) (hmask : s.appliedMask cfg (s.info i) = some mask) :
    (s.writeAffinity i mask).Settled := by
  have hfixed := s.writeAffinity_fixed i mask
  intro j hj hmoved d hd
  have hj' : j < s.dbSize := fixed_dbSize hfixed ▸ hj
  have hassigned : (s.info j).assignedObj = some d := by
    rw [← hd]
    exact (s.field_modifyInfo i j IrqInfo.assignedObj (by intro o; rfl)).symm
  rw [fixed_irq hfixed, calledFor_congr (s := s) (fixed_hintPolicy hfixed j)
    (fixed_affinityHint hfixed j) (fixed_mask hfixed d)]
  by_cases heq : j = i
  · subst heq
    rw [← appliedMask_eq hmask hassigned]
    exact lastWrite_append_self _ _ _
  · have hirq : (s.info i).irq ≠ (s.info j).irq := fun hirq =>
      heq (eq_of_irq_eq howned.unique hi hj' hirq).symm
    have hmoved' : (s.info j).moved = false := by
      rw [← hmoved]
      exact congrArg IrqInfo.moved (s.info_modifyInfo_of_ne _ heq).symm
    exact (lastWrite_append_of_ne hirq _ _).trans (h j hj' hmoved' d hassigned)

theorem Settled.move (h : s.Settled) (howned : s.Owned) (hmv : Move cfg s s') : s'.Settled :=
  h.of_same hmv.fixed_eq hmv.writes_eq fun _ hmoved _ hd => hmv.unmoved howned hmoved hd

theorem Settled.sleep (h : s.Settled) (d : ObjRef) : (s.sleep d).Settled :=
  h.of_same (s.sleep_fixed d) rfl fun _ hmoved _ hd => ⟨hmoved, hd⟩

theorem Settled.clearPowersaveMode (h : s.Settled) (d : ObjRef) :
    (s.clearPowersaveMode d).Settled :=
  h.of_same (s.clearPowersaveMode_fixed d) rfl fun _ hmoved _ hd => ⟨hmoved, hd⟩

theorem Fresh.settled (h : s.Fresh cfg) : s.Settled := by
  intro i _ _ d hd
  rw [(h.unplaced i).assignedObj] at hd
  cases hd

/-! ## Changes since a write -/

/-- An IRQ that is placed, carries no `moved` and was not written since `s₀` is where it was
in `s₀`. -/
def UnmovedSince (s₀ s : State) : Prop :=
  s₀.writes.length ≤ s.writes.length ∧
    ∀ i, (s.info i).moved = false → ∀ d, (s.info i).assignedObj = some d →
      (∀ write ∈ s.writes.drop s₀.writes.length, write.1 ≠ (s.info i).irq) →
      (s₀.info i).assignedObj = some d

variable {s₀ : State}

theorem UnmovedSince.of_same (h : UnmovedSince s₀ s) (hfixed : s'.fixed = s.fixed)
    (hwrites : s'.writes = s.writes)
    (hinfo : ∀ i, (s'.info i).moved = false → ∀ d, (s'.info i).assignedObj = some d →
      (s.info i).moved = false ∧ (s.info i).assignedObj = some d) : UnmovedSince s₀ s' := by
  refine ⟨hwrites ▸ h.1, fun i hmoved d hd hnone => ?_⟩
  obtain ⟨hmoved, hd⟩ := hinfo i hmoved d hd
  rw [hwrites, fixed_irq hfixed] at hnone
  exact h.2 i hmoved d hd hnone

theorem UnmovedSince.write (h : UnmovedSince s₀ s) (i : ℕ) (mask : Cpumask) :
    UnmovedSince s₀ (s.writeAffinity i mask) := by
  have hwrites : (s.writeAffinity i mask).writes = s.writes ++ [((s.info i).irq, mask)] := rfl
  refine ⟨?_, fun j hmoved d hd hnone => ?_⟩
  · rw [hwrites, List.length_append]
    exact Nat.le_add_right_of_le h.1
  · rw [hwrites, List.drop_append_of_le_length h.1,
      fixed_irq (s.writeAffinity_fixed i mask)] at hnone
    have hne : j ≠ i := by
      rintro rfl
      exact hnone _ (List.mem_append_right _ (List.mem_singleton_self _)) rfl
    have hinfo : (s.writeAffinity i mask).info j = s.info j := s.info_modifyInfo_of_ne _ hne
    rw [hinfo] at hmoved hd
    exact h.2 j hmoved d hd fun write hwrite => hnone write (List.mem_append_left _ hwrite)

theorem UnmovedSince.turns (h : UnmovedSince s₀ s) (howned : s.Owned) (hturns : Turns cfg s s') :
    UnmovedSince s₀ s' :=
  Turns.keeps_owned
    (fun _ _ ht hs hmv => hs.of_same hmv.fixed_eq hmv.writes_eq fun _ hmoved _ hd =>
      hmv.unmoved ht hmoved hd)
    (fun t d hs => hs.of_same (t.sleep_fixed d) rfl fun _ hmoved _ hd => ⟨hmoved, hd⟩)
    (fun t d hs => hs.of_same (t.clearPowersaveMode_fixed d) rfl fun _ hmoved _ hd => ⟨hmoved, hd⟩)
    (fun _ i mask _ hs _ _ => hs.write i mask) howned h hturns

end State

/-- Calls that do not write an IRQ move it only with `moved`. -/
theorem run_unmovedSince {ops : List Op} (h : s.Owned)
    (hrun : ops.foldlM (exec cfg) s = some s') : State.UnmovedSince s s' := by
  have hstart : s.Owned ∧ State.UnmovedSince s s :=
    ⟨h, Nat.le_refl _, fun _ _ _ hd _ => hd⟩
  refine (Lib.run_invariant (I := fun t => t.Owned ∧ State.UnmovedSince s t)
    (fun t op _ t' ht hx => ?_) hstart hrun).2
  refine exec_keeps (fun sysfs stack _ blank hblank hwrites => ?_)
    (fun howned hsince hturns => hsince.turns howned hturns) ht hx
  -- after a rescan no IRQ is placed
  refine ⟨?_, fun i _ d hd => ?_⟩
  · rw [State.rebuild_writes, hwrites]
    exact ht.2.1
  · rw [((State.fresh_rebuild cfg sysfs stack hblank).unplaced i).assignedObj] at hd
    cases hd

theorem reachable_settled (h : Ops.Reachable cfg s) : s.Settled := by
  refine (reachable_induct (P := State.Settled) (fun blank sysfs stack hblank _ => ?_) ?_ h).2
  · exact (State.fresh_rebuild cfg sysfs stack hblank).settled
  · intro s s' howned hsettled hturns
    exact State.Turns.keeps_owned (fun _ _ ht hs hmv => hs.move ht hmv)
      (fun _ d hs => hs.sleep d) (fun _ d hs => hs.clearPowersaveMode d)
      (fun _ _ _ ht hs hi hmask => hs.write ht hi hmask) howned hsettled hturns

/-! ## Retries -/

namespace State

/-- An IRQ that carries `moved` and whose file can be brought up to date is written. -/
theorem activateMapping_moved (smpAffinity : ℤ → SmpAffinity) {i : ℕ} {mask : Cpumask}
    (hi : i < s.dbSize) (hmoved : (s.info i).moved = true)
    (hmask : s.appliedMask cfg (s.info i) = some mask) (hassigned : (s.info i).assignedObj ≠ none)
    (hcheck : checkAffinity (smpAffinity (s.info i).irq) mask = false)
    (hwritable : (smpAffinity (s.info i).irq).writable = true) :
    ((s.activateMapping cfg smpAffinity i).info i).moved = false := by
  have hsome : (s.info i).assignedObj.isNone = false :=
    Option.isNone_eq_false_iff.mpr (Option.isSome_iff_ne_none.mpr hassigned)
  simp only [activateMapping, hmoved, hmask, hcheck, hsome, hwritable, Bool.not_true,
    Bool.false_eq_true, if_false]
  change ((s.modifyInfo i fun info => { info with moved := false }).info i).moved = false
  rw [s.info_modifyInfo_self i _ hi]

/-- The next `activate_mappings` brings the file of a moved IRQ up to date. -/
theorem activateMappings_moved (smpAffinity : ℤ → SmpAffinity) {i : ℕ} {mask : Cpumask}
    (hi : i < s.dbSize) (hmoved : (s.info i).moved = true)
    (hmask : s.appliedMask cfg (s.info i) = some mask) (hassigned : (s.info i).assignedObj ≠ none)
    (hcheck : checkAffinity (smpAffinity (s.info i).irq) mask = false)
    (hwritable : (smpAffinity (s.info i).irq).writable = true) :
    ((s.activateMappings cfg smpAffinity).info i).moved = false := by
  -- until `i` has its turn its entry is as it was; afterwards `moved` is off
  have hloop := foldl_rest (f := activateMapping cfg smpAffinity)
    (fun rest t => t.fixed = s.fixed ∧ rest.Nodup ∧
      (i ∈ rest → t.info i = s.info i) ∧ (i ∉ rest → (t.info i).moved = false))
    ?_ (l := List.range s.dbSize) (s := s)
    ⟨rfl, List.nodup_range, fun _ => rfl, fun hnot => absurd (List.mem_range.mpr hi) hnot⟩
  · exact hloop.2.2.2 List.not_mem_nil
  · rintro j rest t ⟨hfixed, hnodup, hahead, hdone⟩
    rw [List.nodup_cons] at hnodup
    refine ⟨(activateMapping_fixed smpAffinity j).trans hfixed, hnodup.2, fun hmem => ?_,
      fun hnot => ?_⟩
    · have hij : i ≠ j := fun heq => hnodup.1 (heq ▸ hmem)
      rw [activateMapping_info_of_ne smpAffinity hij]
      exact hahead (List.mem_cons_of_mem _ hmem)
    · by_cases hij : i = j
      · subst hij
        have hsame := hahead List.mem_cons_self
        rw [← hsame] at hmoved hmask hassigned hcheck hwritable
        rw [← appliedMask_congr hfixed] at hmask
        exact activateMapping_moved smpAffinity (fixed_dbSize hfixed ▸ hi) hmoved hmask hassigned
          hcheck hwritable
      · rw [activateMapping_info_of_ne smpAffinity hij]
        exact hdone (by simpa [hij] using hnot)

end State

/-- No decision is lost: a placed IRQ without `moved` was last written the mask its
state calls for, and one whose file differs from it is written by the next
`activate_mappings` that can open the file.  An IRQ that has come to another object and was
not written since carries `moved`. -/
theorem placements_settled (cfg : Config) (s : State) (h : Ops.Reachable cfg s) :
    (∀ i < s.dbSize, (s.info i).moved = false → ∀ d, (s.info i).assignedObj = some d →
      lastWrite s.writes (s.info i).irq = some (s.calledFor (s.info i) d)) ∧
    (∀ i < s.dbSize, ∀ d, (s.info i).assignedObj = some d →
      lastWrite s.writes (s.info i).irq ≠ some (s.calledFor (s.info i) d) →
      (s.info i).moved = true ∧
      ∀ smpAffinity mask, s.appliedMask cfg (s.info i) = some mask →
        State.checkAffinity (smpAffinity (s.info i).irq) mask = false →
        (smpAffinity (s.info i).irq).writable = true →
        lastWrite (s.activateMappings cfg smpAffinity).writes (s.info i).irq =
          some (s.calledFor (s.info i) d)) ∧
    ∀ (ops : List Op) (s' : State), ops.foldlM (exec cfg) s = some s' →
      ∀ i d, (s'.info i).assignedObj = some d → (s.info i).assignedObj ≠ some d →
        (∀ write ∈ s'.writes.drop s.writes.length, write.1 ≠ (s'.info i).irq) →
        (s'.info i).moved = true := by
  have hsettled := reachable_settled h
  refine ⟨hsettled, ?_, ?_⟩
  · intro i hi d hd hlost
    have hmoved : (s.info i).moved = true := by
      by_contra hnot
      exact hlost (hsettled i hi (by simpa using hnot) d hd)
    refine ⟨hmoved, fun smpAffinity mask hmask hcheck hwritable => ?_⟩
    have hassigned : (s.info i).assignedObj ≠ none := by simp [hd]
    have hstep : Ops.Step cfg s (.activateMappings smpAffinity)
        (s.activateMappings cfg smpAffinity) :=
      rfl
    have hfixed := (State.activateMappings_turns cfg smpAffinity s).fixed_eq
    have hdone :=
      State.activateMappings_moved smpAffinity hi hmoved hmask hassigned hcheck hwritable
    have hkept : ((s.activateMappings cfg smpAffinity).info i).assignedObj = some d := by
      refine (foldl_keeps (fun t : State => (t.info i).assignedObj) (fun j t => ?_) _ s).trans hd
      rcases State.activateMapping_cases cfg smpAffinity t j with
        heq | ⟨mask, -, -, -, -, -, heq⟩
      · rw [heq]
      · rw [heq]
        exact t.field_modifyInfo j i IrqInfo.assignedObj (by intro o; rfl)
    have hnext := reachable_settled (Reachable.next h hstep) i
      (State.fixed_dbSize hfixed ▸ hi) hdone d hkept
    rw [State.fixed_irq hfixed, State.calledFor_congr (s := s) (State.fixed_hintPolicy hfixed i)
      (State.fixed_affinityHint hfixed i) (State.fixed_mask hfixed d)] at hnext
    exact hnext
  · intro ops s' hrun i d hd hchanged hnone
    by_contra hnot
    exact hchanged
      ((run_unmovedSince (reachable_owned h) hrun).2 i (by simpa using hnot) d hd hnone)

/-- The first interrupt of the sample machine went to the second CPU. -/
theorem placements_settled_placed :
    lastWrite Sample.placed.writes (Sample.placed.info 0).irq =
      some (Sample.placed.calledFor (Sample.placed.info 0) ⟨.cpu, 1⟩) :=
  (placements_settled Sample.config Sample.placed Sample.reachable_placed).1 0 (by decide +kernel)
    (by decide +kernel) ⟨.cpu, 1⟩ (by decide +kernel)

end CodeAnalyze.Irqbalance
