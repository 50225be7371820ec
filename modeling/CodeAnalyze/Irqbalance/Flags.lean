import CodeAnalyze.Irqbalance.Overload
import CodeAnalyze.Irqbalance.Powersave

/-!
# The flags of `main`

`need_rescan` and `cycle_count` decide which way `main` goes.  Nothing but a rescan takes
`need_rescan` back, and nothing but a rescan and `cycle_count++` touches the counter.
-/

namespace CodeAnalyze.Irqbalance

open Lib

variable {cfg : Config} {s s' : State} {op : Op}

namespace State

/-- `need_rescan` and `cycle_count`. -/
def flags (s : State) : Bool × UInt64 := (s.needRescan, s.cycleCount)

theorem flags_modifyIrqList (s : State) (l : IrqList) (f : List ℕ → List ℕ) :
    (s.modifyIrqList l f).flags = s.flags := by
  cases l <;> rfl

theorem flags_migrateIrq (s : State) (src dst : IrqList) (i : ℕ) :
    (s.migrateIrq src dst i).flags = s.flags := by
  unfold migrateIrq
  split
  · rfl
  · exact (flags_modifyIrqList _ _ _).trans (flags_modifyIrqList _ _ _)

/-! ## Statistics -/

theorem clearObjStats_flags (s : State) (d : ObjRef) : (s.clearObjStats d).flags = s.flags := by
  induction hn : d.objType.height using Nat.strong_induction_on generalizing d s with
  | _ n ih =>
      rw [clearObjStats_eq]
      refine (foldl_keeps flags (by intro i t; rfl) _ _).trans ?_
      refine foldl_invariant (fun t : State => t.flags = s.flags) (fun c hc t ht => ?_) rfl
      have hlt := ObjType.height_below (Topology.objType_of_mem_childRefs hc)
      exact (ih c.objType.height (by omega) t c rfl).trans ht

theorem clearWorkStats_flags (s : State) : s.clearWorkStats.flags = s.flags :=
  foldl_keeps flags (fun d t => t.clearObjStats_flags d) _ _

theorem computeIrqBranchLoadShare_flags (s : State) (d : ObjRef) :
    (s.computeIrqBranchLoadShare d).flags = s.flags := by
  have hslices : ((s.divideLoad d).assignLoadSlices d).flags = s.flags :=
    foldl_keeps flags (by intro i t; rfl) _ _
  unfold computeIrqBranchLoadShare addLoadToParent
  split <;> exact hslices

theorem parseProcStat_flags (cfg : Config) (s : State) (file : Option Bytes) :
    (s.parseProcStat cfg file).flags = s.flags := by
  have hpass : ∀ ty (t : State), (t.pass ty).flags = t.flags := fun ty t =>
    foldl_keeps flags (fun d u => u.computeIrqBranchLoadShare_flags d) _ t
  cases file with
  | none => rfl
  | some file =>
      unfold parseProcStat
      dsimp only
      split
      · rfl
      · rw [propagateLoads_eq, hpass, hpass, hpass, hpass]
        rfl

theorem parseProcInterrupts_cycleCount (s : State) (file : Option Bytes) :
    (s.parseProcInterrupts file).cycleCount = s.cycleCount :=
  parseProcInterrupts_keeps cycleCount (fun _ _ _ _ => rfl) (fun _ _ _ => rfl) s file

theorem updateCount_needRescan {number : ℤ} {counts : Bytes}
    (h : s.updateCount number counts = .ok s') (hneed : s.needRescan = true) :
    s'.needRescan = true := by
  unfold updateCount at h
  split at h
  · cases h
  · dsimp only at h
    split at h
    · cases h
    · split at h
      · cases h
      · split at h <;> cases h
        · exact hneed
        · exact hneed

theorem parseProcLines_needRescan (lines : List Bytes) (hneed : s.needRescan = true) :
    (s.parseProcLines lines).1.needRescan = true := by
  induction lines generalizing s with
  | nil => exact hneed
  | cons line rest ih =>
      have hmsi : ∀ b : Bool,
          (if b then { s with procIntHasMsi := true } else s).needRescan = true := by
        intro b
        cases b <;> exact hneed
      unfold parseProcLines
      dsimp only
      cases hline : procLine line with
      | stop => exact hmsi _
      | skip => exact ih (hmsi _)
      | irq number counts =>
          dsimp only
          split
          · exact hmsi _
          · rename_i hupdate
            exact ih (updateCount_needRescan hupdate (hmsi _))

/-- `parse_proc_interrupts` does not take `need_rescan` back. -/
theorem parseProcInterrupts_needRescan (file : Option Bytes) (hneed : s.needRescan = true) :
    (s.parseProcInterrupts file).needRescan = true := by
  cases file with
  | none => exact hneed
  | some file =>
      have hlines := parseProcLines_needRescan (procBuffers file) hneed
      unfold parseProcInterrupts
      dsimp only
      split <;> simp [hlines]

/-! ## Migration and placement -/

theorem moveCandidateIrqs_flags {si si' : State × LoadBalanceInfo} {i : ℕ}
    (h : moveCandidateIrqs si i = some si') : si'.1.flags = si.1.flags := by
  obtain ⟨t, lb⟩ := si
  rcases moveCandidateIrqs_cases h with rfl | ⟨x, -, -, -, -, rfl⟩
  · rfl
  · exact flags_migrateIrq _ _ _ _

theorem findOverloadedObjs_flags {addr : ℕ → ℕ} {ty : ObjType} {r : State × LoadBalanceInfo}
    (h : s.findOverloadedObjs cfg addr ty = some r) : r.1.flags = s.flags := by
  refine foldlM_keeps (fun t : State × LoadBalanceInfo => t.1.flags) (fun d t t' ht => ?_) h
  obtain ⟨t, lb⟩ := t
  unfold migrateOverloadedIrqs at ht
  dsimp only at ht
  split at ht
  · exact (foldlM_keeps (fun t : State × LoadBalanceInfo => t.1.flags)
      (fun i u u' hu => moveCandidateIrqs_flags hu) ht).trans (flags_modifyIrqList t _ _)
  · cases ht
    rfl

theorem forceIrqMigration_flags {i : ℕ} (h : s.forceIrqMigration i = some s') :
    s'.flags = s.flags := by
  unfold forceIrqMigration at h
  split at h
  · cases h
  · cases h
    exact flags_migrateIrq _ _ _ _

theorem enterPowersave_flags {d : ObjRef} (h : s.enterPowersave d = some s') :
    s'.flags = s.flags := by
  have hkeeps : s'.flags = (s.sleep d).flags :=
    foldlM_keeps flags (fun i t t' ht => forceIrqMigration_flags ht) h
  exact hkeeps

theorem powersaveStep_flags {lb : LoadBalanceInfo} (h : s.powersaveStep cfg lb = some s') :
    s'.flags = s.flags := by
  unfold powersaveStep at h
  split at h
  · split at h
    · exact enterPowersave_flags h
    · split at h
      · cases h
        exact foldl_keeps flags (by intro d t; rfl) _ s
      · cases h
        rfl
  · cases h
    rfl

theorem updateMigrationStatus_flags {addr : ℕ → ℕ}
    (h : s.updateMigrationStatus cfg addr = some s') : s'.flags = s.flags := by
  simp only [updateMigrationStatus, Option.bind_eq_bind, Option.bind_eq_some_iff,
    Option.pure_def, Option.some.injEq] at h
  obtain ⟨⟨s₁, lb⟩, h₁, s₂, h₂, ⟨s₃, _⟩, h₃, ⟨s₄, _⟩, h₄, ⟨s₅, _⟩, h₅, rfl⟩ := h
  calc s₅.flags = s₄.flags := findOverloadedObjs_flags h₅
    _ = s₃.flags := findOverloadedObjs_flags h₄
    _ = s₂.flags := findOverloadedObjs_flags h₃
    _ = s₁.flags := powersaveStep_flags h₂
    _ = s.flags := findOverloadedObjs_flags h₁

theorem assignIrq_flags (s : State) (src : IrqList) (d : ObjRef) (i : ℕ) (load : UInt64) :
    (s.assignIrq src d i load).flags = s.flags :=
  flags_migrateIrq s src (.ofObj d) i

theorem findBestObjectForIrq_flags {d : ObjRef} {i : ℕ}
    (h : s.findBestObjectForIrq cfg d i = some s') : s'.flags = s.flags := by
  unfold findBestObjectForIrq at h
  split at h
  · cases h
    rfl
  · split at h
    · cases h
      rfl
    · obtain ⟨asign, -, h⟩ := Option.bind_eq_some_iff.mp h
      cases asign with
      | none =>
          cases h
          rfl
      | some asign =>
          cases h
          exact assignIrq_flags _ _ _ _ _

theorem findPlacement_flags {i : ℕ} (h : s.findPlacement cfg i = some s') :
    s'.flags = s.flags := by
  unfold findPlacement at h
  obtain ⟨asign, -, h⟩ := Option.bind_eq_some_iff.mp h
  cases asign with
  | none =>
      cases h
      rfl
  | some asign =>
      cases h
      exact assignIrq_flags _ _ _ _ _

theorem placeIrqInNode_flags {i : ℕ} (h : s.placeIrqInNode cfg i = some s') :
    s'.flags = s.flags := by
  unfold placeIrqInNode at h
  split at h
  · cases h
    rfl
  · split at h
    · cases h
    · split at h
      · split at h
        · exact findPlacement_flags h
        · cases h
          exact assignIrq_flags _ _ _ _ _
      · exact findPlacement_flags h

theorem calculatePlacement_flags {addr : ℕ → ℕ}
    (h : s.calculatePlacement cfg addr = some s') : s'.flags = s.flags := by
  have hpass : ∀ {t t' : State} (list : List ObjRef),
      list.foldlM (placeIrqInObject cfg) t = some t' → t'.flags = t.flags := fun list ht =>
    foldlM_keeps flags
      (fun d u u' hu => foldlM_keeps flags (fun i v v' hv => findBestObjectForIrq_flags hv) hu) ht
  have hsort : (s.sortIrqList addr .rebalance).flags = s.flags := flags_modifyIrqList s _ _
  unfold calculatePlacement at h
  dsimp only at h
  split at h
  · obtain ⟨s₁, h₁, h⟩ := Option.bind_eq_some_iff.mp h
    obtain ⟨s₂, h₂, h⟩ := Option.bind_eq_some_iff.mp h
    obtain ⟨s₃, h₃, h⟩ := Option.bind_eq_some_iff.mp h
    calc s'.flags = s₃.flags := hpass _ h
      _ = s₂.flags := hpass _ h₃
      _ = s₁.flags := hpass _ h₂
      _ = (s.sortIrqList addr .rebalance).flags :=
          foldlM_keeps flags (fun i t t' ht => placeIrqInNode_flags ht) h₁
      _ = s.flags := hsort
  · cases h
    exact hsort

theorem activateMappings_flags (smpAffinity : ℤ → SmpAffinity) (s : State) :
    (s.activateMappings cfg smpAffinity).flags = s.flags := by
  refine foldl_keeps flags (fun i t => ?_) _ s
  rcases activateMapping_cases cfg smpAffinity t i with heq | ⟨mask, -, -, -, -, -, heq⟩
  · rw [heq]
  · rw [heq]
    rfl

end State

/-! ## One call -/

theorem exec_cycleCount (hrescan : ∀ sysfs stack, op ≠ .rescan sysfs stack)
    (hnext : op ≠ .nextCycle) (hrun : exec cfg s op = some s') : s'.cycleCount = s.cycleCount := by
  cases op with
  | clearWorkStats =>
      cases hrun
      exact congrArg Prod.snd s.clearWorkStats_flags
  | parseProcInterrupts file =>
      cases hrun
      exact s.parseProcInterrupts_cycleCount file
  | parseProcStat file =>
      cases hrun
      exact congrArg Prod.snd (s.parseProcStat_flags cfg file)
  | rescan sysfs stack => exact absurd rfl (hrescan sysfs stack)
  | updateMigrationStatus addr => exact congrArg Prod.snd (State.updateMigrationStatus_flags hrun)
  | calculatePlacement addr => exact congrArg Prod.snd (State.calculatePlacement_flags hrun)
  | activateMappings smpAffinity =>
      cases hrun
      exact congrArg Prod.snd (State.activateMappings_flags smpAffinity s)
  | nextCycle => exact absurd rfl hnext
  | forceRescan =>
      cases hrun
      split <;> rfl

theorem exec_rescan_cycleCount {sysfs : Sysfs} {stack : Stack}
    (hrun : exec cfg s (.rescan sysfs stack) = some s') : s'.cycleCount = 0 := by
  cases hrun
  exact State.rebuild_cycleCount cfg sysfs stack _

/-- A rescan that is asked for stays asked for until there is one. -/
theorem exec_needRescan (hrescan : ∀ sysfs stack, op ≠ .rescan sysfs stack)
    (hrun : exec cfg s op = some s') (hneed : s.needRescan = true) : s'.needRescan = true := by
  have hkept : ∀ {t : State}, t.flags = s.flags → t.needRescan = true := fun ht =>
    (congrArg Prod.fst ht).trans hneed
  cases op with
  | clearWorkStats =>
      cases hrun
      exact hkept s.clearWorkStats_flags
  | parseProcInterrupts file =>
      cases hrun
      exact State.parseProcInterrupts_needRescan file hneed
  | parseProcStat file =>
      cases hrun
      exact hkept (s.parseProcStat_flags cfg file)
  | rescan sysfs stack => exact absurd rfl (hrescan sysfs stack)
  | updateMigrationStatus addr => exact hkept (State.updateMigrationStatus_flags hrun)
  | calculatePlacement addr => exact hkept (State.calculatePlacement_flags hrun)
  | activateMappings smpAffinity =>
      cases hrun
      exact hkept (State.activateMappings_flags smpAffinity s)
  | nextCycle =>
      cases hrun
      exact hneed
  | forceRescan =>
      cases hrun
      split
      · rfl
      · exact hneed

end CodeAnalyze.Irqbalance
