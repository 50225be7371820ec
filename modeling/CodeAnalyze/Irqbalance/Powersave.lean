import CodeAnalyze.Irqbalance.Reach
import CodeAnalyze.Irqbalance.Sample

/-!
# CPUs in powersave mode

A CPU in powersave mode holds no IRQ.  The flag is set before the CPU is emptied, so
the invariant leaves out the CPU that is being put to sleep; the turn that puts it
to sleep ends with its list empty.
-/

namespace CodeAnalyze.Irqbalance

open Lib

variable {cfg : Config} {s s' : State}

namespace State

/-- Every CPU in powersave mode, but for the excepted ones, holds no IRQ. -/
def DrainedExcept (s : State) (except : ObjRef → Prop) : Prop :=
  ∀ d, d.objType = .cpu → ¬ except d → (s.obj d).powersaveMode = true → (s.obj d).interrupts = []

/-- Every CPU in powersave mode holds no IRQ. -/
def Drained (s : State) : Prop :=
  ∀ d, d.objType = .cpu → (s.obj d).powersaveMode = true → (s.obj d).interrupts = []

variable {except : ObjRef → Prop}

theorem powersaveMode_reassign (s : State) (src : IrqList) (a : Option ObjRef) (i : ℕ)
    (d : ObjRef) : ((s.reassign src a i).obj d).powersaveMode = (s.obj d).powersaveMode :=
  objField_migrateIrq TopoObj.powersaveMode (fun _ _ => rfl) s src (homeList a) i d

/-- An IRQ is never put on a CPU in powersave mode. -/
theorem Chosen.awake {i : ℕ} {d : ObjRef} (h : s.Chosen cfg i d) (hcpu : d.objType = .cpu) :
    (s.obj d).powersaveMode = false := by
  rcases h with hskips | ⟨hnode, -, -⟩
  · unfold skipsObject at hskips
    simp only [Bool.or_eq_false_iff] at hskips
    exact hskips.2
  · rw [hcpu] at hnode
    cases hnode

theorem DrainedExcept.reassign (h : s.DrainedExcept except) (howned : s.Owned) {i : ℕ}
    {src : IrqList} {a : Option ObjRef} (hi : s.home i = some src)
    (ha : s.ListValid (homeList a)) (hne : homeList a ≠ src)
    (hawake : ∀ d, a = some d → d.objType = .cpu → (s.obj d).powersaveMode = false) :
    (s.reassign src a i).DrainedExcept except := by
  intro d hcpu hexcept hsleeps
  rw [powersaveMode_reassign] at hsleeps
  have hempty := h d hcpu hexcept hsleeps
  have hlist : (s.reassign src a i).irqList (.ofObj d) = [] := by
    rw [howned.irqList_reassign hi ha hne, show s.irqList (.ofObj d) = [] from hempty]
    have hnot : IrqList.ofObj d ≠ homeList a := by
      intro heq
      have had : a = some d := homeList_injective heq.symm
      rw [hawake d had hcpu] at hsleeps
      cases hsleeps
    rw [if_neg hnot]
    split <;> rfl
  exact hlist

/-- Neither lists nor flags are touched. -/
theorem DrainedExcept.of_same (h : s.DrainedExcept except)
    (hlists : ∀ l, (s'.irqList l).Perm (s.irqList l))
    (hflags : ∀ d, (s'.obj d).powersaveMode = true → (s.obj d).powersaveMode = true) :
    s'.DrainedExcept except := by
  intro d hcpu hexcept hsleeps
  have hempty := h d hcpu hexcept (hflags d hsleeps)
  exact List.Perm.eq_nil (hempty ▸ hlists (.ofObj d))

theorem DrainedExcept.move (h : s.DrainedExcept except) (howned : s.Owned)
    (hmv : Move cfg s s') : s'.DrainedExcept except := by
  cases hmv with
  | count hstill =>
      refine h.of_same (fun l => .of_eq (still_irqList hstill l)) fun d hsleeps => ?_
      rwa [still_powersaveMode hstill] at hsleeps
  | sort addr l =>
      refine h.of_same (s.sortIrqList_perm addr l) fun d hsleeps => ?_
      rwa [sortIrqList, objField_modifyIrqList s d l _ TopoObj.powersaveMode fun _ _ => rfl]
        at hsleeps
  | take hi => exact h.reassign howned hi trivial (by simp [homeList]) (by simp)
  | put hi hvalid hbelow hchosen =>
      refine h.reassign howned hi hvalid hbelow.ne fun d hd hcpu => ?_
      cases hd
      exact hchosen.awake hcpu

theorem DrainedExcept.moves (h : s.DrainedExcept except) (howned : s.Owned)
    (hrun : Moves cfg s s') : s'.DrainedExcept except := by
  have hboth : s'.Owned ∧ s'.DrainedExcept except := by
    induction hrun with
    | refl => exact ⟨howned, h⟩
    | tail _ hmv ih => exact ⟨ih.1.move hmv, ih.2.move ih.1 hmv⟩
  exact hboth.2

theorem powersaveMode_clearPowersaveMode (s : State) (d r : ObjRef) :
    ((s.clearPowersaveMode d).obj r).powersaveMode =
      if r = d ∧ s.topo.Valid d then false else (s.obj r).powersaveMode := by
  have hobj := s.topo.obj_modify d r fun o => { o with powersaveMode := false }
  rw [show (s.clearPowersaveMode d).obj r = _ from hobj]
  split <;> rfl

theorem drained_iff : s.Drained ↔ s.DrainedExcept fun _ => False :=
  ⟨fun h d hd _ => h d hd, fun h d hd => h d hd not_false⟩

/-- A turn leaves every sleeping CPU empty: if a CPU was put to sleep its list is
empty at the end of the turn, and the others were left alone. -/
theorem Drained.turn (h : s.Drained) (howned : s.Owned) (hturn : Turn cfg s s') : s'.Drained := by
  cases hturn with
  | move hmv => exact drained_iff.mpr ((drained_iff.mp h).move howned hmv)
  | @nap _ x _ hrun hempty =>
      have hothers : (s.sleep x).DrainedExcept (· = x) := by
        intro d hcpu hd hsleeps
        have hsame : (s.sleep x).obj d = s.obj d := s.topo.obj_modify_of_ne _ hd
        rw [hsame] at hsleeps ⊢
        exact h d hcpu hsleeps
      have hend := hothers.moves (howned.sleep x) hrun
      intro d hcpu hsleeps
      by_cases hd : d = x
      · exact hd ▸ hempty
      · exact hend d hcpu hd hsleeps
  | wake x =>
      refine drained_iff.mpr ((drained_iff.mp h).of_same
        (fun l => .of_eq (s.irqList_modifyObj x l fun _ => rfl)) fun r hsleeps => ?_)
      rw [powersaveMode_clearPowersaveMode] at hsleeps
      split at hsleeps
      · cases hsleeps
      · exact hsleeps
  | write _ _ =>
      exact drained_iff.mpr ((drained_iff.mp h).of_same
        (fun l => .of_eq (s.irqList_modifyInfo _ _ l)) fun _ hsleeps => hsleeps)

theorem Fresh.drained (h : s.Fresh cfg) : s.Drained := by
  intro d _ hsleeps
  have hawake : (s.obj d).powersaveMode = false := (h.tree.idle d).powersaveMode
  rw [hawake] at hsleeps
  cases hsleeps

end State

theorem reachable_drained (h : Ops.Reachable cfg s) : s.Drained := by
  refine (reachable_induct (P := State.Drained) (fun blank sysfs stack hblank _ => ?_) ?_ h).2
  · exact (State.fresh_rebuild cfg sysfs stack hblank).drained
  · intro s s' howned hdrained hturns
    have hboth : s'.Owned ∧ s'.Drained := by
      induction hturns with
      | refl => exact ⟨howned, hdrained⟩
      | tail _ hturn ih => exact ⟨ih.1.turns (.single hturn), ih.2.turn ih.1 hturn⟩
    exact hboth.2

/-! ## The flag -/

namespace State

/-- The `powersave_mode` of every object. -/
def sleepers (s : State) (d : ObjRef) : Bool := (s.obj d).powersaveMode

theorem sleepers_reassign (s : State) (src : IrqList) (a : Option ObjRef) (i : ℕ) :
    (s.reassign src a i).sleepers = s.sleepers :=
  funext fun d => s.powersaveMode_reassign src a i d

theorem sleepers_of_still (h : s'.still = s.still) : s'.sleepers = s.sleepers :=
  funext fun d => still_powersaveMode h d

theorem Move.sleepers_eq (h : Move cfg s s') : s'.sleepers = s.sleepers := by
  cases h with
  | count hstill => exact sleepers_of_still hstill
  | sort addr l =>
      exact funext fun d => s.objField_modifyIrqList d l _ TopoObj.powersaveMode fun _ _ => rfl
  | take _ => exact sleepers_reassign _ _ _ _
  | put _ _ _ _ => exact sleepers_reassign _ _ _ _

theorem Moves.sleepers_eq (h : Moves cfg s s') : s'.sleepers = s.sleepers := by
  induction h with
  | refl => rfl
  | tail _ hmv ih => exact hmv.sleepers_eq.trans ih

/-- `update_migration_status` takes the branch that clears the flags. -/
def ClearsPowersave (cfg : Config) (addr : ℕ → ℕ) (s : State) : Prop :=
  ∃ r, s.findOverloadedObjs cfg addr .cpu = some r ∧ cfg.powerThresh ≠ ulongMax ∧
    5 < s.cycleCount ∧ r.2.numOver ≠ 0 ∧ r.2.numPowersave ≠ 0

/-- Apart from that branch no flag is ever cleared. -/
theorem powersaveStep_sleepers {lb : LoadBalanceInfo} {d : ObjRef} (howned : s.Owned)
    (hkeep : ¬ (cfg.powerThresh ≠ ulongMax ∧ 5 < s.cycleCount ∧ lb.numOver ≠ 0 ∧
      lb.numPowersave ≠ 0))
    (h : s.powersaveStep cfg lb = some s') (hsleeps : s.sleepers d = true) :
    s'.sleepers d = true := by
  unfold powersaveStep at h
  split at h
  · rename_i hthresh
    split at h
    · rename_i x _ _
      have hmoves := (enterPowersave_spec cfg howned h).1
      have hobj := s.topo.obj_modify x d fun o => { o with powersaveMode := true }
      rw [hmoves.sleepers_eq]
      unfold sleepers
      rw [show (s.sleep x).obj d = _ from hobj]
      split
      · rfl
      · exact hsleeps
    · split at h
      · rename_i hclear
        have hon : cfg.powerThresh ≠ ulongMax ∧ 5 < s.cycleCount := by simpa using hthresh
        have hover : lb.numOver ≠ 0 ∧ lb.numPowersave ≠ 0 := by simpa using hclear
        exact absurd ⟨hon.1, hon.2, hover⟩ hkeep
      · cases h
        exact hsleeps
  · cases h
    exact hsleeps

theorem findOverloadedObjs_cycleCount {addr : ℕ → ℕ} {ty : ObjType} {r : State × LoadBalanceInfo}
    (h : s.findOverloadedObjs cfg addr ty = some r) : r.1.cycleCount = s.cycleCount := by
  have hlist : ∀ (t : State) l f, (t.modifyIrqList l f).cycleCount = t.cycleCount := by
    intro t l f
    cases l <;> rfl
  refine foldlM_keeps (fun t : State × LoadBalanceInfo => t.1.cycleCount) (fun d t t' ht => ?_) h
  obtain ⟨t, lb⟩ := t
  unfold migrateOverloadedIrqs at ht
  dsimp only at ht
  split at ht
  · refine (foldlM_keeps (fun t : State × LoadBalanceInfo => t.1.cycleCount)
      (fun i u u' hu => ?_) ht).trans (hlist t _ _)
    rcases moveCandidateIrqs_cases hu with rfl | ⟨x, -, -, -, -, rfl⟩
    · rfl
    · dsimp only [reassign]
      unfold migrateIrq
      split
      · rfl
      · exact (hlist _ _ _).trans (hlist _ _ _)
  · cases ht
    rfl

theorem updateMigrationStatus_sleepers {addr : ℕ → ℕ} {d : ObjRef} (howned : s.Owned)
    (hkeep : ¬ s.ClearsPowersave cfg addr)
    (h : s.updateMigrationStatus cfg addr = some s') (hsleeps : s.sleepers d = true) :
    s'.sleepers d = true := by
  obtain ⟨s₁, lb, s₂, hfind, hbefore, hpowersave, -, hafter⟩ :=
    updateMigrationStatus_spec howned h
  have hcycle : s₁.cycleCount = s.cycleCount := findOverloadedObjs_cycleCount hfind
  rw [hafter.sleepers_eq]
  refine powersaveStep_sleepers (howned.moves hbefore) (fun hclears => hkeep ?_) hpowersave ?_
  · exact ⟨_, hfind, hclears.1, hcycle ▸ hclears.2.1, hclears.2.2⟩
  · rw [hbefore.sleepers_eq]
    exact hsleeps

end State

/-- A call that neither rebuilds the tree nor clears the flags leaves a sleeping CPU
asleep. -/
theorem exec_sleepers {op : Op} {d : ObjRef} (howned : s.Owned)
    (hrescan : ∀ sysfs stack, op ≠ .rescan sysfs stack)
    (hclears : ∀ addr, op = .updateMigrationStatus addr → ¬ s.ClearsPowersave cfg addr)
    (hrun : exec cfg s op = some s') (hsleeps : s.sleepers d = true) : s'.sleepers d = true := by
  have hstill : ∀ {t : State}, t.still = s.still → t.sleepers d = true := by
    intro t ht
    rw [State.sleepers_of_still ht]
    exact hsleeps
  cases op with
  | clearWorkStats =>
      cases hrun
      exact hstill s.clearWorkStats_still
  | parseProcInterrupts file =>
      cases hrun
      exact hstill (s.parseProcInterrupts_still file)
  | parseProcStat file =>
      cases hrun
      exact hstill (State.parseProcStat_still cfg s file)
  | rescan sysfs stack => exact absurd rfl (hrescan sysfs stack)
  | updateMigrationStatus addr =>
      exact State.updateMigrationStatus_sleepers howned (hclears addr rfl) hrun hsleeps
  | calculatePlacement addr =>
      rw [(State.calculatePlacement_moves howned hrun).sleepers_eq]
      exact hsleeps
  | activateMappings smpAffinity =>
      cases hrun
      have hsame : (s.activateMappings cfg smpAffinity).sleepers = s.sleepers := by
        refine foldl_keeps State.sleepers (fun i t => ?_) _ s
        rcases State.activateMapping_cases cfg smpAffinity t i with
          heq | ⟨mask, -, -, -, -, -, heq⟩ <;> rw [heq]
        rfl
      rw [hsame]
      exact hsleeps
  | nextCycle =>
      cases hrun
      exact hstill rfl
  | forceRescan =>
      cases hrun
      refine hstill ?_
      split <;> rfl

/-- A CPU in powersave mode holds no IRQ, and stays so through every call until its
flag is cleared or the tree is rebuilt; the IRQs a CPU held when it entered
powersave mode are all on `rebalance_irq_list` once they have been taken from it. -/
theorem powersave_cpus_drained (cfg : Config) (s : State) (h : Ops.Reachable cfg s) :
    (∀ d, d.objType = .cpu → (s.obj d).powersaveMode = true → (s.obj d).interrupts = []) ∧
    (∀ op s' d, exec cfg s op = some s' → d.objType = .cpu → (s.obj d).powersaveMode = true →
      (∀ sysfs stack, op ≠ .rescan sysfs stack) →
      (∀ addr, op = .updateMigrationStatus addr → ¬ s.ClearsPowersave cfg addr) →
      (s'.obj d).powersaveMode = true ∧ (s'.obj d).interrupts = []) ∧
    ∀ addr r d s', s.findOverloadedObjs cfg addr .cpu = some r → r.1.enterPowersave d = some s' →
      ∀ i ∈ (r.1.obj d).interrupts,
        i ∈ s'.irqs.rebalanceIrqList ∧ (s'.info i).assignedObj = none := by
  refine ⟨reachable_drained h, fun op s' d hrun hcpu hsleeps hrescan hclears => ?_,
    fun addr r d s' hfind henter i hi => ?_⟩
  · have hkept := exec_sleepers (reachable_owned h) hrescan hclears hrun hsleeps
    exact ⟨hkept, reachable_drained (Reachable.next h hrun) d hcpu hkept⟩
  · have howned := reachable_owned h
    have howned₁ := howned.moves (State.findOverloadedObjs_moves howned hfind)
    obtain ⟨hmoves, hhome⟩ := State.enterPowersave_spec cfg howned₁ henter
    have hi' : s'.home i = some .rebalance := (hhome i).trans (if_pos hi)
    exact ⟨((howned₁.sleep d).moves hmoves).mem_iff.mpr hi', State.assigned_of_home_rebalance hi'⟩

namespace Sample

/-- One CPU with little to do is enough for powersave mode. -/
def lazyConfig : Config := { config with powerThresh := 1 }

/-- The daemon places the interrupts and waits until it may put a CPU to sleep. -/
def idling : List Op :=
  placing ++ List.replicate 6 .nextCycle ++ [.updateMigrationStatus id]

def asleep : State := (idling.foldlM (exec lazyConfig) (start lazyConfig machine {})).getD {}

theorem reachable_asleep : Ops.Reachable lazyConfig asleep := by
  have hsome : (idling.foldlM (exec lazyConfig) (start lazyConfig machine {})).isSome = true := by
    decide +kernel
  obtain ⟨s, hrun⟩ := Option.isSome_iff_exists.mp hsome
  have hstart : Ops.Reachable lazyConfig (start lazyConfig machine {}) :=
    .start ⟨machine, {}, rfl⟩
  rw [asleep, hrun]
  exact hstart.of_run (fun _ _ _ hstep => hstep) hrun

end Sample

/-- The first CPU of the sample machine sleeps, and holds no IRQ. -/
theorem powersave_cpus_drained_asleep : (Sample.asleep.obj ⟨.cpu, 0⟩).interrupts = [] :=
  (powersave_cpus_drained Sample.lazyConfig Sample.asleep Sample.reachable_asleep).1 ⟨.cpu, 0⟩ rfl
    (by decide +kernel)

end CodeAnalyze.Irqbalance
