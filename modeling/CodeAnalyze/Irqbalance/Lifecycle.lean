import CodeAnalyze.Irqbalance.BannedCpus
import CodeAnalyze.Irqbalance.Flags
import CodeAnalyze.Irqbalance.Process

/-!
# The life of a process

After `SIGINT`, and in one-shot mode from the start, the calls that are still to come can be
counted.  The bounds are on where `main` stands, and every step of a process uses them up.
-/

namespace CodeAnalyze.Irqbalance

open Lib

/-! ## Kinds of events -/

def Op.isPlacement : Op → Bool
  | .calculatePlacement _ => true
  | _ => false

def Op.isMigration : Op → Bool
  | .updateMigrationStatus _ => true
  | _ => false

def Op.isRescan : Op → Bool
  | .rescan _ _ => true
  | _ => false

namespace Event

/-- A step of `main` itself. -/
def advances : Event → Bool
  | call _ => true
  | test => true
  | _ => false

def isCall : Event → Bool
  | call _ => true
  | _ => false

def isPlacement : Event → Bool
  | call op => op.isPlacement
  | _ => false

def isMigration : Event → Bool
  | call op => op.isMigration
  | _ => false

def isRescan : Event → Bool
  | call op => op.isRescan
  | _ => false

end Event

namespace Main

variable {s : State} {pc pc' : Pc} {op : Op}

/-- Before the loop. -/
def Pc.isFirst : Pc → Bool
  | .firstInterrupts | .firstStat => true
  | _ => false

/-- The most steps that `main` can make until it has been at `while (keep_going)`. -/
def Pc.steps : Pc → ℕ
  | .firstInterrupts => 3
  | .firstStat => 2
  | .clear => 14
  | .interrupts => 13
  | .stat => 12
  | .testRescan => 11
  | .rescanInterrupts => 10
  | .rescanStat => 9
  | .rescanClear => 8
  | .rescanInterrupts2 => 7
  | .rescanStat2 => 6
  | .testCycle => 5
  | .place => 4
  | .activate => 3
  | .count => 2

/-- How often `main` can still call `calculate_placement`. -/
def Pc.placements : Pc → ℕ
  | .firstInterrupts | .firstStat | .activate | .count => 0
  | _ => 1

/-- `left` bounds what is to come until `main` is at `while (keep_going)`, and `home` what
is still to come there. -/
structure Bounds (cost : Event → Bool) (left : Pc → ℕ) (home : ℕ) : Prop where
  call : ∀ s pc op pc', op.isHandler = false → next s pc op = some pc' →
    (if pc' = .clear then home else left pc') + (if cost (.call op) then 1 else 0) ≤ left pc
  test : (if cost .test then 1 else 0) ≤ home
  hangup : cost .hangup = false
  interrupt : cost .interrupt = false

theorem bounds_advances : Bounds Event.advances Pc.steps 1 where
  call s pc op pc' hop hnext := by
    fun_cases next s pc op <;> simp_all [next, Pc.steps, Event.advances, Op.isHandler]
    all_goals (subst hnext; simp)
  test := Nat.le_refl 1
  hangup := rfl
  interrupt := rfl

theorem bounds_isPlacement : Bounds Event.isPlacement Pc.placements 0 where
  call s pc op pc' hop hnext := by
    fun_cases next s pc op <;>
      simp_all [next, Pc.placements, Event.isPlacement, Op.isPlacement, Op.isHandler]
    all_goals (subst hnext; simp)
  test := Nat.le_refl 0
  hangup := rfl
  interrupt := rfl

/-- `main` comes to its loop from above or from below. -/
theorem next_clear (hop : op.isHandler = false) (hnext : next s pc op = some .clear) :
    pc = .firstStat ∧ op.endsCycle = false ∨ pc = .count ∧ op.endsCycle = true := by
  fun_cases next s pc op <;> simp_all [next, Op.endsCycle, Op.isHandler]

/-- It does not leave the loop again. -/
theorem next_isFirst (hop : op.isHandler = false) (hnext : next s pc op = some pc')
    (hfirst : pc'.isFirst = true) : pc.isFirst = true := by
  fun_cases next s pc op <;> simp_all [next, Pc.isFirst, Op.isHandler]
  all_goals (subst hnext; simp at hfirst)

end Main

namespace Process

variable {prog : Program} {env : Environment} {p p' : Process} {event : Event}
  {events : List Event} {cost : Event → Bool} {left : Main.Pc → ℕ} {home : ℕ}

/-! ## Counting down -/

/-- What is still to come where the loop is not entered again. -/
def rank (left : Main.Pc → ℕ) (home : ℕ) (p : Process) : ℕ :=
  match p.stage with
  | .before pc => left pc + if p.keepGoing && pc.isFirst then left .clear else 0
  | .test => home + if p.keepGoing then left .clear else 0
  | .ended _ => 0

/-- The process does not enter its loop a second time. -/
def LastPass (prog : Program) (p : Process) : Prop := p.keepGoing = false ∨ prog.oneShotMode = true

theorem LastPass.step (h : LastPass prog p) (hstep : p.exec prog event = some p') :
    LastPass prog p' := by
  rcases h with hgoing | hmode
  · left
    cases exec_happens hstep with
    | call _ _ _ _ _ _ hgoing' => rw [hgoing', hgoing, Bool.false_and]
    | enter _ hgoing' _ _ _ =>
        rw [hgoing] at hgoing'
        cases hgoing'
    | leave _ _ _ hgoing' _ => exact hgoing'
    | killed _ _ hgoing' _ => exact hgoing'.trans hgoing
    | hangup _ _ hgoing' _ => exact hgoing'.trans hgoing
    | interrupt _ _ hgoing' _ => exact hgoing'
  · exact .inr hmode

theorem rank_ended {status : Option ℕ} (h : p.stage = .ended status) : rank left home p = 0 := by
  unfold rank
  rw [h]

/-- A signal that leaves the process where it is. -/
theorem rank_mono (hstage : p'.stage = p.stage) (hgoing : p'.keepGoing = true → p.keepGoing = true) :
    rank left home p' ≤ rank left home p := by
  unfold rank
  rw [hstage]
  cases hp : p'.keepGoing with
  | true => rw [hgoing hp]
  | false =>
      split
      · simp
      · simp
      · exact Nat.le_refl _

theorem rank_step (hbounds : Main.Bounds cost left home) (hlast : LastPass prog p)
    (hstep : p.exec prog event = some p') :
    rank left home p' + (if cost event then 1 else 0) ≤ rank left home p := by
  cases exec_happens hstep with
  | @call op pc pc' hstage hop hmain hstage' hgoing =>
      have hcall := hbounds.call p.s pc op pc' hop hmain.1
      have hstill : p'.keepGoing = true → p.keepGoing = true := by
        rw [hgoing]
        exact fun h => (Bool.and_eq_true_iff.mp h).1
      unfold rank
      rw [hstage]
      by_cases hclear : pc' = .clear
      · subst hclear
        rw [hstage']
        rw [if_pos rfl] at hcall
        rcases Main.next_clear hop hmain.1 with ⟨rfl, -⟩ | ⟨rfl, hends⟩
        · cases hp : p'.keepGoing with
          | true => simp [stageAt, hstill hp, Main.Pc.isFirst] at hcall ⊢; omega
          | false => simp [stageAt] at hcall ⊢; omega
        · -- the loop is left in one-shot mode
          have hoff : p'.keepGoing = false := by
            rcases hlast with hgone | hmode
            · rw [hgoing, hgone, Bool.false_and]
            · rw [hgoing, hends, hmode]
              simp
          simp [stageAt, hoff, Main.Pc.isFirst] at hcall ⊢
          omega
      · have hbefore : p'.stage = .before pc' := by
          rw [hstage']
          cases pc' <;> first | rfl | exact absurd rfl hclear
        rw [hbefore]
        rw [if_neg hclear] at hcall
        by_cases hfirst : (p'.keepGoing && pc'.isFirst) = true
        · obtain ⟨hp, hpc⟩ := Bool.and_eq_true_iff.mp hfirst
          have hold := Main.next_isFirst hop hmain.1 hpc
          simp only [hfirst, hstill hp, hold, Bool.and_self, if_true]
          omega
        · dsimp only
          rw [if_neg hfirst]
          omega
  | enter hstage hgoing hstage' hgoing' _ =>
      have htest := hbounds.test
      unfold rank
      rw [hstage, hstage', hgoing, hgoing']
      simp [Main.Pc.isFirst]
      omega
  | leave hstage hgoing hstage' _ _ =>
      have htest := hbounds.test
      rw [rank_ended hstage']
      unfold rank
      rw [hstage]
      dsimp only
      omega
  | killed _ hstage' _ _ =>
      rw [rank_ended hstage', hbounds.hangup]
      simp
  | hangup _ hstage' hgoing' _ =>
      rw [hbounds.hangup]
      exact rank_mono hstage' fun h => hgoing' ▸ h
  | interrupt _ hstage' hgoing' _ =>
      rw [hbounds.interrupt]
      refine rank_mono hstage' fun h => ?_
      rw [hgoing'] at h
      cases h

/-- A run that does not enter the loop again costs no more than was left. -/
theorem countP_le_rank (hbounds : Main.Bounds cost left home) (hlast : LastPass prog p)
    (hrun : events.foldlM (exec prog) p = some p') : events.countP cost ≤ rank left home p := by
  have hcount := countP_le_potential (I := LastPass prog) (rank left home) cost (fun _ => false) 0
    (fun _ _ _ hI hstep => hI.step hstep)
    (fun _ _ _ _ hI hstep => rank_step hbounds hI hstep) hlast hrun
  omega

/-! ## After `SIGINT` -/

/-- `main` can go on with this step, unless a NULL pointer is in the way. -/
def Due (p : Process) : Event → Prop
  | .call op => ∃ pc, p.stage = .before pc ∧ op.isHandler = false ∧ (Main.next p.s pc op).isSome
  | .test => p.stage = .test
  | _ => False

/-- `main` is nowhere at a loss. -/
theorem due_of_not_ended (hstage : ∀ status, p.stage ≠ .ended status) :
    ∃ event, event.advances = true ∧ p.Due event := by
  have hcall (pc : Main.Pc) (op : Op) (hpc : p.stage = .before pc) (hop : op.isHandler = false)
      (hnext : (Main.next p.s pc op).isSome) : ∃ event, event.advances = true ∧ p.Due event :=
    ⟨.call op, rfl, pc, hpc, hop, hnext⟩
  cases hp : p.stage with
  | ended status => exact absurd hp (hstage status)
  | test => exact ⟨.test, rfl, hp⟩
  | before pc =>
      cases pc with
      | firstInterrupts | interrupts | rescanInterrupts | rescanInterrupts2 =>
          exact hcall _ (.parseProcInterrupts none) hp rfl rfl
      | firstStat | stat | rescanStat | rescanStat2 =>
          exact hcall _ (.parseProcStat none) hp rfl rfl
      | clear | rescanClear => exact hcall _ .clearWorkStats hp rfl rfl
      | testRescan =>
          by_cases hneed : p.s.needRescan = true
          · exact hcall _ (.rescan {} {}) hp rfl (by simp [Main.next, hneed])
          · by_cases hcycle : p.s.cycleCount = 0
            · exact hcall _ (.calculatePlacement id) hp rfl (by simp [Main.next, hneed, hcycle])
            · exact hcall _ (.updateMigrationStatus id) hp rfl
                (by simp [Main.next, hneed, hcycle])
      | testCycle =>
          by_cases hcycle : p.s.cycleCount = 0
          · exact hcall _ (.calculatePlacement id) hp rfl (by simp [Main.next, hcycle])
          · exact hcall _ (.updateMigrationStatus id) hp rfl (by simp [Main.next, hcycle])
      | place => exact hcall _ (.calculatePlacement id) hp rfl rfl
      | activate => exact hcall _ (.activateMappings fun _ => ⟨none, false⟩) hp rfl rfl
      | count => exact hcall _ .nextCycle hp rfl rfl

theorem rank_steps_le (hgoing : p.keepGoing = false) : rank Main.Pc.steps 1 p ≤ 14 := by
  unfold rank
  rw [hgoing]
  split
  · rename_i pc _
    cases pc <;> decide
  · decide
  · decide

theorem rank_placements_le (hgoing : p.keepGoing = false) :
    rank Main.Pc.placements 0 p ≤ 1 := by
  unfold rank
  rw [hgoing]
  split
  · rename_i pc _
    cases pc <;> decide
  · decide
  · decide

/-- After `SIGINT` the process makes at most 14 steps, with at most one placement among
them, whichever signals follow; and before it has ended there is always a next step. -/
theorem interrupt_ends {first : Process} (hint : first.exec prog .interrupt = some p)
    (hrun : events.foldlM (exec prog) p = some p') :
    events.countP Event.advances ≤ 14 ∧ events.countP Event.isPlacement ≤ 1 ∧
      ((∀ status, p'.stage ≠ .ended status) →
        ∃ event, event.advances = true ∧ p'.Due event) := by
  have hgoing : p.keepGoing = false := by
    cases exec_happens hint with
    | interrupt _ _ hgoing _ => exact hgoing
  have hsteps := countP_le_rank Main.bounds_advances (.inl hgoing) hrun
  have hplacements := countP_le_rank Main.bounds_isPlacement (.inl hgoing) hrun
  exact ⟨hsteps.trans (rank_steps_le hgoing), hplacements.trans (rank_placements_le hgoing),
    due_of_not_ended⟩

/-- The sample machine is told to stop before it enters the loop. -/
theorem interrupt_ends_launched :
    (Sample.pass.take 3).countP Event.advances ≤ 14 ∧
      (Sample.pass.take 3).countP Event.isPlacement ≤ 1 := by
  let p : Process := { Sample.launched with keepGoing := false }
  have hsome : ((Sample.pass.take 3).foldlM (exec Sample.once) p).isSome = true := by
    decide +kernel
  obtain ⟨last, hrun⟩ := Option.isSome_iff_exists.mp hsome
  have hint : Sample.launched.exec Sample.once .interrupt = some p := by decide +kernel
  have hends := interrupt_ends hint hrun
  exact ⟨hends.1, hends.2.1⟩

end Process

/-! ## One-shot mode -/

/-- `activate_mappings` writes the affinity of an IRQ once. -/
theorem State.activateMappings_nodup {cfg : Config} {s : State} (howned : s.Owned)
    (hnone : s.writes = []) (smpAffinity : ℤ → SmpAffinity) :
    ((s.activateMappings cfg smpAffinity).writes.map Prod.fst).Nodup := by
  have hirq (i : ℕ) (irq : ℤ)
      (h : irq ∈ (s.written cfg smpAffinity (s.info i)).toList.map Prod.fst) :
      irq = (s.info i).irq := by
    obtain ⟨write, hwrite, rfl⟩ := List.mem_map.mp h
    exact (written_eq_some.mp (Option.mem_toList.mp hwrite)).2.2.1
  rw [activateMappings_writes, hnone, List.nil_append, List.map_flatMap, List.nodup_flatMap]
  refine ⟨fun i _ => ?_, ?_⟩
  · cases s.written cfg smpAffinity (s.info i) <;> simp
  · refine List.nodup_range.pairwise_of_forall_ne fun i hi j hj hne => ?_
    intro irq hmem hmem'
    have hsame : (s.info i).irq = (s.info j).irq := (hirq i irq hmem).symm.trans (hirq j irq hmem')
    exact hne (eq_of_irq_eq howned.unique (List.mem_range.mp hi) (List.mem_range.mp hj) hsame)

namespace Process

variable {prog : Program} {env : Environment} {p p' : Process} {event : Event}
  {events : List Event}

/-- The affinities have not been written yet. -/
def unspent (p : Process) : Bool :=
  match p.stage with
  | .before .count => false
  | .before _ => true
  | .test => p.keepGoing
  | .ended _ => false

/-- A process in one-shot mode. -/
structure Sparing (p : Process) : Prop where
  nodup : (p.s.writes.map Prod.fst).Nodup
  fresh : p.unspent = true → p.s.writes = [] ∧ p.s.cycleCount = 0

theorem sparing_of_none (hwrites : p.s.writes = []) (hcycle : p.s.cycleCount = 0) : Sparing p where
  nodup := by rw [hwrites]; exact List.nodup_nil
  fresh _ := ⟨hwrites, hcycle⟩

/-- Nothing is written, and the process is as far as it was or further. -/
theorem Sparing.of_eq (h : Sparing p) (hunspent : p'.unspent = true → p.unspent = true)
    (hwrites : p'.s.writes = p.s.writes) (hcycle : p'.s.cycleCount = p.s.cycleCount) :
    Sparing p' where
  nodup := by rw [hwrites]; exact h.nodup
  fresh hfresh := by
    obtain ⟨hnone, hzero⟩ := h.fresh (hunspent hfresh)
    exact ⟨hwrites.trans hnone, hcycle.trans hzero⟩

theorem unspent_congr (hstage : p'.stage = p.stage) (hgoing : p'.keepGoing = true →
    p.keepGoing = true) (h : p'.unspent = true) : p.unspent = true := by
  unfold unspent at h ⊢
  rw [hstage] at h
  split at h <;> simp_all

theorem Sparing.call {op : Op} {pc pc' : Main.Pc} (h : Sparing p)
    (hreach : Reachable prog env p) (hmode : prog.oneShotMode = true) (hstage : p.stage = .before pc)
    (hop : op.isHandler = false) (hmain : Main.Step prog.cfg (pc, p.s) op (pc', p'.s))
    (hstage' : p'.stage = stageAt pc')
    (hgoing : p'.keepGoing = (p.keepGoing && !(op.endsCycle && prog.oneShotMode))) :
    op.isMigration = false ∧ Sparing p' := by
  obtain ⟨hnext, hrun⟩ := hmain
  have howned : p.s.Owned := by
    have hpc : Main.Reachable prog.cfg (pc, p.s) := hreach.main pc (by rw [hstage]; rfl)
    exact reachable_owned (Main.Reachable.ops hpc)
  by_cases hcount : pc = .count
  · -- the pass is over, and so is the process
    subst hcount
    have hends : op = .nextCycle ∧ pc' = .clear := by
      cases op <;> simp_all [Main.next, Op.isHandler]
    obtain ⟨rfl, rfl⟩ := hends
    have hoff : p'.keepGoing = false := by
      rw [hgoing, hmode]
      simp [Op.endsCycle]
    have hwrites := exec_writes_eq howned (by simp) hrun
    refine ⟨rfl, ?_, fun hfresh => ?_⟩
    · rw [hwrites]
      exact h.nodup
    · unfold unspent at hfresh
      rw [hstage'] at hfresh
      simp [stageAt, hoff] at hfresh
  · have hfresh : p.unspent = true := by
      unfold unspent
      rw [hstage]
      cases pc <;> simp_all
    obtain ⟨hnone, hzero⟩ := h.fresh hfresh
    refine ⟨?_, ?_⟩
    · cases op with
      | updateMigrationStatus addr =>
          cases pc <;> simp [Main.next, hzero] at hnext
      | _ => rfl
    · by_cases hactivate : ∃ smpAffinity, op = .activateMappings smpAffinity
      · obtain ⟨smpAffinity, rfl⟩ := hactivate
        have hpc' : pc' = .count := by
          cases pc <;> simp_all [Main.next]
        subst hpc'
        refine ⟨?_, fun hfresh => ?_⟩
        · have hs' : p.s.activateMappings prog.cfg smpAffinity = p'.s := Option.some.inj hrun
          rw [← hs']
          exact State.activateMappings_nodup howned hnone smpAffinity
        · unfold unspent at hfresh
          rw [hstage'] at hfresh
          simp [stageAt] at hfresh
      · refine sparing_of_none ?_ ?_
        · rw [exec_writes_eq howned (fun a heq => hactivate ⟨a, heq⟩) hrun, hnone]
        · by_cases hrescan : ∃ sysfs stack, op = .rescan sysfs stack
          · obtain ⟨sysfs, stack, rfl⟩ := hrescan
            exact exec_rescan_cycleCount hrun
          · have hnot : op ≠ .nextCycle := by
              rintro rfl
              cases pc <;> simp_all [Main.next]
            rw [exec_cycleCount (fun a b heq => hrescan ⟨a, b, heq⟩) hnot hrun, hzero]

theorem Sparing.step (h : Sparing p) (hreach : Reachable prog env p)
    (hmode : prog.oneShotMode = true) (hstep : p.exec prog event = some p') :
    event.isMigration = false ∧ Sparing p' := by
  cases exec_happens hstep with
  | call pc pc' hstage hop hmain hstage' hgoing =>
      exact h.call hreach hmode hstage hop hmain hstage' hgoing
  | enter hstage hgoing hstage' _ hs =>
      refine ⟨rfl, h.of_eq (fun _ => ?_) (by rw [hs]) (by rw [hs])⟩
      unfold unspent
      rw [hstage]
      exact hgoing
  | leave _ _ hstage' _ hs =>
      refine ⟨rfl, h.of_eq (fun hfresh => ?_) (by rw [hs]; rfl) (by rw [hs]; rfl)⟩
      unfold unspent at hfresh
      rw [hstage'] at hfresh
      cases hfresh
  | killed _ hstage' _ hs =>
      refine ⟨rfl, h.of_eq (fun hfresh => ?_) (by rw [hs]) (by rw [hs])⟩
      unfold unspent at hfresh
      rw [hstage'] at hfresh
      cases hfresh
  | hangup _ hstage' hgoing hs =>
      exact ⟨rfl, h.of_eq (unspent_congr hstage' fun hp => hgoing ▸ hp) (writes_forceRescan hs)
        (exec_cycleCount (by simp) (by simp) hs)⟩
  | interrupt _ hstage' hgoing hs =>
      refine ⟨rfl, h.of_eq (unspent_congr hstage' fun hp => ?_) (by rw [hs]) (by rw [hs])⟩
      rw [hgoing] at hp
      cases hp

theorem sparing_launch (prog : Program) (env : Environment) (sysfs : Sysfs) (stack : Stack) :
    Sparing (launch prog env sysfs stack) := by
  rcases launch_cases prog env sysfs stack with ⟨status, s, hs, heq⟩ | heq
  · rw [heq]
    refine ⟨?_, fun hfresh => ?_⟩
    · rw [hs]
      exact List.nodup_nil
    · cases hfresh
  · rw [heq]
    exact sparing_of_none (start_writes _ _ _) (State.rebuild_cycleCount _ _ _ _)

/-- In one-shot mode the process ends after at most 17 steps, whichever signals arrive and
however often it has to scan again; it places the IRQs at most once, takes none away again,
and writes no affinity twice. -/
theorem one_shot (env : Environment) (sysfs : Sysfs) (stack : Stack)
    (hmode : prog.oneShotMode = true)
    (hrun : events.foldlM (exec prog) (launch prog env sysfs stack) = some p) :
    events.countP Event.advances ≤ 17 ∧ events.countP Event.isPlacement ≤ 1 ∧
      events.countP Event.isMigration = 0 ∧ (p.s.writes.map Prod.fst).Nodup ∧
      ((∀ status, p.stage ≠ .ended status) →
        ∃ event, event.advances = true ∧ p.Due event) := by
  have hkept := countP_le_potential
    (I := fun p => Reachable prog env p ∧ Sparing p) (fun _ => 0) Event.isMigration
    (fun _ => false) 0
    (fun _ _ _ hI hstep => ⟨hI.1.next hstep, (hI.2.step hI.1 hmode hstep).2⟩)
    (fun _ _ _ _ hI hstep => by simp [(hI.2.step hI.1 hmode hstep).1])
    ⟨.start ⟨sysfs, stack, rfl⟩, sparing_launch prog env sysfs stack⟩ hrun
  have hend := run_invariant (I := fun p => Reachable prog env p ∧ Sparing p)
    (fun _ _ _ _ hI hstep => ⟨hI.1.next hstep, (hI.2.step hI.1 hmode hstep).2⟩)
    ⟨.start ⟨sysfs, stack, rfl⟩, sparing_launch prog env sysfs stack⟩ hrun
  have hsteps := countP_le_rank Main.bounds_advances (.inr hmode) hrun
  have hplacements := countP_le_rank Main.bounds_isPlacement (.inr hmode) hrun
  have hfirst : rank Main.Pc.steps 1 (launch prog env sysfs stack) ≤ 17 ∧
      rank Main.Pc.placements 0 (launch prog env sysfs stack) ≤ 1 := by
    rcases launch_cases prog env sysfs stack with ⟨status, s, -, heq⟩ | heq
    · rw [heq]
      exact ⟨by simp [rank], by simp [rank]⟩
    · rw [heq]
      exact ⟨by simp [rank, Main.Pc.steps, Main.Pc.isFirst],
        by simp [rank, Main.Pc.placements, Main.Pc.isFirst]⟩
  exact ⟨hsteps.trans hfirst.1, hplacements.trans hfirst.2, by omega, hend.2.nodup,
    due_of_not_ended⟩

theorem one_shot_passed : (Sample.passed.s.writes.map Prod.fst).Nodup :=
  (one_shot Sample.environment Sample.machine {} rfl Sample.pass_run).2.2.2.1

end Process

/-! ## Requests to scan again -/

namespace Main

/-- The most calls that `main` can make in front of a rescan it is asked for. -/
def Pc.untilRescan : Pc → ℕ
  | .rescanInterrupts => 12
  | .rescanStat => 11
  | .rescanClear => 10
  | .rescanInterrupts2 => 9
  | .rescanStat2 => 8
  | .testCycle => 7
  | .place => 6
  | .activate => 5
  | .firstInterrupts => 5
  | .count => 4
  | .firstStat => 4
  | .clear => 3
  | .interrupts => 2
  | .stat => 1
  | .testRescan => 0

/-- How often it can call `calculate_placement` in front of it. -/
def Pc.placementsUntilRescan : Pc → ℕ
  | .rescanInterrupts | .rescanStat | .rescanClear | .rescanInterrupts2 | .rescanStat2 => 1
  | .testCycle | .place => 1
  | _ => 0

/-- `left` bounds what is to come before a rescan that `main` is asked for. -/
structure RescanBounds (cost : Event → Bool) (left : Pc → ℕ) : Prop where
  call : ∀ s pc op pc', s.needRescan = true → op.isHandler = false → op.isRescan = false →
    next s pc op = some pc' → left pc' + (if cost (.call op) then 1 else 0) ≤ left pc
  test : cost .test = false
  hangup : cost .hangup = false
  interrupt : cost .interrupt = false

theorem rescanBounds_isCall : RescanBounds Event.isCall Pc.untilRescan where
  call s pc op pc' hneed hop hrescan hnext := by
    fun_cases next s pc op <;>
      simp_all [next, Pc.untilRescan, Event.isCall, Op.isHandler, Op.isRescan]
    all_goals (subst hnext; simp)
  test := rfl
  hangup := rfl
  interrupt := rfl

theorem rescanBounds_isPlacement : RescanBounds Event.isPlacement Pc.placementsUntilRescan where
  call s pc op pc' hneed hop hrescan hnext := by
    fun_cases next s pc op <;>
      simp_all [next, Pc.placementsUntilRescan, Event.isPlacement, Op.isPlacement, Op.isHandler,
        Op.isRescan]
    all_goals (subst hnext; simp)
  test := rfl
  hangup := rfl
  interrupt := rfl

end Main

namespace Process

variable {prog : Program} {p p' : Process} {event : Event} {events : List Event}
  {cost : Event → Bool} {left : Main.Pc → ℕ}

/-- What is still to come in front of the rescan. -/
def wait (left : Main.Pc → ℕ) (p : Process) : ℕ :=
  match p.stage with
  | .before pc => left pc
  | .test => left .clear
  | .ended _ => 0

theorem wait_stageAt {pc : Main.Pc} (h : p.stage = stageAt pc) : wait left p = left pc := by
  unfold wait
  rw [h]
  cases pc <;> rfl

theorem needRescan_step (hneed : p.s.needRescan = true) (hevent : event.isRescan = false)
    (hstep : p.exec prog event = some p') : p'.s.needRescan = true := by
  cases exec_happens hstep with
  | call _ _ _ _ hmain _ _ =>
      refine exec_needRescan (fun sysfs stack heq => ?_) hmain.2 hneed
      rw [heq] at hevent
      cases hevent
  | enter _ _ _ _ hs => exact hs ▸ hneed
  | leave _ _ _ _ hs => rw [hs]; exact hneed
  | killed _ _ _ hs => exact hs ▸ hneed
  | hangup _ _ _ hs => exact exec_needRescan (by simp) hs hneed
  | interrupt _ _ _ hs => exact hs ▸ hneed

theorem wait_step (hbounds : Main.RescanBounds cost left) (hneed : p.s.needRescan = true)
    (hevent : event.isRescan = false) (hstep : p.exec prog event = some p') :
    wait left p' + (if cost event then 1 else 0) ≤ wait left p := by
  have hsame : ∀ {q : Process}, q.stage = p.stage → wait left q ≤ wait left p := by
    intro q hq
    unfold wait
    rw [hq]
  cases exec_happens hstep with
  | @call op pc pc' hstage hop hmain hstage' _ =>
      have hcall := hbounds.call p.s pc op pc' hneed hop hevent hmain.1
      have hwait : wait left p = left pc := by
        unfold wait
        rw [hstage]
      rw [wait_stageAt hstage', hwait]
      exact hcall
  | enter hstage _ hstage' _ _ =>
      have hwait : wait left p' = wait left p := by
        unfold wait
        rw [hstage, hstage']
      rw [hwait, hbounds.test]
      exact Nat.le_refl _
  | leave _ _ hstage' _ _ =>
      have hwait : wait left p' = 0 := by
        unfold wait
        rw [hstage']
      rw [hwait, hbounds.test]
      simp
  | killed _ hstage' _ _ =>
      have hwait : wait left p' = 0 := by
        unfold wait
        rw [hstage']
      rw [hwait, hbounds.hangup]
      simp
  | hangup _ hstage' _ _ =>
      rw [hbounds.hangup]
      exact hsame hstage'
  | interrupt _ hstage' _ _ =>
      rw [hbounds.interrupt]
      exact hsame hstage'

/-- Without a rescan, a run in which one is due costs no more than was left. -/
theorem countP_le_wait (hbounds : Main.RescanBounds cost left) (hneed : p.s.needRescan = true)
    (hnone : ∀ event ∈ events, event.isRescan = false)
    (hrun : events.foldlM (exec prog) p = some p') : events.countP cost ≤ wait left p := by
  induction events generalizing p with
  | nil => simp
  | cons event rest ih =>
      rw [List.foldlM_cons] at hrun
      obtain ⟨mid, hmid, hrest⟩ := Option.bind_eq_some_iff.mp hrun
      have hevent := hnone event List.mem_cons_self
      have hhead := wait_step hbounds hneed hevent hmid
      have htail := ih (needRescan_step hneed hevent hmid)
        (fun e he => hnone e (List.mem_cons_of_mem _ he)) hrest
      rw [List.countP_cons]
      omega

theorem wait_untilRescan_le : wait Main.Pc.untilRescan p ≤ 12 := by
  unfold wait
  split
  · rename_i pc _
    cases pc <;> decide
  · decide
  · decide

theorem wait_placementsUntilRescan_le : wait Main.Pc.placementsUntilRescan p ≤ 1 := by
  unfold wait
  split
  · rename_i pc _
    cases pc <;> decide
  · decide
  · decide

theorem hangup_before_handler (hnot : p.stage.hangupHandled = false)
    (hhup : p.exec prog .hangup = some p') : p' = { p with stage := .ended none } := by
  change p.hangup = some p' at hhup
  unfold hangup at hhup
  split at hhup
  · cases hhup
  · exact (Option.some.inj hhup).symm
  · exact (Option.some.inj hhup).symm
  · rename_i _ hinterrupts hstat
    unfold Stage.hangupHandled at hnot
    split at hnot
    · exact absurd ‹_› hinterrupts
    · exact absurd ‹_› hstat
    · cases hnot

theorem hangup_in_first_cycle (hhandled : p.stage.hangupHandled = true)
    (hzero : p.s.cycleCount = 0) (hhup : p.exec prog .hangup = some p') : p' = p := by
  change p.hangup = some p' at hhup
  unfold hangup at hhup
  split at hhup
  · cases hhup
  · rename_i hstage
    rw [hstage] at hhandled
    cases hhandled
  · rename_i hstage
    rw [hstage] at hhandled
    cases hhandled
  · rw [if_neg (not_not.mpr hzero)] at hhup
    exact (Option.some.inj hhup).symm

/-- Nothing happens to a process that is gone. -/
theorem eq_nil_of_ended {status : Option ℕ} (hstage : p.stage = .ended status)
    (hrun : events.foldlM (exec prog) p = some p') : events = [] := by
  cases events with
  | nil => rfl
  | cons event rest =>
      rw [List.foldlM_cons] at hrun
      obtain ⟨mid, hmid, -⟩ := Option.bind_eq_some_iff.mp hrun
      cases exec_happens hmid <;> simp_all

/-- `SIGHUP` ends the process as long as its handler is not installed, and is ignored then
while `cycle_count` is zero.  From then on the tree is built again after at most 12 calls,
with at most one placement among them, whichever signals follow. -/
theorem hangup_served (hhup : p.exec prog .hangup = some p') :
    (p.stage.hangupHandled = false → p' = { p with stage := .ended none }) ∧
    (p.stage.hangupHandled = true → p.s.cycleCount = 0 → p' = p) ∧
    (p.s.cycleCount ≠ 0 → ∀ (events : List Event) (last : Process),
      (∀ event ∈ events, event.isRescan = false) → events.foldlM (exec prog) p' = some last →
      events.countP Event.isCall ≤ 12 ∧ events.countP Event.isPlacement ≤ 1) := by
  refine ⟨fun hnot => hangup_before_handler hnot hhup,
    fun hhandled hzero => hangup_in_first_cycle hhandled hzero hhup,
    fun hcycle events last hnone hrun => ?_⟩
  cases exec_happens hhup with
  | killed _ hstage' _ _ =>
      obtain rfl := eq_nil_of_ended hstage' hrun
      exact ⟨by simp, by simp⟩
  | hangup _ _ _ hs =>
      have hs' : (if p.s.cycleCount ≠ 0 then { p.s with needRescan := true } else p.s) = p'.s :=
        Option.some.inj hs
      have hneed : p'.s.needRescan = true := by rw [← hs', if_pos hcycle]
      exact ⟨(countP_le_wait Main.rescanBounds_isCall hneed hnone hrun).trans
          wait_untilRescan_le,
        (countP_le_wait Main.rescanBounds_isPlacement hneed hnone hrun).trans
          wait_placementsUntilRescan_le⟩

end Process

namespace Sample

/-- A process that has been through its loop once gets a `SIGHUP` in the second pass. -/
def asked : Process := { stage := .before .place, keepGoing := true, s := { cycleCount := 1 } }

/-- The rest of that pass, and the next one up to the test. -/
def rest : List Event :=
  [.call (.calculatePlacement id), .call (.activateMappings fun _ => ⟨none, false⟩),
    .call .nextCycle, .hangup, .test, .call .clearWorkStats, .call (.parseProcInterrupts none),
    .call (.parseProcStat none)]

def daemon : Program := { once with oneShotMode := false }

end Sample

theorem Process.hangup_served_asked :
    Sample.rest.countP Event.isCall ≤ 12 ∧ Sample.rest.countP Event.isPlacement ≤ 1 := by
  let p : Process := { Sample.asked with s := { Sample.asked.s with needRescan := true } }
  have hsome : (Sample.rest.foldlM (exec Sample.daemon) p).isSome = true := by decide +kernel
  obtain ⟨last, hrun⟩ := Option.isSome_iff_exists.mp hsome
  have hhup : Sample.asked.exec Sample.daemon .hangup = some p := by decide +kernel
  exact (hangup_served hhup).2.2 (by decide) Sample.rest last (by decide) hrun

end CodeAnalyze.Irqbalance
