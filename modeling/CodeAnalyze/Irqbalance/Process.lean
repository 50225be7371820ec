import CodeAnalyze.Irqbalance.Bans
import CodeAnalyze.Irqbalance.CommandLine
import CodeAnalyze.Irqbalance.MaskText
import CodeAnalyze.Irqbalance.Sample

/-!
# The process

`main` from its command line to its end.  Between two calls a signal may arrive, and
`while (keep_going)` is a step of its own: `SIGINT` may come before it and after it.
-/

namespace CodeAnalyze.Irqbalance

open Lib

/-! ## Before the loop -/

/-- What `main` finds when it is started. -/
structure Environment where
  /-- `IRQBALANCE_BANNED_CPUS`. -/
  bannedCpus : Option Bytes := none
  /-- `IRQBALANCE_ONESHOT` is set. -/
  oneshot : Bool := false
  /-- `numa_available() > -1`. -/
  numaAvailable : Bool := false
  /-- `daemon` returns 0. -/
  daemon : Bool := true
  fpu : Fpu

/-- The set of CPUs in a `cpumask_t`. -/
def maskOf (maskp : Words) : Cpumask :=
  (BitVec.ofBoolListLE ((List.range nrCpus).map (testBit maskp))).setWidth nrCpus

/-- What `main` knows when it builds the tree. -/
structure Program where
  cfg : Config
  oneShotMode : Bool
  foregroundMode : Bool

/-- The globals that the options and the environment set. -/
def Settings.program (set : Settings) (env : Environment) : Program where
  cfg :=
    { bannedCpus :=
        match env.bannedCpus with
        | none => 0#(nrCpus)
        | some text => maskOf (smpAffinityMask (cstr text) fun _ => 0)
      numaAvail := env.numaAvailable
      powerThresh := set.powerThresh
      deepestCache := set.deepestCache.toNat
      globalHintPolicy := set.globalHintPolicy
      banirq := set.banirq
      polscript := set.polscript.isSome
      banscript := set.banscript.isSome
      fpu := env.fpu }
  oneShotMode := set.oneShotMode || env.oneshot
  foregroundMode := set.foregroundMode

/-- Where the process stands. -/
inductive Stage
  /-- In `main`, before a call. -/
  | before (pc : Main.Pc)
  /-- At `while (keep_going)`. -/
  | test
  /-- Gone, with this exit status, or by a signal. -/
  | ended (status : Option ℕ)
  deriving DecidableEq

/-- `main` has installed the handler of `SIGHUP`. -/
def Stage.hangupHandled : Stage → Bool
  | before .firstInterrupts => false
  | before .firstStat => false
  | _ => true

structure Process where
  stage : Stage
  keepGoing : Bool
  s : State
  deriving DecidableEq

/-- `main` up to the first `parse_proc_interrupts`. -/
def launch (prog : Program) (env : Environment) (sysfs : Sysfs) (stack : Stack) : Process :=
  let built := ({} : State).buildObjectTree prog.cfg sysfs stack
  if built.topo.coreCount < 2 then { stage := .ended (some 0), keepGoing := true, s := built }
  else if !prog.foregroundMode && !env.daemon then
    { stage := .ended (some 1), keepGoing := true, s := built }
  else { stage := .before .firstInterrupts, keepGoing := true, s := built.forceRebalance }

/-! ## The loop -/

/-- What happens to the process. -/
inductive Event
  | call (op : Op)
  /-- `while (keep_going)`, and the way out. -/
  | test
  /-- `SIGHUP`. -/
  | hangup
  /-- `SIGINT`. -/
  | interrupt

/-- The handler of `SIGHUP` is no call of `main`. -/
def Op.isHandler : Op → Bool
  | .forceRescan => true
  | _ => false

/-- `if (one_shot_mode) keep_going = 0;` stands in front of `cycle_count++`. -/
def Op.endsCycle : Op → Bool
  | .nextCycle => true
  | _ => false

namespace Process

/-- `main` comes to its loop from above and from below. -/
def stageAt : Main.Pc → Stage
  | .clear => .test
  | pc => .before pc

def call (prog : Program) (p : Process) (op : Op) : Option Process :=
  match p.stage with
  | .before pc =>
    if op.isHandler then none
    else
      (Main.exec prog.cfg (pc, p.s) op).map fun c =>
        { stage := stageAt c.1
          keepGoing := p.keepGoing && !(op.endsCycle && prog.oneShotMode)
          s := c.2 }
  | _ => none

def test (p : Process) : Option Process :=
  match p.stage with
  | .test =>
    some <|
      if p.keepGoing then { p with stage := .before .clear }
      else { p with stage := .ended (some 0), s := p.s.freeObjectTree }
  | _ => none

/-- A signal whose handler is not installed yet ends the process. -/
def hangup (p : Process) : Option Process :=
  match p.stage with
  | .ended _ => none
  | .before .firstInterrupts | .before .firstStat => some { p with stage := .ended none }
  | _ => some (if p.s.cycleCount ≠ 0 then { p with s := { p.s with needRescan := true } } else p)

def interrupt (p : Process) : Option Process :=
  match p.stage with
  | .ended _ => none
  | _ => some { p with keepGoing := false }

def exec (prog : Program) (p : Process) : Event → Option Process
  | .call op => p.call prog op
  | .test => p.test
  | .hangup => p.hangup
  | .interrupt => p.interrupt

variable {prog : Program} {env : Environment} {p p' : Process} {op : Op}

def Init (prog : Program) (env : Environment) (p : Process) : Prop :=
  ∃ sysfs stack, p = launch prog env sysfs stack

def Step (prog : Program) (p : Process) (event : Event) (p' : Process) : Prop :=
  p.exec prog event = some p'

abbrev Reachable (prog : Program) (env : Environment) : Process → Prop :=
  Lib.Reachable (Init prog env) (Step prog)

/-! ## What can happen -/

/-- The steps of a process. -/
inductive Happens (prog : Program) (p p' : Process) : Event → Prop
  | call {op : Op} (pc pc' : Main.Pc) : p.stage = .before pc → op.isHandler = false →
      Main.Step prog.cfg (pc, p.s) op (pc', p'.s) → p'.stage = stageAt pc' →
      p'.keepGoing = (p.keepGoing && !(op.endsCycle && prog.oneShotMode)) → Happens prog p p' (.call op)
  | enter : p.stage = .test → p.keepGoing = true → p'.stage = .before .clear →
      p'.keepGoing = true → p'.s = p.s → Happens prog p p' .test
  | leave : p.stage = .test → p.keepGoing = false → p'.stage = .ended (some 0) →
      p'.keepGoing = false → p'.s = p.s.freeObjectTree → Happens prog p p' .test
  | killed : p.stage = .before .firstInterrupts ∨ p.stage = .before .firstStat →
      p'.stage = .ended none → p'.keepGoing = p.keepGoing → p'.s = p.s →
      Happens prog p p' .hangup
  | hangup : (∀ status, p.stage ≠ .ended status) → p'.stage = p.stage →
      p'.keepGoing = p.keepGoing → Irqbalance.exec prog.cfg p.s .forceRescan = some p'.s →
      Happens prog p p' .hangup
  | interrupt : (∀ status, p.stage ≠ .ended status) → p'.stage = p.stage →
      p'.keepGoing = false → p'.s = p.s → Happens prog p p' .interrupt

theorem call_happens (h : p.call prog op = some p') : Happens prog p p' (.call op) := by
  unfold call at h
  cases hstage : p.stage with
  | before pc =>
      rw [hstage] at h
      dsimp only at h
      cases hop : op.isHandler with
      | true =>
          rw [hop] at h
          cases h
      | false =>
          rw [hop, if_neg Bool.false_ne_true] at h
          obtain ⟨⟨pc', s'⟩, hexec, hp'⟩ := Option.map_eq_some_iff.mp h
          cases hp'
          exact .call pc pc' hstage hop (Main.exec_eq_some.mp hexec) rfl rfl
  | test =>
      rw [hstage] at h
      cases h
  | ended status =>
      rw [hstage] at h
      cases h

theorem test_happens (h : p.test = some p') : Happens prog p p' .test := by
  unfold test at h
  split at h
  · rename_i hstage
    cases hgoing : p.keepGoing with
    | true =>
        rw [if_pos hgoing] at h
        cases h
        exact .enter hstage hgoing rfl hgoing rfl
    | false =>
        rw [if_neg (Bool.eq_false_iff.mp hgoing)] at h
        cases h
        exact .leave hstage hgoing rfl hgoing rfl
  · cases h

theorem hangup_happens (h : p.hangup = some p') : Happens prog p p' .hangup := by
  unfold hangup at h
  split at h
  · cases h
  · rename_i hstage
    cases h
    exact .killed (.inl hstage) rfl rfl rfl
  · rename_i hstage
    cases h
    exact .killed (.inr hstage) rfl rfl rfl
  · rename_i hended _ _
    cases h
    refine .hangup hended ?_ ?_ ?_
    all_goals (by_cases hcycle : p.s.cycleCount ≠ 0 <;> simp [hcycle, Irqbalance.exec])

theorem interrupt_happens (h : p.interrupt = some p') : Happens prog p p' .interrupt := by
  unfold interrupt at h
  split at h
  · cases h
  · rename_i hended
    cases h
    exact .interrupt hended rfl rfl rfl

theorem exec_happens {event : Event} (h : p.exec prog event = some p') :
    Happens prog p p' event := by
  cases event with
  | call op => exact call_happens h
  | test => exact test_happens h
  | hangup => exact hangup_happens h
  | interrupt => exact interrupt_happens h

end Process

/-! ## The process runs `main` -/

/-- Where `main` stands in a process. -/
def Stage.pc : Stage → Option Main.Pc
  | .before pc => some pc
  | .test => some .clear
  | .ended _ => none

theorem Process.pc_stageAt (pc : Main.Pc) : (stageAt pc).pc = some pc := by
  cases pc <;> rfl

theorem Main.next_forceRescan (s : State) (pc : Main.Pc) :
    Main.next s pc .forceRescan = some pc := by
  cases pc <;> rfl

namespace Process

variable {prog : Program} {env : Environment} {p p' : Process}

theorem launch_cases (prog : Program) (env : Environment) (sysfs : Sysfs) (stack : Stack) :
    (∃ status s, s.writes = [] ∧
      launch prog env sysfs stack = { stage := .ended status, keepGoing := true, s }) ∨
    launch prog env sysfs stack =
      { stage := .before .firstInterrupts, keepGoing := true, s := start prog.cfg sysfs stack } := by
  unfold launch
  dsimp only
  split
  · exact .inl ⟨_, _, rfl, rfl⟩
  · split
    · exact .inl ⟨_, _, rfl, rfl⟩
    · exact .inr rfl

/-- The states of a process are states of `main`. -/
theorem Reachable.main (h : Reachable prog env p) :
    ∀ pc, p.stage.pc = some pc → Main.Reachable prog.cfg (pc, p.s) := by
  refine Lib.Reachable.invariant_of
    (P := fun p => ∀ pc, p.stage.pc = some pc → Main.Reachable prog.cfg (pc, p.s)) ?_ ?_ h
  · rintro p ⟨sysfs, stack, rfl⟩ pc hpc
    rcases launch_cases prog env sysfs stack with ⟨status, s, -, heq⟩ | heq
    · rw [heq] at hpc
      cases hpc
    · rw [heq] at hpc ⊢
      cases hpc
      exact .start ⟨rfl, sysfs, stack, rfl⟩
  · intro p event p' ih hstep pc hpc
    cases exec_happens hstep with
    | call pc₀ pc' hstage _ hmain hstage' _ =>
        rw [hstage', pc_stageAt] at hpc
        cases hpc
        exact (ih pc₀ (by rw [hstage]; rfl)).next hmain
    | enter hstage _ hstage' _ hs =>
        rw [hstage'] at hpc
        cases hpc
        rw [hs]
        exact ih _ (by rw [hstage]; rfl)
    | leave _ _ hstage' _ _ =>
        rw [hstage'] at hpc
        cases hpc
    | killed _ hstage' _ _ =>
        rw [hstage'] at hpc
        cases hpc
    | hangup _ hstage' _ hs =>
        rw [hstage'] at hpc
        exact (ih pc hpc).next ⟨Main.next_forceRescan _ pc, hs⟩
    | interrupt _ hstage' _ hs =>
        rw [hs]
        exact ih pc (hstage' ▸ hpc)

/-- A signal writes nothing. -/
theorem writes_forceRescan {s s' : State}
    (h : Irqbalance.exec prog.cfg s .forceRescan = some s') : s'.writes = s.writes := by
  cases h
  split <;> rfl

/-- What holds of the writes of `main` holds of those of a process, also when it is gone. -/
theorem Reachable.writes {P : List (ℤ × Cpumask) → Prop} (hnil : P [])
    (hmain : ∀ s, Ops.Reachable prog.cfg s → P s.writes) (h : Reachable prog env p) :
    P p.s.writes := by
  induction h with
  | init hinit _ =>
      obtain ⟨sysfs, stack, rfl⟩ := hinit
      rcases launch_cases prog env sysfs stack with ⟨status, s, hs, heq⟩ | heq
      · rw [heq]
        exact hs ▸ hnil
      · rw [heq]
        exact hmain _ (.start ⟨sysfs, stack, rfl⟩)
  | step hq hstep _ ih =>
      cases exec_happens hstep with
      | call pc pc' hstage _ hmove _ _ =>
          have hpc : Main.Reachable prog.cfg (pc, _) := Reachable.main hq pc (by rw [hstage]; rfl)
          exact hmain _ (Main.Reachable.ops (hpc.next hmove))
      | enter _ _ _ _ hs => exact hs ▸ ih
      | leave _ _ _ _ hs => exact hs ▸ ih
      | killed _ _ _ hs => exact hs ▸ ih
      | hangup _ _ _ hs => exact writes_forceRescan hs ▸ ih
      | interrupt _ _ _ hs => exact hs ▸ ih

/-- An IRQ that is given to `--banirq` keeps its affinity, whatever the other options, the
environment, the system and the signals are. -/
theorem banirq_not_written {includeBanscript : Bool} {opts : List Opt} {set : Settings}
    {optarg : Bytes} {n : ℕ} (hparse : parseCommandLine includeBanscript opts = some set)
    (hopt : .banirq optarg ∈ opts) (harg : decimal optarg = some (n : ℤ)) (hn : n < 2 ^ 31)
    (h : Reachable (set.program env) env p) : ∀ write ∈ p.s.writes, write.1 ≠ n := by
  have hset : set = settingsOf opts := by
    rw [parseCommandLine_eq] at hparse
    split at hparse
    · exact (Option.some.inj hparse).symm
    · cases hparse
  have hban : (n : ℤ) ∈ (set.program env).cfg.banirq := by
    rw [hset]
    exact List.mem_filterMap.mpr ⟨_, hopt, banirqArg_decimal harg hn⟩
  refine h.writes (P := fun writes => ∀ write ∈ writes, write.1 ≠ n) (by simp) ?_
  intro s hs write hwrite heq
  exact reachable_writes_not_banirq hs write hwrite (heq ▸ hban)

end Process

namespace Sample

/-- Before the loop, once through it, and out of it. -/
def pass : List Event :=
  [.call (.parseProcInterrupts none), .call (.parseProcStat none), .test, .call .clearWorkStats,
    .call (.parseProcInterrupts none), .call (.parseProcStat none),
    .call (.calculatePlacement id),
    .call (.activateMappings fun _ => { current := some 3#(nrCpus), writable := true }),
    .call .nextCycle, .test]

/-- `--oneshot --foreground --banirq=11` -/
def options : List Opt := [.oneshot, .foreground, .banirq [49, 49]]

def environment : Environment := { fpu := fpu }

def once : Program := (settingsOf options).program environment

def launched : Process := launch once environment machine {}

def passed : Process := (pass.foldlM (Process.exec once) launched).getD launched

theorem pass_run : pass.foldlM (Process.exec once) launched = some passed := by
  have hsome : (pass.foldlM (Process.exec once) launched).isSome = true := by decide +kernel
  obtain ⟨p, hp⟩ := Option.isSome_iff_exists.mp hsome
  rw [passed, hp]
  rfl

theorem reachable_passed : Process.Reachable once environment passed := by
  have hlaunched : Process.Reachable once environment launched := .start ⟨machine, {}, rfl⟩
  exact hlaunched.of_run (fun _ _ _ hstep => hstep) pass_run

example : passed.s.writes.map Prod.fst = [12] ∧ passed.stage = .ended (some 0) := by
  decide +kernel

end Sample

theorem Process.banirq_not_written_passed :
    Sample.passed.s.writes.all (fun write => write.1 ≠ 11) = true := by
  have hparse : parseCommandLine false Sample.options = some (settingsOf Sample.options) := rfl
  have hopt : .banirq [49, 49] ∈ Sample.options := by decide
  have harg : decimal [49, 49] = some ((11 : ℕ) : ℤ) := by decide
  have hnever := banirq_not_written hparse hopt harg (by decide) Sample.reachable_passed
  exact List.all_eq_true.mpr fun write hwrite => decide_eq_true (hnever write hwrite)

end CodeAnalyze.Irqbalance
