import CodeAnalyze.Irqbalance.Reach
import CodeAnalyze.Irqbalance.Sample

/-!
# Banned CPUs in affinities

The masks of packages, cache domains and CPUs are made from unbanned CPUs.  The mask
of a NUMA node is its `cpumap` as it was read, and an IRQ that placement leaves on
the node is given that mask.
-/

namespace CodeAnalyze.Irqbalance

open Lib

variable {cfg : Config} {s s' : State}

/-! ## Masks -/

namespace State

/-- No CPU, cache domain or package has a banned CPU in its mask. -/
def MasksUnbanned (cfg : Config) (s : State) : Prop :=
  ∀ d, d.objType ≠ .node → cpusIntersects (s.obj d).mask cfg.bannedCpus = false

theorem MasksUnbanned.of_fixed (h : s.MasksUnbanned cfg) (hfixed : s'.fixed = s.fixed) :
    s'.MasksUnbanned cfg := by
  intro d hd
  rw [fixed_mask hfixed]
  exact h d hd

theorem Fresh.masksUnbanned (h : s.Fresh cfg) : s.MasksUnbanned cfg := by
  intro d hd
  have hmask : (s.obj d).mask &&& cfg.bannedCpus = 0#(nrCpus) := h.tree.mask d hd
  simp [cpusIntersects, cpusEmpty, hmask]

end State

theorem reachable_masksUnbanned (h : Ops.Reachable cfg s) : s.MasksUnbanned cfg :=
  reachable_fixed (fun _ => State.Fresh.masksUnbanned) (fun _ _ hfixed hmasks =>
    hmasks.of_fixed hfixed) h

theorem reachable_unbannedCpus (h : Ops.Reachable cfg s) :
    s.topo.unbannedCpus = ~~~cfg.bannedCpus :=
  reachable_fixed (fun _ => State.Fresh.unbannedCpus) (fun _ _ hfixed hunbanned =>
    (State.fixed_unbannedCpus hfixed).trans hunbanned) h

/-! ## What `activate_mapping` writes -/

namespace State

/-- The mask of the object, cut down to the hint where the policy says so. -/
def narrowed (info : IrqInfo) (mask : Cpumask) : Cpumask :=
  if info.hintPolicy = .subset && !cpusEmpty info.affinityHint then mask &&& info.affinityHint
  else mask

/-- The IRQ was left on a node with a banned CPU in its mask, and its file can be
brought up to date: it can be read and written and says something else. -/
def LeftOnNode (cfg : Config) (smpAffinity : ℤ → SmpAffinity) (s : State) (info : IrqInfo) :
    Prop :=
  info.moved = true ∧ ¬ (info.hintPolicy = .exact ∧ cpusEmpty info.affinityHint = false) ∧
    (smpAffinity info.irq).writable = true ∧
    ∃ d, info.assignedObj = some d ∧ d.objType = .node ∧
      cpusIntersects (narrowed info (s.obj d).mask) cfg.bannedCpus = true ∧
      (info.hintPolicy = .subset ∧ cpusEmpty info.affinityHint = false →
        cpusIntersects (narrowed info (s.obj d).mask) s.topo.unbannedCpus = true) ∧
      checkAffinity (smpAffinity info.irq) (narrowed info (s.obj d).mask) = false

/-- The write `activate_mapping` makes, if it makes one. -/
def written (cfg : Config) (smpAffinity : ℤ → SmpAffinity) (s : State) (info : IrqInfo) :
    Option (ℤ × Cpumask) :=
  if !info.moved then none
  else
    match s.appliedMask cfg info with
    | none => none
    | some appliedMask =>
      if checkAffinity (smpAffinity info.irq) appliedMask then none
      else if info.assignedObj.isNone then none
      else if !(smpAffinity info.irq).writable then none
      else some (info.irq, appliedMask)

/-- The run avoids banned CPUs so far. -/
def Avoids (cfg : Config) (s : State) : Prop :=
  ∀ write ∈ s.writes, cpusIntersects write.2 cfg.bannedCpus = false

theorem narrowed_avoids {banned mask : Cpumask} (info : IrqInfo)
    (h : cpusIntersects mask banned = false) : cpusIntersects (narrowed info mask) banned = false := by
  unfold narrowed
  split
  · rw [cpusIntersects_eq_false_iff] at h ⊢
    intro cpu hcpu
    rw [BitVec.getLsbD_and, Bool.and_eq_true] at hcpu
    exact h cpu hcpu.1
  · exact h

theorem activateMapping_writes (smpAffinity : ℤ → SmpAffinity) (s : State) (i : ℕ) :
    (s.activateMapping cfg smpAffinity i).writes =
      s.writes ++ (s.written cfg smpAffinity (s.info i)).toList := by
  unfold activateMapping written
  dsimp only
  cases (s.info i).moved with
  | false => simp
  | true =>
      cases s.appliedMask cfg (s.info i) with
      | none => simp
      | some mask =>
          dsimp only
          cases checkAffinity (smpAffinity (s.info i).irq) mask with
          | true => simp
          | false =>
              cases (s.info i).assignedObj with
              | none => simp
              | some d => cases (smpAffinity (s.info i).irq).writable <;> simp

theorem written_congr (smpAffinity : ℤ → SmpAffinity) (info : IrqInfo)
    (hfixed : s'.fixed = s.fixed) :
    s'.written cfg smpAffinity info = s.written cfg smpAffinity info := by
  unfold written
  rw [appliedMask_congr hfixed]

/-- Every entry is written as it was when `activate_mappings` began. -/
theorem activateMappings_writes (smpAffinity : ℤ → SmpAffinity) (s : State) :
    (s.activateMappings cfg smpAffinity).writes =
      s.writes ++ (List.range s.dbSize).flatMap fun i =>
        (s.written cfg smpAffinity (s.info i)).toList := by
  have hloop := foldl_rest (f := activateMapping cfg smpAffinity)
    (fun rest t => t.fixed = s.fixed ∧ rest.Nodup ∧ (∀ i ∈ rest, t.info i = s.info i) ∧
      t.writes ++ rest.flatMap (fun i => (s.written cfg smpAffinity (s.info i)).toList) =
        s.writes ++ (List.range s.dbSize).flatMap fun i =>
          (s.written cfg smpAffinity (s.info i)).toList)
    ?_ (l := List.range s.dbSize) (s := s) ⟨rfl, List.nodup_range, fun _ _ => rfl, rfl⟩
  · have hwrites := hloop.2.2.2
    rwa [List.flatMap_nil, List.append_nil] at hwrites
  · rintro i rest t ⟨hfixed, hnodup, hinfo, hwrites⟩
    rw [List.nodup_cons] at hnodup
    refine ⟨(activateMapping_fixed smpAffinity i).trans hfixed, hnodup.2, fun j hj => ?_, ?_⟩
    · have hji : j ≠ i := fun heq => hnodup.1 (heq ▸ hj)
      rw [activateMapping_info_of_ne smpAffinity hji]
      exact hinfo j (List.mem_cons_of_mem _ hj)
    · rw [activateMapping_writes, written_congr smpAffinity _ hfixed, hinfo i List.mem_cons_self,
        List.append_assoc]
      exact hwrites

/-- Under an exact hint policy the mask is the hint. -/
theorem appliedMask_exact {info : IrqInfo} {mask : Cpumask} (hexact : info.hintPolicy = .exact)
    (hhint : cpusEmpty info.affinityHint = false) (h : s.appliedMask cfg info = some mask) :
    cpusIntersects mask cfg.bannedCpus = false := by
  unfold appliedMask at h
  simp only [hexact, hhint, decide_true, Bool.not_false, Bool.and_self, if_true] at h
  split at h
  · cases h
  · rename_i hbanned
    cases h
    simpa using hbanned

/-- Otherwise it is the mask of the object, narrowed. -/
theorem appliedMask_of_not_exact {info : IrqInfo} {mask : Cpumask}
    (hexact : ¬ (info.hintPolicy = .exact ∧ cpusEmpty info.affinityHint = false)) :
    s.appliedMask cfg info = some mask ↔
      ∃ d, info.assignedObj = some d ∧ mask = narrowed info (s.obj d).mask ∧
        (info.hintPolicy = .subset ∧ cpusEmpty info.affinityHint = false →
          cpusIntersects mask s.topo.unbannedCpus = true) := by
  have hnot : (decide (info.hintPolicy = .exact) && !cpusEmpty info.affinityHint) = false := by
    simpa using hexact
  unfold appliedMask narrowed
  rw [hnot]
  simp only [Bool.false_eq_true, if_false]
  cases info.assignedObj with
  | none => simp
  | some d =>
      by_cases hsubset : info.hintPolicy = .subset ∧ cpusEmpty info.affinityHint = false
      · simp only [hsubset.1, hsubset.2, decide_true, Bool.not_false, Bool.and_self, if_true,
          Option.some.injEq, exists_eq_left', and_self, forall_const]
        constructor
        · intro h
          split at h
          · rename_i hgate
            cases h
            exact ⟨rfl, hgate⟩
          · cases h
        · rintro ⟨rfl, hgate⟩
          rw [if_pos hgate]
      · have hwide : (decide (info.hintPolicy = .subset) && !cpusEmpty info.affinityHint) =
            false := by
          simpa using hsubset
        rw [hwide]
        simp only [Bool.false_eq_true, if_false, Option.some.injEq, exists_eq_left']
        constructor
        · rintro rfl
          exact ⟨rfl, fun hand => absurd hand hsubset⟩
        · rintro ⟨rfl, -⟩
          rfl

theorem written_eq_some {smpAffinity : ℤ → SmpAffinity} {info : IrqInfo} {write : ℤ × Cpumask} :
    s.written cfg smpAffinity info = some write ↔
      info.moved = true ∧ s.appliedMask cfg info = some write.2 ∧ write.1 = info.irq ∧
        checkAffinity (smpAffinity info.irq) write.2 = false ∧ info.assignedObj.isNone = false ∧
        (smpAffinity info.irq).writable = true := by
  obtain ⟨irq, mask⟩ := write
  unfold written
  constructor
  · intro h
    split at h
    · cases h
    · rename_i hmoved
      split at h
      · cases h
      · rename_i applied happlied
        split at h
        · cases h
        · rename_i hcheck
          split at h
          · cases h
          · rename_i hassigned
            split at h
            · cases h
            · rename_i hwritable
              cases h
              exact ⟨by simpa using hmoved, happlied, rfl, by simpa using hcheck,
                Bool.eq_false_iff.mpr hassigned, by simpa using hwritable⟩
  · rintro ⟨hmoved, happlied, rfl, hcheck, hassigned, hwritable⟩
    simp only [hmoved, happlied, hcheck, hassigned, hwritable, Bool.not_true, Bool.false_eq_true,
      if_false]

/-- A mask with a banned CPU is only ever written for an IRQ on a node. -/
theorem written_iff (hmasks : s.MasksUnbanned cfg) (smpAffinity : ℤ → SmpAffinity)
    (info : IrqInfo) :
    (∃ write ∈ s.written cfg smpAffinity info, cpusIntersects write.2 cfg.bannedCpus = true) ↔
      s.LeftOnNode cfg smpAffinity info := by
  constructor
  · rintro ⟨write, hwrite, hbanned⟩
    obtain ⟨hmoved, hmask, -, hcheck, -, hwritable⟩ := written_eq_some.mp hwrite
    by_cases hexact : info.hintPolicy = .exact ∧ cpusEmpty info.affinityHint = false
    · rw [appliedMask_exact hexact.1 hexact.2 hmask] at hbanned
      cases hbanned
    · obtain ⟨d, hd, heq, hgate⟩ := (appliedMask_of_not_exact hexact).mp hmask
      rw [heq] at hbanned hgate hcheck
      refine ⟨hmoved, hexact, hwritable, d, hd, ?_, hbanned, hgate, hcheck⟩
      by_contra hnode
      have hclean := narrowed_avoids info (hmasks d hnode)
      rw [hclean] at hbanned
      cases hbanned
  · rintro ⟨hmoved, hexact, hwritable, d, hd, -, hbanned, hgate, hcheck⟩
    refine ⟨(info.irq, narrowed info (s.obj d).mask), written_eq_some.mpr ?_, hbanned⟩
    exact ⟨hmoved, (appliedMask_of_not_exact hexact).mpr ⟨d, hd, rfl, hgate⟩, rfl, hcheck,
      by simp [hd], hwritable⟩

end State

/-! ## Only `activate_mappings` writes -/

namespace State

theorem powersaveStep_writes {lb : LoadBalanceInfo} (howned : s.Owned)
    (h : s.powersaveStep cfg lb = some s') : s'.writes = s.writes := by
  unfold powersaveStep at h
  split at h
  · split at h
    · exact (enterPowersave_spec cfg howned h).1.writes_eq
    · split at h
      · cases h
        exact foldl_keeps writes (by intro d t; rfl) _ s
      · cases h
        rfl
  · cases h
    rfl

theorem updateMigrationStatus_writes {addr : ℕ → ℕ} (howned : s.Owned)
    (h : s.updateMigrationStatus cfg addr = some s') : s'.writes = s.writes := by
  obtain ⟨s₁, lb, s₂, -, hbefore, hpowersave, -, hafter⟩ := updateMigrationStatus_spec howned h
  calc s'.writes = s₂.writes := hafter.writes_eq
    _ = s₁.writes := powersaveStep_writes (howned.moves hbefore) hpowersave
    _ = s.writes := hbefore.writes_eq

end State

theorem exec_writes_eq {op : Op} (howned : s.Owned)
    (hop : ∀ smpAffinity, op ≠ .activateMappings smpAffinity) (hrun : exec cfg s op = some s') :
    s'.writes = s.writes := by
  cases op with
  | clearWorkStats =>
      cases hrun
      exact State.still_writes s.clearWorkStats_still
  | parseProcInterrupts file =>
      cases hrun
      exact State.still_writes (s.parseProcInterrupts_still file)
  | parseProcStat file =>
      cases hrun
      exact State.still_writes (State.parseProcStat_still cfg s file)
  | rescan sysfs stack =>
      obtain ⟨blank, -, hwrites, rfl⟩ := exec_rescan s hrun
      exact (State.rebuild_writes cfg sysfs stack blank).trans hwrites
  | updateMigrationStatus addr => exact State.updateMigrationStatus_writes howned hrun
  | calculatePlacement addr => exact (State.calculatePlacement_moves howned hrun).writes_eq
  | activateMappings smpAffinity => exact absurd rfl (hop smpAffinity)
  | nextCycle =>
      cases hrun
      rfl
  | forceRescan =>
      cases hrun
      split <;> rfl

/-! ## Runs -/

/-- The call is no `activate_mappings` that finds an IRQ left on a node with a banned
CPU. -/
def NodesAvoided (cfg : Config) (s : State) (op : Op) : Prop :=
  ∀ smpAffinity, op = .activateMappings smpAffinity →
    ∀ i < s.dbSize, ¬ s.LeftOnNode cfg smpAffinity (s.info i)

theorem exec_avoids_iff {op : Op} (h : Ops.Reachable cfg s) (hrun : exec cfg s op = some s') :
    s'.Avoids cfg ↔ s.Avoids cfg ∧ NodesAvoided cfg s op := by
  by_cases hop : ∃ smpAffinity, op = .activateMappings smpAffinity
  · obtain ⟨smpAffinity, rfl⟩ := hop
    cases hrun
    have hentry : ∀ i, (∀ write ∈ s.written cfg smpAffinity (s.info i),
        cpusIntersects write.2 cfg.bannedCpus = false) ↔
          ¬ s.LeftOnNode cfg smpAffinity (s.info i) := by
      intro i
      rw [← State.written_iff (reachable_masksUnbanned h)]
      push Not
      simp
    unfold State.Avoids NodesAvoided
    rw [State.activateMappings_writes]
    simp only [List.mem_append, or_imp, forall_and, List.mem_flatMap, List.mem_range,
      Option.mem_toList, Op.activateMappings.injEq, forall_eq', ← hentry]
    refine and_congr_right' ⟨fun hall i hi write hwrite => ?_, fun hall write => ?_⟩
    · exact hall write ⟨i, hi, hwrite⟩
    · rintro ⟨i, hi, hwrite⟩
      exact hall i hi write hwrite
  · have hnot : ∀ smpAffinity, op ≠ .activateMappings smpAffinity :=
      fun smpAffinity heq => hop ⟨smpAffinity, heq⟩
    have hwrites := exec_writes_eq (reachable_owned h) hnot hrun
    unfold State.Avoids
    rw [hwrites]
    exact (and_iff_left fun smpAffinity heq => absurd heq (hnot smpAffinity)).symm

/-- A run writes no mask with a banned CPU exactly if at none of its calls to
`activate_mappings` an IRQ waits that was left on a node with a banned CPU. -/
theorem affinities_avoid_iff (cfg : Config) (sysfs : Sysfs) (stack : Stack) (ops : List Op)
    (s : State) (hrun : ops.foldlM (exec cfg) (start cfg sysfs stack) = some s) :
    (∀ write ∈ s.writes, cpusIntersects write.2 cfg.bannedCpus = false) ↔
      Along (exec cfg) (NodesAvoided cfg) (start cfg sysfs stack) ops := by
  have hreach : Ops.Reachable cfg (start cfg sysfs stack) := .start ⟨sysfs, stack, rfl⟩
  have hstart : (start cfg sysfs stack).Avoids cfg := by
    simp [State.Avoids, start_writes]
  rw [← and_iff_right (b := Along _ _ _ _) hstart]
  exact along_iff (P := State.Avoids cfg) (fun _ _ _ h hs => Reachable.next h hs)
    (fun _ _ _ h hs => exec_avoids_iff h hs) hreach hrun

/-! ## A node with a banned CPU -/

namespace Sample

/-- A package on two NUMA nodes, and a network card on the second.  The package is
linked to the first. -/
def dies : Sysfs where
  nodeDirs := some [{ number := 0, cpumap := some 1#(nrCpus) }, { number := 1, cpumap := some 6#(nrCpus) }]
  cpuDirs := some
    [{ cpuDir cpu0 with coreSiblings := some 7#(nrCpus), node := some 0 },
      { cpuDir cpu1 with coreSiblings := some 7#(nrCpus), node := some 1 },
      { cpuDir cpu2 with coreSiblings := some 7#(nrCpus), node := some 1 }]
  pciDevices := some [{ card 11 with attrs := { (card 11).attrs with numaNode := some 1 } }]

/-- The card is on the first node. -/
def firstDie : Sysfs :=
  { dies with
    pciDevices := some [{ card 11 with attrs := { (card 11).attrs with numaNode := some 0 } }] }

/-- CPU 2 is banned. -/
def diesConfig : Config := { numaConfig with bannedCpus := 4#(nrCpus) }

/-- The calls of `main` up to the end of the first round of its loop. -/
def diesRound : List Op :=
  [.parseProcInterrupts none, .parseProcStat none, .clearWorkStats, .parseProcInterrupts none,
    .parseProcStat none, .calculatePlacement id,
    .activateMappings fun _ => { current := some 7#(nrCpus), writable := true }]

/-- The second node has no packages, so the card's interrupt stays on it and is given
all its CPUs, the banned one among them. -/
theorem banned_cpu_written :
    ∃ c, Main.Reachable diesConfig c ∧
      ∃ write ∈ c.2.writes, cpusIntersects write.2 diesConfig.bannedCpus = true := by
  have hwritten : (diesRound.foldlM (Main.exec diesConfig)
      (.firstInterrupts, start diesConfig dies {})).any fun c =>
        c.2.writes.any fun write => cpusIntersects write.2 diesConfig.bannedCpus := by
    decide +kernel
  obtain ⟨c, hrun, hc⟩ := (Option.any_eq_true _ _).mp hwritten
  have hstart : Main.Reachable diesConfig (.firstInterrupts, start diesConfig dies {}) :=
    .start ⟨rfl, dies, {}, rfl⟩
  exact ⟨c, hstart.of_run (fun _ _ _ => Main.exec_eq_some.mp) hrun, List.any_eq_true.mp hc⟩

end Sample

/-- The run above does not meet the condition.  With the card on the first node a mask is
written, and the run meets it. -/
theorem affinities_avoid_iff_dies :
    (∃ s, Sample.diesRound.foldlM (exec Sample.diesConfig)
        (start Sample.diesConfig Sample.dies {}) = some s ∧
      ((∀ write ∈ s.writes, cpusIntersects write.2 Sample.diesConfig.bannedCpus = false) ↔
        Along (exec Sample.diesConfig) (NodesAvoided Sample.diesConfig)
          (start Sample.diesConfig Sample.dies {}) Sample.diesRound)) ∧
    ∃ s, Sample.diesRound.foldlM (exec Sample.diesConfig)
        (start Sample.diesConfig Sample.firstDie {}) = some s ∧ s.writes ≠ [] ∧
      Along (exec Sample.diesConfig) (NodesAvoided Sample.diesConfig)
        (start Sample.diesConfig Sample.firstDie {}) Sample.diesRound := by
  constructor
  · obtain ⟨s, hrun⟩ := Option.isSome_iff_exists.mp (by decide +kernel :
      (Sample.diesRound.foldlM (exec Sample.diesConfig)
        (start Sample.diesConfig Sample.dies {})).isSome = true)
    exact ⟨s, hrun, affinities_avoid_iff _ _ _ _ s hrun⟩
  · have hwritten : (Sample.diesRound.foldlM (exec Sample.diesConfig)
        (start Sample.diesConfig Sample.firstDie {})).any (fun s => !s.writes.isEmpty &&
          s.writes.all fun write => !cpusIntersects write.2 Sample.diesConfig.bannedCpus) =
        true := by decide +kernel
    obtain ⟨s, hrun, hs⟩ := (Option.any_eq_true _ _).mp hwritten
    simp only [Bool.and_eq_true, Bool.not_eq_true', List.isEmpty_eq_false_iff] at hs
    refine ⟨s, hrun, hs.1, (affinities_avoid_iff _ _ _ _ s hrun).mp fun write hwrite => ?_⟩
    simpa using List.all_eq_true.mp hs.2 write hwrite

end CodeAnalyze.Irqbalance
