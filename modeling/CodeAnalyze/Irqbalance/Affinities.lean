import CodeAnalyze.Irqbalance.BannedCpus
import CodeAnalyze.Irqbalance.Settled
import CodeAnalyze.Irqbalance.TreeShape

/-!
# What is written to `smp_affinity`

`activate_mapping` tests the mask it is about to write only under a hint policy.
Elsewhere the mask of the object is written as it is, and that it has a CPU the IRQ
may run on is due to the build and to placement:

* a package, a cache domain and a CPU are made for a CPU that is not banned, and the
  CPU is in their masks (`Topology.Usable`);
* an IRQ is put on a node only after a look at the mask of the node (`State.Chosen`).
-/

namespace CodeAnalyze.Irqbalance

open Lib Irqbalance.Topology

variable {cfg : Config} {stack : Stack} {s s' : State} {t t' : Topology}

/-! ## The masks of the tree -/

/-- A mask that meets another one is not empty. -/
theorem cpusEmpty_of_intersects {a b : Cpumask} (h : cpusIntersects a b = true) :
    cpusEmpty a = false := by
  by_contra hempty
  obtain ⟨cpu, ha, -⟩ := cpusIntersects_eq_true_iff.mp h
  rw [cpusEmpty_iff.mp (by simpa using hempty) cpu] at ha
  cases ha

theorem getLsbD_cpuSet_self (cpu : Fin nrCpus) (mask : Cpumask) :
    (cpuSet cpu mask).getLsbD cpu = true := by
  have hlt : (cpu : ℕ) < nrCpus := cpu.isLt
  simp [cpuSet, hlt]

/-- The maps in the directory of a CPU that can be read have the CPU in them. -/
structure CpuDir.InMaps (dir : CpuDir) : Prop where
  coreSiblings : ∀ mask, dir.coreSiblings = some mask → mask.getLsbD dir.number = true
  sharedCpuMaps : ∀ mask, some mask ∈ dir.sharedCpuMaps → mask.getLsbD dir.number = true

/-- `core_siblings` and `shared_cpu_map` of each CPU contain that CPU. -/
def Sysfs.CpusInMaps (sysfs : Sysfs) : Prop := ∀ dir ∈ sysfs.cpuDirs.getD [], dir.InMaps

section Dir

variable {dir : CpuDir}

/-- A CPU that counts is not banned. -/
theorem CpuDir.Counts.unbanned (h : dir.Counts cfg) :
    (~~~cfg.bannedCpus).getLsbD dir.number = true := by
  have hclear := cpusIntersects_eq_false_iff.mp h.2 dir.number (getLsbD_cpuSet_self _ _)
  rw [BitVec.getLsbD_not, hclear, decide_eq_true dir.number.isLt]
  rfl

/-- Without its file the mask is the garbage on the stack, with the CPU in it. -/
theorem CpuDir.InMaps.readPackageMask (h : dir.InMaps) (stack : Stack) :
    (readPackageMask stack dir).getLsbD dir.number = true := by
  unfold CodeAnalyze.Irqbalance.readPackageMask
  cases hread : dir.coreSiblings with
  | none => exact getLsbD_cpuSet_self _ _
  | some mask => exact h.coreSiblings mask hread

theorem CpuDir.InMaps.readCacheMask (h : dir.InMaps) (cfg : Config) :
    (readCacheMask cfg dir).getLsbD dir.number = true := by
  unfold CodeAnalyze.Irqbalance.readCacheMask
  dsimp only
  split
  · cases hread : dir.sharedCpuMaps[maxCacheIndex cfg.deepestCache 0 dir.sharedCpuMaps - 1]? with
    | none => exact getLsbD_cpuSet_self _ _
    | some map =>
        cases map with
        | none => exact getLsbD_cpuSet_self _ _
        | some mask => exact h.sharedCpuMaps mask (List.mem_of_getElem? hread)
  · exact getLsbD_cpuSet_self _ _

/-- What is left of a mask without the banned CPUs still has the CPU. -/
theorem CpuDir.Counts.intersects (h : dir.Counts cfg) {mask : Cpumask}
    (hmask : mask.getLsbD dir.number = true) :
    cpusIntersects (mask &&& ~~~cfg.bannedCpus) (~~~cfg.bannedCpus) = true := by
  apply cpusIntersects_of_mem dir.number _ h.unbanned
  rw [BitVec.getLsbD_and, hmask, h.unbanned]
  rfl

end Dir

/-- Every CPU, cache domain and package has a CPU in its mask that is not banned. -/
def Topology.Usable (banned : Cpumask) (t : Topology) : Prop :=
  ∀ r, t.Valid r → r.objType ≠ .node → cpusIntersects (t.obj r).mask (~~~banned) = true

/-- `do_one_cpu` makes no object without the CPU. -/
theorem Topology.Usable.doOneCpu {dir : CpuDir} (h : Usable cfg.bannedCpus t)
    (hunbanned : t.unbannedCpus = ~~~cfg.bannedCpus) (hnodes : 0 < t.numaNodes.length)
    (hmaps : dir.InMaps) : Usable cfg.bannedCpus (doOneCpu cfg stack t dir) := by
  by_cases hdir : dir.Counts cfg
  · obtain ⟨mid₁, t₁, mid₂, t₂, cache, package, hbuilt⟩ := doOneCpu_built stack hunbanned hdir
    have hgrowth := hbuilt.growth₁₂ hdir
    have hnodes₂ := Nat.lt_of_lt_of_le hnodes (hgrowth.length_le .node)
    obtain ⟨hvalid, hmask, -⟩ := hbuilt.node_same hnodes₂
    intro r hr hty
    rw [hmask]
    rcases hbuilt.valid_cases ((hvalid r).mp hr) with hold | rfl | rfl | rfl
    · rw [hgrowth.mask_eq hold]
      exact h r hold hty
    · -- the CPU itself
      have hgrows := withCpu_grows t dir
      have hcpu : (t₂.obj ⟨.cpu, t.cpus.length⟩).mask = cpuSet dir.number 0#(nrCpus) :=
        calc (t₂.obj ⟨.cpu, t.cpus.length⟩).mask
            = ((withCpu t dir).obj ⟨.cpu, t.cpus.length⟩).mask :=
              Growth.mask_eq (hbuilt.growth₁.trans hbuilt.growth₂) hgrows.valid_new
          _ = cpuSet dir.number 0#(nrCpus) := congrArg TopoObj.mask hgrows.obj_new
      rw [hcpu]
      exact cpusIntersects_of_mem dir.number (getLsbD_cpuSet_self _ _) hdir.unbanned
    · rw [hbuilt.cache_mask]
      exact hdir.intersects (hmaps.readCacheMask cfg)
    · rw [hbuilt.onPackage.mask_eq]
      exact hdir.intersects (hmaps.readPackageMask stack)
  · rcases doOneCpu_cases cfg stack t dir with ⟨-, hobjs, -⟩ | ⟨hcounts, -⟩
    · intro r hr hty
      rw [obj_of_objs hobjs]
      exact h r ((valid_of_objs hobjs r).mp hr) hty
    · exact absurd hcounts hdir

theorem buildTree_usable {sysfs : Sysfs} (hmaps : sysfs.CpusInMaps) (stack : Stack)
    (ht : ∀ ty, t.objs ty = []) : Usable cfg.bannedCpus (buildTree cfg sysfs stack t) := by
  have hbare := (nodeTree_bare cfg sysfs ht).1
  rw [buildTree_eq]
  -- all through the loop there are nodes, and `unbanned_cpus` is what it was
  refine (foldl_invariant (fun u => Usable cfg.bannedCpus u ∧
    Growth cfg.bannedCpus (nodeTree cfg sysfs t) u) (fun dir hdir u hu => ?_)
    ⟨fun r hr hty => absurd hr (hbare r hty), .refl⟩).1
  obtain ⟨husable, hgrowth⟩ := hu
  have hnodes := Nat.lt_of_lt_of_le (buildNumaNodeList_pos cfg sysfs t) (hgrowth.length_le .node)
  have hunbanned : u.unbannedCpus = ~~~cfg.bannedCpus := hgrowth.unbannedCpus_eq.trans rfl
  exact ⟨husable.doOneCpu hunbanned hnodes (hmaps dir hdir),
    hgrowth.trans (doOneCpu_growth hnodes hunbanned)⟩

/-! ## Where the IRQs are -/

namespace State

/-- The tree is usable, and every IRQ is on an object with a CPU that is not banned. -/
structure WellPlaced (cfg : Config) (s : State) : Prop where
  unbannedCpus : s.topo.unbannedCpus = ~~~cfg.bannedCpus
  usable : s.topo.Usable cfg.bannedCpus
  assigned : ∀ i d, (s.info i).assignedObj = some d →
    cpusIntersects (s.obj d).mask (~~~cfg.bannedCpus) = true

/-- A change that places no IRQ. -/
theorem WellPlaced.of_same (h : s.WellPlaced cfg) (hfixed : s'.fixed = s.fixed)
    (hinfo : ∀ i d, (s'.info i).assignedObj = some d → (s.info i).assignedObj = some d) :
    s'.WellPlaced cfg where
  unbannedCpus := (fixed_unbannedCpus hfixed).trans h.unbannedCpus
  usable := by
    intro r hr hty
    have hmask : (s'.topo.obj r).mask = (s.topo.obj r).mask := fixed_mask hfixed r
    rw [hmask]
    exact h.usable r ((fixed_valid hfixed r).mp hr) hty
  assigned := by
    intro i d hd
    rw [fixed_mask hfixed]
    exact h.assigned i d (hinfo i d hd)

/-- What an IRQ may be put on has a CPU that is not banned. -/
theorem WellPlaced.chosen (h : s.WellPlaced cfg) {i : ℕ} {d : ObjRef} (hd : s.topo.Valid d)
    (hchosen : s.Chosen cfg i d) : cpusIntersects (s.obj d).mask (~~~cfg.bannedCpus) = true := by
  by_cases hnode : d.objType = .node
  · rcases hchosen with hskips | ⟨-, -, hmeets⟩
    · have hmeets : cpusIntersects (s.obj d).mask s.topo.unbannedCpus = true := by
        simp only [skipsObject, hnode, Bool.or_eq_false_iff, decide_true, Bool.true_and,
          Bool.not_eq_false'] at hskips
        exact hskips.1.1.2
      rwa [h.unbannedCpus] at hmeets
    · rwa [h.unbannedCpus] at hmeets
  · exact h.usable d hd hnode

theorem WellPlaced.move (h : s.WellPlaced cfg) (howned : s.Owned) (hmv : Move cfg s s') :
    s'.WellPlaced cfg := by
  have hfixed := hmv.fixed_eq
  cases hmv with
  | count hstill =>
      refine h.of_same hfixed fun i d hd => ?_
      rwa [still_assignedObj hstill] at hd
  | sort addr l =>
      refine h.of_same hfixed fun i d hd => ?_
      rwa [sortIrqList, info_modifyIrqList] at hd
  | take hi =>
      refine h.of_same hfixed fun j d hd => ?_
      rw [howned.info_reassign hi] at hd
      split at hd
      · cases hd
      · exact hd
  | put hi hvalid _ hchosen =>
      have hmeets := h.chosen hvalid hchosen
      refine ⟨(fixed_unbannedCpus hfixed).trans h.unbannedCpus, fun r hr hty => ?_,
        fun j d hd => ?_⟩
      · have hmask := fixed_mask hfixed r
        exact (congrArg (cpusIntersects · _) hmask).trans
          (h.usable r ((fixed_valid hfixed r).mp hr) hty)
      · rw [fixed_mask hfixed]
        rw [howned.info_reassign hi] at hd
        split at hd
        · cases hd
          exact hmeets
        · exact h.assigned j d hd

theorem WellPlaced.sleep (h : s.WellPlaced cfg) (d : ObjRef) : (s.sleep d).WellPlaced cfg :=
  h.of_same (s.sleep_fixed d) fun _ _ hd => hd

theorem WellPlaced.clearPowersaveMode (h : s.WellPlaced cfg) (d : ObjRef) :
    (s.clearPowersaveMode d).WellPlaced cfg :=
  h.of_same (s.clearPowersaveMode_fixed d) fun _ _ hd => hd

theorem WellPlaced.writeAffinity (h : s.WellPlaced cfg) (i : ℕ) (mask : Cpumask) :
    (s.writeAffinity i mask).WellPlaced cfg := by
  refine h.of_same (s.writeAffinity_fixed i mask) fun j d hd => ?_
  rw [← hd]
  exact (s.field_modifyInfo i j IrqInfo.assignedObj (by intro o; rfl)).symm

theorem WellPlaced.turns (h : s.WellPlaced cfg) (howned : s.Owned) (hrun : Turns cfg s s') :
    s'.WellPlaced cfg :=
  Turns.keeps_owned (fun _ _ ht hs hmv => hs.move ht hmv) (fun _ d hs => hs.sleep d)
    (fun _ d hs => hs.clearPowersaveMode d) (fun _ i mask _ hs _ _ => hs.writeAffinity i mask)
    howned h hrun

/-- A build leaves a usable tree, and no IRQ on it. -/
theorem wellPlaced_rebuild {sysfs : Sysfs} (hmaps : sysfs.CpusInMaps) (stack : Stack)
    (hs : s.Treeless) : (s.rebuild cfg sysfs stack).WellPlaced cfg := by
  have hfresh := fresh_rebuild cfg sysfs stack hs
  refine ⟨hfresh.unbannedCpus, ?_, fun i d hd => ?_⟩
  · rw [rebuild_topo]
    exact buildTree_usable hmaps stack hs
  · rw [(hfresh.unplaced i).assignedObj] at hd
    cases hd

end State

/-- A run whose builds find every CPU in its own maps. -/
theorem run_wellPlaced {sysfs : Sysfs} {ops : List Op} (hmaps : sysfs.CpusInMaps)
    (hrescans : ∀ sysfs stack, .rescan sysfs stack ∈ ops → sysfs.CpusInMaps)
    (hrun : ops.foldlM (exec cfg) (start cfg sysfs stack) = some s) :
    s.Owned ∧ s.WellPlaced cfg := by
  refine run_invariant (I := fun s => s.Owned ∧ s.WellPlaced cfg) ?_ ?_ hrun
  · intro s op hop s' h hstep
    refine exec_keeps (fun sysfs stack heq blank hblank _ => ?_) (fun howned hplaced hturns =>
      hplaced.turns howned hturns) h hstep
    subst heq
    exact State.wellPlaced_rebuild (hrescans sysfs stack hop) stack hblank
  · exact ⟨(State.fresh_rebuild cfg sysfs stack State.treeless_empty).owned,
      State.wellPlaced_rebuild hmaps stack State.treeless_empty⟩

/-! ## The masks that are written -/

/-- What is promised of a mask that is written for an IRQ whose file is `file`. -/
structure RespectsHint (cfg : Config) (s : State) (file : SmpAffinity) (info : IrqInfo)
    (mask : Cpumask) : Prop where
  nonempty : cpusEmpty mask = false
  exact : info.hintPolicy = .exact → cpusEmpty info.affinityHint = false →
    mask = info.affinityHint ∧ cpusIntersects mask cfg.bannedCpus = false
  subset : info.hintPolicy = .subset → cpusEmpty info.affinityHint = false →
    ∃ d, info.assignedObj = some d ∧
      (∀ cpu : Fin nrCpus, mask.getLsbD cpu = true →
        info.affinityHint.getLsbD cpu = true ∧ (s.obj d).mask.getLsbD cpu = true) ∧
      cpusIntersects mask (~~~cfg.bannedCpus) = true
  plain : ¬ (info.hintPolicy = .exact ∧ cpusEmpty info.affinityHint = false) →
    ¬ (info.hintPolicy = .subset ∧ cpusEmpty info.affinityHint = false) →
    ∃ d, info.assignedObj = some d ∧ mask = (s.obj d).mask ∧
      cpusIntersects mask (~~~cfg.bannedCpus) = true
  differs : ∃ current, file.current = some current ∧ mask ≠ current

namespace State

variable {info : IrqInfo} {mask : Cpumask}

/-- Under an exact policy the hint was looked at; the object was not. -/
theorem appliedMask_eq_hint (hexact : info.hintPolicy = .exact)
    (hhint : cpusEmpty info.affinityHint = false) (h : s.appliedMask cfg info = some mask) :
    mask = info.affinityHint := by
  unfold appliedMask at h
  simp only [hexact, hhint, decide_true, Bool.not_false, Bool.and_self, if_true] at h
  split at h
  · cases h
  · exact (Option.some.inj h).symm

/-- A mask that is narrowed to the hint was tested, and one that is not is that of the
object. -/
theorem WellPlaced.appliedMask_intersects (h : s.WellPlaced cfg) {i : ℕ}
    (hexact : ¬ ((s.info i).hintPolicy = .exact ∧ cpusEmpty (s.info i).affinityHint = false))
    (hmask : s.appliedMask cfg (s.info i) = some mask) :
    cpusIntersects mask (~~~cfg.bannedCpus) = true := by
  obtain ⟨d, hd, rfl, hgate⟩ := (appliedMask_of_not_exact hexact).mp hmask
  rw [h.unbannedCpus] at hgate
  by_cases hsubset : (s.info i).hintPolicy = .subset ∧ cpusEmpty (s.info i).affinityHint = false
  · exact hgate hsubset
  · have hwide : narrowed (s.info i) (s.obj d).mask = (s.obj d).mask := by
      unfold narrowed
      rw [if_neg (by simpa using hsubset)]
    rw [hwide]
    exact h.assigned i d hd

/-- The mask is not empty: it meets the CPUs that are not banned, or is the hint. -/
theorem WellPlaced.appliedMask_nonempty (h : s.WellPlaced cfg) {i : ℕ}
    (hmask : s.appliedMask cfg (s.info i) = some mask) : cpusEmpty mask = false := by
  by_cases hexact : (s.info i).hintPolicy = .exact ∧ cpusEmpty (s.info i).affinityHint = false
  · rw [appliedMask_eq_hint hexact.1 hexact.2 hmask]
    exact hexact.2
  · exact cpusEmpty_of_intersects (h.appliedMask_intersects hexact hmask)

/-- A file that `check_affinity` finds out of date says something else. -/
theorem checkAffinity_eq_false {file : SmpAffinity} (h : checkAffinity file mask = false) :
    ∃ current, file.current = some current ∧ mask ≠ current := by
  unfold checkAffinity at h
  split at h
  · cases h
  · rename_i current hcurrent
    exact ⟨current, hcurrent, by simpa using h⟩

theorem WellPlaced.respectsHint (h : s.WellPlaced cfg) {i : ℕ} {file : SmpAffinity}
    (hmask : s.appliedMask cfg (s.info i) = some mask) (hcheck : checkAffinity file mask = false) :
    RespectsHint cfg s file (s.info i) mask where
  nonempty := h.appliedMask_nonempty hmask
  exact := fun hexact hhint =>
    ⟨appliedMask_eq_hint hexact hhint hmask, appliedMask_exact hexact hhint hmask⟩
  subset := by
    intro hsubset hhint
    have hexact : ¬ ((s.info i).hintPolicy = .exact ∧
        cpusEmpty (s.info i).affinityHint = false) := by
      rw [hsubset]
      simp
    have hmeets := h.appliedMask_intersects hexact hmask
    obtain ⟨d, hd, rfl, -⟩ := (appliedMask_of_not_exact hexact).mp hmask
    refine ⟨d, hd, fun cpu hcpu => ?_, hmeets⟩
    simp only [narrowed, hsubset, hhint, decide_true, Bool.not_false, Bool.and_self, if_true,
      BitVec.getLsbD_and, Bool.and_eq_true] at hcpu
    exact hcpu.symm
  plain := by
    intro hexact hsubset
    have hmeets := h.appliedMask_intersects hexact hmask
    obtain ⟨d, hd, hnarrowed, -⟩ := (appliedMask_of_not_exact hexact).mp hmask
    refine ⟨d, hd, ?_, hmeets⟩
    rw [hnarrowed, narrowed, if_neg (by simpa using hsubset)]
  differs := checkAffinity_eq_false hcheck

/-- The calls of `activate_mapping` before the one for an entry place no IRQ. -/
theorem WellPlaced.foldl_activateMapping (h : s.WellPlaced cfg)
    (smpAffinity : ℤ → SmpAffinity) (list : List ℕ) :
    (list.foldl (activateMapping cfg smpAffinity) s).WellPlaced cfg := by
  refine foldl_invariant (fun t : State => t.WellPlaced cfg) (fun i _ t ht => ?_) h
  rcases activateMapping_cases cfg smpAffinity t i with heq | ⟨mask, -, -, -, -, -, heq⟩
  · rw [heq]
    exact ht
  · rw [heq]
    exact ht.writeAffinity i mask

end State

/-- In a run over topologies whose `core_siblings` and `shared_cpu_map` contain their
CPU, each call of `activate_mapping` writes nothing, or a mask that respects the hint
policy, is not empty and differs from the one in force. -/
theorem affinities_respect_hints (cfg : Config) (sysfs : Sysfs) (stack : Stack)
    (ops : List Op) (s : State) (hmaps : sysfs.CpusInMaps)
    (hrescans : ∀ sysfs stack, .rescan sysfs stack ∈ ops → sysfs.CpusInMaps)
    (hrun : ops.foldlM (exec cfg) (start cfg sysfs stack) = some s)
    (smpAffinity : ℤ → SmpAffinity) (i : ℕ) :
    let t := (List.range i).foldl (State.activateMapping cfg smpAffinity) s
    (t.activateMapping cfg smpAffinity i).writes = t.writes ∨
      ∃ mask, (t.activateMapping cfg smpAffinity i).writes =
          t.writes ++ [((t.info i).irq, mask)] ∧
        RespectsHint cfg t (smpAffinity (t.info i).irq) (t.info i) mask := by
  intro t
  have hplaced : t.WellPlaced cfg :=
    (run_wellPlaced hmaps hrescans hrun).2.foldl_activateMapping smpAffinity (List.range i)
  rcases State.activateMapping_cases cfg smpAffinity t i with
    heq | ⟨mask, -, hmask, -, hcheck, -, heq⟩
  · exact .inl (congrArg State.writes heq)
  · exact .inr ⟨mask, congrArg State.writes heq, hplaced.respectsHint hmask hcheck⟩

namespace Sample

theorem cpuDir_inMaps {number : Fin nrCpus} (h : (3#(nrCpus)).getLsbD number = true) :
    (cpuDir number).InMaps where
  coreSiblings := by
    intro mask hmask
    rw [← Option.some.inj (hmask : some 3#(nrCpus) = some mask)]
    exact h
  sharedCpuMaps := fun _ hmask => absurd hmask List.not_mem_nil

theorem machine_cpusInMaps : machine.CpusInMaps := by
  intro dir (hdir : dir ∈ [cpuDir cpu0, cpuDir cpu1])
  rcases List.mem_cons.mp hdir with rfl | hdir
  · exact cpuDir_inMaps (by decide +kernel)
  · rw [List.mem_singleton.mp hdir]
    exact cpuDir_inMaps (by decide +kernel)

/-- The interrupts of the sample machine are placed and their affinities not yet
written. -/
def assigned : State := (([.calculatePlacement id] : List Op).foldlM (exec config) started).getD {}

theorem assigned_run :
    ([.calculatePlacement id] : List Op).foldlM (exec config) started = some assigned := by
  have hsome : (([.calculatePlacement id] : List Op).foldlM (exec config) started).isSome := by
    decide +kernel
  obtain ⟨s, hs⟩ := Option.isSome_iff_exists.mp hsome
  rw [assigned, hs]
  rfl

end Sample

/-- The first interrupt of the sample machine is given a mask. -/
theorem affinities_respect_hints_assigned :
    ∃ mask, (Sample.assigned.activateMapping Sample.config
        (fun _ => { current := some 3#(nrCpus), writable := true }) 0).writes = [(11, mask)] ∧
      RespectsHint Sample.config Sample.assigned { current := some 3#(nrCpus), writable := true }
        (Sample.assigned.info 0) mask := by
  have hcall := affinities_respect_hints Sample.config Sample.machine {} [.calculatePlacement id]
    Sample.assigned Sample.machine_cpusInMaps (by simp) Sample.assigned_run
    (fun _ => { current := some 3#(nrCpus), writable := true }) 0
  rcases hcall with hnone | ⟨mask, hwrites, hrespects⟩
  · exact absurd hnone (by decide +kernel)
  · have hirq : (Sample.assigned.info 0).irq = 11 := by decide +kernel
    have hbefore : Sample.assigned.writes = [] := by decide +kernel
    refine ⟨mask, hwrites.trans ?_, hrespects⟩
    rw [List.range_zero, List.foldl_nil, hirq, hbefore, List.nil_append]

end CodeAnalyze.Irqbalance
