import CodeAnalyze.Irqbalance.TreeShape

/-!
# The mask that is not cleared

`do_one_cpu` clears `cache_mask` before it sets the CPU's bit in it, and does not clear
`package_mask`.  Where `core_siblings` can be read, the mask is overwritten; where it
cannot, the CPU is not solitary, as the comment has it, but gets the package of
whatever was on the stack.

Two runs are compared: the same directories, and two contents of the stack.  They agree
as long as the package masks do, and each package mask is seen in the package the CPU is
attached to.
-/

namespace CodeAnalyze.Irqbalance

open Lib Irqbalance.Topology

variable {cfg : Config} {sysfs : Sysfs} {stack stack' : Stack} {t u : Topology} {dir : CpuDir}

/-! ## The package mask of a CPU -/

/-- What can be read of the stack: everything that is not banned. -/
theorem packageMaskOf_none (h : dir.coreSiblings = none) :
    packageMaskOf cfg stack dir =
      cpuSet dir.number (stack.packageMask dir.number) &&& ~~~cfg.bannedCpus := by
  unfold packageMaskOf readPackageMask
  rw [h]
  rfl

/-- A stack of zeros makes the CPU solitary. -/
theorem packageMaskOf_zeros (hdir : dir.Counts cfg) (h : dir.coreSiblings = none) :
    packageMaskOf cfg {} dir = cpuSet dir.number 0#(nrCpus) := by
  rw [packageMaskOf_none h]
  have hclear := and_eq_zero_of_not_intersects hdir.2
  have hsplit : cpuSet dir.number 0#(nrCpus) =
      cpuSet dir.number 0#(nrCpus) &&& cfg.bannedCpus |||
        cpuSet dir.number 0#(nrCpus) &&& ~~~cfg.bannedCpus := by
    rw [← BitVec.and_or_distrib_left]
    simp
  rw [hclear, BitVec.zero_or] at hsplit
  exact hsplit.symm

/-- A stack of ones. -/
def Stack.ones : Stack where
  packageMask := fun _ => cpuMaskAll

/-- It puts the CPU in one package with all CPUs that are not banned. -/
theorem packageMaskOf_ones (h : dir.coreSiblings = none) :
    packageMaskOf cfg .ones dir = ~~~cfg.bannedCpus := by
  rw [packageMaskOf_none h]
  simp [cpuSet, Stack.ones, cpuMaskAll]

/-- The mask of the CPU's package does not come from the stack. -/
def CpuDir.SiblingsKnown (cfg : Config) (dir : CpuDir) : Prop :=
  dir.coreSiblings = none → ~~~cfg.bannedCpus = cpuSet dir.number 0#(nrCpus)

theorem CpuDir.SiblingsKnown.mask_eq (h : dir.SiblingsKnown cfg) (stack stack' : Stack) :
    packageMaskOf cfg stack dir = packageMaskOf cfg stack' dir := by
  cases hread : dir.coreSiblings with
  | some mask =>
      unfold packageMaskOf readPackageMask
      rw [hread]
      rfl
  | none =>
      -- what the stack adds is banned
      have hbit : ∀ garbage : Cpumask, cpuSet dir.number garbage &&& ~~~cfg.bannedCpus =
          cpuSet dir.number 0#(nrCpus) := by
        intro garbage
        rw [h hread]
        unfold cpuSet
        rw [BitVec.zero_or, BitVec.and_or_distrib_right]
        ext i hi
        simp
      rw [packageMaskOf_none hread, packageMaskOf_none hread, hbit, hbit]

/-! ## One directory -/

/-- The package `do_one_cpu` attaches the CPU to, if it makes one. -/
def attachedPackage (cfg : Config) (stack : Stack) (t : Topology) (dir : CpuDir) :
    Option ObjRef :=
  if dir.Counts cfg then
    let (t₁, cache) := addCpuToCacheDomain (withCpu t dir) t.cpus.length
      (readCacheMask cfg dir &&& t.unbannedCpus)
    let (_, package) := addCacheDomainToPackage t₁ cache (dir.physicalPackageId.getD 0)
      (readPackageMask stack dir &&& t.unbannedCpus)
    some ⟨.package, package⟩
  else none

/-- The stages of `do_one_cpu` end with that package. -/
theorem attachedPackage_built (stack : Stack) (hunbanned : t.unbannedCpus = ~~~cfg.bannedCpus)
    (hdir : dir.Counts cfg) :
    ∃ mid₁ t₁ mid₂ t₂ cache package,
      attachedPackage cfg stack t dir = some ⟨.package, package⟩ ∧
        Built cfg stack t dir mid₁ t₁ mid₂ t₂ (doOneCpu cfg stack t dir) cache package := by
  rcases doOneCpu_cases cfg stack t dir with ⟨hnot, -⟩ | ⟨-, heq⟩
  · exact absurd hdir hnot
  · unfold attachedPackage
    rw [if_pos hdir]
    rw [hunbanned] at heq ⊢
    exact ⟨_, _, _, _, _, _, rfl, addCpuToCacheDomain_attached _ _ _,
      addCacheDomainToPackage_attached _ _ (dir.physicalPackageId.getD 0) _, heq⟩

/-- A CPU of the tree is below the package, through a cache domain. -/
def AttachedTo (t : Topology) (number : Fin nrCpus) (package : ObjRef) : Prop :=
  ∃ cpu cache, t.Valid cpu ∧ cpu.objType = .cpu ∧ (t.obj cpu).number = number.val ∧
    cpu ∈ t.childRefs cache ∧ cache ∈ t.childRefs package

/-- The turn of a directory: the CPU is attached to a package with its package mask. -/
theorem doOneCpu_attached (stack : Stack) (hnodes : 0 < t.numaNodes.length)
    (hunbanned : t.unbannedCpus = ~~~cfg.bannedCpus) (hdir : dir.Counts cfg) :
    ∃ package, attachedPackage cfg stack t dir = some package ∧
      (doOneCpu cfg stack t dir).Valid package ∧
      AttachedTo (doOneCpu cfg stack t dir) dir.number package ∧
      ((doOneCpu cfg stack t dir).obj package).mask = packageMaskOf cfg stack dir := by
  obtain ⟨mid₁, t₁, mid₂, t₂, cache, package, hattached, h⟩ :=
    attachedPackage_built stack hunbanned hdir
  have hnodes₂ : 0 < t₂.numaNodes.length :=
    Nat.lt_of_lt_of_le hnodes ((h.growth₁₂ hdir).length_le .node)
  have hlast := h.growth_last hnodes₂
  have hgrows := withCpu_grows t dir
  refine ⟨⟨.package, package⟩, hattached, hlast.valid h.package_valid, ?_, ?_⟩
  · have hgrowth := h.growth₁.trans (h.growth₂.trans hlast)
    refine ⟨⟨.cpu, t.cpus.length⟩, ⟨.cache, cache⟩, Growth.valid hgrowth hgrows.valid_new, rfl,
      ?_, ?_, ?_⟩
    · have hnumber := Growth.field_eq hgrowth TopoObj.number (fun _ _ => rfl) (fun _ _ => rfl)
        hgrows.valid_new
      exact hnumber.trans (congrArg TopoObj.number hgrows.obj_new)
    · exact Growth.mem_childRefs (h.growth₂.trans hlast) (h.onCache.mem rfl)
    · exact hlast.mem_childRefs (h.onPackage.mem rfl)
  · rw [hlast.mask_eq h.package_valid, h.onPackage.mask_eq]

/-- It stays attached when the tree grows. -/
theorem AttachedTo.growth {banned : Cpumask} {number : Fin nrCpus} {package : ObjRef}
    (h : AttachedTo t number package) (hgrowth : Growth banned t u) :
    AttachedTo u number package := by
  obtain ⟨cpu, cache, hvalid, hty, hnumber, hcpu, hcache⟩ := h
  refine ⟨cpu, cache, hgrowth.valid hvalid, hty, ?_, hgrowth.mem_childRefs hcpu,
    hgrowth.mem_childRefs hcache⟩
  rw [hgrowth.field_eq TopoObj.number (fun _ _ => rfl) (fun _ _ => rfl) hvalid]
  exact hnumber

/-! ## The loop over the directories -/

/-- The tree after a part of the directories. -/
def treeAfter (cfg : Config) (sysfs : Sysfs) (stack : Stack) (t : Topology)
    (dirs : List CpuDir) : Topology :=
  dirs.foldl (doOneCpu cfg stack) (nodeTree cfg sysfs t)

theorem treeAfter_growth (cfg : Config) (sysfs : Sysfs) (stack : Stack) (t : Topology)
    (dirs : List CpuDir) :
    Growth cfg.bannedCpus (nodeTree cfg sysfs t) (treeAfter cfg sysfs stack t dirs) :=
  foldl_doOneCpu_growth stack (t := nodeTree cfg sysfs t) (buildNumaNodeList_pos cfg sysfs t)
    rfl dirs

theorem treeAfter_nodes (cfg : Config) (sysfs : Sysfs) (stack : Stack) (t : Topology)
    (dirs : List CpuDir) : 0 < (treeAfter cfg sysfs stack t dirs).numaNodes.length :=
  Nat.lt_of_lt_of_le (buildNumaNodeList_pos cfg sysfs t)
    ((treeAfter_growth cfg sysfs stack t dirs).length_le .node)

theorem treeAfter_unbannedCpus (cfg : Config) (sysfs : Sysfs) (stack : Stack) (t : Topology)
    (dirs : List CpuDir) :
    (treeAfter cfg sysfs stack t dirs).unbannedCpus = ~~~cfg.bannedCpus :=
  (treeAfter_growth cfg sysfs stack t dirs).unbannedCpus_eq.trans rfl

/-- The tree grows from the turn of a directory to the end. -/
theorem treeAfter_split (cfg : Config) (stack : Stack) (t : Topology)
    {before after : List CpuDir} (hdirs : sysfs.cpuDirs.getD [] = before ++ dir :: after) :
    Growth cfg.bannedCpus (doOneCpu cfg stack (treeAfter cfg sysfs stack t before) dir)
      (buildTree cfg sysfs stack t) := by
  have hturn : doOneCpu cfg stack (treeAfter cfg sysfs stack t before) dir =
      treeAfter cfg sysfs stack t (before ++ [dir]) := by
    unfold treeAfter
    rw [List.foldl_append]
    rfl
  have hend : buildTree cfg sysfs stack t =
      after.foldl (doOneCpu cfg stack) (treeAfter cfg sysfs stack t (before ++ [dir])) := by
    rw [buildTree_eq, hdirs]
    unfold treeAfter
    rw [← List.foldl_append, List.append_assoc]
    rfl
  rw [hturn, hend]
  exact foldl_doOneCpu_growth stack (treeAfter_nodes cfg sysfs stack t _)
    (treeAfter_unbannedCpus cfg sysfs stack t _) after

/-- In the end every CPU that counts is in a package with its package mask. -/
theorem buildTree_attached (cfg : Config) (stack : Stack) (t : Topology)
    {before after : List CpuDir}
    (hdirs : sysfs.cpuDirs.getD [] = before ++ dir :: after) (hdir : dir.Counts cfg) :
    ∃ package, attachedPackage cfg stack (treeAfter cfg sysfs stack t before) dir = some package ∧
      AttachedTo (buildTree cfg sysfs stack t) dir.number package ∧
      ((buildTree cfg sysfs stack t).obj package).mask = packageMaskOf cfg stack dir := by
  have hnodes := treeAfter_nodes cfg sysfs stack t before
  have hunbanned := treeAfter_unbannedCpus cfg sysfs stack t before
  obtain ⟨package, hpackage, hvalid, hattached, hmask⟩ :=
    doOneCpu_attached stack hnodes hunbanned hdir
  have hgrowth := treeAfter_split cfg stack t hdirs
  refine ⟨package, hpackage, hattached.growth hgrowth, ?_⟩
  rw [hgrowth.mask_eq hvalid, hmask]

/-- A turn depends on the stack by the package mask alone. -/
theorem doOneCpu_congr (hunbanned : t.unbannedCpus = ~~~cfg.bannedCpus)
    (hmask : dir.Counts cfg → packageMaskOf cfg stack dir = packageMaskOf cfg stack' dir) :
    doOneCpu cfg stack t dir = doOneCpu cfg stack' t dir ∧
      attachedPackage cfg stack t dir = attachedPackage cfg stack' t dir := by
  by_cases hdir : dir.Counts cfg
  · have hread : readPackageMask stack dir &&& t.unbannedCpus =
        readPackageMask stack' dir &&& t.unbannedCpus := by
      rw [hunbanned]
      exact hmask hdir
    constructor
    · unfold doOneCpu
      dsimp only
      rw [hread]
    · unfold attachedPackage
      rw [hread]
  · constructor
    · unfold doOneCpu
      by_cases honline : dir.online = true
      · have hbanned : cpusIntersects (cpuSet dir.number 0#(nrCpus)) cfg.bannedCpus = true := by
          by_contra hnot
          exact hdir ⟨honline, by simpa using hnot⟩
        simp only [honline, hbanned, Bool.not_true, Bool.false_eq_true, if_false, if_true]
      · simp [honline]
    · unfold attachedPackage
      rw [if_neg hdir, if_neg hdir]

theorem treeAfter_congr (cfg : Config) (sysfs : Sysfs) (t : Topology) {dirs : List CpuDir}
    (hmask : ∀ dir ∈ dirs, dir.Counts cfg →
      packageMaskOf cfg stack dir = packageMaskOf cfg stack' dir) :
    treeAfter cfg sysfs stack t dirs = treeAfter cfg sysfs stack' t dirs := by
  induction dirs using List.reverseRecOn with
  | nil => simp only [treeAfter, List.foldl_nil]
  | append_singleton dirs dir ih =>
      have hsame := ih fun d hd => hmask d (List.mem_append_left _ hd)
      have hturn := (doOneCpu_congr (treeAfter_unbannedCpus cfg sysfs stack' t dirs)
        (hmask dir (by simp))).1
      unfold treeAfter at hsame hturn ⊢
      rw [List.foldl_append, List.foldl_append, hsame]
      exact hturn

/-! ## Two runs -/

/-- The tree, and the package each CPU is attached to, are the same whatever the stack
holds. -/
structure StackIndependent (cfg : Config) (sysfs : Sysfs) (t : Topology) : Prop where
  tree : ∀ stack stack', buildTree cfg sysfs stack t = buildTree cfg sysfs stack' t
  attached : ∀ stack stack' before dir after,
    sysfs.cpuDirs.getD [] = before ++ dir :: after →
      attachedPackage cfg stack (treeAfter cfg sysfs stack t before) dir =
        attachedPackage cfg stack' (treeAfter cfg sysfs stack' t before) dir

/-- A CPU whose `core_siblings` cannot be read is attached to a package with no other CPU
in its mask. -/
def Solitary (cfg : Config) (sysfs : Sysfs) (t : Topology) : Prop :=
  ∀ stack before dir after, sysfs.cpuDirs.getD [] = before ++ dir :: after →
    dir.Counts cfg → dir.coreSiblings = none →
    ∃ package, attachedPackage cfg stack (treeAfter cfg sysfs stack t before) dir = some package ∧
      AttachedTo (buildTree cfg sysfs stack t) dir.number package ∧
      ((buildTree cfg sysfs stack t).obj package).mask = cpuSet dir.number 0#(nrCpus)

theorem stackIndependent_iff :
    StackIndependent cfg sysfs t ↔
      ∀ dir ∈ countedDirs cfg sysfs, dir.SiblingsKnown cfg := by
  constructor
  · intro h dir hmem hread
    obtain ⟨hdir, hcounts⟩ := List.mem_filter.mp hmem
    obtain ⟨before, after, hdirs⟩ := List.append_of_mem hdir
    -- the package of the CPU has the mask of zeros in one run, and of ones in the other
    obtain ⟨package, hzeros, -, hmaskZeros⟩ :=
      buildTree_attached cfg {} t hdirs (of_decide_eq_true hcounts)
    obtain ⟨package', hones, -, hmaskOnes⟩ :=
      buildTree_attached cfg .ones t hdirs
        (of_decide_eq_true hcounts)
    have hsame : package = package' := by
      rw [h.attached {} .ones before dir after hdirs, hones] at hzeros
      exact (Option.some.inj hzeros).symm
    calc ~~~cfg.bannedCpus
        = packageMaskOf cfg .ones dir :=
          (packageMaskOf_ones hread).symm
      _ = packageMaskOf cfg {} dir := by
          rw [← hmaskOnes, ← hmaskZeros, hsame, h.tree]
      _ = cpuSet dir.number 0#(nrCpus) := packageMaskOf_zeros (of_decide_eq_true hcounts) hread
  · intro h
    have hmask : ∀ stack stack', ∀ dir ∈ sysfs.cpuDirs.getD [], dir.Counts cfg →
        packageMaskOf cfg stack dir = packageMaskOf cfg stack' dir :=
      fun stack stack' dir hdir hcounts =>
        (h dir (List.mem_filter.mpr ⟨hdir, decide_eq_true hcounts⟩)).mask_eq stack stack'
    constructor
    · intro stack stack'
      rw [buildTree_eq, buildTree_eq]
      exact treeAfter_congr cfg sysfs t (hmask stack stack')
    · intro stack stack' before dir after hdirs
      have hbefore : ∀ d ∈ before, d ∈ sysfs.cpuDirs.getD [] := by
        intro d hd
        rw [hdirs]
        exact List.mem_append_left _ hd
      have hdir : dir ∈ sysfs.cpuDirs.getD [] := by
        rw [hdirs]
        simp
      rw [treeAfter_congr cfg sysfs t fun d hd => hmask stack stack' d (hbefore d hd)]
      exact (doOneCpu_congr (treeAfter_unbannedCpus cfg sysfs stack' t before)
        (hmask stack stack' dir hdir)).2

theorem solitary_iff :
    Solitary cfg sysfs t ↔ ∀ dir ∈ countedDirs cfg sysfs, dir.SiblingsKnown cfg := by
  constructor
  · intro h dir hmem hread
    obtain ⟨hdir, hcounts⟩ := List.mem_filter.mp hmem
    obtain ⟨before, after, hdirs⟩ := List.append_of_mem hdir
    obtain ⟨package, hpackage, -, hmask⟩ :=
      buildTree_attached cfg .ones t hdirs
        (of_decide_eq_true hcounts)
    obtain ⟨package', hpackage', -, hbit⟩ :=
      h .ones before dir after hdirs (of_decide_eq_true hcounts) hread
    rw [hpackage, Option.some.injEq] at hpackage'
    rw [← hbit, ← hpackage', hmask, packageMaskOf_ones hread]
  · intro h stack before dir after hdirs hcounts hread
    have hdir : dir ∈ sysfs.cpuDirs.getD [] := by
      rw [hdirs]
      simp
    obtain ⟨package, hpackage, hattached, hmask⟩ := buildTree_attached cfg stack t hdirs hcounts
    refine ⟨package, hpackage, hattached, ?_⟩
    have hknown := h dir (List.mem_filter.mpr ⟨hdir, decide_eq_true hcounts⟩)
    rw [hmask, hknown.mask_eq stack {}, packageMaskOf_zeros hcounts hread]

/-- The tree depends on the stack by no CPU, and CPUs without `core_siblings` are
solitary, exactly if each CPU that counts has its `core_siblings` or is the only one that
is not banned. -/
theorem tree_of_inputs_iff (cfg : Config) (sysfs : Sysfs) (t : Topology) :
    StackIndependent cfg sysfs t ∧ Solitary cfg sysfs t ↔
      ∀ dir ∈ countedDirs cfg sysfs,
        dir.coreSiblings = none → ~~~cfg.bannedCpus = cpuSet dir.number 0#(nrCpus) := by
  rw [stackIndependent_iff, solitary_iff]
  exact and_self_iff

/-- Two CPUs, of which the first does not report its siblings. -/
def Sample.shy : Sysfs where
  cpuDirs := some [{ cpuDir cpu0 with coreSiblings := none }, cpuDir cpu1]

/-- A stack with the bit of the second CPU. -/
def Sample.dirty : Stack where
  packageMask := fun _ => 2#(nrCpus)

/-- With zeros on the stack there are two packages, and with that bit on it there
is one. -/
theorem shy_not_stackIndependent : ¬ StackIndependent Sample.config Sample.shy {} := by
  intro h
  have hlengths : (buildTree Sample.config Sample.shy {} {}).packages.length ≠
      (buildTree Sample.config Sample.shy Sample.dirty {}).packages.length := by
    decide +kernel
  rw [h.tree {} Sample.dirty] at hlengths
  exact hlengths rfl

end CodeAnalyze.Irqbalance
