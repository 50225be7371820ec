import CodeAnalyze.Irqbalance.Reach
import CodeAnalyze.Irqbalance.Sample

/-!
# A rescan starts afresh

What `free_object_tree` leaves behind is `cpu_possible_map` and nothing else that the
build reads, so a rescan ends where a new daemon starts.  The build reads one
array it has not written, `package_mask`, and only for a CPU without
`core_siblings`.
-/

namespace CodeAnalyze.Irqbalance

/-- The tree with another `cpu_possible_map`. -/
def Topology.withMap (t : Topology) (map : Cpumask) : Topology := { t with cpuPossibleMap := map }

section Maps

variable (cfg : Config) (sysfs : Sysfs) (t : Topology) (map : Cpumask)

theorem Topology.link_withMap (p c : ObjRef) :
    (t.withMap map).link p c = (t.link p c).withMap map := by
  obtain ⟨pty, pplace⟩ := p
  obtain ⟨cty, cplace⟩ := c
  cases pty <;> cases cty <;> rfl

theorem findPackage_withMap (packageid : ℤ) (packageMask : Cpumask) :
    findPackage (t.withMap map) packageid packageMask =
      ((findPackage t packageid packageMask).1.withMap map,
        (findPackage t packageid packageMask).2) := by
  unfold findPackage
  simp only [Topology.withMap]
  split <;> rfl

theorem findCacheDomain_withMap (cacheMask : Cpumask) :
    findCacheDomain (t.withMap map) cacheMask =
      ((findCacheDomain t cacheMask).1.withMap map, (findCacheDomain t cacheMask).2) := by
  unfold findCacheDomain
  simp only [Topology.withMap]
  split <;> rfl

theorem Topology.obj_withMap (r : ObjRef) : (t.withMap map).obj r = t.obj r := by
  obtain ⟨ty, place⟩ := r
  cases ty <;> rfl

theorem addCpuToCacheDomain_withMap (cpu : ℕ) (cacheMask : Cpumask) :
    addCpuToCacheDomain (t.withMap map) cpu cacheMask =
      ((addCpuToCacheDomain t cpu cacheMask).1.withMap map,
        (addCpuToCacheDomain t cpu cacheMask).2) := by
  unfold addCpuToCacheDomain
  simp only [findCacheDomain_withMap, Topology.obj_withMap, Topology.link_withMap]
  split <;> rfl

theorem addCacheDomainToPackage_withMap (cache : ℕ) (packageid : ℤ) (packageMask : Cpumask) :
    addCacheDomainToPackage (t.withMap map) cache packageid packageMask =
      ((addCacheDomainToPackage t cache packageid packageMask).1.withMap map,
        (addCacheDomainToPackage t cache packageid packageMask).2) := by
  unfold addCacheDomainToPackage
  simp only [findPackage_withMap, Topology.obj_withMap, Topology.link_withMap]
  split <;> rfl

theorem addPackageToNode_withMap (p : ℕ) (nodeid : ℤ) :
    addPackageToNode cfg (t.withMap map) p nodeid =
      (addPackageToNode cfg t p nodeid).withMap map := by
  have hnode : getNumaNode cfg (t.withMap map) nodeid = getNumaNode cfg t nodeid := rfl
  unfold addPackageToNode
  simp only [hnode, Topology.obj_withMap, Topology.link_withMap]
  split
  · rfl
  · split <;> rfl

/-- `do_one_cpu` reads neither `cpu_possible_map` nor, where there is a
`core_siblings`, the stack. -/
theorem doOneCpu_withMap (stack stack' : Stack) {dir : CpuDir} (hdir : dir.coreSiblings ≠ none) :
    ∃ map', doOneCpu cfg stack (t.withMap map) dir = (doOneCpu cfg stack' t dir).withMap map' := by
  have hmask : readPackageMask stack dir = readPackageMask stack' dir := by
    obtain ⟨mask, hmask⟩ := Option.ne_none_iff_exists'.mp hdir
    simp [readPackageMask, hmask]
  unfold doOneCpu
  split
  · exact ⟨map, rfl⟩
  · dsimp only
    split
    · exact ⟨cpuSet dir.number map, rfl⟩
    · refine ⟨cpuSet dir.number map, ?_⟩
      rw [hmask, ← addPackageToNode_withMap]
      have hcache := addCpuToCacheDomain_withMap (withCpu t dir) (cpuSet dir.number map)
        t.cpus.length (readCacheMask cfg dir &&& t.unbannedCpus)
      have hpackage := addCacheDomainToPackage_withMap
        (addCpuToCacheDomain (withCpu t dir) t.cpus.length
          (readCacheMask cfg dir &&& t.unbannedCpus)).1 (cpuSet dir.number map)
        (addCpuToCacheDomain (withCpu t dir) t.cpus.length
          (readCacheMask cfg dir &&& t.unbannedCpus)).2
        (dir.physicalPackageId.getD 0) (readPackageMask stack' dir &&& t.unbannedCpus)
      simp only [withCpu, Topology.withMap] at hcache hpackage ⊢
      rw [hcache]
      dsimp only
      rw [hpackage]

theorem foldl_doOneCpu_withMap (stack stack' : Stack) {dirs : List CpuDir}
    (hdirs : ∀ dir ∈ dirs, dir.coreSiblings ≠ none) :
    ∃ map', dirs.foldl (doOneCpu cfg stack) (t.withMap map) =
      (dirs.foldl (doOneCpu cfg stack') t).withMap map' := by
  induction dirs generalizing t map with
  | nil => exact ⟨map, rfl⟩
  | cons dir dirs ih =>
      obtain ⟨map₁, hdir⟩ := doOneCpu_withMap cfg t map stack stack' (hdirs dir List.mem_cons_self)
      rw [List.foldl_cons, List.foldl_cons, hdir]
      exact ih _ map₁ fun d hd => hdirs d (List.mem_cons_of_mem _ hd)

/-- What is left of the globals of the tree, apart from its objects. -/
def Topology.leftOver (unbanned : Cpumask) : Topology :=
  { t with cpuPossibleMap := map, unbannedCpus := unbanned }

theorem foldl_addOneNode_leftOver (unbanned : Cpumask) (dirs : List NodeDir) :
    dirs.foldl addOneNode (t.leftOver map unbanned) =
      (dirs.foldl addOneNode t).leftOver map unbanned := by
  induction dirs generalizing t with
  | nil => rfl
  | cons dir dirs ih =>
      have hone : addOneNode (t.leftOver map unbanned) dir =
          (addOneNode t dir).leftOver map unbanned := by
        unfold addOneNode
        split <;> rfl
      rw [List.foldl_cons, List.foldl_cons, hone]
      exact ih _

theorem nodeTree_leftOver (unbanned : Cpumask) :
    nodeTree cfg sysfs (t.leftOver map unbanned) = (nodeTree cfg sysfs t).withMap map := by
  unfold nodeTree buildNumaNodeList
  dsimp only
  split
  · rfl
  · split
    · rfl
    · rename_i dirs _
      have hnodes := foldl_addOneNode_leftOver
        { t with numaNodes := t.numaNodes ++ [unspecifiedNodeTemplate] } map unbanned dirs
      simp only [Topology.leftOver, Topology.withMap] at hnodes ⊢
      rw [hnodes]

end Maps

variable {cfg : Config} {sysfs : Sysfs}

/-- What `free_object_tree` leaves of the tree. -/
theorem State.freeObjectTree_topo (s : State) :
    s.freeObjectTree.topo =
      ({} : Topology).leftOver s.topo.cpuPossibleMap s.topo.unbannedCpus := rfl

/-- Two builds from nothing give the same tree. -/
theorem buildTree_leftOver (cfg : Config) (stack stack' : Stack) (map unbanned : Cpumask)
    (hdirs : ∀ dirs, sysfs.cpuDirs = some dirs → ∀ dir ∈ dirs, dir.coreSiblings ≠ none) :
    ∃ map', buildTree cfg sysfs stack (({} : Topology).leftOver map unbanned) =
      (buildTree cfg sysfs stack' {}).withMap map' := by
  rw [buildTree_eq, buildTree_eq, nodeTree_leftOver]
  refine foldl_doOneCpu_withMap cfg _ map stack stack' fun dir hdir => ?_
  cases hcpus : sysfs.cpuDirs with
  | none => simp [hcpus] at hdir
  | some dirs =>
      rw [hcpus] at hdir
      exact hdirs dirs hcpus dir hdir

/-- The database depends on the tree through the numbers of the nodes alone. -/
theorem rebuildIrqDb_withMap (t : Topology) (map : Cpumask) (db db' : IrqDb) :
    rebuildIrqDb cfg sysfs (t.withMap map) db = rebuildIrqDb cfg sysfs t db' := rfl

/-- The rescan sequence leaves the tree, the database and the list of IRQs to place
that a new daemon makes from the same sysfs and `/proc`; only `cpu_possible_map`
keeps the CPUs of the past. -/
theorem rescan_eq_start (cfg : Config) (sysfs : Sysfs) (stack stack' : Stack) (s : State)
    (hdirs : ∀ dirs, sysfs.cpuDirs = some dirs → ∀ dir ∈ dirs, dir.coreSiblings ≠ none) :
    { (s.rescan cfg sysfs stack).topo with
      cpuPossibleMap := (start cfg sysfs stack').topo.cpuPossibleMap } =
        (start cfg sysfs stack').topo ∧
    (s.rescan cfg sysfs stack).irqs = (start cfg sysfs stack').irqs ∧
    (s.rescan cfg sysfs stack).needRescan = (start cfg sysfs stack').needRescan ∧
    (s.rescan cfg sysfs stack).cycleCount = (start cfg sysfs stack').cycleCount := by
  have hrescan : s.rescan cfg sysfs stack =
      State.rebuild cfg sysfs stack
        { s with needRescan := false, cycleCount := 0 }.freeObjectTree := rfl
  have hstart : start cfg sysfs stack' = State.rebuild cfg sysfs stack' {} := rfl
  obtain ⟨map, htree⟩ := buildTree_leftOver cfg stack stack' s.topo.cpuPossibleMap
    s.topo.unbannedCpus hdirs
  rw [hrescan, hstart]
  refine ⟨?_, ?_, ?_, ?_⟩
  · rw [State.rebuild_topo, State.rebuild_topo, State.freeObjectTree_topo, htree]
    rfl
  · rw [State.rebuild_irqs, State.rebuild_irqs, State.freeObjectTree_topo, htree,
      rebuildIrqDb_withMap _ map _ {}]
  · rw [State.rebuild_needRescan, State.rebuild_needRescan]
    rfl
  · rw [State.rebuild_cycleCount, State.rebuild_cycleCount]
    rfl

/-- The sample machine after its interrupts were placed. -/
theorem rescan_eq_start_placed :
    (Sample.placed.rescan Sample.config Sample.machine {}).irqs = Sample.started.irqs :=
  (rescan_eq_start Sample.config Sample.machine {} {} Sample.placed (by
    rintro _ ⟨⟩
    decide)).2.1

end CodeAnalyze.Irqbalance
