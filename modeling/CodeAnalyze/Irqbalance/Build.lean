import CodeAnalyze.Irqbalance.Growth

/-!
# Building the tree

What each function of `numa.c` and `cputree.c` does to the tree, in terms of
`Growth`.  `find_package` and `find_cache_domain` are one thing twice, and so are
the two functions that look an object up and link a child to it: `Found` and
`Attached`.
-/

namespace CodeAnalyze.Irqbalance

open Lib Relation Irqbalance.Topology

variable {cfg : Config} {t t' : Topology}

/-! ## Masks -/

theorem and_eq_zero_of_not_intersects {a b : Cpumask} (h : cpusIntersects a b = false) :
    a &&& b = 0#(nrCpus) := by
  simpa [cpusIntersects, cpusEmpty] using h

theorem restrict_and_banned (mask banned : Cpumask) :
    (mask &&& ~~~banned) &&& banned = 0#(nrCpus) := by
  ext i
  simp [Bool.and_assoc]

/-! ## Nodes -/

theorem getNumaNode_valid {nodeid : ℤ} {node : ℕ} (hnodes : 0 < t.numaNodes.length)
    (h : getNumaNode cfg t nodeid = some node) : t.Valid ⟨.node, node⟩ := by
  unfold getNumaNode at h
  split at h
  · exact Option.some.inj h ▸ hnodes
  · split at h
    · exact Option.some.inj h ▸ hnodes
    · exact (List.findIdx?_eq_some_iff_getElem.mp h).1

theorem grows_node (t : Topology) (o : TopoObj) :
    Grows t { t with numaNodes := t.numaNodes ++ [o] } .node o where
  objs_self := rfl
  objs_other := by intro ty hty; cases ty <;> first | rfl | exact absurd rfl hty
  unbannedCpus := rfl

theorem addOneNode_growth (t : Topology) (dir : NodeDir) (banned : Cpumask) :
    Growth banned t (addOneNode t dir) := by
  unfold addOneNode
  split
  · exact .refl
  · refine .single (.new (grows_node t _) ?_ fun hnode => absurd rfl hnode)
    constructor
    · constructor <;> rfl
    · rfl
    · rfl

theorem buildNumaNodeList_growth (cfg : Config) (sysfs : Sysfs) (t : Topology)
    (banned : Cpumask) : Growth banned t (buildNumaNodeList cfg sysfs t) := by
  have hfirst : Grow banned t { t with numaNodes := t.numaNodes ++ [unspecifiedNodeTemplate] } := by
    refine .new (grows_node t _) ?_ fun hnode => absurd rfl hnode
    constructor
    · constructor <;> rfl
    · rfl
    · rfl
  unfold buildNumaNodeList
  dsimp only
  split
  · exact .single hfirst
  · split
    · exact .single hfirst
    · refine foldl_invariant (fun u => Growth banned t u) (fun dir _ u hu => ?_) (.single hfirst)
      exact hu.trans (addOneNode_growth u dir banned)

theorem Topology.Growth.length_le {banned : Cpumask} (h : Growth banned t t') (ty : ObjType) :
    (t.objs ty).length ≤ (t'.objs ty).length := by
  refine Growth.keeps (P := fun u => (t.objs ty).length ≤ (u.objs ty).length) ?_ (Nat.le_refl _) h
  rintro u u' hu (⟨hobjs, -⟩ | ⟨hgrows, -, -⟩ | ⟨-, -, -⟩)
  · rwa [hobjs]
  · rw [hgrows.length_objs]
    omega
  · rwa [objs_length_link]

theorem Topology.Growth.valid {banned : Cpumask} (h : Growth banned t t') {r : ObjRef}
    (hr : t.Valid r) : t'.Valid r :=
  Nat.lt_of_lt_of_le hr (h.length_le r.objType)

theorem Topology.Growth.unbannedCpus_eq {banned : Cpumask} (h : Growth banned t t') :
    t'.unbannedCpus = t.unbannedCpus := by
  refine Growth.keeps (P := fun u => u.unbannedCpus = t.unbannedCpus) ?_ rfl h
  rintro u u' hu (⟨-, hmap⟩ | ⟨hgrows, -, -⟩ | ⟨-, -, -⟩)
  · exact hmap.trans hu
  · exact hgrows.unbannedCpus.trans hu
  · exact unbannedCpus_link.trans hu

/-- The list starts with the unspecified node. -/
theorem buildNumaNodeList_pos (cfg : Config) (sysfs : Sysfs) (t : Topology) :
    0 < (buildNumaNodeList cfg sysfs t).numaNodes.length := by
  unfold buildNumaNodeList
  dsimp only
  split
  · simp
  · split
    · simp
    · rename_i dirs _
      refine foldl_invariant (fun u : Topology => 0 < u.numaNodes.length) (fun dir _ u hu => ?_)
        (by simp)
      exact Nat.lt_of_lt_of_le hu ((addOneNode_growth u dir 0#(nrCpus)).length_le .node)

/-! ## Packages and cache domains -/

/-- `place` is the first object of a type with a mask: one that was there, or a new
one. -/
structure Found (t : Topology) (ty : ObjType) (mask : Cpumask) (t' : Topology) (place : ℕ) :
    Prop where
  valid : t'.Valid ⟨ty, place⟩
  mask_eq : (t'.obj ⟨ty, place⟩).mask = mask
  cases : t' = t ∨ ∃ o, Grows t t' ty o ∧ o.New ∧ o.mask = mask ∧
    place = (t.objs ty).length ∧ ∀ r, r.objType = ty → t.Valid r → (t.obj r).mask ≠ mask

/-- The lookup by mask both functions start with. -/
theorem found_of_findIdx? {ty : ObjType} {mask : Cpumask} {place : ℕ}
    (h : (t.objs ty).findIdx? (fun o => o.mask == mask) = some place) :
    Found t ty mask t place := by
  obtain ⟨hlt, hmask, -⟩ := List.findIdx?_eq_some_iff_getElem.mp h
  refine ⟨hlt, ?_, .inl rfl⟩
  simpa [obj, List.getElem?_eq_getElem hlt] using hmask

theorem found_of_grows {ty : ObjType} {mask : Cpumask} {o : TopoObj}
    (h : (t.objs ty).findIdx? (fun o => o.mask == mask) = none) (hgrows : Grows t t' ty o)
    (hnew : o.New) (hmask : o.mask = mask) : Found t ty mask t' (t.objs ty).length := by
  refine ⟨hgrows.valid_new, ?_, .inr ⟨o, hgrows, hnew, hmask, rfl, fun r hr hvalid => ?_⟩⟩
  · rw [hgrows.obj_new, hmask]
  · subst hr
    have hlt : r.place < (t.objs r.objType).length := hvalid
    have hother := List.findIdx?_eq_none_iff.mp h _ (List.getElem_mem hlt)
    simpa [obj, List.getElem?_eq_getElem hlt] using hother

theorem findPackage_found (t : Topology) (packageid : ℤ) (packageMask : Cpumask) :
    Found t .package packageMask (findPackage t packageid packageMask).1
      (findPackage t packageid packageMask).2 := by
  unfold findPackage
  split
  · rename_i package h
    exact found_of_findIdx? h
  · rename_i h
    refine found_of_grows (o := { mask := packageMask, number := packageid }) h ?_ ?_ rfl
    · constructor
      · rfl
      · intro ty hty
        cases ty <;> first | rfl | exact absurd rfl hty
      · rfl
    · constructor
      · constructor <;> rfl
      · rfl
      · rfl

theorem findCacheDomain_found (t : Topology) (cacheMask : Cpumask) :
    Found t .cache cacheMask (findCacheDomain t cacheMask).1 (findCacheDomain t cacheMask).2 := by
  unfold findCacheDomain
  split
  · rename_i cache h
    exact found_of_findIdx? h
  · rename_i h
    refine found_of_grows (o := { mask := cacheMask, number := t.cacheDomainCount }) h ?_ ?_ rfl
    · constructor
      · rfl
      · intro ty hty
        cases ty <;> first | rfl | exact absurd rfl hty
      · rfl
    · constructor
      · constructor <;> rfl
      · rfl
      · rfl

theorem Found.growth {ty : ObjType} {mask banned : Cpumask} {place : ℕ}
    (h : Found t ty mask t' place) (hmask : mask &&& banned = 0#(nrCpus)) :
    Growth banned t t' := by
  rcases h.cases with rfl | ⟨o, hgrows, hnew, ho, -, -⟩
  · exact .refl
  · exact .single (.new hgrows hnew fun _ => ho ▸ hmask)

/-- An object with a mask is looked up, or made, and `child` is linked to it unless it
is there already. -/
structure Attached (t : Topology) (ty : ObjType) (mask : Cpumask) (child : ObjRef)
    (mid t' : Topology) (place : ℕ) : Prop where
  found : Found t ty mask mid place
  cases : child ∈ mid.childRefs ⟨ty, place⟩ ∧ t' = mid ∨
    child ∉ mid.childRefs ⟨ty, place⟩ ∧ t' = mid.link ⟨ty, place⟩ child

theorem mem_childRefs_iff {p : ObjRef} {ty : ObjType} (h : p.objType.below = some ty)
    (place : ℕ) : ⟨ty, place⟩ ∈ t.childRefs p ↔ place ∈ (t.obj p).children := by
  simp [childRefs, h]

theorem addCpuToCacheDomain_attached (t : Topology) (cpu : ℕ) (cacheMask : Cpumask) :
    Attached t .cache cacheMask ⟨.cpu, cpu⟩ (findCacheDomain t cacheMask).1
      (addCpuToCacheDomain t cpu cacheMask).1 (addCpuToCacheDomain t cpu cacheMask).2 := by
  unfold addCpuToCacheDomain
  dsimp only
  split
  · rename_i h
    exact ⟨findCacheDomain_found t cacheMask, .inl ⟨(mem_childRefs_iff rfl cpu).mpr h, rfl⟩⟩
  · rename_i h
    exact ⟨findCacheDomain_found t cacheMask,
      .inr ⟨fun hmem => h ((mem_childRefs_iff rfl cpu).mp hmem), rfl⟩⟩

theorem addCacheDomainToPackage_attached (t : Topology) (cache : ℕ) (packageid : ℤ)
    (packageMask : Cpumask) :
    Attached t .package packageMask ⟨.cache, cache⟩ (findPackage t packageid packageMask).1
      (addCacheDomainToPackage t cache packageid packageMask).1
      (addCacheDomainToPackage t cache packageid packageMask).2 := by
  unfold addCacheDomainToPackage
  dsimp only
  split
  · rename_i h
    exact ⟨findPackage_found t packageid packageMask,
      .inl ⟨(mem_childRefs_iff rfl cache).mpr h, rfl⟩⟩
  · rename_i h
    exact ⟨findPackage_found t packageid packageMask,
      .inr ⟨fun hmem => h ((mem_childRefs_iff rfl cache).mp hmem), rfl⟩⟩

theorem Attached.growth {ty : ObjType} {mask banned : Cpumask} {child : ObjRef}
    {mid : Topology} {place : ℕ} (h : Attached t ty mask child mid t' place)
    (hmask : mask &&& banned = 0#(nrCpus)) (hchild : t.Valid child)
    (hty : ty.below = some child.objType) : Growth banned t t' := by
  have hmid := h.found.growth hmask
  rcases h.cases with ⟨-, rfl⟩ | ⟨-, rfl⟩
  · exact hmid
  · exact hmid.tail (.link h.found.valid (hmid.valid hchild) hty)

theorem addPackageToNode_growth {p : ℕ} {nodeid : ℤ} (banned : Cpumask)
    (hnodes : 0 < t.numaNodes.length) (hp : t.Valid ⟨.package, p⟩) :
    Growth banned t (addPackageToNode cfg t p nodeid) := by
  unfold addPackageToNode
  split
  · exact .refl
  · rename_i node hnode
    split
    · exact .single (.link (getNumaNode_valid hnodes hnode) hp rfl)
    · exact .refl

/-! ## CPUs -/

/-- `do_one_cpu` goes past its checks. -/
def CpuDir.Counts (cfg : Config) (dir : CpuDir) : Prop :=
  dir.online = true ∧ cpusIntersects (cpuSet dir.number 0#(nrCpus)) cfg.bannedCpus = false

instance (cfg : Config) (dir : CpuDir) : Decidable (dir.Counts cfg) :=
  inferInstanceAs (Decidable (_ ∧ _))

/-- The mask of the CPU's cache domain. -/
def cacheMaskOf (cfg : Config) (dir : CpuDir) : Cpumask :=
  readCacheMask cfg dir &&& ~~~cfg.bannedCpus

/-- The mask of the CPU's package. -/
def packageMaskOf (cfg : Config) (stack : Stack) (dir : CpuDir) : Cpumask :=
  readPackageMask stack dir &&& ~~~cfg.bannedCpus

/-- The tree `do_one_cpu` goes on with once it has made the CPU. -/
def withCpu (t : Topology) (dir : CpuDir) : Topology :=
  { t with
    cpuPossibleMap := cpuSet dir.number t.cpuPossibleMap
    cpus := t.cpus ++ [{ number := dir.number.val, mask := cpuSet dir.number 0#(nrCpus) }]
    coreCount := t.coreCount + 1 }

theorem withCpu_grows (t : Topology) (dir : CpuDir) :
    Grows t (withCpu t dir) .cpu
      { number := dir.number.val, mask := cpuSet dir.number 0#(nrCpus) } where
  objs_self := rfl
  objs_other := by intro ty hty; cases ty <;> first | rfl | exact absurd rfl hty
  unbannedCpus := rfl

/-- `do_one_cpu`, for a CPU that does not count and for one that does. -/
theorem doOneCpu_cases (cfg : Config) (stack : Stack) (t : Topology) (dir : CpuDir) :
    (¬ dir.Counts cfg ∧ (∀ ty, (doOneCpu cfg stack t dir).objs ty = t.objs ty) ∧
      (doOneCpu cfg stack t dir).unbannedCpus = t.unbannedCpus) ∨
    dir.Counts cfg ∧ doOneCpu cfg stack t dir =
      (let (t₁, cache) := addCpuToCacheDomain (withCpu t dir) t.cpus.length
        (readCacheMask cfg dir &&& t.unbannedCpus)
      let (t₂, package) := addCacheDomainToPackage t₁ cache (dir.physicalPackageId.getD 0)
        (readPackageMask stack dir &&& t.unbannedCpus)
      addPackageToNode cfg t₂ package (readNodeid cfg dir)) := by
  unfold doOneCpu
  by_cases honline : dir.online = true
  · rw [if_neg (by simp [honline])]
    dsimp only
    by_cases hbanned : cpusIntersects (cpuSet dir.number 0#(nrCpus)) cfg.bannedCpus = true
    · rw [if_pos hbanned]
      exact .inl ⟨fun h => by simp [h.2] at hbanned, fun ty => by cases ty <;> rfl, rfl⟩
    · rw [if_neg hbanned]
      exact .inr ⟨⟨honline, by simpa using hbanned⟩, rfl⟩
  · rw [if_pos (by simpa using honline)]
    exact .inl ⟨fun h => honline h.1, fun _ => rfl, rfl⟩

/-- The stages of `do_one_cpu` for a CPU that counts. -/
structure Built (cfg : Config) (stack : Stack) (t : Topology) (dir : CpuDir)
    (mid₁ t₁ mid₂ t₂ t' : Topology) (cache package : ℕ) : Prop where
  onCache :
    Attached (withCpu t dir) .cache (cacheMaskOf cfg dir) ⟨.cpu, t.cpus.length⟩ mid₁ t₁ cache
  onPackage : Attached t₁ .package (packageMaskOf cfg stack dir) ⟨.cache, cache⟩ mid₂ t₂ package
  onNode : t' = addPackageToNode cfg t₂ package (readNodeid cfg dir)

theorem doOneCpu_built (stack : Stack) {dir : CpuDir}
    (hunbanned : t.unbannedCpus = ~~~cfg.bannedCpus) (hdir : dir.Counts cfg) :
    ∃ mid₁ t₁ mid₂ t₂ cache package,
      Built cfg stack t dir mid₁ t₁ mid₂ t₂ (doOneCpu cfg stack t dir) cache package := by
  rcases doOneCpu_cases cfg stack t dir with ⟨hnot, -⟩ | ⟨-, heq⟩
  · exact absurd hdir hnot
  · rw [hunbanned] at heq
    exact ⟨_, _, _, _, _, _, addCpuToCacheDomain_attached _ _ _,
      addCacheDomainToPackage_attached _ _ (dir.physicalPackageId.getD 0) _, heq⟩

section Stages

variable {stack : Stack} {dir : CpuDir} {mid₁ t₁ mid₂ t₂ : Topology} {cache package : ℕ}
  (h : Built cfg stack t dir mid₁ t₁ mid₂ t₂ t' cache package)

theorem withCpu_growth (hdir : dir.Counts cfg) (t : Topology) :
    Growth cfg.bannedCpus t (withCpu t dir) := by
  have hmask := and_eq_zero_of_not_intersects hdir.2
  refine .single (.new (withCpu_grows t dir) ?_ fun _ => hmask)
  constructor
  · constructor <;> rfl
  · rfl
  · rfl

include h

theorem Built.growth₁ : Growth cfg.bannedCpus (withCpu t dir) t₁ :=
  h.onCache.growth (restrict_and_banned _ _) (withCpu_grows t dir).valid_new rfl

theorem Built.cache_valid : t₁.Valid ⟨.cache, cache⟩ := by
  have hfound := h.onCache.found.valid
  rcases h.onCache.cases with ⟨-, rfl⟩ | ⟨-, rfl⟩
  · exact hfound
  · exact valid_link.mpr hfound

theorem Built.growth₂ : Growth cfg.bannedCpus t₁ t₂ :=
  h.onPackage.growth (restrict_and_banned _ _) h.cache_valid rfl

theorem Built.package_valid : t₂.Valid ⟨.package, package⟩ := by
  have hfound := h.onPackage.found.valid
  rcases h.onPackage.cases with ⟨-, rfl⟩ | ⟨-, rfl⟩
  · exact hfound
  · exact valid_link.mpr hfound

theorem Built.growth₁₂ (hdir : dir.Counts cfg) : Growth cfg.bannedCpus t t₂ :=
  (withCpu_growth hdir t).trans (h.growth₁.trans h.growth₂)

theorem Built.growth (hdir : dir.Counts cfg) (hnodes : 0 < t.numaNodes.length) : Growth cfg.bannedCpus t t' := by
  have hnodes₂ : 0 < t₂.numaNodes.length :=
    Nat.lt_of_lt_of_le hnodes ((h.growth₁₂ hdir).length_le .node)
  rw [h.onNode]
  exact (h.growth₁₂ hdir).trans (addPackageToNode_growth _ hnodes₂ h.package_valid)

end Stages

theorem doOneCpu_growth {stack : Stack} {dir : CpuDir} (hnodes : 0 < t.numaNodes.length)
    (hunbanned : t.unbannedCpus = ~~~cfg.bannedCpus) :
    Growth cfg.bannedCpus t (doOneCpu cfg stack t dir) := by
  by_cases hdir : dir.Counts cfg
  · obtain ⟨_, _, _, _, _, _, hbuilt⟩ := doOneCpu_built stack hunbanned hdir
    exact hbuilt.growth hdir hnodes
  · rcases doOneCpu_cases cfg stack t dir with ⟨-, hobjs, hmap⟩ | ⟨hcounts, -⟩
    · exact .single (.count hobjs hmap)
    · exact absurd hcounts hdir

/-! ## The whole tree -/

/-- `build_numa_node_list` and `parse_cpu_tree`. -/
def buildTree (cfg : Config) (sysfs : Sysfs) (stack : Stack) (t : Topology) : Topology :=
  parseCpuTree cfg sysfs stack (buildNumaNodeList cfg sysfs t)

/-- The tree `parse_cpu_tree` starts from. -/
def nodeTree (cfg : Config) (sysfs : Sysfs) (t : Topology) : Topology :=
  { buildNumaNodeList cfg sysfs t with unbannedCpus := ~~~cfg.bannedCpus }

theorem buildTree_eq (cfg : Config) (sysfs : Sysfs) (stack : Stack) (t : Topology) :
    buildTree cfg sysfs stack t =
      (sysfs.cpuDirs.getD []).foldl (doOneCpu cfg stack) (nodeTree cfg sysfs t) := by
  unfold buildTree parseCpuTree nodeTree
  cases sysfs.cpuDirs <;> rfl

/-- A loop over CPU directories grows the tree. -/
theorem foldl_doOneCpu_growth (stack : Stack) (hnodes : 0 < t.numaNodes.length)
    (hunbanned : t.unbannedCpus = ~~~cfg.bannedCpus) (dirs : List CpuDir) :
    Growth cfg.bannedCpus t (dirs.foldl (doOneCpu cfg stack) t) := by
  refine foldl_invariant (fun u => Growth cfg.bannedCpus t u) (fun dir _ u hu => ?_) .refl
  refine hu.trans (doOneCpu_growth (Nat.lt_of_lt_of_le hnodes (hu.length_le .node)) ?_)
  rw [hu.unbannedCpus_eq, hunbanned]

theorem buildTree_growth (cfg : Config) (sysfs : Sysfs) (stack : Stack) (t : Topology) :
    Growth cfg.bannedCpus (nodeTree cfg sysfs t) (buildTree cfg sysfs stack t) := by
  rw [buildTree_eq]
  exact foldl_doOneCpu_growth stack (t := nodeTree cfg sysfs t) (buildNumaNodeList_pos cfg sysfs t) rfl _

theorem nodeTree_sound (cfg : Config) (sysfs : Sysfs) (ht : ∀ ty, t.objs ty = []) :
    Sound cfg.bannedCpus (nodeTree cfg sysfs t) := by
  have hgrowth := buildNumaNodeList_growth cfg sysfs t cfg.bannedCpus
  have hsound := (sound_empty cfg.bannedCpus ht).growth hgrowth
  have hobjs : ∀ ty, (nodeTree cfg sysfs t).objs ty = (buildNumaNodeList cfg sysfs t).objs ty := by
    intro ty
    cases ty <;> rfl
  constructor
  · intro r
    rw [obj_of_objs hobjs]
    exact hsound.idle r
  · intro r hr
    rw [obj_of_objs hobjs]
    exact hsound.mask r hr
  · intro p c hc
    rw [childRefs_of_objs hobjs] at hc
    exact (valid_of_objs hobjs c).mpr (hsound.child_valid p c hc)
  · intro c p hp
    rw [parentRef_of_objs hobjs] at hp
    exact (valid_of_objs hobjs p).mpr (hsound.parent_valid c p hp)
  · intro r hr
    rw [obj_of_objs hobjs]
    exact hsound.cpu_childless r hr

theorem buildTree_sound (cfg : Config) (sysfs : Sysfs) (stack : Stack) (ht : ∀ ty, t.objs ty = []) :
    Sound cfg.bannedCpus (buildTree cfg sysfs stack t) :=
  (nodeTree_sound cfg sysfs ht).growth (buildTree_growth cfg sysfs stack t)

theorem buildTree_unbannedCpus (cfg : Config) (sysfs : Sysfs) (stack : Stack) (t : Topology) :
    (buildTree cfg sysfs stack t).unbannedCpus = ~~~cfg.bannedCpus :=
  (buildTree_growth cfg sysfs stack t).unbannedCpus_eq

theorem buildTree_pos (cfg : Config) (sysfs : Sysfs) (stack : Stack) (t : Topology) :
    0 < (buildTree cfg sysfs stack t).numaNodes.length :=
  Nat.lt_of_lt_of_le (buildNumaNodeList_pos cfg sysfs t)
    ((buildTree_growth cfg sysfs stack t).length_le .node)

end CodeAnalyze.Irqbalance
