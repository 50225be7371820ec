import CodeAnalyze.Irqbalance.Reach
import CodeAnalyze.Irqbalance.Requests
import CodeAnalyze.Irqbalance.TreeShape

/-!
# Do the lookups of NUMA nodes succeed?

`get_numa_node` finds the nodes whose directories could be read, and it is called with
numbers that come from elsewhere: the files `numa_node` of the devices, the node links of
the CPUs, and the policy script.  `parse_user_policy_key` is the one caller that looks
whether it has found anything and does without where it has not.
-/

namespace CodeAnalyze.Irqbalance

open Lib Relation Irqbalance.Topology

variable {cfg : Config} {sysfs : Sysfs} {stack : Stack} {t t' : Topology}

/-! ## The nodes there are -/

/-- A node with the number is there to be found. -/
def KnownNode (cfg : Config) (sysfs : Sysfs) (nodeid : ℤ) : Prop :=
  cfg.numaAvail = true → nodeid ≠ -1 →
    ∃ dir ∈ sysfs.nodeDirs.getD [], dir.cpumap ≠ none ∧ dir.number = nodeid

instance (cfg : Config) (sysfs : Sysfs) (nodeid : ℤ) : Decidable (KnownNode cfg sysfs nodeid) :=
  inferInstanceAs (Decidable (_ → _ → _))

/-- The numbers of the node directories that can be read. -/
def nodeNumbers (sysfs : Sysfs) : List ℤ :=
  ((sysfs.nodeDirs.getD []).filter fun dir => dir.cpumap.isSome).map NodeDir.number

/-- Nodes with these numbers, and nothing else. -/
def readableNodes (sysfs : Sysfs) : Topology :=
  { numaNodes := (nodeNumbers sysfs).map fun number => { number := number } }

theorem mem_nodeNumbers {nodeid : ℤ} : nodeid ∈ nodeNumbers sysfs ↔
    ∃ dir ∈ sysfs.nodeDirs.getD [], dir.cpumap ≠ none ∧ dir.number = nodeid := by
  simp only [nodeNumbers, List.mem_map, List.mem_filter, Option.isSome_iff_ne_none, and_assoc]

/-- What `get_numa_node` can find on a list of nodes. -/
theorem getNumaNode_isSome_iff_mem {nodeid : ℤ} :
    (getNumaNode cfg t nodeid).isSome ↔
      (cfg.numaAvail = true → nodeid ≠ -1 → nodeid ∈ t.numaNodes.map TopoObj.number) := by
  unfold getNumaNode
  cases cfg.numaAvail with
  | false => simp
  | true =>
      by_cases hid : nodeid = -1
      · simp [hid]
      · simp [hid, List.findIdx?_isSome, List.any_eq_true]

theorem getNumaNode_readableNodes {nodeid : ℤ} :
    (getNumaNode cfg (readableNodes sysfs) nodeid).isSome ↔ KnownNode cfg sysfs nodeid := by
  have hnumbers : (readableNodes sysfs).numaNodes.map TopoObj.number = nodeNumbers sysfs := by
    rw [readableNodes, List.map_map]
    exact List.map_id _
  rw [getNumaNode_isSome_iff_mem, hnumbers]
  exact forall₂_congr fun _ _ => mem_nodeNumbers

theorem foldl_addOneNode_numbers (dirs : List NodeDir) (t : Topology) :
    (dirs.foldl addOneNode t).numaNodes.map TopoObj.number =
      t.numaNodes.map TopoObj.number ++
        (dirs.filter fun dir => dir.cpumap.isSome).map NodeDir.number := by
  induction dirs generalizing t with
  | nil => simp
  | cons dir rest ih =>
      rw [List.foldl_cons, ih]
      unfold addOneNode
      cases hmask : dir.cpumap with
      | none => simp [hmask]
      | some mask => simp [hmask]

theorem nodeTree_numbers (cfg : Config) (sysfs : Sysfs) (ht : t.numaNodes = []) :
    (nodeTree cfg sysfs t).numaNodes.map TopoObj.number =
      -1 :: if cfg.numaAvail then nodeNumbers sysfs else [] := by
  unfold nodeTree buildNumaNodeList nodeNumbers
  dsimp only
  rw [ht]
  cases cfg.numaAvail with
  | false => rfl
  | true =>
      cases sysfs.nodeDirs with
      | none => rfl
      | some dirs => exact foldl_addOneNode_numbers dirs _

/-! ## The numbers stay the same -/

theorem numbers_link (t : Topology) (p c : ObjRef) :
    (t.link p c).numaNodes.map TopoObj.number = t.numaNodes.map TopoObj.number := by
  have hone : ∀ (t : Topology) (r : ObjRef) {f : TopoObj → TopoObj}, (∀ o, (f o).number = o.number) →
      ((t.modify r f).objs .node).map TopoObj.number = (t.objs .node).map TopoObj.number := by
    intro t r f hf
    rw [objs_modify]
    split
    · exact map_modify_eq hf _ _
    · rfl
  have hparent := hone (t.modify p fun o => { o with children := o.children ++ [c.place] }) c
    (f := fun o => { o with parent := some p.place }) fun _ => rfl
  exact hparent.trans (hone t p fun _ => rfl)

theorem Attached.numbers {ty : ObjType} {mask : Cpumask} {child : ObjRef} {mid : Topology}
    {place : ℕ} (h : Attached t ty mask child mid t' place) (hty : ObjType.node ≠ ty) :
    t'.numaNodes.map TopoObj.number = t.numaNodes.map TopoObj.number := by
  have hfound : mid.numaNodes = t.numaNodes := by
    rcases h.found.cases with rfl | ⟨o, hgrows, -⟩
    · rfl
    · exact hgrows.objs_other .node hty
  rcases h.cases with ⟨-, rfl⟩ | ⟨-, rfl⟩
  · rw [hfound]
  · rw [numbers_link, hfound]

theorem addPackageToNode_numbers (cfg : Config) (t : Topology) (p : ℕ) (nodeid : ℤ) :
    (addPackageToNode cfg t p nodeid).numaNodes.map TopoObj.number =
      t.numaNodes.map TopoObj.number := by
  rcases addPackageToNode_cases cfg t p nodeid with ⟨heq, -⟩ | ⟨-, node, -, heq⟩
  · rw [heq]
  · rw [heq, numbers_link]

theorem doOneCpu_numbers (cfg : Config) (stack : Stack) (t : Topology) (dir : CpuDir) :
    (doOneCpu cfg stack t dir).numaNodes.map TopoObj.number = t.numaNodes.map TopoObj.number := by
  rcases doOneCpu_cases cfg stack t dir with ⟨-, hobjs, -⟩ | ⟨-, heq⟩
  · exact congrArg (List.map TopoObj.number) (hobjs .node)
  · rw [heq]
    dsimp only
    rw [addPackageToNode_numbers, (addCacheDomainToPackage_attached _ _ _ _).numbers (by simp),
      (addCpuToCacheDomain_attached _ _ _).numbers (by simp)]
    rfl

/-- The first `parse_cpu_tree` calls find what the last one and `rebuild_irq_db` find. -/
theorem getNumaNode_foldl (ht : t.numaNodes = []) (dirs : List CpuDir) {nodeid : ℤ} :
    (getNumaNode cfg (dirs.foldl (doOneCpu cfg stack) (nodeTree cfg sysfs t)) nodeid).isSome ↔
      KnownNode cfg sysfs nodeid := by
  have hsame := foldl_keeps (fun u : Topology => u.numaNodes.map TopoObj.number)
    (fun dir u => doOneCpu_numbers cfg stack u dir) dirs (nodeTree cfg sysfs t)
  rw [getNumaNode_isSome_iff_mem, hsame, nodeTree_numbers cfg sysfs ht]
  refine forall₂_congr fun havail hid => ?_
  rw [if_pos havail, List.mem_cons, mem_nodeNumbers]
  exact or_iff_right hid

theorem getNumaNode_buildTree (ht : t.numaNodes = []) {nodeid : ℤ} :
    (getNumaNode cfg (buildTree cfg sysfs stack t) nodeid).isSome ↔ KnownNode cfg sysfs nodeid := by
  rw [buildTree_eq]
  exact getNumaNode_foldl ht _

/-! ## The policy of an IRQ -/

theorem parseUserPolicyKey_congr
    (h : ∀ nodeid, (getNumaNode cfg t nodeid).isSome = (getNumaNode cfg t' nodeid).isSome)
    (buf : Bytes) (pol : UserIrqPolicy) :
    parseUserPolicyKey cfg t buf pol = parseUserPolicyKey cfg t' buf pol := by
  unfold parseUserPolicyKey
  cases strchr (cstr buf) 61 with
  | none => rfl
  | some split =>
      obtain ⟨key, rest⟩ := split
      dsimp only
      generalize rest.takeWhile (· ≠ 10) = value
      have hsame := h (toInt (strtoul value))
      cases hnode : getNumaNode cfg t (toInt (strtoul value)) with
      | none =>
          rw [hnode] at hsame
          rw [Option.not_isSome_iff_eq_none.mp (Bool.eq_false_iff.mp hsame.symm)]
      | some node =>
          rw [hnode] at hsame
          obtain ⟨node', hnode'⟩ := Option.isSome_iff_exists.mp hsame.symm
          rw [hnode']

/-- The policy depends on the tree through the numbers of the nodes only. -/
theorem getIrqUserPolicy_congr
    (h : ∀ nodeid, (getNumaNode cfg t nodeid).isSome = (getNumaNode cfg t' nodeid).isSome)
    (path : DevPath) (irq : ℤ) :
    getIrqUserPolicy cfg sysfs t path irq = getIrqUserPolicy cfg sysfs t' path irq := by
  unfold getIrqUserPolicy
  have hkey : (fun pol buf => parseUserPolicyKey cfg t buf pol) =
      fun pol buf => parseUserPolicyKey cfg t' buf pol := by
    funext pol buf
    exact parseUserPolicyKey_congr h buf pol
  rw [hkey]

theorem pol_buildTree (ht : t.numaNodes = []) (r : Request) :
    r.pol cfg sysfs (buildTree cfg sysfs stack t) = r.pol cfg sysfs (readableNodes sysfs) := by
  refine getIrqUserPolicy_congr (fun nodeid => ?_) r.path r.irq
  rw [Bool.eq_iff_iff, getNumaNode_buildTree ht, getNumaNode_readableNodes]

/-! ## Packages and their nodes -/

/-- What has a parent is among its children. -/
theorem Topology.Growth.held {banned : Cpumask} (h : Growth banned t t')
    (ht : ∀ c p, t.parentRef c = some p → c ∈ t.childRefs p) (c p : ObjRef) :
    t'.parentRef c = some p → c ∈ t'.childRefs p := by
  revert c p
  refine Growth.keeps (P := fun u => ∀ c p, u.parentRef c = some p → c ∈ u.childRefs p) ?_ ht h
  rintro u u' hheld hgrow c p hparent
  have hkept : u.parentRef c = some p → c ∈ u'.childRefs p := fun hold =>
    Growth.mem_childRefs (.single hgrow) (hheld c p hold)
  rcases hgrow with ⟨hobjs, -⟩ | ⟨hgrows, hnew, -⟩ | ⟨hp, hc, hty⟩
  · rw [parentRef_of_objs hobjs] at hparent
    exact hkept hparent
  · rw [hgrows.parentRef hnew] at hparent
    exact hkept hparent
  · rw [parentRef_link hty hc] at hparent
    split at hparent
    · rename_i heq
      rw [← Option.some.inj hparent, childRefs_link hty hp, if_pos rfl, heq]
      simp
    · exact hkept hparent

/-- A package gets a parent where its CPU has a node. -/
theorem Built.parentRef_package {dir : CpuDir} {mid₁ t₁ mid₂ t₂ : Topology} {cache package : ℕ}
    (h : Built cfg stack t dir mid₁ t₁ mid₂ t₂ t' cache package) (p : ℕ) :
    (t'.parentRef ⟨.package, p⟩).isSome ↔ (t.parentRef ⟨.package, p⟩).isSome ∨
      p = package ∧ (getNumaNode cfg t₂ (readNodeid cfg dir)).isSome := by
  have hsame : t₂.parentRef ⟨.package, p⟩ = t.parentRef ⟨.package, p⟩ := by
    rw [h.onPackage.parentRef_eq rfl h.cache_valid, if_neg (by simp),
      h.onCache.parentRef_eq rfl (withCpu_grows t dir).valid_new, if_neg (by simp),
      (withCpu_grows t dir).parentRef (withCpu_new dir)]
  by_cases hp : p = package
  · subst hp
    constructor
    · intro hsome
      by_cases hnode : (getNumaNode cfg t₂ (readNodeid cfg dir)).isSome
      · exact .inr ⟨rfl, hnode⟩
      · rw [h.onNode, addPackageToNode, Option.not_isSome_iff_eq_none.mp hnode, hsame] at hsome
        exact .inl hsome
    · rintro (hold | ⟨-, hnode⟩)
      · rw [h.onNode]
        rcases addPackageToNode_cases cfg t₂ p (readNodeid cfg dir) with ⟨heq, -⟩ | ⟨hnone, -⟩
        · rw [heq, hsame]
          exact hold
        · rw [hsame] at hnone
          rw [hnone] at hold
          cases hold
      · exact h.package_rooted hnode
  · have hother : t'.parentRef ⟨.package, p⟩ = t₂.parentRef ⟨.package, p⟩ := by
      rw [h.onNode]
      rcases addPackageToNode_cases cfg t₂ package (readNodeid cfg dir) with
        ⟨heq, -⟩ | ⟨-, node, -, heq⟩
      · rw [heq]
      · rw [heq, parentRef_link (c := ⟨.package, package⟩) rfl h.package_valid, if_neg (by simpa using hp)]
    rw [hother, hsame]
    exact ⟨.inl, fun hor => hor.resolve_right fun hand => hp hand.1⟩

theorem Built.numbers {dir : CpuDir} {mid₁ t₁ mid₂ t₂ : Topology} {cache package : ℕ}
    (h : Built cfg stack t dir mid₁ t₁ mid₂ t₂ t' cache package) :
    t₂.numaNodes.map TopoObj.number = t.numaNodes.map TopoObj.number := by
  rw [h.onPackage.numbers (by simp), h.onCache.numbers (by simp)]
  rfl

/-- What the directories seen so far have made of the packages. -/
structure Housed (cfg : Config) (sysfs : Sysfs) (stack : Stack) (t : Topology)
    (seen : List CpuDir) : Prop where
  distinct : Distinct t .package
  made : ∀ dir ∈ seen, ∃ p, t.Valid ⟨.package, p⟩ ∧
    (t.obj ⟨.package, p⟩).mask = packageMaskOf cfg stack dir
  reported : ∀ p, t.Valid ⟨.package, p⟩ → ∃ dir ∈ seen,
    (t.obj ⟨.package, p⟩).mask = packageMaskOf cfg stack dir
  /-- One CPU with a node is enough for the package. -/
  rooted : ∀ p, t.Valid ⟨.package, p⟩ → ((t.parentRef ⟨.package, p⟩).isSome ↔ ∃ dir ∈ seen,
    (t.obj ⟨.package, p⟩).mask = packageMaskOf cfg stack dir ∧
      KnownNode cfg sysfs (readNodeid cfg dir))
  below : ∀ r, t.Valid r → r.objType = .cpu ∨ r.objType = .cache → (t.parentRef r).isSome

/-- A package that is not made yet has no CPU. -/
theorem Housed.rooted_iff {seen : List CpuDir} (h : Housed cfg sysfs stack t seen)
    {banned : Cpumask} (hgrowth : Growth banned t t') (hdistinct : Distinct t' .package) {p : ℕ}
    (hp : t'.Valid ⟨.package, p⟩) :
    (t.parentRef ⟨.package, p⟩).isSome ↔ ∃ dir ∈ seen,
      (t'.obj ⟨.package, p⟩).mask = packageMaskOf cfg stack dir ∧
        KnownNode cfg sysfs (readNodeid cfg dir) := by
  by_cases hold : t.Valid ⟨.package, p⟩
  · rw [hgrowth.mask_eq hold]
    exact h.rooted p hold
  · constructor
    · intro hsome
      rw [parentRef_package, obj_of_not_valid hold] at hsome
      cases hsome
    · rintro ⟨dir, hdir, hmask, -⟩
      obtain ⟨q, hq, hqmask⟩ := h.made dir hdir
      have hsame : (⟨.package, p⟩ : ObjRef) = ⟨.package, q⟩ :=
        hdistinct _ _ rfl rfl hp (hgrowth.valid hq) (by rw [hmask, hgrowth.mask_eq hq, hqmask])
      exact absurd (hsame ▸ hq) hold

/-- A CPU leaves the packages housed for one directory more. -/
theorem Housed.step {seen : List CpuDir} {dir : CpuDir} (h : Housed cfg sysfs stack t seen)
    (hsound : Sound cfg.bannedCpus t) (hunbanned : t.unbannedCpus = ~~~cfg.bannedCpus)
    (hnodes : 0 < t.numaNodes.length) (hdir : dir.Counts cfg)
    (hknown : (getNumaNode cfg t (readNodeid cfg dir)).isSome ↔
      KnownNode cfg sysfs (readNodeid cfg dir)) :
    Housed cfg sysfs stack (doOneCpu cfg stack t dir) (seen ++ [dir]) := by
  obtain ⟨mid₁, t₁, mid₂, t₂, cache, package, hb⟩ := doOneCpu_built stack hunbanned hdir
  have hgrowth := hb.growth hdir hnodes
  have hnodes₂ := Nat.lt_of_lt_of_le hnodes ((hb.growth₁₂ hdir).length_le .node)
  obtain ⟨hvalid, hmask, -⟩ := hb.node_same hnodes₂
  have hdistinct : Distinct (doOneCpu cfg stack t dir) .package :=
    (hb.distinct (.inr rfl) h.distinct).of_same (fun r _ => hvalid r) fun r _ => hmask r
  have hpackage : (doOneCpu cfg stack t dir).Valid ⟨.package, package⟩ :=
    (hvalid _).mpr hb.package_valid
  have hpmask : ((doOneCpu cfg stack t dir).obj ⟨.package, package⟩).mask =
      packageMaskOf cfg stack dir := by
    rw [hmask, hb.onPackage.mask_eq]
  have hnumbers : (getNumaNode cfg t₂ (readNodeid cfg dir)).isSome ↔
      KnownNode cfg sysfs (readNodeid cfg dir) := by
    rw [← hknown, getNumaNode_isSome_iff_mem, getNumaNode_isSome_iff_mem, hb.numbers]
  constructor
  · exact hdistinct
  · intro d hd
    rcases List.mem_append.mp hd with hd | hd
    · obtain ⟨p, hp, hm⟩ := h.made d hd
      exact ⟨p, hgrowth.valid hp, by rw [hgrowth.mask_eq hp, hm]⟩
    · rw [List.mem_singleton.mp hd]
      exact ⟨package, hpackage, hpmask⟩
  · intro p hp
    rcases hb.valid_cases ((hvalid _).mp hp) with hold | heq | heq | heq
    · obtain ⟨d, hd, hm⟩ := h.reported p hold
      exact ⟨d, List.mem_append_left _ hd, by rw [hgrowth.mask_eq hold, hm]⟩
    · cases heq
    · cases heq
    · rw [heq]
      exact ⟨dir, by simp, hpmask⟩
  · intro p hp
    -- packages are told apart by their masks, so this CPU's package is the one of its mask
    have hself : ((doOneCpu cfg stack t dir).obj ⟨.package, p⟩).mask = packageMaskOf cfg stack dir ↔
        p = package := by
      refine ⟨fun heq => ?_, fun heq => heq ▸ hpmask⟩
      have hsame := hdistinct _ _ rfl rfl hp hpackage (heq.trans hpmask.symm)
      simpa using hsame
    rw [hb.parentRef_package, h.rooted_iff hgrowth hdistinct hp, hnumbers, ← hself]
    simp only [List.mem_append, List.mem_singleton, or_and_right, exists_or, exists_eq_left]
  · exact fun r hr hty => hb.rooted_below hsound hdir hnodes h.below hr hty

/-- Directories that do not count change nothing of it. -/
theorem Housed.congr {seen : List CpuDir} (h : Housed cfg sysfs stack t seen)
    (hobjs : ∀ ty, t'.objs ty = t.objs ty) : Housed cfg sysfs stack t' seen := by
  constructor
  · exact h.distinct.of_same (fun r _ => valid_of_objs hobjs r) fun r _ => by rw [obj_of_objs hobjs]
  · simpa only [valid_of_objs hobjs, obj_of_objs hobjs] using h.made
  · simpa only [valid_of_objs hobjs, obj_of_objs hobjs] using h.reported
  · simpa only [valid_of_objs hobjs, obj_of_objs hobjs, parentRef_of_objs hobjs] using h.rooted
  · simpa only [valid_of_objs hobjs, parentRef_of_objs hobjs] using h.below

theorem nodeTree_housed (cfg : Config) (sysfs : Sysfs) (stack : Stack) (ht : ∀ ty, t.objs ty = []) :
    Housed cfg sysfs stack (nodeTree cfg sysfs t) [] := by
  obtain ⟨hinvalid, -, -⟩ := nodeTree_bare cfg sysfs ht
  have hpackage : ∀ p, ¬ (nodeTree cfg sysfs t).Valid ⟨.package, p⟩ := fun p =>
    hinvalid _ (by simp)
  constructor
  · intro r r' hr _ hvalid
    exact absurd hvalid (hinvalid r (by simp [hr]))
  · simp
  · exact fun p hp => absurd hp (hpackage p)
  · exact fun p hp => absurd hp (hpackage p)
  · intro r hr hty
    refine absurd hr (hinvalid r ?_)
    rcases hty with hty | hty <;> simp [hty]

theorem foldl_doOneCpu_housed (cfg : Config) (sysfs : Sysfs) (stack : Stack)
    (ht : ∀ ty, t.objs ty = []) (dirs : List CpuDir) :
    Housed cfg sysfs stack (dirs.foldl (doOneCpu cfg stack) (nodeTree cfg sysfs t))
      (dirs.filter fun dir => dir.Counts cfg) := by
  induction dirs using List.reverseRecOn with
  | nil => exact nodeTree_housed cfg sysfs stack ht
  | append_singleton dirs dir ih =>
      have hgrowth := foldl_doOneCpu_growth stack (t := nodeTree cfg sysfs t)
        (buildNumaNodeList_pos cfg sysfs t) rfl dirs
      have hsound := (nodeTree_sound cfg sysfs ht).growth hgrowth
      have hnodes := Nat.lt_of_lt_of_le (buildNumaNodeList_pos cfg sysfs t)
        (hgrowth.length_le .node)
      rw [List.foldl_append, List.filter_append, List.foldl_cons, List.foldl_nil]
      by_cases hdir : dir.Counts cfg
      · have hlast : [dir].filter (fun dir => dir.Counts cfg) = [dir] := by simp [hdir]
        rw [hlast]
        exact ih.step hsound hgrowth.unbannedCpus_eq hnodes hdir (getNumaNode_foldl (ht .node) dirs)
      · have hlast : [dir].filter (fun dir => dir.Counts cfg) = [] := by simp [hdir]
        rw [hlast, List.append_nil]
        rcases doOneCpu_cases cfg stack (dirs.foldl (doOneCpu cfg stack) (nodeTree cfg sysfs t))
          dir with ⟨-, hobjs, -⟩ | ⟨hcounts, -⟩
        · exact ih.congr hobjs
        · exact absurd hcounts hdir

theorem buildTree_housed (cfg : Config) (sysfs : Sysfs) (stack : Stack)
    (ht : ∀ ty, t.objs ty = []) :
    Housed cfg sysfs stack (buildTree cfg sysfs stack t) (countedDirs cfg sysfs) := by
  rw [buildTree_eq]
  exact foldl_doOneCpu_housed cfg sysfs stack ht _

/-! ## CPUs below the nodes -/

/-- A CPU is below a node if every package is on one. -/
theorem buildTree_reached (cfg : Config) (sysfs : Sysfs) (stack : Stack)
    (ht : ∀ ty, t.objs ty = [])
    (hpackages : ∀ p, (buildTree cfg sysfs stack t).Valid ⟨.package, p⟩ →
      ((buildTree cfg sysfs stack t).parentRef ⟨.package, p⟩).isSome) {cpu : ℕ}
    (hcpu : (buildTree cfg sysfs stack t).Valid ⟨.cpu, cpu⟩) :
    ∃ node, (buildTree cfg sysfs stack t).Valid ⟨.node, node⟩ ∧
      ReflTransGen (fun p c => c ∈ (buildTree cfg sysfs stack t).childRefs p) ⟨.node, node⟩
        ⟨.cpu, cpu⟩ := by
  have hhoused := buildTree_housed cfg sysfs stack ht
  have hsound := buildTree_sound cfg sysfs stack ht
  have hheld := (buildTree_growth cfg sysfs stack t).held fun c p hparent => by
    rw [(nodeTree_bare cfg sysfs ht).2.2] at hparent
    cases hparent
  obtain ⟨⟨cacheTy, cache⟩, hcache⟩ := Option.isSome_iff_exists.mp (hhoused.below _ hcpu (.inl rfl))
  obtain rfl := Option.some.inj (objType_of_parentRef hcache)
  have hcacheValid := hsound.parent_valid _ _ hcache
  obtain ⟨⟨packageTy, package⟩, hpackage⟩ :=
    Option.isSome_iff_exists.mp (hhoused.below _ hcacheValid (.inr rfl))
  obtain rfl := Option.some.inj (objType_of_parentRef hpackage)
  have hpackageValid := hsound.parent_valid _ _ hpackage
  obtain ⟨⟨nodeTy, node⟩, hnode⟩ := Option.isSome_iff_exists.mp (hpackages _ hpackageValid)
  obtain rfl := Option.some.inj (objType_of_parentRef hnode)
  refine ⟨node, hsound.parent_valid _ _ hnode, ?_⟩
  exact ((ReflTransGen.single (hheld _ _ hnode)).tail (hheld _ _ hpackage)).tail (hheld _ _ hcache)

/-! ## Every lookup succeeds -/

/-- `place_irq_in_node` comes to follow the `numa_node` of the entry, and it is NULL. -/
def State.FollowsNull (cfg : Config) (s : State) (i : ℕ) : Prop :=
  ¬ ((s.info i).level = .none && cpusEmpty cfg.bannedCpus) = true ∧ (s.info i).numaNode = none

theorem State.FollowsNull.placeIrqInNode {s : State} {i : ℕ} (h : s.FollowsNull cfg i) :
    s.placeIrqInNode cfg i = none := by
  unfold State.placeIrqInNode
  rw [if_neg h.1, h.2]

/-- What `place_irq_in_node` and the walks of the tree rely on. -/
structure NumaOk (cfg : Config) (s : State) : Prop where
  entries : ∀ i < s.dbSize, ∃ node, (s.info i).numaNode = some node ∧ s.topo.Valid ⟨.node, node⟩
  packages : ∀ p, s.topo.Valid ⟨.package, p⟩ → ∃ node,
    s.topo.parentRef ⟨.package, p⟩ = some ⟨.node, node⟩ ∧ s.topo.Valid ⟨.node, node⟩
  /-- In all states up to the next rebuild: they have what it fixes in common. -/
  followed : ∀ s' : State, s'.fixed = s.fixed → ∀ i < s'.dbSize, ¬ s'.FollowsNull cfg i
  reached : ∀ cpu, s.topo.Valid ⟨.cpu, cpu⟩ → ∃ node, s.topo.Valid ⟨.node, node⟩ ∧
    ReflTransGen (fun p c => c ∈ s.topo.childRefs p) ⟨.node, node⟩ ⟨.cpu, cpu⟩

/-- The IRQs the daemon is to balance have nodes that can be found. -/
def RequestsKnown (cfg : Config) (sysfs : Sysfs) : Prop :=
  ∀ r ∈ Request.firsts (requests cfg sysfs), r.isBanned cfg sysfs (readableNodes sysfs) = false →
    KnownNode cfg sysfs (r.nodeid cfg sysfs (readableNodes sysfs))

/-- Every package has a CPU whose node can be found. -/
def PackagesKnown (cfg : Config) (sysfs : Sysfs) (stack : Stack) : Prop :=
  ∀ dir ∈ countedDirs cfg sysfs, ∃ dir' ∈ countedDirs cfg sysfs,
    packageMaskOf cfg stack dir = packageMaskOf cfg stack dir' ∧
      KnownNode cfg sysfs (readNodeid cfg dir')

theorem buildTree_packages_iff (cfg : Config) (sysfs : Sysfs) (stack : Stack)
    (ht : ∀ ty, t.objs ty = []) :
    (∀ p, (buildTree cfg sysfs stack t).Valid ⟨.package, p⟩ →
      ((buildTree cfg sysfs stack t).parentRef ⟨.package, p⟩).isSome) ↔
      PackagesKnown cfg sysfs stack := by
  have hhoused := buildTree_housed cfg sysfs stack ht
  constructor
  · intro hrooted dir hdir
    obtain ⟨p, hp, hmask⟩ := hhoused.made dir hdir
    rw [← hmask]
    exact (hhoused.rooted p hp).mp (hrooted p hp)
  · intro hknown p hp
    obtain ⟨dir, hdir, hmask⟩ := hhoused.reported p hp
    refine (hhoused.rooted p hp).mpr ?_
    rw [hmask]
    exact hknown dir hdir

theorem rebuildIrqDb_nodes_iff (cfg : Config) (sysfs : Sysfs) (stack : Stack)
    (ht : ∀ ty, t.objs ty = []) (db : IrqDb) :
    (∀ info ∈ (rebuildIrqDb cfg sysfs (buildTree cfg sysfs stack t) db).interruptsDb,
      info.numaNode.isSome) ↔ RequestsKnown cfg sysfs := by
  have hasked := rebuildIrqDb_asked cfg sysfs (buildTree cfg sysfs stack t) db
  have hpol : ∀ r : Request, r.pol cfg sysfs (buildTree cfg sysfs stack t) =
      r.pol cfg sysfs (readableNodes sysfs) := pol_buildTree (ht .node)
  have hbanned : ∀ r : Request, r.isBanned cfg sysfs (buildTree cfg sysfs stack t) =
      r.isBanned cfg sysfs (readableNodes sysfs) := fun r => by
    rw [Request.isBanned, hpol, Request.isBanned]
  have hnodeid : ∀ r : Request, r.nodeid cfg sysfs (buildTree cfg sysfs stack t) =
      r.nodeid cfg sysfs (readableNodes sysfs) := fun r => by
    rw [Request.nodeid, hpol, Request.nodeid]
  have hlist : (∀ info ∈ (rebuildIrqDb cfg sysfs (buildTree cfg sysfs stack t) db).interruptsDb,
      info.numaNode.isSome) ↔
      ∀ node ∈ (rebuildIrqDb cfg sysfs (buildTree cfg sysfs stack t) db).interruptsDb.map
        IrqInfo.numaNode, node.isSome := by
    rw [List.forall_mem_map]
  rw [hlist, hasked.nodes, List.forall_mem_map]
  unfold RequestsKnown
  simp only [List.mem_filter, Bool.not_eq_true', and_imp, hbanned, hnodeid,
    getNumaNode_buildTree (ht .node)]

theorem State.forall_info_iff {P : IrqInfo → Prop} (s : State) :
    (∀ i < s.dbSize, P (s.info i)) ↔ ∀ info ∈ s.irqs.interruptsDb, P info := by
  have hget : ∀ i (hi : i < s.dbSize), s.info i = s.irqs.interruptsDb[i] := fun i hi => by
    rw [info, List.getElem?_eq_getElem hi, Option.getD_some]
  constructor
  · intro h info hinfo
    obtain ⟨i, hi, rfl⟩ := List.getElem_of_mem hinfo
    exact hget i hi ▸ h i hi
  · intro h i hi
    rw [hget i hi]
    exact h _ (List.getElem_mem hi)

/-- The lookups succeed exactly if every IRQ that is not banned has a node that can be
found where `rebuild_irq_db` first comes by it, and every package has a CPU that has. -/
theorem numa_lookups_iff (cfg : Config) (sysfs : Sysfs) (stack : Stack) (s : State)
    (hs : s.Treeless) :
    NumaOk cfg (s.buildObjectTree cfg sysfs stack) ↔
      RequestsKnown cfg sysfs ∧ PackagesKnown cfg sysfs stack := by
  have hentries : (∀ i < (s.buildObjectTree cfg sysfs stack).dbSize,
      ((s.buildObjectTree cfg sysfs stack).info i).numaNode.isSome) ↔ RequestsKnown cfg sysfs :=
    ((s.buildObjectTree cfg sysfs stack).forall_info_iff (P := fun info => info.numaNode.isSome)).trans
      (rebuildIrqDb_nodes_iff cfg sysfs stack hs s.irqs)
  have hlookups : ∀ i < (s.buildObjectTree cfg sysfs stack).dbSize, ∃ nodeid,
      ((s.buildObjectTree cfg sysfs stack).info i).numaNode =
        getNumaNode cfg (buildTree cfg sysfs stack s.topo) nodeid :=
    ((s.buildObjectTree cfg sysfs stack).forall_info_iff (P := fun info => ∃ nodeid,
      info.numaNode = getNumaNode cfg (buildTree cfg sysfs stack s.topo) nodeid)).mpr
      (rebuildIrqDb_sound cfg sysfs _ _).numaNode
  rw [← hentries, ← buildTree_packages_iff cfg sysfs stack hs]
  constructor
  · intro hok
    refine ⟨fun i hi => ?_, fun p hp => ?_⟩
    · obtain ⟨node, hnode, -⟩ := hok.entries i hi
      exact Option.isSome_iff_exists.mpr ⟨node, hnode⟩
    · obtain ⟨node, hnode, -⟩ := hok.packages p hp
      exact Option.isSome_iff_exists.mpr ⟨_, hnode⟩
  · rintro ⟨hnodes, hpackages⟩
    constructor
    · intro i hi
      obtain ⟨node, hnode⟩ := Option.isSome_iff_exists.mp (hnodes i hi)
      obtain ⟨nodeid, hlookup⟩ := hlookups i hi
      exact ⟨node, hnode, getNumaNode_valid (buildTree_pos cfg sysfs stack s.topo)
        (hlookup.symm.trans hnode)⟩
    · intro p hp
      obtain ⟨⟨ty, node⟩, hnode⟩ := Option.isSome_iff_exists.mp (hpackages p hp)
      obtain rfl := Option.some.inj (objType_of_parentRef hnode)
      exact ⟨node, hnode, (buildTree_sound cfg sysfs stack hs).parent_valid _ _ hnode⟩
    · rintro s' hfixed i hi ⟨-, hnull⟩
      rw [State.fixed_dbSize hfixed] at hi
      rw [State.fixed_numaNode hfixed] at hnull
      have hsome := hnodes i hi
      rw [hnull] at hsome
      cases hsome
    · exact fun cpu hcpu => buildTree_reached cfg sysfs stack hs hpackages hcpu

/-- A machine whose second node cannot be read, and a card on that node. -/
def Sample.lostNode : Sysfs where
  nodeDirs := some [{ number := 0, cpumap := some 3#(nrCpus) }, { number := 1, cpumap := none }]
  cpuDirs := some [{ cpuDir cpu0 with node := some 0 }, { cpuDir cpu1 with node := some 0 }]
  pciDevices := some
    [{ name := [48], attrs := { classFile := .code 0x020000, numaNode := some 1 }
       irq := some (some 11) }]

/-- The entry of the card has no node, and the first `calculate_placement` follows the
pointer. -/
theorem lostNode_followed :
    ¬ NumaOk Sample.numaConfig
      (({} : State).buildObjectTree Sample.numaConfig Sample.lostNode {}) ∧
    exec Sample.numaConfig (start Sample.numaConfig Sample.lostNode {}) (.calculatePlacement id) =
      none := by
  constructor
  · intro hok
    obtain ⟨node, hnode, -⟩ := hok.entries 0 (by decide +kernel)
    have hnull : ((({} : State).buildObjectTree Sample.numaConfig Sample.lostNode {}).info 0).numaNode
        = none := by
      decide +kernel
    rw [hnull] at hnode
    cases hnode
  · decide +kernel

theorem numa_lookups_iff_spanning :
    NumaOk Sample.numaConfig
        (({} : State).buildObjectTree Sample.numaConfig Sample.spanning {}) ↔
      RequestsKnown Sample.numaConfig Sample.spanning ∧
        PackagesKnown Sample.numaConfig Sample.spanning {} :=
  numa_lookups_iff Sample.numaConfig Sample.spanning {} {} fun ty => by cases ty <;> rfl

end CodeAnalyze.Irqbalance
