import CodeAnalyze.Irqbalance.Build
import CodeAnalyze.Irqbalance.Sample
import CodeAnalyze.Lib.Ledger
import Mathlib.Data.List.Induction

/-!
# Is the topology a tree?

The children lists and the parent pointers are two descriptions of the same links,
and they agree as long as nothing is linked twice.  A CPU is linked when it is made,
and `add_package_to_node` looks whether the package has a parent;
`add_cache_domain_to_package` does not look.  So it comes down to the packages in
which a cache domain is reported.
-/

namespace CodeAnalyze.Irqbalance

open Lib Relation Irqbalance.Topology

variable {cfg : Config} {stack : Stack} {t t' : Topology} {r : ObjRef}

/-! ## Growth keeps what is there -/

/-- An object keeps every field that linking keeps. -/
theorem Topology.Growth.field_eq {α : Type*} {banned : Cpumask} (h : Growth banned t t')
    (field : TopoObj → α)
    (hchildren : ∀ (o : TopoObj) l, field { o with children := l } = field o)
    (hparent : ∀ (o : TopoObj) x, field { o with parent := x } = field o) (hr : t.Valid r) :
    field (t'.obj r) = field (t.obj r) := by
  have hboth : t'.Valid r ∧ field (t'.obj r) = field (t.obj r) := by
    refine Growth.keeps (P := fun u => u.Valid r ∧ field (u.obj r) = field (t.obj r)) ?_
      ⟨hr, rfl⟩ h
    rintro u u' ⟨hvalid, hfield⟩ hgrow
    refine ⟨Growth.valid (.single hgrow) hvalid, ?_⟩
    rcases hgrow with ⟨hobjs, -⟩ | ⟨hgrows, -, -⟩ | ⟨-, -, -⟩
    · rw [obj_of_objs hobjs, hfield]
    · rw [hgrows.obj_of_valid hvalid, hfield]
    · rw [field_link field hchildren hparent, hfield]
  exact hboth.2

theorem Topology.Growth.mask_eq {banned : Cpumask} (h : Growth banned t t') (hr : t.Valid r) :
    (t'.obj r).mask = (t.obj r).mask :=
  h.field_eq TopoObj.mask (fun _ _ => rfl) (fun _ _ => rfl) hr

theorem Topology.Growth.mem_childRefs {banned : Cpumask} (h : Growth banned t t') {p c : ObjRef}
    (hc : c ∈ t.childRefs p) : c ∈ t'.childRefs p := by
  refine Growth.keeps (P := fun u => c ∈ u.childRefs p) ?_ hc h
  rintro u u' hmem (⟨hobjs, -⟩ | ⟨hgrows, hnew, -⟩ | ⟨hp, -, hty⟩)
  · rwa [childRefs_of_objs hobjs]
  · rwa [hgrows.childRefs hnew]
  · rw [childRefs_link hty hp]
    split
    · exact List.mem_append_left _ hmem
    · exact hmem

theorem Topology.Growth.parentRef_isSome {banned : Cpumask} (h : Growth banned t t')
    (hr : (t.parentRef r).isSome) : (t'.parentRef r).isSome := by
  refine Growth.keeps (P := fun u => (u.parentRef r).isSome) ?_ hr h
  rintro u u' hsome (⟨hobjs, -⟩ | ⟨hgrows, hnew, -⟩ | ⟨-, hc, hty⟩)
  · rwa [parentRef_of_objs hobjs]
  · rwa [hgrows.parentRef hnew]
  · rw [parentRef_link hty hc]
    split
    · rfl
    · exact hsome

/-! ## One lookup and link -/

section Attach

variable {ty : ObjType} {mask banned : Cpumask} {child : ObjRef} {mid : Topology} {place : ℕ}

theorem Found.childRefs_eq (h : Found t ty mask t' place) (p : ObjRef) :
    t'.childRefs p = t.childRefs p := by
  rcases h.cases with rfl | ⟨o, hgrows, hnew, -, -, -⟩
  · rfl
  · exact hgrows.childRefs hnew p

theorem Found.parentRef_eq (h : Found t ty mask t' place) (c : ObjRef) :
    t'.parentRef c = t.parentRef c := by
  rcases h.cases with rfl | ⟨o, hgrows, hnew, -, -, -⟩
  · rfl
  · exact hgrows.parentRef hnew c

theorem Found.valid_of (h : Found t ty mask t' place) (hr : t'.Valid r) :
    t.Valid r ∨ r = ⟨ty, place⟩ := by
  rcases h.cases with rfl | ⟨o, hgrows, -, -, hplace, -⟩
  · exact .inl hr
  · rw [hplace]
    exact hgrows.valid_iff.mp hr

theorem Found.valid_mono (h : Found t ty mask t' place) (hr : t.Valid r) : t'.Valid r := by
  rcases h.cases with rfl | ⟨o, hgrows, -, -, -, -⟩
  · exact hr
  · exact hgrows.valid hr

theorem Attached.childRefs_eq (h : Attached t ty mask child mid t' place)
    (hty : ty.below = some child.objType) (p : ObjRef) :
    t'.childRefs p =
      if p = ⟨ty, place⟩ ∧ child ∉ t.childRefs p then t.childRefs p ++ [child]
      else t.childRefs p := by
  have hmid := h.found.childRefs_eq
  rcases h.cases with ⟨hmem, rfl⟩ | ⟨hnot, rfl⟩
  · rw [hmid, if_neg]
    rintro ⟨rfl, hnot⟩
    exact hnot (hmid _ ▸ hmem)
  · rw [childRefs_link hty h.found.valid, hmid]
    by_cases hp : p = ⟨ty, place⟩
    · subst hp
      rw [if_pos rfl, if_pos ⟨rfl, hmid _ ▸ hnot⟩]
    · rw [if_neg hp, if_neg fun hand => hp hand.1]

theorem Attached.parentRef_eq (h : Attached t ty mask child mid t' place)
    (hty : ty.below = some child.objType) (hchild : t.Valid child) (r : ObjRef) :
    t'.parentRef r =
      if r = child ∧ child ∉ t.childRefs ⟨ty, place⟩ then some ⟨ty, place⟩
      else t.parentRef r := by
  have hmid := h.found.childRefs_eq
  rcases h.cases with ⟨hmem, rfl⟩ | ⟨hnot, rfl⟩
  · rw [h.found.parentRef_eq, if_neg fun hand => hand.2 (hmid _ ▸ hmem)]
  · rw [parentRef_link hty (h.found.valid_mono hchild), h.found.parentRef_eq]
    by_cases hr : r = child
    · rw [if_pos hr, if_pos ⟨hr, hmid _ ▸ hnot⟩]
    · rw [if_neg hr, if_neg fun hand => hr hand.1]

theorem Attached.valid_iff (h : Attached t ty mask child mid t' place) :
    t'.Valid r ↔ mid.Valid r := by
  rcases h.cases with ⟨-, rfl⟩ | ⟨-, rfl⟩
  · rfl
  · exact valid_link

theorem Attached.mask_mid (h : Attached t ty mask child mid t' place) (r : ObjRef) :
    (t'.obj r).mask = (mid.obj r).mask := by
  rcases h.cases with ⟨-, rfl⟩ | ⟨-, rfl⟩
  · rfl
  · exact field_link TopoObj.mask (fun _ _ => rfl) (fun _ _ => rfl) r

theorem Attached.valid (h : Attached t ty mask child mid t' place) : t'.Valid ⟨ty, place⟩ :=
  h.valid_iff.mpr h.found.valid

theorem Attached.mask_eq (h : Attached t ty mask child mid t' place) :
    (t'.obj ⟨ty, place⟩).mask = mask :=
  (h.mask_mid _).trans h.found.mask_eq

/-- The child is linked one way or the other. -/
theorem Attached.mem (h : Attached t ty mask child mid t' place)
    (hty : ty.below = some child.objType) : child ∈ t'.childRefs ⟨ty, place⟩ := by
  rw [h.childRefs_eq hty]
  split
  · simp
  · rename_i hnot
    by_contra hmem
    exact hnot ⟨rfl, hmem⟩

/-- No two objects of the type have the same mask. -/
def Distinct (t : Topology) (ty : ObjType) : Prop :=
  ∀ r r', r.objType = ty → r'.objType = ty → t.Valid r → t.Valid r' →
    (t.obj r).mask = (t.obj r').mask → r = r'

theorem Distinct.of_same (h : Distinct t ty)
    (hvalid : ∀ r, r.objType = ty → (t'.Valid r ↔ t.Valid r))
    (hmask : ∀ r, r.objType = ty → (t'.obj r).mask = (t.obj r).mask) : Distinct t' ty := by
  intro r r' hr hr' hvr hvr' heq
  rw [hmask r hr, hmask r' hr'] at heq
  exact h r r' hr hr' ((hvalid r hr).mp hvr) ((hvalid r' hr').mp hvr') heq

theorem Distinct.found {ty' : ObjType} (h : Distinct t ty') (hf : Found t ty mask t' place) :
    Distinct t' ty' := by
  rcases hf.cases with rfl | ⟨o, hgrows, -, ho, hplace, hother⟩
  · exact h
  · by_cases hty : ty' = ty
    · subst hty
      intro r r' hr hr' hvr hvr' heq
      have hold : ∀ x, x.objType = ty' → t'.Valid x →
          x = ⟨ty', place⟩ ∨ t.Valid x ∧ (t'.obj x).mask ≠ mask ∧
            (t'.obj x).mask = (t.obj x).mask := by
        intro x hx hvx
        rcases hf.valid_of hvx with hvx | rfl
        · have hsame := congrArg TopoObj.mask (hgrows.obj_of_valid hvx)
          exact .inr ⟨hvx, hsame ▸ hother x hx hvx, hsame⟩
        · exact .inl rfl
      rcases hold r hr hvr with rfl | ⟨hvr, hne, hsame⟩
      · rcases hold r' hr' hvr' with rfl | ⟨-, hne', -⟩
        · rfl
        · exact absurd (heq.symm.trans hf.mask_eq) hne'
      · rcases hold r' hr' hvr' with rfl | ⟨hvr', -, hsame'⟩
        · exact absurd (heq.trans hf.mask_eq) hne
        · exact h r r' hr hr' hvr hvr' (hsame ▸ hsame' ▸ heq)
    · refine h.of_same (fun r hr => ?_) fun r hr => ?_
      · unfold Valid
        rw [hr, hgrows.objs_other ty' hty]
      · rw [hgrows.obj, if_neg]
        rintro rfl
        exact hty hr.symm

theorem Distinct.attached {ty' : ObjType} (h : Distinct t ty')
    (ha : Attached t ty mask child mid t' place) : Distinct t' ty' :=
  (h.found ha.found).of_same (fun _ _ => ha.valid_iff) fun r _ => ha.mask_mid r

/-- Linking an object that has no parent keeps lists and pointers in agreement. -/
theorem Attached.agrees (h : Attached t ty mask child mid t' place)
    (hty : ty.below = some child.objType) (hchild : t.Valid child)
    (hagrees : Agrees t.childRefs t.parentRef)
    (hfree : child ∉ t.childRefs ⟨ty, place⟩ → t.parentRef child = none) :
    Agrees t'.childRefs t'.parentRef := by
  by_cases hmem : child ∈ t.childRefs ⟨ty, place⟩
  · refine hagrees.congr (fun p => ?_) fun r => ?_
    · rw [h.childRefs_eq hty, if_neg]
      rintro ⟨rfl, hnot⟩
      exact hnot hmem
    · rw [h.parentRef_eq hty hchild, if_neg fun hand => hand.2 hmem]
  · refine hagrees.file (q := ⟨ty, place⟩) (hfree hmem) (fun p => ?_) fun r => ?_
    · rw [h.childRefs_eq hty]
      by_cases hp : p = ⟨ty, place⟩
      · subst hp
        rw [if_pos ⟨rfl, hmem⟩, if_pos rfl]
      · rw [if_neg hp, if_neg fun hand => hp hand.1]
    · rw [h.parentRef_eq hty hchild]
      simp [hmem]

end Attach

/-! ## Nodes -/

theorem getNumaNode_isSome_iff {nodeid : ℤ} :
    (getNumaNode cfg t nodeid).isSome ↔ cfg.numaAvail = false ∨ nodeid = -1 ∨
      ∃ node, t.Valid ⟨.node, node⟩ ∧ (t.obj ⟨.node, node⟩).number = nodeid := by
  unfold getNumaNode
  by_cases havail : cfg.numaAvail = true
  · by_cases hid : nodeid = -1
    · simp [havail, hid]
    · simp only [havail, Bool.not_true, Bool.false_eq_true, if_false, hid, false_or,
        List.findIdx?_isSome, List.any_eq_true, beq_iff_eq, Bool.true_eq_false]
      constructor
      · rintro ⟨o, ho, hnumber⟩
        obtain ⟨node, hnode, rfl⟩ := List.getElem_of_mem ho
        refine ⟨node, hnode, ?_⟩
        simpa [obj, objs, List.getElem?_eq_getElem hnode] using hnumber
      · rintro ⟨node, hvalid, hnumber⟩
        have hlt : node < t.numaNodes.length := hvalid
        refine ⟨t.numaNodes[node], List.getElem_mem hlt, ?_⟩
        simpa [obj, objs, List.getElem?_eq_getElem hlt] using hnumber
  · simp [havail]

theorem Topology.Growth.getNumaNode_isSome {banned : Cpumask} (h : Growth banned t t')
    {nodeid : ℤ} (hsome : (getNumaNode cfg t nodeid).isSome) :
    (getNumaNode cfg t' nodeid).isSome := by
  rw [getNumaNode_isSome_iff] at hsome ⊢
  rcases hsome with havail | hid | ⟨node, hvalid, hnumber⟩
  · exact .inl havail
  · exact .inr (.inl hid)
  · refine .inr (.inr ⟨node, h.valid hvalid, ?_⟩)
    rw [h.field_eq TopoObj.number (fun _ _ => rfl) (fun _ _ => rfl) hvalid, hnumber]

theorem parentRef_package (p : ℕ) :
    t.parentRef ⟨.package, p⟩ = (t.obj ⟨.package, p⟩).parent.map (⟨.node, ·⟩) := by
  unfold parentRef ObjType.above
  cases (t.obj ⟨.package, p⟩).parent <;> rfl

/-- `add_package_to_node` links a package that has no parent to a node that exists, and
does nothing else. -/
theorem addPackageToNode_cases (cfg : Config) (t : Topology) (p : ℕ) (nodeid : ℤ) :
    (addPackageToNode cfg t p nodeid = t ∧
        (getNumaNode cfg t nodeid = none ∨ (t.parentRef ⟨.package, p⟩).isSome)) ∨
      t.parentRef ⟨.package, p⟩ = none ∧ ∃ node, getNumaNode cfg t nodeid = some node ∧
        addPackageToNode cfg t p nodeid = t.link ⟨.node, node⟩ ⟨.package, p⟩ := by
  rw [parentRef_package]
  unfold addPackageToNode
  cases getNumaNode cfg t nodeid with
  | none => exact .inl ⟨rfl, .inl rfl⟩
  | some node =>
      dsimp only
      cases (t.obj ⟨.package, p⟩).parent with
      | none => exact .inr ⟨rfl, node, rfl, rfl⟩
      | some q => exact .inl ⟨rfl, .inr rfl⟩

/-! ## One CPU -/

/-- What the directories seen so far have made of the tree. -/
structure Wired (cfg : Config) (stack : Stack) (t : Topology) (seen : List CpuDir) : Prop where
  distinct : ∀ ty, ty = .cache ∨ ty = .package → Distinct t ty
  /-- The cache domain of every CPU is linked to the package of the CPU. -/
  linked : ∀ dir ∈ seen, ∃ cache package, t.Valid ⟨.cache, cache⟩ ∧ t.Valid ⟨.package, package⟩ ∧
    (t.obj ⟨.cache, cache⟩).mask = cacheMaskOf cfg dir ∧
    (t.obj ⟨.package, package⟩).mask = packageMaskOf cfg stack dir ∧
    ⟨.cache, cache⟩ ∈ t.childRefs ⟨.package, package⟩
  /-- Every link to a package comes from a CPU. -/
  reported : ∀ p c, p.objType = .package → c ∈ t.childRefs p → ∃ dir ∈ seen,
    (t.obj c).mask = cacheMaskOf cfg dir ∧ (t.obj p).mask = packageMaskOf cfg stack dir
  /-- Nothing but a node is without a parent. -/
  rooted : ∀ r, t.Valid r → r.objType ≠ .node → (t.parentRef r).isSome
  /-- No package is empty. -/
  populated : ∀ r, t.Valid r → r.objType = .package → t.childRefs r ≠ []

section Step

variable {dir : CpuDir} {seen : List CpuDir} {mid₁ t₁ mid₂ t₂ : Topology} {cache package : ℕ}
  (h : Built cfg stack t dir mid₁ t₁ mid₂ t₂ t' cache package) (hdir : dir.Counts cfg)

theorem withCpu_new (dir : CpuDir) :
    ({ number := dir.number.val, mask := cpuSet dir.number 0#(nrCpus) } : TopoObj).New := by
  constructor
  · constructor <;> rfl
  · rfl
  · rfl

/-- The CPU is new: nothing links to it. -/
theorem cpu_not_mem (hsound : Sound cfg.bannedCpus t) (p : ObjRef) :
    ⟨.cpu, t.cpus.length⟩ ∉ (withCpu t dir).childRefs p := by
  rw [(withCpu_grows t dir).childRefs (withCpu_new dir)]
  intro hmem
  exact Nat.lt_irrefl _ (hsound.child_valid p _ hmem)

include h

/-- The links to packages, after the new CPU's own. -/
theorem Built.childRefs_package {p : ObjRef} (hp : p.objType = .package) :
    t₂.childRefs p =
      if p = ⟨.package, package⟩ ∧ ⟨.cache, cache⟩ ∉ t.childRefs p then
        t.childRefs p ++ [⟨.cache, cache⟩]
      else t.childRefs p := by
  have hstart : (withCpu t dir).childRefs p = t.childRefs p :=
    (withCpu_grows t dir).childRefs (withCpu_new dir) p
  have hcache : t₁.childRefs p = t.childRefs p := by
    rw [h.onCache.childRefs_eq rfl, hstart, if_neg]
    rintro ⟨rfl, -⟩
    cases hp
  rw [h.onPackage.childRefs_eq rfl, hcache]

theorem Built.growth_last (hnodes : 0 < t₂.numaNodes.length) : Growth cfg.bannedCpus t₂ t' := by
  rw [h.onNode]
  exact addPackageToNode_growth _ hnodes h.package_valid

/-- The package of the CPU has a parent in the end if its node exists. -/
theorem Built.package_rooted (hnode : (getNumaNode cfg t₂ (readNodeid cfg dir)).isSome) :
    (t'.parentRef ⟨.package, package⟩).isSome := by
  rw [h.onNode]
  rcases addPackageToNode_cases cfg t₂ package (readNodeid cfg dir) with
    ⟨heq, hnone | hsome⟩ | ⟨-, node, -, heq⟩
  · rw [hnone] at hnode
    cases hnode
  · rw [heq]
    exact hsome
  · rw [heq, parentRef_link (c := ⟨.package, package⟩) rfl h.package_valid, if_pos rfl]
    rfl

theorem Built.node_same (hnodes : 0 < t₂.numaNodes.length) :
    (∀ r, t'.Valid r ↔ t₂.Valid r) ∧ (∀ r, (t'.obj r).mask = (t₂.obj r).mask) ∧
      ∀ p, p.objType ≠ .node → t'.childRefs p = t₂.childRefs p := by
  rw [h.onNode]
  rcases addPackageToNode_cases cfg t₂ package (readNodeid cfg dir) with
    ⟨heq, -⟩ | ⟨-, node, hsome, heq⟩
  · rw [heq]
    exact ⟨fun _ => .rfl, fun _ => rfl, fun _ _ => rfl⟩
  · rw [heq]
    refine ⟨fun r => valid_link, field_link TopoObj.mask (fun _ _ => rfl) fun _ _ => rfl,
      fun p hp => ?_⟩
    rw [childRefs_link rfl (getNumaNode_valid hnodes hsome), if_neg]
    rintro rfl
    exact hp rfl

/-- An object of the tree after a step was there before, or is one the step made. -/
theorem Built.valid_cases (hr : t₂.Valid r) :
    t.Valid r ∨ r = ⟨.cpu, t.cpus.length⟩ ∨ r = ⟨.cache, cache⟩ ∨ r = ⟨.package, package⟩ := by
  rcases h.onPackage.found.valid_of (h.onPackage.valid_iff.mp hr) with hr | hr
  · rcases h.onCache.found.valid_of (h.onCache.valid_iff.mp hr) with hr | hr
    · rcases (withCpu_grows t dir).valid_iff.mp hr with hr | hr
      · exact .inl hr
      · exact .inr (.inl hr)
    · exact .inr (.inr (.inl hr))
  · exact .inr (.inr (.inr hr))

theorem Built.cache_mask : (t₂.obj ⟨.cache, cache⟩).mask = cacheMaskOf cfg dir := by
  rw [h.growth₂.mask_eq h.cache_valid]
  exact h.onCache.mask_eq

theorem Built.distinct {ty : ObjType} (hty : ty = .cache ∨ ty = .package) (ht : Distinct t ty) :
    Distinct t₂ ty := by
  have hne : ty ≠ .cpu := by
    rcases hty with rfl | rfl <;> simp
  have hgrows := withCpu_grows t dir
  refine Distinct.attached (Distinct.attached (ht.of_same (fun r hr => ?_) fun r hr => ?_)
    h.onCache) h.onPackage
  · unfold Valid
    rw [hr, hgrows.objs_other ty hne]
  · rw [hgrows.obj, if_neg]
    rintro rfl
    exact hne hr.symm

/-- The new CPU and its cache domain have parents. -/
theorem Built.rooted_below (hsound : Sound cfg.bannedCpus t) (hdir : dir.Counts cfg)
    (hnodes : 0 < t.numaNodes.length)
    (hrooted : ∀ r, t.Valid r → r.objType = .cpu ∨ r.objType = .cache → (t.parentRef r).isSome)
    (hr : t'.Valid r) (hty : r.objType = .cpu ∨ r.objType = .cache) :
    (t'.parentRef r).isSome := by
  have hnodes₂ := Nat.lt_of_lt_of_le hnodes ((h.growth₁₂ hdir).length_le .node)
  have hgrowth := h.growth hdir hnodes
  have hlast := h.growth_last hnodes₂
  rcases h.valid_cases (((h.node_same hnodes₂).1 r).mp hr) with hold | rfl | rfl | rfl
  · exact hgrowth.parentRef_isSome (hrooted r hold hty)
  · have hlinked : (t₁.parentRef ⟨.cpu, t.cpus.length⟩).isSome := by
      rw [h.onCache.parentRef_eq rfl (withCpu_grows t dir).valid_new,
        if_pos ⟨rfl, cpu_not_mem hsound _⟩]
      rfl
    exact Growth.parentRef_isSome (h.growth₂.trans hlast) hlinked
  · by_cases hold : t.Valid ⟨.cache, cache⟩
    · exact hgrowth.parentRef_isSome (hrooted _ hold hty)
    · have hlinked : (t₂.parentRef ⟨.cache, cache⟩).isSome := by
        have hnot : ⟨.cache, cache⟩ ∉ t₁.childRefs ⟨.package, package⟩ := by
          rw [h.onCache.childRefs_eq rfl, if_neg (by simp),
            (withCpu_grows t dir).childRefs (withCpu_new dir)]
          exact fun hmem => hold (hsound.child_valid _ _ hmem)
        rw [h.onPackage.parentRef_eq rfl h.cache_valid, if_pos ⟨rfl, hnot⟩]
        rfl
      exact hlast.parentRef_isSome hlinked
  · rcases hty with hty | hty <;> cases hty

end Step

/-- What has children is on its master list. -/
theorem valid_of_mem_childRefs {p c : ObjRef} (h : c ∈ t.childRefs p) : t.Valid p := by
  by_contra hp
  unfold childRefs at h
  rw [obj_of_not_valid hp] at h
  split at h <;> cases h

/-- A CPU leaves the tree wired for one directory more. -/
theorem Wired.step {seen : List CpuDir} {dir : CpuDir} (hw : Wired cfg stack t seen)
    (hsound : Sound cfg.bannedCpus t) (hunbanned : t.unbannedCpus = ~~~cfg.bannedCpus)
    (hnodes : 0 < t.numaNodes.length) (hdir : dir.Counts cfg)
    (hknown : (getNumaNode cfg t (readNodeid cfg dir)).isSome) :
    Wired cfg stack (doOneCpu cfg stack t dir) (seen ++ [dir]) := by
  obtain ⟨mid₁, t₁, mid₂, t₂, cache, package, h⟩ := doOneCpu_built stack hunbanned hdir
  have hgrowth := h.growth hdir hnodes
  have hgrowth₂ := h.growth₁₂ hdir
  have hnodes₂ : 0 < t₂.numaNodes.length := Nat.lt_of_lt_of_le hnodes (hgrowth₂.length_le .node)
  have hnode := hgrowth₂.getNumaNode_isSome hknown
  have hlast := h.growth_last hnodes₂
  obtain ⟨hvalid, hmask, hchildRefs⟩ := h.node_same hnodes₂
  constructor
  · intro ty hty
    exact (h.distinct hty (hw.distinct ty hty)).of_same (fun r _ => hvalid r) fun r _ => hmask r
  · intro d hd
    rcases List.mem_append.mp hd with hd | hd
    · obtain ⟨c, p, hc, hp, hcmask, hpmask, hmem⟩ := hw.linked d hd
      exact ⟨c, p, hgrowth.valid hc, hgrowth.valid hp, by rw [hgrowth.mask_eq hc, hcmask],
        by rw [hgrowth.mask_eq hp, hpmask], hgrowth.mem_childRefs hmem⟩
    · -- the objects this CPU was put under
      rw [List.mem_singleton.mp hd]
      refine ⟨cache, package, ?_, ?_, ?_, ?_, ?_⟩
      · exact (hvalid _).mpr (h.growth₂.valid h.cache_valid)
      · exact (hvalid _).mpr h.package_valid
      · rw [hmask, h.cache_mask]
      · rw [hmask, h.onPackage.mask_eq]
      · rw [hchildRefs _ (by simp)]
        exact h.onPackage.mem rfl
  · intro p c hp hc
    rw [hchildRefs p (by simp [hp]), h.childRefs_package hp] at hc
    have hold : c ∈ t.childRefs p → ∃ d ∈ seen ++ [dir],
        ((doOneCpu cfg stack t dir).obj c).mask = cacheMaskOf cfg d ∧
        ((doOneCpu cfg stack t dir).obj p).mask = packageMaskOf cfg stack d := by
      intro hmem
      obtain ⟨d, hd, hcmask, hpmask⟩ := hw.reported p c hp hmem
      refine ⟨d, List.mem_append_left _ hd, ?_, ?_⟩
      · rw [hgrowth.mask_eq (hsound.child_valid p c hmem), hcmask]
      · rw [hgrowth.mask_eq (valid_of_mem_childRefs hmem), hpmask]
    split at hc
    · -- the one link that may be new is that of this CPU
      rename_i hnew
      rcases List.mem_append.mp hc with hc | hc
      · exact hold hc
      · rw [List.mem_singleton.mp hc, hnew.1]
        refine ⟨dir, by simp, ?_, ?_⟩
        · rw [hmask, h.cache_mask]
        · rw [hmask, h.onPackage.mask_eq]
    · exact hold hc
  · intro r hr hty
    have hbelow := h.rooted_below hsound hdir hnodes
      (fun r hr hty => hw.rooted r hr (by rcases hty with hty | hty <;> simp [hty])) hr
    cases hobj : r.objType with
    | cpu => exact hbelow (.inl hobj)
    | cache => exact hbelow (.inr hobj)
    | node => exact absurd hobj hty
    | package =>
        rcases h.valid_cases ((hvalid r).mp hr) with hold | rfl | rfl | rfl
        · exact hgrowth.parentRef_isSome (hw.rooted r hold hty)
        · cases hobj
        · cases hobj
        · -- the package of this CPU: its node is known
          exact h.package_rooted hnode
  · intro r hr hty
    rcases h.valid_cases ((hvalid r).mp hr) with hold | rfl | rfl | rfl
    · obtain ⟨c, hc⟩ := List.exists_mem_of_ne_nil _ (hw.populated r hold hty)
      exact List.ne_nil_of_mem (hgrowth.mem_childRefs hc)
    · cases hty
    · cases hty
    · rw [hchildRefs _ (by simp)]
      exact List.ne_nil_of_mem (h.onPackage.mem rfl)

/-- A CPU keeps lists and pointers in agreement if every CPU seen so far with its cache
domain has its package. -/
theorem Wired.agrees_step {seen : List CpuDir} {dir : CpuDir} (hw : Wired cfg stack t seen)
    (hsound : Sound cfg.bannedCpus t) (hunbanned : t.unbannedCpus = ~~~cfg.bannedCpus)
    (hnodes : 0 < t.numaNodes.length) (hdir : dir.Counts cfg)
    (hsame : ∀ d ∈ seen, cacheMaskOf cfg d = cacheMaskOf cfg dir →
      packageMaskOf cfg stack d = packageMaskOf cfg stack dir)
    (hagrees : Agrees t.childRefs t.parentRef) :
    Agrees (doOneCpu cfg stack t dir).childRefs (doOneCpu cfg stack t dir).parentRef := by
  obtain ⟨mid₁, t₁, mid₂, t₂, cache, package, h⟩ := doOneCpu_built stack hunbanned hdir
  have hgrowth₂ := h.growth₁₂ hdir
  have hnodes₂ : 0 < t₂.numaNodes.length := Nat.lt_of_lt_of_le hnodes (hgrowth₂.length_le .node)
  have hgrows := withCpu_grows t dir
  have hcpu : Agrees (withCpu t dir).childRefs (withCpu t dir).parentRef :=
    hagrees.congr (hgrows.childRefs (withCpu_new dir)) (hgrows.parentRef (withCpu_new dir))
  -- the new CPU has no parent
  have hagrees₁ : Agrees t₁.childRefs t₁.parentRef := by
    refine h.onCache.agrees rfl hgrows.valid_new hcpu fun _ => ?_
    by_contra hparent
    obtain ⟨p, hp⟩ := Option.ne_none_iff_exists'.mp hparent
    exact cpu_not_mem hsound p (hcpu.mem_iff.mpr hp)
  -- a cache domain that has a parent was reported in this package
  have hagrees₂ : Agrees t₂.childRefs t₂.parentRef := by
    refine h.onPackage.agrees rfl h.cache_valid hagrees₁ fun hnot => ?_
    by_contra hparent
    obtain ⟨p, hp⟩ := Option.ne_none_iff_exists'.mp hparent
    have hpackage : p.objType = .package := by
      have habove := objType_of_parentRef hp
      exact (Option.some.inj habove).symm
    have hmem₁ : ⟨.cache, cache⟩ ∈ t₁.childRefs p := hagrees₁.mem_iff.mpr hp
    have hsame₁ : ∀ q : ObjRef, q.objType = .package → t₁.childRefs q = t.childRefs q := by
      intro q hq
      rw [h.onCache.childRefs_eq rfl, if_neg, hgrows.childRefs (withCpu_new dir)]
      rintro ⟨rfl, -⟩
      cases hq
    rw [hsame₁ p hpackage] at hmem₁
    obtain ⟨d, hd, hcmask, hpmask⟩ := hw.reported p _ hpackage hmem₁
    have hcache : cacheMaskOf cfg d = cacheMaskOf cfg dir := by
      rw [← hcmask, ← h.cache_mask, hgrowth₂.mask_eq (hsound.child_valid p _ hmem₁)]
    have hmask : (t₂.obj p).mask = (t₂.obj ⟨.package, package⟩).mask := by
      rw [hgrowth₂.mask_eq (valid_of_mem_childRefs hmem₁), hpmask, hsame d hd hcache,
        h.onPackage.mask_eq]
    have heq : p = ⟨.package, package⟩ :=
      h.distinct (.inr rfl) (hw.distinct .package (.inr rfl)) p _ hpackage rfl
        (hgrowth₂.valid (valid_of_mem_childRefs hmem₁)) h.package_valid hmask
    rw [hsame₁ _ rfl] at hnot
    exact hnot (heq ▸ hmem₁)
  -- a package that has a parent is left alone
  rw [h.onNode]
  rcases addPackageToNode_cases cfg t₂ package (readNodeid cfg dir) with
    ⟨heq, -⟩ | ⟨hnone, node, hsome, heq⟩
  · rw [heq]
    exact hagrees₂
  · rw [heq]
    exact hagrees₂.file hnone (childRefs_link rfl (getNumaNode_valid hnodes₂ hsome))
      (parentRef_link rfl h.package_valid)

/-! ## The tree -/

/-- The links make a tree: every object but a node is a child of one object, no list
of children holds an object twice, and lists and pointers agree. -/
structure IsTree (t : Topology) : Prop where
  one_parent : ∀ c, t.Valid c → c.objType ≠ .node → ∃! p, c ∈ t.childRefs p
  nodup : ∀ p, (t.childRefs p).Nodup
  child_iff : ∀ p c, c ∈ t.childRefs p ↔ t.parentRef c = some p

theorem isTree_of_agrees (hagrees : Agrees t.childRefs t.parentRef)
    (hrooted : ∀ r, t.Valid r → r.objType ≠ .node → (t.parentRef r).isSome) : IsTree t where
  one_parent := by
    intro c hc hty
    obtain ⟨p, hp⟩ := Option.isSome_iff_exists.mp (hrooted c hc hty)
    refine ⟨p, hagrees.mem_iff.mpr hp, fun q hq => ?_⟩
    rw [hagrees.mem_iff.mp hq, Option.some.injEq] at hp
    exact hp
  nodup := hagrees.nodup
  child_iff := fun _ _ => hagrees.mem_iff

/-- The directories `parse_cpu_tree` makes CPUs of. -/
def countedDirs (cfg : Config) (sysfs : Sysfs) : List CpuDir :=
  (sysfs.cpuDirs.getD []).filter fun dir => dir.Counts cfg

/-- Any two CPUs of one cache domain are in one package. -/
def CachesWithinPackages (cfg : Config) (stack : Stack) (dirs : List CpuDir) : Prop :=
  ∀ d ∈ dirs, ∀ d' ∈ dirs, cacheMaskOf cfg d = cacheMaskOf cfg d' →
    packageMaskOf cfg stack d = packageMaskOf cfg stack d'

theorem nodeTree_objs (cfg : Config) (sysfs : Sysfs) (t : Topology) {ty : ObjType}
    (hty : ty ≠ .node) : (nodeTree cfg sysfs t).objs ty = t.objs ty := by
  have hone : ∀ (t : Topology) (dir : NodeDir), (addOneNode t dir).objs ty = t.objs ty := by
    intro t dir
    unfold addOneNode
    split
    · rfl
    · exact (grows_node t _).objs_other ty hty
  have hstart := (grows_node t unspecifiedNodeTemplate).objs_other ty hty
  have hbuild : (buildNumaNodeList cfg sysfs t).objs ty = t.objs ty := by
    unfold buildNumaNodeList
    dsimp only
    split
    · exact hstart
    · split
      · exact hstart
      · exact (foldl_keeps (fun t : Topology => t.objs ty) (fun dir t => hone t dir) _ _).trans hstart
  cases ty <;> exact hbuild

/-- The tree of nodes has nothing but nodes, and no links. -/
theorem nodeTree_bare (cfg : Config) (sysfs : Sysfs) (ht : ∀ ty, t.objs ty = []) :
    (∀ r : ObjRef, r.objType ≠ .node → ¬ (nodeTree cfg sysfs t).Valid r) ∧
      (∀ r, (nodeTree cfg sysfs t).childRefs r = []) ∧
      ∀ r, (nodeTree cfg sysfs t).parentRef r = none := by
  have hinvalid : ∀ r : ObjRef, r.objType ≠ .node → ¬ (nodeTree cfg sysfs t).Valid r := by
    intro r hr
    simp [Valid, nodeTree_objs cfg sysfs t hr, ht]
  refine ⟨hinvalid, fun r => ?_, fun r => ?_⟩
  · refine List.eq_nil_iff_forall_not_mem.mpr fun c hc => ?_
    refine hinvalid c ?_ ((nodeTree_sound cfg sysfs ht).child_valid r c hc)
    intro hnode
    have hbelow := objType_of_mem_childRefs hc
    rw [hnode] at hbelow
    cases hty : r.objType <;> rw [hty] at hbelow <;> cases hbelow
  · by_cases hr : r.objType = .node
    · unfold parentRef
      rw [hr]
      rfl
    · unfold parentRef
      rw [obj_of_not_valid (hinvalid r hr)]
      cases r.objType.above <;> rfl

/-- The tree of nodes is wired for no directory, and its lists and pointers agree. -/
theorem nodeTree_wired (cfg : Config) (sysfs : Sysfs) (stack : Stack) :
    Wired cfg stack (nodeTree cfg sysfs {}) [] ∧
      Agrees (nodeTree cfg sysfs {}).childRefs (nodeTree cfg sysfs {}).parentRef := by
  obtain ⟨hinvalid, hnil, hnone⟩ :=
    nodeTree_bare cfg sysfs (t := {}) fun ty => by cases ty <;> rfl
  refine ⟨?_, fun i p => by simp [hnil, hnone]⟩
  constructor
  · intro ty hty r r' hr _ hvalid
    refine absurd hvalid (hinvalid r ?_)
    rcases hty with rfl | rfl <;> simp [hr]
  · simp
  · intro p c _ hc
    rw [hnil] at hc
    cases hc
  · exact fun r hvalid hty => absurd hvalid (hinvalid r hty)
  · exact fun r hvalid hty => absurd hvalid (hinvalid r (by simp [hty]))

/-- A directory that does not count leaves the tree wired. -/
theorem Wired.congr {seen : List CpuDir} (h : Wired cfg stack t seen)
    (hobjs : ∀ ty, t'.objs ty = t.objs ty) : Wired cfg stack t' seen := by
  constructor
  · intro ty hty
    refine (h.distinct ty hty).of_same (fun r _ => valid_of_objs hobjs r) fun r _ => ?_
    rw [obj_of_objs hobjs]
  · intro d hd
    simpa only [valid_of_objs hobjs, obj_of_objs hobjs, childRefs_of_objs hobjs] using h.linked d hd
  · intro p c hp hc
    rw [childRefs_of_objs hobjs] at hc
    simpa only [obj_of_objs hobjs] using h.reported p c hp hc
  · intro r hr hty
    rw [parentRef_of_objs hobjs]
    exact h.rooted r ((valid_of_objs hobjs r).mp hr) hty
  · intro r hr hty
    rw [childRefs_of_objs hobjs]
    exact h.populated r ((valid_of_objs hobjs r).mp hr) hty

section Build

variable {sysfs : Sysfs}
  (hknown : ∀ dir ∈ countedDirs cfg sysfs,
    (getNumaNode cfg (buildNumaNodeList cfg sysfs {}) (readNodeid cfg dir)).isSome)
include hknown

/-- The tree after a part of the directories: wired for those that count, and in
agreement if they report every cache domain within one package. -/
theorem foldl_doOneCpu_wired (stack : Stack) {dirs : List CpuDir}
    (hdirs : ∀ dir ∈ dirs, dir ∈ sysfs.cpuDirs.getD []) :
    Wired cfg stack (dirs.foldl (doOneCpu cfg stack) (nodeTree cfg sysfs {}))
        (dirs.filter fun dir => dir.Counts cfg) ∧
      (CachesWithinPackages cfg stack (dirs.filter fun dir => dir.Counts cfg) →
        Agrees (dirs.foldl (doOneCpu cfg stack) (nodeTree cfg sysfs {})).childRefs
          (dirs.foldl (doOneCpu cfg stack) (nodeTree cfg sysfs {})).parentRef) := by
  induction dirs using List.reverseRecOn with
  | nil => exact ⟨(nodeTree_wired cfg sysfs stack).1, fun _ => (nodeTree_wired cfg sysfs stack).2⟩
  | append_singleton dirs dir ih =>
      obtain ⟨hwired, hagrees⟩ := ih fun d hd => hdirs d (List.mem_append_left _ hd)
      have hgrowth := foldl_doOneCpu_growth stack (t := nodeTree cfg sysfs {})
        (buildNumaNodeList_pos cfg sysfs {}) rfl dirs
      have hsound := (nodeTree_sound cfg sysfs (t := {}) fun ty => by cases ty <;> rfl).growth hgrowth
      have hnodes := Nat.lt_of_lt_of_le (buildNumaNodeList_pos cfg sysfs {})
        (hgrowth.length_le .node)
      rw [List.foldl_append, List.filter_append, List.foldl_cons, List.foldl_nil]
      by_cases hdir : dir.Counts cfg
      · have hmem : dir ∈ countedDirs cfg sysfs :=
          List.mem_filter.mpr ⟨hdirs dir (by simp), by simpa using hdir⟩
        have hnode := hgrowth.getNumaNode_isSome (hknown dir hmem)
        have hlast : [dir].filter (fun dir => dir.Counts cfg) = [dir] := by simp [hdir]
        rw [hlast]
        refine ⟨hwired.step hsound hgrowth.unbannedCpus_eq hnodes hdir hnode, fun hwithin => ?_⟩
        refine hwired.agrees_step hsound hgrowth.unbannedCpus_eq hnodes hdir
          (fun d hd => hwithin d (List.mem_append_left _ hd) dir (by simp)) (hagrees ?_)
        exact fun d hd d' hd' =>
          hwithin d (List.mem_append_left _ hd) d' (List.mem_append_left _ hd')
      · have hlast : [dir].filter (fun dir => dir.Counts cfg) = [] := by simp [hdir]
        rw [hlast, List.append_nil]
        rcases doOneCpu_cases cfg stack (dirs.foldl (doOneCpu cfg stack) (nodeTree cfg sysfs {}))
          dir with ⟨-, hobjs, -⟩ | ⟨hcounts, -⟩
        · exact ⟨hwired.congr hobjs, fun hwithin =>
            (hagrees hwithin).congr (childRefs_of_objs hobjs) (parentRef_of_objs hobjs)⟩
        · exact absurd hcounts hdir

theorem buildTree_wired (stack : Stack) :
    Wired cfg stack (buildTree cfg sysfs stack {}) (countedDirs cfg sysfs) := by
  rw [buildTree_eq]
  exact (foldl_doOneCpu_wired hknown stack fun _ hdir => hdir).1

theorem buildTree_agrees {stack : Stack}
    (hwithin : CachesWithinPackages cfg stack (countedDirs cfg sysfs)) :
    Agrees (buildTree cfg sysfs stack {}).childRefs (buildTree cfg sysfs stack {}).parentRef := by
  rw [buildTree_eq]
  exact (foldl_doOneCpu_wired hknown stack fun _ hdir => hdir).2 hwithin

end Build

/-- Where every reported node exists, the topology is a tree exactly if no cache
domain is reported in two packages. -/
theorem isTree_iff (cfg : Config) (sysfs : Sysfs) (stack : Stack)
    (hknown : ∀ dir ∈ countedDirs cfg sysfs,
      (getNumaNode cfg (buildNumaNodeList cfg sysfs {}) (readNodeid cfg dir)).isSome) :
    IsTree (buildTree cfg sysfs stack {}) ↔
      CachesWithinPackages cfg stack (countedDirs cfg sysfs) := by
  have hwired := buildTree_wired hknown stack
  refine ⟨fun htree d hd d' hd' hsame => ?_,
    fun hwithin => isTree_of_agrees (buildTree_agrees hknown hwithin) hwired.rooted⟩
  obtain ⟨c, p, hc, -, hcmask, hpmask, hmem⟩ := hwired.linked d hd
  obtain ⟨c', p', hc', -, hcmask', hpmask', hmem'⟩ := hwired.linked d' hd'
  have hcache : (⟨.cache, c⟩ : ObjRef) = ⟨.cache, c'⟩ :=
    hwired.distinct .cache (.inl rfl) _ _ rfl rfl hc hc' (by rw [hcmask, hcmask', hsame])
  have hparent := (htree.child_iff _ _).mp hmem
  rw [hcache, (htree.child_iff _ _).mp hmem', Option.some.injEq] at hparent
  rw [← hpmask, ← hpmask', hparent]

/-- Two CPUs that share a cache across packages, as virtual machines report. -/
def Sample.sharedCache : Sysfs where
  cpuDirs := some
    [{ number := cpu0, coreSiblings := some 1#(nrCpus), sharedCpuMaps := [some 3#(nrCpus)] },
     { number := cpu1, coreSiblings := some 2#(nrCpus), sharedCpuMaps := [some 3#(nrCpus)] }]

/-- Their cache domain is a child of both packages. -/
theorem sharedCache_not_tree :
    (∀ dir ∈ countedDirs Sample.config Sample.sharedCache,
      (getNumaNode Sample.config (buildNumaNodeList Sample.config Sample.sharedCache {})
        (readNodeid Sample.config dir)).isSome) ∧
    ¬ IsTree (buildTree Sample.config Sample.sharedCache {} {}) := by
  constructor
  · decide +kernel
  · intro htree
    have hmem : ∀ p < 2, (⟨.cache, 0⟩ : ObjRef) ∈
        (buildTree Sample.config Sample.sharedCache {} {}).childRefs ⟨.package, p⟩ := by
      decide +kernel
    have hboth := ((htree.child_iff _ _).mp (hmem 0 (by decide))).symm.trans
      ((htree.child_iff _ _).mp (hmem 1 (by decide)))
    simp at hboth

/-- The sample machine, which reports no caches. -/
theorem isTree_iff_machine :
    IsTree (buildTree Sample.config Sample.machine {} {}) ↔
      CachesWithinPackages Sample.config {} (countedDirs Sample.config Sample.machine) :=
  isTree_iff Sample.config Sample.machine {} (by decide +kernel)

end CodeAnalyze.Irqbalance
