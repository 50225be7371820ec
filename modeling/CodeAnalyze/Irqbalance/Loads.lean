import CodeAnalyze.Irqbalance.Reach
import CodeAnalyze.Irqbalance.TreeShape
import Mathlib.Algebra.GroupWithZero.Nat

/-!
# Loads after `parse_proc_stat`

The loads of the CPUs are read; those of the other objects are computed from them,
each object as the mean of its children.  The passes add to what is there, so it has
to be cleared first, and `reset_load` goes up from the cache domains: it never comes
to a node without packages.
-/

namespace CodeAnalyze.Irqbalance

open Lib Relation

variable {t t' : Topology} {s s' : State} {d r : ObjRef} {ty : ObjType}

/-! ## What the passes leave alone -/

theorem Topology.fixed_of_still (h : t'.map TopoObj.still = t.map TopoObj.still) :
    ({ topo := t' } : State).fixed = ({ topo := t } : State).fixed :=
  State.fixed_of_still (State.still_of_topo (s := { topo := t }) h)

theorem Topology.parentRef_of_still (h : t'.map TopoObj.still = t.map TopoObj.still)
    (r : ObjRef) : t'.parentRef r = t.parentRef r :=
  State.fixed_parentRef (Topology.fixed_of_still h) r

theorem Topology.childRefs_of_still (h : t'.map TopoObj.still = t.map TopoObj.still)
    (r : ObjRef) : t'.childRefs r = t.childRefs r :=
  State.fixed_childRefs (Topology.fixed_of_still h) r

theorem Topology.valid_of_still (h : t'.map TopoObj.still = t.map TopoObj.still)
    (r : ObjRef) : t'.Valid r ↔ t.Valid r :=
  State.fixed_valid (Topology.fixed_of_still h) r

theorem Topology.length_objs_of_still (h : t'.map TopoObj.still = t.map TopoObj.still)
    (ty : ObjType) : (t'.objs ty).length = (t.objs ty).length :=
  State.length_objs_of_seen (Topology.fixed_of_still h) ty

/-! ## `reset_load` -/

/-- The objects on the way up from `d`. -/
def Topology.Above (t : Topology) (d r : ObjRef) : Prop :=
  ReflTransGen (fun a b => t.parentRef a = some b) d r

theorem Topology.above_of_still (h : t'.map TopoObj.still = t.map TopoObj.still) :
    t'.Above d r ↔ t.Above d r := by
  unfold Above
  simp only [parentRef_of_still h]

theorem Topology.load_clear (t : Topology) (d r : ObjRef) :
    ((t.modify d fun o => { o with load := 0 }).obj r).load =
      if r = d then 0 else (t.obj r).load := by
  rw [obj_modify]
  by_cases hr : r = d
  · subst hr
    by_cases hvalid : t.Valid r
    · simp [hvalid]
    · simp only [hvalid, and_false, if_false, if_true]
      rw [obj_of_not_valid hvalid]
      rfl
  · simp [hr]

/-- `reset_load` clears the loads on the way up. -/
theorem Topology.resetLoad_above (h : t.Above d r) : ((t.resetLoad d).obj r).load = 0 := by
  induction h using ReflTransGen.head_induction_on with
  | refl =>
      cases hp : t.parentRef r with
      | none => rw [resetLoad_root hp, load_clear, if_pos rfl]
      | some p => rw [resetLoad_child hp, load_clear, if_pos rfl]
  | head hp _ ih =>
      rw [resetLoad_child hp, load_clear, ih]
      split <;> rfl

/-- It leaves the others alone. -/
theorem Topology.resetLoad_not_above (t : Topology) (d : ObjRef) (h : ¬ t.Above d r) :
    ((t.resetLoad d).obj r).load = (t.obj r).load := by
  have hne : r ≠ d := by
    rintro rfl
    exact h .refl
  fun_induction Topology.resetLoad t d with
  | case1 d t' ih =>
      cases hp : t.parentRef d with
      | none => rw [← Topology.resetLoad, resetLoad_root hp, load_clear, if_neg hne]
      | some p =>
          have hnot : ¬ t.Above p r := fun habove => h (.head hp habove)
          rw [← Topology.resetLoad, resetLoad_child hp, load_clear, if_neg hne]
          refine ih p hp hnot ?_
          rintro rfl
          exact hnot .refl

/-- The pass over the cache domains clears what is above one of them. -/
theorem Topology.foldl_resetLoad (list : List ObjRef) (t : Topology) (r : ObjRef) :
    ((∃ d ∈ list, t.Above d r) → ((list.foldl resetLoad t).obj r).load = 0) ∧
      ((∀ d ∈ list, ¬ t.Above d r) →
        ((list.foldl resetLoad t).obj r).load = (t.obj r).load) := by
  induction list generalizing t with
  | nil => simp
  | cons d rest ih =>
      have habove : ∀ x, (t.resetLoad d).Above x r ↔ t.Above x r := fun x =>
        above_of_still (t.resetLoad_still d)
      obtain ⟨hcleared, hkept⟩ := ih (t.resetLoad d)
      simp only [habove] at hcleared hkept
      rw [List.foldl_cons]
      constructor
      · rintro ⟨x, hx, hxr⟩
        by_cases hrest : ∃ y ∈ rest, t.Above y r
        · exact hcleared hrest
        · rcases List.mem_cons.mp hx with rfl | hx
          · rw [hkept (by simpa using hrest), resetLoad_above hxr]
          · exact absurd ⟨x, hx, hxr⟩ hrest
      · intro hnone
        rw [hkept fun y hy => hnone y (List.mem_cons_of_mem _ hy),
          t.resetLoad_not_above d (hnone d List.mem_cons_self)]

/-! ## One object shares its load -/

/-- `load_divisor ? load_divisor : 1`. -/
def TopoObj.divisor (o : TopoObj) : UInt64 :=
  if o.children.length ≠ 0 then UInt64.ofNat o.children.length else 1

namespace State

theorem assignLoadSlices_topo (s : State) (d : ObjRef) : (s.assignLoadSlices d).topo = s.topo :=
  foldl_keeps State.topo (by intro i t; rfl) _ s

theorem divideLoad_load (s : State) (d x : ObjRef) :
    ((s.divideLoad d).obj x).load =
      if x = d then (s.obj d).load / (s.obj d).divisor else (s.obj x).load := by
  change ((s.topo.modify d _).obj x).load = _
  rw [Topology.obj_modify]
  by_cases hx : x = d
  · subst hx
    by_cases hvalid : s.topo.Valid x
    · rw [if_pos ⟨rfl, hvalid⟩, if_pos rfl]
      rfl
    · rw [if_neg fun hand => hvalid hand.2, if_pos rfl]
      have hdefault : s.obj x = default := Topology.obj_of_not_valid hvalid
      change (s.obj x).load = _
      rw [hdefault]
      rfl
  · rw [if_neg fun hand => hx hand.1, if_neg hx]

/-- The load of `d` is divided, and the quotient is added to the load of the parent. -/
theorem computeIrqBranchLoadShare_load (s : State) (d r : ObjRef) :
    ((s.computeIrqBranchLoadShare d).obj r).load =
      if r = d then (s.obj d).load / (s.obj d).divisor
      else if s.topo.parentRef d = some r ∧ s.topo.Valid r then
        (s.obj r).load + (s.obj d).load / (s.obj d).divisor
      else (s.obj r).load := by
  have hdivide := s.divideLoad_load d
  have hslices : ((s.divideLoad d).assignLoadSlices d).topo = (s.divideLoad d).topo :=
    assignLoadSlices_topo _ _
  have hparent : ((s.divideLoad d).assignLoadSlices d).topo.parentRef d = s.topo.parentRef d := by
    rw [hslices]
    exact s.topo.parentRef_modify d (by intro o; rfl) d
  unfold computeIrqBranchLoadShare addLoadToParent
  rw [hparent]
  cases hp : s.topo.parentRef d with
  | none =>
      -- an object without a parent
      simp only [reduceCtorEq, false_and, if_false]
      change ((((s.divideLoad d).assignLoadSlices d).topo).obj r).load = _
      rw [hslices]
      exact hdivide r
  | some p =>
      -- the parent is of a higher type, so the division has not touched it
      have hpd : p ≠ d := by
        rintro rfl
        have habove := Topology.objType_of_parentRef hp
        have := ObjType.height_above habove
        omega
      dsimp only
      change ((Topology.modify _ p _).obj r).load = _
      rw [Topology.obj_modify, hslices]
      by_cases hr : r = p
      · subst hr
        have hvalid : (s.divideLoad d).topo.Valid r ↔ s.topo.Valid r := s.topo.valid_modify d r _
        rw [if_neg hpd]
        by_cases hv : s.topo.Valid r
        · rw [if_pos ⟨rfl, hvalid.mpr hv⟩, if_pos ⟨rfl, hv⟩]
          change ((s.divideLoad d).obj r).load + (((s.divideLoad d).assignLoadSlices d).topo.obj d).load
            = _
          rw [hslices, hdivide r, if_neg hpd]
          change _ + ((s.divideLoad d).obj d).load = _
          rw [hdivide d, if_pos rfl]
        · rw [if_neg fun hand => hv (hvalid.mp hand.2), if_neg fun hand => hv hand.2]
          exact (hdivide r).trans (if_neg hpd)
      · rw [if_neg fun hand => hr hand.1]
        have hnot : ¬ (some p = some r ∧ s.topo.Valid r) := fun hand =>
          hr (Option.some.inj hand.1).symm
        rw [if_neg hnot]
        exact hdivide r

/-! ## One pass -/

/-- What `d` hands to its parent. -/
def quotient (s : State) (d : ObjRef) : UInt64 := (s.obj d).load / (s.obj d).divisor

/-- What the objects of `list` below `r` hand to it. -/
def handedUp (s : State) (list : List ObjRef) (r : ObjRef) : ℕ :=
  ((list.filter fun d => s.topo.parentRef d = some r).map fun d => (s.quotient d).toNat).sum

theorem handedUp_cons (s : State) (d : ObjRef) (list : List ObjRef) (r : ObjRef) :
    s.handedUp (d :: list) r =
      (if s.topo.parentRef d = some r then (s.quotient d).toNat else 0) + s.handedUp list r := by
  unfold handedUp
  by_cases hp : s.topo.parentRef d = some r
  · simp [hp]
  · simp [hp]

/-- A pass over the objects of a type divides their loads and adds the quotients to
the loads of their parents. -/
theorem pass_load (s : State) (ty : ObjType) :
    (∀ r, s.topo.Valid r → r.objType = ty →
      (((s.topo.refs ty).foldl computeIrqBranchLoadShare s).obj r).load = s.quotient r) ∧
    ∀ r, s.topo.Valid r → r.objType ≠ ty →
      (((s.topo.refs ty).foldl computeIrqBranchLoadShare s).obj r).load.toNat =
        ((s.obj r).load.toNat + s.handedUp (s.topo.refs ty) r) % 2 ^ 64 := by
  -- the objects to come still have their old load, and have not yet handed it up
  have hloop := foldl_rest (f := computeIrqBranchLoadShare)
    (fun rest u => u.still = s.still ∧ rest.Nodup ∧ (∀ d ∈ rest, d.objType = ty) ∧
      (∀ r, s.topo.Valid r → r.objType = ty →
        (u.obj r).load = if r ∈ rest then (s.obj r).load else s.quotient r) ∧
      ∀ r, s.topo.Valid r → r.objType ≠ ty →
        ((u.obj r).load.toNat + s.handedUp rest r) % 2 ^ 64 =
          ((s.obj r).load.toNat + s.handedUp (s.topo.refs ty) r) % 2 ^ 64)
    ?_ (l := s.topo.refs ty) (s := s) ⟨rfl, s.topo.nodup_refs ty,
      fun d hd => (Topology.mem_refs.mp hd).1,
      fun r hr hty => (if_pos (Topology.mem_refs.mpr ⟨hty, hr⟩)).symm, fun _ _ _ => rfl⟩
  · obtain ⟨-, -, -, hsame, hother⟩ := hloop
    refine ⟨fun r hr hty => (hsame r hr hty).trans (if_neg List.not_mem_nil), fun r hr hty => ?_⟩
    have hload := hother r hr hty
    rw [show s.handedUp [] r = 0 from rfl, Nat.add_zero,
      Nat.mod_eq_of_lt (UInt64.toNat_lt _)] at hload
    exact hload
  · rintro d rest u ⟨hstill, hnodup, htypes, hsame, hother⟩
    rw [List.nodup_cons] at hnodup
    have hfixed := fixed_of_still hstill
    have hdty := htypes d List.mem_cons_self
    have hquotient : ∀ hd : s.topo.Valid d,
        (u.obj d).load / (u.obj d).divisor = s.quotient d := by
      intro hd
      have hdivisor : (u.obj d).divisor = (s.obj d).divisor := by
        unfold TopoObj.divisor
        rw [fixed_children hfixed]
      rw [hsame d hd hdty, if_pos List.mem_cons_self, hdivisor]
      rfl
    have hup : ∀ r, s.topo.parentRef d = some r → r.objType ≠ ty := by
      intro r hr heq
      have := ObjType.height_above (Topology.objType_of_parentRef hr)
      rw [hdty, heq] at this
      omega
    refine ⟨(u.computeIrqBranchLoadShare_still d).trans hstill, hnodup.2,
      fun x hx => htypes x (List.mem_cons_of_mem _ hx), fun r hr hty => ?_, fun r hr hty => ?_⟩
    · rw [computeIrqBranchLoadShare_load, fixed_parentRef hfixed]
      by_cases hrd : r = d
      · subst hrd
        rw [if_pos rfl, if_neg hnodup.1, hquotient hr]
      · rw [if_neg hrd, if_neg fun hand => hup r hand.1 hty, hsame r hr hty]
        simp [hrd]
    · have hrd : r ≠ d := fun heq => hty (heq ▸ hdty)
      rw [computeIrqBranchLoadShare_load, fixed_parentRef hfixed, if_neg hrd, ← hother r hr hty,
        handedUp_cons]
      by_cases hp : s.topo.parentRef d = some r
      · by_cases hd : s.topo.Valid d
        · rw [if_pos ⟨hp, (fixed_valid hfixed r).mpr hr⟩, if_pos hp, hquotient hd,
            UInt64.toNat_add, Nat.mod_add_mod, Nat.add_assoc]
        · have hnone : s.topo.parentRef d = none := by
            unfold Topology.parentRef
            rw [Topology.obj_of_not_valid hd]
            cases d.objType.above <;> rfl
          rw [hnone] at hp
          cases hp
      · rw [if_neg fun hand => hp hand.1, if_neg hp, Nat.zero_add]

end State

/-! ## Well-formed topologies -/

/-- The links make a tree of the four levels in which no package is empty. -/
structure WellFormed (t : Topology) : Prop extends IsTree t where
  child_valid : ∀ p, ∀ c ∈ t.childRefs p, t.Valid c
  cpu_childless : ∀ r, r.objType = .cpu → (t.obj r).children = []
  populated : ∀ r, t.Valid r → r.objType = .package → t.childRefs r ≠ []
  /-- An `int` holds the number of children. -/
  children_length : ∀ p, (t.obj p).children.length < 2 ^ 31

/-- What `build_object_tree` builds is well-formed if it is a tree. -/
theorem buildTree_wellFormed {cfg : Config} {sysfs : Sysfs} {stack : Stack}
    (hknown : ∀ dir ∈ countedDirs cfg sysfs,
      (getNumaNode cfg (buildNumaNodeList cfg sysfs {}) (readNodeid cfg dir)).isSome)
    (htree : IsTree (buildTree cfg sysfs stack {}))
    (hlength : ∀ p, ((buildTree cfg sysfs stack {}).obj p).children.length < 2 ^ 31) :
    WellFormed (buildTree cfg sysfs stack {}) where
  toIsTree := htree
  child_valid := (buildTree_sound cfg sysfs stack fun ty => by cases ty <;> rfl).child_valid
  cpu_childless := (buildTree_sound cfg sysfs stack fun ty => by cases ty <;> rfl).cpu_childless
  populated := (buildTree_wired hknown stack).populated
  children_length := hlength

/-- It is a tree if no cache domain is reported in two packages. -/
theorem buildTree_wellFormed_of_within {cfg : Config} {sysfs : Sysfs} {stack : Stack}
    (hknown : ∀ dir ∈ countedDirs cfg sysfs,
      (getNumaNode cfg (buildNumaNodeList cfg sysfs {}) (readNodeid cfg dir)).isSome)
    (hwithin : CachesWithinPackages cfg stack (countedDirs cfg sysfs))
    (hlength : ∀ ty, ∀ p ∈ (buildTree cfg sysfs stack {}).refs ty,
      ((buildTree cfg sysfs stack {}).obj p).children.length < 2 ^ 31) :
    WellFormed (buildTree cfg sysfs stack {}) := by
  refine buildTree_wellFormed hknown
    (isTree_of_agrees (buildTree_agrees hknown hwithin) (buildTree_wired hknown stack).rooted)
    fun p => ?_
  by_cases hp : (buildTree cfg sysfs stack {}).Valid p
  · exact hlength p.objType p (Topology.mem_refs.mpr ⟨rfl, hp⟩)
  · rw [Topology.obj_of_not_valid hp]
    decide

namespace WellFormed

theorem of_fixed (h : WellFormed t)
    (hfixed : ({ topo := t' } : State).fixed = ({ topo := t } : State).fixed) : WellFormed t' := by
  have hchildRefs : ∀ r, t'.childRefs r = t.childRefs r := State.fixed_childRefs hfixed
  have hparentRef : ∀ r, t'.parentRef r = t.parentRef r := State.fixed_parentRef hfixed
  have hvalid : ∀ r, t'.Valid r ↔ t.Valid r := State.fixed_valid hfixed
  have hchildren : ∀ r, (t'.obj r).children = (t.obj r).children := State.fixed_children hfixed
  constructor
  · constructor
    · intro c hc hty
      simpa only [hchildRefs] using h.one_parent c ((hvalid c).mp hc) hty
    · intro p
      rw [hchildRefs]
      exact h.nodup p
    · intro p c
      rw [hchildRefs, hparentRef]
      exact h.child_iff p c
  · intro p c hc
    rw [hchildRefs] at hc
    exact (hvalid c).mpr (h.child_valid p c hc)
  · intro r hr
    rw [hchildren]
    exact h.cpu_childless r hr
  · intro r hr hty
    rw [hchildRefs]
    exact h.populated r ((hvalid r).mp hr) hty
  · intro p
    rw [hchildren]
    exact h.children_length p

theorem of_still (h : WellFormed t) (hstill : t'.map TopoObj.still = t.map TopoObj.still) :
    WellFormed t' :=
  h.of_fixed (Topology.fixed_of_still hstill)

/-- The loads do not matter. -/
theorem modify_load (h : WellFormed t) (r : ObjRef) (load : UInt64) :
    WellFormed (t.modify r fun o => { o with load := load }) :=
  h.of_still (Topology.map_modify r (by intro o; rfl) t)

theorem agrees (h : WellFormed t) : Agrees t.childRefs t.parentRef :=
  Agrees.of_mem_iff h.nodup fun c p => h.child_iff p c

theorem length_childRefs (hr : r.objType ≠ .cpu) :
    (t.childRefs r).length = (t.obj r).children.length := by
  obtain ⟨rty, place⟩ := r
  cases rty <;> first | exact absurd rfl hr | simp [Topology.childRefs, ObjType.below]

/-- What a division by `divisor` does, as numbers. -/
theorem toNat_quotient (h : WellFormed s.topo) (r : ObjRef) :
    (s.quotient r).toNat = (s.obj r).load.toNat / max 1 (s.obj r).children.length := by
  have hlength : (s.obj r).children.length < 2 ^ 31 := h.children_length r
  unfold State.quotient TopoObj.divisor
  rw [UInt64.toNat_div]
  by_cases hzero : (s.obj r).children.length = 0
  · simp [hzero]
  · rw [if_pos (by simpa using hzero), UInt64.toNat_ofNat', Nat.mod_eq_of_lt (by omega),
      Nat.max_eq_right (by omega)]

/-- The objects of a type that hand their load to `r` are its children, or none. -/
theorem handedUp_children (h : WellFormed s.topo) (hr : r.objType.below = some ty) :
    s.handedUp (s.topo.refs ty) r =
      ((s.topo.childRefs r).map fun c => (s.quotient c).toNat).sum := by
  have hperm := h.agrees.filter_perm (p := r) (s.topo.nodup_refs ty) fun c hc => by
    have hbelow := Topology.objType_of_mem_childRefs hc
    rw [hr, Option.some.injEq] at hbelow
    exact Topology.mem_refs.mpr ⟨hbelow.symm, h.child_valid r c hc⟩
  exact (hperm.map _).sum_eq

theorem handedUp_none (hr : r.objType.below ≠ some ty) :
    s.handedUp (s.topo.refs ty) r = 0 := by
  have hempty : (s.topo.refs ty).filter (fun d => s.topo.parentRef d = some r) = [] := by
    refine List.filter_eq_nil_iff.mpr fun d hd => ?_
    simp only [decide_eq_true_eq]
    intro hp
    refine hr ?_
    rw [← (Topology.mem_refs.mp hd).1]
    exact ObjType.above_eq_some_iff.mp (Topology.objType_of_parentRef hp)
  unfold State.handedUp
  rw [hempty]
  rfl

end WellFormed

namespace State

/-! ## The passes, as numbers -/

/-- One pass of `parse_proc_stat`. -/
def pass (ty : ObjType) (s : State) : State := (s.topo.refs ty).foldl computeIrqBranchLoadShare s

theorem pass_still (ty : ObjType) (s : State) : (s.pass ty).still = s.still :=
  foldl_keeps still (fun d u => u.computeIrqBranchLoadShare_still d) _ s

variable (h : WellFormed s.topo) (hr : s.topo.Valid r)
include h hr

theorem pass_self (hty : r.objType = ty) :
    ((s.pass ty).obj r).load.toNat =
      (s.obj r).load.toNat / max 1 (s.obj r).children.length := by
  rw [show ((s.pass ty).obj r).load = s.quotient r from (s.pass_load ty).1 r hr hty]
  exact h.toNat_quotient r

theorem pass_above (hty : r.objType.below = some ty) :
    ((s.pass ty).obj r).load.toNat =
      ((s.obj r).load.toNat + ((s.topo.childRefs r).map fun c => (s.quotient c).toNat).sum) %
        2 ^ 64 := by
  have hne : r.objType ≠ ty := by
    rintro rfl
    cases hrty : r.objType <;> rw [hrty] at hty <;> cases hty
  rw [← h.handedUp_children hty]
  exact (s.pass_load ty).2 r hr hne

omit h in
theorem pass_other (hne : r.objType ≠ ty) (hty : r.objType.below ≠ some ty) :
    ((s.pass ty).obj r).load.toNat = (s.obj r).load.toNat := by
  have hload := (s.pass_load ty).2 r hr hne
  rw [WellFormed.handedUp_none hty, Nat.add_zero, Nat.mod_eq_of_lt (UInt64.toNat_lt _)] at hload
  exact hload

end State

/-! ## The mean of the children -/

/-- The load of an object, computed from the CPUs below it. -/
def Topology.meanLoad (t : Topology) (r : ObjRef) : ℕ :=
  if r.objType = .cpu then (t.obj r).load.toNat
  else ((t.childRefs r).attach.map fun c => t.meanLoad c.1).sum / (t.childRefs r).length
termination_by r.objType.height
decreasing_by
  have := ObjType.height_below (Topology.objType_of_mem_childRefs c.2)
  omega

theorem Topology.meanLoad_cpu (t : Topology) (hr : r.objType = .cpu) :
    t.meanLoad r = (t.obj r).load.toNat := by
  rw [meanLoad, if_pos hr]

theorem Topology.meanLoad_mean (t : Topology) (hr : r.objType ≠ .cpu) :
    t.meanLoad r = ((t.childRefs r).map t.meanLoad).sum / (t.childRefs r).length := by
  rw [meanLoad, if_neg hr, List.attach_map_val (l := t.childRefs r) (f := t.meanLoad)]

/-- Without loads on the CPUs there are none above them. -/
theorem Topology.meanLoad_eq_zero (t : Topology) (h : ∀ r, r.objType = .cpu → (t.obj r).load = 0)
    (r : ObjRef) : t.meanLoad r = 0 := by
  induction hheight : r.objType.height using Nat.strong_induction_on generalizing r with
  | _ height ih =>
      by_cases hr : r.objType = .cpu
      · rw [t.meanLoad_cpu hr, h r hr]
        rfl
      · have hzero : (t.childRefs r).map t.meanLoad = (t.childRefs r).map fun _ => 0 := by
          refine List.map_congr_left fun c hc => ?_
          have hlt := ObjType.height_below (objType_of_mem_childRefs hc)
          exact ih c.objType.height (by omega) c rfl
        rw [t.meanLoad_mean hr, hzero]
        simp

/-! ## From the loop to the end -/

/-- `reset_load` leaves the CPUs and the nodes without packages alone, and clears
everything else. -/
theorem WellFormed.reset (h : WellFormed t) (hr : t.Valid r) :
    (((t.refs .cache).foldl Topology.resetLoad t).obj r).load =
      if r.objType = .cpu ∨ r.objType = .node ∧ t.childRefs r = [] then (t.obj r).load else 0 := by
  have hup : ∀ {p c}, c ∈ t.childRefs p → t.parentRef c = some p := fun hc => (h.child_iff _ _).mp hc
  have hcache : ∀ {c}, t.Valid c → c.objType = .cache → c ∈ t.refs .cache := fun hc hty =>
    Topology.mem_refs.mpr ⟨hty, hc⟩
  -- every package has a cache domain to be reached from
  have hpackage : ∀ p, t.Valid p → p.objType = .package → ∃ d ∈ t.refs .cache, t.Above d p := by
    intro p hp hty
    obtain ⟨c, hc⟩ := List.exists_mem_of_ne_nil _ (h.populated p hp hty)
    have hbelow := Topology.objType_of_mem_childRefs hc
    rw [hty] at hbelow
    exact ⟨c, hcache (h.child_valid p c hc) (Option.some.inj hbelow).symm, .single (hup hc)⟩
  obtain ⟨hcleared, hkept⟩ := Topology.foldl_resetLoad (t.refs .cache) t r
  split
  · rename_i hcase
    refine hkept fun d hd habove => ?_
    rcases ReflTransGen.cases_tail habove with heq | ⟨x, -, hx⟩
    · have hdty := (Topology.mem_refs.mp hd).1
      rw [← heq] at hdty
      rcases hcase with hty | ⟨hty, -⟩ <;> rw [hdty] at hty <;> cases hty
    · rcases hcase with hty | ⟨-, hnil⟩
      · have hxty := Topology.objType_of_parentRef hx
        rw [hty] at hxty
        cases hxx : x.objType <;> rw [hxx] at hxty <;> cases hxty
      · have hmem := (h.child_iff _ _).mpr hx
        rw [hnil] at hmem
        cases hmem
  · rename_i hcase
    rw [not_or, not_and] at hcase
    refine hcleared ?_
    cases hty : r.objType with
    | cpu => exact absurd hty hcase.1
    | cache => exact ⟨r, hcache hr hty, .refl⟩
    | package => exact hpackage r hr hty
    | node =>
        obtain ⟨p, hp⟩ := List.exists_mem_of_ne_nil _ (hcase.2 hty)
        have hbelow := Topology.objType_of_mem_childRefs hp
        rw [hty] at hbelow
        obtain ⟨d, hd, habove⟩ := hpackage p (h.child_valid r p hp) (Option.some.inj hbelow).symm
        exact ⟨d, hd, habove.tail (hup hp)⟩

theorem State.propagateLoads_eq (s : State) :
    s.propagateLoads =
      (((({ s with topo := (s.topo.refs .cache).foldl Topology.resetLoad s.topo } : State).pass
        .cpu).pass .cache).pass .package).pass .node := rfl

/-- What a pass has to divide to get the mean: the load of a CPU, or the sum of the
loads of the children. -/
def Topology.gathered (t : Topology) (r : ObjRef) : ℕ :=
  if r.objType = .cpu then (t.obj r).load.toNat else ((t.childRefs r).map t.meanLoad).sum

theorem WellFormed.meanLoad_eq (h : WellFormed t) (r : ObjRef) :
    t.meanLoad r = t.gathered r / max 1 (t.obj r).children.length := by
  unfold Topology.gathered
  by_cases hr : r.objType = .cpu
  · rw [if_pos hr, t.meanLoad_cpu hr, h.cpu_childless r hr]
    simp
  · rw [if_neg hr, t.meanLoad_mean hr, length_childRefs hr]
    by_cases hzero : (t.obj r).children.length = 0
    · have hnil : t.childRefs r = [] := by
        rw [← List.length_eq_zero_iff, length_childRefs hr, hzero]
      simp [hnil]
    · rw [Nat.max_eq_right (by omega)]

section Passes

variable {u : State} (h : WellFormed s.topo) (hu : u.still = s.still)
include h hu

theorem WellFormed.of_pass : WellFormed u.topo :=
  h.of_still (congrArg (fun v => v.1.1) hu)

omit h in
theorem still_valid (hr : s.topo.Valid r) : u.topo.Valid r := by
  have hfixed := State.fixed_of_still hu
  exact (State.fixed_valid hfixed r).mpr hr

omit h in
/-- A pass leaves alone what is neither on its level nor on the one above. -/
theorem pass_skips {ty' : ObjType} (hr : s.topo.Valid r) (hty : r.objType = ty')
    (hne : ty' ≠ ty) (hbelow : ty'.below ≠ some ty) :
    ((u.pass ty).obj r).load.toNat = (u.obj r).load.toNat := by
  subst hty
  exact State.pass_other (still_valid hu hr) hne hbelow

/-- A pass turns what an object has gathered into its mean. -/
theorem pass_mean (hr : s.topo.Valid r) (hty : r.objType = ty)
    (hgathered : (u.obj r).load.toNat = s.topo.gathered r) :
    ((u.pass ty).obj r).load.toNat = s.topo.meanLoad r := by
  rw [State.pass_self (h.of_pass hu) (still_valid hu hr) hty, hgathered, h.meanLoad_eq,
    State.fixed_children (State.fixed_of_still hu)]

/-- The parents, if they start from nothing, gather the means. -/
theorem pass_gathered
    (hgathered : ∀ x, s.topo.Valid x → x.objType = ty →
      (u.obj x).load.toNat = s.topo.gathered x)
    (hsums : ∀ r, s.topo.Valid r → r.objType ≠ .cpu →
      ((s.topo.childRefs r).map s.topo.meanLoad).sum < 2 ^ 64)
    (hr : s.topo.Valid r) (hty : r.objType.below = some ty) (hzero : (u.obj r).load = 0) :
    ((u.pass ty).obj r).load.toNat = s.topo.gathered r := by
  have hwf := h.of_pass hu
  have hcpu : r.objType ≠ .cpu := by
    intro hcpu
    rw [hcpu] at hty
    cases hty
  have hmeans : (u.topo.childRefs r).map (fun c => (u.quotient c).toNat) =
      (s.topo.childRefs r).map s.topo.meanLoad := by
    rw [State.fixed_childRefs (State.fixed_of_still hu)]
    refine List.map_congr_left fun c hc => ?_
    have hcty := Topology.objType_of_mem_childRefs hc
    rw [hty, Option.some.injEq] at hcty
    rw [hwf.toNat_quotient, hgathered c (h.child_valid r c hc) hcty.symm, h.meanLoad_eq,
      State.fixed_children (State.fixed_of_still hu)]
  rw [State.pass_above hwf (still_valid hu hr) hty, hzero, hmeans, Topology.gathered, if_neg hcpu]
  change (0 + _) % 2 ^ 64 = _
  rw [Nat.zero_add, Nat.mod_eq_of_lt (hsums r hr hcpu)]

end Passes

/-- The load every object has in the end: the mean of its children, but a node without
packages keeps the load it had. -/
theorem WellFormed.propagateLoads (h : WellFormed s.topo)
    (hsums : ∀ r, s.topo.Valid r → r.objType ≠ .cpu →
      ((s.topo.childRefs r).map s.topo.meanLoad).sum < 2 ^ 64)
    (hr : s.topo.Valid r) :
    (s.propagateLoads.obj r).load.toNat =
      if r.objType = .node ∧ s.topo.childRefs r = [] then (s.obj r).load.toNat
      else s.topo.meanLoad r := by
  rw [State.propagateLoads_eq]
  generalize hs₀ : ({ s with topo := (s.topo.refs .cache).foldl Topology.resetLoad s.topo } : State)
    = s₀
  have hstill₀ : s₀.still = s.still := by
    rw [← hs₀]
    exact State.still_of_topo
      (foldl_keeps (fun t => Topology.map TopoObj.still t) (fun d t => t.resetLoad_still d) _ _)
  have hstill₁ := (State.pass_still .cpu s₀).trans hstill₀
  have hstill₂ := (State.pass_still .cache (s₀.pass .cpu)).trans hstill₁
  have hstill₃ := (State.pass_still .package ((s₀.pass .cpu).pass .cache)).trans hstill₂
  have hstart : ∀ x, s.topo.Valid x → (s₀.obj x).load =
      if x.objType = .cpu ∨ x.objType = .node ∧ s.topo.childRefs x = [] then (s.obj x).load
      else 0 := by
    intro x hx
    rw [← hs₀]
    exact h.reset hx
  -- each level has gathered what it divides when its pass begins
  have hcpu : ∀ x, s.topo.Valid x → x.objType = .cpu →
      (s₀.obj x).load.toNat = s.topo.gathered x := by
    intro x hx hty
    rw [hstart x hx, if_pos (.inl hty), Topology.gathered, if_pos hty]
  have hcache : ∀ x, s.topo.Valid x → x.objType = .cache →
      ((s₀.pass .cpu).obj x).load.toNat = s.topo.gathered x := by
    intro x hx hty
    refine pass_gathered h hstill₀ hcpu hsums hx (by rw [hty]; rfl) ?_
    rw [hstart x hx, if_neg (by simp [hty])]
  have hpackage : ∀ x, s.topo.Valid x → x.objType = .package →
      (((s₀.pass .cpu).pass .cache).obj x).load.toNat = s.topo.gathered x := by
    intro x hx hty
    refine pass_gathered h hstill₁ hcache hsums hx (by rw [hty]; rfl) ?_
    have hsame : ((s₀.pass .cpu).obj x).load.toNat = (s₀.obj x).load.toNat :=
      pass_skips hstill₀ hx hty (by decide) (by decide)
    rw [hstart x hx, if_neg (by simp [hty])] at hsame
    exact UInt64.toNat_inj.mp hsame
  have hnode : ∀ x, s.topo.Valid x → x.objType = .node →
      (((s₀.pass .cpu).pass .cache).obj x).load.toNat = (s₀.obj x).load.toNat := by
    intro x hx hty
    rw [pass_skips hstill₁ hx hty (by decide) (by decide),
      pass_skips hstill₀ hx hty (by decide) (by decide)]
  cases hty : r.objType with
  | cpu =>
      rw [pass_skips hstill₃ hr hty (by decide) (by decide),
        pass_skips hstill₂ hr hty (by decide) (by decide),
        pass_skips hstill₁ hr hty (by decide) (by decide),
        pass_mean h hstill₀ hr hty (hcpu r hr hty)]
      simp
  | cache =>
      rw [pass_skips hstill₃ hr hty (by decide) (by decide),
        pass_skips hstill₂ hr hty (by decide) (by decide),
        pass_mean h hstill₁ hr hty (hcache r hr hty)]
      simp
  | package =>
      rw [pass_skips hstill₃ hr hty (by decide) (by decide),
        pass_mean h hstill₂ hr hty (hpackage r hr hty)]
      simp
  | node =>
      simp only [true_and]
      by_cases hnil : s.topo.childRefs r = []
      · -- nothing is added and nothing is divided
        have hlength : (s.obj r).children.length = 0 := by
          rw [← WellFormed.length_childRefs (t := s.topo) (by simp [hty]), hnil]
          rfl
        rw [if_pos hnil, State.pass_self (h.of_pass hstill₃) (still_valid hstill₃ hr) hty,
          State.fixed_children (State.fixed_of_still hstill₃), hlength,
          State.pass_above (h.of_pass hstill₂) (still_valid hstill₂ hr) (by rw [hty]; rfl),
          State.fixed_childRefs (State.fixed_of_still hstill₂), hnil, hnode r hr hty, hstart r hr,
          if_pos (.inr ⟨hty, hnil⟩)]
        have hlt := UInt64.toNat_lt (s.obj r).load
        simp
      · rw [if_neg hnil]
        refine pass_mean h hstill₃ hr hty ?_
        refine pass_gathered h hstill₂ hpackage hsums hr (by rw [hty]; rfl) ?_
        have hsame := hnode r hr hty
        rw [hstart r hr, if_neg (by simp [hty, hnil])] at hsame
        exact UInt64.toNat_inj.mp hsame

/-! ## `parse_proc_stat` -/

/-- The loop over `/proc/stat` leaves everything but the CPUs alone. -/
theorem readCpuLoads_obj (cfg : Config) (cycleCount : UInt64) (t : Topology) (cpucount : ℕ)
    (lines : List Bytes) (hr : r.objType ≠ .cpu) :
    (readCpuLoads cfg cycleCount t cpucount lines).1.obj r = t.obj r := by
  induction lines generalizing t cpucount with
  | nil => rfl
  | cons line rest ih =>
      unfold readCpuLoads
      split
      · rfl
      · exact ih t cpucount
      · split
        · rfl
        · rename_i cpu _
          rw [ih]
          refine t.obj_modify_of_ne _ ?_
          rintro rfl
          exact hr rfl

/-- The tree when the loop over the lines of `/proc/stat` is done. -/
def cpuLoads (cfg : Config) (s : State) (file : Bytes) : Topology :=
  (readCpuLoads cfg s.cycleCount s.topo 0 (statBuffers file)).1

/-- The loop has found a line for as many CPUs as there are. -/
def Completes (cfg : Config) (s : State) (file : Bytes) : Prop :=
  (readCpuLoads cfg s.cycleCount s.topo 0 (statBuffers file)).2 = s.topo.cpus.length

/-- Every object has the load its CPUs give it. -/
def LoadsRecomputed (cfg : Config) (s : State) (file : Bytes) : Prop :=
  ∀ r, s.topo.Valid r →
    ((s.parseProcStat cfg (some file)).obj r).load.toNat = (cpuLoads cfg s file).meanLoad r

/-- The sums of the loads of children fit into 64 bits. -/
def SumsFit (cfg : Config) (s : State) (file : Bytes) : Prop :=
  ∀ r, s.topo.Valid r → r.objType ≠ .cpu →
    ((s.topo.childRefs r).map (cpuLoads cfg s file).meanLoad).sum < 2 ^ 64

/-- The load every object has after `parse_proc_stat`. -/
theorem WellFormed.parseProcStat {cfg : Config} {file : Bytes} (h : WellFormed s.topo)
    (hcomplete : Completes cfg s file) (hsums : SumsFit cfg s file) (hr : s.topo.Valid r) :
    ((s.parseProcStat cfg (some file)).obj r).load.toNat =
      if r.objType = .node ∧ s.topo.childRefs r = [] then (s.obj r).load.toNat
      else (cpuLoads cfg s file).meanLoad r := by
  have hstill := readCpuLoads_still cfg s.cycleCount s.topo 0 (statBuffers file)
  have hchildRefs := Topology.childRefs_of_still hstill
  have hlength : (cpuLoads cfg s file).cpus.length = s.topo.cpus.length :=
    Topology.length_objs_of_still hstill .cpu
  have hrun : s.parseProcStat cfg (some file) =
      ({ s with topo := cpuLoads cfg s file } : State).propagateLoads := by
    unfold Completes at hcomplete
    unfold State.parseProcStat
    dsimp only
    rw [if_neg]
    · rfl
    · rw [hcomplete, not_not]
      exact hlength.symm
  have hload := WellFormed.propagateLoads (s := { s with topo := cpuLoads cfg s file })
    (h.of_still hstill) (fun x hx hxty => ?_) ((Topology.valid_of_still hstill r).mpr hr)
  · rw [hrun, hload]
    change (if r.objType = .node ∧ (cpuLoads cfg s file).childRefs r = [] then
      ((cpuLoads cfg s file).obj r).load.toNat else _) = _
    rw [show (cpuLoads cfg s file).childRefs r = s.topo.childRefs r from hchildRefs r]
    split
    · rename_i hnode
      rw [cpuLoads, readCpuLoads_obj _ _ _ _ _ (by simp [hnode.1])]
    · rfl
  · change (((cpuLoads cfg s file).childRefs x).map (cpuLoads cfg s file).meanLoad).sum < _
    rw [show (cpuLoads cfg s file).childRefs x = s.topo.childRefs x from hchildRefs x]
    exact hsums x ((Topology.valid_of_still hstill x).mp hx) hxty

/-- The loads are computed afresh exactly if the nodes without packages had no load
before: nothing else keeps an old one. -/
theorem loads_recomputed_iff (cfg : Config) (s : State) (file : Bytes) (h : WellFormed s.topo)
    (hcomplete : Completes cfg s file) (hsums : SumsFit cfg s file) :
    LoadsRecomputed cfg s file ↔
      ∀ r, s.topo.Valid r → r.objType = .node → s.topo.childRefs r = [] → (s.obj r).load = 0 := by
  have hmean : ∀ r, r.objType = .node → s.topo.childRefs r = [] →
      (cpuLoads cfg s file).meanLoad r = 0 := by
    intro r hty hnil
    have hstill := readCpuLoads_still cfg s.cycleCount s.topo 0 (statBuffers file)
    rw [Topology.meanLoad_mean _ (by simp [hty]),
      show (cpuLoads cfg s file).childRefs r = [] from
        (Topology.childRefs_of_still hstill r).trans hnil]
    simp
  constructor
  · intro hrecomputed r hr hty hnil
    have hload := h.parseProcStat hcomplete hsums hr
    rw [if_pos ⟨hty, hnil⟩, hrecomputed r hr, hmean r hty hnil] at hload
    exact UInt64.toNat_inj.mp hload.symm
  · intro hzero r hr
    rw [h.parseProcStat hcomplete hsums hr]
    split
    · rename_i hnode
      rw [hzero r hr hnode.1 hnode.2, hmean r hnode.1 hnode.2]
      rfl
    · rfl

/-! ## A node that keeps its load -/

namespace Sample

/-- The machine of the package that spans two nodes, after an IRQ was placed on the
second one, to which no package is linked. -/
def loadedNode : State :=
  { start numaConfig spanning {} with
    topo := (buildTree numaConfig spanning {} {}).modify ⟨.node, 2⟩ fun o => { o with load := 7 }
    cycleCount := 1 }

/-- `/proc/stat` after a second without interrupts. -/
def quietStat : Bytes :=
  chars (['c', 'p', 'u', ' ', '\n'] ++
    ['c', 'p', 'u', '0', ' ', '0', ' ', '0', ' ', '0', ' ', '0', ' ', '0', ' ', '0', ' ', '0', '\n'] ++
    ['c', 'p', 'u', '1', ' ', '0', ' ', '0', ' ', '0', ' ', '0', ' ', '0', ' ', '0', ' ', '0'])

theorem spanning_wellFormed : WellFormed (buildTree numaConfig spanning {} {}) := by
  refine buildTree_wellFormed_of_within (by decide +kernel) ?_ fun ty => ?_
  · unfold CachesWithinPackages
    decide +kernel
  · cases ty <;> decide +kernel

theorem loadedNode_wellFormed : WellFormed loadedNode.topo :=
  spanning_wellFormed.modify_load ⟨.node, 2⟩ 7

theorem loadedNode_completes : Completes numaConfig loadedNode quietStat := by
  unfold Completes
  decide +kernel

theorem loadedNode_meanLoad (r : ObjRef) :
    (cpuLoads numaConfig loadedNode quietStat).meanLoad r = 0 := by
  refine Topology.meanLoad_eq_zero _ (fun r hr => ?_) r
  have hidle : ∀ r ∈ (cpuLoads numaConfig loadedNode quietStat).refs .cpu,
      ((cpuLoads numaConfig loadedNode quietStat).obj r).load = 0 := by
    decide +kernel
  by_cases hvalid : (cpuLoads numaConfig loadedNode quietStat).Valid r
  · exact hidle r (Topology.mem_refs.mpr ⟨hr, hvalid⟩)
  · rw [Topology.obj_of_not_valid hvalid]
    rfl

theorem loadedNode_sumsFit : SumsFit numaConfig loadedNode quietStat := by
  intro r _ _
  rw [funext loadedNode_meanLoad]
  simp

/-- The node has no packages, so its load should be zero, and it is still seven. -/
theorem loadedNode_not_recomputed :
    WellFormed loadedNode.topo ∧ Completes numaConfig loadedNode quietStat ∧
      SumsFit numaConfig loadedNode quietStat ∧
      ¬ LoadsRecomputed numaConfig loadedNode quietStat := by
  refine ⟨loadedNode_wellFormed, loadedNode_completes, loadedNode_sumsFit, fun hrecomputed => ?_⟩
  have hvalid : loadedNode.topo.Valid ⟨.node, 2⟩ := by decide +kernel
  have hload := loadedNode_wellFormed.parseProcStat loadedNode_completes loadedNode_sumsFit hvalid
  rw [if_pos (by decide +kernel), hrecomputed _ hvalid, loadedNode_meanLoad] at hload
  revert hload
  decide +kernel

end Sample

/-- At the loaded node the condition fails. -/
theorem loads_recomputed_iff_loadedNode :
    LoadsRecomputed Sample.numaConfig Sample.loadedNode Sample.quietStat ↔
      ∀ r, Sample.loadedNode.topo.Valid r → r.objType = .node →
        Sample.loadedNode.topo.childRefs r = [] → (Sample.loadedNode.obj r).load = 0 :=
  loads_recomputed_iff _ _ _ Sample.loadedNode_wellFormed Sample.loadedNode_completes
    Sample.loadedNode_sumsFit

end CodeAnalyze.Irqbalance
