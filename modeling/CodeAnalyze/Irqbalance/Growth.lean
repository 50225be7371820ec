import CodeAnalyze.Irqbalance.CpuTree
import CodeAnalyze.Lib.Loop
import Mathlib.Logic.Relation

/-!
# How the tree grows

`build_numa_node_list` and `parse_cpu_tree` do two things to the tree: they put a
new object on a master list, and they link an object to a parent.  `Growth` is
the closure of the two, and whatever both keep holds of every tree that is built.
-/

namespace CodeAnalyze.Irqbalance

open Lib Relation

/-- No IRQ has been near the object. -/
structure TopoObj.Idle (o : TopoObj) : Prop where
  interrupts : o.interrupts = []
  load : o.load = 0
  lastLoad : o.lastLoad = 0
  powersaveMode : o.powersaveMode = false

/-- An object as it is made. -/
structure TopoObj.New (o : TopoObj) : Prop extends o.Idle where
  children : o.children = []
  parent : o.parent = none

theorem TopoObj.new_default : (default : TopoObj).New := by
  constructor
  · constructor <;> rfl
  · rfl
  · rfl

namespace Topology

variable {t t' : Topology} {r : ObjRef} {ty : ObjType} {o : TopoObj}

/-! ## A new object -/

/-- `t'` is `t` with `o` at the end of one master list. -/
structure Grows (t t' : Topology) (ty : ObjType) (o : TopoObj) : Prop where
  objs_self : t'.objs ty = t.objs ty ++ [o]
  objs_other : ∀ ty', ty' ≠ ty → t'.objs ty' = t.objs ty'
  unbannedCpus : t'.unbannedCpus = t.unbannedCpus

namespace Grows

variable (h : Grows t t' ty o)
include h

theorem length_objs (ty' : ObjType) :
    (t'.objs ty').length = (t.objs ty').length + if ty' = ty then 1 else 0 := by
  by_cases hty : ty' = ty
  · subst hty
    simp [h.objs_self]
  · simp [h.objs_other ty' hty, hty]

theorem valid_new : t'.Valid ⟨ty, (t.objs ty).length⟩ := by
  simp [Valid, h.length_objs]

theorem valid (hr : t.Valid r) : t'.Valid r := by
  unfold Valid at hr ⊢
  rw [h.length_objs]
  omega

theorem valid_iff : t'.Valid r ↔ t.Valid r ∨ r = ⟨ty, (t.objs ty).length⟩ := by
  obtain ⟨rty, place⟩ := r
  simp only [Valid, h.length_objs, ObjRef.mk.injEq]
  by_cases hty : rty = ty
  · subst hty
    simp only [if_true, true_and]
    omega
  · simp [hty]

theorem obj (r : ObjRef) :
    t'.obj r = if r = ⟨ty, (t.objs ty).length⟩ then o else t.obj r := by
  obtain ⟨rty, place⟩ := r
  unfold Topology.obj
  by_cases hty : rty = ty
  · subst hty
    simp only [h.objs_self, List.getElem?_append, ObjRef.mk.injEq, true_and]
    rcases Nat.lt_trichotomy place (t.objs rty).length with hlt | heq | hgt
    · simp [hlt, Nat.ne_of_lt hlt]
    · simp [heq]
    · have hnone : place - (t.objs rty).length ≠ 0 := by omega
      have hsingle : ([o] : List TopoObj)[place - (t.objs rty).length]? = none :=
        List.getElem?_eq_none (by simpa using Nat.one_le_iff_ne_zero.mpr hnone)
      simp [Nat.not_lt_of_gt hgt, Nat.ne_of_gt hgt, hsingle]
  · simp [h.objs_other rty hty, hty]

theorem obj_new : t'.obj ⟨ty, (t.objs ty).length⟩ = o := by
  rw [h.obj, if_pos rfl]

theorem obj_of_valid (hr : t.Valid r) : t'.obj r = t.obj r := by
  rw [h.obj, if_neg]
  rintro rfl
  exact Nat.lt_irrefl _ hr

end Grows

/-- Behind the end of a master list there is the default object. -/
theorem obj_of_not_valid (hr : ¬ t.Valid r) : t.obj r = default := by
  unfold obj
  rw [List.getElem?_eq_none (Nat.le_of_not_lt hr)]
  rfl

theorem Grows.field {α : Type*} (h : Grows t t' ty o) (field : TopoObj → α)
    (hfield : field o = field default) (r : ObjRef) : field (t'.obj r) = field (t.obj r) := by
  rw [h.obj]
  split
  · rename_i hr
    subst hr
    rw [obj_of_not_valid (Nat.lt_irrefl _), hfield]
  · rfl

theorem Grows.childRefs (h : Grows t t' ty o) (hnew : o.New) (r : ObjRef) :
    t'.childRefs r = t.childRefs r := by
  unfold Topology.childRefs
  rw [h.field TopoObj.children (hnew.children.trans rfl)]

theorem Grows.parentRef (h : Grows t t' ty o) (hnew : o.New) (r : ObjRef) :
    t'.parentRef r = t.parentRef r := by
  unfold Topology.parentRef
  rw [h.field TopoObj.parent (hnew.parent.trans rfl)]

/-! ## A link -/

section Link

variable {p c : ObjRef}

theorem valid_link : (t.link p c).Valid r ↔ t.Valid r := by
  simp [link]

theorem unbannedCpus_link : (t.link p c).unbannedCpus = t.unbannedCpus := by
  simp [link]

theorem objs_length_link : ((t.link p c).objs ty).length = (t.objs ty).length := by
  simp [link]

theorem field_link {α : Type*} (field : TopoObj → α)
    (hchildren : ∀ (o : TopoObj) l, field { o with children := l } = field o)
    (hparent : ∀ (o : TopoObj) x, field { o with parent := x } = field o) (r : ObjRef) :
    field ((t.link p c).obj r) = field (t.obj r) :=
  (field_modify _ c r field fun o => hparent o _).trans
    (field_modify _ p r field fun o => hchildren o _)

variable (hty : p.objType.below = some c.objType)
include hty

theorem childRefs_link (hp : t.Valid p) (r : ObjRef) :
    (t.link p c).childRefs r = if r = p then t.childRefs r ++ [c] else t.childRefs r := by
  have hparent : (t.link p c).childRefs r =
      (t.modify p fun o => { o with children := o.children ++ [c.place] }).childRefs r :=
    childRefs_modify _ c (by intro o; rfl) r
  rw [hparent]
  unfold childRefs
  rw [obj_modify]
  by_cases hr : r = p
  · subst hr
    simp [hp, hty]
  · simp [hr]

theorem parentRef_link (hc : t.Valid c) (r : ObjRef) :
    (t.link p c).parentRef r = if r = c then some p else t.parentRef r := by
  have habove := ObjType.above_eq_some_iff.mpr hty
  have hchildren := parentRef_modify t p
    (f := fun o => { o with children := o.children ++ [c.place] }) (fun _ => rfl) r
  by_cases hr : r = c
  · subst hr
    unfold parentRef link
    rw [obj_modify_self _ _ _ (by simpa using hc), habove]
    simp
  · rw [if_neg hr, ← hchildren]
    unfold parentRef link
    rw [obj_modify_of_ne _ _ hr]

end Link

/-! ## Growth -/

/-- What the build does to the tree: nothing the tree shows, a new object whose mask
has no banned CPU unless it is a node, or a link. -/
inductive Grow (banned : Cpumask) (t : Topology) : Topology → Prop
  | count {t' : Topology} : (∀ ty, t'.objs ty = t.objs ty) →
      t'.unbannedCpus = t.unbannedCpus → Grow banned t t'
  | new {t' : Topology} {ty : ObjType} {o : TopoObj} : Grows t t' ty o → o.New →
      (ty ≠ .node → o.mask &&& banned = 0#(nrCpus)) → Grow banned t t'
  | link {p c : ObjRef} : t.Valid p → t.Valid c → p.objType.below = some c.objType →
      Grow banned t (t.link p c)

abbrev Growth (banned : Cpumask) : Topology → Topology → Prop := ReflTransGen (Grow banned)

theorem Growth.keeps {banned : Cpumask} {P : Topology → Prop}
    (hgrow : ∀ t t', P t → Grow banned t t' → P t') (hP : P t) (h : Growth banned t t') : P t' := by
  induction h with
  | refl => exact hP
  | tail _ hstep ih => exact hgrow _ _ ih hstep

theorem obj_of_objs (hobjs : ∀ ty, t'.objs ty = t.objs ty) (r : ObjRef) : t'.obj r = t.obj r := by
  unfold obj
  rw [hobjs]

theorem valid_of_objs (hobjs : ∀ ty, t'.objs ty = t.objs ty) (r : ObjRef) :
    t'.Valid r ↔ t.Valid r := by
  unfold Valid
  rw [hobjs]

theorem childRefs_of_objs (hobjs : ∀ ty, t'.objs ty = t.objs ty) (r : ObjRef) :
    t'.childRefs r = t.childRefs r := by
  unfold childRefs
  rw [obj_of_objs hobjs]

theorem parentRef_of_objs (hobjs : ∀ ty, t'.objs ty = t.objs ty) (r : ObjRef) :
    t'.parentRef r = t.parentRef r := by
  unfold parentRef
  rw [obj_of_objs hobjs]

/-- What holds of the tree all through the build. -/
structure Sound (banned : Cpumask) (t : Topology) : Prop where
  idle : ∀ r, (t.obj r).Idle
  mask : ∀ r, r.objType ≠ .node → (t.obj r).mask &&& banned = 0#(nrCpus)
  child_valid : ∀ p, ∀ c ∈ t.childRefs p, t.Valid c
  parent_valid : ∀ c p, t.parentRef c = some p → t.Valid p
  cpu_childless : ∀ r, r.objType = .cpu → (t.obj r).children = []

theorem Sound.count {banned : Cpumask} (h : Sound banned t)
    (hobjs : ∀ ty, t'.objs ty = t.objs ty) : Sound banned t' where
  idle := by
    intro r
    rw [obj_of_objs hobjs]
    exact h.idle r
  mask := by
    intro r hr
    rw [obj_of_objs hobjs]
    exact h.mask r hr
  child_valid := by
    intro p c hc
    rw [childRefs_of_objs hobjs] at hc
    exact (valid_of_objs hobjs c).mpr (h.child_valid p c hc)
  parent_valid := by
    intro c p hp
    rw [parentRef_of_objs hobjs] at hp
    exact (valid_of_objs hobjs p).mpr (h.parent_valid c p hp)
  cpu_childless := by
    intro r hr
    rw [obj_of_objs hobjs]
    exact h.cpu_childless r hr

/-- A new object has no children, and no object has it as a child. -/
theorem Sound.new {banned : Cpumask} (h : Sound banned t) (hgrows : Grows t t' ty o)
    (hnew : o.New) (hmask : ty ≠ .node → o.mask &&& banned = 0#(nrCpus)) : Sound banned t' where
  idle := by
    intro r
    rw [hgrows.obj]
    split
    · exact hnew.toIdle
    · exact h.idle r
  mask := by
    intro r hr
    rw [hgrows.obj]
    split
    · rename_i heq
      rw [heq] at hr
      exact hmask hr
    · exact h.mask r hr
  child_valid := by
    intro p c hc
    rw [hgrows.childRefs hnew] at hc
    exact hgrows.valid (h.child_valid p c hc)
  parent_valid := by
    intro c p hp
    rw [hgrows.parentRef hnew] at hp
    exact hgrows.valid (h.parent_valid c p hp)
  cpu_childless := by
    intro r hr
    rw [hgrows.field TopoObj.children (hnew.children.trans rfl)]
    exact h.cpu_childless r hr

/-- A link adds a child that exists, and not to a CPU. -/
theorem Sound.link {banned : Cpumask} {p c : ObjRef} (h : Sound banned t) (hp : t.Valid p)
    (hc : t.Valid c) (hty : p.objType.below = some c.objType) : Sound banned (t.link p c) where
  idle := by
    intro r
    have hidle := h.idle r
    constructor
    · rw [field_link TopoObj.interrupts (fun _ _ => rfl) fun _ _ => rfl]
      exact hidle.interrupts
    · rw [field_link TopoObj.load (fun _ _ => rfl) fun _ _ => rfl]
      exact hidle.load
    · rw [field_link TopoObj.lastLoad (fun _ _ => rfl) fun _ _ => rfl]
      exact hidle.lastLoad
    · rw [field_link TopoObj.powersaveMode (fun _ _ => rfl) fun _ _ => rfl]
      exact hidle.powersaveMode
  mask := by
    intro r hr
    rw [field_link TopoObj.mask (fun _ _ => rfl) fun _ _ => rfl]
    exact h.mask r hr
  child_valid := by
    intro q d hd
    rw [childRefs_link hty hp] at hd
    rw [valid_link]
    -- a child of `q` was one before, or is `c`
    split at hd
    · rcases List.mem_append.mp hd with hd | hd
      · exact h.child_valid q d hd
      · rw [List.mem_singleton.mp hd]
        exact hc
    · exact h.child_valid q d hd
  parent_valid := by
    intro d q hq
    rw [parentRef_link hty hc] at hq
    rw [valid_link]
    split at hq
    · exact Option.some.inj hq ▸ hp
    · exact h.parent_valid d q hq
  cpu_childless := by
    intro r hr
    -- nothing is below a CPU
    have hne : r ≠ p := by
      rintro rfl
      rw [hr] at hty
      cases hty
    have hchild := field_modify (t.modify p fun o => { o with children := o.children ++ [c.place] })
      c r TopoObj.children (f := fun o => { o with parent := some p.place }) fun _ => rfl
    exact hchild.trans ((congrArg TopoObj.children (t.obj_modify_of_ne _ hne)).trans
      (h.cpu_childless r hr))

theorem Sound.grow {banned : Cpumask} (h : Sound banned t) (hgrow : Grow banned t t') :
    Sound banned t' := by
  cases hgrow with
  | count hobjs _ => exact h.count hobjs
  | new hgrows hnew hmask => exact h.new hgrows hnew hmask
  | link hp hc hty => exact h.link hp hc hty

theorem Sound.growth {banned : Cpumask} (h : Sound banned t) (hgrowth : Growth banned t t') :
    Sound banned t' :=
  Growth.keeps (fun _ _ => Sound.grow) h hgrowth

theorem sound_empty (banned : Cpumask) (ht : ∀ ty, t.objs ty = []) : Sound banned t := by
  have hdefault : ∀ r, t.obj r = default := fun r => obj_of_not_valid (by simp [Valid, ht])
  constructor
  · intro r
    rw [hdefault]
    exact TopoObj.new_default.toIdle
  · intro r _
    rw [hdefault]
    exact BitVec.zero_and
  · intro p c hc
    unfold childRefs at hc
    rw [hdefault] at hc
    split at hc <;> cases hc
  · intro c p hp
    unfold parentRef at hp
    rw [hdefault] at hp
    split at hp
    · rename_i hnone
      cases hnone
    · cases hp
  · intro r _
    rw [hdefault]
    rfl

end Topology

end CodeAnalyze.Irqbalance
