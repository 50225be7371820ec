import CodeAnalyze.Irqbalance.Types
import Mathlib.Data.List.Nodup

/-!
# Reading and writing through pointers

The lemmas that let later files work with `obj`, `info` and `irqList` and never
look at the lists behind them: what a write through a pointer changes, and what
it leaves alone.
-/

namespace CodeAnalyze.Irqbalance

/-! ## Objects -/

namespace Topology

variable (t : Topology) (r r' : ObjRef) (f : TopoObj → TopoObj) (ty : ObjType)

theorem objs_modify :
    (t.modify r f).objs ty =
      if ty = r.objType then (t.objs ty).modify r.place f else t.objs ty := by
  obtain ⟨rty, place⟩ := r
  cases rty <;> cases ty <;> rfl

@[simp] theorem length_objs_modify : ((t.modify r f).objs ty).length = (t.objs ty).length := by
  rw [objs_modify]
  split <;> simp

@[simp] theorem valid_modify : (t.modify r f).Valid r' ↔ t.Valid r' := by
  simp [Valid]

@[simp] theorem refs_modify : (t.modify r f).refs ty = t.refs ty := by
  simp [refs]

theorem obj_modify :
    (t.modify r f).obj r' = if r' = r ∧ t.Valid r then f (t.obj r') else t.obj r' := by
  unfold obj
  rw [objs_modify]
  by_cases hty : r'.objType = r.objType
  · rw [if_pos hty, List.getElem?_modify]
    by_cases hplace : r.place = r'.place
    · have hr : r' = r := by cases r; cases r'; simp_all
      subst hr
      by_cases hvalid : t.Valid r'
      · have hlt : r'.place < (t.objs r'.objType).length := hvalid
        simp [hvalid, List.getElem?_eq_getElem hlt]
      · have hge : (t.objs r'.objType).length ≤ r'.place := Nat.le_of_not_lt hvalid
        simp [hvalid, List.getElem?_eq_none hge]
    · have hr : r' ≠ r := fun h => hplace (by rw [h])
      simp [hr, hplace]
  · have hr : r' ≠ r := fun h => hty (by rw [h])
    simp [hr, hty]

theorem obj_modify_self (h : t.Valid r) : (t.modify r f).obj r = f (t.obj r) := by
  simp [obj_modify, h]

variable {r r'} in
theorem obj_modify_of_ne (h : r' ≠ r) : (t.modify r f).obj r' = t.obj r' := by
  simp [obj_modify, h]

variable {f} in
/-- A write keeps every field that the written function keeps. -/
theorem field_modify {α : Type*} (field : TopoObj → α) (h : ∀ o, field (f o) = field o) :
    field ((t.modify r f).obj r') = field (t.obj r') := by
  rw [obj_modify]
  split
  · exact h _
  · rfl

variable {f} in
theorem childRefs_modify (h : ∀ o, (f o).children = o.children) (d : ObjRef) :
    (t.modify r f).childRefs d = t.childRefs d := by
  unfold childRefs
  rw [t.field_modify r d TopoObj.children h]

variable {f} in
theorem parentRef_modify (h : ∀ o, (f o).parent = o.parent) (d : ObjRef) :
    (t.modify r f).parentRef d = t.parentRef d := by
  unfold parentRef
  rw [t.field_modify r d TopoObj.parent h]

@[simp] theorem unbannedCpus_modify : (t.modify r f).unbannedCpus = t.unbannedCpus := by
  cases r with | mk rty place => cases rty <;> rfl

variable {t r ty} in
theorem mem_refs : r ∈ t.refs ty ↔ r.objType = ty ∧ t.Valid r := by
  constructor
  · intro h
    obtain ⟨place, hplace, rfl⟩ := List.mem_map.mp h
    exact ⟨rfl, List.mem_range.mp hplace⟩
  · rintro ⟨rfl, hvalid⟩
    exact List.mem_map.mpr ⟨r.place, List.mem_range.mpr hvalid, rfl⟩

theorem nodup_refs : (t.refs ty).Nodup :=
  List.Nodup.map (fun _ _ h => by simpa using h) List.nodup_range

variable {t r r'} in
theorem objType_of_mem_childRefs (h : r' ∈ t.childRefs r) :
    r.objType.below = some r'.objType := by
  unfold childRefs at h
  cases hbelow : r.objType.below with
  | none => simp [hbelow] at h
  | some ty =>
      simp only [hbelow, List.mem_map] at h
      obtain ⟨place, -, rfl⟩ := h
      rfl

variable {t r r'} in
theorem ne_of_mem_childRefs (h : r' ∈ t.childRefs r) : r' ≠ r := by
  rintro rfl
  have := ObjType.height_below (objType_of_mem_childRefs h)
  omega

variable {t r r'} in
theorem objType_of_parentRef (h : t.parentRef r = some r') :
    r.objType.above = some r'.objType := by
  unfold parentRef at h
  split at h
  · rename_i ty place hty hplace
    rw [hty, ← Option.some.inj h]
  · simp at h

end Topology

/-! ## The state -/

/-- A list of IRQs: `rebalance_irq_list`, or the `interrupts` of an object. -/
inductive IrqList
  | rebalance
  | ofObj (r : ObjRef)
  deriving DecidableEq

namespace State

/-- The object `r` points to. -/
abbrev obj (s : State) (r : ObjRef) : TopoObj := s.topo.obj r

/-- The entry of `interrupts_db` that `i` points to. -/
def info (s : State) (i : ℕ) : IrqInfo :=
  s.irqs.interruptsDb[i]?.getD default

/-- The number of entries of `interrupts_db`. -/
abbrev dbSize (s : State) : ℕ := s.irqs.interruptsDb.length

def modifyObj (s : State) (r : ObjRef) (f : TopoObj → TopoObj) : State :=
  { s with topo := s.topo.modify r f }

def modifyInfo (s : State) (i : ℕ) (f : IrqInfo → IrqInfo) : State :=
  { s with irqs := { s.irqs with interruptsDb := s.irqs.interruptsDb.modify i f } }

/-- The IRQs on a list. -/
def irqList (s : State) : IrqList → List ℕ
  | .rebalance => s.irqs.rebalanceIrqList
  | .ofObj r => (s.obj r).interrupts

def modifyIrqList (s : State) (l : IrqList) (f : List ℕ → List ℕ) : State :=
  match l with
  | .rebalance =>
      { s with irqs := { s.irqs with rebalanceIrqList := f s.irqs.rebalanceIrqList } }
  | .ofObj r => s.modifyObj r fun o => { o with interrupts := f o.interrupts }

/-- A list head that exists. -/
def ListValid (s : State) : IrqList → Prop
  | .rebalance => True
  | .ofObj r => s.topo.Valid r

instance (s : State) (l : IrqList) : Decidable (s.ListValid l) :=
  match l with
  | .rebalance => inferInstanceAs (Decidable True)
  | .ofObj r => inferInstanceAs (Decidable (s.topo.Valid r))

/-- The entries `for_each_irq` visits: an empty list stands for all of
`interrupts_db`.  The walk reads each link's successor before the callback, and
the callbacks of this program delete no link but the current one and append to
no list they are called on, so it visits the list as it was at the start. -/
def forEachIrq (s : State) (list : List ℕ) : List ℕ :=
  if list.isEmpty then List.range s.dbSize else list

variable (s : State) (r r' : ObjRef) (f : TopoObj → TopoObj) (i j : ℕ)
  (g : IrqInfo → IrqInfo) (l l' : IrqList) (h : List ℕ → List ℕ)

@[simp] theorem info_modifyObj : (s.modifyObj r f).info i = s.info i := rfl

@[simp] theorem irqs_modifyObj : (s.modifyObj r f).irqs = s.irqs := rfl

@[simp] theorem topo_modifyInfo : (s.modifyInfo i g).topo = s.topo := rfl

@[simp] theorem dbSize_modifyInfo : (s.modifyInfo i g).dbSize = s.dbSize :=
  List.length_modify ..

@[simp] theorem irqList_modifyInfo : (s.modifyInfo i g).irqList l = s.irqList l := by
  cases l <;> rfl

@[simp] theorem info_modifyIrqList : (s.modifyIrqList l h).info i = s.info i := by
  cases l <;> rfl

@[simp] theorem interruptsDb_modifyIrqList :
    (s.modifyIrqList l h).irqs.interruptsDb = s.irqs.interruptsDb := by
  cases l <;> rfl

@[simp] theorem dbSize_modifyIrqList : (s.modifyIrqList l h).dbSize = s.dbSize := by
  cases l <;> rfl

@[simp] theorem bannedIrqs_modifyIrqList :
    (s.modifyIrqList l h).irqs.bannedIrqs = s.irqs.bannedIrqs := by
  cases l <;> rfl

@[simp] theorem writes_modifyIrqList : (s.modifyIrqList l h).writes = s.writes := by
  cases l <;> rfl

theorem info_modifyInfo :
    (s.modifyInfo i g).info j = if j = i ∧ i < s.dbSize then g (s.info j) else s.info j := by
  unfold info modifyInfo
  rw [List.getElem?_modify]
  by_cases hij : i = j
  · subst hij
    by_cases hlt : i < s.dbSize
    · simp [hlt]
    · simp [hlt]
  · simp [hij, Ne.symm hij]

theorem info_modifyInfo_self (hi : i < s.dbSize) : (s.modifyInfo i g).info i = g (s.info i) := by
  simp [info_modifyInfo, hi]

variable {i j} in
theorem info_modifyInfo_of_ne (hij : j ≠ i) : (s.modifyInfo i g).info j = s.info j := by
  simp [info_modifyInfo, hij]

variable {g} in
/-- A write keeps every field that the written function keeps. -/
theorem field_modifyInfo {α : Type*} (field : IrqInfo → α) (hg : ∀ o, field (g o) = field o) :
    field ((s.modifyInfo i g).info j) = field (s.info j) := by
  rw [info_modifyInfo]
  split
  · exact hg _
  · rfl

variable {f} in
/-- A write that keeps the `interrupts` of objects keeps every list. -/
theorem irqList_modifyObj (hf : ∀ o, (f o).interrupts = o.interrupts) :
    (s.modifyObj r f).irqList l = s.irqList l := by
  cases l with
  | rebalance => rfl
  | ofObj d => exact s.topo.field_modify r d TopoObj.interrupts hf

theorem irqList_modifyIrqList :
    (s.modifyIrqList l h).irqList l' =
      if l' = l ∧ s.ListValid l then h (s.irqList l') else s.irqList l' := by
  cases l with
  | rebalance => cases l' <;> simp [modifyIrqList, irqList, ListValid]
  | ofObj r =>
      cases l' with
      | rebalance => simp [modifyIrqList, irqList, modifyObj]
      | ofObj r' =>
          simp only [modifyIrqList, irqList, modifyObj, obj, Topology.obj_modify, ListValid,
            IrqList.ofObj.injEq]
          split <;> rfl

/-- Where there is no head there is no list. -/
theorem irqList_of_not_listValid (hnot : ¬s.ListValid l) : s.irqList l = [] := by
  cases l with
  | rebalance => exact absurd trivial hnot
  | ofObj r =>
      have hnone : (s.topo.objs r.objType)[r.place]? = none :=
        List.getElem?_eq_none (Nat.not_lt.mp hnot)
      simp only [irqList, obj, Topology.obj, hnone]
      rfl

/-- Adding to and deleting from `interrupts` lists keeps every other field of
every object. -/
theorem objField_modifyIrqList {α : Type*} (field : TopoObj → α)
    (hfield : ∀ (o : TopoObj) (l : List ℕ), field { o with interrupts := l } = field o) :
    field ((s.modifyIrqList l h).obj r) = field (s.obj r) := by
  cases l with
  | rebalance => rfl
  | ofObj d => exact s.topo.field_modify d r field fun o => hfield o _

@[simp] theorem valid_modifyIrqList :
    (s.modifyIrqList l h).topo.Valid r ↔ s.topo.Valid r := by
  cases l with
  | rebalance => rfl
  | ofObj d => exact s.topo.valid_modify d r _

@[simp] theorem refs_modifyIrqList (ty : ObjType) :
    (s.modifyIrqList l h).topo.refs ty = s.topo.refs ty := by
  cases l with
  | rebalance => rfl
  | ofObj d => exact s.topo.refs_modify d _ ty

@[simp] theorem childRefs_modifyIrqList :
    (s.modifyIrqList l h).topo.childRefs r = s.topo.childRefs r := by
  cases l with
  | rebalance => rfl
  | ofObj d =>
      exact s.topo.childRefs_modify (f := fun o => { o with interrupts := h o.interrupts }) d
        (fun _ => rfl) r

theorem mem_forEachIrq_of_ne_nil {list : List ℕ} (hne : list ≠ []) :
    s.forEachIrq list = list := by
  simp [forEachIrq, hne]

end State

end CodeAnalyze.Irqbalance
