import CodeAnalyze.Irqbalance.Frame
import CodeAnalyze.Lib.Ledger

/-!
# Where an IRQ is

The home of an IRQ is the list `assigned_obj` says it is on: an object's, or
`rebalance_irq_list` where it is NULL.  `Owned` says that the lists agree with
the homes.  In a state that is `Owned`, `migrate_irq` finds the link it looks
for, and together with the assignment to `assigned_obj` that follows it moves
the IRQ from one home to another; this is `reassign_spec`.
-/

namespace CodeAnalyze.Irqbalance

open Lib

/-- The list an IRQ with this `assigned_obj` belongs on. -/
def homeList : Option ObjRef → IrqList
  | none => .rebalance
  | some d => .ofObj d

theorem homeList_injective : Function.Injective homeList := by
  intro a b h
  cases a <;> cases b <;> simp_all [homeList]

namespace State

/-- Where an IRQ lives: nowhere if it is not to be balanced. -/
def home (s : State) (i : ℕ) : Option IrqList :=
  if i < s.dbSize ∧ (s.info i).level ≠ .none then some (homeList (s.info i).assignedObj) else none

/-- The ownership invariant, with what it rests on: no IRQ number is in the
database twice, and the pointers the placement follows point to objects. -/
structure Owned (s : State) : Prop where
  agrees : Agrees s.irqList s.home
  unique : (s.irqs.interruptsDb.map IrqInfo.irq).Nodup
  children_valid : ∀ d, ∀ c ∈ s.topo.childRefs d, s.topo.Valid c
  numaNode_valid : ∀ i n, (s.info i).numaNode = some n → s.topo.Valid ⟨.node, n⟩

variable {s s' : State} {i j : ℕ} {src : IrqList} {a : Option ObjRef}

/-! ## Entries and numbers -/

theorem info_eq_getElem (hi : i < s.dbSize) : s.info i = s.irqs.interruptsDb[i] := by
  simp [info, List.getElem?_eq_getElem hi]

theorem eq_of_irq_eq (hunique : (s.irqs.interruptsDb.map IrqInfo.irq).Nodup) (hi : i < s.dbSize)
    (hj : j < s.dbSize) (h : (s.info i).irq = (s.info j).irq) : i = j := by
  rw [info_eq_getElem hi, info_eq_getElem hj] at h
  have hi' : i < (s.irqs.interruptsDb.map IrqInfo.irq).length := by simpa using hi
  have hj' : j < (s.irqs.interruptsDb.map IrqInfo.irq).length := by simpa using hj
  have hsame : (s.irqs.interruptsDb.map IrqInfo.irq)[i] =
      (s.irqs.interruptsDb.map IrqInfo.irq)[j] := by
    simpa using h
  exact hunique.getElem_inj_iff.mp hsame

theorem lt_dbSize_of_home {l : IrqList} (h : s.home i = some l) : i < s.dbSize := by
  unfold home at h
  split at h
  · rename_i hi
    exact hi.1
  · simp at h

theorem level_of_home {l : IrqList} (h : s.home i = some l) : (s.info i).level ≠ .none := by
  unfold home at h
  split at h
  · rename_i hi
    exact hi.2
  · simp at h

theorem home_eq_some {l : IrqList} (h : s.home i = some l) :
    l = homeList (s.info i).assignedObj := by
  unfold home at h
  split at h
  · exact (Option.some.inj h).symm
  · simp at h

theorem home_of_assigned {d : ObjRef} (hi : i < s.dbSize) (hlevel : (s.info i).level ≠ .none)
    (h : (s.info i).assignedObj = some d) : s.home i = some (.ofObj d) := by
  simp [home, hi, hlevel, h, homeList]

theorem assigned_of_home {d : ObjRef} (h : s.home i = some (.ofObj d)) :
    (s.info i).assignedObj = some d :=
  homeList_injective (home_eq_some h).symm

theorem assigned_of_home_rebalance (h : s.home i = some .rebalance) :
    (s.info i).assignedObj = none :=
  homeList_injective (home_eq_some h).symm

namespace Owned

theorem mem_iff (h : s.Owned) {l : IrqList} : i ∈ s.irqList l ↔ s.home i = some l :=
  h.agrees.mem_iff

/-- An IRQ's object exists: its list is not empty. -/
theorem valid_of_home (h : s.Owned) {d : ObjRef} (hi : s.home i = some (.ofObj d)) :
    s.topo.Valid d := by
  by_contra hd
  have hmem : i ∈ (s.obj d).interrupts := h.mem_iff.mpr hi
  have hnone : (s.topo.objs d.objType)[d.place]? = none :=
    List.getElem?_eq_none (Nat.le_of_not_lt hd)
  simp [obj, Topology.obj, hnone, show (default : TopoObj).interrupts = [] from rfl] at hmem

end Owned

/-! ## `migrate_irq` -/

theorem find?_eq_some_of_unique {p : ℕ → Bool} {l : List ℕ} (hi : i ∈ l)
    (hp : ∀ j ∈ l, p j = true ↔ j = i) : l.find? p = some i := by
  induction l with
  | nil => simp at hi
  | cons x l ih =>
      by_cases hx : x = i
      · subst hx
        simp [(hp x List.mem_cons_self).mpr rfl]
      · have hpx : p x = false := by
          simpa [hx] using hp x List.mem_cons_self
        rw [List.find?_cons, hpx]
        refine ih ?_ fun j hj => hp j (List.mem_cons_of_mem _ hj)
        simpa [Ne.symm hx] using hi

theorem eraseP_eq_erase {p : ℕ → Bool} {l : List ℕ} (hp : ∀ j ∈ l, p j = true ↔ j = i) :
    l.eraseP p = l.erase i := by
  induction l with
  | nil => rfl
  | cons x l ih =>
      have hx := hp x List.mem_cons_self
      have hrest := ih fun j hj => hp j (List.mem_cons_of_mem _ hj)
      by_cases hxi : x = i
      · simp [hxi, (hxi ▸ hx).mpr rfl]
      · have hpx : p x = false := by simpa [hxi] using hx
        simp [hxi, hpx, hrest]

/-- In an `Owned` state the number of an IRQ tells it from the others on its list. -/
theorem Owned.sameIrq_iff (h : s.Owned) (hi : s.home i = some src) :
    ∀ j ∈ s.irqList src, ((s.info j).irq == (s.info i).irq) = true ↔ j = i := by
  intro j hj
  rw [beq_iff_eq]
  refine ⟨fun heq => ?_, fun heq => by rw [heq]⟩
  exact eq_of_irq_eq h.unique (lt_dbSize_of_home (h.mem_iff.mp hj)) (lt_dbSize_of_home hi) heq

theorem Owned.listValid_of_home (h : s.Owned) (hi : s.home i = some src) : s.ListValid src := by
  cases src with
  | rebalance => trivial
  | ofObj d => exact h.valid_of_home hi

/-- `migrate_irq` and the assignment to `assigned_obj` that follows each call of it. -/
def reassign (s : State) (src : IrqList) (a : Option ObjRef) (i : ℕ) : State :=
  (s.migrateIrq src (homeList a) i).modifyInfo i fun info => { info with assignedObj := a }

section Reassign

variable (h : s.Owned) (hi : s.home i = some src)
include h hi

/-- Where the IRQ is on the list it is looked for on, `migrate_irq` finds it. -/
theorem Owned.migrateIrq_eq (dst : IrqList) :
    s.migrateIrq src dst i =
      ((s.modifyIrqList src fun list => list.eraseP fun j => (s.info j).irq == (s.info i).irq)
        |>.modifyIrqList dst fun list => list ++ [i]).modifyInfo i
          fun info => { info with moved := true } := by
  have hmem : i ∈ s.irqList src := h.mem_iff.mpr hi
  unfold migrateIrq
  rw [find?_eq_some_of_unique hmem (h.sameIrq_iff hi)]

theorem Owned.irqList_reassign (ha : s.ListValid (homeList a)) (hne : homeList a ≠ src)
    (l : IrqList) :
    (s.reassign src a i).irqList l =
      if l = homeList a then s.irqList l ++ [i]
      else if l = src then (s.irqList l).erase i else s.irqList l := by
  have hsrc := h.listValid_of_home hi
  have hvalid : ∀ f, (s.modifyIrqList src f).ListValid (homeList a) := by
    intro f
    cases a with
    | none => trivial
    | some d => exact (s.valid_modifyIrqList d src f).mpr ha
  rw [reassign, h.migrateIrq_eq hi, irqList_modifyInfo, irqList_modifyInfo, irqList_modifyIrqList,
    irqList_modifyIrqList]
  by_cases hl : l = homeList a
  · have hlsrc : l ≠ src := fun heq => hne (hl ▸ heq)
    simp [hl, hne, hvalid]
  · by_cases hlsrc : l = src
    · subst hlsrc
      simp [hl, hsrc, eraseP_eq_erase (h.sameIrq_iff hi)]
    · simp [hl, hlsrc]

theorem Owned.info_reassign (j : ℕ) :
    (s.reassign src a i).info j =
      if j = i then { s.info j with moved := true, assignedObj := a } else s.info j := by
  have hlt := lt_dbSize_of_home hi
  rw [reassign, h.migrateIrq_eq hi]
  by_cases hj : j = i
  · simp [info_modifyInfo, hj, hlt]
  · simp [info_modifyInfo, hj]

theorem Owned.home_reassign (j : ℕ) :
    (s.reassign src a i).home j = if j = i then some (homeList a) else s.home j := by
  have hlt := lt_dbSize_of_home hi
  have hsize : (s.reassign src a i).dbSize = s.dbSize := by
    simp [reassign, h.migrateIrq_eq hi]
  unfold home
  rw [h.info_reassign hi, hsize]
  by_cases hj : j = i
  · simp [hj, hlt, level_of_home hi]
  · simp [hj]

end Reassign

/-- Moving an IRQ keeps every field of every object but `interrupts`. -/
theorem objField_migrateIrq {α : Type*} (field : TopoObj → α)
    (hfield : ∀ (o : TopoObj) (l : List ℕ), field { o with interrupts := l } = field o)
    (s : State) (src dst : IrqList) (i : ℕ) (r : ObjRef) :
    field ((s.migrateIrq src dst i).obj r) = field (s.obj r) := by
  unfold migrateIrq
  split
  · rfl
  · dsimp only [obj, topo_modifyInfo]
    exact (objField_modifyIrqList _ _ _ _ field hfield).trans
      (objField_modifyIrqList _ _ _ _ field hfield)

theorem migrateIrq_fixed (s : State) (src dst : IrqList) (i : ℕ) :
    (s.migrateIrq src dst i).fixed = s.fixed := by
  unfold migrateIrq
  split
  · rfl
  · dsimp only [fixed]
    rw [seen_modifyInfo _ _ (by intro o; rfl), seen_modifyIrqList _ (by intro o l; rfl),
      seen_modifyIrqList _ (by intro o l; rfl)]

theorem reassign_fixed (s : State) (src : IrqList) (a : Option ObjRef) (i : ℕ) :
    (s.reassign src a i).fixed = s.fixed :=
  (seen_modifyInfo _ _ (by intro o; rfl)).trans (s.migrateIrq_fixed src (homeList a) i)

theorem reassign_writes (s : State) (src : IrqList) (a : Option ObjRef) (i : ℕ) :
    (s.reassign src a i).writes = s.writes := by
  unfold reassign migrateIrq
  split
  · rfl
  · exact (writes_modifyIrqList _ _ _).trans (writes_modifyIrqList _ _ _)

/-! ## The invariant is kept -/

theorem Owned.of_fixed (h : s.Owned) (hfixed : s'.fixed = s.fixed)
    (hagrees : Agrees s'.irqList s'.home) : s'.Owned where
  agrees := hagrees
  unique := by
    rw [fixed_irqNumbers hfixed]
    exact h.unique
  children_valid := by
    intro d c hc
    rw [fixed_childRefs hfixed] at hc
    exact (fixed_valid hfixed c).mpr (h.children_valid d c hc)
  numaNode_valid := by
    intro i n hn
    rw [fixed_numaNode hfixed] at hn
    exact (fixed_valid hfixed _).mpr (h.numaNode_valid i n hn)

theorem Owned.reassign (h : s.Owned) (hi : s.home i = some src) (ha : s.ListValid (homeList a))
    (hne : homeList a ≠ src) : (s.reassign src a i).Owned :=
  h.of_fixed (s.reassign_fixed src a i)
    (h.agrees.move hi hne (h.irqList_reassign hi ha hne) (h.home_reassign hi))

theorem home_eq_of_fixed (hfixed : s'.fixed = s.fixed)
    (hassigned : ∀ i, (s'.info i).assignedObj = (s.info i).assignedObj) (i : ℕ) :
    s'.home i = s.home i := by
  unfold home
  rw [fixed_dbSize hfixed, fixed_level hfixed, hassigned]

/-- Nothing that leaves the lists and `assigned_obj` alone can break ownership. -/
theorem Owned.of_same (h : s.Owned) (hfixed : s'.fixed = s.fixed)
    (hlists : ∀ l, (s'.irqList l).Perm (s.irqList l))
    (hassigned : ∀ i, (s'.info i).assignedObj = (s.info i).assignedObj) : s'.Owned :=
  h.of_fixed hfixed
    ((h.agrees.perm hlists).congr (fun _ => rfl) (home_eq_of_fixed hfixed hassigned))

end State

end CodeAnalyze.Irqbalance
