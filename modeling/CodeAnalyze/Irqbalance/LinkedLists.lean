import CodeAnalyze.Irqbalance.GlistSorts
import CodeAnalyze.Irqbalance.LinkedDaemon

/-!
# Linked lists stand for lists

`Represents L c s` says that the daemon with its lists in a heap, `c`, is where the daemon
with plain lists, `s`, is: the lists of `s` are what the cells `L` hold, and the heap has no
other cells.  `Ends` is the triple for a program on the heap: it runs to its end, and leaves
what the plain function leaves.  `forEachIrq_spec` is the rule for a walk whose callback may
take the IRQ it is called for off the list that is walked.
-/

namespace CodeAnalyze.Irqbalance

open Lib Lib.Cells GlistCode

/-! ## Without the lists -/

/-- A write that the view does not see through. -/
theorem Topology.map_modify_comm {f g : TopoObj → TopoObj} (h : ∀ o, g (f o) = f (g o))
    (t : Topology) (r : ObjRef) : (t.modify r f).map g = (t.map g).modify r f := by
  have hmodify (objs : List TopoObj) :
      (objs.modify r.place f).map g = (objs.map g).modify r.place f := by
    apply List.ext_getElem?
    intro n
    rw [List.getElem?_map, List.getElem?_modify, List.getElem?_modify, List.getElem?_map]
    by_cases hn : r.place = n <;> cases objs[n]? <;> simp [hn, h]
  obtain ⟨ty, place⟩ := r
  cases ty <;> simp [modify, map, hmodify]

namespace State

variable (s : State) (r : ObjRef) (i : ℕ) (l : IrqList)

@[simp] theorem obj_withoutLists : s.withoutLists.obj r = (s.obj r).withoutList :=
  Topology.map_obj r rfl s.topo

@[simp] theorem info_withoutLists : s.withoutLists.info i = s.info i := rfl

@[simp] theorem dbSize_withoutLists : s.withoutLists.dbSize = s.dbSize := rfl

@[simp] theorem valid_withoutLists : s.withoutLists.topo.Valid r ↔ s.topo.Valid r := by
  simp [withoutLists, Topology.Valid, Topology.map_objs]

@[simp] theorem listValid_withoutLists : s.withoutLists.ListValid l ↔ s.ListValid l := by
  cases l with
  | rebalance => exact Iff.rfl
  | ofObj r => exact s.valid_withoutLists r

@[simp] theorem refs_withoutLists (ty : ObjType) :
    s.withoutLists.topo.refs ty = s.topo.refs ty := by
  simp [withoutLists, Topology.refs, Topology.map_objs]

@[simp] theorem childRefs_withoutLists : s.withoutLists.topo.childRefs r = s.topo.childRefs r := by
  unfold Topology.childRefs
  rw [show s.withoutLists.topo.obj r = (s.obj r).withoutList from s.obj_withoutLists r]
  rfl

@[simp] theorem parentRef_withoutLists :
    s.withoutLists.topo.parentRef r = s.topo.parentRef r := by
  unfold Topology.parentRef
  rw [show s.withoutLists.topo.obj r = (s.obj r).withoutList from s.obj_withoutLists r]
  rfl

theorem withoutLists_modifyIrqList (f : List ℕ → List ℕ) :
    (s.modifyIrqList l f).withoutLists = s.withoutLists := by
  cases l with
  | rebalance => rfl
  | ofObj r =>
      have htopo := Topology.map_modify (g := TopoObj.withoutList) r
        (f := fun o => { o with interrupts := f o.interrupts }) (fun _ => rfl) s.topo
      simp only [modifyIrqList, modifyObj, withoutLists, htopo]

@[simp] theorem parentRef_modifyIrqList (f : List ℕ → List ℕ) :
    (s.modifyIrqList l f).topo.parentRef r = s.topo.parentRef r := by
  cases l with
  | rebalance => rfl
  | ofObj d =>
      exact s.topo.parentRef_modify (f := fun o => { o with interrupts := f o.interrupts }) d
        (fun _ => rfl) r

theorem withoutLists_modifyObj {f : TopoObj → TopoObj}
    (hf : ∀ o, (f o).withoutList = f o.withoutList) :
    (s.modifyObj r f).withoutLists = s.withoutLists.modifyObj r f := by
  simp [withoutLists, modifyObj, Topology.map_modify_comm hf]

end State

/-! ## Pointers that are followed -/

/-- The pointers the daemon follows point to objects. -/
structure State.Pointing (s : State) : Prop where
  assigned : ∀ i d, (s.info i).assignedObj = some d → s.topo.Valid d
  children : ∀ d, ∀ c ∈ s.topo.childRefs d, s.topo.Valid c
  parents : ∀ d p, s.topo.parentRef d = some p → s.topo.Valid p
  nodes : ∀ i n, (s.info i).numaNode = some n → s.topo.Valid ⟨.node, n⟩

/-- The objects are the same. -/
def State.SameTree (s' s : State) : Prop := ∀ r, s'.topo.Valid r ↔ s.topo.Valid r

theorem State.SameTree.refl (s : State) : s.SameTree s := fun _ => Iff.rfl

theorem State.SameTree.trans {s₁ s₂ s₃ : State} (h₁₂ : s₂.SameTree s₁)
    (h₂₃ : s₃.SameTree s₂) : s₃.SameTree s₁ :=
  fun r => (h₂₃ r).trans (h₁₂ r)

theorem State.SameTree.listValid {s s' : State} (h : s'.SameTree s) {l : IrqList}
    (hl : s.ListValid l) : s'.ListValid l := by
  cases l with
  | rebalance => trivial
  | ofObj r => exact (h r).mpr hl

namespace LinkedState

/-- The cells `L` of the heap hold the lists of `s`, and `c` is as `s` otherwise. -/
structure Represents (L : IrqList → Cells ℕ) (c : LinkedState) (s : State) : Prop where
  rest : c.rest = s.withoutLists
  holds : HeapHolds c.heap c.head L
  lists : ∀ l, contents (L l) = s.irqList l
  pointing : s.Pointing

/-- `x` runs to its end from `c`, where the daemon was at `s`, with the result `b` and where
the daemon is at `s'`; the cells are then such that `K`. -/
def Ends {β : Type} (s : State) (x : ListProg β) (c : LinkedState) (b : β) (s' : State)
    (K : (IrqList → Cells ℕ) → Prop) : Prop :=
  ∃ L' c', x.run c = some (b, c') ∧ Represents L' c' s' ∧ s'.SameTree s ∧ K L'

/-- The same, whatever the cells are. -/
abbrev Leads {β : Type} (s : State) (x : ListProg β) (c : LinkedState) (b : β)
    (s' : State) : Prop :=
  Ends s x c b s' fun _ => True

variable {β γ τ : Type} {L : IrqList → Cells ℕ} {c : LinkedState} {s s₁ s₂ : State}
  {K K₁ : (IrqList → Cells ℕ) → Prop} {l : IrqList} {i : ℕ}

/-! ## Rules -/

theorem Ends.pure (h : Represents L c s) (hK : K L) (b : β) : Ends s (pure b) c b s K :=
  ⟨L, c, rfl, h, .refl s, hK⟩

theorem Ends.same (h : Represents L c s) (b : β) :
    Ends s (Pure.pure b) c b s fun L' => L' = L :=
  .pure (K := fun L' => L' = L) h rfl b

theorem Ends.bind {x : ListProg β} {b : β} {f : β → ListProg γ} {b₂ : γ}
    (hx : Ends s x c b s₁ K₁)
    (hf : ∀ L₁ c₁, Represents L₁ c₁ s₁ → s₁.SameTree s → K₁ L₁ → Ends s₁ (f b) c₁ b₂ s₂ K) :
    Ends s (x >>= f) c b₂ s₂ K := by
  obtain ⟨L₁, c₁, hrun, hrep, htree, hK₁⟩ := hx
  obtain ⟨L₂, c₂, hrun₂, hrep₂, htree₂, hK⟩ := hf L₁ c₁ hrep htree hK₁
  exact ⟨L₂, c₂, (run_bind_of_eq hrun f).trans hrun₂, hrep₂, htree.trans htree₂, hK⟩

theorem Ends.mono {x : ListProg β} {b : β} (hx : Ends s x c b s₁ K₁) (hK : ∀ L', K₁ L' → K L') :
    Ends s x c b s₁ K := by
  obtain ⟨L₁, c₁, hrun, hrep, htree, hK₁⟩ := hx
  exact ⟨L₁, c₁, hrun, hrep, htree, hK L₁ hK₁⟩

theorem Ends.discard {x : ListProg β} {b : β} (hx : Ends s x c b s₁ K) :
    Ends s (discard x) c () s₁ K := by
  obtain ⟨L₁, c₁, hrun, hrest⟩ := hx
  exact ⟨L₁, c₁, run_bind_of_eq hrun fun _ => Pure.pure (), hrest⟩

/-- A program that only reads. -/
theorem Ends.after {x : ListProg β} {b : β} {g : β → ListProg γ} {b₂ : γ}
    (hx : x.run c = some (b, c)) (hg : Ends s (g b) c b₂ s₂ K) : Ends s (x >>= g) c b₂ s₂ K := by
  obtain ⟨L₂, c₂, hrun, hrest⟩ := hg
  exact ⟨L₂, c₂, (run_bind_of_eq hx g).trans hrun, hrest⟩

/-- What is read from the rest is what the state says. -/
theorem Ends.readRest {f : State → β} {v : β} {g : β → ListProg γ} {b₂ : γ}
    (h : Represents L c s) (hf : f s.withoutLists = v) (hg : Ends s (g v) c b₂ s₂ K) :
    Ends s (readRest f >>= g) c b₂ s₂ K := by
  refine .after ?_ hg
  rw [← hf, ← h.rest]
  rfl

theorem ends_readRest {f : State → β} {v : β} (h : Represents L c s) (hf : f s.withoutLists = v) :
    Ends s (LinkedState.readRest f) c v s fun L' => L' = L := by
  refine ⟨L, c, ?_, h, .refl s, rfl⟩
  rw [← hf, ← h.rest]
  rfl

theorem run_readHead (h : Represents L c s) (hl : s.ListValid l) :
    (readHead l).run c = some (c.head l, c) := by
  have hvalid : c.rest.ListValid l := by
    rw [h.rest]
    exact (s.listValid_withoutLists l).mpr hl
  exact if_pos hvalid

theorem run_onHeap {x : HeapProg ℕ β} {b : β} {heap : Heap ℕ}
    (hx : x.run c.heap = some (b, heap)) :
    (onHeap x).run c = some (b, { c with heap := heap }) := by
  change (x.run c.heap).map _ = _
  rw [hx]
  rfl

theorem Represents.isList (h : Represents L c s) (l : IrqList) :
    IsList c.heap (c.head l) (L l) := h.holds.list l

theorem Represents.length (h : Represents L c s) (l : IrqList) :
    (L l).length = (s.irqList l).length := by
  rw [← h.lists l]
  exact (List.length_map _).symm

/-- A program that reads one list. -/
theorem run_readList {f : Ptr → HeapProg ℕ β} {b : β} (h : Represents L c s)
    (hl : s.ListValid l) (hf : (f (c.head l)).run c.heap = some (b, c.heap)) :
    (do onHeap (f (← readHead l)) : ListProg β).run c = some (b, c) :=
  (run_bind_of_eq (run_readHead h hl) _).trans (run_onHeap hf)

theorem run_listLength (h : Represents L c s) (hl : s.ListValid l) :
    (listLength l).run c = some ((s.irqList l).length, c) := by
  rw [← h.length l]
  exact run_readList h hl (gListLength_spec (h.isList l))

/-- The length of a list is the length of the list. -/
theorem Ends.listLength {g : ℕ → ListProg γ} {b₂ : γ} (h : Represents L c s)
    (hl : s.ListValid l) (hg : Ends s (g (s.irqList l).length) c b₂ s₂ K) :
    Ends s (listLength l >>= g) c b₂ s₂ K :=
  .after (run_listLength h hl) hg

/-! ## Changes -/

theorem pointing_modifyIrqList (h : s.Pointing) (l : IrqList) (f : List ℕ → List ℕ) :
    (s.modifyIrqList l f).Pointing := by
  refine ⟨fun i d hd => ?_, fun d c hc => ?_, fun d p hp => ?_, fun i n hn => ?_⟩
  · rw [s.valid_modifyIrqList]
    exact h.assigned i d (by simpa using hd)
  · rw [s.valid_modifyIrqList]
    exact h.children d c (by simpa using hc)
  · rw [s.valid_modifyIrqList]
    exact h.parents d p (by simpa using hp)
  · rw [s.valid_modifyIrqList]
    exact h.nodes i n (by simpa using hn)

/-- A function of `glist.c` and what it does to the list. -/
theorem ends_updateList {f : Ptr → HeapProg ℕ Ptr} {L' : Cells ℕ} {g : List ℕ → List ℕ}
    (h : Represents L c s) (hl : s.ListValid l)
    (hf : ∃ p' heap, (f (c.head l)).run c.heap = some (p', heap) ∧ IsList heap p' L' ∧
      Replaces c.heap (L l) heap L')
    (hg : contents L' = g (s.irqList l)) :
    Ends s (updateList l f) c () (s.modifyIrqList l g) fun L₁ => L₁ = Function.update L l L' := by
  obtain ⟨p', heap, hrun, hlist, hreplaces⟩ := hf
  have hvalid : c.rest.ListValid l := by
    rw [h.rest]
    exact (s.listValid_withoutLists l).mpr hl
  refine ⟨_, { c with heap := heap, head := Function.update c.head l p' }, ?_, ⟨?_, ?_, ?_, ?_⟩,
    fun r => s.valid_modifyIrqList r l g, rfl⟩
  · rw [updateList, run_bind_of_eq (run_readHead h hl), run_bind_of_eq (run_onHeap hrun)]
    exact if_pos hvalid
  · rw [State.withoutLists_modifyIrqList]
    exact h.rest
  · exact h.holds.replace hreplaces hlist
  · intro l'
    rw [State.irqList_modifyIrqList]
    by_cases hl' : l' = l
    · subst hl'
      rw [Function.update_self, if_pos ⟨rfl, hl⟩]
      exact hg
    · rw [Function.update_of_ne hl', if_neg fun hand => hl' hand.1]
      exact h.lists l'
  · exact pointing_modifyIrqList h.pointing l g

/-- A change of what is not on the lists, made without looking at them. -/
theorem ends_modifyRest {f : State → State} (h : Represents L c s)
    (hrest : f s.withoutLists = (f s).withoutLists) (hfixed : (f s).fixed = s.fixed)
    (hlists : ∀ l, (f s).irqList l = s.irqList l)
    (hassigned : ∀ i d, ((f s).info i).assignedObj = some d → s.topo.Valid d) :
    Ends s (modifyRest f) c () (f s) fun L' => L' = L := by
  refine ⟨L, _, rfl, ⟨?_, h.holds, fun l => (h.lists l).trans (hlists l).symm,
    ⟨fun i d hd => ?_, fun d x hx => ?_, fun d p hp => ?_, fun i n hn => ?_⟩⟩,
    fun r => State.fixed_valid hfixed r, rfl⟩
  · change f c.rest = _
    rw [h.rest, hrest]
  · rw [State.fixed_valid hfixed]
    exact hassigned i d hd
  · rw [State.fixed_childRefs hfixed] at hx
    rw [State.fixed_valid hfixed]
    exact h.pointing.children d x hx
  · rw [State.fixed_parentRef hfixed] at hp
    rw [State.fixed_valid hfixed]
    exact h.pointing.parents d p hp
  · rw [State.fixed_numaNode hfixed] at hn
    rw [State.fixed_valid hfixed]
    exact h.pointing.nodes i n hn

/-- A write to an entry that, where it sets `assigned_obj`, points it to an object. -/
theorem ends_modifyInfo {g : IrqInfo → IrqInfo} (h : Represents L c s)
    (hfixed : ∀ info, (g info).fixed = info.fixed)
    (hassigned : ∀ d, (g (s.info i)).assignedObj = some d → s.topo.Valid d) :
    Ends s (modifyRest fun s => s.modifyInfo i g) c () (s.modifyInfo i g) fun L' => L' = L := by
  refine ends_modifyRest h rfl (s.seen_modifyInfo i hfixed) (s.irqList_modifyInfo i g) ?_
  intro j d hd
  rw [State.info_modifyInfo] at hd
  split at hd
  · rename_i hj
    rw [hj.1] at hd
    exact hassigned d hd
  · exact h.pointing.assigned j d hd

theorem ends_setAssigned {d : Option ObjRef} (h : Represents L c s)
    (hd : ∀ d', d = some d' → s.topo.Valid d') :
    Ends s (setAssigned i d) c () (s.modifyInfo i fun info => { info with assignedObj := d })
      fun L' => L' = L :=
  ends_modifyInfo h (fun _ => rfl) hd

/-- A write to an object that leaves its list and what only a rebuild changes. -/
theorem ends_modifyObj {d : ObjRef} {f : TopoObj → TopoObj} (h : Represents L c s)
    (hfixed : ∀ o, (f o).fixed = o.fixed) (hlist : ∀ o, (f o).interrupts = o.interrupts)
    (hf : ∀ o, (f o).withoutList = f o.withoutList) :
    Ends s (modifyRest fun s => s.modifyObj d f) c () (s.modifyObj d f) fun L' => L' = L :=
  ends_modifyRest h (s.withoutLists_modifyObj d hf).symm (s.seen_modifyObj d hfixed)
    (fun l => s.irqList_modifyObj d l hlist) h.pointing.assigned

/-- Statistics are such a change. -/
theorem ends_still {f : State → State} (h : Represents L c s)
    (hrest : f s.withoutLists = (f s).withoutLists) (hstill : (f s).still = s.still) :
    Ends s (modifyRest f) c () (f s) fun L' => L' = L :=
  ends_modifyRest h hrest (State.fixed_of_still hstill) (State.still_irqList hstill) fun i d hd =>
    h.pointing.assigned i d (State.still_assignedObj hstill i ▸ hd)

/-! ## `migrate_irq` and `sort_irq_list` -/

/-- What is behind the cell of `i` on the list `l` stays as it is. -/
def Passes (i : ℕ) (l : IrqList) (L L' : IrqList → Cells ℕ) : Prop :=
  ∀ pre a rest, L l = pre ++ (a, i) :: rest → ∃ pre', L' l = pre' ++ rest

theorem Passes.of_eq {L' : IrqList → Cells ℕ} (h : L' l = L l) : Passes i l L L' := by
  intro pre a rest heq
  exact ⟨pre ++ [(a, i)], by rw [h, heq]; simp⟩

variable (alloc : Allocator ℕ)

theorem ends_append (h : Represents L c s) (hl : s.ListValid l) :
    Ends s (updateList l fun p => gListAppend alloc p i) c ()
      (s.modifyIrqList l fun list => list ++ [i]) fun L' => ∀ l', l' ≠ l → L' l' = L l' := by
  refine (ends_updateList h hl (gListAppend_spec alloc (h.isList l) i) ?_).mono ?_
  · rw [contents_append, h.lists]
    rfl
  · rintro _ rfl l' hne
    exact Function.update_of_ne hne _ _

theorem migrateIrq_ends {src dst : IrqList} (h : Represents L c s) (hsrc : s.ListValid src)
    (hdst : s.ListValid dst) :
    Ends s (migrateIrq alloc src dst i) c () (s.migrateIrq src dst i)
      fun L' => ∀ l, l ≠ dst → Passes i l L L' := by
  set same := sameIrq s i with hsame
  unfold migrateIrq
  refine Ends.readRest h (v := same) rfl ?_
  have hfind := run_onHeap (c := c) (gListFindCustom_spec (h.isList src) same)
  have hlist : (s.irqList src).find? same = ((L src).find? fun x => same x.2).map Prod.snd := by
    rw [← h.lists src, contents, List.find?_map]
    rfl
  cases hx : (L src).find? fun x => same x.2 with
  | none =>
      -- no such IRQ on the list
      rw [hx] at hlist hfind
      have hsame' : s.migrateIrq src dst i = s := by
        unfold State.migrateIrq
        rw [show (s.irqList src).find? (fun j => (s.info j).irq == (s.info i).irq) = none
          from hlist]
      rw [hsame']
      refine .after (run_readHead h hsrc) (.after hfind ?_)
      exact .pure h (fun l _ => .of_eq rfl) ()
  | some x =>
      obtain ⟨a, tmp⟩ := x
      rw [hx] at hlist hfind
      have hstate : s.migrateIrq src dst i =
          ((s.modifyIrqList src fun list => list.eraseP same).modifyIrqList dst
            fun list => list ++ [tmp]).modifyInfo i fun info => { info with moved := true } := by
        unfold State.migrateIrq
        rw [show (s.irqList src).find? (fun j => (s.info j).irq == (s.info i).irq) = some tmp
          from hlist]
        rfl
      rw [hstate]
      obtain ⟨-, pre, post, hL, -⟩ := List.find?_eq_some_iff_append.mp hx
      have hlinked := (h.isList src).linked
      rw [hL, linked_append, linked_cons] at hlinked
      have hload := run_onHeap (run_load hlinked.2.1)
      refine .after (run_readHead h hsrc) (.after hfind (.after hload ?_))
      refine .bind (ends_updateList (g := fun list => list.eraseP same) h hsrc
        (deleteFound_spec (h.isList src) hx) ?_) ?_
      · rw [← h.lists src, contents, contents, List.eraseP_map]
        rfl
      · rintro L₁ c₁ h₁ htree₁ rfl
        refine .bind (ends_append alloc h₁ (htree₁.listValid hdst)) fun L₂ c₂ h₂ _ hL₂ => ?_
        have hmoved := ends_modifyInfo (i := i) (g := fun info => { info with moved := true }) h₂
          (fun _ => rfl) (h₂.pointing.assigned i)
        refine hmoved.mono ?_
        rintro _ rfl l hl pre' b rest hrest
        rw [hL₂ l hl]
        by_cases hlsrc : l = src
        · subst hlsrc
          rw [Function.update_self, hrest, List.eraseP_append]
          -- the IRQ itself is found unless one before it is
          split
          · exact ⟨pre'.eraseP (fun x => same x.2) ++ [(b, i)], by simp⟩
          · refine ⟨pre', ?_⟩
            simp [hsame, sameIrq]
        · rw [Function.update_of_ne hlsrc]
          exact Passes.of_eq rfl pre' b rest hrest

theorem sortIrqList_ends (addr : ℕ → ℕ) (h : Represents L c s) (hl : s.ListValid l) :
    Leads s (sortIrqList addr l) c () (s.sortIrqList addr l) := by
  refine .readRest h (v := s.sortIrqs addr) rfl ?_
  refine (ends_updateList (g := Irqbalance.gListSort (s.sortIrqs addr)) h hl
    (gListSort_spec (h.isList l) _) ?_).mono fun _ _ => trivial
  rw [contents_gListSort, h.lists]

/-! ## Loops -/

section Loops

variable {σ : Type} (st : σ → State) (acc : σ → τ) {x x' : σ}

/-- A loop whose callback works on the state and on something else. -/
theorem foldlM_leads {α : Type} {f : σ → α → Option σ} {g : τ → α → ListProg τ} {list : List α}
    (hstep : ∀ a ∈ list, ∀ L c x x', Represents L c (st x) → (st x).SameTree s →
      f x a = some x' → Leads (st x) (g (acc x) a) c (acc x') (st x'))
    (h : Represents L c (st x)) (htree : (st x).SameTree s) (hrun : list.foldlM f x = some x') :
    Leads (st x) (list.foldlM g (acc x)) c (acc x') (st x') := by
  induction list generalizing L c x with
  | nil =>
      rw [List.foldlM_nil] at hrun
      cases hrun
      exact .pure h trivial _
  | cons a list ih =>
      rw [List.foldlM_cons] at hrun
      obtain ⟨mid, hmid, hrest⟩ := Option.bind_eq_some_iff.mp hrun
      rw [List.foldlM_cons]
      refine .bind (hstep a List.mem_cons_self L c x mid h htree hmid) fun L₁ c₁ h₁ htree₁ _ => ?_
      exact ih (fun b hb => hstep b (List.mem_cons_of_mem a hb)) h₁ (htree.trans htree₁) hrest

variable {f : σ → ℕ → Option σ} {cb : τ → ℕ → ListProg τ}
  (hcb : ∀ i L c x x', Represents L c (st x) → (st x).SameTree s → f x i = some x' →
    Ends (st x) (cb (acc x) i) c (acc x') (st x') fun L' => Passes i l L L')
include hcb

/-- The walk comes to every IRQ that was on the list when it started: the callback may take
the current IRQ off the list, and its cell may be freed, but the cells behind it stay. -/
theorem walk_leads {pre rest : Cells ℕ} {n : ℕ} (h : Represents L c (st x))
    (htree : (st x).SameTree s) (hL : L l = pre ++ rest) (hn : rest.length ≤ n)
    (hrun : (contents rest).foldlM f x = some x') :
    Leads (st x) (walk (fun p => onHeap (load p)) cb n (acc x) (headPtr rest none)) c (acc x')
      (st x') := by
  induction rest generalizing L c x pre n with
  | nil =>
      rw [contents_nil, List.foldlM_nil] at hrun
      cases hrun
      cases n <;> exact .pure h trivial _
  | cons cell rest ih =>
      obtain ⟨a, i⟩ := cell
      obtain ⟨n, rfl⟩ : ∃ m, n = m + 1 := ⟨n - 1, by simp at hn; omega⟩
      rw [contents_cons, List.foldlM_cons] at hrun
      obtain ⟨mid, hmid, hrest⟩ := Option.bind_eq_some_iff.mp hrun
      have hlinked := (h.isList l).linked
      rw [hL, linked_append, linked_cons] at hlinked
      rw [headPtr_cons, walk]
      refine .after (run_onHeap (run_load hlinked.2.1)) ?_
      refine .bind (hcb i L c x mid h htree hmid) fun L₁ c₁ h₁ htree₁ hpasses => ?_
      obtain ⟨pre', hL₁⟩ := hpasses pre a rest hL
      exact ih h₁ (htree.trans htree₁) hL₁ (by simpa using hn) hrest

/-- `for_each_irq`: an empty list stands for the whole database. -/
theorem forEachIrq_leads (h : Represents L c (st x)) (htree : (st x).SameTree s)
    (hl : (st x).ListValid l)
    (hrun : ((st x).forEachIrq ((st x).irqList l)).foldlM f x = some x') :
    Leads (st x) (forEachIrq l cb (acc x)) c (acc x') (st x') := by
  have hlist := h.isList l
  rw [forEachIrq]
  refine .after (run_readHead h hl) ?_
  rw [hlist.head_isSome]
  cases hL : L l with
  | nil =>
      have hnil : (st x).irqList l = [] := by rw [← h.lists l, hL]; rfl
      rw [hnil] at hrun
      rw [if_neg (by simp)]
      refine .readRest h (v := (st x).dbSize) rfl ?_
      exact foldlM_leads st acc (fun i _ L c x x' h htree hi =>
        (hcb i L c x x' h htree hi).mono fun _ _ => trivial) h htree hrun
  | cons cell rest =>
      have hcons : (st x).irqList l = contents (cell :: rest) := by rw [← h.lists l, hL]
      rw [hcons, State.mem_forEachIrq_of_ne_nil _ (by simp [contents])] at hrun
      rw [if_pos (by simp)]
      refine .after (run_onHeap (gListFirst_spec hlist)) ?_
      refine .after (run_onHeap (run_rounds c.heap)) ?_
      rw [hlist.head, hL]
      refine walk_leads st acc hcb h htree (show L l = [] ++ (cell :: rest) from hL) ?_ hrun
      rw [← hL]
      exact Nat.le_succ_of_le hlist.length_le

end Loops

end LinkedState

end CodeAnalyze.Irqbalance
