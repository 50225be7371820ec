import CodeAnalyze.Lib.Heap

/-!
# Doubly linked lists in a heap

`Linked h p L q` says that the cells `L` lie in the heap one behind the other, each
pointing to its neighbours, between a pointer `p` in front and a pointer `q` behind.
`IsList` is a whole list, with NULL at both ends.

`HeapHolds` is a heap that is made of nothing but the lists of a family: the lists share no
cell, and every live cell is on one of them.  An operation on one list of the family is
a `Replaces`: it leaves the other cells alone, takes new cells from what was not live,
and frees the cells it drops.  `HeapHolds.replace` is the rule for such an operation.
-/

namespace CodeAnalyze.Lib

variable {α : Type}

/-- The cells of a list: where each is, and what it holds. -/
abbrev Cells (α : Type) := List (Addr × α)

namespace Cells

def addrs (L : Cells α) : List Addr := L.map Prod.fst

def contents (L : Cells α) : List α := L.map Prod.snd

/-- A pointer to the first cell, or what comes behind. -/
def headPtr (L : Cells α) (q : Ptr) : Ptr :=
  match L with
  | [] => q
  | (a, _) :: _ => some a

/-- A pointer to the last cell, or what comes in front. -/
def lastPtr (p : Ptr) : Cells α → Ptr
  | [] => p
  | (a, _) :: L => lastPtr (some a) L

variable (L M : Cells α) (p q : Ptr) (a : Addr) (d : α)

@[simp] theorem addrs_nil : addrs ([] : Cells α) = [] := rfl

@[simp] theorem addrs_cons : addrs ((a, d) :: L) = a :: addrs L := rfl

@[simp] theorem addrs_append : addrs (L ++ M) = addrs L ++ addrs M := List.map_append

@[simp] theorem contents_nil : contents ([] : Cells α) = [] := rfl

@[simp] theorem contents_cons : contents ((a, d) :: L) = d :: contents L := rfl

@[simp] theorem contents_append : contents (L ++ M) = contents L ++ contents M := List.map_append

@[simp] theorem headPtr_nil : headPtr ([] : Cells α) q = q := rfl

@[simp] theorem headPtr_cons : headPtr ((a, d) :: L) q = some a := rfl

@[simp] theorem lastPtr_nil : lastPtr p ([] : Cells α) = p := rfl

@[simp] theorem lastPtr_cons : lastPtr p ((a, d) :: L) = lastPtr (some a) L := rfl

@[simp] theorem headPtr_append : headPtr (L ++ M) q = headPtr L (headPtr M q) := by
  cases L <;> rfl

@[simp] theorem lastPtr_append : lastPtr p (L ++ M) = lastPtr (lastPtr p L) M := by
  induction L generalizing p with
  | nil => rfl
  | cons x L ih => exact ih (some x.1)

theorem isSome_headPtr (hne : L ≠ []) : (headPtr L q).isSome = true := by
  cases L with
  | nil => exact absurd rfl hne
  | cons x L => rfl

theorem isSome_lastPtr (hne : L ≠ []) : (lastPtr p L).isSome = true := by
  induction L generalizing p with
  | nil => exact absurd rfl hne
  | cons x L ih =>
      by_cases hL : L = []
      · subst hL
        rfl
      · exact ih (some x.1) hL

theorem length_addrs : (addrs L).length = L.length := List.length_map _

end Cells

open Cells

/-- The cells `L`, linked to each other, with `p` in front of them and `q` behind. -/
def Linked (h : Heap α) : Ptr → Cells α → Ptr → Prop
  | _, [], _ => True
  | p, (a, d) :: L, q => h.get a = some ⟨d, headPtr L q, p⟩ ∧ Linked h (some a) L q

/-- Nothing changed but at these addresses. -/
def Heap.AgreesOff (S : List Addr) (h h' : Heap α) : Prop := ∀ a, a ∉ S → h'.get a = h.get a

theorem Heap.AgreesOff.trans {S : List Addr} {h₁ h₂ h₃ : Heap α} (h₁₂ : AgreesOff S h₁ h₂)
    (h₂₃ : AgreesOff S h₂ h₃) : AgreesOff S h₁ h₃ :=
  fun a ha => (h₂₃ a ha).trans (h₁₂ a ha)

theorem Heap.AgreesOff.mono {S T : List Addr} {h h' : Heap α} (hoff : AgreesOff S h h')
    (hsub : S ⊆ T) : AgreesOff T h h' :=
  fun a ha => hoff a fun hS => ha (hsub hS)

theorem Heap.agreesOff_set {h : Heap α} {a : Addr} {n : Node α} {S : List Addr} (ha : a ∈ S) :
    AgreesOff S h (h.set a n) :=
  fun _ hb => Heap.get_set_of_ne h n fun heq => hb (heq ▸ ha)

section Linked

variable {h h' : Heap α} {p q : Ptr} {L M : Cells α} {a : Addr} {d : α}

@[simp] theorem linked_nil : Linked h p ([] : Cells α) q := trivial

theorem linked_cons :
    Linked h p ((a, d) :: L) q ↔
      h.get a = some ⟨d, headPtr L q, p⟩ ∧ Linked h (some a) L q := Iff.rfl

theorem linked_append :
    Linked h p (L ++ M) q ↔ Linked h p L (headPtr M q) ∧ Linked h (lastPtr p L) M q := by
  induction L generalizing p with
  | nil => simp
  | cons x L ih =>
      obtain ⟨a, d⟩ := x
      simp only [List.cons_append, linked_cons, headPtr_append, lastPtr_cons, ih, and_assoc]

theorem linked_concat :
    Linked h p (L ++ [(a, d)]) q ↔
      Linked h p L (some a) ∧ h.get a = some ⟨d, q, lastPtr p L⟩ := by
  rw [linked_append, linked_cons]
  simp

/-- The list stays where none of its cells changes. -/
theorem Linked.congr (hl : Linked h p L q) (hsame : ∀ a ∈ addrs L, h'.get a = h.get a) :
    Linked h' p L q := by
  induction L generalizing p with
  | nil => trivial
  | cons x L ih =>
      obtain ⟨a, d⟩ := x
      refine ⟨(hsame a (by simp)).trans hl.1, ih hl.2 fun b hb => hsame b ?_⟩
      simp [hb]

theorem Linked.off {S : List Addr} (hl : Linked h p L q) (hoff : Heap.AgreesOff S h h')
    (hdisj : (addrs L).Disjoint S) : Linked h' p L q :=
  hl.congr fun a ha => hoff a fun hS => hdisj ha hS

theorem Linked.mem_live (hl : Linked h p L q) (ha : a ∈ addrs L) : a ∈ h.live := by
  induction L generalizing p with
  | nil => simp at ha
  | cons x L ih =>
      obtain ⟨b, d⟩ := x
      rcases List.mem_cons.mp ha with rfl | ha
      · exact Heap.mem_live.mpr ⟨_, hl.1⟩
      · exact ih hl.2 ha

/-- There are no more cells on a list than live ones. -/
theorem Linked.length_le (hl : Linked h p L q) (hnodup : (addrs L).Nodup) :
    L.length ≤ h.live.card := by
  calc L.length = (addrs L).toFinset.card := by
        rw [List.toFinset_card_of_nodup hnodup, length_addrs]
    _ ≤ h.live.card := Finset.card_le_card fun a ha => hl.mem_live (List.mem_toFinset.mp ha)

/-- `if (last) last->next = q'`. -/
theorem Linked.run_setNext_last (hl : Linked h none L q) (hnodup : (addrs L).Nodup) (q' : Ptr) :
    ∃ h', (if (lastPtr none L).isSome then setNext (lastPtr none L) q' else pure ()).run h =
        some ((), h') ∧ Linked h' none L q' ∧ Heap.AgreesOff (addrs L) h h' := by
  rcases List.eq_nil_or_concat L with rfl | ⟨M, ⟨a, d⟩, rfl⟩
  · exact ⟨h, rfl, trivial, fun _ _ => rfl⟩
  · rw [List.concat_eq_append] at hl hnodup ⊢
    obtain ⟨hM, ha⟩ := linked_concat.mp hl
    refine ⟨h.set a ⟨d, q', lastPtr none M⟩, ?_, linked_concat.mpr ⟨?_, by simp⟩, ?_⟩
    · rw [lastPtr_append]
      exact run_setNext ha q'
    · refine hM.off (Heap.agreesOff_set (List.mem_singleton.mpr rfl)) ?_
      rw [addrs_append] at hnodup
      exact List.disjoint_of_nodup_append hnodup
    · exact Heap.agreesOff_set (by simp)

/-- `if (first) first->prev = p'`. -/
theorem Linked.run_setPrev_head (hl : Linked h p L none) (hnodup : (addrs L).Nodup) (p' : Ptr) :
    ∃ h', (if (headPtr L none).isSome then setPrev (headPtr L none) p' else pure ()).run h =
        some ((), h') ∧ Linked h' p' L none ∧ Heap.AgreesOff (addrs L) h h' := by
  cases L with
  | nil => exact ⟨h, rfl, trivial, fun _ _ => rfl⟩
  | cons x L =>
      obtain ⟨a, d⟩ := x
      refine ⟨h.set a ⟨d, headPtr L none, p'⟩, run_setPrev hl.1 p', ⟨by simp, ?_⟩, ?_⟩
      · refine hl.2.congr fun b hb => Heap.get_set_of_ne h _ fun heq => ?_
        exact (List.nodup_cons.mp hnodup).1 (heq ▸ hb)
      · exact Heap.agreesOff_set (by simp)

end Linked

/-! ## Whole lists -/

/-- The list that starts at `p` and has the cells `L`. -/
structure IsList (h : Heap α) (p : Ptr) (L : Cells α) : Prop where
  linked : Linked h none L none
  nodup : (addrs L).Nodup
  head : p = headPtr L none

/-- What an operation on one list does to the heap. -/
structure Replaces (h : Heap α) (L : Cells α) (h' : Heap α) (L' : Cells α) : Prop where
  frame : ∀ a, a ∉ addrs L → a ∉ addrs L' → h'.get a = h.get a
  fresh : ∀ a ∈ addrs L', a ∉ addrs L → a ∉ h.live
  freed : ∀ a ∈ addrs L, a ∉ addrs L' → a ∉ h'.live

section Lists

variable {h h' : Heap α} {p p' : Ptr} {L L' : Cells α}

theorem isList_nil (h : Heap α) : IsList h none ([] : Cells α) := ⟨trivial, List.nodup_nil, rfl⟩

theorem IsList.congr (hl : IsList h p L) (hsame : ∀ a ∈ addrs L, h'.get a = h.get a) :
    IsList h' p L :=
  ⟨hl.linked.congr hsame, hl.nodup, hl.head⟩

theorem IsList.head_isSome (hl : IsList h p L) : p.isSome = !L.isEmpty := by
  rw [hl.head]
  cases L <;> rfl

theorem IsList.length_le (hl : IsList h p L) : L.length ≤ h.live.card :=
  hl.linked.length_le hl.nodup

/-- An operation that neither allocates nor frees. -/
theorem Replaces.of_perm (hoff : Heap.AgreesOff (addrs L) h h')
    (hperm : (addrs L').Perm (addrs L)) : Replaces h L h' L' where
  frame a ha _ := hoff a ha
  fresh _ ha hnot := absurd (hperm.mem_iff.mp ha) hnot
  freed _ ha hnot := absurd (hperm.mem_iff.mpr ha) hnot

end Lists

/-! ## A family of lists -/

/-- The heap is made of the lists `L i`, which start at `head i`. -/
structure HeapHolds {ι : Type*} (h : Heap α) (head : ι → Ptr) (L : ι → Cells α) : Prop where
  list : ∀ i, IsList h (head i) (L i)
  apart : ∀ i j, i ≠ j → (addrs (L i)).Disjoint (addrs (L j))
  owned : ∀ a ∈ h.live, ∃ i, a ∈ addrs (L i)

namespace HeapHolds

variable {ι : Type*} {h h' : Heap α} {head : ι → Ptr} {L : ι → Cells α}

/-- No list, no cell. -/
theorem empty {n : ℕ} :
    HeapHolds ({ mallocs := n } : Heap α) (fun _ : ι => none) fun _ => [] where
  list _ := isList_nil _
  apart _ _ _ := List.disjoint_nil_left _
  owned a ha := by simp [Heap.live] at ha

/-- The heap is as large as the lists are long. -/
theorem card_live (hold : HeapHolds h head L) {is : List ι} (hnodup : is.Nodup)
    (hall : ∀ i, L i ≠ [] → i ∈ is) : h.live.card = (is.flatMap L).length := by
  have hcells : h.live = (addrs (is.flatMap L)).toFinset := by
    ext a
    rw [List.mem_toFinset, addrs, List.mem_map]
    constructor
    · intro ha
      obtain ⟨i, hi⟩ := hold.owned a ha
      obtain ⟨x, hx, rfl⟩ := List.mem_map.mp hi
      exact ⟨x, List.mem_flatMap.mpr ⟨i, hall i (List.ne_nil_of_mem hx), hx⟩, rfl⟩
    · rintro ⟨x, hx, rfl⟩
      obtain ⟨i, -, hi⟩ := List.mem_flatMap.mp hx
      exact (hold.list i).linked.mem_live (List.mem_map_of_mem hi)
  have hapart : (addrs (is.flatMap L)).Nodup := by
    rw [addrs, List.map_flatMap, List.nodup_flatMap]
    exact ⟨fun i _ => (hold.list i).nodup, hnodup.imp fun hne => hold.apart _ _ hne⟩
  rw [hcells, List.toFinset_card_of_nodup hapart, length_addrs]

variable [DecidableEq ι]

/-- An operation on one list keeps the family. -/
theorem replace (hold : HeapHolds h head L) {i : ι} {p' : Ptr} {L' : Cells α}
    (hrep : Replaces h (L i) h' L') (hl : IsList h' p' L') :
    HeapHolds h' (Function.update head i p') (Function.update L i L') := by
  have hlive {j : ι} {a : Addr} (ha : a ∈ addrs (L j)) : a ∈ h.live :=
    (hold.list j).linked.mem_live ha
  have hapart {j : ι} (hj : j ≠ i) : (addrs L').Disjoint (addrs (L j)) := by
    intro a ha hja
    by_cases hi : a ∈ addrs (L i)
    · exact hold.apart i j hj.symm hi hja
    · exact hrep.fresh a ha hi (hlive hja)
  refine ⟨fun j => ?_, fun j k hjk => ?_, fun a ha => ?_⟩
  · by_cases hj : j = i
    · subst hj
      simpa using hl
    · rw [Function.update_of_ne hj, Function.update_of_ne hj]
      refine (hold.list j).congr fun a ha => hrep.frame a ?_ ?_
      · exact fun hi => hold.apart i j (Ne.symm hj) hi ha
      · exact fun hL' => hapart hj hL' ha
  · by_cases hj : j = i
    · subst hj
      rw [Function.update_self, Function.update_of_ne hjk.symm]
      exact hapart hjk.symm
    · by_cases hk : k = i
      · subst hk
        rw [Function.update_self, Function.update_of_ne hj]
        exact (hapart hj).symm
      · rw [Function.update_of_ne hj, Function.update_of_ne hk]
        exact hold.apart j k hjk
  · by_cases hL' : a ∈ addrs L'
    · exact ⟨i, by simpa using hL'⟩
    · by_cases hi : a ∈ addrs (L i)
      · exact absurd ha (hrep.freed a hi hL')
      · -- a cell that the operation has not touched
        rw [Heap.mem_live, hrep.frame a hi hL', ← Heap.mem_live] at ha
        obtain ⟨j, hj⟩ := hold.owned a ha
        have hji : j ≠ i := by
          rintro rfl
          exact hi hj
        exact ⟨j, by rwa [Function.update_of_ne hji]⟩

end HeapHolds

end CodeAnalyze.Lib
