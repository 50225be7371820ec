import CodeAnalyze.Irqbalance.GlistCode
import CodeAnalyze.Lib.Linked

/-!
# What the functions of `glist.c` do to a list

One theorem for each function: on a well-formed list it runs to its end, and which list
it leaves.  The loops come first; each is an induction on the cells that are still ahead.
-/

namespace CodeAnalyze.Irqbalance.GlistCode

open Lib Lib.Cells

variable {α : Type} {h : Heap α} {p q : Ptr} {L : Cells α}

theorem run_rounds (h : Heap α) : rounds.run h = some (h.live.card + 1, h) := rfl

/-- A branch that starts by reading a cell. -/
theorem run_ite_load {β : Type} {a : Addr} {n : Node α} (hn : h.get a = some n) (c : Bool)
    (f : Node α → HeapProg α β) (g : HeapProg α β) :
    (if c = true then do f (← load (some a)) else g).run h =
      (if c = true then f n else g).run h := by
  cases c with
  | true => exact run_bind_of_eq (run_load hn) f
  | false => rfl

/-! ## Reading -/

theorem gListLastLoop_spec {n : ℕ} (hl : Linked h p L none) (hne : L ≠ []) (hn : L.length ≤ n) :
    (gListLastLoop n (headPtr L none)).run h = some (lastPtr p L, h) := by
  induction L generalizing p n with
  | nil => exact absurd rfl hne
  | cons x L ih =>
      obtain ⟨a, d⟩ := x
      obtain ⟨n, rfl⟩ : ∃ m, n = m + 1 := ⟨n - 1, by simp at hn; omega⟩
      rw [gListLastLoop, headPtr_cons, run_bind_of_eq (run_load hl.1)]
      by_cases hL : L = []
      · subst hL
        rfl
      · rw [if_pos (isSome_headPtr L none hL), ih hl.2 hL (by simpa using hn)]
        rfl

theorem gListLast_spec (hl : Linked h none L none) (hnodup : (addrs L).Nodup) :
    (gListLast (headPtr L none)).run h = some (lastPtr none L, h) := by
  unfold gListLast
  cases L with
  | nil => rfl
  | cons x L =>
      rw [if_pos (isSome_headPtr _ _ (by simp)), run_bind_of_eq (run_rounds h)]
      exact gListLastLoop_spec hl (by simp) (Nat.le_succ_of_le (hl.length_le hnodup))

theorem gListLengthLoop_spec {n length : ℕ} (hl : Linked h p L none) (hn : L.length ≤ n) :
    (gListLengthLoop n length (headPtr L none)).run h = some (length + L.length, h) := by
  induction L generalizing p n length with
  | nil => cases n <;> rfl
  | cons x L ih =>
      obtain ⟨a, d⟩ := x
      obtain ⟨n, rfl⟩ : ∃ m, n = m + 1 := ⟨n - 1, by simp at hn; omega⟩
      rw [headPtr_cons, gListLengthLoop, run_bind_of_eq (run_load hl.1),
        ih hl.2 (by simpa using hn), List.length_cons, Nat.add_assoc, Nat.add_comm 1]

theorem gListLength_spec (hl : IsList h p L) : (gListLength p).run h = some (L.length, h) := by
  rw [gListLength, run_bind_of_eq (run_rounds h), hl.head,
    gListLengthLoop_spec hl.linked (Nat.le_succ_of_le hl.length_le)]
  simp

theorem gListFirst_spec (hl : IsList h p L) : (gListFirst p).run h = some (p, h) := by
  rw [hl.head]
  unfold gListFirst
  cases L with
  | nil => rfl
  | cons x L =>
      obtain ⟨a, d⟩ := x
      rw [if_pos (by simp), run_bind_of_eq (run_rounds h), gListFirstLoop, headPtr_cons,
        run_bind_of_eq (run_load hl.linked.1)]
      rfl

theorem gListFindLoop_spec {f : α → Bool} {n : ℕ} (hl : Linked h p L none) (hn : L.length ≤ n) :
    (gListFindLoop f n (headPtr L none)).run h =
      some ((L.find? fun x => f x.2).map Prod.fst, h) := by
  induction L generalizing p n with
  | nil => cases n <;> rfl
  | cons x L ih =>
      obtain ⟨a, d⟩ := x
      obtain ⟨n, rfl⟩ : ∃ m, n = m + 1 := ⟨n - 1, by simp at hn; omega⟩
      rw [headPtr_cons, gListFindLoop, run_bind_of_eq (run_load hl.1)]
      cases hf : f d with
      | true => simp [hf]
      | false =>
          simp only [Bool.false_eq_true, if_false, List.find?_cons, hf]
          exact ih hl.2 (by simpa using hn)

theorem gListFindCustom_spec (hl : IsList h p L) (f : α → Bool) :
    (gListFindCustom p f).run h = some ((L.find? fun x => f x.2).map Prod.fst, h) := by
  rw [gListFindCustom, run_bind_of_eq (run_rounds h), hl.head]
  exact gListFindLoop_spec hl.linked (Nat.le_succ_of_le hl.length_le)

/-! ## Appending -/

/-- The new cell, before it is linked to anything. -/
theorem newCell_spec (alloc : Allocator α) (h : Heap α) (data : α) :
    ∃ h' prev, (newCell alloc data).run h = some (some (alloc.addr h.mallocs h.live), h') ∧
      h'.get (alloc.addr h.mallocs h.live) = some ⟨data, none, prev⟩ ∧
      Heap.AgreesOff [alloc.addr h.mallocs h.live] h h' := by
  set a := alloc.addr h.mallocs h.live with ha
  set h₁ := (h.set a (alloc.junk h.mallocs)).count
  have h₁a : h₁.get a = some (alloc.junk h.mallocs) := by simp [h₁]
  set h₂ := h₁.set a { alloc.junk h.mallocs with data := data }
  have h₂a : h₂.get a = some { alloc.junk h.mallocs with data := data } := by simp [h₂]
  refine ⟨h₂.set a ⟨data, none, (alloc.junk h.mallocs).prev⟩, (alloc.junk h.mallocs).prev, ?_,
    by simp, ?_⟩
  · rw [newCell, run_bind_of_eq (run_malloc alloc h), run_bind_of_eq (run_setData h₁a data),
      run_bind_of_eq (run_setNext h₂a none)]
    rfl
  · intro b hb
    have hne : b ≠ a := by simpa using hb
    simp [h₂, h₁, Heap.get_set_of_ne _ _ hne]

theorem gListAppend_spec (alloc : Allocator α) (hl : IsList h p L) (data : α) :
    ∃ p' h', (gListAppend alloc p data).run h = some (p', h') ∧
      IsList h' p' (L ++ [(alloc.addr h.mallocs h.live, data)]) ∧
      Replaces h L h' (L ++ [(alloc.addr h.mallocs h.live, data)]) := by
  obtain ⟨h₁, prev, hnew, hget, hoff⟩ := newCell_spec alloc h data
  have hfresh := alloc.fresh h.mallocs h.live
  set a := alloc.addr h.mallocs h.live
  have hnotMem : a ∉ addrs L := fun ha => hfresh (hl.linked.mem_live ha)
  have hdisj : (addrs L).Disjoint [a] := by simpa [List.disjoint_singleton] using hnotMem
  have hl₁ : Linked h₁ none L none := hl.linked.off hoff hdisj
  -- the last cell is made to point to the new one
  obtain ⟨h₂, hset, hl₂, hoff₂⟩ := hl₁.run_setNext_last hl.nodup (some a)
  have h₂a : h₂.get a = some ⟨data, none, prev⟩ := (hoff₂ a hnotMem).trans hget
  -- and the new one back to it
  set h₃ := h₂.set a ⟨data, none, lastPtr none L⟩ with hh₃
  have hprev : (setPrev (some a) (lastPtr none L)).run h₂ = some ((), h₃) := run_setPrev h₂a _
  have hl₃ : Linked h₃ none (L ++ [(a, data)]) none := by
    refine linked_concat.mpr ⟨hl₂.off (Heap.agreesOff_set (by simp)) hdisj, by simp [hh₃]⟩
  refine ⟨headPtr (L ++ [(a, data)]) none, h₃, ?_, ⟨hl₃, ?_, rfl⟩, ?_⟩
  · rw [gListAppend, run_bind_of_eq hnew, hl.head]
    cases L with
    | nil =>
        cases hset
        exact run_bind_of_eq hprev _
    | cons x L =>
        rw [if_pos (isSome_lastPtr _ _ (by simp))] at hset
        rw [if_pos (isSome_headPtr _ _ (by simp)), run_bind_of_eq (gListLast_spec hl₁ hl.nodup),
          run_bind_of_eq hset, run_bind_of_eq hprev]
        rfl
  · rw [addrs_append]
    exact hl.nodup.append (by simp) (by simpa using hdisj)
  · refine ⟨fun b hb hb' => ?_, fun b hb hb' => ?_, fun b hb hb' => ?_⟩
    · have hne : b ≠ a := by
        rintro rfl
        simp at hb'
      rw [hh₃, Heap.get_set_of_ne _ _ hne, hoff₂ b hb, hoff b (by simpa using hne)]
    · have hba : b = a := by simpa [hb'] using hb
      rw [hba]
      exact hfresh
    · exact absurd hb (by simpa using fun hb => (hb' (by simp [hb])))

/-! ## Freeing -/

theorem gListFreeLoop_spec {n : ℕ} (hl : Linked h p L none) (hnodup : (addrs L).Nodup)
    (hn : L.length ≤ n) :
    ∃ h', (gListFreeLoop n (headPtr L none)).run h = some ((), h') ∧
      (∀ a ∈ addrs L, h'.get a = none) ∧ Heap.AgreesOff (addrs L) h h' := by
  induction L generalizing h p n with
  | nil => exact ⟨h, by cases n <;> rfl, by simp, fun _ _ => rfl⟩
  | cons x L ih =>
      obtain ⟨a, d⟩ := x
      obtain ⟨n, rfl⟩ : ∃ m, n = m + 1 := ⟨n - 1, by simp at hn; omega⟩
      obtain ⟨ha, hnodup⟩ := List.nodup_cons.mp hnodup
      have hne {b : Addr} (hb : b ∈ addrs L) : b ≠ a := fun heq => ha (heq ▸ hb)
      have hrest : Linked (h.erase a) (some a) L none :=
        hl.2.congr fun b hb => Heap.get_erase_of_ne h (hne hb)
      obtain ⟨h', hrun, hgone, hoff⟩ := ih hrest hnodup (by simpa using hn)
      refine ⟨h', ?_, ?_, ?_⟩
      · rw [headPtr_cons, gListFreeLoop, run_bind_of_eq (run_load hl.1),
          run_bind_of_eq (run_free hl.1)]
        exact hrun
      · rw [addrs_cons, List.forall_mem_cons]
        exact ⟨(hoff a ha).trans (h.get_erase_self a), hgone⟩
      · intro b hb
        obtain ⟨hba, hbL⟩ := List.ne_and_not_mem_of_not_mem_cons hb
        exact (hoff b hbL).trans (Heap.get_erase_of_ne h hba)

theorem gListFree_spec (hl : IsList h p L) :
    ∃ h', (gListFree p).run h = some ((), h') ∧ Replaces h L h' [] := by
  obtain ⟨h', hrun, hgone, hoff⟩ :=
    gListFreeLoop_spec hl.linked hl.nodup (Nat.le_succ_of_le hl.length_le)
  refine ⟨h', ?_, fun a ha _ => hoff a ha, by simp, fun a ha _ => ?_⟩
  · rw [gListFree, run_bind_of_eq (run_rounds h), hl.head]
    exact hrun
  · exact Heap.notMem_live.mpr (hgone a ha)

/-! ## Taking cells out -/

section Remove

variable {pre post : Cells α} {a : Addr} {d : α}

/-- The cell is by itself, and its neighbours are linked to each other. -/
theorem gListRemoveLink_spec (hl : IsList h p (pre ++ (a, d) :: post)) :
    ∃ h', (gListRemoveLink p (some a)).run h = some (headPtr (pre ++ post) none, h') ∧
      Linked h' none (pre ++ post) none ∧ h'.get a = some ⟨d, none, none⟩ ∧
      Heap.AgreesOff (addrs (pre ++ (a, d) :: post)) h h' := by
  obtain ⟨hpre, ha, hpost⟩ := linked_append.mp hl.linked
  have hnodup := hl.nodup
  rw [addrs_append, addrs_cons, List.nodup_append] at hnodup
  obtain ⟨hnodupPre, hnodupPost, happart⟩ := hnodup
  obtain ⟨haPost, hnodupPost⟩ := List.nodup_cons.mp hnodupPost
  have haPre : a ∉ addrs pre := fun hin => happart a hin a (by simp) rfl
  have hdisj : (addrs pre).Disjoint (addrs post) := fun b hb hb' =>
    happart b hb b (List.mem_cons_of_mem _ hb') rfl
  -- `link->prev->next = link->next`
  obtain ⟨h₁, hset₁, hpre₁, hoff₁⟩ := hpre.run_setNext_last hnodupPre (headPtr post none)
  have ha₁ : h₁.get a = some ⟨d, headPtr post none, lastPtr none pre⟩ :=
    (hoff₁ a haPre).trans ha
  have hpost₁ := hpost.off hoff₁ hdisj.symm
  -- `link->next->prev = link->prev`
  obtain ⟨h₂, hset₂, hpost₂, hoff₂⟩ := hpost₁.run_setPrev_head hnodupPost (lastPtr none pre)
  have ha₂ : h₂.get a = some ⟨d, headPtr post none, lastPtr none pre⟩ :=
    (hoff₂ a haPost).trans ha₁
  have hpre₂ := hpre₁.off hoff₂ hdisj
  have hskip : (skipLink p (some a)).run h₂ = some (headPtr (pre ++ post) none, h₂) := by
    rw [skipLink, hl.head, headPtr_append, headPtr_append]
    cases pre with
    | nil =>
        rw [headPtr_nil, headPtr_cons, if_pos rfl, run_bind_of_eq (run_load ha₂)]
        rfl
    | cons x pre =>
        obtain ⟨b, e⟩ := x
        rw [headPtr_cons, headPtr_cons, if_neg]
        · rfl
        · simpa using List.ne_of_not_mem_cons haPre
  set h₃ := h₂.set a ⟨d, none, lastPtr none pre⟩
  have ha₃ : h₃.get a = some ⟨d, none, lastPtr none pre⟩ := by simp [h₃]
  set h₄ := h₃.set a ⟨d, none, none⟩
  have hoff₄ : Heap.AgreesOff [a] h₂ h₄ :=
    (Heap.agreesOff_set (by simp)).trans (Heap.agreesOff_set (by simp))
  refine ⟨h₄, ?_, linked_append.mpr ⟨?_, ?_⟩, by simp [h₄], ?_⟩
  · have hprev : (unlinkPrev (some a)).run h = some ((), h₁) := by
      rw [unlinkPrev, run_bind_of_eq (run_load ha)]
      exact (run_ite_load ha _ _ _).trans hset₁
    have hnext : (unlinkNext (some a)).run h₁ = some ((), h₂) := by
      rw [unlinkNext, run_bind_of_eq (run_load ha₁)]
      exact (run_ite_load ha₁ _ _ _).trans hset₂
    rw [gListRemoveLink, if_neg (by simp), run_bind_of_eq hprev, run_bind_of_eq hnext,
      run_bind_of_eq hskip, run_bind_of_eq (run_setNext ha₂ none),
      run_bind_of_eq (run_setPrev ha₃ none)]
    rfl
  · exact hpre₂.off hoff₄ (by simpa using haPre)
  · exact hpost₂.off hoff₄ (by simpa using haPost)
  · have hsub₁ : addrs pre ⊆ addrs (pre ++ (a, d) :: post) := by simp
    have hsub₂ : addrs post ⊆ addrs (pre ++ (a, d) :: post) := by
      intro b hb
      simp [hb]
    exact (hoff₁.mono hsub₁).trans ((hoff₂.mono hsub₂).trans (hoff₄.mono (by simp)))

/-- Once the cell taken out is freed, the list is the one without it. -/
theorem isList_of_freed {h' h'' : Heap α} (hl : IsList h p (pre ++ (a, d) :: post))
    (hrest : Linked h' none (pre ++ post) none)
    (hoff : Heap.AgreesOff (addrs (pre ++ (a, d) :: post)) h h') (hgone : h''.get a = none)
    (hoff' : Heap.AgreesOff [a] h' h'') :
    IsList h'' (headPtr (pre ++ post) none) (pre ++ post) ∧
      Replaces h (pre ++ (a, d) :: post) h'' (pre ++ post) := by
  have hperm : (addrs (pre ++ (a, d) :: post)).Perm (a :: addrs (pre ++ post)) := by
    rw [addrs_append, addrs_cons, addrs_append]
    exact List.perm_middle
  obtain ⟨ha, hnodup⟩ := List.nodup_cons.mp (hperm.nodup_iff.mp hl.nodup)
  refine ⟨⟨hrest.off hoff' (by simpa using ha), hnodup, rfl⟩, ?_, ?_, ?_⟩
  · intro b hb _
    have hne : b ∉ [a] := fun hin => hb (hperm.mem_iff.mpr (by simp [List.mem_singleton.mp hin]))
    exact (hoff' b hne).trans (hoff b hb)
  · intro b hb hnot
    exact absurd (hperm.mem_iff.mpr (List.mem_cons_of_mem _ hb)) hnot
  · intro b hb hnot
    rcases List.mem_cons.mp (hperm.mem_iff.mp hb) with rfl | hb
    · exact Heap.notMem_live.mpr hgone
    · exact absurd hb hnot

theorem gListDeleteLink_spec (hl : IsList h p (pre ++ (a, d) :: post)) :
    ∃ p' h', (gListDeleteLink p (some a)).run h = some (p', h') ∧ IsList h' p' (pre ++ post) ∧
      Replaces h (pre ++ (a, d) :: post) h' (pre ++ post) := by
  obtain ⟨h₁, hrun, hrest, hcell, hoff⟩ := gListRemoveLink_spec hl
  refine ⟨headPtr (pre ++ post) none, h₁.erase a, ?_, ?_⟩
  · rw [gListDeleteLink, run_bind_of_eq hrun, run_bind_of_eq (run_free hcell)]
    rfl
  · refine isList_of_freed hl hrest hoff (h₁.get_erase_self a) fun b hb => ?_
    exact Heap.get_erase_of_ne h₁ (by simpa using hb)

/-- `g_list_delete_link` of the cell `g_list_find_custom` has found. -/
theorem deleteFound_spec {f : α → Bool} {x : Addr × α} (hl : IsList h p L)
    (hx : L.find? (fun x => f x.2) = some x) :
    ∃ p' h', (gListDeleteLink p (some x.1)).run h = some (p', h') ∧
      IsList h' p' (L.eraseP fun x => f x.2) ∧ Replaces h L h' (L.eraseP fun x => f x.2) := by
  obtain ⟨hfx, pre, post, hL, hpre⟩ := List.find?_eq_some_iff_append.mp hx
  have herase : L.eraseP (fun x => f x.2) = pre ++ post := by
    rw [hL, List.eraseP_append_right _ fun y hy => by simpa using hpre y hy]
    simp [hfx]
  rw [herase]
  obtain ⟨a, d⟩ := x
  subst hL
  exact gListDeleteLink_spec hl

/-- `g_list_free` of a cell that was taken out frees this cell alone: its `next` is NULL. -/
theorem gListRemoveLoop_spec [DecidableEq α] (data : α) {n : ℕ} {R : Cells α}
    (hl : IsList h p (pre ++ R)) (hpre : ∀ x ∈ pre, x.2 ≠ data) (hn : R.length ≤ n) :
    ∃ p' h', (gListRemoveLoop p data n (headPtr R none)).run h = some (p', h') ∧
      IsList h' p' ((pre ++ R).eraseP fun x => x.2 = data) ∧
      Replaces h (pre ++ R) h' ((pre ++ R).eraseP fun x => x.2 = data) := by
  induction R generalizing pre n with
  | nil =>
      rw [List.append_nil] at hl ⊢
      rw [List.eraseP_of_forall_not fun x hx => by simpa using hpre x hx]
      exact ⟨p, h, by cases n <;> rfl, hl, .of_perm (fun _ _ => rfl) (.refl _)⟩
  | cons x R ih =>
      obtain ⟨a, d⟩ := x
      obtain ⟨n, rfl⟩ : ∃ m, n = m + 1 := ⟨n - 1, by simp at hn; omega⟩
      have hload := run_load (linked_append.mp hl.linked).2.1
      rw [headPtr_cons, gListRemoveLoop, run_bind_of_eq hload]
      by_cases hd : d = data
      · -- the cell is found
        have herase : ((pre ++ (a, d) :: R).eraseP fun x => x.2 = data) = pre ++ R := by
          rw [List.eraseP_append_right _ fun x hx => by simpa using hpre x hx]
          simp [hd]
        rw [herase, if_neg (not_not.mpr hd)]
        obtain ⟨h₁, hrun, hrest, hcell, hoff⟩ := gListRemoveLink_spec hl
        have halone : IsList h₁ (some a) [(a, d)] := ⟨⟨hcell, trivial⟩, by simp, rfl⟩
        obtain ⟨h₂, hfree, hreplaces⟩ := gListFree_spec halone
        refine ⟨headPtr (pre ++ R) none, h₂, ?_, ?_⟩
        · rw [run_bind_of_eq hrun, run_bind_of_eq hfree]
          rfl
        · refine isList_of_freed hl hrest hoff ?_ fun b hb => hreplaces.frame b hb (by simp)
          exact Heap.notMem_live.mp (hreplaces.freed a (by simp) (by simp))
      · rw [if_pos hd]
        have hsplit : pre ++ (a, d) :: R = (pre ++ [(a, d)]) ++ R := by simp
        rw [hsplit] at hl ⊢
        refine ih hl (fun x hx => ?_) (by simpa using hn)
        rcases List.mem_append.mp hx with hx | hx
        · exact hpre x hx
        · rw [List.mem_singleton.mp hx]
          exact hd

theorem gListRemove_spec [DecidableEq α] (hl : IsList h p L) (data : α) :
    ∃ p' h', (gListRemove p data).run h = some (p', h') ∧
      IsList h' p' (L.eraseP fun x => x.2 = data) ∧
      Replaces h L h' (L.eraseP fun x => x.2 = data) := by
  rw [gListRemove, run_bind_of_eq (run_rounds h)]
  have hloop := gListRemoveLoop_spec data (show IsList h p ([] ++ L) from hl) (by simp)
    (Nat.le_succ_of_le hl.length_le)
  rwa [← hl.head] at hloop

end Remove

end CodeAnalyze.Irqbalance.GlistCode
