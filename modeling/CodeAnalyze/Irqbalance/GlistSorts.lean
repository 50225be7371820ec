import CodeAnalyze.Irqbalance.Glist
import CodeAnalyze.Irqbalance.GlistSpecs

/-!
# `g_list_sort` on the cells

The sort moves no data.  It relinks the cells of the list, and leaves them linked in both
directions in the order of the merge sort on lists.  While it runs only the `next`
pointers are right at the seams: the first cell of the second half still points back into
the first half, until the merge sets its `prev`.
-/

namespace CodeAnalyze.Irqbalance

variable {α β : Type*}

/-- Sorting by what `f` says of the elements is sorting what `f` says of them. -/
theorem map_gListSortMerge (cmp : β → β → ℤ) (f : α → β) (l1 l2 : List α) :
    (gListSortMerge (fun x y => cmp (f x) (f y)) l1 l2).map f =
      gListSortMerge cmp (l1.map f) (l2.map f) := by
  fun_induction gListSortMerge (fun x y => cmp (f x) (f y)) l1 l2 with
  | case1 l2 => rw [List.map_nil, gListSortMerge]
  | case2 l1 hne => cases l1 <;> simp [gListSortMerge]
  | case3 a l1 b l2 hle ih =>
      rw [List.map_cons, ih, List.map_cons, List.map_cons, gListSortMerge, if_pos hle]
  | case4 a l1 b l2 hgt ih =>
      rw [List.map_cons, ih, List.map_cons, List.map_cons, gListSortMerge, if_neg hgt]

theorem map_gListSort (cmp : β → β → ℤ) (f : α → β) (list : List α) :
    (gListSort (fun x y => cmp (f x) (f y)) list).map f = gListSort cmp (list.map f) := by
  fun_induction gListSort (fun x y => cmp (f x) (f y)) list with
  | case1 list hshort => rw [gListSort, if_pos (by simpa using hshort)]
  | case2 list hlong ih1 ih2 =>
      rw [map_gListSortMerge, ih1, ih2, gListSort.eq_1 cmp (list.map f),
        if_neg (by simpa using hlong), List.map_take, List.map_drop, List.length_map]

/-! ## Stability -/

/-- Neither comes before the other. -/
def Ties (cmp : α → α → ℤ) (a b : α) : Prop := cmp a b ≤ 0 ∧ cmp b a ≤ 0

instance (cmp : α → α → ℤ) (a b : α) : Decidable (Ties cmp a b) :=
  inferInstanceAs (Decidable (_ ∧ _))

/-- A comparison that is one: of two elements one may come first, and what may come first goes
on doing so. -/
structure Preorders (cmp : α → α → ℤ) : Prop where
  total : ∀ a b, cmp a b ≤ 0 ∨ cmp b a ≤ 0
  trans : ∀ a b c, cmp a b ≤ 0 → cmp b c ≤ 0 → cmp a c ≤ 0

namespace Preorders

variable {cmp : α → α → ℤ} (hcmp : Preorders cmp)
include hcmp

theorem pairwise (list : List α) : (gListSort cmp list).Pairwise fun a b => cmp a b ≤ 0 := by
  refine pairwise_gListSort hcmp.trans list fun a _ b _ => ?_
  split
  · assumption
  · exact (hcmp.total a b).resolve_left ‹_›

/-- What ties with `x` comes out of the merge as from one list after the other. -/
theorem filter_gListSortMerge (x : α) (l1 l2 : List α)
    (h1 : l1.Pairwise fun a b => cmp a b ≤ 0) :
    (gListSortMerge cmp l1 l2).filter (Ties cmp x) =
      l1.filter (Ties cmp x) ++ l2.filter (Ties cmp x) := by
  fun_induction gListSortMerge cmp l1 l2 with
  | case1 l2 => rfl
  | case2 l1 => simp
  | case3 a l1 b l2 hle ih =>
      rw [List.filter_cons, List.filter_cons (x := a), ih (List.pairwise_cons.mp h1).2]
      split <;> rfl
  | case4 a l1 b l2 hgt ih =>
      have hfirst : ∀ c ∈ a :: l1, cmp a c ≤ 0 := by
        intro c hc
        rcases List.mem_cons.mp hc with rfl | hc
        · exact (hcmp.total c c).elim id id
        · exact (List.pairwise_cons.mp h1).1 c hc
      rw [List.filter_cons, ih h1]
      by_cases hb : Ties cmp x b
      · -- what is still to come from the first list is behind `b`
        have hnone : (a :: l1).filter (Ties cmp x) = [] := by
          refine List.filter_eq_nil_iff.mpr fun c hc hties => hgt ?_
          have hcx : cmp c x ≤ 0 := (of_decide_eq_true hties).2
          exact hcmp.trans a c b (hfirst c hc) (hcmp.trans c x b hcx hb.1)
        rw [if_pos (by simpa using hb), hnone, List.filter_cons, if_pos (by simpa using hb)]
        rfl
      · rw [if_neg (by simpa using hb), List.filter_cons (x := b), if_neg (by simpa using hb)]

theorem filter_gListSort (x : α) (list : List α) :
    (gListSort cmp list).filter (Ties cmp x) = list.filter (Ties cmp x) := by
  fun_induction gListSort cmp list with
  | case1 list hshort => rfl
  | case2 list hlong ih1 ih2 =>
      rw [hcmp.filter_gListSortMerge x _ _ (hcmp.pairwise _), ih1, ih2, ← List.filter_append,
        List.take_append_drop]

end Preorders

namespace GlistCode

open Lib Lib.Cells

variable {α : Type} {h : Heap α} {p q : Ptr} {cmp : α → α → ℤ}

/-- The comparison of two cells. -/
def onData (cmp : α → α → ℤ) (x y : Addr × α) : ℤ := cmp x.2 y.2

/-! ## The merge -/

theorem mergeLink_spec {out : Cells α} (hl : Linked h none out q) (hnodup : (addrs out).Nodup)
    (a : Addr) :
    ∃ h', (mergeLink (headPtr out none) (lastPtr none out) (some a)).run h =
        some (headPtr out (some a), h') ∧
      Linked h' none out (some a) ∧ Heap.AgreesOff (addrs out) h h' := by
  obtain ⟨h', hset, hl', hoff⟩ := hl.run_setNext_last hnodup (some a)
  refine ⟨h', ?_, hl', hoff⟩
  cases out with
  | nil =>
      cases hset
      rfl
  | cons x out =>
      have hsome := isSome_lastPtr (x :: out) none (by simp)
      rw [if_pos hsome] at hset
      rw [mergeLink, if_pos hsome, run_bind_of_eq hset]
      rfl

/-- The cell that is taken goes to the end of what is merged; the other list stays. -/
theorem takeCell_spec {out L M : Cells α} {a : Addr} {d : α} {r : Ptr} (hout : Linked h none out q)
    (hl : Linked h p ((a, d) :: L) none) (hM : Linked h r M none)
    (hnodup : (addrs (out ++ ((a, d) :: L ++ M))).Nodup) :
    ∃ h', (takeCell (headPtr out none) (lastPtr none out) (lastPtr none out) (some a)).run h =
        some ((headPtr (out ++ [(a, d)]) none, headPtr L none), h') ∧
      Linked h' none (out ++ [(a, d)]) (headPtr L none) ∧ Linked h' (some a) L none ∧
      Linked h' r M none ∧ Heap.AgreesOff (addrs (out ++ [(a, d)])) h h' := by
  rw [addrs_append, List.nodup_append] at hnodup
  obtain ⟨hnodupOut, hnodupRest, happart⟩ := hnodup
  have haRest : a ∉ addrs L ++ addrs M := by
    rw [List.cons_append, addrs_cons, addrs_append] at hnodupRest
    exact (List.nodup_cons.mp hnodupRest).1
  have haOut : a ∉ addrs out := fun hin => happart a hin a (by simp) rfl
  have hdisj {N : Cells α} (hsub : addrs N ⊆ addrs ((a, d) :: L ++ M)) :
      (addrs N).Disjoint (addrs out) := fun b hb hb' => happart b hb' b (hsub hb) rfl
  obtain ⟨h₁, hlink, hout₁, hoff₁⟩ := mergeLink_spec hout hnodupOut a
  have ha₁ : h₁.get a = some ⟨d, headPtr L none, p⟩ := (hoff₁ a haOut).trans hl.1
  set h₂ := h₁.set a ⟨d, headPtr L none, lastPtr none out⟩ with hh₂
  have hoff₂ : Heap.AgreesOff [a] h₁ h₂ := Heap.agreesOff_set (by simp)
  have hstays {N : Cells α} {s : Ptr} (hN : Linked h s N none)
      (hsub : addrs N ⊆ addrs ((a, d) :: L ++ M)) (ha : a ∉ addrs N) : Linked h₂ s N none :=
    (hN.off hoff₁ (hdisj hsub)).off hoff₂ (by simpa using ha)
  refine ⟨h₂, ?_, linked_concat.mpr ⟨?_, by simp [hh₂]⟩, hstays hl.2 ?_ ?_, hstays hM ?_ ?_, ?_⟩
  · rw [takeCell, run_bind_of_eq hlink, run_bind_of_eq (run_load ha₁),
      run_bind_of_eq (run_setPrev ha₁ _), headPtr_append]
    rfl
  · exact hout₁.off hoff₂ (by simpa using haOut)
  · intro b hb
    simp [hb]
  · exact fun hin => haRest (List.mem_append_left _ hin)
  · intro b hb
    simp [hb]
  · exact fun hin => haRest (List.mem_append_right _ hin)
  · exact (hoff₁.mono (by simp)).trans (hoff₂.mono (by simp))

/-- The loop stops with what it has merged and with what is left of one of the lists. -/
theorem mergeLoop_spec (cmp : α → α → ℤ) {n : ℕ} {out L1 L2 : Cells α} {p1 p2 : Ptr}
    (hout : Linked h none out q) (hl1 : Linked h p1 L1 none) (hl2 : Linked h p2 L2 none)
    (hnodup : (addrs (out ++ (L1 ++ L2))).Nodup) (hn : L1.length + L2.length ≤ n)
    (hne : L1 ≠ [] ∨ L2 ≠ []) :
    ∃ out' rest l1 l2 p' q' h',
      (mergeLoop cmp n (headPtr out none) (lastPtr none out) (lastPtr none out)
        (headPtr L1 none) (headPtr L2 none)).run h =
          some ((headPtr out' none, lastPtr none out', l1, l2), h') ∧
      (if l1.isSome then l1 else l2) = headPtr rest none ∧
      (out ≠ [] ∨ L1 ≠ [] ∧ L2 ≠ [] → out' ≠ []) ∧ rest ≠ [] ∧
      Linked h' none out' q' ∧ Linked h' p' rest none ∧
      out' ++ rest = out ++ Irqbalance.gListSortMerge (onData cmp) L1 L2 ∧
      Heap.AgreesOff (addrs (out ++ (L1 ++ L2))) h h' := by
  fun_induction Irqbalance.gListSortMerge (onData cmp) L1 L2 generalizing h q n out p1 p2 with
  | case1 L2 =>
      have hL2 : L2 ≠ [] := by simpa using hne
      exact ⟨out, L2, none, headPtr L2 none, p2, q, h, by cases n <;> rfl, rfl, by simp, hL2,
        hout, hl2, rfl, fun _ _ => rfl⟩
  | case2 L1 hL1 =>
      refine ⟨out, L1, headPtr L1 none, none, p1, q, h, ?_, ?_, by simp, hL1, hout, hl1, rfl,
        fun _ _ => rfl⟩
      · cases L1 with
        | nil => exact absurd rfl hL1
        | cons x L1 => cases n <;> rfl
      · rw [if_pos (isSome_headPtr L1 none hL1)]
  | case3 x L1 y L2 hle ih =>
      -- the cell comes from the first list
      obtain ⟨a, d⟩ := x
      obtain ⟨b, e⟩ := y
      obtain ⟨n, rfl⟩ : ∃ m, n = m + 1 := ⟨n - 1, by simp at hn; omega⟩
      obtain ⟨h₁, htake, hout₁, hl1₁, hl2₁, hoff₁⟩ := takeCell_spec hout hl1 hl2 hnodup
      obtain ⟨out', rest, l1, l2, p', q', h', hrun, hrest, hout', hne', hl, hl', heq, hoff⟩ :=
        ih (n := n) hout₁ hl1₁ hl2₁ (by simpa using hnodup) (by simp at hn ⊢; omega) (by simp)
      refine ⟨out', rest, l1, l2, p', q', h', ?_, hrest, fun _ => hout' (by simp), hne', hl, hl',
        by simpa using heq, ?_⟩
      · rw [headPtr_cons, headPtr_cons, mergeLoop, run_bind_of_eq (run_load hl1.1),
          run_bind_of_eq (run_load hl2.1), if_pos (show cmp d e ≤ 0 from hle),
          run_bind_of_eq htake]
        simpa using hrun
      · refine (hoff₁.mono ?_).trans (hoff.mono (by simp))
        simp
  | case4 x L1 y L2 hgt ih =>
      -- the cell comes from the second list
      obtain ⟨a, d⟩ := x
      obtain ⟨b, e⟩ := y
      obtain ⟨n, rfl⟩ : ∃ m, n = m + 1 := ⟨n - 1, by simp at hn; omega⟩
      have hswap : (addrs (out ++ ((b, e) :: L2 ++ (a, d) :: L1))).Perm
          (addrs (out ++ ((a, d) :: L1 ++ (b, e) :: L2))) :=
        (List.perm_append_comm.append_left out).map _
      obtain ⟨h₁, htake, hout₁, hl2₁, hl1₁, hoff₁⟩ :=
        takeCell_spec hout hl2 hl1 (hswap.nodup_iff.mpr hnodup)
      have hnodup₁ : (addrs (out ++ [(b, e)] ++ ((a, d) :: L1 ++ L2))).Nodup := by
        refine List.Perm.nodup_iff (List.Perm.map _ ?_) |>.mp hnodup
        rw [List.append_assoc, List.singleton_append]
        exact List.perm_middle.append_left out
      obtain ⟨out', rest, l1, l2, p', q', h', hrun, hrest, hout', hne', hl, hl', heq, hoff⟩ :=
        ih (n := n) hout₁ hl1₁ hl2₁ hnodup₁ (by simp at hn ⊢; omega) (by simp)
      refine ⟨out', rest, l1, l2, p', q', h', ?_, hrest, fun _ => hout' (by simp), hne', hl, hl',
        by simpa using heq, ?_⟩
      · rw [headPtr_cons, headPtr_cons, mergeLoop, run_bind_of_eq (run_load hl1.1),
          run_bind_of_eq (run_load hl2.1), if_neg (show ¬cmp d e ≤ 0 from hgt),
          run_bind_of_eq htake]
        simpa using hrun
      · refine (hoff₁.mono ?_).trans (hoff.mono ?_)
        · intro c hc
          simp at hc ⊢
          tauto
        · intro c hc
          simp at hc ⊢
          tauto

theorem gListSortMerge_spec (cmp : α → α → ℤ) {L1 L2 : Cells α} {p1 p2 : Ptr}
    (hl1 : Linked h p1 L1 none) (hl2 : Linked h p2 L2 none) (hnodup : (addrs (L1 ++ L2)).Nodup)
    (hne1 : L1 ≠ []) (hne2 : L2 ≠ []) :
    ∃ h', (gListSortMerge cmp (headPtr L1 none) (headPtr L2 none)).run h =
        some (headPtr (Irqbalance.gListSortMerge (onData cmp) L1 L2) none, h') ∧
      Linked h' none (Irqbalance.gListSortMerge (onData cmp) L1 L2) none ∧
      Heap.AgreesOff (addrs (L1 ++ L2)) h h' := by
  have hn : L1.length + L2.length ≤ h.live.card + 1 := by
    have hcard : (addrs (L1 ++ L2)).toFinset.card ≤ h.live.card := by
      refine Finset.card_le_card fun a ha => ?_
      rw [List.mem_toFinset, addrs_append, List.mem_append] at ha
      exact ha.elim hl1.mem_live hl2.mem_live
    rw [List.toFinset_card_of_nodup hnodup, length_addrs, List.length_append] at hcard
    omega
  obtain ⟨out, rest, l1, l2, p', q', h₁, hloop, hrest, hout, hneRest, hlOut, hlRest, heq, hoff⟩ :=
    mergeLoop_spec cmp (show Linked h none [] none from trivial) hl1 hl2 hnodup hn (.inl hne1)
  have hneOut : out ≠ [] := hout (.inr ⟨hne1, hne2⟩)
  rw [List.nil_append] at heq hoff
  rw [headPtr_nil, lastPtr_nil] at hloop
  have hperm : (addrs (out ++ rest)).Perm (addrs (L1 ++ L2)) := by
    rw [heq]
    exact (gListSortMerge_perm _ _ _).map _
  have hnodup' := hperm.nodup_iff.mpr hnodup
  rw [addrs_append, List.nodup_append] at hnodup'
  obtain ⟨hnodupOut, hnodupRest, happart⟩ := hnodup'
  have hdisj : (addrs out).Disjoint (addrs rest) := fun a ha ha' => happart a ha a ha' rfl
  -- `l->next = l1 ? l1 : l2`
  obtain ⟨h₂, hset₂, hlOut₂, hoff₂⟩ := hlOut.run_setNext_last hnodupOut (headPtr rest none)
  rw [if_pos (isSome_lastPtr out none hneOut)] at hset₂
  -- `l->next->prev = l`
  obtain ⟨h₃, hset₃, hlRest₃, hoff₃⟩ :=
    (hlRest.off hoff₂ hdisj.symm).run_setPrev_head hnodupRest (lastPtr none out)
  rw [if_pos (isSome_headPtr rest none hneRest)] at hset₃
  rw [← heq]
  refine ⟨h₃, ?_, linked_append.mpr ⟨hlOut₂.off hoff₃ hdisj, hlRest₃⟩, ?_⟩
  · rw [gListSortMerge, run_bind_of_eq (run_rounds h), run_bind_of_eq hloop]
    dsimp only
    rw [if_pos (isSome_lastPtr out none hneOut), hrest, run_bind_of_eq hset₂, run_bind_of_eq hset₃,
      headPtr_append]
    cases out with
    | nil => exact absurd rfl hneOut
    | cons x out => rfl
  · refine hoff.trans ((hoff₂.mono fun a ha => ?_).trans (hoff₃.mono fun a ha => ?_))
    · exact hperm.mem_iff.mp (by simp [ha])
    · exact hperm.mem_iff.mp (by simp [ha])

/-! ## The split -/

/-- `l1` has gone half as far as `l2`. -/
theorem splitLoop_spec {n : ℕ} {M N : Cells α} {p p' : Ptr} (hM : Linked h p M none)
    (hN : Linked h p' N none) (hne : N ≠ []) (hle : N.length ≤ M.length) (hn : N.length ≤ n) :
    (splitLoop n (headPtr M none) (headPtr N none)).run h =
      some (headPtr (M.drop ((N.length - 1) / 2)) none, h) := by
  induction n generalizing M N p p' with
  | zero => exact absurd (List.length_eq_zero_iff.mp (Nat.le_zero.mp hn)) hne
  | succ n ih =>
      match N, hN, hne with
      | [(a, d)], hN, _ =>
          rw [show ([(a, d)].length - 1) / 2 = 0 by simp, List.drop_zero, headPtr_cons, splitLoop,
            run_bind_of_eq (run_load hN.1)]
          rfl
      | [(a, d), (b, e)], hN, _ =>
          rw [show ([(a, d), (b, e)].length - 1) / 2 = 0 by simp, List.drop_zero, headPtr_cons,
            splitLoop, run_bind_of_eq (run_load hN.1)]
          dsimp only
          rw [headPtr_cons, if_neg (by simp), run_bind_of_eq (run_load hN.2.1)]
          rfl
      | (a, d) :: (b, e) :: y :: N, hN, _ =>
          -- both pointers go on
          obtain ⟨c, f⟩ := y
          obtain ⟨⟨g, k⟩, M, rfl⟩ : ∃ x M', M = x :: M' := by
            cases M with
            | nil => simp at hle
            | cons x M => exact ⟨x, M, rfl⟩
          have hnext := ih (N := (c, f) :: N) hM.2 hN.2.2 (by simp) (by simp at hle ⊢; omega)
            (by simp at hn ⊢; omega)
          rw [headPtr_cons, headPtr_cons, splitLoop, run_bind_of_eq (run_load hN.1)]
          dsimp only
          rw [headPtr_cons, if_neg (by simp), run_bind_of_eq (run_load hN.2.1)]
          dsimp only
          rw [headPtr_cons, if_neg (by simp), run_bind_of_eq (run_load hM.1)]
          rw [headPtr_cons] at hnext
          rw [hnext]
          have hhalf : (((a, d) :: (b, e) :: (c, f) :: N).length - 1) / 2 =
              (((c, f) :: N).length - 1) / 2 + 1 := by
            simp only [List.length_cons]
            omega
          rw [hhalf, List.drop_succ_cons]

/-! ## Cutting the list -/

/-- The cell after which a list is cut. -/
theorem exists_cut {L : Cells α} (hlong : 1 < L.length) :
    ∃ F x B, L = F ++ x :: B ∧ F.length = L.length / 2 - 1 ∧
      L.take (L.length / 2) = F ++ [x] ∧ L.drop (L.length / 2) = B := by
  obtain ⟨k, hk⟩ : ∃ k, L.length / 2 = k + 1 := ⟨L.length / 2 - 1, by omega⟩
  have hlt : k < L.length := by omega
  rw [hk, Nat.add_sub_cancel]
  refine ⟨L.take k, L[k], L.drop (k + 1), ?_, ?_, List.take_succ_eq_append_getElem hlt, rfl⟩
  · rw [List.cons_getElem_drop_succ, List.take_append_drop]
  · rw [List.length_take]
    omega

theorem cutList_spec {x : Addr × α} {T : Cells α} (hl : Linked h p (x :: T) none)
    (hnodup : (addrs (x :: T)).Nodup) (hne : T ≠ []) {half : ℕ}
    (hhalf : half = (x :: T).length / 2) :
    ∃ h' p', (cutList (headPtr (x :: T) none) (headPtr T none)).run h =
        some (headPtr ((x :: T).drop half) none, h') ∧
      Linked h' p ((x :: T).take half) none ∧ Linked h' p' ((x :: T).drop half) none ∧
      Heap.AgreesOff (addrs (x :: T)) h h' := by
  have hpos : 0 < T.length := List.length_pos_of_ne_nil hne
  obtain ⟨F, ⟨a, d⟩, B, hL, hF, htake, hdrop⟩ := exists_cut (L := x :: T) (by simpa using hpos)
  rw [hhalf, htake, hdrop]
  have hcut := splitLoop_spec (n := h.live.card + 1) (M := x :: T) (N := T) hl hl.2 hne (by simp)
    (by have := hl.length_le hnodup; simp at this; omega)
  have hsteps : (T.length - 1) / 2 = F.length := by
    rw [hF, List.length_cons]
    omega
  rw [hsteps, hL, List.drop_left, ← hL, headPtr_cons B] at hcut
  have hnodup' := hnodup
  rw [hL, addrs_append, addrs_cons, List.nodup_append] at hnodup'
  obtain ⟨-, hnodupB, happart⟩ := hnodup'
  have haF : a ∉ addrs F := fun hin => happart a hin a (by simp) rfl
  have haB : a ∉ addrs B := (List.nodup_cons.mp hnodupB).1
  obtain ⟨hlF, ha, hlB⟩ := linked_append.mp (hL ▸ hl)
  have hoff : Heap.AgreesOff [a] h (h.set a ⟨d, none, lastPtr p F⟩) := Heap.agreesOff_set (by simp)
  refine ⟨h.set a ⟨d, none, lastPtr p F⟩, some a, ?_, linked_concat.mpr ⟨?_, by simp⟩, ?_, ?_⟩
  · rw [cutList, run_bind_of_eq (run_rounds h), run_bind_of_eq hcut, run_bind_of_eq (run_load ha),
      run_bind_of_eq (run_setNext ha none)]
    rfl
  · exact hlF.off hoff (by simpa using haF)
  · exact hlB.off hoff (by simpa using haB)
  · exact hoff.mono (by simp [hL])

/-! ## The whole sort -/

theorem addrs_gListSort_perm (cmp : α → α → ℤ) (L : Cells α) :
    (addrs (Irqbalance.gListSort (onData cmp) L)).Perm (addrs L) :=
  (gListSort_perm _ L).map _

theorem gListSort_ne_nil {L : Cells α} (hne : L ≠ []) :
    Irqbalance.gListSort (onData cmp) L ≠ [] := fun hnil =>
  hne (List.perm_nil.mp (hnil ▸ gListSort_perm (onData cmp) L).symm)

theorem gListSortReal_spec (cmp : α → α → ℤ) {n : ℕ} {L : Cells α} (hl : Linked h p L none)
    (hnodup : (addrs L).Nodup) (hn : L.length < n) :
    ∃ h' p', (gListSortReal cmp n (headPtr L none)).run h =
        some (headPtr (Irqbalance.gListSort (onData cmp) L) none, h') ∧
      Linked h' p' (Irqbalance.gListSort (onData cmp) L) none ∧ (p = none → p' = none) ∧
      Heap.AgreesOff (addrs L) h h' := by
  induction n generalizing h p L with
  | zero => omega
  | succ n ih =>
      match L, hl with
      | [], _ =>
          rw [Irqbalance.gListSort, if_pos (by simp)]
          exact ⟨h, p, rfl, trivial, id, fun _ _ => rfl⟩
      | [(a, d)], hl =>
          rw [Irqbalance.gListSort, if_pos (by simp)]
          refine ⟨h, p, ?_, hl, id, fun _ _ => rfl⟩
          rw [headPtr_cons, gListSortReal, if_neg (by simp), run_bind_of_eq (run_load hl.1)]
          rfl
      | (a, d) :: y :: T, hl =>
          set L : Cells α := (a, d) :: y :: T with hL
          have hlong : 1 < L.length := by simp [hL]
          obtain ⟨half, hhalf⟩ : ∃ half, half = L.length / 2 := ⟨_, rfl⟩
          obtain ⟨h₁, p₁, hcut, hlF, hlB, hoff₁⟩ := cutList_spec hl hnodup (by simp) hhalf
          rw [← hL] at hcut hlF hlB hoff₁
          have hsplit : addrs L = addrs (L.take half) ++ addrs (L.drop half) := by
            rw [← addrs_append, List.take_append_drop]
          rw [hsplit, List.nodup_append] at hnodup
          obtain ⟨hnodupF, hnodupB, happart⟩ := hnodup
          have hdisj : (addrs (L.take half)).Disjoint (addrs (L.drop half)) :=
            fun b hb hb' => happart b hb b hb' rfl
          -- the halves are sorted
          obtain ⟨h₂, p₂, hrun₂, hlF₂, -, hoff₂⟩ := ih hlF hnodupF
            (by rw [List.length_take]; omega)
          obtain ⟨h₃, p₃, hrun₃, hlB₃, -, hoff₃⟩ := ih (hlB.off hoff₂ hdisj.symm) hnodupB
            (by rw [List.length_drop]; omega)
          set S1 := Irqbalance.gListSort (onData cmp) (L.take half)
          set S2 := Irqbalance.gListSort (onData cmp) (L.drop half)
          have hperm1 : (addrs S1).Perm (addrs (L.take half)) := addrs_gListSort_perm cmp _
          have hperm2 : (addrs S2).Perm (addrs (L.drop half)) := addrs_gListSort_perm cmp _
          have hlF₃ := hlF₂.off hoff₃ fun b hb hb' => hdisj (hperm1.mem_iff.mp hb) hb'
          -- and merged
          have hperm : (addrs (S1 ++ S2)).Perm (addrs L) := by
            rw [addrs_append, hsplit]
            exact hperm1.append hperm2
          have hnodup12 : (addrs (S1 ++ S2)).Nodup := by
            rw [hperm.nodup_iff, hsplit]
            exact hnodupF.append hnodupB hdisj
          obtain ⟨h₄, hrun₄, hl₄, hoff₄⟩ := gListSortMerge_spec cmp hlF₃ hlB₃ hnodup12
            (gListSort_ne_nil (by simp [hL]; omega))
            (gListSort_ne_nil (by rw [ne_eq, List.drop_eq_nil_iff]; omega))
          have hsorted : Irqbalance.gListSort (onData cmp) L =
              Irqbalance.gListSortMerge (onData cmp) S1 S2 := by
            rw [Irqbalance.gListSort, if_neg (Nat.not_le.mpr hlong), ← hhalf]
          rw [hsorted]
          refine ⟨h₄, none, ?_, hl₄, fun _ => rfl, ?_⟩
          · have hhead : headPtr (L.take half) none = headPtr L none := by
              obtain ⟨k, hk⟩ : ∃ k, half = k + 1 := ⟨half - 1, by omega⟩
              rw [hk]
              rfl
            rw [hhead] at hrun₂
            rw [gListSortReal, if_neg (by simp [hL]), hL, headPtr_cons,
              run_bind_of_eq (run_load hl.1)]
            dsimp only
            rw [if_neg (by simp [← Option.isSome_iff_ne_none, isSome_headPtr]),
              ← headPtr_cons (y :: T) none a d, ← hL, run_bind_of_eq hcut, run_bind_of_eq hrun₂,
              run_bind_of_eq hrun₃]
            exact hrun₄
          · refine hoff₁.trans ((hoff₂.mono ?_).trans ((hoff₃.mono ?_).trans (hoff₄.mono ?_)))
            · exact hsplit ▸ List.subset_append_left _ _
            · exact hsplit ▸ List.subset_append_right _ _
            · exact hperm.subset

theorem gListSort_spec {L : Cells α} (hl : IsList h p L) (cmp : α → α → ℤ) :
    ∃ p' h', (gListSort cmp p).run h = some (p', h') ∧
      IsList h' p' (Irqbalance.gListSort (onData cmp) L) ∧
      Replaces h L h' (Irqbalance.gListSort (onData cmp) L) := by
  obtain ⟨h', p', hrun, hl', hp', hoff⟩ := gListSortReal_spec cmp hl.linked hl.nodup
    (Nat.lt_succ_of_le hl.length_le)
  have hperm := addrs_gListSort_perm cmp L
  rw [hp' rfl] at hl'
  refine ⟨_, h', ?_, ⟨hl', hperm.nodup_iff.mpr hl.nodup, rfl⟩, .of_perm hoff hperm⟩
  rw [gListSort, run_bind_of_eq (run_rounds h), hl.head]
  exact hrun

/-- What the list holds is sorted as a list is. -/
theorem contents_gListSort (cmp : α → α → ℤ) (L : Cells α) :
    contents (Irqbalance.gListSort (onData cmp) L) = Irqbalance.gListSort cmp (contents L) :=
  map_gListSort cmp Prod.snd L

theorem preorders_onData (hcmp : Preorders cmp) : Preorders (onData cmp) :=
  ⟨fun x y => hcmp.total x.2 y.2, fun x y z => hcmp.trans x.2 y.2 z.2⟩

theorem Replaces.live_eq {h' : Heap α} {L L' : Cells α} (hreplaces : Replaces h L h' L')
    (hl : Linked h none L none) (hl' : Linked h' none L' none) (hperm : L'.Perm L) :
    h'.live = h.live := by
  ext a
  have haddrs : a ∈ addrs L' ↔ a ∈ addrs L := (hperm.map Prod.fst).mem_iff
  by_cases ha : a ∈ addrs L
  · exact iff_of_true (hl'.mem_live (haddrs.mpr ha)) (hl.mem_live ha)
  · rw [Heap.mem_live, Heap.mem_live, hreplaces.frame a ha fun hin => ha (haddrs.mp hin)]

/-- `g_list_sort` sorts the cells of a list in place.  It comes to its end, the list then has the
same cells with the same data, linked in both directions, in order and with those that tie in
the order they were in; it takes no cell, gives none back and writes to no other. -/
theorem sorts_in_place (cmp : α → α → ℤ) (hcmp : Preorders cmp) (h : Heap α) (p : Ptr)
    (L : Cells α) (hl : IsList h p L) :
    ∃ p' h' L', (gListSort cmp p).run h = some (p', h') ∧ IsList h' p' L' ∧ L'.Perm L ∧
      L'.Pairwise (fun x y => cmp x.2 y.2 ≤ 0) ∧
      (∀ d, L'.filter (fun x => Ties cmp d x.2) = L.filter fun x => Ties cmp d x.2) ∧
      h'.live = h.live ∧ ∀ a, a ∉ addrs L → h'.get a = h.get a := by
  obtain ⟨p', h', hrun, hl', hreplaces⟩ := gListSort_spec hl cmp
  have hperm := gListSort_perm (onData cmp) L
  have hdata := preorders_onData hcmp
  refine ⟨p', h', _, hrun, hl', hperm, hdata.pairwise L, fun d => ?_,
    Replaces.live_eq hreplaces hl.linked hl'.linked hperm, fun a ha => ?_⟩
  · exact hdata.filter_gListSort (0, d) L
  · exact hreplaces.frame a ha fun hin => ha ((hperm.map Prod.fst).mem_iff.mp hin)

/-- Two cells, the greater number first. -/
def twoCells : Heap ℕ :=
  (({} : Heap ℕ).set 1 ⟨5, some 2, none⟩).set 2 ⟨3, none, some 1⟩

theorem isList_twoCells : IsList twoCells (some 1) [(1, 5), (2, 3)] :=
  ⟨⟨rfl, rfl, trivial⟩, by decide, rfl⟩

theorem sorts_in_place_twoCells :
    ∃ p' h' L', (gListSort (fun a b : ℕ => (a : ℤ) - b) (some 1)).run twoCells = some (p', h') ∧
      IsList h' p' L' ∧ L'.Perm [(1, 5), (2, 3)] ∧
      L'.Pairwise (fun x y => (x.2 : ℤ) - y.2 ≤ 0) ∧
      (∀ d, L'.filter (fun x => Ties (fun a b : ℕ => (a : ℤ) - b) d x.2) =
        [(1, 5), (2, 3)].filter fun x => Ties (fun a b : ℕ => (a : ℤ) - b) d x.2) ∧
      h'.live = twoCells.live ∧ ∀ a, a ∉ [1, 2] → h'.get a = twoCells.get a :=
  sorts_in_place (fun a b : ℕ => (a : ℤ) - b) ⟨fun a b => by omega, fun a b c => by omega⟩ twoCells
    (some 1) [(1, 5), (2, 3)] isList_twoCells

end GlistCode

end CodeAnalyze.Irqbalance
