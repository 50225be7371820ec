import Mathlib.Data.List.Basic
import Mathlib.Tactic.Common

/-!
# Loops

Invariant rules for a `for` loop, that is a fold, whose body may stop the program
(`Option`) or may not.  The invariant of the general rules speaks about what is
still to be visited.
-/

namespace CodeAnalyze.Lib

variable {σ α : Type*} {s s' : σ}

/-- An invariant of the rest of the loop and the state. -/
theorem foldlM_rest {f : σ → α → Option σ} (P : List α → σ → Prop)
    (hstep : ∀ x rest s s', P (x :: rest) s → f s x = some s' → P rest s')
    {list : List α} (hstart : P list s) (hrun : list.foldlM f s = some s') : P [] s' := by
  induction list generalizing s with
  | nil =>
      rw [List.foldlM_nil] at hrun
      exact Option.some.inj hrun ▸ hstart
  | cons x rest ih =>
      rw [List.foldlM_cons] at hrun
      obtain ⟨mid, hmid, hrun⟩ := Option.bind_eq_some_iff.mp hrun
      exact ih (hstep x rest s mid hstart hmid) hrun

/-- An invariant every round keeps. -/
theorem foldlM_invariant {f : σ → α → Option σ} (P : σ → Prop) {list : List α}
    (hstep : ∀ x ∈ list, ∀ s s', P s → f s x = some s' → P s')
    (hstart : P s) (hrun : list.foldlM f s = some s') : P s' := by
  refine (foldlM_rest (fun rest s => (∀ x ∈ rest, x ∈ list) ∧ P s) ?_
    ⟨fun _ hx => hx, hstart⟩ hrun).2
  rintro x rest s s' ⟨hrest, hP⟩ hx
  exact ⟨fun y hy => hrest y (List.mem_cons_of_mem _ hy),
    hstep x (hrest x List.mem_cons_self) s s' hP hx⟩

/-- An invariant under which the body does not stop carries the loop through any first
part of the list. -/
theorem foldlM_total {f : σ → α → Option σ} (P : List α → σ → Prop)
    (hstep : ∀ x rest s, P (x :: rest) s → ∃ s', f s x = some s' ∧ P rest s')
    {done rest : List α} (hstart : P (done ++ rest) s) :
    ∃ s', done.foldlM f s = some s' ∧ P rest s' := by
  induction done generalizing s with
  | nil => exact ⟨s, rfl, hstart⟩
  | cons x done ih =>
      obtain ⟨mid, hmid, hP⟩ := hstep x (done ++ rest) s hstart
      obtain ⟨s', hrun, hend⟩ := ih hP
      refine ⟨s', ?_, hend⟩
      rw [List.foldlM_cons, hmid]
      exact hrun

/-- Through the whole list. -/
theorem foldlM_visits {f : σ → α → Option σ} (P : List α → σ → Prop)
    (hstep : ∀ x rest s, P (x :: rest) s → ∃ s', f s x = some s' ∧ P rest s')
    (list : List α) (hstart : P list s) : ∃ s', list.foldlM f s = some s' ∧ P [] s' := by
  apply foldlM_total P hstep
  rwa [List.append_nil]

/-- The rule for a body that always returns. -/
theorem foldl_rest {f : σ → α → σ} (P : List α → σ → Prop)
    (hstep : ∀ x rest s, P (x :: rest) s → P rest (f s x))
    {l : List α} (hstart : P l s) : P [] (l.foldl f s) := by
  induction l generalizing s with
  | nil => exact hstart
  | cons x rest ih => exact ih (hstep x rest s hstart)

theorem foldl_invariant {f : σ → α → σ} (P : σ → Prop) {list : List α}
    (hstep : ∀ x ∈ list, ∀ s, P s → P (f s x)) (hstart : P s) : P (list.foldl f s) := by
  refine (foldl_rest (fun rest s => (∀ x ∈ rest, x ∈ list) ∧ P s) ?_
    ⟨fun _ hx => hx, hstart⟩).2
  rintro x rest s ⟨hrest, hP⟩
  exact ⟨fun y hy => hrest y (List.mem_cons_of_mem _ hy),
    hstep x (hrest x List.mem_cons_self) s hP⟩

/-- What a loop leaves alone. -/
theorem foldlM_keeps {β : Type*} {f : σ → α → Option σ} (g : σ → β)
    (hstep : ∀ x s s', f s x = some s' → g s' = g s)
    {list : List α} (hrun : list.foldlM f s = some s') : g s' = g s :=
  foldlM_invariant (fun t => g t = g s) (fun x _ t t' ht hx => (hstep x t t' hx).trans ht) rfl hrun

theorem foldl_keeps {β : Type*} {f : σ → α → σ} (g : σ → β) (hstep : ∀ x s, g (f s x) = g s)
    (list : List α) (s : σ) : g (list.foldl f s) = g s :=
  foldl_invariant (fun t => g t = g s) (fun x _ t ht => (hstep x t).trans ht) rfl

end CodeAnalyze.Lib
