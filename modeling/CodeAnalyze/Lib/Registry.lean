import Mathlib.Data.List.Basic
import Mathlib.Tactic.Common

/-!
# First come, first filed

A program is offered items one after another and files an item under its key unless the
key is known already.  It may also take a key note without filing anything.  Whatever is
filed in the end was made of the first offer with its key.
-/

namespace CodeAnalyze.Lib

variable {σ α β κ : Type*} {key : α → κ} {keyOf : β → κ} {known : σ → κ → Prop}
  {filed : σ → List β} {made : α → β → Prop} {s s' : σ} {o : α}

/-- What an offer changes. -/
structure Registers (key : α → κ) (keyOf : β → κ) (known : σ → κ → Prop) (filed : σ → List β)
    (made : α → β → Prop) (s : σ) (o : α) (s' : σ) : Prop where
  known_iff : ∀ n, known s' n ↔ n = key o ∨ known s n
  filed_cases : ∀ b ∈ filed s', b ∈ filed s ∨ keyOf b = key o ∧ ¬ known s (key o) ∧ made o b

/-- An offer whose key is known changes nothing. -/
theorem Registers.of_known (h : known s (key o)) : Registers key keyOf known filed made s o s where
  known_iff _ := ⟨.inr, fun hn => hn.elim (fun heq => heq ▸ h) id⟩
  filed_cases _ hb := .inl hb

section Run

variable {f : σ → α → σ} {offers : List α}

theorem known_foldl_iff
    (hstep : ∀ s, ∀ o ∈ offers, Registers key keyOf known filed made s o (f s o)) (n : κ) :
    known (offers.foldl f s) n ↔ known s n ∨ ∃ o ∈ offers, key o = n := by
  induction offers generalizing s with
  | nil => simp
  | cons o rest ih =>
      have hrest := ih (s := f s o) fun s o ho => hstep s o (List.mem_cons_of_mem _ ho)
      rw [List.foldl_cons, hrest, (hstep s o List.mem_cons_self).known_iff]
      simp only [List.mem_cons, exists_eq_or_imp]
      constructor
      · rintro ((rfl | hs) | hlater)
        · exact .inr (.inl rfl)
        · exact .inl hs
        · exact .inr (.inr hlater)
      · rintro (hs | rfl | hlater)
        · exact .inl (.inr hs)
        · exact .inl (.inl rfl)
        · exact .inr hlater

/-- The first offer with a key decides what is filed under it. -/
theorem filed_foldl_cases [DecidableEq κ]
    (hstep : ∀ s, ∀ o ∈ offers, Registers key keyOf known filed made s o (f s o)) {b : β}
    (hb : b ∈ filed (offers.foldl f s)) :
    b ∈ filed s ∨
      ¬ known s (keyOf b) ∧ ∃ o, offers.find? (fun o => key o = keyOf b) = some o ∧ made o b := by
  induction offers generalizing s with
  | nil => exact .inl hb
  | cons o rest ih =>
      have hone := hstep s o List.mem_cons_self
      rw [List.find?_cons]
      rcases ih (fun s o ho => hstep s o (List.mem_cons_of_mem _ ho)) hb with hold | ⟨hnew, hlater⟩
      · rcases hone.filed_cases b hold with hs | ⟨hkey, hunknown, hmade⟩
        · exact .inl hs
        · refine .inr ⟨hkey ▸ hunknown, o, ?_, hmade⟩
          simp [hkey]
      · rw [hone.known_iff, not_or] at hnew
        refine .inr ⟨hnew.2, ?_⟩
        simpa [Ne.symm hnew.1] using hlater

end Run

end CodeAnalyze.Lib
