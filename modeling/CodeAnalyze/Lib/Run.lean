import Mathlib.Data.List.Count
import Mathlib.Logic.Relation
import Mathlib.Tactic.Common

/-!
# Runs of a transition system

A system is a set of initial states and a step relation whose steps carry a
label.  `Reachable` is its set of reachable states, and `ReachableWith good` the
states reached by runs that stay inside `good`, for properties that are promised
only as long as something holds along the way.
-/

namespace CodeAnalyze.Lib

variable {State Label : Type*}

/-- The states a run reaches whose states all satisfy `good`. -/
inductive ReachableWith (good : State → Prop) (init : State → Prop)
    (step : State → Label → State → Prop) : State → Prop
  | init {s : State} : init s → good s → ReachableWith good init step s
  | step {s s' : State} {a : Label} :
      ReachableWith good init step s → step s a s' → good s' → ReachableWith good init step s'

/-- The states any run reaches. -/
abbrev Reachable (init : State → Prop) (step : State → Label → State → Prop) : State → Prop :=
  ReachableWith (fun _ => True) init step

variable {good P : State → Prop} {init : State → Prop} {step : State → Label → State → Prop}

/-- What holds initially and is kept by every step that starts and ends in `good`
holds in every state reached. -/
theorem ReachableWith.invariant (hinit : ∀ s, init s → good s → P s)
    (hstep : ∀ s a s', good s → P s → step s a s' → good s' → P s')
    {s : State} (h : ReachableWith good init step s) : P s := by
  have hboth : good s ∧ P s := by
    induction h with
    | init hi hg => exact ⟨hg, hinit _ hi hg⟩
    | step _ hs hg ih => exact ⟨hg, hstep _ _ _ ih.1 ih.2 hs hg⟩
  exact hboth.2

theorem ReachableWith.good_state {s : State} (h : ReachableWith good init step s) : good s := by
  cases h with
  | init _ hg => exact hg
  | step _ _ hg => exact hg

theorem Reachable.start {s : State} (h : init s) : Reachable init step s :=
  .init h trivial

theorem Reachable.next {s s' : State} {a : Label} (h : Reachable init step s)
    (hs : step s a s') : Reachable init step s' :=
  .step h hs trivial

/-- The rule for unrestricted runs. -/
theorem Reachable.invariant_of (hinit : ∀ s, init s → P s)
    (hstep : ∀ s a s', P s → step s a s' → P s') {s : State} (h : Reachable init step s) : P s :=
  ReachableWith.invariant (fun s hi _ => hinit s hi)
    (fun s a s' _ hP hs _ => hstep s a s' hP hs) h

/-- A run that stays inside `good` is a run. -/
theorem ReachableWith.reachable {s : State} (h : ReachableWith good init step s) :
    Reachable init step s := by
  induction h with
  | init hi _ => exact .init hi trivial
  | step _ hs _ ih => exact .step ih hs trivial

/-! ## Runs of a machine -/

section Machine

variable {exec : State → Label → Option State} {cond : State → Label → Prop}

/-- What the machine runs to is reachable. -/
theorem Reachable.of_run (hexec : ∀ s a s', exec s a = some s' → step s a s')
    {s s' : State} (h : Reachable init step s) {labels : List Label}
    (hrun : labels.foldlM exec s = some s') : Reachable init step s' := by
  induction labels generalizing s with
  | nil =>
      rw [List.foldlM_nil] at hrun
      cases hrun
      exact h
  | cons a rest ih =>
      rw [List.foldlM_cons] at hrun
      obtain ⟨mid, hmid, hrest⟩ := Option.bind_eq_some_iff.mp hrun
      exact ih (h.next (hexec s a mid hmid)) hrest

/-- The same for a run whose states are checked one by one. -/
theorem ReachableWith.of_run [DecidablePred good]
    (hexec : ∀ s a s', exec s a = some s' → step s a s') {s s' : State}
    (h : ReachableWith good init step s) {labels : List Label}
    (hrun : labels.foldlM (fun s a => (exec s a).filter fun s' => good s') s = some s') :
    ReachableWith good init step s' := by
  induction labels generalizing s with
  | nil =>
      rw [List.foldlM_nil] at hrun
      cases hrun
      exact h
  | cons a rest ih =>
      rw [List.foldlM_cons] at hrun
      obtain ⟨mid, hmid, hrest⟩ := Option.bind_eq_some_iff.mp hrun
      obtain ⟨hstep, hgood⟩ := Option.filter_eq_some_iff.mp hmid
      exact ih (h.step (hexec s a mid hstep) (of_decide_eq_true hgood)) hrest

/-- Every step of the run that carries these labels meets the condition. -/
def Along (exec : State → Label → Option State) (cond : State → Label → Prop) :
    State → List Label → Prop
  | _, [] => True
  | s, a :: rest => cond s a ∧ ∀ s', exec s a = some s' → Along exec cond s' rest

instance decidableAlong [∀ s a, Decidable (cond s a)] :
    ∀ (s : State) (labels : List Label), Decidable (Along exec cond s labels)
  | _, [] => isTrue trivial
  | s, a :: rest =>
    match hx : exec s a with
    | none =>
      decidable_of_iff (cond s a) <| by simp [Along, hx]
    | some s' =>
      have := decidableAlong s' rest
      decidable_of_iff (cond s a ∧ Along exec cond s' rest) <| by simp [Along, hx]

/-- The later steps of a run meet the condition too. -/
theorem Along.later {s mid : State} {before after : List Label}
    (h : Along exec cond s (before ++ after)) (hrun : before.foldlM exec s = some mid) :
    Along exec cond mid after := by
  induction before generalizing s with
  | nil =>
      rw [List.foldlM_nil] at hrun
      cases hrun
      exact h
  | cons a rest ih =>
      rw [List.foldlM_cons] at hrun
      obtain ⟨next, hnext, hrest⟩ := Option.bind_eq_some_iff.mp hrun
      exact ih (h.2 next hnext) hrest

/-- If under an invariant a step keeps `P` exactly when it meets the condition, and
never brings `P` back, then a run keeps `P` exactly when all its steps meet the
condition. -/
theorem along_iff {I : State → Prop} (hinv : ∀ s a s', I s → exec s a = some s' → I s')
    (hstep : ∀ s a s', I s → exec s a = some s' → (P s' ↔ P s ∧ cond s a))
    {s s' : State} (hI : I s) {labels : List Label} (hrun : labels.foldlM exec s = some s') :
    P s' ↔ P s ∧ Along exec cond s labels := by
  induction labels generalizing s with
  | nil =>
      rw [List.foldlM_nil] at hrun
      cases hrun
      simp [Along]
  | cons a rest ih =>
      rw [List.foldlM_cons] at hrun
      obtain ⟨mid, hmid, hrest⟩ := Option.bind_eq_some_iff.mp hrun
      rw [ih (hinv s a mid hI hmid) hrest, hstep s a mid hI hmid, and_assoc]
      simp [Along, hmid]

/-- Two conditions that agree under an invariant, which steps that meet the first keep,
are met along the same runs. -/
theorem along_congr {I : State → Prop} {Q : Label → Prop} {cond' : State → Label → Prop}
    (hstep : ∀ s a s', I s → Q a → exec s a = some s' → (cond s a ↔ cond' s a))
    (hinv : ∀ s a s', I s → Q a → cond s a → exec s a = some s' → I s')
    {s s' : State} (hI : I s) {labels : List Label} (hQ : ∀ a ∈ labels, Q a)
    (hrun : labels.foldlM exec s = some s') :
    Along exec cond s labels ↔ Along exec cond' s labels := by
  induction labels generalizing s with
  | nil => exact Iff.rfl
  | cons a rest ih =>
      rw [List.foldlM_cons] at hrun
      obtain ⟨mid, hmid, hrest⟩ := Option.bind_eq_some_iff.mp hrun
      obtain ⟨hhead, htail⟩ := List.forall_mem_cons.mp hQ
      have hcond := hstep s a mid hI hhead hmid
      simp only [Along, hmid, Option.some.injEq, forall_eq', ← hcond]
      exact and_congr_right fun hc => ih (hinv s a mid hI hhead hc hmid) htail hrest

/-- An invariant that steps meeting the condition keep holds where such a run ends. -/
theorem Along.invariant {I : State → Prop}
    (hinv : ∀ s a s', I s → cond s a → exec s a = some s' → I s')
    {s s' : State} (hI : I s) {labels : List Label} (h : Along exec cond s labels)
    (hrun : labels.foldlM exec s = some s') : I s' := by
  induction labels generalizing s with
  | nil =>
      rw [List.foldlM_nil] at hrun
      cases hrun
      exact hI
  | cons a rest ih =>
      rw [List.foldlM_cons] at hrun
      obtain ⟨mid, hmid, hrest⟩ := Option.bind_eq_some_iff.mp hrun
      exact ih (hinv s a mid hI h.1 hmid) (h.2 mid hmid) hrest

/-- What every step of a run keeps holds where it ends. -/
theorem run_invariant {I : State → Prop} {labels : List Label}
    (hinv : ∀ s, ∀ a ∈ labels, ∀ s', I s → exec s a = some s' → I s')
    {s s' : State} (hI : I s) (hrun : labels.foldlM exec s = some s') : I s' := by
  induction labels generalizing s with
  | nil =>
      rw [List.foldlM_nil] at hrun
      cases hrun
      exact hI
  | cons a rest ih =>
      rw [List.foldlM_cons] at hrun
      obtain ⟨mid, hmid, hrest⟩ := Option.bind_eq_some_iff.mp hrun
      exact ih (fun s b hb => hinv s b (List.mem_cons_of_mem a hb))
        (hinv s a List.mem_cons_self mid hI hmid) hrest

/-- If the steps that are counted each use up some of a potential, and only those that earn
add to it, then a run takes no more of them than it has earned. -/
theorem countP_le_potential {I : State → Prop} (potential : State → ℕ)
    (spends earns : Label → Bool) (k : ℕ) {labels : List Label}
    (hinv : ∀ s a s', I s → exec s a = some s' → I s')
    (hstep : ∀ s, ∀ a ∈ labels, ∀ s', I s → exec s a = some s' →
      potential s' + (if spends a then 1 else 0) ≤ potential s + if earns a then k else 0)
    {s s' : State} (hI : I s) (hrun : labels.foldlM exec s = some s') :
    potential s' + labels.countP spends ≤ potential s + k * labels.countP earns := by
  induction labels generalizing s with
  | nil =>
      rw [List.foldlM_nil] at hrun
      cases hrun
      simp
  | cons a rest ih =>
      rw [List.foldlM_cons] at hrun
      obtain ⟨mid, hmid, hrest⟩ := Option.bind_eq_some_iff.mp hrun
      have hhead := hstep s a List.mem_cons_self mid hI hmid
      have htail := ih (fun s b hb => hstep s b (List.mem_cons_of_mem a hb))
        (hinv s a mid hI hmid) hrest
      have hearns : k * (rest.countP earns + if earns a = true then 1 else 0) =
          k * rest.countP earns + if earns a = true then k else 0 := by
        split <;> simp [Nat.mul_add]
      rw [List.countP_cons, List.countP_cons, hearns]
      omega

/-- Two machines that take each step side by side end side by side, or both cannot go on. -/
theorem foldlM_rel {State' : Type*} {exec' : State' → Label → Option State'}
    {R : State → State' → Prop} {labels : List Label}
    (hstep : ∀ s t, ∀ a ∈ labels, R s t → Option.Rel R (exec s a) (exec' t a))
    {s : State} {t : State'} (h : R s t) :
    Option.Rel R (labels.foldlM exec s) (labels.foldlM exec' t) := by
  induction labels generalizing s t with
  | nil => exact .some h
  | cons a rest ih =>
      rw [List.foldlM_cons, List.foldlM_cons]
      have hhead := hstep s t a List.mem_cons_self h
      cases hs : exec s a <;> cases ht : exec' t a <;> rw [hs, ht] at hhead <;> cases hhead
      case none.none => exact .none
      case some.some hnext =>
        exact ih (fun s t b hb => hstep s t b (List.mem_cons_of_mem a hb)) hnext

end Machine

end CodeAnalyze.Lib
