import Mathlib.Data.Multiset.AddSub
import Mathlib.Tactic.Common

/-!
# What is held

A program acquires things and gives them back.  `stray` remembers that something was given
back that was not held.  A release that comes after acquisitions is moved in front of
those of other things and cancels its own, so that what a program leaves behind can be
read off the acquisitions that remain.
-/

namespace CodeAnalyze.Lib

/-- What is held, and whether something was released that was not. -/
structure Holdings (α : Type*) where
  held : Multiset α := 0
  stray : Bool := false

namespace Holdings

variable {α : Type*} [DecidableEq α] (k : Holdings α) {r r' : α} {rs : List α} {b b' : Bool}

def acquire (r : α) : Holdings α := { k with held := r ::ₘ k.held }

def release (r : α) : Holdings α :=
  if r ∈ k.held then { k with held := k.held.erase r } else { k with stray := true }

/-- The acquisition may fail. -/
def acquireIf (b : Bool) (r : α) : Holdings α := if b then k.acquire r else k

/-- The release is guarded by a test. -/
def releaseIf (b : Bool) (r : α) : Holdings α := if b then k.release r else k

def acquireAll (rs : List α) : Holdings α := rs.foldl acquire k

/-! ## What is held -/

omit [DecidableEq α] in
@[simp] theorem mem_acquire : r ∈ (k.acquire r').held ↔ r = r' ∨ r ∈ k.held :=
  Multiset.mem_cons

omit [DecidableEq α] in
@[simp] theorem mem_acquireIf : r ∈ (k.acquireIf b r').held ↔ b = true ∧ r = r' ∨ r ∈ k.held := by
  cases b <;> simp [acquireIf]

omit [DecidableEq α] in
@[simp] theorem mem_acquireAll : r ∈ (k.acquireAll rs).held ↔ r ∈ rs ∨ r ∈ k.held := by
  induction rs generalizing k with
  | nil => simp [acquireAll]
  | cons s rs ih =>
      have hstep := ih (k.acquire s)
      simp only [acquireAll, List.foldl_cons] at hstep ⊢
      rw [hstep, mem_acquire, List.mem_cons]
      tauto

omit [DecidableEq α] in
@[simp] theorem stray_acquire : (k.acquire r).stray = k.stray := rfl

omit [DecidableEq α] in
@[simp] theorem stray_acquireIf : (k.acquireIf b r).stray = k.stray := by
  cases b <;> rfl

omit [DecidableEq α] in
@[simp] theorem stray_acquireAll : (k.acquireAll rs).stray = k.stray := by
  induction rs generalizing k with
  | nil => rfl
  | cons s rs ih => exact ih (k.acquire s)

omit [DecidableEq α] in
theorem acquireAll_append (rs rs' : List α) :
    k.acquireAll (rs ++ rs') = (k.acquireAll rs).acquireAll rs' :=
  List.foldl_append

omit [DecidableEq α] in
theorem acquireIf_eq_acquireAll : k.acquireIf b r = k.acquireAll (if b then [r] else []) := by
  cases b <;> rfl

theorem count_acquireAll : (k.acquireAll rs).held.count r = rs.count r + k.held.count r := by
  induction rs generalizing k with
  | nil => simp [acquireAll]
  | cons s rs ih =>
      have hstep := ih (k.acquire s)
      simp only [acquireAll, List.foldl_cons] at hstep ⊢
      rw [hstep, acquire, Multiset.count_cons, List.count_cons]
      simp only [beq_iff_eq, eq_comm (a := r)]
      omega

/-! ## A release after an acquisition -/

/-- A release takes back the last acquisition of the same thing. -/
@[simp] theorem release_acquire : (k.acquire r).release r = k := by
  simp [acquire, release]

/-- A release does not depend on what else was acquired before. -/
theorem release_acquire_of_ne (h : r ≠ r') :
    (k.acquire r').release r = (k.release r).acquire r' := by
  by_cases hr : r ∈ k.held
  · simp [acquire, release, hr, h, Multiset.erase_cons_tail k.held (Ne.symm h)]
  · simp [acquire, release, hr, h]

theorem release_acquireIf_of_ne (h : r ≠ r') :
    (k.acquireIf b r').release r = (k.release r).acquireIf b r' := by
  cases b with
  | true => exact release_acquire_of_ne k h
  | false => rfl

theorem release_acquireAll (h : r ∉ rs) :
    (k.acquireAll rs).release r = (k.release r).acquireAll rs := by
  induction rs generalizing k with
  | nil => rfl
  | cons s rs ih =>
      obtain ⟨hne, hrest⟩ : r ≠ s ∧ r ∉ rs := by simpa using h
      calc ((k.acquire s).acquireAll rs).release r
          = ((k.acquire s).release r).acquireAll rs := ih (k.acquire s) hrest
        _ = ((k.release r).acquire s).acquireAll rs := by rw [release_acquire_of_ne k hne]

@[simp] theorem releaseIf_acquireIf : (k.acquireIf b r).releaseIf b r = k := by
  cases b with
  | true => exact release_acquire k
  | false => rfl

theorem releaseIf_acquireIf_of_ne (h : r ≠ r') :
    (k.acquireIf b' r').releaseIf b r = (k.releaseIf b r).acquireIf b' r' := by
  cases b with
  | true => exact release_acquireIf_of_ne k h
  | false => rfl

theorem releaseIf_acquireAll (h : r ∉ rs) :
    (k.acquireAll rs).releaseIf b r = (k.releaseIf b r).acquireAll rs := by
  cases b with
  | true => exact release_acquireAll k h
  | false => rfl

/-! ## Strays -/

theorem stray_release (h : k.stray = true) : (k.release r).stray = true := by
  unfold release
  split
  · exact h
  · rfl

theorem stray_releaseIf (h : k.stray = true) : (k.releaseIf b r).stray = true := by
  cases b with
  | true => exact stray_release k h
  | false => exact h

theorem held_release_le : (k.release r).held ≤ k.held := by
  unfold release
  split
  · exact Multiset.erase_le r k.held
  · exact le_refl k.held

theorem not_mem_release (h : r ∉ k.held) : r ∉ (k.release r').held :=
  fun hmem => h (Multiset.mem_of_le (held_release_le k) hmem)

theorem not_mem_releaseIf (h : r ∉ k.held) : r ∉ (k.releaseIf b r').held := by
  cases b with
  | true => exact not_mem_release k h
  | false => exact h

theorem stray_of_not_mem (h : r ∉ k.held) : (k.release r).stray = true := by
  simp [release, h]

/-- What is held once cannot be released twice. -/
theorem stray_release_twice (h : k.held.count r ≤ 1) : ((k.release r).release r).stray = true := by
  by_cases hr : r ∈ k.held
  · apply stray_of_not_mem
    simp only [release, hr, if_true]
    rw [← Multiset.count_eq_zero, Multiset.count_erase_self]
    omega
  · exact stray_release _ (stray_of_not_mem k hr)

end Holdings

end CodeAnalyze.Lib
