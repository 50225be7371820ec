import CodeAnalyze.Lib.Ring
import Mathlib.Algebra.BigOperators.Group.List.Basic
import Mathlib.Algebra.GroupWithZero.Nat
import Mathlib.Data.Set.Lattice
import Mathlib.Order.CompletePartialOrder

/-!
# Spans of a circular buffer

Spans of different sizes are reserved in a circular buffer of `n` bytes, each behind the
last, and given back in the same order.  As long as their sizes add up to no more than the
buffer, no two of them overlap.
-/

namespace CodeAnalyze.Lib

variable {α : Type*} (n : ℕ) (pos size : α → ℕ)

/-- The spans lie one behind the other, counted from `start` on without wrapping. -/
def Laid : ℕ → List α → Prop
  | _, [] => True
  | start, x :: rest => pos x = start % n ∧ Laid (start + size x) rest

/-- The bytes of a span. -/
def spanBytes (start len : ℕ) : Set ℕ := {b | ∃ i < len, b = (start + i) % n}

variable {n pos size} {start : ℕ} {l : List α} {x : α}

theorem Laid.push (h : Laid n pos size start l) (hx : pos x = (start + (l.map size).sum) % n) :
    Laid n pos size start (l ++ [x]) := by
  induction l generalizing start with
  | nil => exact ⟨by simpa using hx, trivial⟩
  | cons y rest ih =>
      refine ⟨h.1, ih h.2 ?_⟩
      rw [hx, List.map_cons, List.sum_cons, Nat.add_assoc]

/-- Every span starts behind the ones before it. -/
theorem Laid.pos_of_mem (h : Laid n pos size start l) (hx : x ∈ l) :
    ∃ skipped, pos x = (start + skipped) % n ∧ skipped + size x ≤ (l.map size).sum := by
  induction l generalizing start with
  | nil => exact absurd hx List.not_mem_nil
  | cons y rest ih =>
      rcases List.mem_cons.mp hx with rfl | hrest
      · exact ⟨0, h.1, by simp⟩
      · obtain ⟨skipped, hpos, hle⟩ := ih h.2 hrest
        refine ⟨size y + skipped, by rw [hpos, Nat.add_assoc], ?_⟩
        rw [List.map_cons, List.sum_cons]
        omega

/-- The bytes behind a position, within a buffer, are not those before it. -/
theorem disjoint_spanBytes {a b s t : ℕ} (hab : a + s ≤ b) (hbt : b + t ≤ a + n) :
    Disjoint (spanBytes n a s) (spanBytes n b t) := by
  rw [Set.disjoint_left]
  rintro byte ⟨i, hi, rfl⟩ ⟨j, hj, heq⟩
  have := Ring.eq_of_mod_eq (by omega) (by omega) heq
  omega

theorem spanBytes_mod (a s : ℕ) : spanBytes n (a % n) s = spanBytes n a s := by
  simp only [spanBytes, Nat.mod_add_mod]

/-- A span that starts later and is shorter lies inside. -/
theorem spanBytes_mono {a s shift t : ℕ} (h : shift + t ≤ s) :
    spanBytes n (a + shift) t ⊆ spanBytes n a s := by
  rintro byte ⟨i, hi, rfl⟩
  exact ⟨shift + i, by omega, by rw [Nat.add_assoc]⟩

/-- No two spans overlap. -/
theorem Laid.disjoint (h : Laid n pos size start l) (hsum : (l.map size).sum ≤ n) :
    l.Pairwise fun x y => Disjoint (spanBytes n (pos x) (size x)) (spanBytes n (pos y) (size y)) := by
  induction l generalizing start with
  | nil => exact List.Pairwise.nil
  | cons x rest ih =>
      rw [List.map_cons, List.sum_cons] at hsum
      refine List.Pairwise.cons (fun y hy => ?_) (ih h.2 (by omega))
      obtain ⟨skipped, hpos, hle⟩ := h.2.pos_of_mem hy
      rw [h.1, hpos, spanBytes_mod, spanBytes_mod]
      exact disjoint_spanBytes (by omega) (by omega)

end CodeAnalyze.Lib
