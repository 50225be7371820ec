import Mathlib.Data.List.Range
import Mathlib.Data.List.Nodup
import Mathlib.Logic.Function.Basic
import Mathlib.Tactic.Common

/-!
# Rings

A ring of `n` slots holds a queue: its entries are in consecutive slots from the head on,
and the slot after the last one is the first again.  An entry is put behind the others
and taken from the head.
-/

namespace CodeAnalyze.Lib.Ring

variable {α : Type*} {n head cnt i : ℕ}

/-- The slots of `cnt` entries from `head` on. -/
def slots (n head cnt : ℕ) : List ℕ := (List.range cnt).map fun k => (head + k) % n

@[simp] theorem length_slots : (slots n head cnt).length = cnt := by
  simp [slots]

theorem slots_succ (n head cnt : ℕ) :
    slots n head (cnt + 1) = slots n head cnt ++ [(head + cnt) % n] := by
  simp [slots, List.range_succ]

theorem slots_cons (n head cnt : ℕ) :
    slots n head (cnt + 1) = head % n :: slots n (head + 1) cnt := by
  simp only [slots, List.range_succ_eq_map, List.map_cons, List.map_map, Nat.add_zero]
  congr 1
  refine List.map_congr_left fun k _ => ?_
  simp only [Function.comp_apply]
  congr 1
  omega

theorem slots_mod (n head cnt : ℕ) : slots n (head % n) cnt = slots n head cnt := by
  simp [slots, Nat.mod_add_mod]

theorem slots_drop (n head cnt k : ℕ) :
    (slots n head cnt).drop k = slots n (head + k) (cnt - k) := by
  induction k generalizing head cnt with
  | zero => rfl
  | succ k ih =>
      cases cnt with
      | zero => simp [slots]
      | succ cnt =>
          rw [slots_cons, List.drop_succ_cons, ih, Nat.add_sub_add_right, Nat.add_assoc,
            Nat.add_comm 1 k]

theorem slots_take (n head : ℕ) {cnt k : ℕ} (h : k ≤ cnt) :
    (slots n head cnt).take k = slots n head k := by
  unfold slots
  rw [← List.map_take, List.take_range, Nat.min_eq_left h]

theorem mem_slots : i ∈ slots n head cnt ↔ ∃ k < cnt, (head + k) % n = i := by
  simp [slots]

/-- Numbers less than a turn apart are in different slots. -/
theorem eq_of_mod_eq {a b : ℕ} (hle : a ≤ b) (hlt : b < a + n) (h : a % n = b % n) : a = b := by
  have hdvd : n ∣ b - a := Nat.dvd_of_mod_eq_zero (Nat.sub_mod_eq_zero_of_mod_eq h.symm)
  have hzero := Nat.eq_zero_of_dvd_of_lt hdvd (by omega)
  omega

/-- The slot of the next entry is free. -/
theorem next_not_mem (h : cnt < n) : (head + cnt) % n ∉ slots n head cnt := by
  intro hmem
  obtain ⟨k, hk, heq⟩ := mem_slots.mp hmem
  have := eq_of_mod_eq (by omega) (by omega) heq
  omega

/-! ## The queue -/

/-- The entries, the oldest first. -/
def contents (f : ℕ → α) (n head cnt : ℕ) : List α := (slots n head cnt).map f

@[simp] theorem length_contents (f : ℕ → α) : (contents f n head cnt).length = cnt := by
  simp [contents]

theorem contents_congr {f g : ℕ → α} (h : ∀ i ∈ slots n head cnt, f i = g i) :
    contents f n head cnt = contents g n head cnt :=
  List.map_congr_left h

theorem contents_drop (f : ℕ → α) (n head cnt k : ℕ) :
    (contents f n head cnt).drop k = contents f n (head + k) (cnt - k) := by
  rw [contents, ← List.map_drop, slots_drop, contents]

/-- Each entry of the queue is in the slot that many behind the head. -/
theorem slot_of_contents {β : Type*} {f : ℕ → α} {g : β → α} {list : List β}
    (h : contents f n head list.length = list.map g) {k : ℕ} (hk : k < list.length) :
    f ((head + k) % n) = g list[k] := by
  have hget := congrArg (fun l => l[k]?) h
  simpa [contents, slots, hk] using hget

/-- What is written to the next slot is the last entry. -/
theorem contents_push (f : ℕ → α) (x : α) (h : cnt < n) :
    contents (Function.update f ((head + cnt) % n) x) n head (cnt + 1) =
      contents f n head cnt ++ [x] := by
  have hold : contents (Function.update f ((head + cnt) % n) x) n head cnt =
      contents f n head cnt := by
    refine contents_congr fun i hi => Function.update_of_ne ?_ x f
    rintro rfl
    exact next_not_mem h hi
  rw [← hold]
  simp [contents, slots_succ]

/-- The entry at the head is the first. -/
theorem contents_pop (f : ℕ → α) (n head cnt : ℕ) :
    contents f n head (cnt + 1) = f (head % n) :: contents f n (head + 1) cnt := by
  simp [contents, slots_cons]

/-! ## Marks

A mark in each slot says whether the entry there has been served.  The entries are
numbered from the first on; those from `head` to `stored` are marked, and the slots that
follow, up to a full turn, are not.
-/

def Marked (n : ℕ) (mark : ℕ → Bool) (head stored : ℕ) : Prop :=
  ∀ k, head ≤ k → k < head + n → (mark (k % n) = true ↔ k < stored)

/-- Without marks nothing is served. -/
theorem marked_none {mark : ℕ → Bool} (h : ∀ i < n, mark i = false) : Marked n mark 0 0 := by
  intro k _ hk
  rw [Nat.zero_add] at hk
  rw [Nat.mod_eq_of_lt hk, h k hk]
  simp

theorem Marked.mark_head {mark : ℕ → Bool} {stored : ℕ} (h : Marked n mark head stored) (hn : 0 < n) :
    mark (head % n) = true ↔ head < stored :=
  h head (Nat.le_refl head) (by omega)

/-- The next mark is set. -/
theorem Marked.store {mark mark' : ℕ → Bool} {stored : ℕ} (h : Marked n mark head stored)
    (hle : head ≤ stored) (hlt : stored < head + n) (hset : mark' (stored % n) = true)
    (hother : ∀ i, i ≠ stored % n → mark' i = mark i) : Marked n mark' head (stored + 1) := by
  intro k hk hkn
  by_cases heq : k = stored
  · subst heq
    simp [hset]
  · have hslot : k % n ≠ stored % n := by
      intro hmod
      -- both numbers are in the same turn, from `head` on
      rcases Nat.lt_or_gt_of_ne heq with hlt' | hgt
      · exact heq (eq_of_mod_eq (by omega) (by omega) hmod)
      · exact heq (eq_of_mod_eq (by omega) (by omega) hmod.symm).symm
    rw [hother _ hslot, h k hk hkn]
    omega

/-- The mark at the head is taken away, and the head moves on. -/
theorem Marked.take {mark mark' : ℕ → Bool} {stored : ℕ} (h : Marked n mark head stored)
    (hle : stored ≤ head + n) (hclear : mark' (head % n) = false)
    (hother : ∀ i, i ≠ head % n → mark' i = mark i) : Marked n mark' (head + 1) stored := by
  intro k hk hkn
  by_cases heq : k = head + n
  · subst heq
    simp only [Nat.add_mod_right, hclear]
    constructor
    · intro hfalse
      cases hfalse
    · omega
  · have hslot : k % n ≠ head % n := by
      intro hmod
      have := eq_of_mod_eq (by omega) (by omega) hmod.symm
      omega
    rw [hother _ hslot]
    exact h k (by omega) (by omega)

end CodeAnalyze.Lib.Ring
