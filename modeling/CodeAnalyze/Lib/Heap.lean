import Mathlib.Data.Finmap
import Mathlib.Tactic.Common

/-!
# A heap of linked cells

The memory a program keeps its doubly linked lists in.  A pointer is an address or
NULL.  Reading or writing through NULL, or through an address that is not live, and
freeing such an address, stops the program: the result is `none`.

`malloc` may return any address that is not live.  Which one it returns is settled
by an `Allocator`; what is shown for every allocator holds whatever `malloc` does.
-/

namespace CodeAnalyze.Lib

abbrev Addr := ℕ

/-- A pointer; NULL is `none`. -/
abbrev Ptr := Option Addr

/-- A cell of a doubly linked list. -/
structure Node (α : Type) where
  data : α
  next : Ptr
  prev : Ptr
  deriving DecidableEq

/-- The live cells, and how often `malloc` was called. -/
structure Heap (α : Type) where
  cells : Finmap fun _ : Addr => Node α := ∅
  mallocs : ℕ := 0

/-- What `malloc` does: the address it returns at its n-th call, which is not live then, and
what the memory there holds. -/
structure Allocator (α : Type) where
  addr : ℕ → Finset Addr → Addr
  fresh : ∀ n live, addr n live ∉ live
  junk : ℕ → Node α

namespace Heap

variable {α : Type} (h : Heap α) (a b : Addr) (n : Node α)

/-- The live addresses. -/
def live : Finset Addr := h.cells.keys

/-- What is at an address. -/
def get : Option (Node α) := h.cells.lookup a

def set : Heap α := { h with cells := h.cells.insert a n }

def erase : Heap α := { h with cells := h.cells.erase a }

/-- A call of `malloc` is counted. -/
def count : Heap α := { h with mallocs := h.mallocs + 1 }

@[simp] theorem get_set_self : (h.set a n).get a = some n := Finmap.lookup_insert _

variable {a b} in
theorem get_set_of_ne (hne : b ≠ a) : (h.set a n).get b = h.get b :=
  Finmap.lookup_insert_of_ne _ hne

@[simp] theorem get_count : h.count.get a = h.get a := rfl

@[simp] theorem get_erase_self : (h.erase a).get a = none := Finmap.lookup_erase _ _

variable {a b} in
theorem get_erase_of_ne (hne : b ≠ a) : (h.erase a).get b = h.get b := Finmap.lookup_erase_ne hne

variable {h a} in
theorem mem_live : a ∈ h.live ↔ ∃ n, h.get a = some n := Finmap.mem_keys.trans Finmap.mem_iff

variable {h a} in
theorem notMem_live : a ∉ h.live ↔ h.get a = none := by
  rw [mem_live, Option.eq_none_iff_forall_ne_some]
  push Not
  exact Iff.rfl

end Heap

/-! ## Programs -/

/-- A program that works on a heap. -/
abbrev HeapProg (α β : Type) := StateT (Heap α) Option β

variable {α : Type}

/-- The cell a pointer points to. -/
def load (p : Ptr) : HeapProg α (Node α) := fun h => (p.bind h.get).map fun n => (n, h)

/-- A write to a field of the cell a pointer points to. -/
def store (p : Ptr) (f : Node α → Node α) : HeapProg α Unit := fun h => do
  let a ← p
  let n ← h.get a
  return ((), h.set a (f n))

def setNext (p q : Ptr) : HeapProg α Unit := store p fun n => { n with next := q }

def setPrev (p q : Ptr) : HeapProg α Unit := store p fun n => { n with prev := q }

def setData (p : Ptr) (d : α) : HeapProg α Unit := store p fun n => { n with data := d }

def malloc (alloc : Allocator α) : HeapProg α Ptr := fun h =>
  let a := alloc.addr h.mallocs h.live
  some (some a, (h.set a (alloc.junk h.mallocs)).count)

/-- `free`; of NULL it does nothing. -/
def free : Ptr → HeapProg α Unit
  | none => pure ()
  | some a => fun h => (h.get a).map fun _ => ((), h.erase a)

/-- The rule for one statement after another. -/
theorem run_bind_of_eq {σ β γ : Type} {s s' : σ} {x : StateT σ Option β} {b : β}
    (hx : x.run s = some (b, s')) (f : β → StateT σ Option γ) :
    (x >>= f).run s = (f b).run s' := by
  rw [StateT.run_bind, hx]
  rfl

variable {h : Heap α} {a : Addr} {n : Node α}

theorem run_load (hn : h.get a = some n) : (load (some a)).run h = some (n, h) := by
  simp [load, StateT.run, hn]

theorem run_store (hn : h.get a = some n) (f : Node α → Node α) :
    (store (some a) f).run h = some ((), h.set a (f n)) := by
  simp [store, StateT.run, hn]

theorem run_setNext (hn : h.get a = some n) (q : Ptr) :
    (setNext (some a) q).run h = some ((), h.set a { n with next := q }) := run_store hn _

theorem run_setPrev (hn : h.get a = some n) (q : Ptr) :
    (setPrev (some a) q).run h = some ((), h.set a { n with prev := q }) := run_store hn _

theorem run_setData (hn : h.get a = some n) (d : α) :
    (setData (some a) d).run h = some ((), h.set a { n with data := d }) := run_store hn _

theorem run_free (hn : h.get a = some n) : (free (some a)).run h = some ((), h.erase a) := by
  simp [free, StateT.run, hn]

theorem run_malloc (alloc : Allocator α) (h : Heap α) :
    (malloc alloc).run h =
      some (some (alloc.addr h.mallocs h.live),
        (h.set (alloc.addr h.mallocs h.live) (alloc.junk h.mallocs)).count) := rfl

end CodeAnalyze.Lib
