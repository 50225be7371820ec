import CodeAnalyze.Lib.Heap
import Mathlib.Data.Int.Notation

/-!
# The lists of `glib-local/glist.c`, cell by cell

The functions of the file as they work on the cells of a heap: every assignment to a
`next` or a `prev` is one of the source's.  A function that follows NULL or a cell that is
not live returns `none`.

A loop along `next` or `prev` that takes more rounds than there are live cells goes round
in a circle; it returns `none` too.
-/

namespace CodeAnalyze.Irqbalance.GlistCode

open Lib

variable {α : Type}

/-- How many rounds a loop may take. -/
def rounds : HeapProg α ℕ := fun h => some (h.live.card + 1, h)

/-! ## Building and freeing -/

/-- The loop of `g_list_free`. -/
def gListFreeLoop : ℕ → Ptr → HeapProg α Unit
  | _, none => pure ()
  | 0, some _ => failure
  | n + 1, some l => do
    let tmp := (← load (some l)).next
    free (some l)
    gListFreeLoop n tmp

/-- `g_list_free`. -/
def gListFree (list : Ptr) : HeapProg α Unit := do
  gListFreeLoop (← rounds) list

/-- The loop of `g_list_last`. -/
def gListLastLoop : ℕ → Ptr → HeapProg α Ptr
  | 0, _ => failure
  | n + 1, list => do
    let next := (← load list).next
    if next.isSome then gListLastLoop n next else return list

/-- `g_list_last`. -/
def gListLast (list : Ptr) : HeapProg α Ptr := do
  if list.isSome then gListLastLoop (← rounds) list else return list

/-- The cell `g_list_append` makes.  Its `prev` is still what `malloc` left there. -/
def newCell (alloc : Allocator α) (data : α) : HeapProg α Ptr := do
  let newList ← malloc alloc
  setData newList data
  setNext newList none
  return newList

/-- `g_list_append`. -/
def gListAppend (alloc : Allocator α) (list : Ptr) (data : α) : HeapProg α Ptr := do
  let newList ← newCell alloc data
  if list.isSome then
    let last ← gListLast list
    setNext last newList
    setPrev newList last
    return list
  else
    setPrev newList none
    return newList

/-! ## Taking cells out -/

/-- `if (link->prev) link->prev->next = link->next`. -/
def unlinkPrev (link : Ptr) : HeapProg α Unit := do
  let prev := (← load link).prev
  if prev.isSome then setNext prev (← load link).next else pure ()

/-- `if (link->next) link->next->prev = link->prev`. -/
def unlinkNext (link : Ptr) : HeapProg α Unit := do
  let next := (← load link).next
  if next.isSome then setPrev next (← load link).prev else pure ()

/-- `if (link == list) list = list->next`. -/
def skipLink (list link : Ptr) : HeapProg α Ptr := do
  if link = list then return (← load list).next else return list

/-- `_g_list_remove_link`. -/
def gListRemoveLink (list link : Ptr) : HeapProg α Ptr := do
  if link.isNone then return list
  unlinkPrev link
  unlinkNext link
  let list ← skipLink list link
  setNext link none
  setPrev link none
  return list

/-- `g_list_delete_link`. -/
def gListDeleteLink (list link : Ptr) : HeapProg α Ptr := do
  let list ← gListRemoveLink list link
  free link
  return list

/-- The loop of `g_list_find_custom`.  `f` says that `func` returns 0. -/
def gListFindLoop (f : α → Bool) : ℕ → Ptr → HeapProg α Ptr
  | _, none => pure none
  | 0, some _ => failure
  | n + 1, some l => do
    let node ← load (some l)
    if f node.data then return some l else gListFindLoop f n node.next

/-- `g_list_find_custom`. -/
def gListFindCustom (list : Ptr) (f : α → Bool) : HeapProg α Ptr := do
  gListFindLoop f (← rounds) list

/-- The loop of `g_list_remove`. -/
def gListRemoveLoop [DecidableEq α] (list : Ptr) (data : α) : ℕ → Ptr → HeapProg α Ptr
  | _, none => pure list
  | 0, some _ => failure
  | n + 1, some tmp => do
    let node ← load (some tmp)
    if node.data ≠ data then gListRemoveLoop list data n node.next
    else
      let list ← gListRemoveLink list (some tmp)
      gListFree (some tmp)
      return list

/-- `g_list_remove`. -/
def gListRemove [DecidableEq α] (list : Ptr) (data : α) : HeapProg α Ptr := do
  gListRemoveLoop list data (← rounds) list

/-! ## Reading -/

/-- The loop of `g_list_first`. -/
def gListFirstLoop : ℕ → Ptr → HeapProg α Ptr
  | 0, _ => failure
  | n + 1, list => do
    let prev := (← load list).prev
    if prev.isSome then gListFirstLoop n prev else return list

/-- `g_list_first`. -/
def gListFirst (list : Ptr) : HeapProg α Ptr := do
  if list.isSome then gListFirstLoop (← rounds) list else return list

/-- The loop of `g_list_length`. -/
def gListLengthLoop : ℕ → ℕ → Ptr → HeapProg α ℕ
  | _, length, none => pure length
  | 0, _, some _ => failure
  | n + 1, length, some l => do
    let next := (← load (some l)).next
    gListLengthLoop n (length + 1) next

/-- `g_list_length`. -/
def gListLength (list : Ptr) : HeapProg α ℕ := do
  gListLengthLoop (← rounds) 0 list

/-- The walk of `g_list_foreach`, `for_each_irq` and `for_each_object`: the next cell is read
before the callback is called.  `cell` reads a cell, in whatever state the callbacks work
on. -/
def walk {σ τ : Type} (cell : Ptr → StateT σ Option (Node α)) (cb : τ → α → StateT σ Option τ) :
    ℕ → τ → Ptr → StateT σ Option τ
  | _, t, none => pure t
  | 0, _, some _ => failure
  | n + 1, t, some entry => do
    let node ← cell (some entry)
    let t ← cb t node.data
    walk cell cb n t node.next

/-! ## Sorting -/

/-- `l->next = q` of `g_list_sort_merge`, with the new value of the local `list.next`.  `l`
is NULL here as long as it points to the local `list`. -/
def mergeLink (list l q : Ptr) : HeapProg α Ptr := do
  if l.isSome then
    setNext l q
    return list
  else return q

/-- What a round of `g_list_sort_merge` does with the cell it has chosen: the cell is linked
behind `l`, the list it comes from goes on to its next cell, and `l` to the cell. -/
def takeCell (list l lprev cell : Ptr) : HeapProg α (Ptr × Ptr) := do
  let list ← mergeLink list l cell
  let next := (← load cell).next
  setPrev cell lprev
  return (list, next)

/-- The loop of `g_list_sort_merge`: `list.next`, `l` and what is left of `l1` and `l2`. -/
def mergeLoop (cmp : α → α → ℤ) :
    ℕ → Ptr → Ptr → Ptr → Ptr → Ptr → HeapProg α (Ptr × Ptr × Ptr × Ptr)
  | 0, _, _, _, some _, some _ => failure
  | n + 1, list, l, lprev, some a, some b => do
    let node1 ← load (some a)
    let node2 ← load (some b)
    if cmp node1.data node2.data ≤ 0 then
      let (list, l1) ← takeCell list l lprev (some a)
      mergeLoop cmp n list (some a) (some a) l1 (some b)
    else
      let (list, l2) ← takeCell list l lprev (some b)
      mergeLoop cmp n list (some b) (some b) (some a) l2
  | _, list, l, _, l1, l2 => pure (list, l, l1, l2)

/-- `g_list_sort_merge`.  Its callers pass no empty list; with one, `prev` of the first cell
would point to the local `list`. -/
def gListSortMerge (cmp : α → α → ℤ) (l1 l2 : Ptr) : HeapProg α Ptr := do
  let (list, l, l1, l2) ← mergeLoop cmp (← rounds) none none none l1 l2
  if l.isSome then
    let rest := if l1.isSome then l1 else l2
    setNext l rest
    setPrev rest l
    return list
  else failure

/-- The loop of `g_list_sort_real`: `l2` goes two steps for each step of `l1`. -/
def splitLoop : ℕ → Ptr → Ptr → HeapProg α Ptr
  | 0, _, _ => failure
  | n + 1, l1, l2 => do
    let l2 := (← load l2).next
    if l2.isNone then return l1
    let l2 := (← load l2).next
    if l2.isNone then return l1
    let l1 := (← load l1).next
    splitLoop n l1 l2

/-- The cut of `g_list_sort_real`: the list ends in its middle, and what comes behind is the
list returned. -/
def cutList (list next : Ptr) : HeapProg α Ptr := do
  let l1 ← splitLoop (← rounds) list next
  let l2 := (← load l1).next
  setNext l1 none
  return l2

/-- `g_list_sort_real`; the number bounds the depth of the recursion. -/
def gListSortReal (cmp : α → α → ℤ) : ℕ → Ptr → HeapProg α Ptr
  | 0, _ => failure
  | n + 1, list => do
    if list.isNone then return none
    let next := (← load list).next
    if next.isNone then return list
    let l2 ← cutList list next
    let left ← gListSortReal cmp n list
    let right ← gListSortReal cmp n l2
    gListSortMerge cmp left right

/-- `g_list_sort`. -/
def gListSort (cmp : α → α → ℤ) (list : Ptr) : HeapProg α Ptr := do
  gListSortReal cmp (← rounds) list

end CodeAnalyze.Irqbalance.GlistCode
