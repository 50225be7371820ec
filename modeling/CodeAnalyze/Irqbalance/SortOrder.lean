import CodeAnalyze.Irqbalance.Selection
import Mathlib.Logic.Embedding.Basic

/-!
# The order of `sort_irqs`

`sort_irqs` puts `b` in front of `a` as soon as one of class, load and address is larger
in `b`.  It leaves `a` in front only where `a` is at least `b` in all three, so two IRQs
with keys that disagree come out in the opposite of the order in which they went in.
-/

namespace CodeAnalyze.Irqbalance

section
variable {s : State} {addr : ℕ → ℕ} {a b c : ℕ}

/-- `a` is at least `b` in all three keys. -/
structure Dominates (s : State) (addr : ℕ → ℕ) (a b : ℕ) : Prop where
  irqClass : (s.info b).irqClass.toNat ≤ (s.info a).irqClass.toNat
  load : (s.info b).load ≤ (s.info a).load
  addr : addr b ≤ addr a

/-- By class, among equal classes by load, and among equal loads by address, each of them
from the largest down. -/
structure InOrder (s : State) (addr : ℕ → ℕ) (a b : ℕ) : Prop where
  irqClass : (s.info b).irqClass.toNat ≤ (s.info a).irqClass.toNat
  load : (s.info a).irqClass.toNat = (s.info b).irqClass.toNat →
    (s.info b).load ≤ (s.info a).load
  addr : (s.info a).irqClass.toNat = (s.info b).irqClass.toNat →
    (s.info a).load = (s.info b).load → addr b ≤ addr a

/-- Class and load put `a` before `b`. -/
def Ahead (s : State) (a b : ℕ) : Prop :=
  (s.info b).irqClass.toNat < (s.info a).irqClass.toNat ∨
    (s.info a).irqClass.toNat = (s.info b).irqClass.toNat ∧ (s.info b).load < (s.info a).load

/-- What goes before by class and load is not smaller in load, nor in address. -/
def KeysAgree (s : State) (addr : ℕ → ℕ) (list : List ℕ) : Prop :=
  ∀ a ∈ list, ∀ b ∈ list, Ahead s a b →
    (s.info b).load ≤ (s.info a).load ∧ addr b ≤ addr a

theorem sortIrqs_nonpos_iff : s.sortIrqs addr a b ≤ 0 ↔ Dominates s addr a b := by
  unfold State.sortIrqs
  split
  · rename_i hless
    simp only [Bool.or_eq_true, decide_eq_true_eq] at hless
    refine ⟨fun h => absurd h (by decide), fun h => ?_⟩
    rcases hless with (hclass | hload) | haddr
    · exact absurd hclass (Nat.not_lt.mpr h.irqClass)
    · exact absurd hload (UInt64.not_lt.mpr h.load)
    · exact absurd haddr (Nat.not_lt.mpr h.addr)
  · rename_i hmore
    simp only [Bool.or_eq_true, decide_eq_true_eq, not_or] at hmore
    obtain ⟨⟨hclass, hload⟩, haddr⟩ := hmore
    exact ⟨fun _ => ⟨Nat.not_lt.mp hclass, UInt64.not_lt.mp hload, Nat.not_lt.mp haddr⟩,
      fun _ => by decide⟩

theorem Dominates.inOrder (h : Dominates s addr a b) : InOrder s addr a b :=
  ⟨h.irqClass, fun _ => h.load, fun _ _ => h.addr⟩

theorem InOrder.trans (hab : InOrder s addr a b) (hbc : InOrder s addr b c) :
    InOrder s addr a c := by
  have hclass : (s.info c).irqClass.toNat ≤ (s.info a).irqClass.toNat :=
    Nat.le_trans hbc.irqClass hab.irqClass
  -- where the ends are equal in a key, the middle is
  have hmiddle (hends : (s.info a).irqClass.toNat = (s.info c).irqClass.toNat) :
      (s.info a).irqClass.toNat = (s.info b).irqClass.toNat ∧
        (s.info b).irqClass.toNat = (s.info c).irqClass.toNat := by
    have h1 := hab.irqClass
    have h2 := hbc.irqClass
    omega
  refine ⟨hclass, fun hends => ?_, fun hends hloads => ?_⟩
  · obtain ⟨h1, h2⟩ := hmiddle hends
    exact UInt64.le_trans (hbc.load h2) (hab.load h1)
  · obtain ⟨h1, h2⟩ := hmiddle hends
    have hload : (s.info a).load = (s.info b).load := by
      apply UInt64.le_antisymm
      · rw [hloads]
        exact hbc.load h2
      · exact hab.load h1
    exact Nat.le_trans (hbc.addr h2 (hload ▸ hloads)) (hab.addr h1 hload)

theorem InOrder.of_class_lt
    (hclass : (s.info b).irqClass.toNat < (s.info a).irqClass.toNat) : InOrder s addr a b :=
  ⟨Nat.le_of_lt hclass, fun heq => absurd heq (Nat.ne_of_gt hclass),
    fun heq => absurd heq (Nat.ne_of_gt hclass)⟩

theorem InOrder.of_load_lt (hclass : (s.info a).irqClass.toNat = (s.info b).irqClass.toNat)
    (hload : (s.info b).load < (s.info a).load) : InOrder s addr a b :=
  ⟨Nat.le_of_eq hclass.symm, fun _ => UInt64.le_of_lt hload,
    fun _ heq => absurd heq.symm (UInt64.ne_of_lt hload)⟩

theorem Ahead.inOrder (h : Ahead s a b) : InOrder s addr a b := by
  rcases h with hclass | ⟨hclass, hload⟩
  · exact .of_class_lt hclass
  · exact .of_load_lt hclass hload

theorem InOrder.total (s : State) (addr : ℕ → ℕ) (a b : ℕ) :
    InOrder s addr a b ∨ InOrder s addr b a := by
  rcases Nat.lt_trichotomy (s.info a).irqClass.toNat (s.info b).irqClass.toNat with
    hclass | hclass | hclass
  · exact .inr (.of_class_lt hclass)
  · rcases load_trichotomy (s.info a).load (s.info b).load with hload | hload | hload
    · exact .inr (.of_load_lt hclass.symm hload)
    · rcases Nat.le_total (addr a) (addr b) with haddr | haddr
      · exact .inr ⟨Nat.le_of_eq hclass, fun _ => hload ▸ UInt64.le_rfl, fun _ _ => haddr⟩
      · exact .inl ⟨Nat.le_of_eq hclass.symm, fun _ => hload ▸ UInt64.le_rfl, fun _ _ => haddr⟩
    · exact .inl (.of_load_lt hclass hload)
  · exact .inl (.of_class_lt hclass)

/-- Two IRQs that may each come first are one, as they have one address. -/
theorem InOrder.antisymm {addr : ℕ ↪ ℕ} (hab : InOrder s addr a b) (hba : InOrder s addr b a) :
    a = b := by
  have hclass := Nat.le_antisymm hba.irqClass hab.irqClass
  have hload := UInt64.le_antisymm (hba.load hclass.symm) (hab.load hclass)
  exact addr.injective
    (Nat.le_antisymm (hba.addr hclass.symm hload.symm) (hab.addr hclass hload))

theorem not_inOrder_of_ahead (h : Ahead s a b) : ¬InOrder s addr b a := by
  intro hback
  rcases h with hclass | ⟨hclass, hload⟩
  · exact absurd hback.irqClass (Nat.not_le.mpr hclass)
  · exact absurd (hback.load hclass.symm) (UInt64.not_le.mpr hload)

/-- Where the keys agree, `sort_irqs` is the order by class, load and address. -/
theorem KeysAgree.dominates {list : List ℕ} (hkeys : KeysAgree s addr list) (ha : a ∈ list)
    (hb : b ∈ list) (h : InOrder s addr a b) : Dominates s addr a b := by
  rcases Nat.lt_or_eq_of_le h.irqClass with hclass | hclass
  · obtain ⟨hload, haddr⟩ := hkeys a ha b hb (.inl hclass)
    exact ⟨h.irqClass, hload, haddr⟩
  · rcases UInt64.lt_or_eq_of_le (h.load hclass.symm) with hload | hload
    · obtain ⟨hle, haddr⟩ := hkeys a ha b hb (.inr ⟨hclass.symm, hload⟩)
      exact ⟨h.irqClass, hle, haddr⟩
    · exact ⟨h.irqClass, h.load hclass.symm, h.addr hclass.symm hload.symm⟩

theorem KeysAgree.sortIrqs {list : List ℕ} (hkeys : KeysAgree s addr list) (ha : a ∈ list)
    (hb : b ∈ list) :
    if s.sortIrqs addr a b ≤ 0 then InOrder s addr a b else InOrder s addr b a := by
  split
  · rename_i hfirst
    exact (sortIrqs_nonpos_iff.mp hfirst).inOrder
  · rename_i hsecond
    refine (InOrder.total s addr a b).resolve_left fun hab => hsecond ?_
    exact sortIrqs_nonpos_iff.mpr (hkeys.dominates ha hb hab)

/-- Two IRQs on which the keys disagree come out of some order of the list the wrong way
round. -/
theorem dominates_of_sorted {list : List ℕ}
    (hsorted : ∀ order : List ℕ, order.Perm list →
      (gListSort (s.sortIrqs addr) order).Pairwise (InOrder s addr))
    (ha : a ∈ list) (hb : b ∈ list) (hahead : Ahead s a b) : Dominates s addr a b := by
  by_contra hnot
  have hgt : 0 < s.sortIrqs addr a b :=
    Int.not_le.mp fun hle => hnot (sortIrqs_nonpos_iff.mp hle)
  have hne : b ≠ a := by
    rintro rfl
    have hself : InOrder s addr b b := hahead.inOrder
    exact not_inOrder_of_ahead hahead hself
  obtain ⟨rest, hrest⟩ : ∃ rest, (rest ++ [a, b]).Perm list := by
    refine ⟨(list.erase a).erase b, ?_⟩
    have hb' : b ∈ list.erase a := (List.mem_erase_of_ne hne).mpr hb
    have hlast : ((list.erase a).erase b ++ [a, b]).Perm (a :: b :: (list.erase a).erase b) :=
      List.perm_append_comm
    exact hlast.trans
      (((List.perm_cons_erase hb').symm.cons a).trans (List.perm_cons_erase ha).symm)
  have hswapped := (hsorted _ hrest).sublist (swapped_sublist_gListSort hgt rest)
  exact not_inOrder_of_ahead hahead (List.rel_of_pairwise_cons hswapped (by simp))

end

namespace State

theorem irqList_sortIrqList (s : State) (addr : ℕ → ℕ) (list : IrqList) :
    (s.sortIrqList addr list).irqList list = gListSort (s.sortIrqs addr) (s.irqList list) := by
  unfold sortIrqList
  rw [irqList_modifyIrqList]
  split
  · rfl
  · rename_i hnot
    have hgone : ¬s.ListValid list := fun hvalid => hnot ⟨rfl, hvalid⟩
    rw [irqList_of_not_listValid s list hgone, gListSort, if_pos (by simp)]

/-- The IRQs of a list put into another order. -/
def reorder (s : State) (list : IrqList) (order : List ℕ) : State :=
  s.modifyIrqList list fun _ => order

theorem irqList_reorder {s : State} {list : IrqList} {order : List ℕ}
    (hperm : order.Perm (s.irqList list)) : (s.reorder list order).irqList list = order := by
  rw [reorder, irqList_modifyIrqList]
  split
  · rfl
  · rename_i hnot
    have hgone : ¬s.ListValid list := fun hvalid => hnot ⟨rfl, hvalid⟩
    rw [irqList_of_not_listValid s list hgone] at hperm ⊢
    exact hperm.eq_nil.symm

/-- The sort reads class and load, which no order changes. -/
theorem sortIrqs_reorder (s : State) (addr : ℕ → ℕ) (list : IrqList) (order : List ℕ) :
    (s.reorder list order).sortIrqs addr = s.sortIrqs addr := by
  funext a b
  simp only [sortIrqs, reorder, info_modifyIrqList]

/-- `sort_irq_list` sorts the IRQs of a list, in whatever order they are. -/
structure SortsRight (s : State) (addr : ℕ → ℕ) (list : IrqList) : Prop where
  perm : ∀ order : List ℕ, order.Perm (s.irqList list) →
    (((s.reorder list order).sortIrqList addr list).irqList list).Perm (s.irqList list)
  sorted : ∀ order : List ℕ, order.Perm (s.irqList list) →
    (((s.reorder list order).sortIrqList addr list).irqList list).Pairwise (InOrder s addr)
  unique : ∀ order : List ℕ, order.Perm (s.irqList list) →
    ((s.reorder list order).sortIrqList addr list).irqList list =
      (s.sortIrqList addr list).irqList list

theorem irqList_sortIrqList_reorder {s : State} (addr : ℕ → ℕ) {list : IrqList}
    {order : List ℕ} (hperm : order.Perm (s.irqList list)) :
    ((s.reorder list order).sortIrqList addr list).irqList list =
      gListSort (s.sortIrqs addr) order := by
  rw [irqList_sortIrqList, sortIrqs_reorder, irqList_reorder hperm]

theorem sorted_of_keysAgree {s : State} {addr : ℕ → ℕ} {list order : List ℕ}
    (hkeys : KeysAgree s addr list) (hperm : order.Perm list) :
    (gListSort (s.sortIrqs addr) order).Pairwise (InOrder s addr) :=
  pairwise_gListSort (fun _ _ _ hab hbc => hab.trans hbc) order fun _ ha _ hb =>
    hkeys.sortIrqs (hperm.mem_iff.mp ha) (hperm.mem_iff.mp hb)

/-- `sort_irq_list` sorts a list in all of its orders if and only if no IRQ of it that
goes before another by class and load is smaller in load or address.  The addresses are
those of different allocations. -/
theorem sortsRight_iff (s : State) (addr : ℕ ↪ ℕ) (list : IrqList) :
    SortsRight s addr list ↔ KeysAgree s addr (s.irqList list) := by
  constructor
  · intro h a ha b hb hahead
    have hsorted (order : List ℕ) (hperm : order.Perm (s.irqList list)) :
        (gListSort (s.sortIrqs addr) order).Pairwise (InOrder s addr) := by
      rw [← irqList_sortIrqList_reorder addr hperm]
      exact h.sorted order hperm
    have hdom := dominates_of_sorted hsorted ha hb hahead
    exact ⟨hdom.load, hdom.addr⟩
  · intro hkeys
    refine ⟨fun order hperm => ?_, fun order hperm => ?_, fun order hperm => ?_⟩
    · rw [irqList_sortIrqList_reorder addr hperm]
      exact (gListSort_perm _ order).trans hperm
    · rw [irqList_sortIrqList_reorder addr hperm]
      exact sorted_of_keysAgree hkeys hperm
    · rw [irqList_sortIrqList_reorder addr hperm, irqList_sortIrqList]
      have hsame : (gListSort (s.sortIrqs addr) order).Perm
          (gListSort (s.sortIrqs addr) (s.irqList list)) :=
        (gListSort_perm _ order).trans (hperm.trans (gListSort_perm _ _).symm)
      exact hsame.eq_of_pairwise (fun _ _ _ _ hab hba => hab.antisymm hba)
        (sorted_of_keysAgree hkeys hperm) (sorted_of_keysAgree hkeys (.refl _))

/-- An idle network card and a busy disk, waiting to be placed. -/
def cardAndDisk : State :=
  { irqs :=
      { interruptsDb :=
          [{ irq := 11, irqClass := .eth, load := 1 }, { irq := 12, irqClass := .scsi, load := 5 }]
        rebalanceIrqList := [0, 1] } }

/-- The disk is sorted before the card, as it has more load. -/
theorem not_sortsRight : ¬SortsRight cardAndDisk (Function.Embedding.refl ℕ) .rebalance := by
  intro h
  have hperm : [0, 1].Perm (cardAndDisk.irqList .rebalance) := .refl _
  have hsorted := h.sorted [0, 1] hperm
  rw [irqList_sortIrqList_reorder _ hperm, gListSort_pair (by decide)] at hsorted
  have hdisk : InOrder cardAndDisk (Function.Embedding.refl ℕ) 1 0 :=
    List.rel_of_pairwise_cons hsorted (by simp)
  exact absurd hdisk.irqClass (by decide)

end State

end CodeAnalyze.Irqbalance
