import CodeAnalyze.Irqbalance.Reach
import CodeAnalyze.Irqbalance.Sample

/-!
# Ownership of IRQs

Between the calls of `main` every IRQ that is to be balanced is on one list, and
`assigned_obj` says on which.
-/

namespace CodeAnalyze.Irqbalance

open Lib

variable {cfg : Config} {s : State}

/-- All objects of the tree. -/
def Topology.allRefs (t : Topology) : List ObjRef :=
  t.refs .node ++ t.refs .package ++ t.refs .cache ++ t.refs .cpu

theorem Topology.mem_allRefs {t : Topology} {r : ObjRef} : r ∈ t.allRefs ↔ t.Valid r := by
  simp only [allRefs, List.mem_append, mem_refs]
  constructor
  · rintro (((h | h) | h) | h) <;> exact h.2
  · intro h
    cases hty : r.objType <;> simp [h]

theorem Topology.nodup_allRefs (t : Topology) : t.allRefs.Nodup := by
  have hdisjoint : ∀ {a b : ObjType}, a ≠ b → (t.refs a).Disjoint (t.refs b) := by
    intro a b hab r ha hb
    exact hab ((mem_refs.mp ha).1.symm.trans (mem_refs.mp hb).1)
  unfold allRefs
  refine List.Nodup.append (List.Nodup.append (List.Nodup.append (t.nodup_refs _) (t.nodup_refs _)
    (hdisjoint (by decide))) (t.nodup_refs _) ?_) (t.nodup_refs _) ?_
  · simp [List.disjoint_append_left, hdisjoint]
  · simp [List.disjoint_append_left, hdisjoint]

namespace State

/-- `rebalance_irq_list` and the `interrupts` lists of all objects, one after another. -/
def irqLists (s : State) : List ℕ :=
  s.irqs.rebalanceIrqList ++ s.topo.allRefs.flatMap fun r => (s.obj r).interrupts

/-- The lists `irqLists` is made of. -/
def listHeads (s : State) : List IrqList := .rebalance :: s.topo.allRefs.map .ofObj

theorem irqLists_eq (s : State) : s.irqLists = s.listHeads.flatMap s.irqList := by
  simp [irqLists, listHeads, List.flatMap_map, irqList]

theorem nodup_listHeads (s : State) : s.listHeads.Nodup := by
  refine List.nodup_cons.mpr ⟨by simp, ?_⟩
  exact s.topo.nodup_allRefs.map fun _ _ h => by simpa using h

namespace Owned

variable {i : ℕ}

theorem mem_listHeads (h : s.Owned) {l : IrqList} (hi : s.home i = some l) : l ∈ s.listHeads := by
  cases l with
  | rebalance => exact List.mem_cons_self
  | ofObj d =>
      exact List.mem_cons_of_mem _
        (List.mem_map_of_mem (Topology.mem_allRefs.mpr (h.valid_of_home hi)))

/-- An IRQ that has a home is on the lists once, another is not on them. -/
theorem count_irqLists (h : s.Owned) (i : ℕ) :
    s.irqLists.count i = if (s.home i).isSome then 1 else 0 := by
  rw [irqLists_eq, h.agrees.count_flatMap s.nodup_listHeads]
  cases hhome : s.home i with
  | none => simp
  | some l => simp [h.mem_listHeads hhome]

theorem home_of_mem_irqLists (h : s.Owned) (hi : i ∈ s.irqLists) : ∃ l, s.home i = some l := by
  have hpos := List.count_pos_iff.mpr hi
  rw [h.count_irqLists] at hpos
  split at hpos
  · rename_i hsome
    exact Option.isSome_iff_exists.mp hsome
  · omega

end Owned

theorem home_isSome_iff {i : ℕ} (hi : i < s.dbSize) :
    (s.home i).isSome ↔ (s.info i).level ≠ .none := by
  unfold home
  split
  · rename_i h
    simp [h.2]
  · rename_i h
    simpa [hi] using h

end State

/-- The numbers of the two lists of the database are different, always. -/
theorem reachable_known_nodup (h : Ops.Reachable cfg s) : s.irqs.known.Nodup := by
  refine reachable_fixed (P := fun s => s.irqs.known.Nodup) ?_ ?_ h
  · exact fun s hfresh => hfresh.database.unique
  · intro s s' hfixed hknown
    unfold IrqDb.known at hknown ⊢
    rwa [List.map_append, State.fixed_irqNumbers hfixed, State.fixed_bannedNumbers hfixed,
      ← List.map_append]

/-- Ownership, in the terms of the source: an IRQ that is to be balanced is on the
lists once; it is on `rebalance_irq_list` where its `assigned_obj` is NULL and on the
list of its `assigned_obj` otherwise; no IRQ of level none and no banned IRQ is on any
list. -/
theorem irqs_owned (cfg : Config) (s : State) (h : Ops.Reachable cfg s) :
    (∀ i < s.dbSize, (s.info i).level ≠ .none →
      s.irqLists.count i = 1 ∧
      ((s.info i).assignedObj = none ↔ i ∈ s.irqs.rebalanceIrqList) ∧
      ∀ d, (s.info i).assignedObj = some d ↔ s.topo.Valid d ∧ i ∈ (s.obj d).interrupts) ∧
    (∀ i ∈ s.irqLists, i < s.dbSize ∧ (s.info i).level ≠ .none ∧
      ∀ banned ∈ s.irqs.bannedIrqs, banned.irq ≠ (s.info i).irq) := by
  have howned := reachable_owned h
  refine ⟨fun i hi hlevel => ⟨?_, ?_, fun d => ?_⟩, fun i hi => ?_⟩
  · rw [howned.count_irqLists, if_pos ((State.home_isSome_iff hi).mpr hlevel)]
  · rw [show i ∈ s.irqs.rebalanceIrqList ↔ s.home i = some .rebalance from
      howned.mem_iff (l := .rebalance)]
    simp only [State.home, hi, hlevel, ne_eq, not_false_eq_true, and_self, if_true,
      Option.some.injEq]
    exact ⟨fun hnone => by rw [hnone]; rfl, fun hhome => homeList_injective hhome⟩
  · rw [show i ∈ (s.obj d).interrupts ↔ s.home i = some (.ofObj d) from
      howned.mem_iff (l := .ofObj d)]
    constructor
    · intro hd
      have hhome := State.home_of_assigned hi hlevel hd
      exact ⟨howned.valid_of_home hhome, hhome⟩
    · exact fun hd => State.assigned_of_home hd.2
  · obtain ⟨l, hhome⟩ := howned.home_of_mem_irqLists hi
    have hlt := State.lt_dbSize_of_home hhome
    refine ⟨hlt, State.level_of_home hhome, fun banned hbanned heq => ?_⟩
    have hknown := reachable_known_nodup h
    rw [IrqDb.known, List.map_append] at hknown
    refine List.disjoint_of_nodup_append hknown ?_ (List.mem_map_of_mem hbanned)
    rw [heq, State.info_eq_getElem hlt]
    exact List.mem_map_of_mem (List.getElem_mem hlt)

/-- The first interrupt of the sample machine, once it is placed. -/
theorem irqs_owned_placed : Sample.placed.irqLists.count 0 = 1 :=
  ((irqs_owned Sample.config Sample.placed Sample.reachable_placed).1 0 (by decide +kernel)
    (by decide +kernel)).1

end CodeAnalyze.Irqbalance
