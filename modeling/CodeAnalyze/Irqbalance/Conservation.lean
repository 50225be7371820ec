import CodeAnalyze.Irqbalance.Ownership
import CodeAnalyze.Irqbalance.Shares
import CodeAnalyze.Lib.Sharing

/-!
# The counts of the branches

`get_parent_branch_irq_count_share` climbs from an object to its node and divides by the
number of children at every level.  Over all objects of a level the counts of the levels
above and of the level itself come together again, but for the remainders of the divisions.
-/

namespace CodeAnalyze.Irqbalance

open Lib

variable {s : State} {d : ObjRef} {ty above : ObjType}

/-! ## The levels of the tree -/

namespace WellFormed

variable {t : Topology} (h : WellFormed t)
include h

/-- The objects of a level are the children of those of the level above. -/
theorem flatMap_childRefs_perm (hty : above.below = some ty) :
    ((t.refs above).flatMap t.childRefs).Perm (t.refs ty) := by
  refine h.agrees.flatMap_perm (t.nodup_refs above) (t.nodup_refs ty) fun c => ?_
  rw [Topology.mem_refs]
  constructor
  · rintro ⟨hcty, hvalid⟩
    have hnode : c.objType ≠ .node := by
      rintro hnode
      rw [← hcty, hnode] at hty
      cases above <;> cases hty
    obtain ⟨p, hp, -⟩ := h.one_parent c hvalid hnode
    have hpty : p.objType = above := by
      have habove := ObjType.above_eq_some_iff.mpr (Topology.objType_of_mem_childRefs hp)
      rw [hcty, ObjType.above_eq_some_iff.mpr hty, Option.some.injEq] at habove
      exact habove.symm
    exact ⟨p, Topology.mem_refs.mpr ⟨hpty, valid_of_mem_childRefs hp⟩,
      (h.child_iff p c).mp hp⟩
  · rintro ⟨p, hp, hparent⟩
    have hchild := (h.child_iff p c).mpr hparent
    have hbelow := Topology.objType_of_mem_childRefs hchild
    rw [(Topology.mem_refs.mp hp).1, hty, Option.some.injEq] at hbelow
    exact ⟨hbelow.symm, h.child_valid p c hchild⟩

end WellFormed

/-- The objects that may have children. -/
theorem Topology.filter_allRefs (t : Topology) :
    (t.allRefs.filter fun d => d.objType ≠ .cpu) =
      t.refs .node ++ t.refs .package ++ t.refs .cache := by
  have hkept : ∀ {ty : ObjType}, ty ≠ .cpu →
      (t.refs ty).filter (fun d => d.objType ≠ .cpu) = t.refs ty := by
    intro ty hty
    refine List.filter_eq_self.mpr fun d hd => ?_
    simpa [(mem_refs.mp hd).1] using hty
  have hcpus : (t.refs .cpu).filter (fun d => d.objType ≠ .cpu) = [] :=
    List.filter_eq_nil_iff.mpr fun d hd => by simp [(mem_refs.mp hd).1]
  unfold allRefs
  rw [List.filter_append, List.filter_append, List.filter_append, hkept (by decide),
    hkept (by decide), hkept (by decide), hcpus, List.append_nil]

namespace State

/-- The IRQs assigned anywhere in the tree. -/
def assignedIrqs (s : State) : List ℕ := s.topo.allRefs.flatMap fun d => (s.obj d).interrupts

/-- What the assigned IRQs counted in this cycle. -/
def totalDelta (s : State) : ℕ := wordSum s.irqDelta s.assignedIrqs

/-- What the IRQs on `d` counted in this cycle. -/
def deltasOn (s : State) (d : ObjRef) : ℕ := wordSum s.irqDelta (s.obj d).interrupts

/-- What the IRQs on the objects of a level counted. -/
def deltasAt (s : State) (ty : ObjType) : ℕ := ((s.topo.refs ty).map s.deltasOn).sum

/-- What `get_parent_branch_irq_count_share` returns for the objects of a level. -/
def sharesAt (s : State) (ty : ObjType) : ℕ :=
  wordSum s.getParentBranchIrqCountShare (s.topo.refs ty)

/-- What the divisions below the objects of a level lose. -/
def lostBelow (s : State) (ty : ObjType) : ℕ :=
  ((s.topo.refs ty).map fun p =>
    (s.getParentBranchIrqCountShare p).toNat % (s.topo.childRefs p).length).sum

/-- The children of the objects of a level, but one for each. -/
def siblingsBelow (s : State) (ty : ObjType) : ℕ :=
  ((s.topo.refs ty).map fun p => (s.obj p).children.length - 1).sum

theorem totalDelta_eq (s : State) :
    s.totalDelta =
      s.deltasAt .node + s.deltasAt .package + s.deltasAt .cache + s.deltasAt .cpu := by
  have hsum : ∀ l : List ObjRef,
      wordSum s.irqDelta (l.flatMap fun d => (s.obj d).interrupts) = (l.map s.deltasOn).sum := by
    intro l
    induction l with
    | nil => rfl
    | cons d l ih =>
        rw [List.flatMap_cons, wordSum_append, ih]
        rfl
  unfold totalDelta assignedIrqs Topology.allRefs
  rw [hsum]
  simp only [List.map_append, List.sum_append, deltasAt]

/-! ## One level -/

/-- What a child inherits, as a number. -/
theorem toNat_inheritedCount (h : WellFormed s.topo) {p c : ObjRef} (hc : c ∈ s.topo.childRefs p) :
    (s.inheritedCount c).toNat =
      (s.getParentBranchIrqCountShare p).toNat / (s.topo.childRefs p).length := by
  have hlength : (s.obj p).children.length < 2 ^ 31 := h.children_length p
  have hcpu : p.objType ≠ .cpu := by
    intro hcpu
    have hbelow := Topology.objType_of_mem_childRefs hc
    rw [hcpu] at hbelow
    cases hbelow
  unfold inheritedCount
  rw [(h.child_iff p c).mp hc, WellFormed.length_childRefs hcpu]
  dsimp only
  rw [UInt64.toNat_div, UInt64.toNat_ofNat',
    Nat.mod_eq_of_lt (show (s.obj p).children.length < 2 ^ 64 by omega)]

/-- A node is charged with its own counts. -/
theorem sharesAt_node (hfits : s.deltasAt .node < 2 ^ 64) :
    s.sharesAt .node = s.deltasAt .node := by
  have hone : ∀ d ∈ s.topo.refs .node, (s.getParentBranchIrqCountShare d).toNat = s.deltasOn d := by
    intro d hd
    have hroot : s.topo.parentRef d = none := by
      unfold Topology.parentRef
      rw [(Topology.mem_refs.mp hd).1]
      rfl
    have hle : s.deltasOn d ≤ s.deltasAt .node :=
      List.single_le_sum (fun _ _ => Nat.zero_le _) _ (List.mem_map_of_mem hd)
    have hzero : s.inheritedCount d = 0 := by
      unfold inheritedCount
      rw [hroot]
    have hfit : (s.inheritedCount d).toNat + s.deltasOn d < 2 ^ 64 := by
      rw [hzero, UInt64.toNat_zero]
      omega
    have hshare := toNat_share hfit
    rw [hzero, UInt64.toNat_zero, Nat.zero_add] at hshare
    exact hshare
  unfold sharesAt wordSum deltasAt
  rw [List.map_congr_left hone]

/-- The objects of a level are charged with what those above are charged with and with
their own counts, but for the remainders. -/
theorem sharesAt_below (h : WellFormed s.topo) (above ty : ObjType) (hty : above.below = some ty)
    (hfits : s.sharesAt above + s.deltasAt ty < 2 ^ 64) :
    s.sharesAt ty + s.lostBelow above = s.sharesAt above + s.deltasAt ty := by
  have hperm := h.flatMap_childRefs_perm hty
  -- what the children would be charged with if nothing wrapped
  have hcharged := sum_handedDown s.topo.childRefs
    (fun p => (s.getParentBranchIrqCountShare p).toNat) s.deltasOn
    (fun c => (s.inheritedCount c).toNat + s.deltasOn c) (s.topo.refs above)
    fun p _ c hc => by rw [toNat_inheritedCount h hc]
  rw [(hperm.map _).sum_eq, (hperm.map _).sum_eq] at hcharged
  have hone : ∀ c ∈ s.topo.refs ty,
      (s.getParentBranchIrqCountShare c).toNat = (s.inheritedCount c).toNat + s.deltasOn c := by
    intro c hc
    have hle : (s.inheritedCount c).toNat + s.deltasOn c ≤
        ((s.topo.refs ty).map fun c => (s.inheritedCount c).toNat + s.deltasOn c).sum :=
      List.single_le_sum (fun _ _ => Nat.zero_le _) _ (List.mem_map_of_mem hc)
    have hlt : (s.inheritedCount c).toNat + s.deltasOn c < 2 ^ 64 := by
      change s.sharesAt above + s.deltasAt ty < 2 ^ 64 at hfits
      unfold sharesAt wordSum deltasAt at hfits
      omega
    exact toNat_share hlt
  have hshares : s.sharesAt ty =
      ((s.topo.refs ty).map fun c => (s.inheritedCount c).toNat + s.deltasOn c).sum := by
    unfold sharesAt wordSum
    rw [List.map_congr_left hone]
  rw [hshares]
  exact hcharged

/-- A division loses less than one count for each child. -/
theorem lostBelow_le (ty : ObjType)
    (hchildren : ∀ p, s.topo.Valid p → p.objType ≠ .cpu → s.topo.childRefs p ≠ [])
    (hty : ty ≠ .cpu) : s.lostBelow ty ≤ s.siblingsBelow ty := by
  have hle := sum_remainders_le s.topo.childRefs
    (fun p => (s.getParentBranchIrqCountShare p).toNat) (s.topo.refs ty) fun p hp => by
      obtain ⟨hpty, hvalid⟩ := Topology.mem_refs.mp hp
      exact hchildren p hvalid (hpty ▸ hty)
  refine hle.trans_eq ?_
  unfold siblingsBelow
  refine congrArg List.sum (List.map_congr_left fun p hp => ?_)
  rw [WellFormed.length_childRefs ((Topology.mem_refs.mp hp).1 ▸ hty)]

/-! ## All levels -/

/-- Over all CPUs the shares add up to the counts of all assigned IRQs, but for what the
divisions at the levels above lose. -/
theorem sharesAt_cpu (h : WellFormed s.topo) (hfits : s.totalDelta < 2 ^ 64) :
    s.sharesAt .cpu + (s.lostBelow .node + s.lostBelow .package + s.lostBelow .cache) =
      s.totalDelta := by
  have htotal := s.totalDelta_eq
  have hnode := sharesAt_node (s := s) (by omega)
  have hpackage := sharesAt_below h .node .package rfl (by omega)
  have hcache := sharesAt_below h .package .cache rfl (by omega)
  have hcpu := sharesAt_below h .cache .cpu rfl (by omega)
  omega

/-- The shares of the CPUs neither count an interrupt twice nor lose more than rounding. -/
theorem shares_of_cpus (h : WellFormed s.topo)
    (hchildren : ∀ p, s.topo.Valid p → p.objType ≠ .cpu → s.topo.childRefs p ≠ [])
    (hfits : s.totalDelta < 2 ^ 64) :
    ((s.topo.refs .cpu).map fun c => (s.getParentBranchIrqCountShare c).toNat).sum ≤ s.totalDelta ∧
      s.totalDelta ≤
        ((s.topo.refs .cpu).map fun c => (s.getParentBranchIrqCountShare c).toNat).sum +
          (((s.topo.allRefs.filter fun d => d.objType ≠ .cpu).map fun d =>
            (s.obj d).children.length - 1).sum) := by
  have hexact := sharesAt_cpu h hfits
  have hnode := lostBelow_le .node hchildren (by decide)
  have hpackage := lostBelow_le .package hchildren (by decide)
  have hcache := lostBelow_le .cache hchildren (by decide)
  have hsiblings : (((s.topo.allRefs.filter fun d => d.objType ≠ .cpu).map fun d =>
      (s.obj d).children.length - 1).sum) =
        s.siblingsBelow .node + s.siblingsBelow .package + s.siblingsBelow .cache := by
    rw [s.topo.filter_allRefs]
    simp only [List.map_append, List.sum_append, siblingsBelow]
  rw [hsiblings]
  change s.sharesAt .cpu ≤ _ ∧ _ ≤ s.sharesAt .cpu + _
  omega

end State

namespace Sample

theorem machine_wellFormed : WellFormed (buildTree config machine {} {}) := by
  refine buildTree_wellFormed_of_within (by decide +kernel) ?_ fun ty => ?_
  · unfold CachesWithinPackages
    decide +kernel
  · cases ty <;> decide +kernel

/-- An IRQ on the package has counted five times. -/
def countedPackage : State where
  topo := (buildTree config machine {} {}).modify ⟨.package, 0⟩ fun o => { o with interrupts := [0] }
  irqs := { interruptsDb := [{ irqCount := 12, lastIrqCount := 7 }] }

theorem countedPackage_wellFormed : WellFormed countedPackage.topo :=
  machine_wellFormed.of_fixed <|
    State.seen_modifyObj { topo := buildTree config machine {} {} } ⟨.package, 0⟩ fun _ => rfl

theorem countedPackage_children (p : ObjRef) (hp : countedPackage.topo.Valid p)
    (hty : p.objType ≠ .cpu) : countedPackage.topo.childRefs p ≠ [] := by
  have hall : ∀ p ∈ countedPackage.topo.allRefs, p.objType ≠ .cpu →
      countedPackage.topo.childRefs p ≠ [] := by
    decide +kernel
  exact hall p (Topology.mem_allRefs.mpr hp) hty

end Sample

/-- Each of the two CPUs below the package is charged with two of its five interrupts. -/
theorem shares_of_cpus_countedPackage :
    (((Sample.countedPackage.topo.refs .cpu).map fun c =>
      (Sample.countedPackage.getParentBranchIrqCountShare c).toNat).sum ≤
        Sample.countedPackage.totalDelta ∧
      Sample.countedPackage.totalDelta ≤
        ((Sample.countedPackage.topo.refs .cpu).map fun c =>
          (Sample.countedPackage.getParentBranchIrqCountShare c).toNat).sum +
          (((Sample.countedPackage.topo.allRefs.filter fun d => d.objType ≠ .cpu).map fun d =>
            (Sample.countedPackage.obj d).children.length - 1).sum)) ∧
      Sample.countedPackage.totalDelta = 5 :=
  ⟨State.shares_of_cpus Sample.countedPackage_wellFormed Sample.countedPackage_children
    (by decide +kernel), by decide +kernel⟩

end CodeAnalyze.Irqbalance
