import CodeAnalyze.Irqbalance.Loads
import CodeAnalyze.Irqbalance.Reach
import CodeAnalyze.Lib.Words

/-!
# The load of an object and the loads of its IRQs

`parse_proc_stat` shares the load of an object out among the IRQs on it, in proportion
to their counts.  The share is rounded down, and a load of zero is put up to one; what
`move_candidate_irqs` may take are the loads above one, and these never add up to more
than the load of the object.
-/

namespace CodeAnalyze.Irqbalance

open Lib Relation

variable {cfg : Config} {s s' : State} {d x : ObjRef} {ty : ObjType}

namespace State

/-! ## The share of an object -/

/-- What `get_parent_branch_irq_count_share` starts from: the part of the counts of the
branch above. -/
def inheritedCount (s : State) (d : ObjRef) : UInt64 :=
  match s.topo.parentRef d with
  | none => 0
  | some p => s.getParentBranchIrqCountShare p / UInt64.ofNat (s.obj p).children.length

theorem share_eq (s : State) (d : ObjRef) :
    s.getParentBranchIrqCountShare d =
      (s.obj d).interrupts.foldl s.accumulateIrqCount (s.inheritedCount d) := by
  unfold inheritedCount
  cases hp : s.topo.parentRef d with
  | none => exact share_root hp
  | some p => exact share_child hp

/-- The counts an object is charged with fit into 64 bits. -/
def CountsFit (s : State) : Prop :=
  ∀ d, (s.inheritedCount d).toNat + wordSum s.irqDelta (s.obj d).interrupts < 2 ^ 64

theorem toNat_share {d : ObjRef}
    (hfits : (s.inheritedCount d).toNat + wordSum s.irqDelta (s.obj d).interrupts < 2 ^ 64) :
    (s.getParentBranchIrqCountShare d).toNat =
      (s.inheritedCount d).toNat + wordSum s.irqDelta (s.obj d).interrupts := by
  rw [share_eq]
  exact toNat_foldl_words s.irqDelta _ _ hfits

section Congr

variable (hstill : s'.still = s.still) (hdelta : s'.irqDelta = s.irqDelta)
include hstill hdelta

theorem share_congr (d : ObjRef) :
    s'.getParentBranchIrqCountShare d = s.getParentBranchIrqCountShare d := by
  have hfixed := fixed_of_still hstill
  have haccumulate : s'.accumulateIrqCount = s.accumulateIrqCount := by
    funext acc i
    unfold accumulateIrqCount
    rw [hdelta]
  -- up the tree
  induction hn : 3 - d.objType.height using Nat.strong_induction_on generalizing d with
  | _ n ih =>
      have hlist := still_interrupts hstill d
      cases hp : s.topo.parentRef d with
      | none => rw [share_root hp, share_root ((fixed_parentRef hfixed d).trans hp), hlist, haccumulate]
      | some p =>
          have hheight := ObjType.height_above (Topology.objType_of_parentRef hp)
          have hle := p.objType.height_le
          rw [share_child hp, share_child ((fixed_parentRef hfixed d).trans hp), hlist, haccumulate,
            fixed_children hfixed, ih (3 - p.objType.height) (by omega) p rfl]

theorem inheritedCount_congr (d : ObjRef) : s'.inheritedCount d = s.inheritedCount d := by
  have hfixed := fixed_of_still hstill
  unfold inheritedCount
  rw [fixed_parentRef hfixed]
  cases s.topo.parentRef d with
  | none => rfl
  | some p =>
      dsimp only
      rw [share_congr hstill hdelta, fixed_children hfixed]

theorem CountsFit.of_still (h : s.CountsFit) : s'.CountsFit := by
  intro d
  have hlist := still_interrupts hstill d
  rw [inheritedCount_congr hstill hdelta, hlist, hdelta]
  exact h d

end Congr

/-! ## The slices -/

/-- The load of an IRQ that gets its share of the counts. -/
def sliceOf (s : State) (loadSlice : UInt64) (i : ℕ) : UInt64 :=
  if s.irqDelta i * loadSlice = 0 then 1 else s.irqDelta i * loadSlice

/-- Behind the end of the database there is the default entry. -/
theorem info_of_dbSize_le {i : ℕ} (hi : s.dbSize ≤ i) : s.info i = default := by
  unfold info
  rw [List.getElem?_eq_none hi]
  rfl

theorem irqDelta_assignLoadSlice (loadSlice : UInt64) (s : State) (i : ℕ) :
    (assignLoadSlice loadSlice s i).irqDelta = s.irqDelta := by
  funext j
  have hcount : ∀ field : IrqInfo → UInt64,
      (∀ (info : IrqInfo) l, field { info with load := l } = field info) →
        field ((assignLoadSlice loadSlice s i).info j) = field (s.info j) := by
    intro field hfield
    exact s.field_modifyInfo i j field fun info => hfield info _
  unfold irqDelta
  rw [hcount IrqInfo.irqCount fun _ _ => rfl, hcount IrqInfo.lastIrqCount fun _ _ => rfl]

theorem foldl_assignLoadSlice_load (loadSlice : UInt64) (list : List ℕ) (s : State) (i : ℕ) :
    ((list.foldl (assignLoadSlice loadSlice) s).info i).load =
      if i ∈ list ∧ i < s.dbSize then s.sliceOf loadSlice i else (s.info i).load := by
  induction list generalizing s with
  | nil => simp
  | cons j rest ih =>
      have hsize : (assignLoadSlice loadSlice s j).dbSize = s.dbSize := s.dbSize_modifyInfo _ _
      have hslice : (assignLoadSlice loadSlice s j).sliceOf loadSlice i = s.sliceOf loadSlice i := by
        unfold sliceOf
        rw [irqDelta_assignLoadSlice]
      rw [List.foldl_cons, ih, hsize, hslice]
      by_cases hrest : i ∈ rest ∧ i < s.dbSize
      · rw [if_pos hrest, if_pos ⟨List.mem_cons_of_mem _ hrest.1, hrest.2⟩]
      · rw [if_neg hrest]
        by_cases hij : i = j
        · subst hij
          by_cases hi : i < s.dbSize
          · rw [if_pos ⟨List.mem_cons_self, hi⟩]
            unfold assignLoadSlice
            rw [s.info_modifyInfo_self i _ hi]
            rfl
          · rw [if_neg fun hand => hi hand.2]
            rw [info_of_dbSize_le (by omega), info_of_dbSize_le (by omega)]
        · have hnot : ¬ (i ∈ j :: rest ∧ i < s.dbSize) := by
            rintro ⟨hmem, hi⟩
            rcases List.mem_cons.mp hmem with heq | hmem
            · exact hij heq
            · exact hrest ⟨hmem, hi⟩
          rw [if_neg hnot]
          exact congrArg IrqInfo.load (s.info_modifyInfo_of_ne _ hij)

/-! ## Loads that may be moved -/

/-- What `move_candidate_irqs` may take of the load of an IRQ: it passes over loads up
to one. -/
def movable (s : State) (i : ℕ) : ℕ :=
  if 1 < (s.info i).load then (s.info i).load.toNat else 0

/-- What may be taken from an object. -/
def movableOn (s : State) (d : ObjRef) : ℕ := ((s.obj d).interrupts.map s.movable).sum

/-- No more may be taken from the object than its load. -/
def Covered (s : State) (d : ObjRef) : Prop := s.movableOn d ≤ (s.obj d).load.toNat

theorem movableOn_congr (hlist : (s'.obj d).interrupts = (s.obj d).interrupts)
    (hload : ∀ i ∈ (s.obj d).interrupts, (s'.info i).load = (s.info i).load) :
    s'.movableOn d = s.movableOn d := by
  unfold movableOn
  rw [hlist]
  refine congrArg List.sum (List.map_congr_left fun i hi => ?_)
  unfold movable
  rw [hload i hi]

theorem covered_of_not_valid (h : ¬ s.topo.Valid d) : s.Covered d := by
  have hdefault : s.obj d = default := Topology.obj_of_not_valid h
  unfold Covered movableOn
  rw [hdefault]
  exact Nat.zero_le _

/-- A slice above one is the product it should be, or less if the product wraps. -/
theorem movable_sliceOf (loadSlice : UInt64) {i : ℕ}
    (h : (s'.info i).load = s.sliceOf loadSlice i ∨ (s'.info i).load = 0) :
    s'.movable i ≤ (s.irqDelta i).toNat * loadSlice.toNat := by
  unfold movable
  split
  · rename_i hmoves
    rcases h with hload | hload
    · rw [hload] at hmoves ⊢
      unfold sliceOf at hmoves ⊢
      split
      · rename_i hzero
        rw [if_pos hzero] at hmoves
        exact absurd hmoves (by decide)
      · rw [UInt64.toNat_mul]
        exact Nat.mod_le _ _
    · rw [hload] at hmoves
      exact absurd hmoves (by decide)
  · exact Nat.zero_le _

/-- The slices of an object do not add up to more than its load. -/
theorem slices_le (hcounts : s.CountsFit) (d : ObjRef) :
    wordSum s.irqDelta (s.obj d).interrupts * (s.loadSlice d).toNat ≤ (s.obj d).load.toNat := by
  have hshare := toNat_share (hcounts d)
  unfold loadSlice
  dsimp only
  by_cases hzero : s.getParentBranchIrqCountShare d = 0
  · have hnone : wordSum s.irqDelta (s.obj d).interrupts = 0 := by
      have htoNat := congrArg UInt64.toNat hzero
      rw [hshare] at htoNat
      change _ = 0 at htoNat
      omega
    rw [hnone, Nat.zero_mul]
    exact Nat.zero_le _
  · rw [if_pos hzero, UInt64.toNat_div]
    calc wordSum s.irqDelta (s.obj d).interrupts *
          ((s.obj d).load.toNat / (s.getParentBranchIrqCountShare d).toNat)
        ≤ (s.getParentBranchIrqCountShare d).toNat *
          ((s.obj d).load.toNat / (s.getParentBranchIrqCountShare d).toNat) :=
          Nat.mul_le_mul_right _ (by omega)
      _ ≤ (s.obj d).load.toNat := Nat.mul_div_le _ _

/-! ## One object -/

theorem irqDelta_foldl_assignLoadSlice (loadSlice : UInt64) (list : List ℕ) (s : State) :
    (list.foldl (assignLoadSlice loadSlice) s).irqDelta = s.irqDelta :=
  foldl_keeps irqDelta (fun i t => irqDelta_assignLoadSlice loadSlice t i) list s

theorem irqs_addLoadToParent (s : State) (d : ObjRef) : (s.addLoadToParent d).irqs = s.irqs := by
  unfold addLoadToParent
  split <;> rfl

theorem irqDelta_computeIrqBranchLoadShare (s : State) (d : ObjRef) :
    (s.computeIrqBranchLoadShare d).irqDelta = s.irqDelta := by
  have hparent : (s.computeIrqBranchLoadShare d).irqDelta =
      ((s.divideLoad d).assignLoadSlices d).irqDelta := by
    funext i
    unfold irqDelta info
    rw [show (s.computeIrqBranchLoadShare d).irqs = _ from irqs_addLoadToParent _ d]
  rw [hparent]
  exact irqDelta_foldl_assignLoadSlice _ _ _

/-- The IRQs of `d` get their slices; the others keep their loads. -/
theorem computeIrqBranchLoadShare_irqLoad (s : State) (d : ObjRef) (i : ℕ) :
    ((s.computeIrqBranchLoadShare d).info i).load =
      if i ∈ (s.obj d).interrupts ∧ i < s.dbSize then s.sliceOf ((s.divideLoad d).loadSlice d) i
      else (s.info i).load := by
  have hlist := still_interrupts (s.divideLoad_still d) d
  have hparent : (s.computeIrqBranchLoadShare d).info i =
      ((s.divideLoad d).assignLoadSlices d).info i := by
    unfold info
    rw [show (s.computeIrqBranchLoadShare d).irqs = _ from irqs_addLoadToParent _ d]
  rw [hparent]
  unfold assignLoadSlices
  rw [foldl_assignLoadSlice_load, hlist]
  rfl

theorem computeIrqBranchLoadShare_covered (hcounts : s.CountsFit) (d : ObjRef) :
    (s.computeIrqBranchLoadShare d).Covered d := by
  have hstill := s.divideLoad_still d
  have hdelta : (s.divideLoad d).irqDelta = s.irqDelta := rfl
  have hlist := still_interrupts hstill d
  have hlist' := still_interrupts (s.computeIrqBranchLoadShare_still d) d
  have hload : ((s.computeIrqBranchLoadShare d).obj d).load = ((s.divideLoad d).obj d).load := by
    rw [computeIrqBranchLoadShare_load, if_pos rfl, divideLoad_load, if_pos rfl]
  have hslice := slices_le (hcounts.of_still hstill hdelta) d
  unfold Covered movableOn
  rw [hlist', hload]
  calc ((s.obj d).interrupts.map (s.computeIrqBranchLoadShare d).movable).sum
      ≤ ((s.obj d).interrupts.map fun i =>
          (s.irqDelta i).toNat * ((s.divideLoad d).loadSlice d).toNat).sum := by
        refine List.sum_le_sum fun i hi => movable_sliceOf _ ?_
        rw [computeIrqBranchLoadShare_irqLoad]
        by_cases hlt : i < s.dbSize
        · exact .inl (if_pos ⟨hi, hlt⟩)
        · rw [if_neg fun hand => hlt hand.2, info_of_dbSize_le (Nat.le_of_not_lt hlt)]
          exact .inr rfl
    _ = wordSum s.irqDelta (s.obj d).interrupts * ((s.divideLoad d).loadSlice d).toNat :=
        List.sum_map_mul_right ..
    _ ≤ ((s.divideLoad d).obj d).load.toNat := by rwa [hdelta, hlist] at hslice

/-- An object other than `d` and its parent is covered as before: no IRQ is on two
objects. -/
theorem computeIrqBranchLoadShare_other (howned : s.Owned) (hne : x ≠ d)
    (hparent : s.topo.parentRef d ≠ some x) (hcovered : s.Covered x) :
    (s.computeIrqBranchLoadShare d).Covered x := by
  have hload : ((s.computeIrqBranchLoadShare d).obj x).load = (s.obj x).load := by
    rw [computeIrqBranchLoadShare_load, if_neg hne, if_neg fun hand => hparent hand.1]
  have hlist := still_interrupts (s.computeIrqBranchLoadShare_still d) x
  have hmovable : (s.computeIrqBranchLoadShare d).movableOn x = s.movableOn x := by
    refine movableOn_congr hlist fun i hi => ?_
    rw [computeIrqBranchLoadShare_irqLoad, if_neg]
    rintro ⟨hd, -⟩
    have hx : s.home i = some (.ofObj x) := howned.mem_iff.mp hi
    have hd : s.home i = some (.ofObj d) := howned.mem_iff.mp hd
    rw [hx, Option.some.injEq, IrqList.ofObj.injEq] at hd
    exact hne hd
  unfold Covered
  rw [hmovable, hload]
  exact hcovered

/-! ## All objects -/

/-- A pass covers the objects of its type, and leaves those below covered. -/
theorem pass_covered (ty : ObjType) (howned : s.Owned) (hcounts : s.CountsFit)
    (hbelow : ∀ x, x.objType.height < ty.height → s.Covered x) :
    (s.pass ty).CountsFit ∧ ∀ x, x.objType.height < ty.height + 1 → (s.pass ty).Covered x := by
  have hloop := foldl_rest (f := computeIrqBranchLoadShare)
    (fun rest t => t.still = s.still ∧ t.irqDelta = s.irqDelta ∧ (∀ d ∈ rest, d.objType = ty) ∧
      ∀ x, x.objType.height < ty.height ∨ x.objType = ty ∧ s.topo.Valid x ∧ x ∉ rest →
        t.Covered x)
    ?_ (l := s.topo.refs ty) (s := s) ⟨rfl, rfl, fun d hd => (Topology.mem_refs.mp hd).1, ?_⟩
  · obtain ⟨hstill, hdelta, -, hcovered⟩ := hloop
    refine ⟨hcounts.of_still hstill hdelta, fun x hx => ?_⟩
    by_cases hvalid : s.topo.Valid x
    · rcases Nat.lt_succ_iff_lt_or_eq.mp hx with hlt | heq
      · exact hcovered x (.inl hlt)
      · exact hcovered x (.inr ⟨ObjType.height_injective heq, hvalid, List.not_mem_nil⟩)
    · refine covered_of_not_valid ?_
      rwa [← fixed_valid (fixed_of_still hstill) x] at hvalid
  · rintro d rest t ⟨hstill, hdelta, htypes, hcovered⟩
    have hd := htypes d List.mem_cons_self
    refine ⟨(t.computeIrqBranchLoadShare_still d).trans hstill,
      (t.irqDelta_computeIrqBranchLoadShare d).trans hdelta,
      fun y hy => htypes y (List.mem_cons_of_mem _ hy), fun x hx => ?_⟩
    by_cases hxd : x = d
    · subst hxd
      exact computeIrqBranchLoadShare_covered (hcounts.of_still hstill hdelta) x
    · refine computeIrqBranchLoadShare_other (howned.of_still hstill) hxd ?_ (hcovered x ?_)
      · -- the parent of `d` has its turn in a later pass
        intro hparent
        have hheight := ObjType.height_above (Topology.objType_of_parentRef hparent)
        rw [hd] at hheight
        rcases hx with hlt | ⟨heq, -, -⟩
        · omega
        · rw [heq] at hheight
          omega
      · rcases hx with hlt | ⟨heq, hvalid, hnot⟩
        · exact .inl hlt
        · refine .inr ⟨heq, hvalid, fun hmem => ?_⟩
          rcases List.mem_cons.mp hmem with heq | hmem
          · exact hxd heq
          · exact hnot hmem
  · rintro x (hlt | ⟨heq, hvalid, hnot⟩)
    · exact hbelow x hlt
    · exact absurd (Topology.mem_refs.mpr ⟨heq, hvalid⟩) hnot

/-- When all passes are done every object is covered. -/
theorem propagateLoads_covered (howned : s.Owned) (hcounts : s.CountsFit) (x : ObjRef) :
    s.propagateLoads.Covered x := by
  rw [propagateLoads_eq]
  generalize hs₀ : ({ s with topo := (s.topo.refs .cache).foldl Topology.resetLoad s.topo } : State)
    = s₀
  have hstill₀ : s₀.still = s.still := by
    rw [← hs₀]
    exact still_of_topo
      (foldl_keeps (fun t => Topology.map TopoObj.still t) (fun d t => t.resetLoad_still d) _ _)
  have hdelta₀ : s₀.irqDelta = s.irqDelta := by
    rw [← hs₀]
    rfl
  have howned₀ := howned.of_still hstill₀
  have howned₁ := howned₀.of_still (pass_still .cpu s₀)
  have howned₂ := howned₁.of_still (pass_still .cache (s₀.pass .cpu))
  have howned₃ := howned₂.of_still (pass_still .package ((s₀.pass .cpu).pass .cache))
  obtain ⟨hcounts₁, hcpus⟩ := pass_covered .cpu howned₀ (hcounts.of_still hstill₀ hdelta₀)
    fun x hx => absurd hx (Nat.not_lt_zero _)
  obtain ⟨hcounts₂, hcaches⟩ := pass_covered .cache howned₁ hcounts₁ hcpus
  obtain ⟨hcounts₃, hpackages⟩ := pass_covered .package howned₂ hcounts₂ hcaches
  obtain ⟨-, hnodes⟩ := pass_covered .node howned₃ hcounts₃ hpackages
  exact hnodes x (Nat.lt_succ_of_le x.objType.height_le)

/-- No IRQ on an object has a load. -/
def Unloaded (s : State) : Prop := ∀ d, ∀ i ∈ (s.obj d).interrupts, (s.info i).load = 0

theorem Unloaded.covered (h : s.Unloaded) (d : ObjRef) : s.Covered d := by
  have hzero : s.movableOn d = 0 := by
    unfold movableOn
    rw [List.sum_eq_zero_iff]
    intro n hn
    obtain ⟨i, hi, rfl⟩ := List.mem_map.mp hn
    unfold movable
    rw [h d i hi]
    rfl
  unfold Covered
  rw [hzero]
  exact Nat.zero_le _

/-- After `parse_proc_stat` every object is covered, also where it gives up before it
has shared out the loads. -/
theorem parseProcStat_covered (cfg : Config) (howned : s.Owned) (hcounts : s.CountsFit)
    (hunloaded : s.Unloaded) (file : Option Bytes) (d : ObjRef) :
    (s.parseProcStat cfg file).Covered d := by
  cases file with
  | none => exact hunloaded.covered d
  | some file =>
      have hstill := still_of_topo (readCpuLoads_still cfg s.cycleCount s.topo 0 (statBuffers file))
      unfold parseProcStat
      dsimp only
      split
      · refine Unloaded.covered (fun x i hi => ?_) d
        rw [still_interrupts hstill] at hi
        exact hunloaded x i hi
      · exact propagateLoads_covered (howned.of_still hstill) (hcounts.of_still hstill rfl) d

/-! ## Objects that hold IRQs -/

/-- `d` is reached from a node through the children. -/
def RootedAt (s : State) (d : ObjRef) : Prop :=
  ∃ n ∈ s.topo.refs .node, ReflTransGen (fun p c => c ∈ s.topo.childRefs p) n d

/-- Every object with an IRQ is reached from a node. -/
def Rooted (s : State) : Prop := ∀ d, (s.obj d).interrupts ≠ [] → s.RootedAt d

theorem rootedAt_of_fixed (hfixed : s'.fixed = s.fixed) : s'.RootedAt d ↔ s.RootedAt d := by
  unfold RootedAt
  simp only [fixed_refs hfixed, fixed_childRefs hfixed]

theorem Rooted.of_same (h : s.Rooted) (hfixed : s'.fixed = s.fixed)
    (hlists : ∀ l, (s'.irqList l).Perm (s.irqList l)) : s'.Rooted := by
  intro d hd
  rw [rootedAt_of_fixed hfixed]
  refine h d fun hnil => hd ?_
  exact List.Perm.eq_nil (hnil ▸ hlists (.ofObj d))

theorem Rooted.reassign (h : s.Rooted) (howned : s.Owned) {i : ℕ} {src : IrqList}
    {a : Option ObjRef} (hi : s.home i = some src) (ha : s.ListValid (homeList a))
    (hne : homeList a ≠ src) (hrooted : ∀ d, a = some d → s.RootedAt d) :
    (s.reassign src a i).Rooted := by
  intro d hd
  rw [rootedAt_of_fixed (s.reassign_fixed src a i)]
  by_cases had : a = some d
  · exact hrooted d had
  · refine h d fun hnil => hd ?_
    have hnot : IrqList.ofObj d ≠ homeList a := fun heq => had (homeList_injective heq.symm)
    have hlist : (s.reassign src a i).irqList (.ofObj d) = [] := by
      rw [howned.irqList_reassign hi ha hne, if_neg hnot,
        show s.irqList (.ofObj d) = [] from hnil]
      split <;> rfl
    exact hlist

theorem Rooted.move (h : s.Rooted) (howned : s.Owned) (hmv : Move cfg s s') : s'.Rooted := by
  have hfixed := hmv.fixed_eq
  cases hmv with
  | count hstill => exact h.of_same hfixed fun l => .of_eq (still_irqList hstill l)
  | sort addr l => exact h.of_same hfixed (s.sortIrqList_perm addr l)
  | take hi => exact h.reassign howned hi trivial (by simp [homeList]) (by simp)
  | @put i src d hi hvalid hbelow _ =>
      refine h.reassign howned hi hvalid hbelow.ne fun c hc => ?_
      cases hc
      cases src with
      | rebalance => exact ⟨d, Topology.mem_refs.mpr ⟨hbelow, hvalid⟩, .refl⟩
      | ofObj p =>
          have hp : i ∈ (s.obj p).interrupts := howned.mem_iff (l := .ofObj p).mpr hi
          obtain ⟨n, hn, hpath⟩ := h p (List.ne_nil_of_mem hp)
          exact ⟨n, hn, hpath.tail hbelow⟩

theorem Rooted.modifyObj (h : s.Rooted) (d : ObjRef) {f : TopoObj → TopoObj}
    (hfixed : (s.modifyObj d f).fixed = s.fixed) (hf : ∀ o, (f o).interrupts = o.interrupts) :
    (s.modifyObj d f).Rooted :=
  h.of_same hfixed fun l => .of_eq (s.irqList_modifyObj d l hf)

theorem Rooted.turns (h : s.Rooted) (howned : s.Owned) (hrun : Turns cfg s s') : s'.Rooted :=
  Turns.keeps_owned (fun _ _ ht hrooted hmv => hrooted.move ht hmv)
    (fun t d ht => ht.modifyObj d (t.sleep_fixed d) fun _ => rfl)
    (fun t d ht => ht.modifyObj d (t.clearPowersaveMode_fixed d) fun _ => rfl)
    (fun t i _ _ ht _ _ =>
      ht.of_same (t.writeAffinity_fixed i _) fun l => .of_eq (t.irqList_modifyInfo i _ l))
    howned h hrun

theorem Fresh.rooted (h : s.Fresh cfg) : s.Rooted :=
  fun d hd => absurd (h.tree.idle d).interrupts hd

end State

theorem reachable_rooted (h : Ops.Reachable cfg s) : s.Rooted :=
  (reachable_induct (fun _ sysfs stack hblank _ => (State.fresh_rebuild cfg sysfs stack hblank).rooted)
    (fun _ _ howned hrooted hturns => hrooted.turns howned hturns) h).2

namespace State

/-! ## `clear_work_stats` -/

theorem clearIrqStats_load (s : State) (i j : ℕ) :
    ((s.clearIrqStats i).info j).load = 0 ∨ j ≠ i ∧ (s.clearIrqStats i).info j = s.info j := by
  by_cases hij : j = i
  · subst hij
    by_cases hj : j < s.dbSize
    · refine .inl ?_
      unfold clearIrqStats
      rw [s.info_modifyInfo_self j _ hj]
    · refine .inl ?_
      have hsize : (s.clearIrqStats j).dbSize = s.dbSize := s.dbSize_modifyInfo _ _
      rw [info_of_dbSize_le (by omega)]
      rfl
  · exact .inr ⟨hij, s.info_modifyInfo_of_ne _ hij⟩

theorem clearIrqStats_zero {i j : ℕ} (h : (s.info j).load = 0) :
    ((s.clearIrqStats i).info j).load = 0 := by
  rcases s.clearIrqStats_load i j with hzero | ⟨-, heq⟩
  · exact hzero
  · rw [heq]
    exact h

theorem foldl_clearIrqStats_load (list : List ℕ) (s : State) {j : ℕ}
    (h : j ∈ list ∨ (s.info j).load = 0) : ((list.foldl clearIrqStats s).info j).load = 0 := by
  induction list generalizing s with
  | nil => exact h.resolve_left List.not_mem_nil
  | cons i rest ih =>
      refine ih (s.clearIrqStats i) ?_
      rcases h with hmem | hzero
      · rcases List.mem_cons.mp hmem with rfl | hmem
        · rcases s.clearIrqStats_load j j with hzero | ⟨hne, -⟩
          · exact .inr hzero
          · exact absurd rfl hne
        · exact .inl hmem
      · exact .inr (clearIrqStats_zero hzero)

/-- What is cleared stays cleared. -/
theorem clearObjStats_zero (d : ObjRef) {s : State} {j : ℕ} (h : (s.info j).load = 0) :
    ((s.clearObjStats d).info j).load = 0 := by
  induction hn : d.objType.height using Nat.strong_induction_on generalizing d s with
  | _ n ih =>
      rw [clearObjStats_eq]
      refine foldl_clearIrqStats_load _ _ (.inr ?_)
      refine foldl_invariant (fun t : State => (t.info j).load = 0) (fun c hc t ht => ?_) h
      have hlt := ObjType.height_below (Topology.objType_of_mem_childRefs hc)
      exact ih c.objType.height (by omega) c ht rfl

theorem foldl_clearObjStats_zero (list : List ObjRef) {s : State} {j : ℕ}
    (h : (s.info j).load = 0) : ((list.foldl clearObjStats s).info j).load = 0 :=
  foldl_invariant (fun t : State => (t.info j).load = 0) (fun d _ _ ht => clearObjStats_zero d ht) h

/-- A walk that comes to an object does what a call for the object does. -/
theorem foldl_clearObjStats_mem {list : List ObjRef} (hx : x ∈ list) {j : ℕ}
    (h : ∀ t : State, t.still = s.still → ((t.clearObjStats x).info j).load = 0) :
    ((list.foldl clearObjStats s).info j).load = 0 := by
  obtain ⟨before, after, rfl⟩ := List.append_of_mem hx
  rw [List.foldl_append, List.foldl_cons]
  refine foldl_clearObjStats_zero after (h _ ?_)
  exact foldl_keeps still (fun d t => t.clearObjStats_still d) before s

/-- The IRQs of every object below `d` are cleared. -/
theorem clearObjStats_below {j : ℕ} (hj : j ∈ (s.obj x).interrupts)
    (hpath : ReflTransGen (fun p c => c ∈ s.topo.childRefs p) d x) (t : State)
    (ht : t.still = s.still) : ((t.clearObjStats d).info j).load = 0 := by
  induction hpath using ReflTransGen.head_induction_on generalizing t with
  | refl =>
      have hstill : ((t.topo.childRefs x).foldl clearObjStats t).still = s.still :=
        (foldl_keeps still (fun d t => t.clearObjStats_still d) _ t).trans ht
      have hlist := still_interrupts hstill x
      rw [clearObjStats_eq]
      refine foldl_clearIrqStats_load _ _ (.inl ?_)
      rw [hlist, mem_forEachIrq_of_ne_nil _ (List.ne_nil_of_mem hj)]
      exact hj
  | head hc _ ih =>
      rw [clearObjStats_eq]
      refine foldl_clearIrqStats_load _ _ (.inr ?_)
      rw [fixed_childRefs (fixed_of_still ht)]
      exact foldl_clearObjStats_mem hc fun u hu => ih u (hu.trans ht)

/-- `clear_work_stats` comes to every object that holds an IRQ. -/
theorem clearWorkStats_unloaded (h : s.Rooted) : s.clearWorkStats.Unloaded := by
  intro d j hj
  rw [still_interrupts s.clearWorkStats_still] at hj
  obtain ⟨n, hn, hpath⟩ := h d (List.ne_nil_of_mem hj)
  exact foldl_clearObjStats_mem hn fun t ht => clearObjStats_below hj hpath t ht

/-! ## `parse_proc_interrupts` -/

theorem parseProcInterrupts_load (s : State) (file : Option Bytes) (i : ℕ) :
    ((s.parseProcInterrupts file).info i).load = (s.info i).load := by
  refine parseProcInterrupts_keeps (fun t => (t.info i).load) (fun _ _ _ _ => rfl)
    (fun t ref count => ?_) s file
  cases ref with
  | db place => exact t.field_modifyInfo place i IrqInfo.load (by intro o; rfl)
  | banned place => rfl

theorem Unloaded.parseProcInterrupts (h : s.Unloaded) (file : Option Bytes) :
    (s.parseProcInterrupts file).Unloaded := by
  intro d i hi
  rw [still_interrupts (s.parseProcInterrupts_still file)] at hi
  rw [parseProcInterrupts_load]
  exact h d i hi

end State

end CodeAnalyze.Irqbalance
