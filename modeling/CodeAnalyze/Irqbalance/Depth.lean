import CodeAnalyze.Irqbalance.Ownership
import CodeAnalyze.Irqbalance.Selection
import CodeAnalyze.Lib.Words

/-!
# How deep the placement goes

`calculate_placement` puts the waiting IRQs on NUMA nodes and then passes over the nodes,
the packages and the cache domains; each pass takes the IRQs that were moved one type
further down.  An IRQ stops where its level says, or above where no child is eligible.

A pass has done with an IRQ once it has come to it: what the later passes put on objects
they put on objects of smaller height.  So it is enough to know of each object that a pass
has been over that the IRQs left there have nowhere to go.
-/

namespace CodeAnalyze.Irqbalance

open Lib Relation

/-- The type of the object on which an IRQ of this level is to end. -/
def BalanceLevel.objType : BalanceLevel → ObjType
  | .none => .node
  | .package => .package
  | .cache => .cache
  | .core => .cpu

/-- How far above the CPUs a list is. -/
def IrqList.height : IrqList → ℕ
  | .rebalance => ObjType.node.height + 1
  | .ofObj d => d.objType.height

theorem staysAt_iff {d : ObjRef} {level : BalanceLevel} :
    State.staysAt d level = true ↔ d.objType = level.objType := by
  unfold State.staysAt
  cases d.objType <;> cases level <;> decide

namespace State

variable {cfg : Config} {s t t' : State} {i j : ℕ} {d : ObjRef}

/-! ## What decides stays the same -/

theorem Move.powersaveMode_eq (h : Move cfg s t) (d : ObjRef) :
    (t.obj d).powersaveMode = (s.obj d).powersaveMode := by
  cases h with
  | count hstill => exact still_powersaveMode hstill d
  | sort addr l => exact objField_modifyIrqList s d l _ TopoObj.powersaveMode fun _ _ => rfl
  | take hi => exact objField_migrateIrq TopoObj.powersaveMode (fun _ _ => rfl) s _ _ _ d
  | put hi hvalid hbelow hchosen =>
      exact objField_migrateIrq TopoObj.powersaveMode (fun _ _ => rfl) s _ _ _ d

theorem Moves.powersaveMode_eq (h : Moves cfg s t) (d : ObjRef) :
    (t.obj d).powersaveMode = (s.obj d).powersaveMode := by
  induction h with
  | refl => rfl
  | tail _ hmv ih => exact (hmv.powersaveMode_eq d).trans ih

/-- No move makes an object eligible, or stops it from being so. -/
theorem Moves.eligible_iff (h : Moves cfg s t) (i : ℕ) (d : ObjRef) :
    Eligible cfg t (t.info i) d ↔ Eligible cfg s (s.info i) d := by
  have hfixed := h.turns.fixed_eq
  rw [← skipsObject_eq_false_iff, ← skipsObject_eq_false_iff]
  unfold skipsObject
  dsimp only
  rw [h.powersaveMode_eq, fixed_mask hfixed, fixed_number hfixed, fixed_unbannedCpus hfixed,
    fixed_hintPolicy hfixed, fixed_affinityHint hfixed]

/-! ## Loads -/

/-- What an IRQ may yet add to the load of `d`: its own load, and one where `d` may be its
node.  The IRQs that come are those that wait and those that carry `moved`, from above. -/
def coming (s : State) (d : ObjRef) (i : ℕ) : ℕ :=
  match s.home i with
  | none => 0
  | some l =>
    if d.objType.height < l.height ∧ (l = .rebalance ∨ (s.info i).moved = true) then
      (s.info i).load.toNat + if d.objType = .node then 1 else 0
    else 0

/-- No sum of loads comes up to the greatest load there is. -/
def LoadsFit (s : State) : Prop :=
  ∀ d, s.topo.Valid d →
    (s.obj d).load.toNat + ((List.range s.dbSize).map (s.coming d)).sum < ulongMax.toNat

theorem LoadsFit.ne_ulongMax (h : s.LoadsFit) (hd : s.topo.Valid d) :
    (s.obj d).load ≠ ulongMax := by
  intro heq
  have hfits := h d hd
  rw [heq] at hfits
  omega

theorem Below.height_lt {src : IrqList} (h : s.Below src d) : d.objType.height < src.height := by
  cases src with
  | rebalance =>
      rw [show d.objType = .node from h]
      exact Nat.lt_succ_self _
  | ofObj p =>
      have hheight := ObjType.height_below (Topology.objType_of_mem_childRefs h)
      show d.objType.height < p.objType.height
      omega

section Assign

variable {src : IrqList} {c : ObjRef} {load : UInt64}
variable (h : s.Owned) (hi : s.home i = some src)
include h hi

theorem info_assignIrq (j : ℕ) : (s.assignIrq src c i load).info j =
    if j = i then { s.info j with moved := true, assignedObj := some c } else s.info j :=
  h.info_reassign hi j

theorem home_assignIrq (j : ℕ) : (s.assignIrq src c i load).home j =
    if j = i then some (.ofObj c) else s.home j :=
  h.home_reassign hi j

omit h hi in
theorem load_assignIrq (d : ObjRef) : ((s.assignIrq src c i load).obj d).load =
    if d = c ∧ s.topo.Valid c then (s.obj d).load + load else (s.obj d).load := by
  have hkeep (r : ObjRef) : ((s.reassign src (some c) i).obj r).load = (s.obj r).load :=
    objField_migrateIrq TopoObj.load (fun _ _ => rfl) s _ _ _ r
  have hvalid : (s.reassign src (some c) i).topo.Valid c ↔ s.topo.Valid c :=
    fixed_valid (s.reassign_fixed src (some c) i) c
  have hobj := (s.reassign src (some c) i).topo.obj_modify c d fun o =>
    { o with load := o.load + load }
  rw [show (s.assignIrq src c i load).obj d = _ from hobj]
  simp only [hvalid]
  split
  · exact congrArg (· + load) (hkeep d)
  · exact hkeep d

omit h hi in
theorem fixed_assignIrq : (s.assignIrq src c i load).fixed = s.fixed :=
  (seen_modifyObj _ c (by intro o; rfl)).trans (s.reassign_fixed src (some c) i)

/-- The IRQ that is put on `c` no longer comes to `c`. -/
theorem coming_assignIrq_self (load : UInt64) : (s.assignIrq src c i load).coming c i = 0 := by
  unfold coming
  rw [home_assignIrq h hi, if_pos rfl]
  exact if_neg fun hcomes => Nat.lt_irrefl _ hcomes.1

omit h in
theorem coming_of_goes (hheight : d.objType.height < src.height)
    (hgoes : src = .rebalance ∨ (s.info i).moved = true) :
    s.coming d i = (s.info i).load.toNat + if d.objType = .node then 1 else 0 := by
  unfold coming
  rw [hi]
  exact if_pos ⟨hheight, hgoes⟩

/-- Nothing comes to an object that did not come before. -/
theorem coming_assignIrq_le (hbelow : s.Below src c)
    (hgoes : src = .rebalance ∨ (s.info i).moved = true) (d : ObjRef) (j : ℕ) :
    (s.assignIrq src c i load).coming d j ≤ s.coming d j := by
  by_cases hj : j = i
  · subst hj
    by_cases hcomes : d.objType.height < c.objType.height
    · rw [coming_of_goes hi (Nat.lt_trans hcomes hbelow.height_lt) hgoes]
      unfold coming
      rw [home_assignIrq h hi, info_assignIrq h hi, if_pos rfl, if_pos rfl]
      dsimp only
      split
      · exact Nat.le_refl _
      · exact Nat.zero_le _
    · unfold coming
      rw [home_assignIrq h hi, if_pos rfl]
      exact Nat.le_trans (Nat.le_of_eq (if_neg fun hcomes' => hcomes hcomes'.1)) (Nat.zero_le _)
  · unfold coming
    rw [home_assignIrq h hi, info_assignIrq h hi, if_neg hj, if_neg hj]

/-- The loads fit after an IRQ has come to where it could come. -/
theorem LoadsFit.assignIrq (hloads : s.LoadsFit) (hbelow : s.Below src c)
    (hgoes : src = .rebalance ∨ (s.info i).moved = true)
    (hload : load.toNat ≤ (s.info i).load.toNat + if c.objType = .node then 1 else 0) :
    (s.assignIrq src c i load).LoadsFit := by
  intro d hd
  have hfixed : (s.assignIrq src c i load).fixed = s.fixed := fixed_assignIrq
  have hvalid : s.topo.Valid d := (fixed_valid hfixed d).mp hd
  have hfits := hloads d hvalid
  rw [fixed_dbSize hfixed, load_assignIrq]
  by_cases hdc : d = c
  · subst hdc
    rw [if_pos ⟨rfl, hvalid⟩]
    have hrange : i ∈ List.range s.dbSize := List.mem_range.mpr (lt_dbSize_of_home hi)
    have hsum := sum_map_add_le hrange (coming_assignIrq_self h hi load)
      (coming_assignIrq_le h hi hbelow hgoes d)
    rw [coming_of_goes hi hbelow.height_lt hgoes] at hsum
    have hmax : ulongMax.toNat < 2 ^ 64 := UInt64.toNat_lt _
    have hadd : ((s.obj d).load + load).toNat = (s.obj d).load.toNat + load.toNat := by
      apply toNat_add_of_lt
      omega
    rw [hadd]
    omega
  · rw [if_neg fun heq => hdc heq.1]
    have hsum : ((List.range s.dbSize).map ((s.assignIrq src c i load).coming d)).sum ≤
        ((List.range s.dbSize).map (s.coming d)).sum :=
      List.sum_le_sum fun j _ => coming_assignIrq_le h hi hbelow hgoes d j
    omega

end Assign

/-! ## One IRQ -/

/-- Where the loads fit, the walk over candidates ends with one of the eligible, if there
are any. -/
theorem selectObject_decides (cfg : Config) (info : IrqInfo) {candidates : List ObjRef}
    (hloads : ∀ d ∈ candidates, (s.obj d).load ≠ ulongMax) :
    s.selectObject cfg info candidates = some none ∧
        (∀ d ∈ candidates, ¬Eligible cfg s info d) ∨
      ∃ d ∈ candidates, s.selectObject cfg info candidates = some (some d) ∧
        Eligible cfg s info d := by
  cases heligible : eligibleOf cfg s info candidates with
  | nil =>
      refine .inl ⟨selectObject_of_none heligible, fun d hd helig => ?_⟩
      have hin := mem_eligibleOf.mpr ⟨hd, helig⟩
      rw [heligible] at hin
      cases hin
  | cons d more =>
      have hd : d ∈ candidates ∧ Eligible cfg s info d :=
        mem_eligibleOf.mp (heligible ▸ List.mem_cons_self)
      obtain ⟨place, first, rest, hscan, hselect⟩ :=
        selectObject_scanned heligible (hloads d hd.1)
      obtain ⟨chosen, -, hchosen⟩ := hscan.chosen
      rw [hchosen] at hselect
      obtain ⟨hin, hskips⟩ := selectObject_spec hselect
      exact .inr ⟨chosen, hin, hselect, skipsObject_eq_false_iff.mp hskips⟩

/-- A call of `calculate_placement` that started in `s` has come to `t`. -/
structure Underway (cfg : Config) (s t : State) : Prop where
  moves : Moves cfg s t
  owned : t.Owned
  loads : t.LoadsFit
  /-- An IRQ that is neither waiting nor carries `moved` is not touched. -/
  untouched : ∀ i ∉ s.irqs.rebalanceIrqList, (s.info i).moved = false → t.info i = s.info i

theorem Underway.fixed_eq (h : Underway cfg s t) : t.fixed = s.fixed := h.moves.turns.fixed_eq

/-- An IRQ that goes from a list to `c` was waiting at the start, or carried `moved`. -/
theorem Underway.assign {src : IrqList} {c : ObjRef} {load : UInt64} (hs : s.Owned)
    (h : Underway cfg s t) (hi : t.home i = some src) (hc : t.topo.Valid c)
    (hbelow : t.Below src c) (hchosen : t.Chosen cfg i c)
    (hgoes : src = .rebalance ∨ (t.info i).moved = true)
    (hload : load.toNat ≤ (t.info i).load.toNat + if c.objType = .node then 1 else 0) :
    Underway cfg s (t.assignIrq src c i load) where
  moves := h.moves.trans (assignIrq_moves h.owned hi hc hbelow hchosen load).1
  owned := h.owned.moves (assignIrq_moves h.owned hi hc hbelow hchosen load).1
  loads := h.loads.assignIrq h.owned hi hbelow hgoes hload
  untouched := by
    intro j hj hmoved
    have hsame := h.untouched j hj hmoved
    rw [info_assignIrq h.owned hi]
    split
    · rename_i heq
      subst heq
      rcases hgoes with rfl | hgoes
      · -- a waiting IRQ was waiting from the start
        have hhome : s.home j = some .rebalance := by
          rw [← hi]
          unfold home
          rw [hsame, fixed_dbSize h.fixed_eq]
        exact absurd (hs.mem_iff.mpr hhome) hj
      · rw [hsame, hmoved] at hgoes
        cases hgoes
    · exact hsame

/-- `i` cannot go on from `d`. -/
def Stuck (cfg : Config) (s : State) (i : ℕ) (d : ObjRef) : Prop :=
  ∀ c ∈ s.topo.childRefs d, ¬Eligible cfg s (s.info i) c

/-- What `find_best_object_for_irq` makes of an IRQ on `d`: it stays, or it goes to a
child. -/
inductive Descent (cfg : Config) (s t : State) (i : ℕ) (d : ObjRef) : State → Prop
  | stays : ((t.info i).moved = true → d.objType ≠ (s.info i).level.objType → Stuck cfg s i d) →
      Descent cfg s t i d t
  | goes {t' : State} {c : ObjRef} : (t.info i).moved = true →
      d.objType ≠ (s.info i).level.objType → c ∈ s.topo.childRefs d →
      t'.home i = some (.ofObj c) → (t'.info i).moved = true →
      (∀ j, j ≠ i → t'.info j = t.info j ∧ t'.home j = t.home j) → Descent cfg s t i d t'

theorem findBestObjectForIrq_descent (hs : s.Owned) (h : Underway cfg s t)
    (hi : t.home i = some (.ofObj d)) :
    ∃ t', findBestObjectForIrq cfg d t i = some t' ∧ Underway cfg s t' ∧
      Descent cfg s t i d t' := by
  have hlevel : (t.info i).level = (s.info i).level := fixed_level h.fixed_eq i
  have hchildren : t.topo.childRefs d = s.topo.childRefs d := fixed_childRefs h.fixed_eq d
  unfold findBestObjectForIrq
  by_cases hmoved : (t.info i).moved = true
  · by_cases hstays : staysAt d (t.info i).level = true
    · refine ⟨t, by simp [hmoved, hstays], h, .stays fun _ hne => absurd ?_ hne⟩
      rw [← hlevel]
      exact staysAt_iff.mp hstays
    · have hne : d.objType ≠ (s.info i).level.objType := by
        rw [← hlevel]
        exact fun heq => hstays (staysAt_iff.mpr heq)
      have hloads : ∀ c ∈ t.topo.childRefs d, (t.obj c).load ≠ ulongMax :=
        fun c hc => h.loads.ne_ulongMax (h.owned.children_valid d c hc)
      rcases selectObject_decides cfg (t.info i) hloads with
        ⟨hnone, hstuck⟩ | ⟨c, hc, hsome, helig⟩
      · refine ⟨t, by simp [hmoved, hstays, hnone], h, .stays fun _ _ c hc helig => ?_⟩
        exact hstuck c (hchildren ▸ hc) ((h.moves.eligible_iff i c).mpr helig)
      · refine ⟨t.assignIrq (.ofObj d) c i (t.info i).load, by simp [hmoved, hstays, hsome], ?_, ?_⟩
        · exact h.assign hs hi (h.owned.children_valid d c hc) hc
            (.inl (skipsObject_eq_false_iff.mpr helig)) (.inr hmoved) (Nat.le_add_right _ _)
        · refine .goes hmoved hne (hchildren ▸ hc) ?_ ?_ fun j hj => ⟨?_, ?_⟩
          · rw [home_assignIrq h.owned hi, if_pos rfl]
          · rw [info_assignIrq h.owned hi, if_pos rfl]
          · rw [info_assignIrq h.owned hi, if_neg hj]
          · rw [home_assignIrq h.owned hi, if_neg hj]
  · refine ⟨t, by simp [hmoved], h, .stays fun hmoved' => absurd hmoved' hmoved⟩

/-! ## The waiting IRQs -/

/-- The node of an IRQ is specified and has an unbanned CPU. -/
structure OwnNode (s : State) (i n : ℕ) : Prop where
  numaNode : (s.info i).numaNode = some n
  specified : (s.obj ⟨.node, n⟩).number ≠ -1
  unbanned : cpusIntersects (s.obj ⟨.node, n⟩).mask s.topo.unbannedCpus = true

/-- A waiting IRQ that no node could take. -/
structure Waits (cfg : Config) (s t : State) (i : ℕ) : Prop where
  home : t.home i = some .rebalance
  noOwnNode : ∀ n, ¬OwnNode s i n
  noNode : ∀ d ∈ s.topo.refs .node, ¬Eligible cfg s (s.info i) d

/-- An IRQ that was put on an object, no deeper than its level and below its own node. -/
structure Sits (s t : State) (i : ℕ) (o : ObjRef) : Prop where
  home : t.home i = some (.ofObj o)
  moved : (t.info i).moved = true
  level : (s.info i).level.objType.height ≤ o.objType.height
  subtree : ∀ n, OwnNode s i n → ReflTransGen (fun p c => c ∈ s.topo.childRefs p) ⟨.node, n⟩ o

/-- What has become of a waiting IRQ. -/
def Placed (cfg : Config) (s t : State) (i : ℕ) : Prop :=
  Waits cfg s t i ∨ ∃ o, Sits s t i o

theorem Placed.congr (h : Placed cfg s t i) (hinfo : t'.info i = t.info i)
    (hhome : t'.home i = t.home i) : Placed cfg s t' i := by
  rcases h with hwaits | ⟨o, hsits⟩
  · exact .inl ⟨hhome.trans hwaits.home, hwaits.noOwnNode, hwaits.noNode⟩
  · refine .inr ⟨o, hhome.trans hsits.home, ?_, hsits.level, hsits.subtree⟩
    rw [hinfo]
    exact hsits.moved

/-- A waiting IRQ that is put on a node. -/
theorem Underway.assign_node {c : ObjRef} {load : UInt64} (hs : s.Owned) (h : Underway cfg s t)
    (hi : t.home i = some .rebalance) (hc : t.topo.Valid c) (hnode : c.objType = .node)
    (hchosen : t.Chosen cfg i c) (hload : load.toNat ≤ (t.info i).load.toNat + 1)
    (hown : ∀ n, OwnNode s i n → c = ⟨.node, n⟩) :
    Underway cfg s (t.assignIrq .rebalance c i load) ∧
      Placed cfg s (t.assignIrq .rebalance c i load) i ∧
      ∀ j, j ≠ i → (t.assignIrq .rebalance c i load).info j = t.info j ∧
        (t.assignIrq .rebalance c i load).home j = t.home j := by
  refine ⟨h.assign hs hi hc hnode hchosen (.inl rfl) (by rw [if_pos hnode]; exact hload),
    .inr ⟨c, ?_, ?_, ?_, fun n hn => ?_⟩, fun j hj => ⟨?_, ?_⟩⟩
  · rw [home_assignIrq h.owned hi, if_pos rfl]
  · rw [info_assignIrq h.owned hi, if_pos rfl]
  · rw [hnode]
    exact ObjType.height_le _
  · rw [hown n hn]
  · rw [info_assignIrq h.owned hi, if_neg hj]
  · rw [home_assignIrq h.owned hi, if_neg hj]

theorem findPlacement_placed (hs : s.Owned) (h : Underway cfg s t)
    (hi : t.home i = some .rebalance) (hown : ∀ n, ¬OwnNode s i n) :
    ∃ t', t.findPlacement cfg i = some t' ∧ Underway cfg s t' ∧ Placed cfg s t' i ∧
      ∀ j, j ≠ i → t'.info j = t.info j ∧ t'.home j = t.home j := by
  have hrefs : t.topo.refs .node = s.topo.refs .node := fixed_refs h.fixed_eq .node
  have hloads : ∀ d ∈ t.topo.refs .node, (t.obj d).load ≠ ulongMax :=
    fun d hd => h.loads.ne_ulongMax (Topology.mem_refs.mp hd).2
  unfold findPlacement
  rcases selectObject_decides cfg (t.info i) hloads with ⟨hnone, hpassed⟩ | ⟨c, hc, hsome, helig⟩
  · refine ⟨t, by simp [hnone], h, .inl ⟨hi, hown, fun d hd helig => ?_⟩, fun _ _ => ⟨rfl, rfl⟩⟩
    exact hpassed d (hrefs ▸ hd) ((h.moves.eligible_iff i d).mpr helig)
  · obtain ⟨hnode, hvalid⟩ := Topology.mem_refs.mp hc
    refine ⟨t.assignIrq .rebalance c i (t.info i).load, by simp [hsome], ?_⟩
    exact h.assign_node hs hi hvalid hnode (.inl (skipsObject_eq_false_iff.mpr helig))
      (Nat.le_succ _) fun n hn => absurd hn (hown n)

theorem placeIrqInNode_placed (hs : s.Owned) (h : Underway cfg s t)
    (hi : t.home i = some .rebalance) (hnumaNode : (s.info i).numaNode ≠ none) :
    ∃ t', t.placeIrqInNode cfg i = some t' ∧ Underway cfg s t' ∧ Placed cfg s t' i ∧
      ∀ j, j ≠ i → t'.info j = t.info j ∧ t'.home j = t.home j := by
  obtain ⟨n, hn⟩ := Option.ne_none_iff_exists'.mp hnumaNode
  have hfixed := h.fixed_eq
  have hn' : (t.info i).numaNode = some n := by rw [fixed_numaNode hfixed, hn]
  have hlevel : (t.info i).level ≠ .none := level_of_home hi
  have hown (m : ℕ) (hm : OwnNode s i m) : m = n := by
    have heq := hm.numaNode
    rw [hn] at heq
    exact (Option.some.inj heq).symm
  have hload : ((t.info i).load + 1).toNat ≤ (t.info i).load.toNat + 1 := by
    rw [UInt64.toNat_add]
    exact Nat.mod_le _ _
  unfold placeIrqInNode
  simp only [hlevel, decide_false, Bool.false_and, Bool.false_eq_true, if_false, hn']
  by_cases hnumber : (t.obj ⟨.node, n⟩).number ≠ -1
  · rw [if_pos hnumber]
    by_cases hunbanned : cpusIntersects (t.obj ⟨.node, n⟩).mask t.topo.unbannedCpus = true
    · -- the own node, whatever its load
      rw [if_neg (by simp [hunbanned])]
      refine ⟨_, rfl, h.assign_node hs hi (h.owned.numaNode_valid i n hn') rfl
        (.inr ⟨rfl, hn', hunbanned⟩) hload fun m hm => ?_⟩
      rw [hown m hm]
    · rw [if_pos (by simp [hunbanned])]
      refine findPlacement_placed hs h hi fun m hm => hunbanned ?_
      rw [fixed_mask hfixed, fixed_unbannedCpus hfixed, ← hown m hm]
      exact hm.unbanned
  · rw [if_neg hnumber]
    refine findPlacement_placed hs h hi fun m hm => hnumber ?_
    rw [fixed_number hfixed, ← hown m hm]
    exact hm.specified

/-- Every waiting IRQ has its turn. -/
theorem foldlM_placeIrqInNode (hs : s.Owned) (h : Underway cfg s t)
    (hnumaNode : ∀ i ∈ s.irqs.rebalanceIrqList, (s.info i).numaNode ≠ none)
    (hlist : t.irqs.rebalanceIrqList.Perm s.irqs.rebalanceIrqList) :
    ∃ t', t.irqs.rebalanceIrqList.foldlM (placeIrqInNode cfg) t = some t' ∧
      Underway cfg s t' ∧ ∀ i ∈ s.irqs.rebalanceIrqList, Placed cfg s t' i := by
  -- what is still to be visited waits as at the start, the others are placed
  have hloop := foldlM_visits (f := placeIrqInNode cfg)
    (fun rest u => Underway cfg s u ∧ rest.Nodup ∧
      (∀ i ∈ rest, u.home i = some .rebalance) ∧ (∀ i ∈ rest, i ∈ s.irqs.rebalanceIrqList) ∧
      ∀ i ∈ s.irqs.rebalanceIrqList, i ∈ rest ∨ Placed cfg s u i)
    ?_ t.irqs.rebalanceIrqList (s := t) ?_
  · obtain ⟨t', hrun, hunderway, -, -, -, hplaced⟩ := hloop
    exact ⟨t', hrun, hunderway, fun i hi => (hplaced i hi).resolve_left List.not_mem_nil⟩
  · rintro i rest u ⟨hu, hnodup, hhome, hsub, hplaced⟩
    obtain ⟨hnot, hnodup⟩ := List.nodup_cons.mp hnodup
    obtain ⟨u', hrun, hu', hi, hothers⟩ := placeIrqInNode_placed hs hu
      (hhome i List.mem_cons_self) (hnumaNode i (hsub i List.mem_cons_self))
    refine ⟨u', hrun, hu', hnodup, fun j hj => ?_, fun j hj => hsub j (List.mem_cons_of_mem _ hj),
      fun j hj => ?_⟩
    · rw [(hothers j fun heq => hnot (heq ▸ hj)).2]
      exact hhome j (List.mem_cons_of_mem _ hj)
    · by_cases hji : j = i
      · exact .inr (hji ▸ hi)
      · refine (hplaced j hj).imp (fun hmem => ?_) fun hdone => ?_
        · exact (List.mem_cons.mp hmem).resolve_left hji
        · exact hdone.congr (hothers j hji).1 (hothers j hji).2
  · exact ⟨h, h.owned.agrees.nodup .rebalance, fun i hi => h.owned.mem_iff.mp hi,
      fun i hi => hlist.mem_iff.mp hi, fun i hi => .inl (hlist.mem_iff.mpr hi)⟩

/-! ## The passes -/

/-- The passes have done with the pairs of object and IRQ in `done`. -/
structure Descending (cfg : Config) (s t : State) (done : ObjRef → ℕ → Prop) : Prop
    extends Underway cfg s t where
  placed : ∀ i ∈ s.irqs.rebalanceIrqList, Placed cfg s t i
  stuck : ∀ d i, done d i → t.home i = some (.ofObj d) → (t.info i).moved = true →
    d.objType ≠ (s.info i).level.objType → Stuck cfg s i d

variable {done done' : ObjRef → ℕ → Prop}

theorem Descending.mono (h : Descending cfg s t done)
    (hsub : ∀ d i, done' d i → t.home i = some (.ofObj d) → done d i) :
    Descending cfg s t done' :=
  { h with stuck := fun d i hdone hi => h.stuck d i (hsub d i hdone hi) hi }

/-- A child is one step nearer to the level of an IRQ that is above it. -/
theorem Sits.goes {o c : ObjRef} (h : Sits s t i o) (hne : o.objType ≠ (s.info i).level.objType)
    (hc : c ∈ s.topo.childRefs o) (hhome : t'.home i = some (.ofObj c))
    (hmoved : (t'.info i).moved = true) : Sits s t' i c where
  home := hhome
  moved := hmoved
  level := by
    have hlevel := h.level
    have hheight := ObjType.height_below (Topology.objType_of_mem_childRefs hc)
    have hne' : o.objType.height ≠ (s.info i).level.objType.height :=
      fun heq => hne (ObjType.height_injective heq)
    omega
  subtree := fun n hn => (h.subtree n hn).tail hc

/-- The pass comes to one IRQ on `d`. -/
theorem Descending.visit (hs : s.Owned) (h : Descending cfg s t done)
    (hi : t.home i = some (.ofObj d)) (hchildren : ∀ c ∈ s.topo.childRefs d, ∀ j, ¬done c j) :
    ∃ t', findBestObjectForIrq cfg d t i = some t' ∧
      Descending cfg s t' (fun e j => done e j ∨ e = d ∧ j = i) ∧
      ∀ j, j ≠ i → t'.home j = t.home j := by
  obtain ⟨t', hrun, hunderway, hdescent⟩ := findBestObjectForIrq_descent hs h.toUnderway hi
  refine ⟨t', hrun, ?_⟩
  cases hdescent with
  | stays hstuck =>
      -- nothing has changed, and the pass has done with one IRQ more
      refine ⟨⟨hunderway, h.placed, fun e j hdone => ?_⟩, fun _ _ => rfl⟩
      rcases hdone with hdone | ⟨rfl, rfl⟩
      · exact h.stuck e j hdone
      · exact fun _ => hstuck
  | @goes _ c hmoved hne hc hhome hmoved' hothers =>
      refine ⟨⟨hunderway, fun j hj => ?_, fun e j hdone hej => ?_⟩,
        fun j hj => (hothers j hj).2⟩
      · by_cases hji : j = i
        · subst hji
          refine .inr ⟨c, ?_⟩
          rcases h.placed j hj with hwaits | ⟨o, hsits⟩
          · rw [hwaits.home] at hi
            cases hi
          · have heq := hsits.home
            rw [hi] at heq
            cases heq
            exact hsits.goes hne hc hhome hmoved'
        · exact (h.placed j hj).congr (hothers j hji).1 (hothers j hji).2
      · by_cases hji : j = i
        · -- the IRQ is on a child now, with which no pass has done
          subst hji
          rw [hhome] at hej
          cases hej
          rcases hdone with hdone | ⟨heq, -⟩
          · exact absurd hdone (hchildren c hc j)
          · exact absurd heq (Topology.ne_of_mem_childRefs hc)
        · rw [(hothers j hji).1]
          rw [(hothers j hji).2] at hej
          rcases hdone with hdone | ⟨-, heq⟩
          · exact h.stuck e j hdone hej
          · exact absurd heq hji

/-- The pass comes to one object. -/
theorem Descending.placeIrqInObject (hs : s.Owned) (h : Descending cfg s t done)
    (hchildren : ∀ c ∈ s.topo.childRefs d, ∀ j, ¬done c j) :
    ∃ t', t.placeIrqInObject cfg d = some t' ∧
      Descending cfg s t' (fun e j => done e j ∨ e = d) := by
  have hloop := foldlM_visits (f := findBestObjectForIrq cfg d)
    (fun rest u => Descending cfg s u (fun e j => done e j ∨ e = d ∧ j ∉ rest) ∧ rest.Nodup ∧
      ∀ i ∈ rest, u.home i = some (.ofObj d))
    ?_ (t.obj d).interrupts (s := t) ?_
  · obtain ⟨t', hrun, hdescending, -, -⟩ := hloop
    refine ⟨t', hrun, hdescending.mono fun e j hdone _ => ?_⟩
    exact hdone.imp_right fun heq => ⟨heq, List.not_mem_nil⟩
  · rintro i rest u ⟨hu, hnodup, hhome⟩
    obtain ⟨hnot, hnodup⟩ := List.nodup_cons.mp hnodup
    obtain ⟨u', hrun, hu', hothers⟩ := hu.visit hs (hhome i List.mem_cons_self) fun c hc j => by
      rintro (hdone | ⟨heq, -⟩)
      · exact hchildren c hc j hdone
      · exact Topology.ne_of_mem_childRefs hc heq
    refine ⟨u', hrun, hu'.mono fun e j hdone _ => ?_, hnodup, fun j hj => ?_⟩
    · rcases hdone with hdone | ⟨heq, hrest⟩
      · exact .inl (.inl hdone)
      · by_cases hji : j = i
        · exact .inr ⟨heq, hji⟩
        · exact .inl (.inr ⟨heq, fun hmem => hrest ((List.mem_cons.mp hmem).resolve_left hji)⟩)
    · rw [hothers j fun heq => hnot (heq ▸ hj)]
      exact hhome j (List.mem_cons_of_mem _ hj)
  · refine ⟨h.mono fun e j hdone hj => ?_, h.owned.agrees.nodup (.ofObj d),
      fun i hi => h.owned.mem_iff.mp hi⟩
    rcases hdone with hdone | ⟨rfl, hnot⟩
    · exact hdone
    · exact absurd (h.owned.mem_iff.mpr hj) hnot

/-- The pass over the objects of a type. -/
theorem Descending.pass (ty : ObjType) (hs : s.Owned)
    (h : Descending cfg s t fun d _ => ty.height < d.objType.height) :
    ∃ t', (t.topo.refs ty).foldlM (State.placeIrqInObject cfg) t = some t' ∧
      Descending cfg s t' fun d _ => ty.height ≤ d.objType.height := by
  have hloop := foldlM_visits (f := State.placeIrqInObject cfg)
    (fun rest u => Descending cfg s u
      (fun d _ => ty.height < d.objType.height ∨ d.objType = ty ∧ d ∉ rest) ∧
        ∀ d ∈ rest, d.objType = ty)
    ?_ (t.topo.refs ty) (s := t) ?_
  · obtain ⟨t', hrun, hdescending, -⟩ := hloop
    refine ⟨t', hrun, hdescending.mono fun d j hdone _ => ?_⟩
    rcases Nat.lt_or_eq_of_le hdone with hlt | heq
    · exact .inl hlt
    · exact .inr ⟨(ObjType.height_injective heq).symm, List.not_mem_nil⟩
  · rintro d rest u ⟨hu, htypes⟩
    have hty := htypes d List.mem_cons_self
    obtain ⟨u', hrun, hu'⟩ := hu.placeIrqInObject hs (d := d) fun c hc j hdone => by
      -- a child is one level lower, where no pass has been yet
      have hheight := ObjType.height_below (Topology.objType_of_mem_childRefs hc)
      rw [hty] at hheight
      rcases hdone with hlt | ⟨heq, -⟩
      · omega
      · rw [heq] at hheight
        omega
    refine ⟨u', hrun, hu'.mono fun e j hdone _ => ?_, fun e he =>
      htypes e (List.mem_cons_of_mem _ he)⟩
    rcases hdone with hlt | ⟨heq, hrest⟩
    · exact .inl (.inl hlt)
    · by_cases hed : e = d
      · exact .inr hed
      · exact .inl (.inr ⟨heq, fun hmem => hrest ((List.mem_cons.mp hmem).resolve_left hed)⟩)
  · refine ⟨h.mono fun d j hdone hj => ?_, fun d hd => (Topology.mem_refs.mp hd).1⟩
    rcases hdone with hlt | ⟨heq, hnot⟩
    · exact hlt
    · exact absurd (Topology.mem_refs.mpr ⟨heq, h.owned.valid_of_home hj⟩) hnot

/-! ## `calculate_placement` -/

/-- The order of the waiting IRQs matters neither for the loads nor for anything else the
placement goes by. -/
theorem Underway.sorted (h : s.Owned) (hloads : s.LoadsFit) (addr : ℕ → ℕ) :
    Underway cfg s (s.sortIrqList addr .rebalance) where
  moves := .single (.sort addr .rebalance)
  owned := by
    have hsort : Move cfg s (s.sortIrqList addr .rebalance) := .sort addr .rebalance
    exact h.move hsort
  loads := by
    intro d hd
    have hcoming : (s.sortIrqList addr .rebalance).coming d = s.coming d := rfl
    rw [hcoming]
    exact hloads d hd
  untouched := fun _ _ _ => rfl

/-- Where an IRQ that was waiting in `s` is in `t`, when the placement is over. -/
inductive PlacedRight (cfg : Config) (s t : State) (i : ℕ) : Prop
  /-- It still waits: there is no node for it. -/
  | waits : i ∈ t.irqs.rebalanceIrqList → (∀ n, ¬OwnNode s i n) →
      (∀ d ∈ s.topo.refs .node, ¬Eligible cfg s (s.info i) d) → PlacedRight cfg s t i
  /-- It is on an object `o` of the type of its level or above, above only where no child
  may take it, and below its own node. -/
  | sits (o : ObjRef) : i ∈ (t.obj o).interrupts → (t.info i).assignedObj = some o →
      (s.info i).level.objType.height ≤ o.objType.height →
      ((s.info i).level.objType.height < o.objType.height →
        ∀ c ∈ t.topo.childRefs o, ¬Eligible cfg t (t.info i) c) →
      (∀ n, OwnNode s i n →
        ReflTransGen (fun p c => c ∈ s.topo.childRefs p) ⟨.node, n⟩ o) →
      PlacedRight cfg s t i

/-- After the last pass only what is on CPUs has not been visited. -/
theorem Descending.placedRight
    (h : Descending cfg s t fun d _ => ObjType.cache.height ≤ d.objType.height)
    (hi : i ∈ s.irqs.rebalanceIrqList) : PlacedRight cfg s t i := by
  rcases h.placed i hi with hwaits | ⟨o, hsits⟩
  · exact .waits (h.owned.mem_iff.mpr hwaits.home) hwaits.noOwnNode hwaits.noNode
  · refine .sits o (h.owned.mem_iff.mpr hsits.home) (assigned_of_home hsits.home) hsits.level
      (fun habove c hc => ?_) hsits.subtree
    have hne : o.objType ≠ (s.info i).level.objType := by
      intro heq
      rw [heq] at habove
      exact Nat.lt_irrefl _ habove
    have hstuck := h.stuck o i (Nat.succ_le_of_lt (Nat.zero_lt_of_lt habove)) hsits.home
      hsits.moved hne
    rw [fixed_childRefs h.fixed_eq] at hc
    rw [h.moves.eligible_iff]
    exact hstuck c hc

/-- The placement returns, and puts every waiting IRQ as deep as its level and the
eligible objects allow; what neither waits nor carries `moved` stays where it is. -/
theorem placedDeep (cfg : Config) (addr : ℕ → ℕ) (s : State) (howned : s.Owned)
    (hnumaNode : ∀ i ∈ s.irqs.rebalanceIrqList, (s.info i).numaNode ≠ none)
    (hloads : s.LoadsFit) :
    ∃ t, s.calculatePlacement cfg addr = some t ∧
      (∀ i ∈ s.irqs.rebalanceIrqList, PlacedRight cfg s t i) ∧
      ∀ i ∉ s.irqs.rebalanceIrqList, (s.info i).moved = false →
        (t.info i).assignedObj = (s.info i).assignedObj := by
  have hsorted : Underway cfg s (s.sortIrqList addr .rebalance) := .sorted howned hloads addr
  have hperm := s.sortIrqList_perm addr .rebalance .rebalance
  unfold calculatePlacement
  dsimp only
  split
  · obtain ⟨t₁, h₁, hunderway, hplaced⟩ :=
      foldlM_placeIrqInNode howned hsorted hnumaNode hperm
    -- before the passes nothing is done with
    have hstart : Descending cfg s t₁ fun d _ => ObjType.node.height < d.objType.height :=
      ⟨hunderway, hplaced, fun d _ hdone => absurd d.objType.height_le (Nat.not_le.mpr hdone)⟩
    obtain ⟨t₂, h₂, hnodes⟩ := Descending.pass .node howned hstart
    obtain ⟨t₃, h₃, hpackages⟩ := Descending.pass .package howned hnodes
    obtain ⟨t₄, h₄, hcaches⟩ := Descending.pass .cache howned hpackages
    refine ⟨t₄, ?_, fun i hi => hcaches.placedRight hi, fun i hi hmoved => ?_⟩
    · simp only [h₁, h₂, h₃, h₄, Option.bind_eq_bind, Option.bind_some]
    · rw [hcaches.untouched i hi hmoved]
  · rename_i hempty
    refine ⟨_, rfl, fun i hi => ?_, fun _ _ _ => rfl⟩
    have hpos := List.length_pos_of_mem (hperm.mem_iff.mpr hi)
    exact absurd hpos hempty

theorem loadsFit_started : Sample.started.LoadsFit := by
  have hall : ∀ d ∈ Sample.started.topo.allRefs,
      (Sample.started.obj d).load.toNat +
        ((List.range Sample.started.dbSize).map (Sample.started.coming d)).sum <
          ulongMax.toNat := by
    decide +kernel
  exact fun d hd => hall d (Topology.mem_allRefs.mpr hd)

/-- The two interrupts of the sample machine. -/
theorem placedDeep_started :
    ∃ t, Sample.started.calculatePlacement Sample.config id = some t ∧
      PlacedRight Sample.config Sample.started t 0 ∧
      PlacedRight Sample.config Sample.started t 1 := by
  obtain ⟨t, hrun, hplaced, -⟩ := placedDeep Sample.config id Sample.started
    (reachable_owned Sample.reachable_started) (by decide +kernel) loadsFit_started
  exact ⟨t, hrun, hplaced 0 (by decide), hplaced 1 (by decide)⟩

end State

end CodeAnalyze.Irqbalance
