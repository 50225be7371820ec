import CodeAnalyze.Irqbalance.Moves
import Mathlib.Logic.Relation

/-!
# What a call can do

The calls of `main` other than a rescan are taken apart into a handful of moves.
Every property of runs is then shown once for each move; `exec_turns` brings it
to the calls.

A CPU that enters powersave mode has its flag set first and its IRQs taken away
one by one afterwards.  In between the CPU is asleep and still holds IRQs, so
this is one turn and not a sequence of moves.
-/

namespace CodeAnalyze.Irqbalance

open Lib Relation

namespace State

/-- Why an IRQ may be put on an object: `find_best_object` does not pass it over, or
it is the IRQ's own node. -/
def Chosen (cfg : Config) (s : State) (i : ℕ) (d : ObjRef) : Prop :=
  s.skipsObject cfg (s.info i) d = false ∨
    d.objType = .node ∧ (s.info i).numaNode = some d.place ∧
      cpusIntersects (s.obj d).mask s.topo.unbannedCpus = true

/-- Where an IRQ goes from a list: to a node, or one level down. -/
def Below (s : State) : IrqList → ObjRef → Prop
  | .rebalance, d => d.objType = .node
  | .ofObj p, d => d ∈ s.topo.childRefs p

/-- `write_affinity`, as `activate_mapping` records it. -/
def writeAffinity (s : State) (i : ℕ) (mask : Cpumask) : State :=
  { s.modifyInfo i fun info => { info with moved := false } with
    writes := s.writes ++ [((s.info i).irq, mask)] }

/-- `powersave->powersave_mode = 1`. -/
def sleep (s : State) (d : ObjRef) : State :=
  s.modifyObj d fun o => { o with powersaveMode := true }

/-- The moves the calls are made of. -/
inductive Move (cfg : Config) (s : State) : State → Prop
  /-- Loads, counters and the flags of the daemon change. -/
  | count {s' : State} : s'.still = s.still → Move cfg s s'
  | sort (addr : ℕ → ℕ) (l : IrqList) : Move cfg s (s.sortIrqList addr l)
  /-- An IRQ is taken from its object. -/
  | take {i : ℕ} {d : ObjRef} :
      s.home i = some (.ofObj d) → Move cfg s (s.reassign (.ofObj d) none i)
  /-- An IRQ is put on an object. -/
  | put {i : ℕ} {src : IrqList} {d : ObjRef} :
      s.home i = some src → s.topo.Valid d → s.Below src d → s.Chosen cfg i d →
        Move cfg s (s.reassign src (some d) i)

abbrev Moves (cfg : Config) : State → State → Prop := ReflTransGen (Move cfg)

/-- A move, a CPU put to sleep and emptied, an object woken, or an affinity written. -/
inductive Turn (cfg : Config) (s : State) : State → Prop
  | move {s' : State} : Move cfg s s' → Turn cfg s s'
  | nap {s' : State} {d : ObjRef} :
      d.objType = .cpu → Moves cfg (s.sleep d) s' → (s'.obj d).interrupts = [] → Turn cfg s s'
  | wake (d : ObjRef) : Turn cfg s (s.clearPowersaveMode d)
  | write {i : ℕ} {mask : Cpumask} :
      i < s.dbSize → s.appliedMask cfg (s.info i) = some mask →
        Turn cfg s (s.writeAffinity i mask)

abbrev Turns (cfg : Config) : State → State → Prop := ReflTransGen (Turn cfg)

variable {cfg : Config} {s s' : State}

theorem Below.ne {src : IrqList} {d : ObjRef} (h : s.Below src d) : .ofObj d ≠ src := by
  cases src with
  | rebalance => simp
  | ofObj p => simpa using Topology.ne_of_mem_childRefs h

theorem Moves.turns (h : Moves cfg s s') : Turns cfg s s' :=
  Relation.ReflTransGen.mono (fun _ _ hmv => Turn.move hmv) _ _ h

/-- What moves keep, and what putting to sleep, waking and writing keep, every turn
keeps. -/
theorem Turns.keeps {P : State → Prop} (hmove : ∀ s s', P s → Move cfg s s' → P s')
    (hsleep : ∀ s d, P s → P (s.sleep d)) (hwake : ∀ s d, P s → P (s.clearPowersaveMode d))
    (hwrite : ∀ s i mask, P s → i < s.dbSize → s.appliedMask cfg (s.info i) = some mask →
      P (s.writeAffinity i mask)) (hP : P s) (h : Turns cfg s s') : P s' := by
  have hmoves : ∀ {s s'}, P s → Moves cfg s s' → P s' := by
    intro s s' hs hrun
    induction hrun with
    | refl => exact hs
    | tail _ hmv ih => exact hmove _ _ ih hmv
  induction h with
  | refl => exact hP
  | tail _ hturn ih =>
      cases hturn with
      | move hmv => exact hmove _ _ ih hmv
      | nap _ hrun _ => exact hmoves (hsleep _ _ ih) hrun
      | wake d => exact hwake _ d ih
      | write hi hmask => exact hwrite _ _ _ ih hi hmask

/-! ## Ownership is kept -/

theorem sleep_fixed (s : State) (d : ObjRef) : (s.sleep d).fixed = s.fixed :=
  s.seen_modifyObj d (by intro o; rfl)

theorem clearPowersaveMode_fixed (s : State) (d : ObjRef) :
    (s.clearPowersaveMode d).fixed = s.fixed :=
  s.seen_modifyObj d (by intro o; rfl)

theorem writeAffinity_fixed (s : State) (i : ℕ) (mask : Cpumask) :
    (s.writeAffinity i mask).fixed = s.fixed :=
  s.seen_modifyInfo i (by intro o; rfl)

theorem sortIrqList_perm (s : State) (addr : ℕ → ℕ) (l l' : IrqList) :
    ((s.sortIrqList addr l).irqList l').Perm (s.irqList l') := by
  unfold sortIrqList
  rw [irqList_modifyIrqList]
  split
  · exact gListSort_perm _ _
  · exact .refl _

theorem Move.fixed_eq (h : Move cfg s s') : s'.fixed = s.fixed := by
  cases h with
  | count hstill => exact fixed_of_still hstill
  | sort addr l => exact s.seen_modifyIrqList (by intro o list; rfl) l _
  | take _ => exact s.reassign_fixed _ _ _
  | put _ _ _ _ => exact s.reassign_fixed _ _ _

theorem Turns.fixed_eq (h : Turns cfg s s') : s'.fixed = s.fixed :=
  Turns.keeps (P := fun t => t.fixed = s.fixed) (fun _ _ ht hmv => hmv.fixed_eq.trans ht)
    (fun t d ht => (t.sleep_fixed d).trans ht)
    (fun t d ht => (t.clearPowersaveMode_fixed d).trans ht)
    (fun t i mask ht _ _ => (t.writeAffinity_fixed i mask).trans ht) rfl h

theorem Owned.sleep (h : s.Owned) (d : ObjRef) : (s.sleep d).Owned :=
  h.of_same (s.sleep_fixed d) (fun l => .of_eq (s.irqList_modifyObj d l fun _ => rfl)) fun _ => rfl

theorem Owned.clearPowersaveMode (h : s.Owned) (d : ObjRef) : (s.clearPowersaveMode d).Owned :=
  h.of_same (s.clearPowersaveMode_fixed d)
    (fun l => .of_eq (s.irqList_modifyObj d l fun _ => rfl)) fun _ => rfl

theorem Owned.of_still (h : s.Owned) (hstill : s'.still = s.still) : s'.Owned :=
  h.of_same (fixed_of_still hstill) (fun l => .of_eq (still_irqList hstill l))
    fun i => still_assignedObj hstill i

theorem Owned.move (h : s.Owned) (hmv : Move cfg s s') : s'.Owned := by
  have hfixed := hmv.fixed_eq
  cases hmv with
  | count hstill => exact h.of_still hstill
  | sort addr l =>
      exact h.of_same hfixed (s.sortIrqList_perm addr l) fun i =>
        congrArg IrqInfo.assignedObj (s.info_modifyIrqList i l _)
  | take hi => exact h.reassign hi trivial (by simp [homeList])
  | put hi hvalid hbelow _ => exact h.reassign hi hvalid hbelow.ne

theorem Owned.writeAffinity (h : s.Owned) (i : ℕ) (mask : Cpumask) :
    (s.writeAffinity i mask).Owned :=
  h.of_same (s.writeAffinity_fixed i mask) (fun l => .of_eq (s.irqList_modifyInfo _ _ l))
    fun _ => s.field_modifyInfo _ _ IrqInfo.assignedObj fun _ => rfl

theorem Owned.turns (h : s.Owned) (hrun : Turns cfg s s') : s'.Owned :=
  Turns.keeps (fun _ _ => Owned.move) (fun _ d hs => hs.sleep d)
    (fun _ d hs => hs.clearPowersaveMode d)
    (fun _ i mask hs _ _ => hs.writeAffinity i mask) h hrun

theorem Owned.moves (h : s.Owned) (hrun : Moves cfg s s') : s'.Owned := h.turns hrun.turns

/-- The rule for what moves keep as long as lists and homes agree. -/
theorem Turns.keeps_owned {P : State → Prop}
    (hmove : ∀ s s', s.Owned → P s → Move cfg s s' → P s') (hsleep : ∀ s d, P s → P (s.sleep d))
    (hwake : ∀ s d, P s → P (s.clearPowersaveMode d))
    (hwrite : ∀ s i mask, s.Owned → P s → i < s.dbSize → s.appliedMask cfg (s.info i) = some mask →
      P (s.writeAffinity i mask))
    (howned : s.Owned) (hP : P s) (h : Turns cfg s s') : P s' :=
  (Turns.keeps (P := fun t => t.Owned ∧ P t)
    (fun t t' ht hmv => ⟨ht.1.move hmv, hmove t t' ht.1 ht.2 hmv⟩)
    (fun t d ht => ⟨ht.1.sleep d, hsleep t d ht.2⟩)
    (fun t d ht => ⟨ht.1.clearPowersaveMode d, hwake t d ht.2⟩)
    (fun t i mask ht hi hmask => ⟨ht.1.writeAffinity i mask, hwrite t i mask ht.1 ht.2 hi hmask⟩)
    ⟨howned, hP⟩ h).2

/-! ## Moves write nothing -/

theorem Move.writes_eq (h : Move cfg s s') : s'.writes = s.writes := by
  cases h with
  | count hstill => exact still_writes hstill
  | sort addr l => exact s.writes_modifyIrqList l _
  | take _ => exact s.reassign_writes _ _ _
  | put _ _ _ _ => exact s.reassign_writes _ _ _

theorem Moves.writes_eq (h : Moves cfg s s') : s'.writes = s.writes := by
  induction h with
  | refl => rfl
  | tail _ hmv ih => exact hmv.writes_eq.trans ih

/-! ## Loops over a list of IRQs -/

/-- A loop over IRQs that are all on one list, each round of which moves at most the
IRQ it is about.  The IRQs to come are still on the list when their turn comes. -/
theorem foldlM_moves {σ : Type*} {f : σ → ℕ → Option σ} (st : σ → State) {l : IrqList}
    (hstep : ∀ i t t', (st t).Owned → (st t).home i = some l → f t i = some t' →
      Moves cfg (st t) (st t') ∧ ∀ j, j ≠ i → (st t').home j = (st t).home j)
    {t t' : σ} (h : (st t).Owned) {list : List ℕ} (hnodup : list.Nodup)
    (hlist : ∀ i ∈ list, (st t).home i = some l) (hrun : list.foldlM f t = some t') :
    Moves cfg (st t) (st t') := by
  refine (foldlM_rest (fun rest u => Moves cfg (st t) (st u) ∧ (st u).Owned ∧ rest.Nodup ∧
    ∀ i ∈ rest, (st u).home i = some l) ?_ ⟨.refl, h, hnodup, hlist⟩ hrun).1
  rintro i rest u u' ⟨hmoves, howned, hrest, hhome⟩ hi
  obtain ⟨hmv, hothers⟩ := hstep i u u' howned (hhome i List.mem_cons_self) hi
  rw [List.nodup_cons] at hrest
  refine ⟨hmoves.trans hmv, howned.moves hmv, hrest.2, fun j hj => ?_⟩
  rw [hothers j fun heq => hrest.1 (heq ▸ hj)]
  exact hhome j (List.mem_cons_of_mem _ hj)

/-- The same for the list itself. -/
theorem foldlM_irqList_moves {σ : Type*} {f : σ → ℕ → Option σ} (st : σ → State) {l : IrqList}
    (hstep : ∀ i t t', (st t).Owned → (st t).home i = some l → f t i = some t' →
      Moves cfg (st t) (st t') ∧ ∀ j, j ≠ i → (st t').home j = (st t).home j)
    {t t' : σ} (h : (st t).Owned) (hrun : ((st t).irqList l).foldlM f t = some t') :
    Moves cfg (st t) (st t') :=
  foldlM_moves st hstep h (h.agrees.nodup l) (fun _ hi => h.mem_iff.mp hi) hrun

/-- A loop over objects. -/
theorem foldlM_objs_moves {σ : Type*} {f : σ → ObjRef → Option σ} (st : σ → State)
    {list : List ObjRef}
    (hstep : ∀ d ∈ list, ∀ t t', (st t).Owned → f t d = some t' → Moves cfg (st t) (st t'))
    {t t' : σ} (h : (st t).Owned) (hrun : list.foldlM f t = some t') :
    Moves cfg (st t) (st t') := by
  refine (foldlM_invariant (fun u => Moves cfg (st t) (st u) ∧ (st u).Owned) ?_ ⟨.refl, h⟩ hrun).1
  rintro d hd u u' ⟨hmoves, howned⟩ hu
  have hmv := hstep d hd u u' howned hu
  exact ⟨hmoves.trans hmv, howned.moves hmv⟩

/-- An IRQ is taken from its object, and nothing else changes its home. -/
theorem take_moves (cfg : Config) (h : s.Owned) {i : ℕ} {d : ObjRef}
    (hi : s.home i = some (.ofObj d)) :
    Moves cfg s (s.reassign (.ofObj d) none i) ∧
      ∀ j, j ≠ i → (s.reassign (.ofObj d) none i).home j = s.home j := by
  refine ⟨.single (.take hi), fun j hj => ?_⟩
  rw [h.home_reassign hi, if_neg hj]

/-! ## `update_migration_status` -/

/-- What `move_candidate_irqs` does where it does not fail: nothing, or it takes the
IRQ from its object. -/
theorem moveCandidateIrqs_cases {si si' : State × LoadBalanceInfo} {i : ℕ}
    (hrun : moveCandidateIrqs si i = some si') :
    si' = si ∨ ∃ d, (si.1.info i).assignedObj = some d ∧
      1 < (si.1.obj d).interrupts.length ∧ 1 < (si.1.info i).load ∧
      si.2.minLoad + (si.1.info i).load < si.2.adjustmentLoad - (si.1.info i).load ∧
      si' = (si.1.reassign (.ofObj d) none i,
        { si.2 with
          adjustmentLoad := si.2.adjustmentLoad - (si.1.info i).load
          minLoad := si.2.minLoad + (si.1.info i).load }) := by
  obtain ⟨s, lb⟩ := si
  unfold moveCandidateIrqs at hrun
  dsimp only at hrun ⊢
  split at hrun
  · exact .inl (Option.some.inj hrun).symm
  · split at hrun
    · exact .inl (Option.some.inj hrun).symm
    · split at hrun
      · cases hrun
      · rename_i d hd
        split at hrun
        · exact .inl (Option.some.inj hrun).symm
        · rename_i hlength
          split at hrun
          · exact .inl (Option.some.inj hrun).symm
          · rename_i hload
            split at hrun
            · rename_i hless
              exact .inr ⟨d, hd, Nat.lt_of_not_le hlength, UInt64.not_le.mp hload, hless,
                (Option.some.inj hrun).symm⟩
            · exact .inl (Option.some.inj hrun).symm

theorem moveCandidateIrqs_moves {si si' : State × LoadBalanceInfo} {i : ℕ} {d : ObjRef}
    (h : si.1.Owned) (hi : si.1.home i = some (.ofObj d))
    (hrun : moveCandidateIrqs si i = some si') :
    Moves cfg si.1 si'.1 ∧ ∀ j, j ≠ i → si'.1.home j = si.1.home j := by
  rcases moveCandidateIrqs_cases hrun with rfl | ⟨d', hd', -, -, -, rfl⟩
  · exact ⟨.refl, fun _ _ => rfl⟩
  · rw [assigned_of_home hi, Option.some.injEq] at hd'
    subst hd'
    exact take_moves cfg h hi

theorem migrateOverloadedIrqs_moves {addr : ℕ → ℕ} {si si' : State × LoadBalanceInfo}
    {d : ObjRef} (h : si.1.Owned) (hrun : migrateOverloadedIrqs cfg addr si d = some si') :
    Moves cfg si.1 si'.1 := by
  obtain ⟨s, lb⟩ := si
  unfold migrateOverloadedIrqs at hrun
  dsimp only at hrun
  split at hrun
  · have hsort : Move cfg s (s.sortIrqList addr (.ofObj d)) := .sort addr _
    refine ReflTransGen.head hsort ?_
    exact foldlM_irqList_moves Prod.fst (l := .ofObj d) (fun _ _ _ => moveCandidateIrqs_moves)
      (h.move hsort) hrun
  · cases hrun
    exact .refl

theorem findOverloadedObjs_moves {addr : ℕ → ℕ} {ty : ObjType} {r : State × LoadBalanceInfo}
    (h : s.Owned) (hrun : s.findOverloadedObjs cfg addr ty = some r) : Moves cfg s r.1 :=
  foldlM_objs_moves Prod.fst (fun _ _ _ _ => migrateOverloadedIrqs_moves) h hrun

theorem loadStats_powersave (t : Topology) (name : List ObjRef) :
    (loadStats t name).powersave = none := by
  have hdeviations := foldl_keeps (f := computeDeviations t) LoadBalanceInfo.powersave
    (fun _ _ => rfl) name
  have hgather := foldl_keeps (f := gatherLoadStats t) LoadBalanceInfo.powersave
    (fun _ _ => rfl) name
  simp only [loadStats, hdeviations, hgather]

theorem countObj_powersave {d x : ObjRef} {lb : LoadBalanceInfo}
    (h : (s.countObj cfg d lb).powersave = some x) : x = d ∨ lb.powersave = some x := by
  unfold countObj at h
  dsimp only at h
  generalize hcounted : (if (s.obj d).powersaveMode = true then
    { lb with numPowersave := lb.numPowersave + 1 } else lb) = counted at h
  have hsame : counted.powersave = lb.powersave := by
    rw [← hcounted]
    split <;> rfl
  rw [← hsame]
  split at h
  · split at h
    · exact .inl (Option.some.inj h).symm
    · exact .inr h
  · split at h <;> exact .inr h

/-- The candidate for powersave is one of the objects looked at. -/
theorem findOverloadedObjs_powersave {addr : ℕ → ℕ} {ty : ObjType}
    {r : State × LoadBalanceInfo} (hrun : s.findOverloadedObjs cfg addr ty = some r)
    {d : ObjRef} (hd : r.2.powersave = some d) : d ∈ s.topo.refs ty := by
  refine foldlM_invariant (fun t : State × LoadBalanceInfo =>
    ∀ x, t.2.powersave = some x → x ∈ s.topo.refs ty) ?_ ?_ hrun d hd
  · rintro y hy ⟨t, lb⟩ t' ht hstep x hx
    have hcount : (t.countObj cfg y lb).powersave = some x → x ∈ s.topo.refs ty := by
      intro hx
      rcases countObj_powersave hx with rfl | hlb
      · exact hy
      · exact ht x hlb
    unfold migrateOverloadedIrqs at hstep
    dsimp only at hstep
    split at hstep
    · have hkeeps := foldlM_keeps (fun t : State × LoadBalanceInfo => t.2.powersave)
        (fun i u u' hu => ?_) hstep
      · exact hcount (hkeeps ▸ hx)
      · rcases moveCandidateIrqs_cases hu with rfl | ⟨_, _, _, _, _, rfl⟩ <;> rfl
    · cases hstep
      exact hcount hx
  · intro x hx
    rw [loadStats_powersave] at hx
    cases hx

/-- The IRQs of a CPU that enters powersave mode all go to `rebalance_irq_list`, and
no other changes its home. -/
theorem enterPowersave_spec (cfg : Config) {d : ObjRef} (h : s.Owned)
    (hrun : s.enterPowersave d = some s') :
    Moves cfg (s.sleep d) s' ∧
      ∀ i, s'.home i =
        if i ∈ (s.obj d).interrupts then some .rebalance else s.home i := by
  have hinterrupts : ((s.sleep d).obj d).interrupts = (s.obj d).interrupts :=
    s.topo.field_modify d d TopoObj.interrupts fun _ => rfl
  have howned := h.sleep d
  have hmem : ∀ i, i ∈ (s.obj d).interrupts ↔ (s.sleep d).home i = some (.ofObj d) :=
    fun i => hinterrupts ▸ howned.mem_iff (i := i) (l := .ofObj d)
  unfold enterPowersave at hrun
  dsimp only at hrun
  rw [show ((s.modifyObj d fun o => { o with powersaveMode := true }).obj d).interrupts =
    (s.obj d).interrupts from hinterrupts] at hrun
  -- the IRQs already visited are at home on `rebalance_irq_list`, the others where they were
  have hloop := foldlM_rest (fun rest t => Moves cfg (s.sleep d) t ∧ t.Owned ∧ rest.Nodup ∧
    (∀ i ∈ rest, i ∈ (s.obj d).interrupts) ∧
    ∀ i, t.home i = if i ∈ (s.obj d).interrupts ∧ i ∉ rest then some .rebalance else s.home i)
    ?_ ⟨.refl, howned, h.agrees.nodup (.ofObj d), fun _ hi => hi,
      fun i => (if_neg fun hi => hi.2 hi.1).symm⟩ hrun
  · refine ⟨hloop.1, fun i => ?_⟩
    simpa using hloop.2.2.2.2 i
  · rintro i rest t t' ⟨hmoves, ht, hnodup, hsub, hhome⟩ hstep
    rw [List.nodup_cons] at hnodup
    have hi : t.home i = some (.ofObj d) := by
      rw [hhome, if_neg (by simp)]
      exact (hmem i).mp (hsub i List.mem_cons_self)
    have ht' : t' = t.reassign (.ofObj d) none i := by
      simp only [forceIrqMigration, assigned_of_home hi] at hstep
      exact (Option.some.inj hstep).symm
    subst ht'
    have hmv := take_moves cfg ht hi
    refine ⟨hmoves.trans hmv.1, ht.moves hmv.1, hnodup.2,
      fun j hj => hsub j (List.mem_cons_of_mem _ hj), fun j => ?_⟩
    rw [ht.home_reassign hi, hhome]
    by_cases hj : j = i
    · subst hj
      simp [hsub j List.mem_cons_self, hnodup.1, homeList]
    · simp [hj]

end State

end CodeAnalyze.Irqbalance
