import CodeAnalyze.Irqbalance.Overload
import CodeAnalyze.Irqbalance.Sample

/-!
# The passes of `update_migration_status`

`find_overloaded_objs` walks over the objects of a type and takes IRQs off those with
more than the smallest load.  What is taken from an object fills the smallest load up; it
stays within the load of the object, so that the sum of the two does not wrap either when
the next object has its turn.
-/

namespace CodeAnalyze.Irqbalance

open Lib Relation

variable {cfg : Config} {s s' t u : State} {d x : ObjRef} {ty : ObjType} {minLoad : UInt64}

namespace State

/-! ## One object -/

/-- `migrate_overloaded_irqs`, where `sort_irq_list` puts the IRQs into any order. -/
def migrateInOrder (cfg : Config) (order : List ℕ → List ℕ) (si : State × LoadBalanceInfo)
    (d : ObjRef) : Option (State × LoadBalanceInfo) :=
  let (s, lb) := si
  let lb := s.countObj cfg d lb
  if (s.obj d).load > lb.minLoad && (s.obj d).interrupts.length > 1 then
    let s := s.modifyIrqList (.ofObj d) order
    s.moveCandidates lb d (s.obj d).interrupts
  else some (s, lb)

theorem migrateOverloadedIrqs_eq (cfg : Config) (addr : ℕ → ℕ) (si : State × LoadBalanceInfo)
    (d : ObjRef) :
    migrateOverloadedIrqs cfg addr si d =
      migrateInOrder cfg (gListSort (si.1.sortIrqs addr)) si d := rfl

/-- The IRQs that `d` holds in `s` and not in `t`. -/
def takenFrom (s t : State) (d : ObjRef) : List ℕ :=
  (s.obj d).interrupts.filter fun i => i ∉ (t.obj d).interrupts

/-- What a pass over `d` comes to that began in `s` with these statistics. -/
structure PassSound (s : State) (lb : LoadBalanceInfo) (d : ObjRef)
    (r : State × LoadBalanceInfo) : Prop where
  above : s.takenFrom r.1 d ≠ [] → r.2.minLoad < r.2.adjustmentLoad
  adjustment : s.takenFrom r.1 d ≠ [] →
    r.2.adjustmentLoad.toNat + s.irqLoads (s.takenFrom r.1 d) = (s.obj d).load.toNat
  minLoad : r.2.minLoad.toNat = lb.minLoad.toNat + s.irqLoads (s.takenFrom r.1 d)
  kept : (s.obj d).interrupts ≠ [] → (r.1.obj d).interrupts ≠ []

theorem countObj_minLoad (cfg : Config) (s : State) (d : ObjRef) (lb : LoadBalanceInfo) :
    (s.countObj cfg d lb).minLoad = lb.minLoad := by
  unfold countObj
  dsimp only
  generalize hcounted : (if (s.obj d).powersaveMode = true then
    { lb with numPowersave := lb.numPowersave + 1 } else lb) = counted
  have hsame : counted.minLoad = lb.minLoad := by
    rw [← hcounted]
    split <;> rfl
  rw [← hsame]
  split
  · split <;> rfl
  · split <;> rfl

theorem perm_filter_of_perm_append {list taken rest : List ℕ} (hnodup : list.Nodup)
    (h : list.Perm (taken ++ rest)) : (list.filter fun i => i ∉ rest).Perm taken := by
  have hdisjoint := List.disjoint_of_nodup_append (h.nodup_iff.mp hnodup)
  have hrest : rest.filter (fun i => i ∉ rest) = [] := by
    refine List.filter_eq_nil_iff.mpr fun i hi => ?_
    simpa using hi
  have htaken : taken.filter (fun i => i ∉ rest) = taken := by
    refine List.filter_eq_self.mpr fun i hi => ?_
    simpa using hdisjoint hi
  calc (list.filter fun i => i ∉ rest).Perm ((taken ++ rest).filter fun i => i ∉ rest) := h.filter _
    _ = taken := by rw [List.filter_append, htaken, hrest, List.append_nil]

section Order

variable {order : List ℕ → List ℕ}
  (horder : (order (s.obj d).interrupts).Perm (s.obj d).interrupts)
include horder

theorem perm_reorder :
    ((s.modifyIrqList (.ofObj d) order).obj d).interrupts.Perm (s.obj d).interrupts := by
  have hmod := s.irqList_modifyIrqList (.ofObj d) (.ofObj d) order
  rw [show ((s.modifyIrqList (.ofObj d) order).obj d).interrupts = _ from hmod]
  split
  · exact horder
  · exact .refl _

theorem Owned.reorder (h : s.Owned) : (s.modifyIrqList (.ofObj d) order).Owned := by
  refine h.of_same (s.seen_modifyIrqList (by intro o list; rfl) (.ofObj d) order) (fun l => ?_)
    fun i => congrArg IrqInfo.assignedObj (s.info_modifyIrqList i (.ofObj d) order)
  rw [irqList_modifyIrqList]
  split
  · rename_i hl
    rw [hl.1]
    exact horder
  · exact .refl _

/-- A pass over one object. -/
theorem migrateInOrder_spec (cfg : Config) {lb : LoadBalanceInfo} (howned : s.Owned) (hcovered : s.Covered d)
    (hroom : lb.minLoad < (s.obj d).load →
      lb.minLoad.toNat + (s.obj d).load.toNat < 2 ^ 64) :
    ∃ r, migrateInOrder cfg order (s, lb) d = some r ∧ s.Shed r.1 ∧ r.1.Owned ∧
      s.PassSound lb d r ∧ (r.2.minLoad = lb.minLoad ∨ r.2.minLoad < (s.obj d).load) := by
  have hmin := countObj_minLoad cfg s d lb
  have hnodup : (s.obj d).interrupts.Nodup := howned.agrees.nodup (.ofObj d)
  unfold migrateInOrder
  dsimp only
  split
  · -- the object is loaded above the least load and has IRQs to spare: it is walked
    rename_i hguard
    simp only [gt_iff_lt, Bool.and_eq_true, decide_eq_true_eq] at hguard
    rw [hmin] at hguard
    have hshed := s.shed_modifyIrqList d horder
    have hperm := perm_reorder horder
    obtain ⟨r, hrun, hwalked⟩ := walked_prefix (howned.reorder horder) (hshed.covered hcovered)
      (s.countObj cfg d lb) (by rw [hmin, hshed.load]; exact hroom hguard.1)
      (List.append_nil _).symm
    obtain ⟨taken, htaken, -, hadjustment, hsum, habove⟩ := hwalked.taken
    -- what the walk has taken, in the order of the list before it was sorted
    have hsame : (s.takenFrom r.1 d).Perm taken :=
      perm_filter_of_perm_append hnodup (hperm.symm.trans htaken)
    have hloads : (s.modifyIrqList (.ofObj d) order).irqLoads taken =
        s.irqLoads (s.takenFrom r.1 d) := by
      rw [show s.irqLoads (s.takenFrom r.1 d) = s.irqLoads taken from wordSum_perm _ hsame]
      exact wordSum_congr fun i _ => hshed.irqLoad i
    rw [hloads, hshed.load] at hadjustment
    rw [hloads, hmin] at hsum
    have hnil : taken = [] ↔ s.takenFrom r.1 d = [] :=
      ⟨fun h => (h ▸ hsame).eq_nil, fun h => (h ▸ hsame.symm).eq_nil⟩
    refine ⟨r, hrun, hshed.trans hwalked.shed, hwalked.owned, ⟨?_, ?_, hsum, ?_⟩, ?_⟩
    · exact fun hne => habove fun heq => hne (hnil.mp heq)
    · exact fun _ => hadjustment
    · intro hne
      refine hwalked.kept fun heq => hne ?_
      exact (heq ▸ hperm.symm).eq_nil
    · by_cases hnone : taken = []
      · refine .inl (UInt64.toNat_inj.mp ?_)
        rw [hsum, hnil.mp hnone]
        rfl
      · refine .inr ?_
        have hlt := UInt64.lt_iff_toNat_lt.mp (habove hnone)
        rw [UInt64.lt_iff_toNat_lt]
        omega
  · -- nothing is taken from the object
    have hnone : s.takenFrom s d = [] := by
      refine List.filter_eq_nil_iff.mpr fun i hi => ?_
      simpa using hi
    refine ⟨_, rfl, .refl s, howned, ⟨?_, ?_, ?_, fun hne => hne⟩, .inl hmin⟩
    · exact fun hne => absurd hnone hne
    · exact fun hne => absurd hnone hne
    · rw [hnone, hmin]
      rfl

/-- No subtraction of the walk over an object wraps. -/
theorem moveCandidates_le {lb : LoadBalanceInfo} (howned : s.Owned) (hcovered : s.Covered d)
    (hroom : lb.minLoad.toNat + (s.obj d).load.toNat < 2 ^ 64) {done rest : List ℕ} {i : ℕ}
    (hlist : ((s.modifyIrqList (.ofObj d) order).obj d).interrupts = done ++ i :: rest) :
    ∃ r, (s.modifyIrqList (.ofObj d) order).moveCandidates (s.countObj cfg d lb) d done = some r ∧
      (1 < (r.1.info i).load → (r.1.info i).load ≤ r.2.adjustmentLoad) := by
  have hshed := s.shed_modifyIrqList d horder
  have hcovered' := hshed.covered hcovered
  obtain ⟨r, hrun, hwalked⟩ := walked_prefix (howned.reorder horder) hcovered'
    (s.countObj cfg d lb) (by rw [countObj_minLoad, hshed.load]; exact hroom) hlist
  refine ⟨r, hrun, fun hload => ?_⟩
  rw [hwalked.shed.irqLoad] at hload ⊢
  exact hwalked.load_le rfl hcovered' (hwalked.ahead i List.mem_cons_self) hload

end Order

/-! ## The objects of a type -/

/-- The smallest load, or the largest part of it that the walk over `done` has filled up
again: it is zero, or within the load of an object, and of one still to come only if it
was not touched. -/
def LowLoad (s : State) (list done : List ObjRef) (minLoad : UInt64) : Prop :=
  minLoad = 0 ∨ ∃ x ∈ list, minLoad ≤ (s.obj x).load ∧ (x ∈ done ∨ minLoad = (s.obj x).load)

theorem lowLoad_loadStats (s : State) (list : List ObjRef) :
    s.LowLoad list [] (loadStats s.topo list).minLoad := by
  have hgather : ∀ lb : LoadBalanceInfo,
      lb = list.foldl (gatherLoadStats s.topo) {} →
        lb.minLoad = 0 ∨ ∃ x ∈ list, lb.minLoad = (s.obj x).load := by
    rintro _ rfl
    refine foldl_invariant (fun lb : LoadBalanceInfo =>
      lb.minLoad = 0 ∨ ∃ x ∈ list, lb.minLoad = (s.obj x).load) (fun x hx lb hlb => ?_) (.inl rfl)
    dsimp only [gatherLoadStats]
    split
    · exact .inr ⟨x, hx, rfl⟩
    · exact hlb
  have hstats : (loadStats s.topo list).minLoad =
      (list.foldl (gatherLoadStats s.topo) {}).minLoad :=
    foldl_keeps (f := computeDeviations s.topo) LoadBalanceInfo.minLoad (fun _ _ => rfl) list _
  rcases hgather _ rfl with hzero | ⟨x, hx, heq⟩
  · exact .inl (hstats.trans hzero)
  · have hmin := hstats.trans heq
    exact .inr ⟨x, hx, hmin ▸ UInt64.le_refl _, .inr hmin⟩

/-- An object with more than the smallest load does not make the sum of the two wrap: the
smallest load belongs to another object. -/
theorem LowLoad.room {list done : List ObjRef} (h : s.LowLoad list done minLoad) (hd : d ∈ list)
    (hnot : d ∉ done) (hfit : wordSum (fun d => (s.obj d).load) list < 2 ^ 64)
    (hless : minLoad < (s.obj d).load) : minLoad.toNat + (s.obj d).load.toNat < 2 ^ 64 := by
  rcases h with rfl | ⟨x, hx, hle, hwhere⟩
  · have hlt := UInt64.toNat_lt (s.obj d).load
    change 0 + _ < _
    omega
  · have hne : d ≠ x := by
      rintro rfl
      rcases hwhere with hdone | heq
      · exact hnot hdone
      · rw [heq] at hless
        exact UInt64.lt_irrefl _ hless
    have hsum := add_le_wordSum (fun d => (s.obj d).load) hx hd hne
    have hle := UInt64.le_iff_toNat_le.mp hle
    omega

/-- What a walk of `find_overloaded_objs` keeps that began in `s`: which objects are still
to come, and what has become of the state and the statistics. -/
structure Walking (s : State) (ty : ObjType) (rest : List ObjRef)
    (r : State × LoadBalanceInfo) : Prop where
  shed : s.Shed r.1
  owned : r.1.Owned
  low : ∃ done, s.topo.refs ty = done ++ rest ∧ s.LowLoad (s.topo.refs ty) done r.2.minLoad

section Walk

variable {rest : List ObjRef} {r r' : State × LoadBalanceInfo}
  (hfit : wordSum (fun d => (s.obj d).load) (s.topo.refs ty) < 2 ^ 64)
include hfit

/-- The object whose turn it is has not been touched, and there is room for what is taken
from it. -/
theorem Walking.room (h : s.Walking ty (d :: rest) r) (hless : r.2.minLoad < (r.1.obj d).load) :
    r.2.minLoad.toNat + (r.1.obj d).load.toNat < 2 ^ 64 := by
  obtain ⟨done, hrefs, hlow⟩ := h.low
  have hnodup : (done ++ d :: rest).Nodup := hrefs ▸ s.topo.nodup_refs ty
  have hnot : d ∉ done := fun hd =>
    List.disjoint_of_nodup_append hnodup hd List.mem_cons_self
  have hmem : d ∈ s.topo.refs ty := by
    rw [hrefs]
    exact List.mem_append_right done List.mem_cons_self
  rw [h.shed.load] at hless ⊢
  exact hlow.room hmem hnot hfit hless

/-- A pass over the next object. -/
theorem Walking.pass (cfg : Config) (h : s.Walking ty (d :: rest) r) (hcovered : s.Covered d)
    {order : List ℕ → List ℕ}
    (horder : (order (r.1.obj d).interrupts).Perm (r.1.obj d).interrupts) :
    ∃ r', migrateInOrder cfg order r d = some r' ∧ s.Walking ty rest r' ∧
      r.1.PassSound r.2 d r' := by
  obtain ⟨t, lb⟩ := r
  obtain ⟨r', hrun, hshed, howned, hsound, hmin⟩ := migrateInOrder_spec horder cfg h.owned
    (h.shed.covered hcovered) (h.room hfit)
  refine ⟨r', hrun, ⟨h.shed.trans hshed, howned, ?_⟩, hsound⟩
  obtain ⟨done, hrefs, hlow⟩ := h.low
  refine ⟨done ++ [d], by rw [hrefs, List.append_assoc, List.singleton_append], ?_⟩
  rcases hmin with heq | hlt
  · -- nothing was taken from `d`
    rw [heq]
    rcases hlow with hzero | ⟨x, hx, hle, hwhere⟩
    · exact .inl hzero
    · exact .inr ⟨x, hx, hle, hwhere.imp_left (List.mem_append_left [d])⟩
  · -- the smallest load now belongs to `d`
    have hmem : d ∈ s.topo.refs ty := by
      rw [hrefs]
      exact List.mem_append_right done List.mem_cons_self
    rw [h.shed.load] at hlt
    exact .inr ⟨d, hmem, UInt64.le_of_lt hlt, .inl (List.mem_append_right done List.mem_cons_self)⟩

/-- Where `find_overloaded_objs` stands when it has walked over `before`. -/
theorem walking_prefix (cfg : Config) (addr : ℕ → ℕ) (howned : s.Owned) (hcovered : ∀ d, s.Covered d)
    {before after : List ObjRef} (hrefs : s.topo.refs ty = before ++ after) :
    ∃ r, before.foldlM (migrateOverloadedIrqs cfg addr) (s, loadStats s.topo (s.topo.refs ty)) =
      some r ∧ s.Walking ty after r := by
  refine foldlM_total (fun rest r => s.Walking ty rest r) (fun d rest r h => ?_)
    ⟨.refl s, howned, [], hrefs, s.lowLoad_loadStats _⟩
  obtain ⟨r', hrun, hwalking, -⟩ := h.pass hfit cfg (hcovered d)
    (gListSort_perm (r.1.sortIrqs addr) _)
  exact ⟨r', hrun, hwalking⟩

end Walk

/-! ## All four walks -/

theorem fixed_findOverloadedObjs {addr : ℕ → ℕ} {r : State × LoadBalanceInfo} (h : s.Owned)
    (hrun : s.findOverloadedObjs cfg addr ty = some r) : r.1.fixed = s.fixed :=
  (findOverloadedObjs_moves h hrun).turns.fixed_eq

theorem enterPowersave_shed (h : s.Owned) (hrun : s.enterPowersave d = some s') : s.Shed s' := by
  have hsleep : s.Shed (s.sleep d) := s.shed_modifyObj d (fun _ => rfl) fun _ => rfl
  -- the IRQs to come are still on the CPU
  have hloop := foldlM_rest (fun rest t => s.Shed t ∧ t.Owned ∧ rest.Nodup ∧
    ∀ i ∈ rest, i ∈ (t.obj d).interrupts) ?_
    ⟨hsleep, h.sleep d, (h.sleep d).agrees.nodup (.ofObj d), fun _ hi => hi⟩ hrun
  · exact hloop.1
  · rintro i rest t t' ⟨hshed, howned, hnodup, hrest⟩ hstep
    rw [List.nodup_cons] at hnodup
    have hhome : t.home i = some (.ofObj d) := howned.mem_iff.mp (hrest i List.mem_cons_self)
    have ht' : t' = t.reassign (.ofObj d) none i := by
      simp only [forceIrqMigration, assigned_of_home hhome] at hstep
      exact (Option.some.inj hstep).symm
    subst ht'
    refine ⟨hshed.trans (shed_reassign howned hhome),
      howned.reassign hhome trivial (by simp [homeList]), hnodup.2, fun j hj => ?_⟩
    have hlist := howned.irqList_reassign hhome (a := none) trivial (by simp [homeList]) (.ofObj d)
    rw [if_neg (by simp [homeList]), if_pos rfl] at hlist
    rw [show ((t.reassign (.ofObj d) none i).obj d).interrupts = _ from hlist]
    have hji : j ≠ i := fun heq => hnodup.1 (heq ▸ hj)
    exact (List.mem_erase_of_ne hji).mpr (hrest j (List.mem_cons_of_mem _ hj))

theorem powersaveStep_shed {lb : LoadBalanceInfo} (h : s.Owned)
    (hrun : s.powersaveStep cfg lb = some s') : s.Shed s' := by
  unfold powersaveStep at hrun
  split at hrun
  · split at hrun
    · exact enterPowersave_shed h hrun
    · split at hrun
      · cases hrun
        refine foldl_invariant (fun t : State => s.Shed t) (fun d _ t ht => ?_) (.refl s)
        exact ht.trans (t.shed_modifyObj d (fun _ => rfl) fun _ => rfl)
      · cases hrun
        exact .refl s
  · cases hrun
    exact .refl s

/-- Where the walks of `update_migration_status` begin: over the objects of which type, and
in which state. -/
inductive WalkStarts (cfg : Config) (addr : ℕ → ℕ) (s : State) : ObjType → State → Prop
  | cpus : WalkStarts cfg addr s .cpu s
  | cacheDomains {t u : State} {info : LoadBalanceInfo} :
      s.findOverloadedObjs cfg addr .cpu = some (t, info) → t.powersaveStep cfg info = some u →
        WalkStarts cfg addr s .cache u
  | packages {t u : State} {info : LoadBalanceInfo} :
      WalkStarts cfg addr s .cache t → t.findOverloadedObjs cfg addr .cache = some (u, info) →
        WalkStarts cfg addr s .package u
  | numaNodes {t u : State} {info : LoadBalanceInfo} :
      WalkStarts cfg addr s .package t → t.findOverloadedObjs cfg addr .package = some (u, info) →
        WalkStarts cfg addr s .node u

/-- In `update_migration_status`, called in `s`, the turn of `d` comes with this state and
these statistics. -/
def Processes (cfg : Config) (addr : ℕ → ℕ) (s : State) (d : ObjRef)
    (r : State × LoadBalanceInfo) : Prop :=
  ∃ ty t before after, WalkStarts cfg addr s ty t ∧ t.topo.refs ty = before ++ d :: after ∧
    before.foldlM (migrateOverloadedIrqs cfg addr) (t, loadStats t.topo (t.topo.refs ty)) = some r

section Call

variable {addr : ℕ → ℕ}

theorem findOverloadedObjs_shed (howned : s.Owned) (hcovered : ∀ d, s.Covered d)
    (hfit : wordSum (fun d => (s.obj d).load) (s.topo.refs ty) < 2 ^ 64)
    {r : State × LoadBalanceInfo} (hrun : s.findOverloadedObjs cfg addr ty = some r) :
    s.Shed r.1 := by
  obtain ⟨r', hrun', hwalking⟩ := walking_prefix hfit cfg addr howned hcovered
    (List.append_nil _).symm
  have hsame : r = r' := Option.some.inj (hrun.symm.trans hrun')
  rw [hsame]
  exact hwalking.shed

variable (howned : s.Owned) (hcovered : ∀ d, s.Covered d)
  (hfit : ∀ ty, wordSum (fun d => (s.obj d).load) (s.topo.refs ty) < 2 ^ 64)
include howned hcovered hfit

theorem WalkStarts.spec (h : WalkStarts cfg addr s ty t) :
    s.Shed t ∧ t.Owned ∧ t.fixed = s.fixed := by
  have hfind : ∀ {ty t r}, s.Shed t ∧ t.Owned ∧ t.fixed = s.fixed →
      t.findOverloadedObjs cfg addr ty = some r → s.Shed r.1 ∧ r.1.Owned ∧ r.1.fixed = s.fixed := by
    intro ty t r ⟨hshed, ht, hfixed⟩ hrun
    have hfit' : wordSum (fun d => (t.obj d).load) (t.topo.refs ty) < 2 ^ 64 := by
      rw [fixed_refs hfixed, wordSum_congr fun d _ => hshed.load d]
      exact hfit ty
    have hstep := findOverloadedObjs_shed ht (fun d => hshed.covered (hcovered d)) hfit' hrun
    exact ⟨hshed.trans hstep, ht.moves (findOverloadedObjs_moves ht hrun),
      (fixed_findOverloadedObjs ht hrun).trans hfixed⟩
  induction h with
  | cpus => exact ⟨.refl s, howned, rfl⟩
  | cacheDomains hcpus hpowersave =>
      obtain ⟨hshed, ht, hfixed⟩ := hfind ⟨.refl s, howned, rfl⟩ hcpus
      have hturns := powersaveStep_turns ht
        (fun d hd => (Topology.mem_refs.mp (findOverloadedObjs_powersave hcpus hd)).1) hpowersave
      exact ⟨hshed.trans (powersaveStep_shed ht hpowersave), ht.turns hturns,
        hturns.fixed_eq.trans hfixed⟩
  | packages _ hrun ih => exact hfind ih hrun
  | numaNodes _ hrun ih => exact hfind ih hrun

/-- Where the turn of an object comes, there is room for a pass over it. -/
theorem Processes.pass {lb : LoadBalanceInfo} (h : s.Processes cfg addr d (t, lb)) :
    t.Owned ∧ t.Covered d ∧
      (lb.minLoad < (t.obj d).load → lb.minLoad.toNat + (t.obj d).load.toNat < 2 ^ 64) := by
  obtain ⟨ty, u, before, after, hstart, hrefs, hrun⟩ := h
  obtain ⟨hshed, hu, hfixed⟩ := hstart.spec howned hcovered hfit
  have hfit' : wordSum (fun d => (u.obj d).load) (u.topo.refs ty) < 2 ^ 64 := by
    rw [fixed_refs hfixed, wordSum_congr fun d _ => hshed.load d]
    exact hfit ty
  have hcovered' : ∀ d, u.Covered d := fun d => hshed.covered (hcovered d)
  obtain ⟨r, hrun', hwalking⟩ := walking_prefix hfit' cfg addr hu hcovered' hrefs
  have hsame : r = (t, lb) := Option.some.inj (hrun'.symm.trans hrun)
  subst hsame
  exact ⟨hwalking.owned, hwalking.shed.covered (hcovered' d), hwalking.room hfit'⟩

end Call

end State

/-- In every run of `main` in which the sums stay below 2^64, and for every object that
`update_migration_status` comes to and every order of its IRQs: no subtraction of
`move_candidate_irqs` wraps, and the pass over the object ends as it should. -/
theorem overload_migration_sound {c : Main.Pc × State}
    (h : ReachableWith (fun c => c.2.SumsBounded) (Main.Init cfg) (Main.Step cfg) c)
    {addr : ℕ → ℕ} (hcall : (Main.next c.2 c.1 (.updateMigrationStatus addr)).isSome)
    {lb : LoadBalanceInfo} (hd : c.2.Processes cfg addr d (t, lb)) {order : List ℕ → List ℕ}
    (horder : (order (t.obj d).interrupts).Perm (t.obj d).interrupts) :
    (lb.minLoad < (t.obj d).load → ∀ done i rest,
      ((t.modifyIrqList (.ofObj d) order).obj d).interrupts = done ++ i :: rest →
        ∃ r, (t.modifyIrqList (.ofObj d) order).moveCandidates (t.countObj cfg d lb) d done =
            some r ∧
          (1 < (r.1.info i).load → (r.1.info i).load ≤ r.2.adjustmentLoad)) ∧
      ∃ r, State.migrateInOrder cfg order (t, lb) d = some r ∧ t.PassSound lb d r := by
  have hreach : Ops.Reachable cfg c.2 := Main.Reachable.ops h.reachable
  have hbounded : c.2.SumsBounded := h.good_state
  obtain ⟨howned, hcovered, hroom⟩ := hd.pass (reachable_owned hreach)
    (Main.reachable_covered h hcall) hbounded.loads
  constructor
  · intro hless done i rest hlist
    exact State.moveCandidates_le horder howned hcovered (hroom hless) hlist
  · obtain ⟨r, hrun, -, -, hsound, -⟩ := State.migrateInOrder_spec horder cfg howned hcovered hroom
    exact ⟨r, hrun, hsound⟩

/-! ## A machine with three interrupts -/

/-- The sums of a state are those of its objects. -/
theorem State.sumsBounded_iff :
    s.SumsBounded ↔ ∀ ty ∈ [ObjType.cpu, .cache, .package, .node],
      wordSum (fun d => (s.obj d).load) (s.topo.refs ty) < 2 ^ 64 ∧
        ∀ d ∈ s.topo.refs ty,
          (s.inheritedCount d).toNat + wordSum s.irqDelta (s.obj d).interrupts < 2 ^ 64 := by
  constructor
  · exact fun h ty _ => ⟨h.loads ty, fun d _ => h.counts d⟩
  · intro h
    have hall : ∀ ty, ty ∈ [ObjType.cpu, .cache, .package, .node] := by
      intro ty
      cases ty <;> decide
    refine ⟨fun ty => (h ty (hall ty)).1, fun d => ?_⟩
    by_cases hd : s.topo.Valid d
    · exact (h d.objType (hall _)).2 d (Topology.mem_refs.mpr ⟨rfl, hd⟩)
    · have hdefault : s.obj d = default := Topology.obj_of_not_valid hd
      have hroot : s.topo.parentRef d = none := by
        unfold Topology.parentRef
        rw [Topology.obj_of_not_valid hd]
        cases d.objType.above <;> rfl
      unfold State.inheritedCount
      rw [hroot, hdefault]
      exact Nat.two_pow_pos 64

instance (s : State) : Decidable s.SumsBounded := decidable_of_iff _ State.sumsBounded_iff.symm

namespace Sample

def threeCards : Sysfs := { machine with pciDevices := some [card 1, card 2, card 3] }

/-- `/proc/interrupts`, with these counts on the first CPU. -/
def interruptsFile (count1 count2 count3 : Char) : Bytes :=
  chars ([' ', 'C', 'P', 'U', '0', '\n'] ++ ['1', ':', ' ', count1, ' ', '0', ' ', 'a', '\n'] ++
    ['2', ':', ' ', count2, ' ', '0', ' ', 'a', '\n'] ++
    ['3', ':', ' ', count3, ' ', '0', ' ', 'a', '\n'])

/-- `/proc/stat`, with these times in interrupts. -/
def statFile (irq0 irq1 : Char) : Bytes :=
  chars (['c', 'p', 'u', ' ', '\n'] ++
    ['c', 'p', 'u', '0', ' ', '0', ' ', '0', ' ', '0', ' ', '0', ' ', '0', ' ', irq0, ' ', '0', '\n'] ++
    ['c', 'p', 'u', '1', ' ', '0', ' ', '0', ' ', '0', ' ', '0', ' ', '0', ' ', irq1, ' ', '0'])

/-- The calls of `main` up to its second look at the loads, of which the first CPU has nine
tenths. -/
def untilOverload : List Op :=
  [.parseProcInterrupts (interruptsFile '0' '0' '0'), .parseProcStat (statFile '0' '0'),
    .clearWorkStats, .parseProcInterrupts (interruptsFile '0' '0' '0'),
    .parseProcStat (statFile '0' '0'), .calculatePlacement id,
    .activateMappings fun _ => { current := none, writable := false }, .nextCycle,
    .clearWorkStats, .parseProcInterrupts (interruptsFile '1' '1' '9'),
    .parseProcStat (statFile '9' '1')]

def overloaded : Main.Pc × State :=
  (untilOverload.foldlM (fun c op => (Main.exec config c op).filter fun c => c.2.SumsBounded)
    (.firstInterrupts, start config threeCards {})).getD (.firstInterrupts, {})

theorem overloaded_run :
    untilOverload.foldlM (fun c op => (Main.exec config c op).filter fun c => c.2.SumsBounded)
      (.firstInterrupts, start config threeCards {}) = some overloaded := by
  have hsome : (untilOverload.foldlM
      (fun c op => (Main.exec config c op).filter fun c => c.2.SumsBounded)
      (.firstInterrupts, start config threeCards {})).isSome = true := by decide +kernel
  obtain ⟨c, hc⟩ := Option.isSome_iff_exists.mp hsome
  rw [overloaded, hc]
  rfl

theorem reachable_overloaded :
    ReachableWith (fun c => c.2.SumsBounded) (Main.Init config) (Main.Step config) overloaded := by
  have hstart : ReachableWith (fun c => c.2.SumsBounded) (Main.Init config) (Main.Step config)
      (.firstInterrupts, start config threeCards {}) :=
    .init ⟨rfl, threeCards, {}, rfl⟩ (by decide +kernel)
  have hexec : ∀ c op c', Main.exec config c op = some c' → Main.Step config c op c' :=
    fun _ _ _ hstep => Main.exec_eq_some.mp hstep
  exact ReachableWith.of_run hexec hstart overloaded_run

/-- The statistics of the CPUs. -/
def cpuStats : LoadBalanceInfo := loadStats overloaded.2.topo (overloaded.2.topo.refs .cpu)

/-- The turn of the first CPU comes first. -/
theorem processes_cpu0 : overloaded.2.Processes config id ⟨.cpu, 0⟩ (overloaded.2, cpuStats) :=
  ⟨.cpu, overloaded.2, [], [⟨.cpu, 1⟩], .cpus, by decide +kernel, rfl⟩

end Sample

theorem overload_migration_sound_cpu0 :
    (Sample.cpuStats.minLoad < (Sample.overloaded.2.obj ⟨.cpu, 0⟩).load → ∀ done i rest,
      ((Sample.overloaded.2.modifyIrqList (.ofObj ⟨.cpu, 0⟩) List.reverse).obj
          ⟨.cpu, 0⟩).interrupts = done ++ i :: rest →
        ∃ r, (Sample.overloaded.2.modifyIrqList (.ofObj ⟨.cpu, 0⟩) List.reverse).moveCandidates
            (Sample.overloaded.2.countObj Sample.config ⟨.cpu, 0⟩ Sample.cpuStats) ⟨.cpu, 0⟩ done =
            some r ∧
          (1 < (r.1.info i).load → (r.1.info i).load ≤ r.2.adjustmentLoad)) ∧
      ∃ r, State.migrateInOrder Sample.config List.reverse (Sample.overloaded.2, Sample.cpuStats)
          ⟨.cpu, 0⟩ = some r ∧
        Sample.overloaded.2.PassSound Sample.cpuStats ⟨.cpu, 0⟩ r :=
  overload_migration_sound Sample.reachable_overloaded (by decide +kernel) Sample.processes_cpu0
    (List.reverse_perm _)

end CodeAnalyze.Irqbalance
