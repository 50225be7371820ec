import CodeAnalyze.Irqbalance.BannedCpus
import CodeAnalyze.Irqbalance.Depth

/-!
# Where the placement heeds the affinity hint

Under the subset policy `find_best_object` passes over every object whose mask misses the
affinity hint, but `place_irq_in_node` puts an IRQ on its own node without this test.  The
test itself looks at the banned CPUs of a node too.  The pass over the nodes takes the IRQ
on, if a child of the node is eligible; otherwise it ends on the node, whatever the hint says.

Nothing here asks for bounds on the loads: what follows is said of every call that returns.
-/

namespace CodeAnalyze.Irqbalance

open Lib Relation

namespace State

variable {cfg : Config} {addr : ℕ → ℕ} {s t t' u u' : State} {i j n : ℕ} {d : ObjRef}
  {passed passed' : ObjRef → Prop}

/-! ## One IRQ -/

/-- The object `find_best_object` settles on: the first of the least load, or the last of
these that has fewer IRQs than the first. -/
def Picked (s : State) (list : List ObjRef) (d : ObjRef) : Prop :=
  ∃ first rest, leastLoaded s list = first :: rest ∧
    (rest.filter fun e => s.irqCountOf e < s.irqCountOf first).getLast?.getD first = d

theorem Picked.unique {list : List ObjRef} {e : ObjRef} (hd : s.Picked list d)
    (he : s.Picked list e) : d = e := by
  obtain ⟨first, rest, hleast, rfl⟩ := hd
  obtain ⟨first', rest', hleast', rfl⟩ := he
  obtain ⟨rfl, rfl⟩ := List.cons.inj (hleast.symm.trans hleast')
  rfl

theorem Picked.mem {list : List ObjRef} (h : s.Picked list d) : d ∈ list := by
  obtain ⟨first, rest, hleast, rfl⟩ := h
  have hlast : (rest.filter fun e => s.irqCountOf e < s.irqCountOf first).getLast?.getD first ∈
      first :: rest := by
    cases hlast : (rest.filter fun e => s.irqCountOf e < s.irqCountOf first).getLast? with
    | none => exact List.mem_cons_self
    | some last =>
        exact List.mem_cons_of_mem first (List.mem_of_mem_filter (List.mem_of_getLast? hlast))
  rw [← hleast] at hlast
  exact List.mem_of_mem_filter hlast

theorem not_picked_nil : ¬s.Picked [] d := by
  rintro ⟨first, rest, hleast, -⟩
  cases hleast

/-- A walk over candidates that returns has chosen among the eligible ones, if there are
any. -/
theorem selectObject_returns {info : IrqInfo} {candidates : List ObjRef} {chosen : Option ObjRef}
    (hrun : s.selectObject cfg info candidates = some chosen) :
    chosen = none ∧ eligibleOf cfg s info candidates = [] ∨
      ∃ d ∈ candidates, chosen = some d ∧ Eligible cfg s info d ∧
        s.Picked (eligibleOf cfg s info candidates) d := by
  cases heligible : eligibleOf cfg s info candidates with
  | nil =>
      rw [selectObject_of_none heligible] at hrun
      exact .inl ⟨(Option.some.inj hrun).symm, rfl⟩
  | cons first more =>
      by_cases hload : (s.obj first).load = ulongMax
      · rw [selectObject_null heligible hload] at hrun
        cases hrun
      · obtain ⟨place, best, rest, hscan, hselect⟩ := selectObject_scanned heligible hload
        obtain ⟨d, hd, hplace⟩ := hscan.chosen
        have hchosen : chosen = some d := by
          rw [← hplace, ← Option.some.inj (hrun.symm.trans hselect)]
        have hmem : d ∈ eligibleOf cfg s info candidates := by
          rw [heligible]
          exact List.mem_of_mem_filter (hscan.leastLoaded_eq ▸ hd)
        obtain ⟨hcand, helig⟩ := mem_eligibleOf.mp hmem
        refine .inr ⟨d, hcand, hchosen, helig, best, rest, hscan.leastLoaded_eq, ?_⟩
        rw [hscan.least, hscan.best] at hplace
        cases hlast : (rest.filter fun e => s.irqCountOf e < s.irqCountOf best).getLast? with
        | none =>
            rw [hlast] at hplace
            exact Option.some.inj hplace
        | some last =>
            rw [hlast] at hplace
            exact Option.some.inj hplace

/-- `find_best_object_for_irq` leaves an IRQ where it is, because it may not move or has
nowhere to go, or takes it to an eligible child. -/
theorem findBestObjectForIrq_cases (hrun : findBestObjectForIrq cfg d t i = some t') :
    t' = t ∧ ((t.info i).moved = true → d.objType ≠ (t.info i).level.objType →
        ∀ c ∈ t.topo.childRefs d, ¬Eligible cfg t (t.info i) c) ∨
      ∃ c ∈ t.topo.childRefs d, Eligible cfg t (t.info i) c ∧
        t' = t.assignIrq (.ofObj d) c i (t.info i).load := by
  unfold findBestObjectForIrq at hrun
  split at hrun
  · rename_i hmoved
    cases hrun
    exact .inl ⟨rfl, fun h => absurd h (by simpa using hmoved)⟩
  · split at hrun
    · rename_i hstays
      cases hrun
      exact .inl ⟨rfl, fun _ hne => absurd (staysAt_iff.mp hstays) hne⟩
    · simp only [Option.bind_eq_bind, Option.bind_eq_some_iff] at hrun
      obtain ⟨chosen, hchosen, hrun⟩ := hrun
      rcases selectObject_returns hchosen with ⟨rfl, hnone⟩ | ⟨c, hc, rfl, helig, -⟩
      · cases hrun
        refine .inl ⟨rfl, fun _ _ c hc helig => ?_⟩
        exact List.ne_nil_of_mem (mem_eligibleOf.mpr ⟨hc, helig⟩) hnone
      · cases hrun
        exact .inr ⟨c, hc, helig, rfl⟩

/-! ## The waiting IRQs -/

/-- The node on which `place_irq_in_node` puts an IRQ: its own, or else the choice of
`find_best_object` among all. -/
inductive GoesTo (cfg : Config) (s : State) (i n : ℕ) : Prop
  | own : OwnNode s i n → GoesTo cfg s i n
  | picked : (∀ m, ¬OwnNode s i m) →
      s.Picked (eligibleOf cfg s (s.info i) (s.topo.refs .node)) ⟨.node, n⟩ → GoesTo cfg s i n

theorem GoesTo.unique {m : ℕ} (hm : GoesTo cfg s i m) (hn : GoesTo cfg s i n) : m = n := by
  cases hm with
  | own hown =>
      cases hn with
      | own hown' => exact Option.some.inj (hown.numaNode.symm.trans hown'.numaNode)
      | picked hnone _ => exact absurd hown (hnone m)
  | picked hnone hpicked =>
      cases hn with
      | own hown' => exact absurd hown' (hnone n)
      | picked _ hpicked' => exact congrArg ObjRef.place (hpicked.unique hpicked')

/-- The part after `find_placement`, for an IRQ that has no node of its own. -/
theorem findPlacement_cases (hown : ∀ m, ¬OwnNode s i m) (hrun : s.findPlacement cfg i = some s') :
    s' = s ∧ (∀ n, ¬GoesTo cfg s i n) ∨
      ∃ n load, GoesTo cfg s i n ∧ s' = s.assignIrq .rebalance ⟨.node, n⟩ i load := by
  simp only [findPlacement, Option.bind_eq_bind, Option.bind_eq_some_iff] at hrun
  obtain ⟨chosen, hchosen, hrun⟩ := hrun
  rcases selectObject_returns hchosen with ⟨rfl, hnone⟩ | ⟨c, hc, rfl, -, hpicked⟩
  · cases hrun
    refine .inl ⟨rfl, fun n hn => ?_⟩
    cases hn with
    | own hself => exact hown n hself
    | picked _ hpicked =>
        rw [hnone] at hpicked
        exact not_picked_nil hpicked
  · cases hrun
    obtain ⟨ty, n⟩ := c
    obtain rfl : ty = .node := (Topology.mem_refs.mp hc).1
    exact .inr ⟨n, _, .picked hown hpicked, rfl⟩

/-- `place_irq_in_node` leaves an IRQ where it is, if there is no node for it, or puts it on
the node. -/
theorem placeIrqInNode_cases (hi : s.home i = some .rebalance)
    (hrun : s.placeIrqInNode cfg i = some s') :
    s' = s ∧ (∀ n, ¬GoesTo cfg s i n) ∨
      ∃ n load, GoesTo cfg s i n ∧ s' = s.assignIrq .rebalance ⟨.node, n⟩ i load := by
  have hlevel : (s.info i).level ≠ .none := level_of_home hi
  unfold placeIrqInNode at hrun
  simp only [hlevel, decide_false, Bool.false_and, Bool.false_eq_true, if_false] at hrun
  split at hrun
  · cases hrun
  · rename_i n hnode
    have honly (m : ℕ) (hm : OwnNode s i m) : m = n :=
      Option.some.inj (hm.numaNode.symm.trans hnode)
    split at hrun
    · rename_i hnumber
      split at hrun
      · -- the node has banned CPUs only, so it is nobody's own node
        rename_i hbanned
        refine findPlacement_cases (fun m hm => ?_) hrun
        have hunbanned := hm.unbanned
        rw [honly m hm] at hunbanned
        simp [hunbanned] at hbanned
      · -- the IRQ goes to its node without a look at the hint
        rename_i hunbanned
        cases hrun
        exact .inr ⟨n, _, .own ⟨hnode, hnumber, by simpa using hunbanned⟩, rfl⟩
    · -- the unspecified node: the search among all nodes
      rename_i hnumber
      refine findPlacement_cases (fun m hm => hnumber ?_) hrun
      rw [← honly m hm]
      exact hm.specified

/-- `calculate_placement` comes to a waiting IRQ in the state `u`. -/
def ComesTo (cfg : Config) (addr : ℕ → ℕ) (s : State) (i : ℕ) (u : State) : Prop :=
  ∃ before after, (s.sortIrqList addr .rebalance).irqs.rebalanceIrqList = before ++ i :: after ∧
    before.foldlM (placeIrqInNode cfg) (s.sortIrqList addr .rebalance) = some u

theorem ComesTo.unique (hnodup : (s.sortIrqList addr .rebalance).irqs.rebalanceIrqList.Nodup)
    (hu : ComesTo cfg addr s i u) (hu' : ComesTo cfg addr s i u') : u = u' := by
  obtain ⟨before, after, hlist, hrun⟩ := hu
  obtain ⟨before', after', hlist', hrun'⟩ := hu'
  have hnot : i ∉ before ++ after := by
    rw [hlist] at hnodup
    exact (List.nodup_cons.mp (List.nodup_middle.mp hnodup)).1
  rw [List.mem_append, not_or] at hnot
  obtain ⟨rfl, -, -⟩ := (List.append_cons_inj_of_notMem hnot.1 hnot.2).mp
    (hlist.symm.trans hlist')
  exact Option.some.inj (hrun.symm.trans hrun')

/-- The node on which the placement puts a waiting IRQ when it comes to it. -/
def NodeFor (cfg : Config) (addr : ℕ → ℕ) (s : State) (i n : ℕ) : Prop :=
  ∃ u, ComesTo cfg addr s i u ∧ GoesTo cfg u i n

theorem nodup_waiting (hs : s.Owned) (addr : ℕ → ℕ) :
    (s.sortIrqList addr .rebalance).irqs.rebalanceIrqList.Nodup :=
  (s.sortIrqList_perm addr .rebalance .rebalance).nodup_iff.mpr (hs.agrees.nodup .rebalance)

theorem NodeFor.unique {m : ℕ} (hs : s.Owned) (hm : NodeFor cfg addr s i m)
    (hn : NodeFor cfg addr s i n) : m = n := by
  obtain ⟨u, hu, hm⟩ := hm
  obtain ⟨u', hu', hn⟩ := hn
  obtain rfl := hu.unique (nodup_waiting hs addr) hu'
  exact hm.unique hn

/-! ## Where an IRQ sits -/

/-- Where the placement that started in `s` has put an IRQ; it has been over the objects
in `passed`. -/
inductive Seat (cfg : Config) (addr : ℕ → ℕ) (s t : State) (i : ℕ) (passed : ObjRef → Prop) :
    Prop
  /-- It is where it was. -/
  | left : t.info i = s.info i → (∀ n, ¬NodeFor cfg addr s i n) → Seat cfg addr s t i passed
  /-- It is on the node, and cannot go on from there if the pass has been there. -/
  | onNode (n : ℕ) : NodeFor cfg addr s i n → t.home i = some (.ofObj ⟨.node, n⟩) →
      (t.info i).moved = true → (passed ⟨.node, n⟩ → Stuck cfg s i ⟨.node, n⟩) →
      Seat cfg addr s t i passed
  /-- It is below a node, on an object that was chosen for it. -/
  | below (o : ObjRef) : o.objType ≠ .node → t.home i = some (.ofObj o) →
      Eligible cfg s (s.info i) o → (∀ n, NodeFor cfg addr s i n → ¬Stuck cfg s i ⟨.node, n⟩) →
      Seat cfg addr s t i passed

theorem Seat.mono (h : Seat cfg addr s t i passed)
    (hsub : ∀ e, passed' e → t.home i = some (.ofObj e) → passed e) :
    Seat cfg addr s t i passed' := by
  cases h with
  | left hsame hnone => exact .left hsame hnone
  | onNode n hgoes hhome hmoved hstuck =>
      exact .onNode n hgoes hhome hmoved fun hpassed => hstuck (hsub _ hpassed hhome)
  | below o hbelow hhome helig hgone => exact .below o hbelow hhome helig hgone

theorem Seat.congr (h : Seat cfg addr s t i passed) (hinfo : t'.info i = t.info i)
    (hhome : t'.home i = t.home i) : Seat cfg addr s t' i passed := by
  cases h with
  | left hsame hnone => exact .left (hinfo.trans hsame) hnone
  | onNode n hgoes hon hmoved hstuck =>
      exact .onNode n hgoes (hhome.trans hon) (by rwa [hinfo]) hstuck
  | below o hbelow hon helig hgone => exact .below o hbelow (hhome.trans hon) helig hgone

/-- A call of `calculate_placement` that started in `s` has come to `t`. -/
structure Seating (cfg : Config) (addr : ℕ → ℕ) (s t : State) (i : ℕ) (passed : ObjRef → Prop) :
    Prop where
  start : s.Owned
  moves : Moves cfg s t
  owned : t.Owned
  seat : Seat cfg addr s t i passed

/-- The IRQs in `rest` wait for their turn, as they were in `s`. -/
structure Queued (cfg : Config) (s : State) (rest : List ℕ) (u : State) : Prop where
  moves : Moves cfg s u
  owned : u.Owned
  nodup : rest.Nodup
  waiting : ∀ j ∈ rest, u.home j = some .rebalance
  same : ∀ j ∈ rest, u.info j = s.info j

theorem Queued.start (hs : s.Owned) (addr : ℕ → ℕ) :
    Queued cfg s (s.sortIrqList addr .rebalance).irqs.rebalanceIrqList
      (s.sortIrqList addr .rebalance) := by
  have hsort : Move cfg s (s.sortIrqList addr .rebalance) := .sort addr .rebalance
  have hsorted := hs.move hsort
  exact ⟨.single hsort, hsorted, nodup_waiting hs addr, fun j hj => hsorted.mem_iff.mp hj,
    fun _ _ => rfl⟩

/-- What `place_irq_in_node` does to one IRQ is not seen at another. -/
theorem placeIrqInNode_info (howned : t.Owned) (hj : t.home j = some .rebalance) (hij : i ≠ j)
    (hrun : t.placeIrqInNode cfg j = some t') : t'.info i = t.info i := by
  rcases placeIrqInNode_cases hj hrun with ⟨rfl, -⟩ | ⟨n, load, -, rfl⟩
  · rfl
  · exact (info_assignIrq howned hj i).trans (if_neg hij)

theorem Queued.next {rest : List ℕ} (h : Queued cfg s (j :: rest) u)
    (hstep : u.placeIrqInNode cfg j = some u') :
    Queued cfg s rest u' ∧ ∀ i, i ≠ j → u'.info i = u.info i ∧ u'.home i = u.home i := by
  obtain ⟨hnot, hrest⟩ := List.nodup_cons.mp h.nodup
  have hj := h.waiting j List.mem_cons_self
  obtain ⟨hmv, hothers⟩ := placeIrqInNode_moves h.owned hj hstep
  have hinfo (i : ℕ) (hij : i ≠ j) : u'.info i = u.info i :=
    placeIrqInNode_info h.owned hj hij hstep
  refine ⟨⟨h.moves.trans hmv, h.owned.moves hmv, hrest, fun k hk => ?_, fun k hk => ?_⟩,
    fun i hij => ⟨hinfo i hij, hothers i hij⟩⟩
  · rw [hothers k fun heq => hnot (heq ▸ hk)]
    exact h.waiting k (List.mem_cons_of_mem _ hk)
  · rw [hinfo k fun heq => hnot (heq ▸ hk)]
    exact h.same k (List.mem_cons_of_mem _ hk)

theorem ComesTo.queued (hs : s.Owned) (h : ComesTo cfg addr s i u) :
    ∃ rest, Queued cfg s (i :: rest) u := by
  obtain ⟨before, after, hlist, hrun⟩ := h
  have hloop := foldlM_rest (fun rest v => Queued cfg s (rest ++ i :: after) v) ?_ ?_ hrun
  · exact ⟨after, hloop⟩
  · exact fun j rest v v' hv hstep => (Queued.next hv hstep).1
  · rw [← hlist]
    exact .start hs addr

/-- The turn of the IRQ: it is put on its node. -/
theorem ComesTo.seat {rest : List ℕ} (hs : s.Owned) (hqueued : Queued cfg s (i :: rest) t)
    (hcomes : ComesTo cfg addr s i t) (hrun : t.placeIrqInNode cfg i = some t') :
    Seat cfg addr s t' i fun _ => False := by
  have hi := hqueued.waiting i List.mem_cons_self
  rcases placeIrqInNode_cases hi hrun with ⟨rfl, hnone⟩ | ⟨n, load, hgoes, rfl⟩
  · refine .left (hqueued.same i List.mem_cons_self) ?_
    rintro n ⟨u, hu, hgoes⟩
    exact hnone n (hcomes.unique (nodup_waiting hs addr) hu ▸ hgoes)
  · refine .onNode n ⟨t, hcomes, hgoes⟩ ?_ ?_ False.elim
    · exact (home_assignIrq hqueued.owned hi i).trans (if_pos rfl)
    · rw [info_assignIrq hqueued.owned hi, if_pos rfl]

/-- The loop over the waiting IRQs comes to every one of them. -/
theorem foldlM_placeIrqInNode_seating (hs : s.Owned)
    (hrun : (s.sortIrqList addr .rebalance).irqs.rebalanceIrqList.foldlM (placeIrqInNode cfg)
      (s.sortIrqList addr .rebalance) = some t) :
    Seating cfg addr s t i fun _ => False := by
  -- the IRQ has its seat as soon as it does not wait any more
  have hloop := foldlM_rest (fun rest u => Queued cfg s rest u ∧
    (∃ before, (s.sortIrqList addr .rebalance).irqs.rebalanceIrqList = before ++ rest ∧
      before.foldlM (placeIrqInNode cfg) (s.sortIrqList addr .rebalance) = some u) ∧
    (i ∉ rest → Seat cfg addr s u i fun _ => False)) ?_ ?_ hrun
  · obtain ⟨hqueued, -, hseat⟩ := hloop
    exact ⟨hs, hqueued.moves, hqueued.owned, hseat List.not_mem_nil⟩
  · rintro j rest u u' ⟨hqueued, ⟨before, hlist, hbefore⟩, hseat⟩ hstep
    obtain ⟨hnext, hothers⟩ := hqueued.next hstep
    refine ⟨hnext, ⟨before ++ [j], ?_, ?_⟩, fun hi => ?_⟩
    · rw [hlist, List.append_assoc]
      rfl
    · rw [List.foldlM_append, hbefore]
      simp [hstep]
    · by_cases hij : i = j
      · subst hij
        exact ComesTo.seat hs hqueued ⟨before, rest, hlist, hbefore⟩ hstep
      · have hseat := hseat fun hmem => hi ((List.mem_cons.mp hmem).resolve_left hij)
        exact hseat.congr (hothers i hij).1 (hothers i hij).2
  · refine ⟨.start hs addr, ⟨[], rfl, rfl⟩, fun hi => .left rfl ?_⟩
    rintro n ⟨u, ⟨before, after, hlist, -⟩, -⟩
    rw [hlist] at hi
    exact hi (List.mem_append_right _ List.mem_cons_self)

/-! ## The node for an IRQ -/

theorem OwnNode.congr (h : OwnNode s i n) (hfixed : u.fixed = s.fixed) : OwnNode u i n where
  numaNode := by
    rw [fixed_numaNode hfixed]
    exact h.numaNode
  specified := by
    rw [fixed_number hfixed]
    exact h.specified
  unbanned := by
    rw [fixed_mask hfixed, fixed_unbannedCpus hfixed]
    exact h.unbanned

/-- A call that returns has come to every waiting IRQ. -/
theorem exists_comesTo (hrun : s.calculatePlacement cfg addr = some t)
    (hi : i ∈ s.irqs.rebalanceIrqList) : ∃ u, ComesTo cfg addr s i u := by
  have hlist : i ∈ (s.sortIrqList addr .rebalance).irqs.rebalanceIrqList :=
    (s.sortIrqList_perm addr .rebalance .rebalance).mem_iff.mpr hi
  unfold calculatePlacement at hrun
  dsimp only at hrun
  rw [if_pos (List.length_pos_of_mem hlist)] at hrun
  simp only [Option.bind_eq_bind, Option.bind_eq_some_iff] at hrun
  obtain ⟨t₁, hwalk, -⟩ := hrun
  obtain ⟨before, after, hsplit⟩ := List.append_of_mem hlist
  rw [hsplit, List.foldlM_append] at hwalk
  obtain ⟨u, hu, -⟩ := Option.bind_eq_some_iff.mp hwalk
  exact ⟨u, before, after, hsplit, hu⟩

/-- The node of an IRQ that waits is its own, whatever was placed before. -/
theorem nodeFor_of_own (hs : s.Owned) (hrun : s.calculatePlacement cfg addr = some t)
    (hi : i ∈ s.irqs.rebalanceIrqList) (hown : OwnNode s i n) : NodeFor cfg addr s i n := by
  obtain ⟨u, hcomes⟩ := exists_comesTo hrun hi
  obtain ⟨rest, hqueued⟩ := hcomes.queued hs
  exact ⟨u, hcomes, .own (hown.congr hqueued.moves.turns.fixed_eq)⟩

/-- An IRQ without a node of its own goes to a node it may go to. -/
theorem NodeFor.eligible (hs : s.Owned) (h : NodeFor cfg addr s i n)
    (hown : ∀ m, ¬OwnNode s i m) : Eligible cfg s (s.info i) ⟨.node, n⟩ := by
  obtain ⟨u, hcomes, hgoes⟩ := h
  obtain ⟨rest, hqueued⟩ := hcomes.queued hs
  cases hgoes with
  | own hself => exact absurd (hself.congr hqueued.moves.turns.fixed_eq.symm) (hown n)
  | picked _ hpicked => exact (hqueued.moves.eligible_iff i _).mp (mem_eligibleOf.mp hpicked.mem).2

/-! ## The passes -/

/-- A pass comes to the IRQ. -/
theorem Seating.visit (h : Seating cfg addr s t i passed) (hi : t.home i = some (.ofObj d))
    (hrun : findBestObjectForIrq cfg d t i = some t') :
    Seat cfg addr s t' i fun e => passed e ∨ e = d := by
  have hfixed := h.moves.turns.fixed_eq
  have hchildren (p : ObjRef) : t.topo.childRefs p = s.topo.childRefs p := fixed_childRefs hfixed p
  rcases findBestObjectForIrq_cases hrun with ⟨rfl, hstays⟩ | ⟨c, hc, helig, rfl⟩
  · cases h.seat with
    | left hsame hnone => exact .left hsame hnone
    | onNode n hgoes hhome hmoved hstuck =>
        refine .onNode n hgoes hhome hmoved fun _ c hc helig => ?_
        rw [hi] at hhome
        cases hhome
        have hlevel : (t'.info i).level ≠ .none := level_of_home hi
        have hne : ObjType.node ≠ (t'.info i).level.objType := by
          cases hty : (t'.info i).level with
          | none => exact absurd hty hlevel
          | package => decide
          | cache => decide
          | core => decide
        exact hstays hmoved hne c (hchildren _ ▸ hc) ((h.moves.eligible_iff i c).mpr helig)
    | below o hbelow hhome helig hgone => exact .below o hbelow hhome helig hgone
  · have helig' := (h.moves.eligible_iff i c).mp helig
    have hbelow : c.objType ≠ .node := by
      intro hnode
      have hchild := Topology.objType_of_mem_childRefs hc
      rw [hnode] at hchild
      cases hd : d.objType <;> rw [hd] at hchild <;> cases hchild
    refine .below c hbelow ((home_assignIrq h.owned hi i).trans (if_pos rfl)) helig'
      fun n hn => ?_
    cases h.seat with
    | left _ hnone => exact absurd hn (hnone n)
    | onNode m hgoes hhome _ _ =>
        rw [hi] at hhome
        cases hhome
        rw [hn.unique h.start hgoes]
        exact fun hstuck => hstuck c (hchildren _ ▸ hc) helig'
    | below _ _ _ _ hgone => exact hgone n hn

theorem findBestObjectForIrq_info (howned : t.Owned) (hj : t.home j = some (.ofObj d)) (hij : i ≠ j)
    (hrun : findBestObjectForIrq cfg d t j = some t') : t'.info i = t.info i := by
  rcases findBestObjectForIrq_cases hrun with ⟨rfl, -⟩ | ⟨c, -, -, rfl⟩
  · rfl
  · exact (info_assignIrq howned hj i).trans (if_neg hij)

/-- A pass comes to one object. -/
theorem Seating.placeIrqInObject (h : Seating cfg addr s t i passed)
    (hrun : t.placeIrqInObject cfg d = some t') :
    Seating cfg addr s t' i fun e => passed e ∨ e = d := by
  have hloop := foldlM_rest (fun rest u =>
    Seating cfg addr s u i (fun e => passed e ∨ e = d ∧ i ∉ rest) ∧
    rest.Nodup ∧ ∀ j ∈ rest, u.home j = some (.ofObj d)) ?_ ?_ hrun
  · obtain ⟨hseating, -, -⟩ := hloop
    refine ⟨h.start, hseating.moves, hseating.owned, hseating.seat.mono fun e hpassed _ => ?_⟩
    exact hpassed.imp_right fun heq => ⟨heq, List.not_mem_nil⟩
  · rintro j rest u u' ⟨hu, hnodup, hhome⟩ hstep
    obtain ⟨hnot, hnodup⟩ := List.nodup_cons.mp hnodup
    have hj := hhome j List.mem_cons_self
    obtain ⟨hmv, hothers⟩ := findBestObjectForIrq_moves hu.owned hj hstep
    refine ⟨⟨h.start, hu.moves.trans hmv, hu.owned.moves hmv, ?_⟩, hnodup, fun k hk => ?_⟩
    · by_cases hij : i = j
      · subst hij
        exact (hu.visit hj hstep).mono fun e hpassed _ =>
          hpassed.elim (fun hpassed => .inl (.inl hpassed)) fun heq => .inr heq.1
      · refine (hu.seat.congr (findBestObjectForIrq_info hu.owned hj hij hstep)
          (hothers i hij)).mono fun e hpassed _ =>
            hpassed.imp_right fun heq => ⟨heq.1, fun hmem => ?_⟩
        exact heq.2 ((List.mem_cons.mp hmem).resolve_left hij)
    · rw [hothers k fun heq => hnot (heq ▸ hk)]
      exact hhome k (List.mem_cons_of_mem _ hk)
  · refine ⟨⟨h.start, h.moves, h.owned, h.seat.mono fun e hpassed hon => ?_⟩,
      h.owned.agrees.nodup (.ofObj d), fun j hj => h.owned.mem_iff.mp hj⟩
    rcases hpassed with hpassed | ⟨rfl, hnot⟩
    · exact hpassed
    · exact absurd (h.owned.mem_iff.mpr hon) hnot

/-- The pass over the objects of a type. -/
theorem Seating.pass {ty : ObjType} (h : Seating cfg addr s t i passed)
    (hrun : (t.topo.refs ty).foldlM (State.placeIrqInObject cfg) t = some t') :
    Seating cfg addr s t' i fun e => passed e ∨ e.objType = ty := by
  have hloop := foldlM_rest (fun rest u =>
    Seating cfg addr s u i fun e => passed e ∨ e.objType = ty ∧ e ∉ rest) ?_ ?_ hrun
  · refine ⟨h.start, hloop.moves, hloop.owned, hloop.seat.mono fun e hpassed _ => ?_⟩
    exact hpassed.imp_right fun heq => ⟨heq, List.not_mem_nil⟩
  · intro d rest u u' hu hstep
    have hvisited := hu.placeIrqInObject hstep
    refine ⟨h.start, hvisited.moves, hvisited.owned, hvisited.seat.mono fun e hpassed _ => ?_⟩
    rcases hpassed with hpassed | ⟨hty, hrest⟩
    · exact .inl (.inl hpassed)
    · by_cases hed : e = d
      · exact .inr hed
      · exact .inl (.inr ⟨hty, fun hmem => hrest ((List.mem_cons.mp hmem).resolve_left hed)⟩)
  · refine ⟨h.start, h.moves, h.owned, h.seat.mono fun e hpassed hon => ?_⟩
    rcases hpassed with hpassed | ⟨hty, hnot⟩
    · exact hpassed
    · exact absurd (Topology.mem_refs.mpr ⟨hty, h.owned.valid_of_home hon⟩) hnot

/-! ## `calculate_placement` -/

/-- When the placement is over, the nodes have been passed over. -/
theorem calculatePlacement_seating (hs : s.Owned)
    (hrun : s.calculatePlacement cfg addr = some t) (i : ℕ) :
    Seating cfg addr s t i fun e => e.objType = .node := by
  have hsort : Move cfg s (s.sortIrqList addr .rebalance) := .sort addr .rebalance
  unfold calculatePlacement at hrun
  dsimp only at hrun
  split at hrun
  · simp only [Option.bind_eq_bind, Option.bind_eq_some_iff] at hrun
    obtain ⟨t₁, h₁, t₂, h₂, t₃, h₃, h₄⟩ := hrun
    have hwaiting := foldlM_placeIrqInNode_seating (i := i) hs h₁
    have hpasses := ((hwaiting.pass h₂).pass h₃).pass h₄
    exact ⟨hs, hpasses.moves, hpasses.owned,
      hpasses.seat.mono fun e hnode _ => .inl (.inl (.inr hnode))⟩
  · rename_i hempty
    cases hrun
    refine ⟨hs, .single hsort, hs.move hsort, .left rfl ?_⟩
    rintro n ⟨u, ⟨before, after, hlist, -⟩, -⟩
    exact hempty (by simp [hlist])

/-- The mask of the object an IRQ is assigned to intersects its affinity hint, and
`activate_mapping` has a mask for it. -/
structure HintMet (cfg : Config) (s : State) (i : ℕ) : Prop where
  meets : ∃ o, (s.info i).assignedObj = some o ∧
    cpusIntersects (s.info i).affinityHint (s.obj o).mask = true
  applied : (s.appliedMask cfg (s.info i)).isSome = true

/-- The mask of the object has an unbanned CPU of the hint. -/
def OffersHint (s : State) (i : ℕ) (o : ObjRef) : Prop :=
  cpusIntersects ((s.obj o).mask &&& (s.info i).affinityHint) s.topo.unbannedCpus = true

/-- The node has an unbanned CPU of the hint, or a child to which the IRQ may go. -/
def NodeOffers (cfg : Config) (s : State) (i n : ℕ) : Prop :=
  OffersHint s i ⟨.node, n⟩ ∨ ∃ c ∈ s.topo.childRefs ⟨.node, n⟩, Eligible cfg s (s.info i) c

/-- So has the node on which the placement puts the IRQ. -/
def HintHeeded (cfg : Config) (addr : ℕ → ℕ) (s : State) (i : ℕ) : Prop :=
  ∀ n, NodeFor cfg addr s i n → NodeOffers cfg s i n

/-- An IRQ on an object, under the subset policy and with a hint. -/
theorem hintMet_iff_offers {o : ObjRef} (ho : t.home i = some (.ofObj o))
    (hpolicy : (t.info i).hintPolicy = .subset) (hhint : cpusEmpty (t.info i).affinityHint = false) :
    HintMet cfg t i ↔ OffersHint t i o := by
  have hassigned := assigned_of_home ho
  have happlied : t.appliedMask cfg (t.info i) =
      if cpusIntersects ((t.obj o).mask &&& (t.info i).affinityHint) t.topo.unbannedCpus then
        some ((t.obj o).mask &&& (t.info i).affinityHint)
      else none := by
    simp [appliedMask, hassigned, hpolicy, hhint]
  constructor
  · intro hmet
    have hsome := hmet.applied
    unfold OffersHint
    by_contra hnot
    rw [happlied, if_neg hnot] at hsome
    cases hsome
  · intro hoffers
    unfold OffersHint at hoffers
    obtain ⟨cpu, hboth, -⟩ := cpusIntersects_eq_true_iff.mp hoffers
    rw [BitVec.getLsbD_and, Bool.and_eq_true] at hboth
    refine ⟨⟨o, hassigned, cpusIntersects_of_mem cpu hboth.2 hboth.1⟩, ?_⟩
    rw [happlied, if_pos hoffers]
    rfl

theorem offersHint_congr (hfixed : t.fixed = s.fixed) (o : ObjRef) :
    OffersHint t i o ↔ OffersHint s i o := by
  unfold OffersHint
  rw [fixed_mask hfixed, fixed_affinityHint hfixed, fixed_unbannedCpus hfixed]

/-- Below the nodes there are unbanned CPUs only. -/
theorem offersHint_of_eligible {o : ObjRef} (helig : Eligible cfg s (s.info i) o)
    (hbelow : o.objType ≠ .node) (hmasks : s.MasksUnbanned cfg)
    (hunbanned : s.topo.unbannedCpus = ~~~cfg.bannedCpus)
    (hpolicy : (s.info i).hintPolicy = .subset)
    (hhint : cpusEmpty (s.info i).affinityHint = false) : OffersHint s i o := by
  have hinter : cpusIntersects (s.info i).affinityHint (s.obj o).mask = true := by
    simpa [cpusIntersects] using helig.hinted hpolicy hhint
  obtain ⟨cpu, hcpu, hmask⟩ := cpusIntersects_eq_true_iff.mp hinter
  have hopen := cpusIntersects_eq_false_iff.mp (hmasks o hbelow) cpu hmask
  refine cpusIntersects_of_mem cpu ?_ ?_
  · rw [BitVec.getLsbD_and, hmask, hcpu]
    rfl
  · rw [hunbanned, BitVec.getLsbD_not, hopen]
    simp

/-- Of every IRQ the call has placed, under the subset policy and with a hint: its object
meets the hint exactly if the node does on which it was put. -/
theorem hintMet_iff_hintHeeded (howned : s.Owned) (hmasks : s.MasksUnbanned cfg)
    (hunbanned : s.topo.unbannedCpus = ~~~cfg.bannedCpus)
    (hrun : s.calculatePlacement cfg addr = some t)
    (hplaced : (t.info i).assignedObj ≠ (s.info i).assignedObj)
    (hpolicy : (t.info i).hintPolicy = .subset)
    (hhint : cpusEmpty (t.info i).affinityHint = false) :
    HintMet cfg t i ↔ HintHeeded cfg addr s i := by
  obtain ⟨-, hmoves, howned', hseat⟩ := calculatePlacement_seating howned hrun i
  have hfixed := hmoves.turns.fixed_eq
  have hmet (o : ObjRef) (ho : t.home i = some (.ofObj o)) :
      HintMet cfg t i ↔ OffersHint s i o :=
    (hintMet_iff_offers ho hpolicy hhint).trans (offersHint_congr hfixed o)
  rw [fixed_hintPolicy hfixed] at hpolicy
  rw [fixed_affinityHint hfixed] at hhint
  cases hseat with
  | left hsame _ => exact absurd (congrArg IrqInfo.assignedObj hsame) hplaced
  | onNode n hgoes hhome _ hstuck =>
      -- the IRQ still sits on its node: no child of the node was eligible
      rw [hmet _ hhome]
      constructor
      · intro hoffers m hm
        rw [hm.unique howned hgoes]
        exact .inl hoffers
      · intro hheeded
        rcases hheeded n hgoes with hoffers | ⟨c, hc, helig⟩
        · exact hoffers
        · exact absurd helig (hstuck rfl c hc)
  | below o hbelow hhome helig hgone =>
      -- `find_best_object` has chosen the object, and it asks for the hint
      rw [hmet o hhome]
      refine iff_of_true (offersHint_of_eligible helig hbelow hmasks hunbanned hpolicy
        hhint) fun n hn => .inr ?_
      by_contra hnone
      exact hgone n hn fun c hc helig => hnone ⟨c, hc, helig⟩

/-- In a state between two calls of `main`, or in any other where the lists agree and only the
masks of nodes have banned CPUs: of every IRQ the placement puts somewhere, under the subset
policy and with a hint, the object meets the hint exactly if the hint is heeded.  For an IRQ
with a node of its own this depends on the node alone; one without is safe where all nodes to
which it may go are, whatever their loads. -/
theorem hintMet_iff (cfg : Config) (addr : ℕ → ℕ) (s t : State) (i : ℕ) (howned : s.Owned)
    (hmasks : s.MasksUnbanned cfg) (hunbanned : s.topo.unbannedCpus = ~~~cfg.bannedCpus)
    (hrun : s.calculatePlacement cfg addr = some t)
    (hplaced : (t.info i).assignedObj ≠ (s.info i).assignedObj)
    (hpolicy : (t.info i).hintPolicy = .subset)
    (hhint : cpusEmpty (t.info i).affinityHint = false) :
    (HintMet cfg t i ↔ HintHeeded cfg addr s i) ∧
    (i ∈ s.irqs.rebalanceIrqList → ∀ n, OwnNode s i n →
      (HintMet cfg t i ↔ NodeOffers cfg s i n)) ∧
    ((∀ n, ¬OwnNode s i n) →
      (∀ n, Eligible cfg s (s.info i) ⟨.node, n⟩ → NodeOffers cfg s i n) → HintMet cfg t i) := by
  have hiff : HintMet cfg t i ↔ HintHeeded cfg addr s i :=
    hintMet_iff_hintHeeded howned hmasks hunbanned hrun hplaced hpolicy hhint
  refine ⟨hiff, fun hi n hown => hiff.trans ?_, fun hown hall => hiff.mpr fun n hn => ?_⟩
  · have hnode := nodeFor_of_own howned hrun hi hown
    constructor
    · exact fun hheeded => hheeded n hnode
    · intro hoffers m hm
      rw [hm.unique howned hnode]
      exact hoffers
  · exact hall n (hn.eligible howned hown)

end State

/-! ## A node that misses the hint -/

namespace Sample

/-- A network card on a node. -/
def cardOn (node : ℤ) : PciDevice :=
  { card 11 with attrs := { classFile := .code 0x020000, numaNode := some node } }

/-- The machine of the package that spans two nodes, with a card on the second node whose
driver asks for the CPU of the first. -/
def hinted : Sysfs :=
  { spanning with
    pciDevices := some [cardOn 1]
    affinityHint := fun _ => some 1#(nrCpus) }

def subsetConfig : Config := { numaConfig with globalHintPolicy := .subset }

/-- One node with both CPUs, of which the one of the hint is banned. -/
def hintBanned : Sysfs :=
  { hinted with
    nodeDirs := some [{ number := 0, cpumap := some 3#(nrCpus) }]
    cpuDirs := some [{ cpuDir cpu0 with node := some 0 }, { cpuDir cpu1 with node := some 0 }]
    pciDevices := some [cardOn 0] }

def bannedHintConfig : Config := { subsetConfig with bannedCpus := 1#(nrCpus) }

/-- The card is on the first node. -/
def hintHeeded : Sysfs := { hinted with pciDevices := some [cardOn 0] }

/-- What the placement makes of a machine. -/
def placedOf (cfg : Config) (sysfs : Sysfs) : State :=
  ((start cfg sysfs {}).calculatePlacement cfg id).getD {}

/-- The placement puts an IRQ under the subset policy and with a hint on an object that does
not meet the hint. -/
structure Misses (cfg : Config) (sysfs : Sysfs) (i : ℕ) : Prop where
  run : (start cfg sysfs {}).calculatePlacement cfg id = some (placedOf cfg sysfs)
  placed : ((placedOf cfg sysfs).info i).assignedObj ≠ ((start cfg sysfs {}).info i).assignedObj
  policy : ((placedOf cfg sysfs).info i).hintPolicy = .subset
  hint : cpusEmpty ((placedOf cfg sysfs).info i).affinityHint = false
  missed : ¬(placedOf cfg sysfs).HintMet cfg i

theorem placedOf_run {cfg : Config} {sysfs : Sysfs}
    (hsome : ((start cfg sysfs {}).calculatePlacement cfg id).isSome = true) :
    (start cfg sysfs {}).calculatePlacement cfg id = some (placedOf cfg sysfs) := by
  obtain ⟨t, ht⟩ := Option.isSome_iff_exists.mp hsome
  rw [placedOf, ht]
  rfl

theorem hinted_run : (start subsetConfig hinted {}).calculatePlacement subsetConfig id =
    some (placedOf subsetConfig hinted) :=
  placedOf_run (by decide +kernel)

/-- The interrupt of the card stays on the card's node: in the first machine no CPU of the
node is one of the hint, in the second the only one is banned. -/
theorem hinted_misses :
    Misses subsetConfig hinted 0 ∧ Misses bannedHintConfig hintBanned 0 where
  left :=
    { run := hinted_run
      placed := by decide +kernel
      policy := by decide +kernel
      hint := by decide +kernel
      missed := fun hmet => absurd hmet.applied (by decide +kernel) }
  right :=
    { run := placedOf_run (by decide +kernel)
      placed := by decide +kernel
      policy := by decide +kernel
      hint := by decide +kernel
      missed := fun hmet => absurd hmet.applied (by decide +kernel) }

end Sample

/-- The node of the first card misses the hint, that of the second meets it. -/
theorem hintMet_iff_hinted :
    ((Sample.placedOf Sample.subsetConfig Sample.hinted).HintMet Sample.subsetConfig 0 ↔
      State.HintHeeded Sample.subsetConfig id (start Sample.subsetConfig Sample.hinted {}) 0) ∧
    (Sample.placedOf Sample.subsetConfig Sample.hintHeeded).HintMet Sample.subsetConfig 0 := by
  have hstarted (sysfs : Sysfs) :
      Ops.Reachable Sample.subsetConfig (start Sample.subsetConfig sysfs {}) :=
    .start ⟨sysfs, {}, rfl⟩
  constructor
  · exact (State.hintMet_iff _ id _ _ 0 (reachable_owned (hstarted _))
      (reachable_masksUnbanned (hstarted _)) (reachable_unbannedCpus (hstarted _))
      Sample.hinted_run (by decide +kernel) (by decide +kernel) (by decide +kernel)).1
  · have hown : State.OwnNode (start Sample.subsetConfig Sample.hintHeeded {}) 0 1 :=
      ⟨by decide +kernel, by decide +kernel, by decide +kernel⟩
    refine ((State.hintMet_iff _ id _ _ 0 (reachable_owned (hstarted _))
      (reachable_masksUnbanned (hstarted _)) (reachable_unbannedCpus (hstarted _))
      (Sample.placedOf_run (by decide +kernel)) (by decide +kernel) (by decide +kernel)
      (by decide +kernel)).2.1 (by decide +kernel) 1 hown).mpr (.inl ?_)
    unfold State.OffersHint
    decide +kernel

end CodeAnalyze.Irqbalance
