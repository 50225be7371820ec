import CodeAnalyze.Nf10.Integrity

/-!
# DMA mappings

A packet that is sent is unmapped with the length it was mapped with.  The buffer of an RX
descriptor is mapped with `SK_BUFF_ALLOC_SIZE` and unmapped with the length of its skb,
which is still empty then.
-/

namespace CodeAnalyze.Nf10

/-- The bus address and the length of a `pci_map_single`. -/
def KernelCall.mapped (dir : DmaDir) : KernelCall → Option (UInt64 × UInt32)
  | pciMapSingle dmaAddr len d => if d = dir then some (dmaAddr, len) else none
  | _ => none

/-- The bus address and the length of a `pci_unmap_single`. -/
def KernelCall.unmapped (dir : DmaDir) : KernelCall → Option (UInt64 × UInt32)
  | pciUnmapSingle dmaAddr len d => if d = dir then some (dmaAddr, len) else none
  | _ => none

/-- The address was mapped more often than it was unmapped. -/
def CurrentlyMapped (calls : List KernelCall) (dmaAddr : UInt64) (dir : DmaDir) : Prop :=
  ((calls.filterMap (KernelCall.unmapped dir)).map (·.1)).count dmaAddr <
    ((calls.filterMap (KernelCall.mapped dir)).map (·.1)).count dmaAddr

/-- Only addresses that are mapped get unmapped. -/
def NoStrayUnmap (calls : List KernelCall) : Prop :=
  ∀ before dmaAddr len dir rest, calls = before ++ .pciUnmapSingle dmaAddr len dir :: rest →
    CurrentlyMapped before dmaAddr dir

/-- Every mapping whose completion has been handled was released by one unmap with the same
address, length and direction, and there was no other unmap. -/
structure Paired (calls : List KernelCall) (handled : DmaDir → ℕ) : Prop where
  released : ∀ dir, calls.filterMap (KernelCall.unmapped dir) =
    (calls.filterMap (KernelCall.mapped dir)).take (handled dir)
  noStray : NoStrayUnmap calls

/-- The completions of a direction that a step handles. -/
def Op.handles (op : Op) : DmaDir → ℕ
  | .toDevice => op.txHandles
  | .fromDevice => op.rxHandles

/-- The completions that the steps of a run handle. -/
def completions (ops : List Op) (dir : DmaDir) : ℕ := (ops.map fun op => op.handles dir).sum

/-! ## The calls of a step -/

/-- The entries of a direction. -/
def History.given (h : History) : DmaDir → List Entry
  | .toDevice => h.txGiven
  | .fromDevice => h.rxGiven

def History.handled (h : History) : DmaDir → ℕ
  | .toDevice => h.txHandled
  | .fromDevice => h.rxHandled

def State.gives (s : State) (op : Op) : DmaDir → List Entry
  | .toDevice => s.txGives op
  | .fromDevice => s.rxGives op

/-- The mapping of an entry. -/
def Entry.mapping (e : Entry) : DmaDir → UInt64 × UInt32
  | .toDevice => (e.2.1, e.1.len)
  | .fromDevice => (e.2.1, Card.skBuffAllocSize)

/-- What the mapping of an entry is released with. -/
def Entry.unmapping (e : Entry) : UInt64 × UInt32 := (e.2.1, e.1.len)

/-- The calls of a step: it unmaps what it handles, before anything else, and maps what it
gives to the card. -/
structure StepCalls (s : State) (h : History) (op : Op) (calls : List KernelCall) : Prop where
  mapped : ∀ dir, calls.filterMap (KernelCall.mapped dir) =
    (s.gives op dir).map fun e => Entry.mapping e dir
  unmapped : ∀ dir, calls.filterMap (KernelCall.unmapped dir) =
    (((h.given dir).drop (h.handled dir)).take (op.handles dir)).map Entry.unmapping
  unmapFirst : ∀ before dmaAddr len dir rest,
    calls = before ++ .pciUnmapSingle dmaAddr len dir :: rest → before = []

/-- Calls that do not concern DMA. -/
def KernelCall.isDma : KernelCall → Bool
  | pciMapSingle .. | pciUnmapSingle .. => true
  | _ => false

theorem mapped_postCalls (given : List Entry) (dir : DmaDir) :
    (given.flatMap Card.postCalls).filterMap (KernelCall.mapped dir) =
      if dir = .fromDevice then given.map fun e => Entry.mapping e dir else [] := by
  induction given with
  | nil => simp
  | cons e rest ih =>
      rw [List.flatMap_cons, List.filterMap_append, ih]
      cases dir <;> rfl

theorem unmapped_postCalls (given : List Entry) (dir : DmaDir) :
    (given.flatMap Card.postCalls).filterMap (KernelCall.unmapped dir) = [] := by
  induction given with
  | nil => rfl
  | cons e rest ih =>
      rw [List.flatMap_cons, List.filterMap_append, ih]
      rfl

theorem deliveryCalls_noDma (c : Card) (skb : SkBuff) (word : UInt64) :
    ∀ call ∈ c.deliveryCalls skb word, call.isDma = false := by
  unfold Card.deliveryCalls
  split
  · split
    · simp
    · split <;> simp [KernelCall.isDma]
  · simp

theorem filterMap_mapped_noDma {calls : List KernelCall} (h : ∀ call ∈ calls, call.isDma = false)
    (dir : DmaDir) : calls.filterMap (KernelCall.mapped dir) = [] ∧
      calls.filterMap (KernelCall.unmapped dir) = [] := by
  constructor <;>
  · rw [List.filterMap_eq_nil_iff]
    intro call hcall
    have hdma := h call hcall
    cases call <;> first | rfl | cases hdma

/-- A list from which no unmap is read off has none. -/
theorem no_unmap_of_filterMap {calls before rest : List KernelCall}
    (h : ∀ dir, calls.filterMap (KernelCall.unmapped dir) = []) {dmaAddr : UInt64} {len : UInt32}
    {dir : DmaDir} (hcalls : calls = before ++ .pciUnmapSingle dmaAddr len dir :: rest) :
    False := by
  have hmem : .pciUnmapSingle dmaAddr len dir ∈ calls := by
    rw [hcalls]
    exact List.mem_append_right before List.mem_cons_self
  have hnone := List.filterMap_eq_nil_iff.mp (h dir) _ hmem
  simp [KernelCall.unmapped] at hnone

variable {s s' : State} {h : History} {op : Op}

/-- A step that neither maps nor unmaps. -/
theorem stepCalls_nil (hgives : ∀ dir, s.gives op dir = []) (hhandles : ∀ dir, op.handles dir = 0) :
    StepCalls s h op [] where
  mapped := by intro dir; rw [hgives dir]; rfl
  unmapped := by intro dir; rw [hhandles dir]; rfl
  unmapFirst := by
    intro before dmaAddr len dir rest hcalls
    exact absurd hcalls (by simp)

/-- Where nothing behind the first call unmaps, an unmap is the first call. -/
theorem unmap_first {first : KernelCall} {calls before rest : List KernelCall}
    (h : ∀ dir, calls.filterMap (KernelCall.unmapped dir) = []) {dmaAddr : UInt64} {len : UInt32}
    {dir : DmaDir} (hcalls : first :: calls = before ++ .pciUnmapSingle dmaAddr len dir :: rest) :
    before = [] := by
  cases before with
  | nil => rfl
  | cons other before => exact absurd (List.cons.inj hcalls).2 (no_unmap_of_filterMap h)

theorem stepCalls_xmit {skb : SkBuff} {port : Port} {dma : Option UInt64}
    (hok : MapsOk s (.xmit skb port dma)) :
    ∃ calls, (s.card.nf10privXmit skb port dma).2.calls = s.card.calls ++ calls ∧
      StepCalls s h (.xmit skb port dma) calls := by
  cases hfits : s.card.tx.fits (Card.txClSize skb.len) with
  | false =>
      rw [Card.nf10privXmit_full _ _ _ _ hfits]
      refine ⟨[], (List.append_nil _).symm, stepCalls_nil (fun dir => ?_) (fun dir => ?_)⟩
      · cases dir with
        | toDevice => cases dma <;> simp [State.gives, State.txGives, hfits]
        | fromDevice => rfl
      · cases dir <;> rfl
  | true =>
      cases dma with
      | none =>
          rw [MapsOk, hfits] at hok
          cases hok
      | some dmaAddr =>
          obtain ⟨c', hret, hsent⟩ := s.card.nf10privXmit_sent skb port dmaAddr hfits
          rw [hret]
          refine ⟨_, hsent.calls, ?_, ?_, ?_⟩
          · intro dir
            cases dir with
            | toDevice => simp [State.gives, State.txGives, hfits, KernelCall.mapped,
                Entry.mapping]
            | fromDevice => rfl
          · intro dir
            cases dir <;> rfl
          · intro before dmaAddr' len dir rest hcalls
            exact unmap_first (fun _ => rfl) hcalls

theorem stepCalls_sendRxDsc (alloc : Option ℕ) (dmaAddr : UInt64) :
    ∃ calls, (s.card.nf10privSendRxDsc alloc dmaAddr).2.calls = s.card.calls ++ calls ∧
      StepCalls s h (.sendRxDsc alloc dmaAddr) calls := by
  refine ⟨_, (s.card.nf10privSendRxDsc_spec dmaAddr alloc).calls, ?_, ?_, ?_⟩
  · intro dir
    rw [mapped_postCalls]
    cases dir <;> rfl
  · intro dir
    rw [unmapped_postCalls]
    cases dir <;> rfl
  · intro before dmaAddr' len dir rest hcalls
    exact absurd hcalls (no_unmap_of_filterMap (unmapped_postCalls _))

/-- The TX branch unmaps the packet at the read pointer. -/
theorem stepCalls_handleTx (hs : Consistent s h) (hdone : Card.txDone s.card.txInt = true) :
    ∃ calls, s.card.handleTx.calls = s.card.calls ++ calls ∧ StepCalls s h .handleTx calls := by
  have hlt := hs.tx.handled_lt hdone
  refine ⟨_, s.card.handleTx_spec.calls, ?_, ?_, ?_⟩
  · intro dir
    cases dir <;> rfl
  · intro dir
    cases dir with
    | toDevice =>
        rw [hs.tx.ring.entry_rdPtr hlt]
        simp only [History.given, History.handled, List.drop_eq_getElem_cons hlt]
        rfl
    | fromDevice => rfl
  · intro before dmaAddr len dir rest hcalls
    exact unmap_first (fun _ => rfl) hcalls

/-- The RX branch unmaps the buffer at the read pointer before it maps a new one. -/
theorem stepCalls_handleRx {alloc : Option ℕ} {dmaAddr : UInt64} (hs : Consistent s h)
    (hdone : Card.rxDone s.card.rxInt = true) :
    ∃ calls, (s.card.handleRx alloc dmaAddr).calls = s.card.calls ++ calls ∧
      StepCalls s h (.handleRx alloc dmaAddr) calls := by
  have hlt := hs.rx.handled_lt hdone
  obtain ⟨c₁, hcalls⟩ := (s.card.handleRx_spec dmaAddr alloc).calls
  rw [hs.rx.ring.entry_rdPtr hlt] at hcalls
  have hquiet := fun dir => filterMap_mapped_noDma
    (deliveryCalls_noDma c₁ h.rxGiven[h.rxHandled].1 s.card.rxInt) dir
  have hnone : ∀ dir, (((s.card.takeRx.rxGives dmaAddr alloc).flatMap Card.postCalls) ++
      c₁.deliveryCalls h.rxGiven[h.rxHandled].1 s.card.rxInt).filterMap
        (KernelCall.unmapped dir) = [] := by
    intro dir
    rw [List.filterMap_append, unmapped_postCalls, (hquiet dir).2]
    rfl
  refine ⟨_, hcalls, ?_, ?_, ?_⟩
  · intro dir
    rw [List.filterMap_cons, List.filterMap_append, mapped_postCalls, (hquiet dir).1,
      List.append_nil]
    cases dir <;> rfl
  · intro dir
    rw [List.filterMap_cons, hnone dir]
    cases dir with
    | toDevice => rfl
    | fromDevice =>
        simp only [History.given, History.handled, List.drop_eq_getElem_cons hlt]
        rfl
  · intro before dmaAddr' len dir rest hsplit
    exact unmap_first hnone hsplit

/-- The calls that every step makes. -/
theorem exec_calls (hs : Consistent s h) (hok : MapsOk s op) (hx : exec s op = some s') :
    ∃ calls, s'.card.calls = s.card.calls ++ calls ∧ StepCalls s h op calls := by
  cases op with
  | xmit skb port dma =>
      simp only [exec, Option.some.injEq] at hx
      subst hx
      exact stepCalls_xmit hok
  | sendRxDsc alloc dmaAddr =>
      simp only [exec, Option.some.injEq] at hx
      subst hx
      exact stepCalls_sendRxDsc alloc dmaAddr
  | storeTx =>
      simp only [exec, Option.ite_none_right_eq_some, Option.some.injEq] at hx
      obtain ⟨-, rfl⟩ := hx
      exact ⟨[], (List.append_nil _).symm, stepCalls_nil (by intro dir; cases dir <;> rfl)
        (by intro dir; cases dir <;> rfl)⟩
  | storeRx word =>
      simp only [exec, Option.ite_none_right_eq_some, Option.some.injEq] at hx
      obtain ⟨-, rfl⟩ := hx
      exact ⟨[], (List.append_nil _).symm, stepCalls_nil (by intro dir; cases dir <;> rfl)
        (by intro dir; cases dir <;> rfl)⟩
  | handleTx =>
      simp only [exec, Option.ite_none_right_eq_some, Option.some.injEq] at hx
      obtain ⟨hdone, rfl⟩ := hx
      exact stepCalls_handleTx hs hdone
  | handleRx alloc dmaAddr =>
      simp only [exec, Option.ite_none_right_eq_some, Option.some.injEq] at hx
      obtain ⟨hdone, rfl⟩ := hx
      exact stepCalls_handleRx hs hdone

/-! ## Runs -/

/-- The calls so far are those of the history. -/
structure Mapped (s : State) (h : History) : Prop where
  mapped : ∀ dir, s.card.calls.filterMap (KernelCall.mapped dir) =
    (h.given dir).map fun e => Entry.mapping e dir
  unmapped : ∀ dir, s.card.calls.filterMap (KernelCall.unmapped dir) =
    ((h.given dir).take (h.handled dir)).map Entry.unmapping
  noStray : NoStrayUnmap s.card.calls
  rxEmpty : ∀ e ∈ h.rxGiven, e.1.len = 0

theorem History.given_next (h : History) (s : State) (op : Op) (dir : DmaDir) :
    (h.next s op).given dir = h.given dir ++ s.gives op dir := by
  cases dir <;> rfl

theorem History.handled_next (h : History) (s : State) (op : Op) (dir : DmaDir) :
    (h.next s op).handled dir = h.handled dir + op.handles dir := by
  cases dir <;> rfl

theorem Consistent.handled_le (hs : Consistent s h) (dir : DmaDir) :
    h.handled dir ≤ (h.given dir).length := by
  cases dir
  · exact hs.tx.ring.handled_le
  · exact hs.rx.ring.handled_le

/-- The oldest entry is mapped. -/
theorem Mapped.currentlyMapped (hm : Mapped s h) {dir : DmaDir} {e : Entry} {rest : List Entry}
    (hdrop : (h.given dir).drop (h.handled dir) = e :: rest) :
    CurrentlyMapped s.card.calls e.2.1 dir := by
  have hsplit : h.given dir = (h.given dir).take (h.handled dir) ++ e :: rest := by
    rw [← hdrop, List.take_append_drop]
  have hmaps : (s.card.calls.filterMap (KernelCall.mapped dir)).map (·.1) =
      (h.given dir).map (·.2.1) := by
    rw [hm.mapped dir, List.map_map]
    cases dir <;> rfl
  have hunmaps : (s.card.calls.filterMap (KernelCall.unmapped dir)).map (·.1) =
      ((h.given dir).take (h.handled dir)).map (·.2.1) := by
    rw [hm.unmapped dir, List.map_map]
    rfl
  unfold CurrentlyMapped
  rw [hmaps, hunmaps]
  conv_rhs => rw [hsplit]
  rw [List.map_append, List.count_append, List.map_cons, List.count_cons_self]
  omega

/-- Unmaps of mapped addresses may follow. -/
theorem NoStrayUnmap.append {calls more : List KernelCall} (h : NoStrayUnmap calls)
    (hmore : ∀ before dmaAddr len dir rest,
      more = before ++ .pciUnmapSingle dmaAddr len dir :: rest →
        CurrentlyMapped (calls ++ before) dmaAddr dir) : NoStrayUnmap (calls ++ more) := by
  intro before dmaAddr len dir rest hsplit
  rcases List.append_eq_append_iff.mp hsplit with ⟨mid, hbefore, hmid⟩ | ⟨mid, hcalls, hmid⟩
  · rw [hbefore]
    exact hmore mid dmaAddr len dir rest hmid
  · cases mid with
    | nil =>
        rw [List.append_nil] at hcalls
        have hunmap := hmore [] dmaAddr len dir rest hmid.symm
        rw [List.append_nil, hcalls] at hunmap
        exact hunmap
    | cons call mid =>
        obtain ⟨rfl, -⟩ := List.cons.inj hmid
        exact h before dmaAddr len dir mid hcalls

theorem rxGives_empty {e : Entry} (he : e ∈ s.rxGives op) : e.1.len = 0 := by
  have hpost (c : Card) (alloc : Option ℕ) (dmaAddr : UInt64) (he : e ∈ c.rxGives dmaAddr alloc) :
      e.1.len = 0 := by
    cases alloc with
    | none => cases he
    | some ptr =>
        rw [Card.rxGives, List.mem_ite_nil_right, List.mem_singleton] at he
        rw [he.2]
        rfl
  cases op with
  | sendRxDsc alloc dmaAddr => exact hpost _ alloc dmaAddr he
  | handleRx alloc dmaAddr => exact hpost _ alloc dmaAddr he
  | _ => cases he

theorem Mapped.step (hs : Consistent s h) (hm : Mapped s h) (hok : MapsOk s op)
    (hx : exec s op = some s') : Mapped s' (h.next s op) := by
  obtain ⟨calls, hcalls, hstep⟩ := exec_calls hs hok hx
  refine
    { mapped := fun dir => ?_
      unmapped := fun dir => ?_
      noStray := ?_
      rxEmpty := ?_ }
  · rw [hcalls, List.filterMap_append, hm.mapped, hstep.mapped, h.given_next, List.map_append]
  · have hle : h.handled dir + op.handles dir ≤ (h.given dir).length := by
      cases dir
      · exact (hs.handles_le hx).1
      · exact (hs.handles_le hx).2
    rw [hcalls, List.filterMap_append, hm.unmapped, hstep.unmapped, h.given_next,
      h.handled_next, List.take_append_of_le_length hle, List.take_add, List.map_append]
  · rw [hcalls]
    refine hm.noStray.append fun before dmaAddr len dir rest hsplit => ?_
    have hfirst := hstep.unmapFirst before dmaAddr len dir rest hsplit
    subst hfirst
    -- what is unmapped is the oldest entry of its direction
    have hunmap := hstep.unmapped dir
    rw [hsplit, List.nil_append, List.filterMap_cons_some (b := (dmaAddr, len))
      (by simp [KernelCall.unmapped])] at hunmap
    cases hdrop : (h.given dir).drop (h.handled dir) with
    | nil =>
        rw [hdrop, List.take_nil] at hunmap
        cases hunmap
    | cons e later =>
        have haddr : e.2.1 = dmaAddr := by
          cases hn : op.handles dir with
          | zero =>
              rw [hn, List.take_zero] at hunmap
              cases hunmap
          | succ n =>
              rw [hdrop, hn, List.take_succ_cons, List.map_cons] at hunmap
              exact (congrArg Prod.fst (List.cons.inj hunmap).1).symm
        rw [List.append_nil, ← haddr]
        exact hm.currentlyMapped hdrop
  · intro e he
    rcases List.mem_append.mp he with hold | hnew
    · exact hm.rxEmpty e hold
    · exact rxGives_empty hnew

theorem mapped_run {ops : List Op} (hs : Consistent s h) (hm : Mapped s h)
    (hmaps : ∀ op ∈ ops, op.Maps) (hrun : ops.foldlM exec s = some s') :
    ∃ h', Consistent s' h' ∧ Mapped s' h' ∧
      ∀ dir, h'.handled dir = h.handled dir + completions ops dir := by
  induction ops generalizing s h with
  | nil =>
      rw [List.foldlM_nil] at hrun
      cases hrun
      exact ⟨h, hs, hm, fun dir => rfl⟩
  | cons op rest ih =>
      rw [List.foldlM_cons] at hrun
      obtain ⟨mid, hmid, hrest⟩ := Option.bind_eq_some_iff.mp hrun
      obtain ⟨hhead, htail⟩ := List.forall_mem_cons.mp hmaps
      obtain ⟨h', hs', hm', hhandled⟩ :=
        ih (hs.step hhead.mapsOk hmid) (hm.step hs hhead.mapsOk hmid) htail hrest
      refine ⟨h', hs', hm', fun dir => ?_⟩
      rw [hhandled dir, h.handled_next, completions, completions, List.map_cons, List.sum_cons,
        Nat.add_assoc]

/-- The mappings of a run are paired with unmaps exactly if no completion of a reception
was handled. -/
theorem mappings_paired_iff (raw : Card) {ops : List Op} {s : State}
    (hmaps : ∀ op ∈ ops, op.Maps) (hrun : ops.foldlM exec (probed raw) = some s) :
    Paired s.card.calls (completions ops) ↔ completions ops .fromDevice = 0 := by
  have hstart : Mapped (probed raw) {} :=
    { mapped := by intro dir; cases dir <;> rfl
      unmapped := by intro dir; cases dir <;> rfl
      noStray := by
        intro before dmaAddr len dir rest hcalls
        exact absurd hcalls (by simp [probed, nf10ProbeRings])
      rxEmpty := by simp }
  obtain ⟨h, hs, hm, hhandled⟩ := mapped_run (consistent_probed raw) hstart hmaps hrun
  have hcount (dir : DmaDir) : h.handled dir = completions ops dir := by
    rw [hhandled dir]
    cases dir <;> exact Nat.zero_add _
  constructor
  · intro hpaired
    by_contra hne
    have hpos : 0 < h.rxHandled := by
      have := hcount .fromDevice
      simp only [History.handled] at this
      omega
    have hle := hs.rx.ring.handled_le
    have hreleased := hpaired.released .fromDevice
    rw [← hcount, hm.unmapped, hm.mapped, ← List.map_take] at hreleased
    -- the first descriptor is handled, and its lengths differ
    have hmem : h.rxGiven[0] ∈ h.rxGiven.take h.rxHandled :=
      List.mem_take_iff_getElem.mpr ⟨0, by omega, rfl⟩
    have hlen := congrArg Prod.snd (List.map_inj_left.mp hreleased _ hmem)
    have hempty := hm.rxEmpty _ (List.mem_of_mem_take hmem)
    change h.rxGiven[0].1.len = Card.skBuffAllocSize at hlen
    rw [hempty] at hlen
    exact absurd hlen (by decide)
  · intro hzero
    refine { released := fun dir => ?_, noStray := hm.noStray }
    rw [hm.unmapped, hm.mapped, hcount, ← List.map_take]
    cases dir with
    | toDevice => rfl
    | fromDevice => rw [hzero, List.take_zero]; rfl

theorem mappings_paired_iff_oneEach :
    Paired ((oneEach.foldlM exec (probed Card.zeroed)).get (by decide +kernel)).card.calls
        (completions oneEach) ↔
      completions oneEach .fromDevice = 0 :=
  mappings_paired_iff Card.zeroed (by simp [oneEach, Op.Maps]) (Option.some_get _).symm

/-- One packet of 60 bytes is received. -/
def received : List Op := [.sendRxDsc (some 1) 0x1000, .storeRx 0x0200003c, .handleRx none 0]

/-- Its buffer was mapped with 1533 bytes and is unmapped with 0. -/
theorem received_not_paired :
    ∃ s, received.foldlM exec (probed Card.zeroed) = some s ∧ (∀ op ∈ received, op.Maps) ∧
      ¬Paired s.card.calls (completions received) := by
  refine ⟨(received.foldlM exec (probed Card.zeroed)).get (by decide +kernel),
    (Option.some_get _).symm, by simp [received, Op.Maps], fun hpaired => ?_⟩
  have hreleased := hpaired.released .fromDevice
  revert hreleased
  decide +kernel

end CodeAnalyze.Nf10
