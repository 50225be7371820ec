import CodeAnalyze.Nf10.Queues

/-!
# The driver is an interface

Each step of the driver and its card is a step of the interface `Nic`: it can happen where
the interface can take it, and the kernel and the wires see the same.
-/

namespace CodeAnalyze.Nf10

/-- The packet of a call is mapped. -/
def NetOp.Maps : NetOp → Prop
  | .ndoStartXmit _ _ dma => dma.isSome = true
  | _ => True

/-- The devices and the interface stand at the same point of a run. -/
def Mirrored (s : NetState) (n : Nic) : Prop := ∃ h, Mirrors s n h

variable {s : NetState} {n n' : Nic} {d d' : State} {h : History}

/-- What is seen where only the driver takes a step. -/
theorem Mirrors.observed_driver (hs : Mirrors s n h) (hcalls : d'.card.calls = n'.calls)
    (hstopped : d'.card.queueStopped = n'.stopped) (hup : d'.card.portUp = n'.up)
    (hstats : n'.stats = n.stats) (hdropped : n'.dropped = n.dropped) (hwire : n'.wire = n.wire)
    (harrivals : n'.arrivals = n.arrivals) :
    ({ s with driver := d' } : NetState).observed = n'.toObservation := by
  have hobserved := hs.observed
  exact Observation.ext hcalls hstopped hup
    ((congrArg Observation.stats hobserved).trans hstats.symm)
    ((congrArg Observation.dropped hobserved).trans hdropped.symm)
    ((congrArg Observation.wire hobserved).trans hwire.symm)
    ((congrArg Observation.arrivals hobserved).trans harrivals.symm)

/-! ## Completions of transmissions -/

/-- A completion is there where the interface has sent a packet. -/
theorem Mirrors.txDone_iff (hs : Mirrors s n h) :
    Card.txDone s.driver.card.txInt = true ↔ n.sent ≠ [] := by
  have hmark := hs.consistent.tx.words.mark_head (by decide)
  rw [hs.consistent.tx.txInt_eq, hmark, hs.tx.stored, ← List.length_pos_iff]
  omega

/-- The books have the oldest packet at the read pointer. -/
theorem TxMirrors.oldest (hs : TxMirrors d h n) (hring : d.card.tx.Agrees h.txHandled h.txGiven)
    {p : TxPacket} {rest : List TxPacket} (hhead : n.sent = p :: rest) :
    d.card.tx.entry (Ring.index d.card.tx.dne.rdPtr) = p.entry := by
  have hentries := hs.entries
  rw [Nic.inFlight, hhead, List.cons_append, List.map_cons] at hentries
  have hlt : h.txHandled < h.txGiven.length := by
    by_contra hge
    rw [List.drop_eq_nil_of_le (by omega)] at hentries
    cases hentries
  rw [List.drop_eq_getElem_cons hlt] at hentries
  rw [hring.entry_rdPtr hlt]
  exact (List.cons.inj hentries).1

theorem Mirrors.handleTx (hs : Mirrors s n h) :
    Option.Rel Mirrored (netExec s .handleTx) (n.exec .handleTx) := by
  have hiff := hs.txDone_iff
  cases hsent : n.sent with
  | nil =>
      have hnone : netExec s .handleTx = none := by
        simp [netExec, NetState.step, exec, hiff, hsent]
      have hnone' : n.exec .handleTx = none := by simp [Nic.exec, Nic.complete, hsent]
      rw [hnone, hnone']
      exact .none
  | cons p rest =>
      have hx : exec s.driver .handleTx = some { s.driver with card := s.driver.card.handleTx } :=
        if_pos (hiff.mpr (by simp [hsent]))
      have hok : MapsOk s.driver .handleTx := trivial
      have hring := hs.consistent.tx.ring
      have hspec := s.driver.card.handleTx_spec
      have hnext := hs.consistent.step hok hx
      -- the interface before the queues are woken
      let n₁ : Nic := { n with sent := rest }.log
        [.pciUnmapSingle p.dmaAddr p.skb.len .toDevice, .devKfreeSkbAny p.skb]
      have htx : TxMirrors { s.driver with card := s.driver.card.handleTx }
          (h.next s.driver .handleTx) n₁ :=
        hs.tx.complete hsent (by rw [hspec.tx]; rfl) rfl (List.append_nil _) rfl rfl rfl
      have hrx : RxMirrors { s.driver with card := s.driver.card.handleTx }
          (h.next s.driver .handleTx) n₁ :=
        hs.rx.frame (by rw [hspec.rx]) hspec.hostRxDne rfl (List.append_nil _) rfl rfl rfl
      have hroom : s.driver.card.handleTx.txRestarts = n₁.txRoom 8 128 :=
        htx.room hnext.tx.ring (8 * 1) (4 * 32) (by decide) (by decide)
      have hcalls : s.driver.card.handleTx.calls = n₁.calls := by
        rw [hspec.calls, hs.tx.oldest hring hsent]
        exact congrArg (· ++ _) (congrArg Observation.calls hs.observed)
      have hstopped : s.driver.card.handleTx.queueStopped =
          if n₁.txRoom 8 128 then fun _ => false else n.stopped := by
        rw [s.driver.card.queueStopped_handleTx, hroom]
        exact congrArg (ite _ _) (congrArg Observation.stopped hs.observed)
      have hup : s.driver.card.handleTx.portUp = n.up :=
        s.driver.card.portUp_handleTx.trans (congrArg Observation.up hs.observed)
      have hstep : netExec s .handleTx =
          some { s with driver := { s.driver with card := s.driver.card.handleTx } } := by
        simp only [netExec, NetState.step, hx, Option.map_some]
      have hstep' : n.exec .handleTx =
          some (if n₁.txRoom 8 128 then { n₁ with stopped := fun _ => false } else n₁) := by
        simp only [Nic.exec, Nic.complete, hsent]
        rfl
      rw [hstep, hstep']
      refine .some ⟨h.next s.driver .handleTx, hnext, ?_, ?_, ?_⟩
      · exact htx.frame rfl rfl rfl rfl (by split <;> rfl) (by split <;> rfl)
      · exact hrx.frame rfl rfl rfl rfl rfl (by split <;> rfl) (by split <;> rfl)
      · by_cases hwake : n₁.txRoom 8 128 = true
        · rw [if_pos hwake] at hstopped ⊢
          exact hs.observed_driver hcalls hstopped hup rfl rfl rfl rfl
        · rw [if_neg hwake] at hstopped ⊢
          exact hs.observed_driver hcalls hstopped hup rfl rfl rfl rfl

/-! ## Packets that are sent -/

/-- The packets that were accepted. -/
theorem Mirrors.length_txAccepted (hs : Mirrors s n h) :
    s.driver.txAccepted.length = h.txHandled + n.inFlight.length := by
  have hring := hs.consistent.tx.ring
  rw [hs.consistent.tx.accepted, List.length_map, ← hring.dscCnt, hs.tx.dscCnt hring]

/-- The card has in its memory the packets that wait. -/
theorem Mirrors.pending_eq (hs : Mirrors s n h) :
    s.pending = n.waiting.map TxPacket.descriptor := by
  have hlen := hs.length_txAccepted
  have hflight : n.inFlight.length = n.sent.length + n.waiting.length := List.length_append
  have hcnt : s.driver.txAccepted.length - s.driver.txStored =
      n.inFlight.length - n.sent.length := by
    rw [hs.tx.stored]
    omega
  have hsent : (n.sent.map TxPacket.descriptor).length = n.sent.length := List.length_map _
  unfold NetState.pending
  rw [hcnt, hs.tx.stored, ← Lib.Ring.contents_drop, hs.tx.descriptors, Nic.inFlight,
    List.map_append, List.drop_left' hsent]

theorem Mirrors.storeTx (hs : Mirrors s n h) :
    Option.Rel Mirrored (netExec s .storeTx) (n.exec .storeTx) := by
  have hlen := hs.length_txAccepted
  have hiff : s.driver.txStored < s.driver.txAccepted.length ↔ n.waiting ≠ [] := by
    rw [hlen, hs.tx.stored, Nic.inFlight, List.length_append, ← List.length_pos_iff]
    omega
  cases hwaiting : n.waiting with
  | nil =>
      have hnone : netExec s .storeTx = none := by
        simp only [netExec, NetState.step, exec]
        rw [if_neg (by simp [hiff, hwaiting])]
        rfl
      have hnone' : n.exec .storeTx = none := by simp [Nic.exec, Nic.send, hwaiting]
      rw [hnone, hnone']
      exact .none
  | cons p rest =>
      let d' : State :=
        { s.driver with
          card :=
            { s.driver.card with
              hostTxDne :=
                Function.update s.driver.card.hostTxDne (16 * (s.driver.txStored % ringSize)) 1 }
          txStored := s.driver.txStored + 1 }
      have hx : exec s.driver .storeTx = some d' := if_pos (hiff.mpr (by simp [hwaiting]))
      have hok : MapsOk s.driver .storeTx := trivial
      -- the card reads the descriptor of the packet that has waited longest
      have hdsc : s.driver.card.tx.descriptor (s.driver.txStored % ringSize) = p.descriptor := by
        have hlt : n.sent.length < n.inFlight.length := by simp [Nic.inFlight, hwaiting]
        rw [hs.tx.stored, hs.tx.descriptor_eq hlt]
        simp [Nic.inFlight, hwaiting]
      have hstep : netExec s .storeTx =
          some { s with driver := d', wire := s.wire ++ [p.descriptor] } := by
        simp only [netExec, NetState.step, hx, hdsc, Option.map_some]
      have hstep' : n.exec .storeTx =
          some { n with
            waiting := rest, sent := n.sent ++ [p], wire := n.wire ++ [p.descriptor] } := by
        simp only [Nic.exec, Nic.send, hwaiting]
      have hobserved := hs.observed
      rw [hstep, hstep']
      exact .some ⟨h.next s.driver .storeTx,
        { consistent := hs.consistent.step hok hx
          tx := hs.tx.send hwaiting rfl rfl (List.append_nil _) rfl rfl rfl
          rx := hs.rx.frame rfl rfl rfl (List.append_nil _) rfl rfl rfl
          observed := congrArg (fun o => { o with wire := o.wire ++ [p.descriptor] }) hobserved }⟩

/-! ## Packets that are received -/

theorem Mirrors.storeRx (hs : Mirrors s n h) (word : UInt64) :
    Option.Rel Mirrored (netExec s (.storeRx word)) (n.exec (.storeRx word)) := by
  have hring := hs.consistent.rx.ring
  have hlen : s.driver.card.rxPosted.length = h.rxHandled + n.buffers.length := by
    rw [hs.consistent.rx.posted, List.length_map, ← hring.dscCnt, hs.rx.dscCnt hring]
  have hiff : s.driver.rxStored < s.driver.card.rxPosted.length ↔ n.posted ≠ [] := by
    rw [hlen, hs.rx.stored, Nic.buffers, List.length_append, List.length_map,
      ← List.length_pos_iff]
    omega
  by_cases hcan : n.posted ≠ [] ∧ Card.rxDone word = true
  · obtain ⟨hposted, hword⟩ := hcan
    obtain ⟨b, rest, hhead⟩ := List.exists_cons_of_ne_nil hposted
    let d' : State :=
      { s.driver with
        card :=
          { s.driver.card with
            hostRxDne :=
              Function.update s.driver.card.hostRxDne (8 * (s.driver.rxStored % ringSize) + 7)
                word }
        rxStored := s.driver.rxStored + 1 }
    have hx : exec s.driver (.storeRx word) = some d' := if_pos ⟨hiff.mpr hposted, hword⟩
    have hok : MapsOk s.driver (.storeRx word) := trivial
    -- the card reads the descriptor of the buffer that was posted first
    have hdsc : s.driver.card.rx.descriptor (s.driver.rxStored % ringSize) = b.descriptor := by
      have hlt : n.filled.length < n.buffers.length := by simp [Nic.buffers, hhead]
      rw [hs.rx.stored, hs.rx.descriptor_eq hlt]
      simp [Nic.buffers, hhead]
    have hstep : netExec s (.storeRx word) =
        some { s with driver := d', arrivals := s.arrivals ++ [(b.descriptor, word)] } := by
      simp only [netExec, NetState.step, hx, hdsc, Option.map_some]
    have hstep' : n.exec (.storeRx word) =
        some { n with
          posted := rest
          filled := n.filled ++ [(b, word)]
          arrivals := n.arrivals ++ [(b.descriptor, word)] } := by
      simp only [Nic.exec, hword, if_true, Nic.fill, hhead]
    have hobserved := hs.observed
    rw [hstep, hstep']
    exact .some ⟨h.next s.driver (.storeRx word),
      { consistent := hs.consistent.step hok hx
        tx := hs.tx.frame rfl rfl (List.append_nil _) rfl rfl rfl
        rx := hs.rx.fill hring hhead rfl rfl rfl (List.append_nil _) rfl rfl rfl
        observed := congrArg
          (fun o => { o with arrivals := o.arrivals ++ [(b.descriptor, word)] }) hobserved }⟩
  · have hnone : netExec s (.storeRx word) = none := by
      simp only [netExec, NetState.step, exec]
      rw [if_neg (by rw [hiff]; exact hcan)]
      rfl
    have hnone' : n.exec (.storeRx word) = none := by
      cases hword : Card.rxDone word with
      | false => simp [Nic.exec, hword]
      | true =>
          have hempty : n.posted = [] := by
            by_contra hne
            exact hcan ⟨hne, hword⟩
          simp [Nic.exec, hword, Nic.fill, hempty]
    rw [hnone, hnone']
    exact .none

/-! ## Completions of receptions -/

theorem Mirrors.rxDone_iff (hs : Mirrors s n h) :
    Card.rxDone s.driver.card.rxInt = true ↔ n.filled ≠ [] := by
  have hmark := hs.consistent.rx.words.mark_head (by decide)
  rw [hs.consistent.rx.rxInt_eq, hmark, hs.rx.stored, ← List.length_pos_iff]
  omega

/-- The books have the oldest buffer at the read pointer, and its word is there. -/
theorem RxMirrors.oldest (hs : RxMirrors d h n) (hring : d.card.rx.Agrees h.rxHandled h.rxGiven)
    {b : RxBuffer} {word : UInt64} {rest : List (RxBuffer × UInt64)}
    (hhead : n.filled = (b, word) :: rest) :
    d.card.rx.entry (Ring.index d.card.rx.dne.rdPtr) = b.entry ∧
      d.card.hostRxDne (8 * (h.rxHandled % ringSize) + 7) = word := by
  have hentries := hs.entries
  have hwords := hs.words
  rw [Nic.buffers, hhead, List.map_cons, List.cons_append, List.map_cons] at hentries
  rw [hhead, List.length_cons, Lib.Ring.contents_pop, List.map_cons] at hwords
  have hlt : h.rxHandled < h.rxGiven.length := by
    by_contra hge
    rw [List.drop_eq_nil_of_le (by omega)] at hentries
    cases hentries
  rw [List.drop_eq_getElem_cons hlt] at hentries
  rw [hring.entry_rdPtr hlt]
  exact ⟨(List.cons.inj hentries).1, (List.cons.inj hwords).1⟩

/-- What posting a buffer leaves of the interface. -/
theorem RxMirrors.post_eq (hs : RxMirrors d h n) (hring : d.card.rx.Agrees h.rxHandled h.rxGiven)
    (dmaAddr : UInt64) (alloc : Option ℕ) :
    (n.post dmaAddr alloc).toObservation = { n.toObservation with
      calls := n.calls ++ (d.card.rxGives dmaAddr alloc).flatMap Card.postCalls } ∧
    (n.post dmaAddr alloc).sent = n.sent ∧ (n.post dmaAddr alloc).waiting = n.waiting := by
  rcases hs.post_cases hring dmaAddr alloc with ⟨hnone, -, hpost⟩ | ⟨b, hone, -, -, hpost⟩
  · rw [hpost, hnone, List.flatMap_nil, List.append_nil]
    exact ⟨rfl, rfl, rfl⟩
  · rw [hpost, hone]
    exact ⟨rfl, rfl, rfl⟩

/-- The oldest buffer is taken, and another is posted in its place. -/
theorem RxMirrors.handle (hs : RxMirrors d h n) (hring : d.card.rx.Agrees h.rxHandled h.rxGiven)
    (hlt : h.rxHandled < h.rxGiven.length) {b : RxBuffer} {word : UInt64}
    {rest : List (RxBuffer × UInt64)} (hfilled : n.filled = (b, word) :: rest)
    (dmaAddr : UInt64) (alloc : Option ℕ) :
    let n₁ : Nic := { n with filled := rest }.log [.pciUnmapSingle b.dmaAddr 0 .fromDevice]
    RxMirrors { d with card := (d.card.takeRx.nf10privSendRxDsc alloc dmaAddr).2 }
        (h.next d (.handleRx alloc dmaAddr)) (n₁.post dmaAddr alloc) ∧
      (n₁.post dmaAddr alloc).toObservation = { n₁.toObservation with
        calls := n₁.calls ++ (d.card.takeRx.rxGives dmaAddr alloc).flatMap Card.postCalls } ∧
      (n₁.post dmaAddr alloc).sent = n.sent ∧ (n₁.post dmaAddr alloc).waiting = n.waiting := by
  intro n₁
  have htake := d.card.takeRx_spec
  have hring₁ : d.card.takeRx.rx.Agrees (h.rxHandled + 1) h.rxGiven := by
    rw [htake.rx]
    exact hring.take hlt
  have hrx₁ : RxMirrors { d with card := d.card.takeRx } { h with rxHandled := h.rxHandled + 1 }
      n₁ :=
    hs.take hring hfilled (by rw [htake.rx]; rfl) htake.hostRxDne rfl rfl rfl rfl rfl
  have hpost := d.card.takeRx.nf10privSendRxDsc_spec dmaAddr alloc
  exact ⟨hrx₁.post hring₁ dmaAddr alloc rfl hpost.hostRxDne rfl rfl rfl,
    hrx₁.post_eq hring₁ dmaAddr alloc⟩

theorem Mirrors.sendRxDsc (hs : Mirrors s n h) (alloc : Option ℕ) (dmaAddr : UInt64) :
    Option.Rel Mirrored (netExec s (.sendRxDsc alloc dmaAddr))
      (n.exec (.sendRxDsc alloc dmaAddr)) := by
  have hring := hs.consistent.rx.ring
  have hspec := s.driver.card.nf10privSendRxDsc_spec dmaAddr alloc
  let d' : State := { s.driver with card := (s.driver.card.nf10privSendRxDsc alloc dmaAddr).2 }
  have hx : exec s.driver (.sendRxDsc alloc dmaAddr) = some d' := rfl
  have hok : MapsOk s.driver (.sendRxDsc alloc dmaAddr) := trivial
  have hnext := hs.consistent.step hok hx
  obtain ⟨hstopped, hup⟩ := s.driver.card.devices_nf10privSendRxDsc alloc dmaAddr
  obtain ⟨hobserved, hsent, hwaiting⟩ := hs.rx.post_eq hring dmaAddr alloc
  have hdriver : ({ s with driver := d' } : NetState).observed = { s.observed with
      calls := s.observed.calls ++ (s.driver.card.rxGives dmaAddr alloc).flatMap Card.postCalls } :=
    Observation.ext hspec.calls hstopped hup rfl rfl rfl rfl
  exact .some ⟨h.next s.driver (.sendRxDsc alloc dmaAddr),
    { consistent := hnext
      tx := hs.tx.frame (by rw [hspec.tx]) rfl (List.append_nil _) rfl hsent hwaiting
      rx := hs.rx.post hring dmaAddr alloc rfl hspec.hostRxDne rfl rfl rfl
      observed := by rw [hdriver, hs.observed, hobserved] }⟩

/-- A packet is delivered as `work_handler` delivers it. -/
theorem deliver_eq (n : Nic) (b : RxBuffer) (word : UInt64) (c : Card) (hup : c.portUp = n.up) :
    n.deliver b word = { n with
      calls := n.calls ++ c.deliveryCalls b.skb word
      stats := rxStats n.up n.stats b.skb word } := by
  unfold Nic.deliver Card.deliveryCalls rxStats Card.rxValid
  cases hport : Card.rxPort word with
  | none => simp
  | some port =>
      by_cases hlen : 60 ≤ word &&& 0xffff ∧ word &&& 0xffff ≤ 1514
      · obtain ⟨hlow, hhigh⟩ := hlen
        have hlow' : ¬word &&& 0xffff < 60 := UInt64.not_lt.mpr hlow
        have hhigh' : ¬word &&& 0xffff > 1514 := UInt64.not_lt.mpr hhigh
        rw [hup]
        cases hport : n.up port <;> simp [hlow, hhigh, hlow', hhigh', hport, Nic.log, RxBuffer.skb]
      · have hbad : word &&& 0xffff > 1514 ∨ word &&& 0xffff < 60 := by
          rcases not_and_or.mp hlen with hlow | hhigh
          · exact .inr (UInt64.not_le.mp hlow)
          · exact .inl (UInt64.not_le.mp hhigh)
        simp [hlen, hbad, And.comm]

/-- The descriptor is taken back, another is given to the card and the packet is delivered. -/
theorem Card.handleRx_posted (c : Card) {b : RxBuffer} {word : UInt64} (alloc : Option ℕ)
    (dmaAddr : UInt64) (hentry : c.rx.entry (Ring.index c.rx.dne.rdPtr) = b.entry)
    (hword : c.rxInt = word) {posted : Card}
    (hposted : (c.takeRx.nf10privSendRxDsc alloc dmaAddr).2 = posted) :
    c.handleRx alloc dmaAddr =
      { posted with calls := posted.calls ++ posted.deliveryCalls b.skb word } := by
  rw [Card.handleRx_eq, Card.rxDeliver_eq, hentry, hword, hposted]
  rfl

/-- What is seen when a completion of a reception is handled. -/
theorem NetState.observed_handleRx (s : NetState) {b : RxBuffer} {word : UInt64}
    (alloc : Option ℕ) (dmaAddr : UInt64)
    (hentry : s.driver.card.rx.entry (Ring.index s.driver.card.rx.dne.rdPtr) = b.entry)
    (hword : s.driver.card.rxInt = word) {posted : Card}
    (hposted : (s.driver.card.takeRx.nf10privSendRxDsc alloc dmaAddr).2 = posted)
    (stats : Port → NetStats) :
    ({ s with
      driver := { s.driver with card := s.driver.card.handleRx alloc dmaAddr }
      stats := stats } : NetState).observed =
    { s.observed with
      calls := s.observed.calls ++ [.pciUnmapSingle b.dmaAddr 0 .fromDevice] ++
        (s.driver.card.takeRx.rxGives dmaAddr alloc).flatMap Card.postCalls ++
        posted.deliveryCalls b.skb word
      stats := stats } := by
  have hcard := s.driver.card.handleRx_posted alloc dmaAddr hentry hword hposted
  obtain ⟨hstopped, hup⟩ := s.driver.card.takeRx.devices_nf10privSendRxDsc alloc dmaAddr
  rw [hposted] at hstopped hup
  refine Observation.ext ?_ ?_ ?_ rfl rfl rfl rfl
  · have htaken := s.driver.card.takeRx_spec.calls
    have hcalls := (s.driver.card.takeRx.nf10privSendRxDsc_spec dmaAddr alloc).calls
    rw [hentry] at htaken
    rw [hposted, htaken] at hcalls
    change (s.driver.card.handleRx alloc dmaAddr).calls = _
    rw [hcard]
    exact congrArg (· ++ _) hcalls
  · change (s.driver.card.handleRx alloc dmaAddr).queueStopped = _
    rw [hcard]
    exact hstopped
  · change (s.driver.card.handleRx alloc dmaAddr).portUp = _
    rw [hcard]
    exact hup

theorem Mirrors.handleRx (hs : Mirrors s n h) (alloc : Option ℕ) (dmaAddr : UInt64) :
    Option.Rel Mirrored (netExec s (.handleRx alloc dmaAddr))
      (n.exec (.handleRx alloc dmaAddr)) := by
  have hiff := hs.rxDone_iff
  cases hfilled : n.filled with
  | nil =>
      have hnone : netExec s (.handleRx alloc dmaAddr) = none := by
        simp [netExec, NetState.step, exec, hiff, hfilled]
      have hnone' : n.exec (.handleRx alloc dmaAddr) = none := by
        simp [Nic.exec, Nic.receive, hfilled]
      rw [hnone, hnone']
      exact .none
  | cons first rest =>
      obtain ⟨b, word⟩ := first
      have hring := hs.consistent.rx.ring
      obtain ⟨hentry, hword⟩ := hs.rx.oldest hring hfilled
      rw [← hs.consistent.rx.rxInt_eq] at hword
      have hdone : Card.rxDone s.driver.card.rxInt = true := hiff.mpr (by simp [hfilled])
      have hlt := hs.consistent.rx.handled_lt hdone
      have hx : exec s.driver (.handleRx alloc dmaAddr) =
          some { s.driver with card := s.driver.card.handleRx alloc dmaAddr } := if_pos hdone
      have hok : MapsOk s.driver (.handleRx alloc dmaAddr) := trivial
      have hnext := hs.consistent.step hok hx
      -- the buffer is taken and another is posted
      let n₁ : Nic := { n with filled := rest }.log [.pciUnmapSingle b.dmaAddr 0 .fromDevice]
      let posted := (s.driver.card.takeRx.nf10privSendRxDsc alloc dmaAddr).2
      obtain ⟨-, hup⟩ := s.driver.card.takeRx.devices_nf10privSendRxDsc alloc dmaAddr
      obtain ⟨hrx₂, hobserved₂, hsent₂, hwaiting₂⟩ :=
        hs.rx.handle hring hlt hfilled dmaAddr alloc
      -- and the packet is delivered
      have hcard := s.driver.card.handleRx_posted alloc dmaAddr hentry hword rfl
      have hskb : s.driver.card.rx.bkSkb (Ring.index s.driver.card.rx.dne.rdPtr) = b.skb :=
        congrArg Prod.fst hentry
      have hstep : netExec s (.handleRx alloc dmaAddr) = some
          { s with
            driver := { s.driver with card := s.driver.card.handleRx alloc dmaAddr }
            stats := rxStats s.driver.card.portUp s.stats b.skb word } := by
        simp only [netExec, NetState.step, hx, hskb, hword, Option.map_some]
      have hstep' : n.exec (.handleRx alloc dmaAddr) =
          some ((n₁.post dmaAddr alloc).deliver b word) := by
        simp only [Nic.exec, Nic.receive, hfilled]
        rfl
      have hup₂ := congrArg Observation.up hobserved₂
      have hup' : posted.portUp = (n₁.post dmaAddr alloc).up :=
        (hup.trans (congrArg Observation.up hs.observed)).trans hup₂.symm
      rw [hstep, hstep', deliver_eq _ b word posted hup']
      refine .some ⟨h.next s.driver (.handleRx alloc dmaAddr), hnext, ?_, ?_, ?_⟩
      · have hspec := s.driver.card.handleRx_spec dmaAddr alloc
        exact hs.tx.frame (by rw [hspec.tx]) rfl (List.append_nil _) rfl hsent₂ hwaiting₂
      · exact hrx₂.frame (by rw [hcard]) (by rw [hcard]) rfl rfl rfl rfl rfl
      · have hold : rxStats s.driver.card.portUp s.stats b.skb word =
            rxStats n.up n.stats b.skb word := by
          rw [← congrArg Observation.up hs.observed, ← congrArg Observation.stats hs.observed]
          rfl
        rw [s.observed_handleRx alloc dmaAddr hentry hword rfl, hs.observed, hold]
        change _ = { (n₁.post dmaAddr alloc).toObservation with
          calls := (n₁.post dmaAddr alloc).toObservation.calls ++ posted.deliveryCalls b.skb word
          stats := rxStats (n₁.post dmaAddr alloc).toObservation.up
            (n₁.post dmaAddr alloc).toObservation.stats b.skb word }
        rw [hobserved₂]
        rfl

/-! ## Packets that are accepted -/

/-- A packet that is dropped changes nothing else. -/
theorem Mirrors.drop (hs : Mirrors s n h) (skb : SkBuff) :
    Mirrored { s with dropped := s.dropped ++ [skb] } { n with dropped := n.dropped ++ [skb] } :=
  ⟨h,
    { consistent := hs.consistent
      tx := hs.tx.frame rfl rfl rfl rfl rfl rfl
      rx := hs.rx.frame rfl rfl rfl rfl rfl rfl rfl
      observed := congrArg (fun o => { o with dropped := o.dropped ++ [skb] }) hs.observed }⟩

/-- A packet for which there is room is put into the ring and into the queue, and the queue of
its port stops in both or in neither. -/
theorem Mirrors.accept (hs : Mirrors s n h) {p : TxPacket} (hshort : p.skb.len ≤ 1514)
    (hfits : s.driver.card.tx.fits (Card.txClSize p.skb.len) = true) {c' : Card}
    (hc' : (s.driver.card.nf10privXmit p.skb p.port (some p.dmaAddr)).2 = c')
    (hret : (s.driver.card.nf10privXmit p.skb p.port (some p.dmaAddr)).1 = 0)
    (hsent : s.driver.card.Sent p.skb p.dmaAddr c') :
    Mirrored
      { s with
        driver := { s.driver with card := c', txAccepted := s.driver.txAccepted ++ [p.skb] }
        stats := Function.update s.stats p.port ((s.stats p.port).countTx p.skb) }
      (n.accept p) := by
  let d' : State := { s.driver with card := c', txAccepted := s.driver.txAccepted ++ [p.skb] }
  let op : Op := .xmit p.skb p.port (some p.dmaAddr)
  have hx : exec s.driver op = some d' := by simp [op, exec, hret, hc', d']
  have hok : MapsOk s.driver op := trivial
  have hnext := hs.consistent.step hok hx
  have hgiven : (h.next s.driver op).txGiven = h.txGiven ++ [p.entry] := by
    simp only [op, History.next, State.txGives, hfits, if_true]
    rfl
  -- the interface before the queue is stopped
  let n₁ : Nic :=
    { n.log [.pciMapSingle p.dmaAddr p.skb.len .toDevice] with
      waiting := n.waiting ++ [p]
      stats := Function.update n.stats p.port ((n.stats p.port).countTx p.skb) }
  have htx : TxMirrors d' (h.next s.driver op) n₁ :=
    hs.tx.accept hs.consistent.tx.ring hshort hfits (congrArg Card.tx hc'.symm) rfl hgiven rfl rfl
      rfl
  have hrx : RxMirrors d' (h.next s.driver op) n₁ :=
    hs.rx.frame (congrArg Ring.dscMem hsent.rx) hsent.hostRxDne rfl (List.append_nil _) rfl rfl rfl
  have hroom : c'.txHasRoom = n₁.txRoom 1 32 :=
    htx.room hnext.tx.ring 1 32 (by decide) (by decide)
  have hcalls : c'.calls = n₁.calls :=
    hsent.calls.trans (congrArg (· ++ _) (congrArg Observation.calls hs.observed))
  have hstopped : c'.queueStopped =
      if n₁.txRoom 1 32 then n.stopped else Function.update n.stopped p.port true := by
    have hqueue := s.driver.card.queueStopped_nf10privXmit p.port p.dmaAddr hfits
    have hold : s.driver.card.queueStopped = n.stopped := congrArg Observation.stopped hs.observed
    rw [hc', hroom, hold] at hqueue
    exact hqueue
  have hup : c'.portUp = n.up := by
    have hports := s.driver.card.portUp_nf10privXmit p.port p.dmaAddr hfits
    rw [hc'] at hports
    exact hports.trans (congrArg Observation.up hs.observed)
  have hstats : Function.update s.stats p.port ((s.stats p.port).countTx p.skb) =
      Function.update n.stats p.port ((n.stats p.port).countTx p.skb) := by
    have hold : s.stats = n.stats := congrArg Observation.stats hs.observed
    rw [hold]
  have hdropped := congrArg Observation.dropped hs.observed
  have hwire := congrArg Observation.wire hs.observed
  have harrivals := congrArg Observation.arrivals hs.observed
  have haccept : n.accept p =
      if n₁.txRoom 1 32 then n₁
      else { n₁ with stopped := Function.update n.stopped p.port true } := rfl
  rw [haccept]
  by_cases hmore : n₁.txRoom 1 32 = true
  · rw [if_pos hmore] at hstopped ⊢
    exact ⟨_, hnext, htx.frame rfl rfl rfl rfl rfl rfl, hrx.frame rfl rfl rfl rfl rfl rfl rfl,
      Observation.ext hcalls hstopped hup hstats hdropped hwire harrivals⟩
  · rw [if_neg hmore] at hstopped ⊢
    exact ⟨_, hnext, htx.frame rfl rfl rfl rfl rfl rfl, hrx.frame rfl rfl rfl rfl rfl rfl rfl,
      Observation.ext hcalls hstopped hup hstats hdropped hwire harrivals⟩

theorem Mirrors.startXmit (hs : Mirrors s n h) (skb : SkBuff) (port : Port) (dmaAddr : UInt64) :
    Mirrored (s.nf10iTx skb port (some dmaAddr))
      (n.startXmit (padded skb) port (some dmaAddr)) := by
  by_cases hlong : (padded skb).len > 1514
  · have hnot : ¬(padded skb).len ≤ 1514 := UInt32.not_le.mpr hlong
    have hconcrete : s.nf10iTx skb port (some dmaAddr) =
        { s with dropped := s.dropped ++ [padded skb] } := if_pos hlong
    have habstract : n.startXmit (padded skb) port (some dmaAddr) =
        { n with dropped := n.dropped ++ [padded skb] } := by simp [Nic.startXmit, hnot]
    rw [hconcrete, habstract]
    exact hs.drop (padded skb)
  · have hshort : (padded skb).len ≤ 1514 := UInt32.not_lt.mp hlong
    have hroom : s.driver.card.tx.fits (Card.txClSize (padded skb).len) =
        n.txRoom 1 (TxPacket.lines (padded skb).len) := by
      have htest := hs.tx.room hs.consistent.tx.ring 1 (Card.txClSize (padded skb).len) (by decide)
        (Card.toNat_txClSize_lt _)
      rw [Card.toNat_txClSize hshort] at htest
      exact htest
    cases hfits : s.driver.card.tx.fits (Card.txClSize (padded skb).len) with
    | false =>
        have hconcrete : s.nf10iTx skb port (some dmaAddr) =
            { s with dropped := s.dropped ++ [padded skb] } := by
          simp [NetState.nf10iTx, hlong, Card.nf10privXmit_full _ _ _ _ hfits]
        have habstract : n.startXmit (padded skb) port (some dmaAddr) =
            { n with dropped := n.dropped ++ [padded skb] } := by
          rw [hfits] at hroom
          simp [Nic.startXmit, ← hroom]
        rw [hconcrete, habstract]
        exact hs.drop (padded skb)
    | true =>
        obtain ⟨c', hret, hsent⟩ :=
          s.driver.card.nf10privXmit_sent (padded skb) port dmaAddr hfits
        let p : TxPacket := ⟨padded skb, port, dmaAddr⟩
        have hpshort : p.skb.len ≤ 1514 := hshort
        have hpfits : s.driver.card.tx.fits (Card.txClSize p.skb.len) = true := hfits
        have hconcrete : s.nf10iTx skb port (some dmaAddr) =
            { s with
              driver := { s.driver with card := c', txAccepted := s.driver.txAccepted ++ [p.skb] }
              stats := Function.update s.stats p.port ((s.stats p.port).countTx p.skb) } := by
          simp [NetState.nf10iTx, hlong, hret, p]
        have habstract : n.startXmit (padded skb) port (some dmaAddr) = n.accept p := by
          rw [hfits] at hroom
          simp only [Nic.startXmit, hshort, ← hroom, decide_true, Bool.and_self, if_true]
          rfl
        rw [hconcrete, habstract]
        exact hs.accept hpshort hpfits (congrArg Prod.snd hret) (congrArg Prod.fst hret) hsent

/-! ## Runs -/

/-- The device of a port goes up or down. -/
theorem Mirrors.setPortUp (hs : Mirrors s n h) (port : Port) (up : Bool) :
    Mirrored (s.setPortUp port up) { n with up := Function.update n.up port up } :=
  ⟨h,
    { consistent :=
        { tx := hs.consistent.tx.frame rfl rfl rfl rfl rfl rfl rfl
          rx := hs.consistent.rx.frame rfl rfl rfl rfl rfl rfl }
      tx := hs.tx.frame rfl rfl rfl rfl rfl rfl
      rx := hs.rx.frame rfl rfl rfl rfl rfl rfl rfl
      observed :=
        congrArg (fun o => { o with up := Function.update o.up port up }) hs.observed }⟩

/-- Each step of the devices is a step of the interface. -/
theorem Mirrors.step (hs : Mirrors s n h) {op : NetOp} (hmaps : op.Maps) :
    Option.Rel Mirrored (netExec s op) (n.exec op) := by
  cases op with
  | ndoOpen port => exact .some (hs.setPortUp port true)
  | ndoStop port => exact .some (hs.setPortUp port false)
  | ndoStartXmit skb port dma =>
      obtain ⟨dmaAddr, rfl⟩ := Option.isSome_iff_exists.mp hmaps
      exact .some (hs.startXmit skb port dmaAddr)
  | sendRxDsc alloc dmaAddr => exact hs.sendRxDsc alloc dmaAddr
  | storeTx => exact hs.storeTx
  | storeRx word => exact hs.storeRx word
  | handleTx => exact hs.handleTx
  | handleRx alloc dmaAddr => exact hs.handleRx alloc dmaAddr

/-- The devices and the interface run side by side. -/
theorem mirrored_run (raw : Card) {ops : List NetOp} (hmaps : ∀ op ∈ ops, op.Maps) :
    Option.Rel Mirrored (ops.foldlM netExec (netProbed raw)) (ops.foldlM Nic.exec {}) :=
  Lib.foldlM_rel (fun _ _ op hop hs => hs.choose_spec.step (hmaps op hop))
    ⟨{}, mirrors_netProbed raw⟩

/-- The interface that a run of the devices is. -/
theorem exists_nic (raw : Card) {ops : List NetOp} {s : NetState} (hmaps : ∀ op ∈ ops, op.Maps)
    (hrun : ops.foldlM netExec (netProbed raw) = some s) :
    ∃ n : Nic, ops.foldlM Nic.exec {} = some n ∧ Mirrored s n := by
  have hrel := mirrored_run raw hmaps
  cases hn : ops.foldlM Nic.exec ({} : Nic) with
  | none =>
      rw [hrun, hn] at hrel
      cases hrel
  | some n =>
      rw [hrun, hn] at hrel
      cases hrel with
      | some hmirrored => exact ⟨n, rfl, hmirrored⟩

/-- In a run in which DMA mapping succeeds the driver and its card are an interface with
queues: a step can happen where the interface can take it, and the calls of the kernel, the
states and counters of the devices, the packets sent and those received are the same. -/
theorem driver_is_nic (raw : Card) (ops : List NetOp) (hmaps : ∀ op ∈ ops, op.Maps) :
    (ops.foldlM netExec (netProbed raw)).map NetState.observed =
      (ops.foldlM Nic.exec {}).map Nic.toObservation := by
  have hrel := mirrored_run raw hmaps
  cases hs : ops.foldlM netExec (netProbed raw) <;> cases hn : ops.foldlM Nic.exec ({} : Nic) <;>
    rw [hs, hn] at hrel <;> cases hrel
  case none.none => rfl
  case some.some hmirrored => exact congrArg some hmirrored.choose_spec.observed

/-- A packet is sent and its completion handled, and one is received on a port that is up. -/
def pingPong : List NetOp :=
  [.ndoOpen 0, .sendRxDsc (some 1) 0x1000, .ndoStartXmit ⟨2, 42⟩ 3 (some 0x2001), .storeTx,
    .handleTx, .storeRx 0x0200003c, .handleRx (some 3) 0x3000]

theorem driver_is_nic_pingPong :
    (pingPong.foldlM netExec (netProbed Card.zeroed)).isSome = true ∧
      (pingPong.foldlM netExec (netProbed Card.zeroed)).map NetState.observed =
        (pingPong.foldlM Nic.exec {}).map Nic.toObservation :=
  ⟨by decide +kernel, driver_is_nic Card.zeroed pingPong (by simp [pingPong, NetOp.Maps])⟩

end CodeAnalyze.Nf10
