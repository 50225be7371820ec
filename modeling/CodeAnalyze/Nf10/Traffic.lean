import CodeAnalyze.Nf10.Delivery
import CodeAnalyze.Nf10.Mappings

/-!
# What the card does with the memory of the kernel

The card reads packets from the memory of the kernel and writes packets to it.  In each
direction the addresses that are mapped, those the card uses and those that are unmapped are
one sequence, and the second follows the first and the third the second.

The counters of the devices are those of the packets that were sent and received.
-/

namespace CodeAnalyze.Nf10

namespace Observation

variable (o : Observation)

/-- The addresses that were mapped, in order. -/
def mapped (dir : DmaDir) : List UInt64 := (o.calls.filterMap (KernelCall.mapped dir)).map (·.1)

/-- The addresses that were unmapped, in order. -/
def unmapped (dir : DmaDir) : List UInt64 :=
  (o.calls.filterMap (KernelCall.unmapped dir)).map (·.1)

/-- The addresses from which the card has sent a packet, or to which it has written one. -/
def accessed : DmaDir → List UInt64
  | .toDevice => o.wire.map (·.dmaAddr)
  | .fromDevice => o.arrivals.map (·.1.dmaAddr)

/-- The skbs that were passed on to the kernel. -/
def received : List SkBuff :=
  o.calls.filterMap fun
    | .netifReceiveSkb skb => some skb
    | _ => none

end Observation

/-- The descriptors that the card holds at most. -/
def DmaDir.capacity : DmaDir → ℕ
  | .toDevice => 32
  | .fromDevice => Nic.rxCapacity

namespace Nic

/-- What the card has done in a direction, and is not handled. -/
def done (n : Nic) : DmaDir → List UInt64
  | .toDevice => n.sent.map (·.dmaAddr)
  | .fromDevice => n.filled.map (·.1.dmaAddr)

/-- What the card has to do in a direction. -/
def todo (n : Nic) : DmaDir → List UInt64
  | .toDevice => n.waiting.map (·.dmaAddr)
  | .fromDevice => n.posted.map (·.dmaAddr)

variable {n n' : Nic}

/-! ## What the steps do -/

theorem send_inv (hx : n.send = some n') :
    ∃ p rest, n.waiting = p :: rest ∧ n' =
      { n with waiting := rest, sent := n.sent ++ [p], wire := n.wire ++ [p.descriptor] } := by
  unfold Nic.send at hx
  cases hwaiting : n.waiting with
  | nil => simp [hwaiting] at hx
  | cons p rest =>
      simp only [hwaiting, Option.some.injEq] at hx
      exact ⟨p, rest, rfl, hx.symm⟩

theorem complete_inv (hx : n.complete = some n') :
    ∃ p rest, n.sent = p :: rest ∧ ∃ n₁ : Nic, n₁ = { n with sent := rest }.log
      [.pciUnmapSingle p.dmaAddr p.skb.len .toDevice, .devKfreeSkbAny p.skb] ∧
      n' = if n₁.txRoom 8 128 then { n₁ with stopped := fun _ => false } else n₁ := by
  unfold Nic.complete at hx
  cases hsent : n.sent with
  | nil => simp [hsent] at hx
  | cons p rest =>
      simp only [hsent, Option.some.injEq] at hx
      exact ⟨p, rest, rfl, _, rfl, hx.symm⟩

theorem fill_inv {word : UInt64} (hx : n.fill word = some n') :
    ∃ b rest, n.posted = b :: rest ∧ n' =
      { n with
        posted := rest
        filled := n.filled ++ [(b, word)]
        arrivals := n.arrivals ++ [(b.descriptor, word)] } := by
  unfold Nic.fill at hx
  cases hposted : n.posted with
  | nil => simp [hposted] at hx
  | cons b rest =>
      simp only [hposted, Option.some.injEq] at hx
      exact ⟨b, rest, rfl, hx.symm⟩

theorem receive_inv {dmaAddr : UInt64} {alloc : Option ℕ} (hx : n.receive dmaAddr alloc = some n') :
    ∃ b word rest, n.filled = (b, word) :: rest ∧ n' =
      (({ n with filled := rest }.log [.pciUnmapSingle b.dmaAddr 0 .fromDevice]).post dmaAddr
        alloc).deliver b word := by
  unfold Nic.receive at hx
  cases hfilled : n.filled with
  | nil => simp [hfilled] at hx
  | cons first rest =>
      simp only [hfilled, Option.some.injEq] at hx
      exact ⟨first.1, first.2, rest, rfl, hx.symm⟩

/-! ## Mappings -/

/-- Every mapping is used once and then unmapped, in order. -/
structure Traced (n : Nic) : Prop where
  accessed : ∀ dir, n.accessed dir = n.unmapped dir ++ n.done dir
  mapped : ∀ dir, n.mapped dir = n.accessed dir ++ n.todo dir
  fits : ∀ dir, (n.done dir ++ n.todo dir).length ≤ dir.capacity

theorem traced_start : Traced {} where
  accessed := fun dir => by cases dir <;> rfl
  mapped := fun dir => by cases dir <;> rfl
  fits := fun dir => by cases dir <;> exact Nat.zero_le _

/-- What the trace depends on. -/
theorem Traced.frame (hs : Traced n) (hmapped : n'.mapped = n.mapped)
    (hunmapped : n'.unmapped = n.unmapped) (haccessed : n'.accessed = n.accessed)
    (hdone : n'.done = n.done) (htodo : n'.todo = n.todo) : Traced n' := by
  constructor
  · rw [haccessed, hunmapped, hdone]
    exact hs.accessed
  · rw [hmapped, haccessed, htodo]
    exact hs.mapped
  · rw [hdone, htodo]
    exact hs.fits

/-- A mapping is put behind the others. -/
theorem Traced.add (hs : Traced n) (dir : DmaDir) (dmaAddr : UInt64)
    (hmapped : n'.mapped = Function.update n.mapped dir (n.mapped dir ++ [dmaAddr]))
    (hunmapped : n'.unmapped = n.unmapped) (haccessed : n'.accessed = n.accessed)
    (hdone : n'.done = n.done)
    (htodo : n'.todo = Function.update n.todo dir (n.todo dir ++ [dmaAddr]))
    (hroom : (n.done dir ++ n.todo dir).length < dir.capacity) : Traced n' := by
  constructor
  · rw [haccessed, hunmapped, hdone]
    exact hs.accessed
  · intro d
    rw [hmapped, haccessed, htodo]
    by_cases hd : d = dir
    · subst hd
      rw [Function.update_self, Function.update_self, hs.mapped, List.append_assoc]
    · rw [Function.update_of_ne hd, Function.update_of_ne hd]
      exact hs.mapped d
  · intro d
    rw [hdone, htodo]
    by_cases hd : d = dir
    · subst hd
      rw [Function.update_self, ← List.append_assoc, List.length_append, List.length_singleton]
      omega
    · rw [Function.update_of_ne hd]
      exact hs.fits d

/-- The card uses the oldest mapping that it has not used. -/
theorem Traced.use (hs : Traced n) (dir : DmaDir) {dmaAddr : UInt64} {rest : List UInt64}
    (hhead : n.todo dir = dmaAddr :: rest) (hmapped : n'.mapped = n.mapped)
    (hunmapped : n'.unmapped = n.unmapped)
    (haccessed : n'.accessed = Function.update n.accessed dir (n.accessed dir ++ [dmaAddr]))
    (hdone : n'.done = Function.update n.done dir (n.done dir ++ [dmaAddr]))
    (htodo : n'.todo = Function.update n.todo dir rest) : Traced n' := by
  constructor
  · intro d
    rw [haccessed, hunmapped, hdone]
    by_cases hd : d = dir
    · subst hd
      rw [Function.update_self, Function.update_self, hs.accessed, List.append_assoc]
    · rw [Function.update_of_ne hd, Function.update_of_ne hd]
      exact hs.accessed d
  · intro d
    rw [hmapped, haccessed, htodo]
    by_cases hd : d = dir
    · subst hd
      rw [Function.update_self, Function.update_self, hs.mapped, hhead, List.append_assoc]
      rfl
    · rw [Function.update_of_ne hd, Function.update_of_ne hd]
      exact hs.mapped d
  · intro d
    have hfits := hs.fits d
    rw [hdone, htodo]
    by_cases hd : d = dir
    · subst hd
      rw [hhead] at hfits
      rw [Function.update_self, Function.update_self, List.append_assoc]
      exact hfits
    · rw [Function.update_of_ne hd, Function.update_of_ne hd]
      exact hfits

/-- The oldest mapping that was used is unmapped. -/
theorem Traced.remove (hs : Traced n) (dir : DmaDir) {dmaAddr : UInt64} {rest : List UInt64}
    (hhead : n.done dir = dmaAddr :: rest) (hmapped : n'.mapped = n.mapped)
    (hunmapped : n'.unmapped = Function.update n.unmapped dir (n.unmapped dir ++ [dmaAddr]))
    (haccessed : n'.accessed = n.accessed) (hdone : n'.done = Function.update n.done dir rest)
    (htodo : n'.todo = n.todo) : Traced n' := by
  constructor
  · intro d
    rw [haccessed, hunmapped, hdone]
    by_cases hd : d = dir
    · subst hd
      rw [Function.update_self, Function.update_self, hs.accessed, hhead, List.append_assoc]
      rfl
    · rw [Function.update_of_ne hd, Function.update_of_ne hd]
      exact hs.accessed d
  · rw [hmapped, haccessed, htodo]
    exact hs.mapped
  · intro d
    have hfits := hs.fits d
    rw [hdone, htodo]
    by_cases hd : d = dir
    · subst hd
      rw [hhead] at hfits
      rw [Function.update_self]
      exact Nat.le_of_succ_le hfits
    · rw [Function.update_of_ne hd]
      exact hfits

/-! ## The steps of an interface -/

/-- What calls add to the addresses that were mapped. -/
theorem mapped_log (n : Nic) (calls : List KernelCall) (dir : DmaDir) :
    (n.log calls).mapped dir =
      n.mapped dir ++ (calls.filterMap (KernelCall.mapped dir)).map (·.1) := by
  simp [Observation.mapped, log]

theorem unmapped_log (n : Nic) (calls : List KernelCall) (dir : DmaDir) :
    (n.log calls).unmapped dir =
      n.unmapped dir ++ (calls.filterMap (KernelCall.unmapped dir)).map (·.1) := by
  simp [Observation.unmapped, log]

theorem Traced.accept (hs : Traced n) (p : TxPacket) (hroom : n.inFlight.length < 32) :
    Traced (n.accept p) := by
  let n₁ : Nic :=
    { n.log [.pciMapSingle p.dmaAddr p.skb.len .toDevice] with
      waiting := n.waiting ++ [p]
      stats := Function.update n.stats p.port ((n.stats p.port).countTx p.skb) }
  have hn₁ : Traced n₁ := by
    refine hs.add .toDevice p.dmaAddr ?_ ?_ rfl rfl ?_ ?_
    · funext dir
      refine (mapped_log n _ dir).trans ?_
      cases dir <;> simp [KernelCall.mapped]
    · funext dir
      refine (unmapped_log n _ dir).trans ?_
      simp [KernelCall.unmapped]
    · funext dir
      cases dir <;> simp [todo, n₁, log]
    · simpa [done, todo, inFlight, DmaDir.capacity] using hroom
  have haccept : n.accept p =
      if n₁.txRoom 1 32 then n₁
      else { n₁ with stopped := Function.update n.stopped p.port true } := rfl
  rw [haccept]
  split
  · exact hn₁
  · exact hn₁.frame rfl rfl rfl rfl rfl

theorem Traced.startXmit (hs : Traced n) (skb : SkBuff) (port : Port) (dma : Option UInt64) :
    Traced (n.startXmit skb port dma) := by
  cases dma with
  | none => exact hs.frame rfl rfl rfl rfl rfl
  | some dmaAddr =>
      by_cases hroom : (decide (skb.len ≤ 1514) && n.txRoom 1 (TxPacket.lines skb.len)) = true
      · rw [Nic.startXmit, if_pos hroom]
        simp only [txRoom, Bool.and_eq_true, decide_eq_true_eq] at hroom
        exact hs.accept _ (by omega)
      · rw [Nic.startXmit, if_neg hroom]
        exact hs.frame rfl rfl rfl rfl rfl

theorem Traced.send (hs : Traced n) (hx : n.send = some n') : Traced n' := by
  obtain ⟨p, rest, hwaiting, rfl⟩ := send_inv hx
  have hhead : n.todo .toDevice = p.dmaAddr :: rest.map (·.dmaAddr) := by simp [todo, hwaiting]
  refine hs.use .toDevice hhead rfl rfl ?_ ?_ ?_
  · funext dir
    cases dir <;> simp [Observation.accessed, TxPacket.descriptor]
  · funext dir
    cases dir <;> simp [done]
  · funext dir
    cases dir <;> simp [todo]

theorem Traced.complete (hs : Traced n) (hx : n.complete = some n') : Traced n' := by
  obtain ⟨p, rest, hsent, n₁, hn₁, rfl⟩ := complete_inv hx
  have htraced : Traced n₁ := by
    have hhead : n.done .toDevice = p.dmaAddr :: rest.map (·.dmaAddr) := by simp [done, hsent]
    subst hn₁
    refine hs.remove .toDevice hhead ?_ ?_ rfl ?_ rfl
    · funext dir
      refine (mapped_log { n with sent := rest } _ dir).trans ?_
      simp [KernelCall.mapped]
    · funext dir
      refine (unmapped_log { n with sent := rest } _ dir).trans ?_
      cases dir <;> simp [KernelCall.unmapped]
    · funext dir
      cases dir <;> simp [done, log]
  split
  · exact htraced.frame rfl rfl rfl rfl rfl
  · exact htraced

theorem Traced.post (hs : Traced n) (dmaAddr : UInt64) (alloc : Option ℕ) :
    Traced (n.post dmaAddr alloc) := by
  cases alloc with
  | none => exact hs
  | some ptr =>
      by_cases hroom : n.buffers.length < rxCapacity
      · rw [Nic.post, if_pos hroom]
        refine hs.add .fromDevice dmaAddr ?_ ?_ rfl rfl ?_ ?_
        · funext dir
          refine (mapped_log n _ dir).trans ?_
          cases dir with
          | toDevice => simp [KernelCall.mapped]
          | fromDevice => rfl
        · funext dir
          refine (unmapped_log n _ dir).trans ?_
          simp [KernelCall.unmapped]
        · funext dir
          cases dir <;> simp [todo, log]
        · simpa [done, todo, buffers, DmaDir.capacity] using hroom
      · rw [Nic.post, if_neg hroom]
        exact hs

theorem Traced.fill (hs : Traced n) {word : UInt64} (hx : n.fill word = some n') : Traced n' := by
  obtain ⟨b, rest, hposted, rfl⟩ := fill_inv hx
  have hhead : n.todo .fromDevice = b.dmaAddr :: rest.map (·.dmaAddr) := by simp [todo, hposted]
  refine hs.use .fromDevice hhead rfl rfl ?_ ?_ ?_
  · funext dir
    cases dir <;> simp [Observation.accessed, RxBuffer.descriptor]
  · funext dir
    cases dir <;> simp [done]
  · funext dir
    cases dir <;> simp [todo]

/-- The kernel gets no mapping with a packet. -/
theorem Traced.deliver (hs : Traced n) (b : RxBuffer) (word : UInt64) :
    Traced (n.deliver b word) := by
  have hlog (call : KernelCall) (hcall : ∀ dir, call.mapped dir = none ∧ call.unmapped dir = none) :
      Traced (n.log [call]) := by
    refine hs.frame ?_ ?_ rfl rfl rfl
    · funext dir
      rw [mapped_log]
      simp [hcall dir]
    · funext dir
      rw [unmapped_log]
      simp [hcall dir]
  unfold Nic.deliver
  cases Card.rxPort word with
  | none => exact hs
  | some port =>
      simp only
      split
      · split
        · exact (hlog _ fun _ => ⟨rfl, rfl⟩).frame rfl rfl rfl rfl rfl
        · exact hlog _ fun _ => ⟨rfl, rfl⟩
      · exact hs

theorem Traced.receive (hs : Traced n) {dmaAddr : UInt64} {alloc : Option ℕ}
    (hx : n.receive dmaAddr alloc = some n') : Traced n' := by
  obtain ⟨b, word, rest, hfilled, rfl⟩ := receive_inv hx
  have hhead : n.done .fromDevice = b.dmaAddr :: rest.map (·.1.dmaAddr) := by
    simp [done, hfilled]
  have hn₁ : Traced ({ n with filled := rest }.log
      [.pciUnmapSingle b.dmaAddr 0 .fromDevice]) := by
    refine hs.remove .fromDevice hhead ?_ ?_ rfl ?_ rfl
    · funext dir
      refine (mapped_log { n with filled := rest } _ dir).trans ?_
      simp [KernelCall.mapped]
    · funext dir
      refine (unmapped_log { n with filled := rest } _ dir).trans ?_
      cases dir <;> simp [KernelCall.unmapped]
    · funext dir
      cases dir <;> simp [done, log]
  exact (hn₁.post dmaAddr alloc).deliver b word

theorem Traced.step (hs : Traced n) {op : NetOp} (hx : n.exec op = some n') : Traced n' := by
  cases op with
  | ndoOpen port | ndoStop port =>
      cases hx
      exact hs.frame rfl rfl rfl rfl rfl
  | ndoStartXmit skb port dma =>
      cases hx
      exact hs.startXmit (padded skb) port dma
  | sendRxDsc alloc dmaAddr =>
      cases hx
      exact hs.post dmaAddr alloc
  | storeTx => exact hs.send hx
  | storeRx word => exact hs.fill (Option.ite_none_right_eq_some.mp hx).2
  | handleTx => exact hs.complete hx
  | handleRx alloc dmaAddr => exact hs.receive hx

end Nic

/-- In a run in which DMA mapping succeeds the card uses every mapping once and in order, after
it was made and before it is released, and no more than the rings hold are open. -/
theorem card_in_mapped (raw : Card) {ops : List NetOp} {s : NetState}
    (hmaps : ∀ op ∈ ops, op.Maps) (hrun : ops.foldlM netExec (netProbed raw) = some s)
    (dir : DmaDir) :
    s.observed.unmapped dir <+: s.observed.accessed dir ∧
      s.observed.accessed dir <+: s.observed.mapped dir ∧
      (s.observed.mapped dir).length ≤ (s.observed.unmapped dir).length + dir.capacity := by
  obtain ⟨n, hn, h, hmirrors⟩ := exists_nic raw hmaps hrun
  have hs : n.Traced :=
    Lib.run_invariant (fun _ _ _ _ hI hx => Nic.Traced.step hI hx) Nic.traced_start hn
  have hfits := hs.fits dir
  rw [hmirrors.observed]
  refine ⟨⟨_, (hs.accessed dir).symm⟩, ⟨_, (hs.mapped dir).symm⟩, ?_⟩
  rw [hs.mapped, hs.accessed, List.append_assoc, List.length_append]
  omega

/-- The devices after `pingPong`. -/
def pingPonged : NetState :=
  (pingPong.foldlM netExec (netProbed Card.zeroed)).get (by decide +kernel)

theorem card_in_mapped_pingPong :
    pingPonged.observed.mapped .fromDevice = [0x1000, 0x3000] ∧
      pingPonged.observed.accessed .fromDevice = [0x1000] ∧
      pingPonged.observed.unmapped .fromDevice <+: pingPonged.observed.accessed .fromDevice :=
  ⟨by decide +kernel, by decide +kernel,
    (card_in_mapped Card.zeroed (s := pingPonged) (by simp [pingPong, NetOp.Maps])
      (Option.some_get (by decide +kernel)).symm .fromDevice).1⟩

/-! ## The counters -/

/-- The number of packets for a port. -/
def packetsFor (port : Port) (dscs : List Descriptor) : UInt64 :=
  UInt64.ofNat (dscs.countP fun d => d.ports == Card.portDecoded port)

/-- The bytes of the packets for a port. -/
def bytesFor (port : Port) (dscs : List Descriptor) : UInt64 :=
  dscs.foldl (fun bytes d => if d.ports = Card.portDecoded port then bytes + d.len else bytes) 0

/-- A counter of all the devices together. -/
def allPorts (counter : NetStats → UInt64) (stats : Port → NetStats) : UInt64 :=
  counter (stats 0) + counter (stats 1) + counter (stats 2) + counter (stats 3)

theorem portDecoded_injective {p q : Port} (h : Card.portDecoded p = Card.portDecoded q) :
    p = q := by
  revert p q
  decide

theorem allPorts_update (counter : NetStats → UInt64) (stats : Port → NetStats) (port : Port)
    (new : NetStats) {k : UInt64} (hnew : counter new = counter (stats port) + k) :
    allPorts counter (Function.update stats port new) = allPorts counter stats + k := by
  unfold allPorts
  match port with
  | 0 | 1 | 2 | 3 => simp [Function.update, hnew]; grind

namespace Nic

/-- The packets that were accepted, as the card sees them. -/
def outgoing (n : Nic) : List Descriptor := n.wire ++ n.waiting.map TxPacket.descriptor

/-- The counters are those of the packets accepted and of the packets passed on. -/
structure Counted (n : Nic) : Prop where
  txPackets : ∀ port, (n.stats port).txPackets = packetsFor port n.outgoing
  txBytes : ∀ port, (n.stats port).txBytes = bytesFor port n.outgoing
  rxPackets : allPorts (·.rxPackets) n.stats = UInt64.ofNat n.received.length
  rxBytes : allPorts (·.rxBytes) n.stats =
    n.received.foldl (fun bytes skb => bytes + skb.len.toUInt64) 0

theorem counted_start : Counted {} where
  txPackets := fun _ => rfl
  txBytes := fun _ => rfl
  rxPackets := rfl
  rxBytes := rfl

variable {n n' : Nic}

/-- What the counters depend on. -/
theorem Counted.frame (hs : Counted n) (hstats : n'.stats = n.stats)
    (houtgoing : n'.outgoing = n.outgoing) (hreceived : n'.received = n.received) : Counted n' := by
  constructor
  · rw [hstats, houtgoing]
    exact hs.txPackets
  · rw [hstats, houtgoing]
    exact hs.txBytes
  · rw [hstats, hreceived]
    exact hs.rxPackets
  · rw [hstats, hreceived]
    exact hs.rxBytes

/-- A packet for the card is counted at its port and at no other. -/
theorem Counted.countTx (hs : Counted n) (p : TxPacket)
    (hstats : n'.stats = Function.update n.stats p.port ((n.stats p.port).countTx p.skb))
    (houtgoing : n'.outgoing = n.outgoing ++ [p.descriptor])
    (hreceived : n'.received = n.received) : Counted n' := by
  constructor
  · intro port
    rw [hstats, houtgoing]
    by_cases hport : port = p.port
    · subst hport
      rw [Function.update_self]
      change (n.stats p.port).txPackets + 1 = _
      rw [hs.txPackets]
      simp [packetsFor, TxPacket.descriptor, UInt64.ofNat_add]
    · have hne : Card.portDecoded p.port ≠ Card.portDecoded port :=
        fun heq => hport (portDecoded_injective heq).symm
      rw [Function.update_of_ne hport, hs.txPackets]
      simp [packetsFor, TxPacket.descriptor, hne]
  · intro port
    rw [hstats, houtgoing]
    by_cases hport : port = p.port
    · subst hport
      rw [Function.update_self]
      change (n.stats p.port).txBytes + p.skb.len.toUInt64 = _
      rw [hs.txBytes]
      simp [bytesFor, TxPacket.descriptor]
    · have hne : Card.portDecoded p.port ≠ Card.portDecoded port :=
        fun heq => hport (portDecoded_injective heq).symm
      rw [Function.update_of_ne hport, hs.txBytes]
      simp [bytesFor, TxPacket.descriptor, hne]
  · have hsame : ((n.stats p.port).countTx p.skb).rxPackets = (n.stats p.port).rxPackets + 0 :=
      (UInt64.add_zero _).symm
    rw [hreceived, ← hs.rxPackets, hstats, allPorts_update _ n.stats p.port _ hsame,
      UInt64.add_zero]
  · have hsame : ((n.stats p.port).countTx p.skb).rxBytes = (n.stats p.port).rxBytes + 0 :=
      (UInt64.add_zero _).symm
    rw [hreceived, ← hs.rxBytes, hstats, allPorts_update _ n.stats p.port _ hsame,
      UInt64.add_zero]

/-- A packet that is passed on is counted at its port. -/
theorem Counted.countRx (hs : Counted n) (port : Port) (skb : SkBuff)
    (hstats : n'.stats = Function.update n.stats port ((n.stats port).countRx skb))
    (houtgoing : n'.outgoing = n.outgoing) (hreceived : n'.received = n.received ++ [skb]) :
    Counted n' := by
  have htx (q : Port) : (n'.stats q).txPackets = (n.stats q).txPackets ∧
      (n'.stats q).txBytes = (n.stats q).txBytes := by
    rw [hstats]
    by_cases hq : q = port
    · subst hq
      rw [Function.update_self]
      exact ⟨rfl, rfl⟩
    · rw [Function.update_of_ne hq]
      exact ⟨rfl, rfl⟩
  constructor
  · intro q
    rw [houtgoing, (htx q).1]
    exact hs.txPackets q
  · intro q
    rw [houtgoing, (htx q).2]
    exact hs.txBytes q
  · have hmore : ((n.stats port).countRx skb).rxPackets = (n.stats port).rxPackets + 1 := rfl
    rw [hstats, hreceived, List.length_append, UInt64.ofNat_add, ← hs.rxPackets,
      allPorts_update _ n.stats port _ hmore]
    rfl
  · have hmore : ((n.stats port).countRx skb).rxBytes =
        (n.stats port).rxBytes + skb.len.toUInt64 := rfl
    rw [hstats, hreceived, List.foldl_append, ← hs.rxBytes,
      allPorts_update _ n.stats port _ hmore]
    rfl

/-- Other calls of the kernel are not counted. -/
theorem received_log (n : Nic) {calls : List KernelCall}
    (hcalls : ∀ skb, KernelCall.netifReceiveSkb skb ∉ calls) :
    (n.log calls).received = n.received := by
  have hnone : calls.filterMap (fun
      | .netifReceiveSkb skb => some skb
      | _ => none) = [] := by
    rw [List.filterMap_eq_nil_iff]
    intro call hmem
    cases call with
    | netifReceiveSkb skb => exact absurd hmem (hcalls skb)
    | _ => rfl
  unfold Observation.received log
  rw [List.filterMap_append, hnone, List.append_nil]

theorem Counted.accept (hs : Counted n) (p : TxPacket) : Counted (n.accept p) := by
  have houtgoing : (n.wire ++ (n.waiting ++ [p]).map TxPacket.descriptor) =
      n.outgoing ++ [p.descriptor] := by simp [outgoing]
  have hcalls (skb : SkBuff) : KernelCall.netifReceiveSkb skb ∉
      [.pciMapSingle p.dmaAddr p.skb.len .toDevice] := by simp
  have hreceived := received_log n hcalls
  unfold Nic.accept
  simp only
  split
  · exact hs.countTx p rfl houtgoing hreceived
  · exact hs.countTx p rfl houtgoing hreceived

theorem Counted.post (hs : Counted n) (dmaAddr : UInt64) (alloc : Option ℕ) :
    Counted (n.post dmaAddr alloc) := by
  cases alloc with
  | none => exact hs
  | some ptr =>
      by_cases hroom : n.buffers.length < rxCapacity
      · rw [Nic.post, if_pos hroom]
        exact hs.frame rfl rfl (received_log n (by simp))
      · rw [Nic.post, if_neg hroom]
        exact hs

theorem Counted.deliver (hs : Counted n) (b : RxBuffer) (word : UInt64) :
    Counted (n.deliver b word) := by
  unfold Nic.deliver
  cases Card.rxPort word with
  | none => exact hs
  | some port =>
      simp only
      split
      · split
        · refine hs.countRx port (Card.ethTypeTrans ⟨b.ptr, (word &&& 0xffff).toUInt32⟩) rfl rfl ?_
          exact List.filterMap_append
        · exact hs.frame rfl rfl (received_log n (by simp))
      · exact hs

theorem Counted.step (hs : Counted n) {op : NetOp} (hx : n.exec op = some n') : Counted n' := by
  cases op with
  | ndoOpen port | ndoStop port =>
      cases hx
      exact hs.frame rfl rfl rfl
  | ndoStartXmit skb port dma =>
      cases hx
      cases dma with
      | none => exact hs.frame rfl rfl rfl
      | some dmaAddr =>
          unfold Nic.startXmit
          simp only
          split
          · exact hs.accept _
          · exact hs.frame rfl rfl rfl
  | sendRxDsc alloc dmaAddr =>
      cases hx
      exact hs.post dmaAddr alloc
  | storeTx =>
      obtain ⟨p, rest, hwaiting, rfl⟩ := send_inv hx
      -- the packet goes from the end of one list to the other
      exact hs.frame rfl (by simp [outgoing, hwaiting]) rfl
  | storeRx word =>
      obtain ⟨b, rest, -, rfl⟩ := fill_inv (Option.ite_none_right_eq_some.mp hx).2
      exact hs.frame rfl rfl rfl
  | handleTx =>
      obtain ⟨p, rest, -, n₁, hn₁, rfl⟩ := complete_inv hx
      have hcalls (skb : SkBuff) : KernelCall.netifReceiveSkb skb ∉
          [.pciUnmapSingle p.dmaAddr p.skb.len .toDevice, .devKfreeSkbAny p.skb] := by simp
      have hreceived := received_log { n with sent := rest } hcalls
      subst hn₁
      split
      · exact hs.frame rfl rfl hreceived
      · exact hs.frame rfl rfl hreceived
  | handleRx alloc dmaAddr =>
      obtain ⟨b, word, rest, -, rfl⟩ := receive_inv hx
      have hcalls (skb : SkBuff) : KernelCall.netifReceiveSkb skb ∉
          [.pciUnmapSingle b.dmaAddr 0 .fromDevice] := by simp
      have hreceived := received_log { n with filled := rest } hcalls
      have hn₁ : Counted ({ n with filled := rest }.log
          [.pciUnmapSingle b.dmaAddr 0 .fromDevice]) := hs.frame rfl rfl hreceived
      exact (hn₁.post dmaAddr alloc).deliver b word

end Nic

/-- In a run in which DMA mapping succeeds the counters of a port are those of the packets for it
that the card has sent and of those in its memory that it is to send, which together are those
mapped to be sent, and the devices together have counted what was passed on to the kernel. -/
theorem counters_count (raw : Card) {ops : List NetOp} {s : NetState}
    (hmaps : ∀ op ∈ ops, op.Maps) (hrun : ops.foldlM netExec (netProbed raw) = some s) :
    (s.wire ++ s.pending).map (·.dmaAddr) = s.observed.mapped .toDevice ∧
    (∀ port, (s.stats port).txPackets = packetsFor port (s.wire ++ s.pending) ∧
      (s.stats port).txBytes = bytesFor port (s.wire ++ s.pending)) ∧
    allPorts (·.rxPackets) s.stats = UInt64.ofNat s.observed.received.length ∧
    allPorts (·.rxBytes) s.stats =
      s.observed.received.foldl (fun bytes skb => bytes + skb.len.toUInt64) 0 := by
  obtain ⟨n, hn, h, hs⟩ := exists_nic raw hmaps hrun
  have htraced : n.Traced :=
    Lib.run_invariant (fun _ _ _ _ hI hx => Nic.Traced.step hI hx) Nic.traced_start hn
  have hcounted : n.Counted :=
    Lib.run_invariant (fun _ _ _ _ hI hx => Nic.Counted.step hI hx) Nic.counted_start hn
  have hstats : s.stats = n.stats := congrArg Observation.stats hs.observed
  have hwire : s.wire = n.wire := congrArg Observation.wire hs.observed
  rw [hstats, hwire, hs.pending_eq, hs.observed]
  refine ⟨?_, fun port => ⟨hcounted.txPackets port, hcounted.txBytes port⟩, hcounted.rxPackets,
    hcounted.rxBytes⟩
  rw [htraced.mapped .toDevice, List.map_append, List.map_map]
  rfl

theorem counters_count_pingPong :
    pingPonged.observed.received = [⟨1, 46⟩] ∧
      allPorts NetStats.rxPackets pingPonged.stats =
        UInt64.ofNat pingPonged.observed.received.length :=
  ⟨by decide +kernel,
    (counters_count Card.zeroed (s := pingPonged) (by simp [pingPong, NetOp.Maps])
      (Option.some_get (by decide +kernel)).symm).2.2.1⟩

end CodeAnalyze.Nf10
