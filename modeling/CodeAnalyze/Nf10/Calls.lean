import CodeAnalyze.Nf10.Priv
import CodeAnalyze.Nf10.Rings

/-!
# What the calls of the driver do

One statement for each function and each way it can go: the rings as queues, the words of
the completion buffers, and what the kernel is called for.
-/

namespace CodeAnalyze.Nf10

namespace Card

variable (c : Card) (skb : SkBuff) (port : Port) (dmaAddr : UInt64)

/-! ## `nf10priv_xmit` -/

theorem toNat_txClSize_lt (len : UInt32) : (txClSize len).toNat < 2 ^ 32 := by
  unfold txClSize
  rw [UInt32.toNat_toUInt64]
  exact UInt32.toNat_lt _

/-- Without room nothing happens. -/
theorem nf10privXmit_full (dma : Option UInt64) (h : c.tx.fits (txClSize skb.len) = false) :
    c.nf10privXmit skb port dma = (-1, c) := by
  simp [nf10privXmit, h]

/-- Where the mapping fails the reservation stays. -/
theorem nf10privXmit_unmapped (h : c.tx.fits (txClSize skb.len) = true) :
    c.nf10privXmit skb port none = (-1, c.modifyTx fun r => r.reserve (txClSize skb.len)) := by
  simp [nf10privXmit, h]

/-- What a call does that sends a packet. -/
structure Sent (c' : Card) : Prop where
  tx : ∃ dscL0, c'.tx = (c.tx.give skb dmaAddr (txClSize skb.len)).writeDsc
    (Ring.index c.tx.dsc.wrPtr) dscL0 dmaAddr
  rx : c'.rx = c.rx
  hostTxDne : c'.hostTxDne = c.hostTxDne
  hostRxDne : c'.hostRxDne = c.hostRxDne
  calls : c'.calls = c.calls ++ [.pciMapSingle dmaAddr skb.len .toDevice]

theorem nf10privXmit_sent (h : c.tx.fits (txClSize skb.len) = true) :
    ∃ c', c.nf10privXmit skb port (some dmaAddr) = (0, c') ∧ c.Sent skb dmaAddr c' := by
  unfold nf10privXmit
  simp only [h, if_true]
  -- the queue of the port is stopped or not
  split
  · exact ⟨_, rfl, ⟨_, rfl⟩, rfl, rfl, rfl, rfl⟩
  · exact ⟨_, rfl, ⟨_, rfl⟩, rfl, rfl, rfl, rfl⟩

/-! ## `nf10priv_send_rx_dsc` -/

theorem toNat_rxClSize : rxClSize.toNat = 24 := by decide

/-- The entry of a new RX descriptor. -/
def rxEntry (ptr : ℕ) (dmaAddr : UInt64) : Entry := ({ ptr := ptr, len := 0 }, dmaAddr, rxClSize)

/-- What a call puts into the ring: an entry, where there is room and an skb. -/
def rxGives : Option ℕ → List Entry
  | none => []
  | some ptr => if c.rx.fits rxClSize then [rxEntry ptr dmaAddr] else []

/-- The calls of the kernel for a new RX descriptor. -/
def postCalls (e : Entry) : List KernelCall :=
  [.devAllocSkb e.1, .pciMapSingle e.2.1 skBuffAllocSize .fromDevice]

/-- What a call does. -/
structure RxPosted (alloc : Option ℕ) (c' : Card) : Prop where
  rx : ∀ {handled : ℕ} {given : List Entry}, c.rx.Agrees handled given →
    c'.rx.Agrees handled (given ++ c.rxGives dmaAddr alloc)
  dne : c'.rx.dne = c.rx.dne
  tx : c'.tx = c.tx
  hostTxDne : c'.hostTxDne = c.hostTxDne
  hostRxDne : c'.hostRxDne = c.hostRxDne
  calls : c'.calls = c.calls ++ (c.rxGives dmaAddr alloc).flatMap postCalls

theorem nf10privSendRxDsc_spec (alloc : Option ℕ) :
    c.RxPosted dmaAddr alloc (c.nf10privSendRxDsc alloc dmaAddr).2 := by
  have hsame (hgives : c.rxGives dmaAddr alloc = []) : c.RxPosted dmaAddr alloc c :=
    { rx := by
        intro handled given h
        rw [hgives, List.append_nil]
        exact h
      dne := rfl, tx := rfl, hostTxDne := rfl, hostRxDne := rfl
      calls := by simp [hgives] }
  unfold nf10privSendRxDsc
  cases alloc with
  | none => split <;> exact hsame rfl
  | some ptr =>
      by_cases hfits : c.rx.fits rxClSize = true
      · have hgives : c.rxGives dmaAddr (some ptr) = [rxEntry ptr dmaAddr] := by
          simp [rxGives, hfits]
        simp only [hfits, if_true]
        refine ⟨?_, rfl, rfl, rfl, rfl, ?_⟩
        · intro handled given h
          rw [hgives]
          exact (h.give (by rw [toNat_rxClSize]; decide) hfits _ dmaAddr).writeDsc _ _ _
        · simp [hgives, postCalls, rxEntry, call, modifyRx, writeRxDsc]
      · have hgives : c.rxGives dmaAddr (some ptr) = [] := by simp [rxGives, hfits]
        simp only [hfits]
        exact hsame hgives

/-! ## The TX branch of `work_handler` -/

@[simp] theorem txDone_one : txDone 1 = true := by decide

@[simp] theorem txDone_ones : txDone 0xffffffff = false := by decide

/-- What handling the completion of a transmission does. -/
structure TxHandled (c' : Card) : Prop where
  tx : c'.tx = c.tx.take
  rx : c'.rx = c.rx
  hostTxDne : c'.hostTxDne =
    Function.update c.hostTxDne (Ring.index c.tx.dne.rdPtr * 16) 0xffffffff
  hostRxDne : c'.hostRxDne = c.hostRxDne
  calls : c'.calls = c.calls ++
    [.pciUnmapSingle (c.tx.entry (Ring.index c.tx.dne.rdPtr)).2.1
        (c.tx.entry (Ring.index c.tx.dne.rdPtr)).1.len .toDevice,
      .devKfreeSkbAny (c.tx.entry (Ring.index c.tx.dne.rdPtr)).1]

theorem handleTx_spec : c.TxHandled c.handleTx := by
  unfold handleTx
  simp only
  -- the queues are woken or not
  split
  · refine ⟨rfl, rfl, rfl, rfl, ?_⟩
    simp [txInvalidate, modifyTx, txRelease, call, wakeQueue, Ring.entry, Ring.advanceRd]
  · refine ⟨rfl, rfl, rfl, rfl, ?_⟩
    simp [txInvalidate, modifyTx, txRelease, call, Ring.entry, Ring.advanceRd]

/-! ## The RX branch of `work_handler` -/

@[simp] theorem rxDone_ones : rxDone 0xffffffffffffffff = false := by decide

/-- The completion is invalidated, and its descriptor is taken back. -/
def takeRx : Card :=
  let index := Ring.index c.rx.dne.rdPtr
  let c := c.modifyRx Ring.advanceRd
  let c := c.rxInvalidate index
  let c := c.rxUnmap index
  let c := c.modifyRx fun r => r.subPkt index
  c.modifyRx Ring.decDsc

theorem handleRx_eq (alloc : Option ℕ) :
    c.handleRx alloc dmaAddr =
      ((c.takeRx.nf10privSendRxDsc alloc dmaAddr).2).rxDeliver
        (c.rx.entry (Ring.index c.rx.dne.rdPtr)).1 c.rxInt :=
  rfl

/-- What taking back the descriptor of a completion does. -/
structure RxTaken (c' : Card) : Prop where
  rx : c'.rx = c.rx.take
  tx : c'.tx = c.tx
  hostTxDne : c'.hostTxDne = c.hostTxDne
  hostRxDne : c'.hostRxDne =
    Function.update c.hostRxDne (Ring.index c.rx.dne.rdPtr * 8 + 7) 0xffffffffffffffff
  calls : c'.calls = c.calls ++
    [.pciUnmapSingle (c.rx.entry (Ring.index c.rx.dne.rdPtr)).2.1
        (c.rx.entry (Ring.index c.rx.dne.rdPtr)).1.len .fromDevice]

theorem takeRx_spec : c.RxTaken c.takeRx :=
  ⟨rfl, rfl, rfl, rfl, rfl⟩

/-- The calls of the kernel for a received packet. -/
def deliveryCalls (rxInt : UInt64) : List KernelCall :=
  if rxValid rxInt then
    match rxPort rxInt with
    | none => []
    | some port =>
      if c.portUp port then
        [.netifReceiveSkb (ethTypeTrans { skb with len := skb.len + (rxInt &&& 0xffff).toUInt32 })]
      else [.kfreeSkb skb]
  else []

/-- Nothing but calls of the kernel. -/
theorem rxDeliver_eq (rxInt : UInt64) :
    c.rxDeliver skb rxInt = { c with calls := c.calls ++ c.deliveryCalls skb rxInt } := by
  unfold rxDeliver deliveryCalls rxValid
  cases hport : rxPort rxInt with
  | none => simp
  | some port =>
      by_cases hlen : rxInt &&& 0xffff > 1514 ∨ rxInt &&& 0xffff < 60
      · have hbad : (decide (rxInt &&& 0xffff > 1514) || decide (rxInt &&& 0xffff < 60)) = true := by
          simpa using hlen
        simp [hbad]
      · have hgood : (decide (rxInt &&& 0xffff > 1514) || decide (rxInt &&& 0xffff < 60)) = false := by
          simpa using hlen
        simp only [hgood, Bool.not_false, Option.isSome_some, Bool.and_self, if_true]
        cases c.portUp port <;> rfl

/-- What handling the completion of a reception does. -/
structure RxHandled (alloc : Option ℕ) (c' : Card) : Prop where
  rx : ∀ {handled : ℕ} {given : List Entry}, c.rx.Agrees handled given → handled < given.length →
    c'.rx.Agrees (handled + 1) (given ++ c.takeRx.rxGives dmaAddr alloc)
  tx : c'.tx = c.tx
  hostTxDne : c'.hostTxDne = c.hostTxDne
  hostRxDne : c'.hostRxDne =
    Function.update c.hostRxDne (Ring.index c.rx.dne.rdPtr * 8 + 7) 0xffffffffffffffff
  calls : ∃ c₁ : Card, c'.calls = c.calls ++
    (.pciUnmapSingle (c.rx.entry (Ring.index c.rx.dne.rdPtr)).2.1
        (c.rx.entry (Ring.index c.rx.dne.rdPtr)).1.len .fromDevice ::
      ((c.takeRx.rxGives dmaAddr alloc).flatMap postCalls ++
        c₁.deliveryCalls (c.rx.entry (Ring.index c.rx.dne.rdPtr)).1 c.rxInt))

theorem handleRx_spec (alloc : Option ℕ) :
    c.RxHandled dmaAddr alloc (c.handleRx alloc dmaAddr) := by
  have htake := c.takeRx_spec
  have hpost := c.takeRx.nf10privSendRxDsc_spec dmaAddr alloc
  rw [handleRx_eq, rxDeliver_eq]
  refine ⟨?_, ?_, ?_, ?_, ⟨(c.takeRx.nf10privSendRxDsc alloc dmaAddr).2, ?_⟩⟩
  · intro handled given h hlt
    apply hpost.rx
    rw [htake.rx]
    exact h.take hlt
  · exact hpost.tx.trans htake.tx
  · exact hpost.hostTxDne.trans htake.hostTxDne
  · exact hpost.hostRxDne.trans htake.hostRxDne
  · simp only [hpost.calls, htake.calls, List.append_assoc, List.cons_append]
    rfl

end Card

end CodeAnalyze.Nf10
