import CodeAnalyze.Nf10.Card

/-!
# Descriptors and completions: `nf10priv.c`

The functions are put together from their statements, and the statements are definitions
of their own: on another CPU a statement may come between any two.

A failure of `pci_map_single` is `none`, and so is a failure of `dev_alloc_skb`.
-/

namespace CodeAnalyze.Nf10

namespace Card

variable (c : Card)

def modifyTx (f : Ring → Ring) : Card := { c with tx := f c.tx }

def modifyRx (f : Ring → Ring) : Card := { c with rx := f c.rx }

/-- A call of the kernel is recorded. -/
def call (k : KernelCall) : Card := { c with calls := c.calls ++ [k] }

/-! ## Transmission -/

/-- `cl_size` of `nf10priv_xmit`, the number of lines of 64 bytes for a packet. -/
def txClSize (len : UInt32) : UInt64 := ((len + 2 * 63) / 64).toUInt64

/-- The test that lets the queue of the port run on. -/
def txHasRoom : Bool :=
  c.tx.dsc.cnt + 1 ≤ c.tx.dsc.clSize && c.tx.pkt.cnt + 32 ≤ c.tx.pkt.clSize

/-- `netif_stop_queue`. -/
def stopQueue (port : Port) : Card :=
  { c with queueStopped := Function.update c.queueStopped port true }

/-- `port_decoded`. -/
def portDecoded : Port → UInt64
  | 0 => 0x0102
  | 1 => 0x0408
  | 2 => 0x1020
  | 3 => 0x4080

/-- The book keeping of `nf10priv_xmit`. -/
def bookTx (index : ℕ) (skb : SkBuff) (port : Port) (dmaAddr clSize : UInt64) : Card :=
  { c with
    tx := c.tx.book index skb dmaAddr clSize
    txBkPort := Function.update c.txBkPort index port }

/-- The TX descriptor is written to the card. -/
def writeTxDsc (index : ℕ) (skb : SkBuff) (port : Port) (pktAddr dmaAddr : UInt64) : Card :=
  let pktAddrFixed := pktAddr + (dmaAddr &&& 0x3f)
  let dscL0 :=
    (skb.len.toUInt64 <<< 48) + (portDecoded port <<< 32) + (pktAddrFixed &&& 0xffffffff)
  c.modifyTx fun r => r.writeDsc index dscL0 dmaAddr

/-- `nf10priv_xmit`. -/
def nf10privXmit (skb : SkBuff) (port : Port) (dma : Option UInt64) : ℤ × Card :=
  let clSize := txClSize skb.len
  if c.tx.fits clSize then
    let pktAddr := c.tx.pkt.wrPtr
    let dscAddr := c.tx.dsc.wrPtr
    let c := c.modifyTx fun r => r.reserve clSize
    match dma with
    | none => (-1, c)
    | some dmaAddr =>
      let c := c.call (.pciMapSingle dmaAddr skb.len .toDevice)
      let c := c.modifyTx Ring.incDsc
      let c := c.modifyTx fun r => r.addPkt clSize
      let c := if c.txHasRoom then c else c.stopQueue port
      let dscIndex := Ring.index dscAddr
      let c := c.bookTx dscIndex skb port dmaAddr clSize
      (0, c.writeTxDsc dscIndex skb port pktAddr dmaAddr)
  else (-1, c)

/-! ## Reception -/

/-- `SK_BUFF_ALLOC_SIZE`. -/
def skBuffAllocSize : UInt32 := 1533

/-- `cl_size` of `nf10priv_send_rx_dsc`. -/
def rxClSize : UInt64 := ((skBuffAllocSize + 66) / 64).toUInt64

/-- The RX descriptor is written to the card. -/
def writeRxDsc (index : ℕ) (pktAddr dmaAddr : UInt64) : Card :=
  let pktAddrFixed := pktAddr + (dmaAddr &&& 0x3)
  let dscL0 := (skBuffAllocSize.toUInt64 <<< 48) + (pktAddrFixed &&& 0xffffffff)
  c.modifyRx fun r => r.writeDsc index dscL0 dmaAddr

/-- `nf10priv_send_rx_dsc`.  A new skb has length 0, also after `skb_reserve`. -/
def nf10privSendRxDsc (alloc : Option ℕ) (dmaAddr : UInt64) : ℤ × Card :=
  if c.rx.fits rxClSize then
    match alloc with
    | none => (-1, c)
    | some ptr =>
      let skb : SkBuff := { ptr := ptr, len := 0 }
      let c := c.call (.devAllocSkb skb)
      let pktAddr := c.rx.pkt.wrPtr
      let dscAddr := c.rx.dsc.wrPtr
      let c := c.modifyRx fun r => r.reserve rxClSize
      let c := c.modifyRx fun r => r.incDsc.addPkt rxClSize
      let dscIndex := Ring.index dscAddr
      let c := c.call (.pciMapSingle dmaAddr skBuffAllocSize .fromDevice)
      let c := c.modifyRx fun r => r.book dscIndex skb dmaAddr rxClSize
      (0, c.writeRxDsc dscIndex pktAddr dmaAddr)
  else (-1, c)

/-! ## Completions of transmissions -/

/-- `tx_int`: the word of the completion buffer at `rd_ptr`. -/
def txInt : UInt32 := c.hostTxDne (c.tx.dne.rdPtr / 4).toNat

/-- The test for a completion. -/
def txDone (txInt : UInt32) : Bool := txInt &&& 0xffff = 1

/-- `pci_unmap_single` and `dev_kfree_skb_any`. -/
def txRelease (index : ℕ) : Card :=
  let c' := c.call (.pciUnmapSingle (c.tx.bkDmaAddr index) (c.tx.bkSkb index).len .toDevice)
  c'.call (.devKfreeSkbAny (c.tx.bkSkb index))

/-- The completion buffer is invalidated. -/
def txInvalidate (index : ℕ) : Card :=
  { c with hostTxDne := Function.update c.hostTxDne (index * 16) 0xffffffff }

/-- The test that restarts the queues. -/
def txRestarts : Bool :=
  c.tx.dsc.cnt + 8 * 1 ≤ c.tx.dsc.clSize && c.tx.pkt.cnt + 4 * 32 ≤ c.tx.pkt.clSize

/-- `netif_wake_queue`, where the queue is stopped. -/
def wakeQueue (port : Port) : Card :=
  { c with queueStopped := Function.update c.queueStopped port false }

/-- The TX branch of `work_handler`. -/
def handleTx : Card :=
  let index := Ring.index c.tx.dne.rdPtr
  let c := c.modifyTx Ring.advanceRd
  let c := c.txRelease index
  let c := c.modifyTx fun r => r.subPkt index
  let c := c.modifyTx Ring.decDsc
  let c := c.txInvalidate index
  if c.txRestarts then (((c.wakeQueue 0).wakeQueue 1).wakeQueue 2).wakeQueue 3 else c

/-! ## Completions of receptions -/

/-- `rx_int`: the word of the completion buffer at `rd_ptr`. -/
def rxInt : UInt64 := c.hostRxDne ((c.rx.dne.rdPtr / 8).toNat + 7)

/-- The test for a completion. -/
def rxDone (rxInt : UInt64) : Bool := (rxInt >>> 48) &&& 0xffff ≠ 0xffff

/-- The completion buffer is invalidated. -/
def rxInvalidate (index : ℕ) : Card :=
  { c with hostRxDne := Function.update c.hostRxDne (index * 8 + 7) 0xffffffffffffffff }

/-- `pci_unmap_single`, with the length the skb has. -/
def rxUnmap (index : ℕ) : Card :=
  c.call (.pciUnmapSingle (c.rx.bkDmaAddr index) (c.rx.bkSkb index).len .fromDevice)

/-- `port`; -1 is `none`. -/
def rxPort (rxInt : UInt64) : Option Port :=
  let portEncoded := (rxInt >>> 16) &&& 0xffff
  if portEncoded &&& 0x0200 ≠ 0 then some 0
  else if portEncoded &&& 0x0800 ≠ 0 then some 1
  else if portEncoded &&& 0x2000 ≠ 0 then some 2
  else if portEncoded &&& 0x8000 ≠ 0 then some 3
  else none

/-- The packet has a length and a port that `work_handler` takes. -/
def rxValid (rxInt : UInt64) : Bool :=
  let len := rxInt &&& 0xffff
  !(len > 1514 || len < 60) && (rxPort rxInt).isSome

/-- `eth_type_trans` takes the header of `ETH_HLEN` bytes off the skb. -/
def ethTypeTrans (skb : SkBuff) : SkBuff := { skb with len := skb.len - 14 }

@[simp] theorem ptr_ethTypeTrans (skb : SkBuff) : (ethTypeTrans skb).ptr = skb.ptr := rfl

/-- What becomes of the skb of a received packet.  One with an invalid length or port is
only reported. -/
def rxDeliver (skb : SkBuff) (rxInt : UInt64) : Card :=
  let len := rxInt &&& 0xffff
  match rxPort rxInt with
  | none => c
  | some port =>
    if len > 1514 || len < 60 then c
    else if c.portUp port then
      let skb := { skb with len := skb.len + len.toUInt32 }
      c.call (.netifReceiveSkb (ethTypeTrans skb))
    else c.call (.kfreeSkb skb)

/-- The RX branch of `work_handler`. -/
def handleRx (alloc : Option ℕ) (dmaAddr : UInt64) : Card :=
  let rxInt := c.rxInt
  let index := Ring.index c.rx.dne.rdPtr
  let c := c.modifyRx Ring.advanceRd
  let c := c.rxInvalidate index
  let skb := c.rx.bkSkb index
  let c := c.rxUnmap index
  let c := c.modifyRx fun r => r.subPkt index
  let c := c.modifyRx Ring.decDsc
  let c := (c.nf10privSendRxDsc alloc dmaAddr).2
  c.rxDeliver skb rxInt

end Card

/-! ## `nf10iface_probe` -/

/-- The loop of `nf10iface_probe` that gives descriptors to the card, with what each
call of `nf10priv_send_rx_dsc` gets. -/
def postRxDscs (c : Card) (allocs : List (Option ℕ × UInt64)) : Card :=
  allocs.foldl (fun c alloc => (c.nf10privSendRxDsc alloc.1 alloc.2).2) c

end CodeAnalyze.Nf10
