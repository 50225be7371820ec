import CodeAnalyze.Nf10.PacketMemory

/-!
# The devices, and what they are for: `nf10iface.c`

`NetState` is the driver with its four network devices, and each call of the kernel, each
packet the card sends or receives and each completion that is handled is one step of it.

`Nic` says what this is for.  It has no descriptors, no counters and no books: packets wait
in a queue to be sent, and buffers wait in a queue to be filled.
-/

namespace CodeAnalyze.Nf10

/-- The members of `struct net_device_stats` that the driver counts. -/
structure NetStats where
  rxPackets : UInt64 := 0
  txPackets : UInt64 := 0
  rxBytes : UInt64 := 0
  txBytes : UInt64 := 0
  deriving DecidableEq

/-- What the card reads of a descriptor. -/
structure Descriptor where
  len : UInt64
  ports : UInt64
  dmaAddr : UInt64
  deriving DecidableEq

/-- The fields of the two words of a descriptor, without the address in the packet buffer. -/
def Descriptor.unpack (dscL0 dscL1 : UInt64) : Descriptor where
  len := dscL0 >>> 48
  ports := (dscL0 >>> 32) &&& 0xffff
  dmaAddr := dscL1

/-- The descriptor in a slot of the card. -/
def Ring.descriptor (r : Ring) (i : ℕ) : Descriptor :=
  .unpack (r.dscMem (8 * i)) (r.dscMem (8 * i + 1))

/-- What the kernel and the wires see of a run. -/
@[ext]
structure Observation where
  calls : List KernelCall := []
  /-- `netif_queue_stopped`. -/
  stopped : Port → Bool := fun _ => false
  /-- `port_up`. -/
  up : Port → Bool := fun _ => false
  /-- `nf10i_stats`. -/
  stats : Port → NetStats := fun _ => {}
  /-- The skbs that `nf10i_tx` has released, in order. -/
  dropped : List SkBuff := []
  /-- The descriptors of the packets that the card has sent, in order. -/
  wire : List Descriptor := []
  /-- For each packet received the descriptor of its buffer, and the word of its completion. -/
  arrivals : List (Descriptor × UInt64) := []

inductive NetOp
  | ndoOpen (port : Port)
  | ndoStop (port : Port)
  | ndoStartXmit (skb : SkBuff) (port : Port) (dma : Option UInt64)
  | sendRxDsc (alloc : Option ℕ) (dmaAddr : UInt64)
  /-- The card has sent a packet. -/
  | storeTx
  /-- The card has received a packet. -/
  | storeRx (word : UInt64)
  | handleTx
  | handleRx (alloc : Option ℕ) (dmaAddr : UInt64)

/-! ## The devices -/

structure NetState where
  driver : State
  stats : Port → NetStats := fun _ => {}
  /-- Ghost: as in `Observation`. -/
  dropped : List SkBuff := []
  wire : List Descriptor := []
  arrivals : List (Descriptor × UInt64) := []

/-- `skb_pad` and `skb_put`, where `nf10i_tx` calls them. -/
def padded (skb : SkBuff) : SkBuff :=
  if skb.len < 60 then { skb with len := skb.len + (60 - skb.len) } else skb

/-- `tx_packets++` and `tx_bytes += skb->len`. -/
def NetStats.countTx (stats : NetStats) (skb : SkBuff) : NetStats :=
  { stats with txPackets := stats.txPackets + 1, txBytes := stats.txBytes + skb.len.toUInt64 }

/-- `rx_packets++` and `rx_bytes += skb->len`. -/
def NetStats.countRx (stats : NetStats) (skb : SkBuff) : NetStats :=
  { stats with rxPackets := stats.rxPackets + 1, rxBytes := stats.rxBytes + skb.len.toUInt64 }

/-- The counters after `work_handler` has taken a received packet. -/
def rxStats (up : Port → Bool) (stats : Port → NetStats) (skb : SkBuff) (rxInt : UInt64) :
    Port → NetStats :=
  match Card.rxPort rxInt with
  | none => stats
  | some port =>
    let len := rxInt &&& 0xffff
    if len > 1514 || len < 60 then stats
    else if up port then
      let skb := { skb with len := skb.len + len.toUInt32 }
      Function.update stats port ((stats port).countRx (Card.ethTypeTrans skb))
    else stats

namespace NetState

variable (s : NetState)

/-- What is seen of the devices. -/
def observed : Observation where
  calls := s.driver.card.calls
  stopped := s.driver.card.queueStopped
  up := s.driver.card.portUp
  stats := s.stats
  dropped := s.dropped
  wire := s.wire
  arrivals := s.arrivals

/-- The descriptors of the packets that were accepted and are not sent, in the card's memory. -/
def pending : List Descriptor :=
  Lib.Ring.contents s.driver.card.tx.descriptor ringSize s.driver.txStored
    (s.driver.txAccepted.length - s.driver.txStored)

def setPortUp (port : Port) (up : Bool) : NetState :=
  { s with
    driver :=
      { s.driver with
        card := { s.driver.card with portUp := Function.update s.driver.card.portUp port up } } }

/-- `nf10i_tx`.  `skb_pad` does not fail here. -/
def nf10iTx (skb : SkBuff) (port : Port) (dma : Option UInt64) : NetState :=
  let skb := padded skb
  if skb.len > 1514 then { s with dropped := s.dropped ++ [skb] }
  else
    let (ret, card) := s.driver.card.nf10privXmit skb port dma
    if ret ≠ 0 then
      { s with driver := { s.driver with card := card }, dropped := s.dropped ++ [skb] }
    else
      { s with
        driver := { s.driver with card := card, txAccepted := s.driver.txAccepted ++ [skb] }
        stats := Function.update s.stats port ((s.stats port).countTx skb) }

/-- A step of the driver and the card that leaves the devices alone. -/
def step (op : Op) : Option NetState := (exec s.driver op).map fun d => { s with driver := d }

end NetState

/-- The effect of a step; `none` where it cannot happen. -/
def netExec (s : NetState) : NetOp → Option NetState
  | .ndoOpen port => some (s.setPortUp port true)
  | .ndoStop port => some (s.setPortUp port false)
  | .ndoStartXmit skb port dma => some (s.nf10iTx skb port dma)
  | .sendRxDsc alloc dmaAddr => s.step (.sendRxDsc alloc dmaAddr)
  | .storeTx =>
    let dsc := s.driver.card.tx.descriptor (s.driver.txStored % ringSize)
    (s.step .storeTx).map fun s' => { s' with wire := s.wire ++ [dsc] }
  | .storeRx word =>
    let dsc := s.driver.card.rx.descriptor (s.driver.rxStored % ringSize)
    (s.step (.storeRx word)).map fun s' => { s' with arrivals := s.arrivals ++ [(dsc, word)] }
  | .handleTx => s.step .handleTx
  | .handleRx alloc dmaAddr =>
    let skb := s.driver.card.rx.bkSkb (Ring.index s.driver.card.rx.dne.rdPtr)
    let stats := rxStats s.driver.card.portUp s.stats skb s.driver.card.rxInt
    (s.step (.handleRx alloc dmaAddr)).map fun s' => { s' with stats := stats }

/-- The devices after `nf10_probe`, before RX descriptors are posted. -/
def netProbed (raw : Card) : NetState := { driver := probed raw }

/-! ## What they are for -/

/-- A packet that was accepted. -/
structure TxPacket where
  skb : SkBuff
  port : Port
  dmaAddr : UInt64
  deriving DecidableEq

/-- An empty skb for a packet to be received. -/
structure RxBuffer where
  ptr : ℕ
  dmaAddr : UInt64
  deriving DecidableEq

/-- The lines of 64 bytes that a packet takes with any alignment. -/
def TxPacket.lines (len : UInt32) : ℕ := (len.toNat + 126) / 64

def TxPacket.descriptor (p : TxPacket) : Descriptor :=
  ⟨p.skb.len.toUInt64, Card.portDecoded p.port, p.dmaAddr⟩

def RxBuffer.skb (b : RxBuffer) : SkBuff := { ptr := b.ptr, len := 0 }

def RxBuffer.descriptor (b : RxBuffer) : Descriptor :=
  ⟨Card.skBuffAllocSize.toUInt64, 0, b.dmaAddr⟩

/-- An interface: two queues for each direction, of what the card has to do and of what it
has done. -/
structure Nic extends Observation where
  waiting : List TxPacket := []
  sent : List TxPacket := []
  posted : List RxBuffer := []
  filled : List (RxBuffer × UInt64) := []

namespace Nic

variable (n : Nic)

/-- The packets that are not completed, the oldest first. -/
def inFlight : List TxPacket := n.sent ++ n.waiting

/-- The buffers that are not handled, the oldest first. -/
def buffers : List RxBuffer := n.filled.map (·.1) ++ n.posted

def totalLines : List TxPacket → ℕ
  | [] => 0
  | p :: rest => TxPacket.lines p.skb.len + totalLines rest

/-- There is room for so many packets more, and for so many lines. -/
def txRoom (packets lines : ℕ) : Bool :=
  n.inFlight.length + packets ≤ 32 && totalLines n.inFlight + lines ≤ 512

/-- The buffers that an interface has at most. -/
def rxCapacity : ℕ := 21

def log (calls : List KernelCall) : Nic := { n with calls := n.calls ++ calls }

/-- A packet is accepted. -/
def accept (p : TxPacket) : Nic :=
  let n := n.log [.pciMapSingle p.dmaAddr p.skb.len .toDevice]
  let n := { n with
    waiting := n.waiting ++ [p]
    stats := Function.update n.stats p.port ((n.stats p.port).countTx p.skb) }
  if n.txRoom 1 32 then n else { n with stopped := Function.update n.stopped p.port true }

/-- A packet is accepted where it is no longer than a frame and there is room for it. -/
def startXmit (skb : SkBuff) (port : Port) : Option UInt64 → Nic
  | none => { n with dropped := n.dropped ++ [skb] }
  | some dmaAddr =>
    if skb.len ≤ 1514 && n.txRoom 1 (TxPacket.lines skb.len) then n.accept ⟨skb, port, dmaAddr⟩
    else { n with dropped := n.dropped ++ [skb] }

/-- The oldest packet that waits is sent. -/
def send : Option Nic :=
  match n.waiting with
  | [] => none
  | p :: rest =>
    some { n with waiting := rest, sent := n.sent ++ [p], wire := n.wire ++ [p.descriptor] }

/-- The oldest packet that was sent is completed, and the queues run again if there is room. -/
def complete : Option Nic :=
  match n.sent with
  | [] => none
  | p :: rest =>
    let n := { n with sent := rest }
    let n := n.log [.pciUnmapSingle p.dmaAddr p.skb.len .toDevice, .devKfreeSkbAny p.skb]
    some (if n.txRoom 8 128 then { n with stopped := fun _ => false } else n)

/-- A buffer is posted where there is an skb and room for it. -/
def post (dmaAddr : UInt64) : Option ℕ → Nic
  | none => n
  | some ptr =>
    if n.buffers.length < rxCapacity then
      let b : RxBuffer := ⟨ptr, dmaAddr⟩
      let n := n.log [.devAllocSkb b.skb, .pciMapSingle dmaAddr Card.skBuffAllocSize .fromDevice]
      { n with posted := n.posted ++ [b] }
    else n

/-- A packet is received into the oldest buffer. -/
def fill (word : UInt64) : Option Nic :=
  match n.posted with
  | [] => none
  | b :: rest =>
    some { n with
      posted := rest
      filled := n.filled ++ [(b, word)]
      arrivals := n.arrivals ++ [(b.descriptor, word)] }

/-- A packet goes to the kernel if it is valid and its port is up. -/
def deliver (b : RxBuffer) (word : UInt64) : Nic :=
  let len := word &&& 0xffff
  match Card.rxPort word with
  | none => n
  | some port =>
    if 60 ≤ len && len ≤ 1514 then
      if n.up port then
        let skb : SkBuff := { ptr := b.ptr, len := len.toUInt32 }
        let skb := Card.ethTypeTrans skb
        let n := n.log [.netifReceiveSkb skb]
        { n with stats := Function.update n.stats port ((n.stats port).countRx skb) }
      else n.log [.kfreeSkb b.skb]
    else n

/-- The oldest buffer that was filled is taken, and another is posted in its place. -/
def receive (dmaAddr : UInt64) (alloc : Option ℕ) : Option Nic :=
  match n.filled with
  | [] => none
  | (b, word) :: rest =>
    let n := { n with filled := rest }
    let n := n.log [.pciUnmapSingle b.dmaAddr 0 .fromDevice]
    some ((n.post dmaAddr alloc).deliver b word)

/-- The effect of a step; `none` where it cannot happen. -/
def exec : NetOp → Option Nic
  | .ndoOpen port => some { n with up := Function.update n.up port true }
  | .ndoStop port => some { n with up := Function.update n.up port false }
  | .ndoStartXmit skb port dma => some (n.startXmit (padded skb) port dma)
  | .sendRxDsc alloc dmaAddr => some (n.post dmaAddr alloc)
  | .storeTx => n.send
  | .storeRx word => if Card.rxDone word then n.fill word else none
  | .handleTx => n.complete
  | .handleRx alloc dmaAddr => n.receive dmaAddr alloc

end Nic

end CodeAnalyze.Nf10
