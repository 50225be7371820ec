import Mathlib.Algebra.GroupWithZero.Nat
import Mathlib.Data.Fin.Basic
import Mathlib.Logic.Function.Basic
import Mathlib.Tactic.Common

/-!
# The card and what the driver knows of it: `nf10driver.h` and `nf10driver.c`

`struct nf10_card` has every ring twice, once for each direction; here the fields of a
direction are a `Ring`, and `card.tx.dsc` is `mem_tx_dsc`.  Arrays and device memory are
functions of the index.  An `atomic64_t` is its 64 bits: the driver compares the counters
with unsigned sizes only.

What the driver calls of the kernel is recorded in `calls`.
-/

namespace CodeAnalyze.Nf10

/-- A pointer to a `struct sk_buff`, with its `len`. -/
structure SkBuff where
  ptr : ℕ
  len : UInt32
  deriving DecidableEq, Inhabited

/-- `struct nf10mem`. -/
structure Nf10mem where
  wrPtr : UInt64 := 0
  rdPtr : UInt64 := 0
  cnt : UInt64 := 0
  mask : UInt64
  clSize : UInt64
  deriving DecidableEq

/-- `PCI_DMA_TODEVICE` and `PCI_DMA_FROMDEVICE`. -/
inductive DmaDir
  | toDevice | fromDevice
  deriving DecidableEq

/-- The calls the driver makes that take or give back something. -/
inductive KernelCall
  | pciMapSingle (dmaAddr : UInt64) (len : UInt32) (dir : DmaDir)
  | pciUnmapSingle (dmaAddr : UInt64) (len : UInt32) (dir : DmaDir)
  | devAllocSkb (skb : SkBuff)
  | devKfreeSkbAny (skb : SkBuff)
  | kfreeSkb (skb : SkBuff)
  | netifReceiveSkb (skb : SkBuff)
  deriving DecidableEq

/-- The ports, that is the places of `ndev`. -/
abbrev Port : Type := Fin 4

instance neZeroPorts : NeZero 4 := ⟨by decide⟩

/-- What `struct nf10_card` has for one direction. -/
structure Ring where
  /-- `mem_tx_dsc`, `mem_rx_dsc`. -/
  dsc : Nf10mem
  /-- `mem_tx_pkt`, `mem_rx_pkt`. -/
  pkt : Nf10mem
  /-- `host_tx_dne`, `host_rx_dne`. -/
  dne : Nf10mem
  /-- `tx_bk_skb`, `rx_bk_skb`. -/
  bkSkb : ℕ → SkBuff
  /-- `tx_bk_dma_addr`, `rx_bk_dma_addr`. -/
  bkDmaAddr : ℕ → UInt64
  /-- `tx_bk_size`, `rx_bk_size`. -/
  bkSize : ℕ → UInt64
  /-- The descriptor memory of the card at `tx_dsc`, `rx_dsc`, in words of 64 bits. -/
  dscMem : ℕ → UInt64

/-- `struct nf10_card`, with the queues of its network devices. -/
structure Card where
  tx : Ring
  rx : Ring
  txBkPort : ℕ → Port
  /-- The memory at `host_tx_dne_ptr`, in words of 32 bits. -/
  hostTxDne : ℕ → UInt32
  /-- The memory at `host_rx_dne_ptr`, in words of 64 bits. -/
  hostRxDne : ℕ → UInt64
  /-- `netif_queue_stopped(card->ndev[port])`. -/
  queueStopped : Port → Bool
  /-- `port_up` of the devices. -/
  portUp : Port → Bool
  /-- Ghost: the calls of the kernel, in order. -/
  calls : List KernelCall

namespace Ring

/-- The entry the books have for a slot. -/
def entry (r : Ring) (i : ℕ) : SkBuff × UInt64 × UInt64 := (r.bkSkb i, r.bkDmaAddr i, r.bkSize i)

/-- `(wr_ptr + n) & mask`. -/
def advanceWr (m : Nf10mem) (n : UInt64) : Nf10mem := { m with wrPtr := (m.wrPtr + n) &&& m.mask }

/-- The test whether a descriptor and `clSize` lines of packet memory fit. -/
def fits (r : Ring) (clSize : UInt64) : Bool :=
  r.dsc.cnt + 1 ≤ r.dsc.clSize && r.pkt.cnt + clSize ≤ r.pkt.clSize

/-- The two statements that move the write pointers on. -/
def reserve (r : Ring) (clSize : UInt64) : Ring :=
  { r with pkt := advanceWr r.pkt (64 * clSize), dsc := advanceWr r.dsc 64 }

/-- `atomic64_inc(&mem_dsc.cnt)`. -/
def incDsc (r : Ring) : Ring := { r with dsc := { r.dsc with cnt := r.dsc.cnt + 1 } }

/-- `atomic64_add(cl_size, &mem_pkt.cnt)`. -/
def addPkt (r : Ring) (clSize : UInt64) : Ring :=
  { r with pkt := { r.pkt with cnt := r.pkt.cnt + clSize } }

/-- The books, where the two directions keep the same. -/
def book (r : Ring) (index : ℕ) (skb : SkBuff) (dmaAddr clSize : UInt64) : Ring :=
  { r with
    bkDmaAddr := Function.update r.bkDmaAddr index dmaAddr
    bkSkb := Function.update r.bkSkb index skb
    bkSize := Function.update r.bkSize index clSize }

/-- The two writes to the card. -/
def writeDsc (r : Ring) (index : ℕ) (dscL0 dscL1 : UInt64) : Ring :=
  { r with
    dscMem :=
      Function.update (Function.update r.dscMem (8 * index) dscL0) (8 * index + 1) dscL1 }

/-- `rd_ptr` of the completion buffer moves on. -/
def advanceRd (r : Ring) : Ring :=
  { r with dne := { r.dne with rdPtr := (r.dne.rdPtr + 64) &&& r.dne.mask } }

/-- `atomic64_sub(bk_size[index], &mem_pkt.cnt)`. -/
def subPkt (r : Ring) (index : ℕ) : Ring :=
  { r with pkt := { r.pkt with cnt := r.pkt.cnt - r.bkSize index } }

/-- `atomic64_dec(&mem_dsc.cnt)`. -/
def decDsc (r : Ring) : Ring := { r with dsc := { r.dsc with cnt := r.dsc.cnt - 1 } }

/-- The index of a descriptor: its address in units of 64 bytes. -/
def index (addr : UInt64) : ℕ := (addr / 64).toNat

end Ring

/-! ## `nf10_probe` -/

/-- The slots of a ring. -/
def ringSize : ℕ := 32

/-- `tx_dsc_mask`, `rx_dsc_mask`, `tx_dne_mask` and `rx_dne_mask`. -/
def dscMask : UInt64 := 0x7ff

/-- `tx_pkt_mask`, `rx_pkt_mask`. -/
def pktMask : UInt64 := 0x7fff

/-- The members of a `struct nf10mem` as `nf10_probe` sets them. -/
def probedMem (mask : UInt64) : Nf10mem := { mask := mask, clSize := (mask + 1) / 64 }

/-- `memset` of a direction of the card. -/
def Ring.zeroed : Ring where
  dsc := { mask := 0, clSize := 0 }
  pkt := { mask := 0, clSize := 0 }
  dne := { mask := 0, clSize := 0 }
  bkSkb := fun _ => { ptr := 0, len := 0 }
  bkDmaAddr := fun _ => 0
  bkSize := fun _ => 0
  dscMem := fun _ => 0

/-- `memset` of the card. -/
def Card.zeroed : Card where
  tx := Ring.zeroed
  rx := Ring.zeroed
  txBkPort := fun _ => 0
  hostTxDne := fun _ => 0
  hostRxDne := fun _ => 0
  queueStopped := fun _ => false
  portUp := fun _ => false
  calls := []

/-- The rings of a direction after `nf10_probe`.  The masks of descriptors and completions
are equal, so none is cut down to the other. -/
def probedRing (raw : Ring) : Ring :=
  { raw with dsc := probedMem dscMask, pkt := probedMem pktMask, dne := probedMem dscMask }

/-- The ring setup of `nf10_probe`, and the state of the network devices when
`nf10iface_probe` has started their queues.  `raw` is what the memory holds before. -/
def nf10ProbeRings (raw : Card) : Card :=
  { raw with
    tx := probedRing raw.tx
    rx := probedRing raw.rx
    hostTxDne := fun word => if word < 512 && word % 16 = 0 then 0xffffffff else raw.hostTxDne word
    hostRxDne := fun word =>
      if word < 256 && word % 8 = 7 then 0xffffffffffffffff else raw.hostRxDne word
    queueStopped := fun _ => false
    portUp := fun _ => false
    calls := [] }

end CodeAnalyze.Nf10
