import CodeAnalyze.Lib.Holdings
import CodeAnalyze.Lib.Run
import CodeAnalyze.Nf10.Priv

/-!
# Binding and unbinding: `nf10_probe` and `nf10_remove`

What the probe functions take from the kernel and what the error paths and the remove
functions give back.  A pointer of the card is `true` when it is not NULL; what it points to
is named by the card and the member.  Cards are numbered in the order in which they are
allocated.
-/

namespace CodeAnalyze.Nf10

open Lib (Holdings)

/-- `cfg_addr`, `tx_dsc` and `rx_dsc`. -/
inductive Mapping
  | cfgAddr | txDsc | rxDsc
  deriving DecidableEq

/-- `host_tx_dne_ptr` and `host_rx_dne_ptr`. -/
inductive HostBuffer
  | txDne | rxDne
  deriving DecidableEq

/-- The arrays of the books. -/
inductive Book
  | txBkSkb | txBkDmaAddr | txBkSize | txBkPort | rxBkSkb | rxBkDmaAddr | rxBkSize
  deriving DecidableEq

/-- What the driver takes from the kernel, for a PCI device or a card. -/
inductive Resource
  /-- `pci_enable_device`. -/
  | device (dev : ℕ)
  | msi (dev : ℕ)
  | memRegion (dev bar : ℕ)
  | irq (dev : ℕ)
  /-- The memory of the card. -/
  | card (c : ℕ)
  | mapping (c : ℕ) (m : Mapping)
  | consistent (c : ℕ) (b : HostBuffer)
  | workqueue (c : ℕ)
  | book (c : ℕ) (b : Book)
  | netdev (c : ℕ) (i : Port)
  /-- `register_netdev`. -/
  | registered (c : ℕ) (i : Port)
  | skb (c n : ℕ)
  /-- The mapping of a posted skb. -/
  | dma (c n : ℕ)
  | chrdevRegion (c : ℕ)
  | cdev (c : ℕ)
  | devClass (c : ℕ)
  /-- `device_create`. -/
  | classDevice (c : ℕ)
  deriving DecidableEq

namespace Resource

/-- The card that is named. -/
def owner : Resource → Option ℕ
  | device _ => none
  | msi _ => none
  | memRegion _ _ => none
  | irq _ => none
  | card c => some c
  | mapping c _ => some c
  | consistent c _ => some c
  | workqueue c => some c
  | book c _ => some c
  | netdev c _ => some c
  | registered c _ => some c
  | skb c _ => some c
  | dma c _ => some c
  | chrdevRegion c => some c
  | cdev c => some c
  | devClass c => some c
  | classDevice c => some c

/-- A received packet's memory. -/
def isRx : Resource → Bool
  | skb _ _ => true
  | dma _ _ => true
  | _ => false

end Resource

/-- The calls of a probe that can fail. -/
inductive ProbeCall
  | pciEnableDevice | dmaSetMask | dmaSetCoherentMask | pciEnableMsi
  | requestMemRegion (bar : ℕ)
  | kmallocCard
  | ioremapNocache (m : Mapping)
  | pciAllocConsistent (b : HostBuffer)
  | createWorkqueue
  | kmallocBook (b : Book)
  | requestIrq
  | allocNetdev (i : Port)
  | registerNetdev (i : Port)
  /-- The calls of `nf10priv_send_rx_dsc`, by number. -/
  | devAllocSkb (n : ℕ)
  | pciMapSingle (n : ℕ)
  | allocChrdevRegion | cdevAdd | classCreate | deviceCreate
  deriving DecidableEq

/-- Which calls succeed. -/
abbrev Outcome : Type := ProbeCall → Bool

/-- The pointers of a `struct nf10_card`. -/
structure CardPtrs where
  card : ℕ
  mapping : Mapping → Bool := fun _ => false
  hostDnePtr : HostBuffer → Bool := fun _ => false
  book : Book → Bool := fun _ => false
  ndev : Port → Bool := fun _ => false

/-- The driver, and what it has from the kernel. -/
structure DriverState where
  kernel : Holdings Resource := {}
  /-- The cards that were allocated so far. -/
  cards : ℕ := 0
  /-- `pci_get_drvdata`. -/
  drvdata : ℕ → Option CardPtrs := fun _ => none
  /-- The card that `devno` and `dev_class` were last set for; an error is `none`. -/
  devno : Option ℕ := none
  devClass : Option ℕ := none
  /-- The devices that are bound. -/
  bound : List ℕ := []

def ENODEV : ℤ := 19

def EFAULT : ℤ := 14

def ENOMEM : ℤ := 12

/-! ## The error paths of `nf10_probe` -/

section ErrorPaths

variable (dev : ℕ) (card : CardPtrs) (k : Holdings Resource)

def errOutDisableDevice : Holdings Resource := k.release (.device dev)

def errOutMsi : Holdings Resource := errOutDisableDevice dev (k.release (.msi dev))

def errOutReleaseMemRegion1 : Holdings Resource := errOutMsi dev (k.release (.memRegion dev 0))

def errOutReleaseMemRegion2 : Holdings Resource :=
  errOutReleaseMemRegion1 dev (k.release (.memRegion dev 2))

/-- `if(p) iounmap(p)`. -/
def iounmap (m : Mapping) : Holdings Resource :=
  k.releaseIf (card.mapping m) (.mapping card.card m)

@[irreducible] def errOutIounmap : Holdings Resource :=
  let k := iounmap card k .txDsc
  let k := iounmap card k .rxDsc
  let k := iounmap card k .cfgAddr
  errOutReleaseMemRegion2 dev (k.release (.card card.card))

theorem errOutIounmap_eq :
    errOutIounmap dev card k =
      errOutReleaseMemRegion2 dev
        ((iounmap card (iounmap card (iounmap card k .txDsc) .rxDsc) .cfgAddr).release
          (.card card.card)) := by
  delta errOutIounmap
  rfl

/-- `if(p) kfree(p)` for the arrays of the books. -/
def kfreeBooks : Holdings Resource :=
  [Book.txBkDmaAddr, .txBkSkb, .txBkSize, .txBkPort, .rxBkDmaAddr, .rxBkSkb, .rxBkSize].foldl
    (fun k b => k.releaseIf (card.book b) (.book card.card b)) k

/-- `pci_free_consistent`, without a test. -/
def pciFreeConsistent (b : HostBuffer) : Holdings Resource := k.release (.consistent card.card b)

@[irreducible] def errOutFreePrivate2 : Holdings Resource :=
  let k := kfreeBooks card k
  let k := pciFreeConsistent card k .txDne
  let k := pciFreeConsistent card k .rxDne
  errOutIounmap dev card k

theorem errOutFreePrivate2_eq :
    errOutFreePrivate2 dev card k =
      errOutIounmap dev card
        (pciFreeConsistent card (pciFreeConsistent card (kfreeBooks card k) .txDne) .rxDne) := by
  delta errOutFreePrivate2
  rfl

end ErrorPaths

/-! ## `nf10iface_probe` and `nf10iface_remove` -/

/-- `unregister_netdev` and `free_netdev`, where there is a device. -/
def removeNdev (card : CardPtrs) (k : Holdings Resource) (i : Port) : Holdings Resource :=
  if card.ndev i then (k.release (.registered card.card i)).release (.netdev card.card i) else k

/-- The loop over the network devices. -/
def removeNdevs (card : CardPtrs) (k : Holdings Resource) : Holdings Resource :=
  [0, 1, 2, 3].foldl (removeNdev card) k

/-- The loop over the network devices; `false` when one cannot be allocated.  A device that
cannot be registered is only reported. -/
def setUpNdevs (ok : Outcome) :
    List Port → CardPtrs → Holdings Resource → Bool × CardPtrs × Holdings Resource
  | [], card, k => (true, card, k)
  | i :: rest, card, k =>
    if ok (.allocNetdev i) then
      setUpNdevs ok rest { card with ndev := Function.update card.ndev i true }
        ((k.acquire (.netdev card.card i)).acquireIf (ok (.registerNetdev i))
          (.registered card.card i))
    else (false, card, k)

/-- The loop that posts skbs: a mapping that fails is not noticed. -/
def postRxSkbs (ok : Outcome) (c : ℕ) (calls : List ℕ) (rings : Card) (k : Holdings Resource) :
    Card × Holdings Resource :=
  calls.foldl
    (fun s n =>
      if s.1.rx.fits Card.rxClSize ∧ ok (.devAllocSkb n) then
        ((s.1.nf10privSendRxDsc (some n) 0).2,
          (s.2.acquire (.skb c n)).acquireIf (ok (.pciMapSingle n)) (.dma c n))
      else s)
    (rings, k)

/-- `nf10iface_probe`. -/
def nf10ifaceProbe (dev : ℕ) (ok : Outcome) (card : CardPtrs) (k : Holdings Resource) :
    ℤ × CardPtrs × Holdings Resource :=
  if ok .requestIrq then
    match setUpNdevs ok [0, 1, 2, 3] card (k.acquire (.irq dev)) with
    | (false, card, k) => (-ENOMEM, card, removeNdevs card k)
    | (true, card, k) =>
      let rings := nf10ProbeRings Card.zeroed
      let calls := List.range (rings.rx.dsc.clSize - 2).toNat
      (0, card, (postRxSkbs ok card.card calls rings k).2)
  else (-ENODEV, card, k)

/-- `nf10iface_remove`. -/
def nf10ifaceRemove (dev : ℕ) (card : CardPtrs) (k : Holdings Resource) : Holdings Resource :=
  (removeNdevs card k).release (.irq dev)

namespace DriverState

variable (s : DriverState)

def modifyKernel (f : Holdings Resource → Holdings Resource) : DriverState :=
  { s with kernel := f s.kernel }

/-! ## `nf10fops_probe` and `nf10fops_remove` -/

/-- `nf10fops_probe`.  The error of a call that fails is returned, as `-ENOMEM` here; the
results of `class_create` and `device_create` are not looked at. -/
def nf10fopsProbe (ok : Outcome) (card : CardPtrs) : ℤ × DriverState :=
  let c := card.card
  if ok .allocChrdevRegion then
    let s := { s with kernel := s.kernel.acquire (.chrdevRegion c), devno := some c }
    if ok .cdevAdd then
      let s := s.modifyKernel fun k => k.acquire (.cdev c)
      let s :=
        { s with
          kernel := s.kernel.acquireIf (ok .classCreate) (.devClass c)
          devClass := if ok .classCreate then some c else none }
      (0, s.modifyKernel fun k => k.acquireIf (ok .deviceCreate) (.classDevice c))
    else (-ENOMEM, s)
  else (-ENOMEM, s)

/-- A release of what a global variable names. -/
def releaseGlobal (k : Holdings Resource) (global : Option ℕ) (r : ℕ → Resource) :
    Holdings Resource :=
  match global with
  | some c => k.release (r c)
  | none => { k with stray := true }

/-- `class_destroy`, which takes no error and unregisters the class. -/
def classDestroy (k : Holdings Resource) : Holdings Resource :=
  match s.devClass with
  | some c => k.release (.devClass c)
  | none => k

/-- `nf10fops_remove`. -/
def nf10fopsRemove (card : CardPtrs) (k : Holdings Resource) : Holdings Resource :=
  let k := releaseGlobal k s.devno .classDevice
  let k := releaseGlobal k s.devClass .devClass
  let k := s.classDestroy k
  let k := k.release (.cdev card.card)
  releaseGlobal k s.devno .chrdevRegion

/-! ## `nf10_probe` -/

/-- `pci_set_drvdata`. -/
def pciSetDrvdata (dev : ℕ) (card : Option CardPtrs) : DriverState :=
  { s with drvdata := Function.update s.drvdata dev card }

/-- The error path of a card that has buffers. -/
def failFreePrivate2 (dev : ℕ) (card : CardPtrs) : DriverState :=
  (s.modifyKernel (errOutFreePrivate2 dev card)).pciSetDrvdata dev none

/-- The error path of a card. -/
def failIounmap (dev : ℕ) (card : CardPtrs) : DriverState :=
  (s.modifyKernel (errOutIounmap dev card)).pciSetDrvdata dev none

/-- From `nf10iface_probe` on. -/
def probeDevices (dev : ℕ) (ok : Outcome) (card : CardPtrs) : ℤ × DriverState :=
  let (ret, card, k) := nf10ifaceProbe dev ok card s.kernel
  let s := { s with kernel := k }
  if ret < 0 then (ret, s.failFreePrivate2 dev card)
  else
    let (ret, s) := s.nf10fopsProbe ok card
    if ret < 0 then (ret, s.failFreePrivate2 dev card)
    else (ret, s.pciSetDrvdata dev (some card))

/-- `kmalloc` for the arrays of the books. -/
def kmallocBooks (ok : Outcome) (c : ℕ) (k : Holdings Resource) : Holdings Resource :=
  [Book.txBkSkb, .txBkDmaAddr, .txBkSize, .txBkPort, .rxBkSkb, .rxBkDmaAddr, .rxBkSize].foldl
    (fun k b => k.acquireIf (ok (.kmallocBook b)) (.book c b)) k

/-- From `create_workqueue` on: its failure is only reported. -/
def probeBooks (dev : ℕ) (ok : Outcome) (card : CardPtrs) : ℤ × DriverState :=
  let s := s.modifyKernel fun k => k.acquireIf (ok .createWorkqueue) (.workqueue card.card)
  let s := s.modifyKernel (kmallocBooks ok card.card)
  let card := { card with book := fun b => ok (.kmallocBook b) }
  if card.book .txBkSkb && card.book .txBkDmaAddr && card.book .txBkSize && card.book .txBkPort &&
      card.book .rxBkSkb && card.book .rxBkDmaAddr && card.book .rxBkSize then
    s.probeDevices dev ok card
  else (-ENODEV, s.failFreePrivate2 dev card)

/-- From `pci_alloc_consistent` on. -/
def probeBuffers (dev : ℕ) (ok : Outcome) (card : CardPtrs) : ℤ × DriverState :=
  let s := s.modifyKernel fun k =>
    (k.acquireIf (ok (.pciAllocConsistent .txDne)) (.consistent card.card .txDne)).acquireIf
      (ok (.pciAllocConsistent .rxDne)) (.consistent card.card .rxDne)
  let card := { card with hostDnePtr := fun b => ok (.pciAllocConsistent b) }
  if card.hostDnePtr .rxDne && card.hostDnePtr .txDne then s.probeBooks dev ok card
  else (-ENODEV, s.failFreePrivate2 dev card)

/-- From `ioremap_nocache` on. -/
def probeMappings (dev : ℕ) (ok : Outcome) (card : CardPtrs) : ℤ × DriverState :=
  let c := card.card
  if ok (.ioremapNocache .cfgAddr) then
    let s := s.modifyKernel fun k =>
      ((k.acquire (.mapping c .cfgAddr)).acquireIf (ok (.ioremapNocache .txDsc))
        (.mapping c .txDsc)).acquireIf (ok (.ioremapNocache .rxDsc)) (.mapping c .rxDsc)
    let card := { card with mapping := fun m => ok (.ioremapNocache m) }
    if card.mapping .txDsc && card.mapping .rxDsc then s.probeBuffers dev ok card
    else (-ENODEV, s.failIounmap dev card)
  else (-ENODEV, s.failIounmap dev card)

/-- `nf10_probe`. -/
def nf10Probe (dev : ℕ) (ok : Outcome) : ℤ × DriverState :=
  if ok .pciEnableDevice then
    let s := s.modifyKernel fun k => k.acquire (.device dev)
    if ok .dmaSetMask && ok .dmaSetCoherentMask && ok .pciEnableMsi then
      let s := s.modifyKernel fun k => k.acquire (.msi dev)
      if ok (.requestMemRegion 0) then
        let s := s.modifyKernel fun k => k.acquire (.memRegion dev 0)
        if ok (.requestMemRegion 2) then
          let s := s.modifyKernel fun k => k.acquire (.memRegion dev 2)
          if ok .kmallocCard then
            { s with kernel := s.kernel.acquire (.card s.cards), cards := s.cards + 1 }.probeMappings
              dev ok { card := s.cards }
          else (-ENOMEM, s.modifyKernel (errOutReleaseMemRegion2 dev))
        else (-ENOMEM, s.modifyKernel (errOutReleaseMemRegion1 dev))
      else (-ENOMEM, s.modifyKernel (errOutMsi dev))
    else (-EFAULT, s.modifyKernel (errOutDisableDevice dev))
  else (-ENODEV, s)

/-! ## `nf10_remove` -/

/-- `nf10_remove`. -/
def nf10Remove (dev : ℕ) : DriverState :=
  let k := s.kernel
  let k :=
    match s.drvdata dev with
    | some card =>
      let k := s.nf10fopsRemove card k
      let k := nf10ifaceRemove dev card k
      let k := iounmap card k .cfgAddr
      let k := iounmap card k .txDsc
      let k := iounmap card k .rxDsc
      let k := pciFreeConsistent card k .txDne
      let k := pciFreeConsistent card k .rxDne
      let k := kfreeBooks card k
      k.release (.card card.card)
    | none => k
  let k := k.release (.memRegion dev 0)
  let k := k.release (.memRegion dev 2)
  let k := k.release (.msi dev)
  let k := k.release (.device dev)
  { s with kernel := k }.pciSetDrvdata dev none

end DriverState

/-! ## Sequences of events -/

/-- What the PCI core asks of the driver. -/
inductive BindEvent
  | probe (dev : ℕ) (ok : Outcome)
  | remove (dev : ℕ)

/-- A device is probed when it is not bound, and removed when it is. -/
def bindExec (s : DriverState) : BindEvent → Option DriverState
  | .probe dev ok =>
    if dev ∈ s.bound then none
    else
      let (ret, s') := s.nf10Probe dev ok
      some { s' with bound := if ret < 0 then s'.bound else dev :: s'.bound }
  | .remove dev =>
    if dev ∈ s.bound then
      let s' := s.nf10Remove dev
      some { s' with bound := s'.bound.erase dev }
    else none

end CodeAnalyze.Nf10
