import CodeAnalyze.Lib.Run
import CodeAnalyze.Nf10.Statements

/-!
# One packet: `nf10i_tx`

`nf10i_tx` is a program that executes one statement at a time, and those of `nf10priv_xmit`
are among its own.  Between any two of them `work_handler` runs on another CPU, for whatever
completion it finds, the card completes the descriptor once it is written, and everything
else may change the card's data as it likes.
-/

namespace CodeAnalyze.Nf10

/-- The next statement of `nf10i_tx`. -/
inductive SendPc
  /-- `skb->len < 60`, `skb_pad` and `skb_put`. -/
  | testShort | pad | put
  /-- `skb->len > 1514` and `dev_kfree_skb_any`. -/
  | testBig | freeBig
  /-- The local variables of `nf10priv_xmit`. -/
  | enter
  | xmit (x : XmitCall)
  /-- `dev_kfree_skb_any` where `nf10priv_xmit` has failed. -/
  | freeDropped
  /-- `tx_packets++` and `tx_bytes += skb->len`. -/
  | statPackets | statBytes
  deriving DecidableEq

/-- Where `nf10i_tx` goes on after a statement of `nf10priv_xmit`. -/
def SendPc.afterXmit (x : XmitCall) : Option XmitCall → SendPc
  | some x' => .xmit x'
  | none => if x.pc = .write then .statPackets else .freeDropped

/-- Who releases an skb. -/
inductive Releaser
  | skbPad | nf10iTx
  /-- The TX branch of `work_handler`, for the completion of the skb's descriptor. -/
  | completion
  /-- The TX branch, for a completion that is not the skb's. -/
  | stale
  deriving DecidableEq

/-- How far the descriptor of the packet is. -/
inductive DscStage
  /-- It is not written, or done with. -/
  | out
  | published (index : ℕ)
  /-- The card has stored the completion word in the slot. -/
  | stored (index : ℕ)
  /-- `work_handler` has read the completion word. -/
  | read
  deriving DecidableEq

namespace DscStage

/-- Its completion is still to be handled. -/
def inRing : DscStage → Bool
  | out => false
  | _ => true

/-- `work_handler` finds a completion in a slot. -/
def afterPoll (index : ℕ) (d : DscStage) : DscStage := if d = stored index then read else d

/-- The TX branch executes a statement.  What it invalidates is not read any more. -/
def afterPass : TxPc → DscStage → DscStage
  | .release _, d => if d = read then out else d
  | .invalidate index, d => if d = stored index then out else d
  | _, d => d

end DscStage

/-- A call of `nf10i_tx`, and what it works on. -/
structure SendState where
  card : Card
  /-- The memory of the skb. -/
  skb : SkBuff
  port : Port
  /-- `none` when `nf10i_tx` has returned. -/
  pc : Option SendPc := some .testShort
  /-- The next statement of the TX branch; `none` between two passes. -/
  handler : Option TxPc := none
  dsc : DscStage := .out
  txPackets : UInt64 := 0
  txBytes : UInt64 := 0
  /-- Ghost: who has released the skb, in order. -/
  releases : List Releaser := []
  /-- Ghost: the memory of the skb is another one's by now. -/
  reused : Bool := false
  /-- Ghost: a statement has read or written the skb when it was released. -/
  late : Bool := false

inductive SendOp
  /-- The next statement, with what `skb_pad` and `pci_map_single` would give. -/
  | step (padOk : Bool) (dma : Option UInt64)
  /-- The card completes the descriptor. -/
  | store
  /-- `work_handler` polls, or executes a statement of the TX branch. -/
  | handler
  /-- Memory that is not in use becomes another skb. -/
  | reuse (len : UInt32)
  /-- Anything else changes the card's data. -/
  | others (change : Card → Card)

/-- The card stores the completion word of a descriptor. -/
def Card.storeTxDne (c : Card) (index : ℕ) : Card :=
  { c with hostTxDne := Function.update c.hostTxDne (16 * index) 1 }

namespace SendState

variable (s : SendState)

def goto (pc : SendPc) : SendState := { s with pc := some pc }

/-- `nf10i_tx` returns. -/
def leave : SendState := { s with pc := none }

/-- A statement reads or writes the skb. -/
def access : SendState := { s with late := s.late || !s.releases.isEmpty }

/-- The skb is released. -/
def release (who : Releaser) : SendState := { s with releases := s.releases ++ [who] }

/-- `skb_put`. -/
def skbPut (len : UInt32) : SendState := { s with skb := { s.skb with len := s.skb.len + len } }

/-- A statement of `nf10priv_xmit`.  `pci_map_single` is given the data of the skb. -/
def xmitStep (dma : Option UInt64) (x : XmitCall) : SendState :=
  { s with
    card := (s.card.xmitStatement dma x).1
    pc := some (SendPc.afterXmit x (s.card.xmitStatement dma x).2)
    dsc := if x.pc = .write then .published x.dscIndex else s.dsc
    late := if x.pc = .map then s.access.late else s.late }

/-- A statement of `nf10i_tx`. -/
def statement (padOk : Bool) (dma : Option UInt64) : SendPc → SendState
  | .testShort => s.access.goto (if s.skb.len < 60 then .pad else .testBig)
  | .pad => if padOk then s.access.goto .put else (s.access.release .skbPad).goto .put
  | .put => (s.access.skbPut (60 - s.skb.len)).goto .testBig
  | .testBig => s.access.goto (if s.skb.len > 1514 then .freeBig else .enter)
  | .freeBig => (s.access.release .nf10iTx).leave
  | .enter => s.access.goto (.xmit { skb := s.skb, port := s.port })
  | .xmit x => s.xmitStep dma x
  | .freeDropped => (s.access.release .nf10iTx).leave
  | .statPackets => { s with txPackets := s.txPackets + 1 }.goto .statBytes
  | .statBytes => { s.access with txBytes := s.txBytes + s.skb.len.toUInt64 }.leave

/-- The card stores the completion word in the slot of the descriptor. -/
def storeStep (index : ℕ) : SendState :=
  { s with card := s.card.storeTxDne index, dsc := .stored index }

/-- `work_handler` reads the completion buffer. -/
def pollStep : SendState :=
  if Card.txDone s.card.txInt then
    { s with
      handler := some .advance
      dsc := s.dsc.afterPoll (Ring.index s.card.tx.dne.rdPtr) }
  else s

/-- What the books have for a slot is the skb. -/
def Finds (index : ℕ) : Prop := (s.card.tx.bkSkb index).ptr = s.skb.ptr ∧ s.reused = false

instance decidableFinds (index : ℕ) : Decidable (s.Finds index) :=
  inferInstanceAs (Decidable (_ ∧ _))

/-- Who has released the skb after a statement of the TX branch. -/
def releasesAfter : TxPc → List Releaser
  | .release index =>
    if s.Finds index then s.releases ++ [if s.dsc = .read then .completion else .stale]
    else s.releases
  | _ => s.releases

/-- A statement of the TX branch. -/
def passStep (pc : TxPc) : SendState :=
  { s with
    card := (s.card.txStatement pc).1
    handler := (s.card.txStatement pc).2
    dsc := s.dsc.afterPass pc
    releases := s.releasesAfter pc }

end SendState

/-- The effect of a step; `none` where it cannot happen. -/
def sendExec (s : SendState) : SendOp → Option SendState
  | .step padOk dma => s.pc.map fun pc => s.statement padOk dma pc
  | .store =>
    match s.dsc with
    | .published index => some (s.storeStep index)
    | _ => none
  | .handler =>
    match s.handler with
    | none => some s.pollStep
    | some pc => some (s.passStep pc)
  | .reuse len =>
    if s.releases = [] then none
    else some { s with skb := { s.skb with len := len }, reused := true }
  | .others change => some { s with card := change s.card }

/-- The network stack calls `nf10i_tx`. -/
def handed (card : Card) (skb : SkBuff) (port : Port) : SendState :=
  { card := card, skb := skb, port := port }

end CodeAnalyze.Nf10
