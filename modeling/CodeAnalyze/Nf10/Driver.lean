import CodeAnalyze.Nf10.Priv

/-!
# The driver and the card, call by call

Each call of the driver is one step, and so is each completion that `work_handler`
handles.  The card takes the descriptors of a ring in order, and stores the completion of
each in the slot of the same index.
-/

namespace CodeAnalyze.Nf10

/-- The card, how many completions it has stored, and which skbs the driver has accepted. -/
structure State where
  card : Card
  txStored : ℕ := 0
  rxStored : ℕ := 0
  /-- Ghost: the skbs `nf10priv_xmit` has returned 0 for, in order. -/
  txAccepted : List SkBuff := []

inductive Op
  | xmit (skb : SkBuff) (port : Port) (dma : Option UInt64)
  | sendRxDsc (alloc : Option ℕ) (dmaAddr : UInt64)
  /-- The card has sent a packet. -/
  | storeTx
  /-- The card has received a packet. -/
  | storeRx (word : UInt64)
  | handleTx
  | handleRx (alloc : Option ℕ) (dmaAddr : UInt64)

namespace KernelCall

/-- The skb that is allocated. -/
def allocated : KernelCall → Option SkBuff
  | devAllocSkb skb => some skb
  | _ => none

/-- The skb of a sent packet that is released. -/
def txFreed : KernelCall → Option SkBuff
  | devKfreeSkbAny skb => some skb
  | _ => none

/-- The skb of a received packet that is passed on or released. -/
def rxFreed : KernelCall → Option ℕ
  | kfreeSkb skb => some skb.ptr
  | netifReceiveSkb skb => some skb.ptr
  | _ => none

end KernelCall

/-- The skbs that `nf10priv_send_rx_dsc` has given to the card, in order. -/
def Card.rxPosted (c : Card) : List SkBuff := c.calls.filterMap KernelCall.allocated

/-- The skbs of sent packets that were released, in order. -/
def Card.txReleased (c : Card) : List SkBuff := c.calls.filterMap KernelCall.txFreed

/-- The skbs of received packets that were passed on or released, in order. -/
def Card.rxReleased (c : Card) : List ℕ := c.calls.filterMap KernelCall.rxFreed

/-- The effect of a step; `none` where it cannot happen. -/
def exec (s : State) : Op → Option State
  | .xmit skb port dma =>
    let (ret, card) := s.card.nf10privXmit skb port dma
    some { s with
      card := card
      txAccepted := if ret = 0 then s.txAccepted ++ [skb] else s.txAccepted }
  | .sendRxDsc alloc dmaAddr =>
    some { s with card := (s.card.nf10privSendRxDsc alloc dmaAddr).2 }
  | .storeTx =>
    if s.txStored < s.txAccepted.length then
      some { s with
        card :=
          { s.card with
            hostTxDne := Function.update s.card.hostTxDne (16 * (s.txStored % ringSize)) 1 }
        txStored := s.txStored + 1 }
    else none
  | .storeRx word =>
    if s.rxStored < s.card.rxPosted.length ∧ Card.rxDone word = true then
      some { s with
        card :=
          { s.card with
            hostRxDne :=
              Function.update s.card.hostRxDne (8 * (s.rxStored % ringSize) + 7) word }
        rxStored := s.rxStored + 1 }
    else none
  | .handleTx =>
    if Card.txDone s.card.txInt then some { s with card := s.card.handleTx } else none
  | .handleRx alloc dmaAddr =>
    if Card.rxDone s.card.rxInt then some { s with card := s.card.handleRx alloc dmaAddr } else none

/-- The state after the ring setup of `nf10_probe`. -/
def probed (raw : Card) : State := { card := nf10ProbeRings raw }

end CodeAnalyze.Nf10
