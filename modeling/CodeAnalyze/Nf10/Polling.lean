import CodeAnalyze.Nf10.Aligned
import CodeAnalyze.Nf10.Driver

/-!
# The loop of `work_handler`

`work_handler` polls both completion buffers, one statement at a time, while the card and the
other CPUs go on.  It starts with the interrupts enabled, disables them when there was work,
and enables them again when it has found nothing often enough; then it polls once more.

`work_counter` wraps like the machine's `int`; `tcnt` is between 0 and 10000.
-/

namespace CodeAnalyze.Nf10

/-! ## The RX branch -/

/-- The next statement of the RX branch. -/
inductive RxPc
  /-- `rd_ptr` moves on. -/
  | advance
  | invalidate (index : ℕ)
  /-- `skb` is read from the books, and unmapped. -/
  | unmap (index : ℕ)
  | subPkt (index : ℕ) (skb : SkBuff)
  | decDsc (skb : SkBuff)
  /-- `nf10priv_send_rx_dsc`. -/
  | send (skb : SkBuff)
  | deliver (skb : SkBuff)
  deriving DecidableEq

namespace Card

variable (c : Card)

/-- One statement of the branch; `none` after the last one. -/
def rxStatement (alloc : Option ℕ) (dmaAddr rxInt : UInt64) : RxPc → Card × Option RxPc
  | .advance => (c.modifyRx Ring.advanceRd, some (.invalidate (Ring.index c.rx.dne.rdPtr)))
  | .invalidate index => (c.rxInvalidate index, some (.unmap index))
  | .unmap index => (c.rxUnmap index, some (.subPkt index (c.rx.bkSkb index)))
  | .subPkt index skb => (c.modifyRx fun r => r.subPkt index, some (.decDsc skb))
  | .decDsc skb => (c.modifyRx Ring.decDsc, some (.send skb))
  | .send skb => ((c.nf10privSendRxDsc alloc dmaAddr).2, some (.deliver skb))
  | .deliver skb => (c.rxDeliver skb rxInt, none)

/-- The statements of the branch, as far as it takes `n` of them. -/
def rxRun (alloc : Option ℕ) (dmaAddr rxInt : UInt64) : ℕ → Card → RxPc → Card × Option RxPc
  | 0, c, pc => (c, some pc)
  | n + 1, c, pc =>
    match c.rxStatement alloc dmaAddr rxInt pc with
    | (c', none) => (c', none)
    | (c', some pc') => rxRun alloc dmaAddr rxInt n c' pc'

/-- A branch that nothing interrupts handles the completion. -/
theorem rxRun_eq (alloc : Option ℕ) (dmaAddr : UInt64) :
    rxRun alloc dmaAddr c.rxInt 7 c .advance = (c.handleRx alloc dmaAddr, none) :=
  rfl

end Card

/-! ## The loop -/

/-- The next statement of `work_handler`. -/
inductive LoopPc
  /-- `while(tcnt)`, and the test whether the interrupts are to be disabled. -/
  | loop
  /-- The writes that disable the interrupts. -/
  | disable25 | disable26
  /-- `tx_int` and `rx_int` are read. -/
  | readTx | readRx
  /-- The test of `tx_int`, and the TX branch. -/
  | testTx | tx
  /-- The test of `rx_int`, and the RX branch. -/
  | testRx | rx (pc : RxPc)
  /-- `work_counter`, `tcnt`, and the test whether the interrupts are to be enabled. -/
  | count
  /-- The writes that enable the interrupts. -/
  | enable25 | enable26
  /-- The function has returned, or was not called. -/
  | returned
  deriving DecidableEq

/-- What `work_handler` does that the interrupts depend on. -/
inductive PollEvent
  /-- An iteration starts. -/
  | iteration
  /-- A register of the configuration is written. -/
  | cfgWrite (reg : ℕ) (val : UInt64)
  /-- A completion buffer is read at the read pointer. -/
  | readTx (rdPtr : UInt64) (txInt : UInt32)
  | readRx (rdPtr : UInt64) (rxInt : UInt64)
  deriving DecidableEq

/-- The driver and the card, with the local variables of `work_handler`. -/
structure PollState where
  /-- The card, and the TX side. -/
  txs : TxState
  /-- The completions of receptions that the card has stored. -/
  rxStored : ℕ := 0
  pc : LoopPc := .returned
  tcnt : ℕ := 0
  intEnabled : Bool := true
  workCounter : Int32 := 0
  irqDone : Bool := true
  txInt : UInt32 := 0
  rxInt : UInt64 := 0
  /-- Ghost: the completions stored when the buffers were read last. -/
  txSeen : ℕ := 0
  rxSeen : ℕ := 0
  /-- Ghost: the RX branches begun. -/
  rxReads : ℕ := 0
  /-- Ghost: what this call of `work_handler` has done. -/
  trace : List PollEvent := []

namespace PollState

variable (p : PollState)

def card : Card := p.txs.card

def goto (pc : LoopPc) : PollState := { p with pc := pc }

def log (e : PollEvent) : PollState := { p with trace := p.trace ++ [e] }

def setCard (c : Card) : PollState := { p with txs := { p.txs with card := c } }

/-- `tcnt` after an iteration. -/
def nextTcnt : ℕ :=
  if p.irqDone then p.tcnt - 1 else if p.tcnt < 10000 then p.tcnt + 1 else p.tcnt

/-- One statement of `work_handler`, where `nf10priv_send_rx_dsc` gets `alloc` and `dmaAddr`. -/
def loopStep (alloc : Option ℕ) (dmaAddr : UInt64) : PollState :=
  match p.pc with
  | .loop =>
    if p.tcnt = 0 then p.goto .returned
    else if p.intEnabled = true ∧ 0 < p.workCounter then
      { p.log .iteration with intEnabled := false, pc := .disable25 }
    else (p.log .iteration).goto .readTx
  | .disable25 => (p.log (.cfgWrite 25 0)).goto .disable26
  | .disable26 => (p.log (.cfgWrite 26 0)).goto .readTx
  | .readTx =>
    -- the pass of the TX branch begins where its completion is read
    { p.log (.readTx p.card.tx.dne.rdPtr p.card.txInt) with
      irqDone := true, txInt := p.card.txInt, txSeen := p.txs.stored, txs := p.txs.pollStep
      pc := .readRx }
  | .readRx =>
    { p.log (.readRx p.card.rx.dne.rdPtr p.card.rxInt) with
      rxInt := p.card.rxInt, rxSeen := p.rxStored, pc := .testTx }
  | .testTx =>
    if Card.txDone p.txInt then { p with irqDone := false, pc := .tx } else p.goto .testRx
  | .tx =>
    match p.txs.handler with
    | none => p.goto .testRx
    | some pc =>
      { p with
        txs := p.txs.passStep pc
        pc := if (p.txs.passStep pc).handler = none then .testRx else .tx }
  | .testRx =>
    if Card.rxDone p.rxInt then
      { p with irqDone := false, rxReads := p.rxReads + 1, pc := .rx .advance }
    else p.goto .count
  | .rx pc =>
    match p.card.rxStatement alloc dmaAddr p.rxInt pc with
    | (c, some pc) => (p.setCard c).goto (.rx pc)
    | (c, none) => (p.setCard c).goto .count
  | .count =>
    if p.nextTcnt ≤ 1 ∧ p.intEnabled = false then
      { p with workCounter := 0, tcnt := 1, intEnabled := true, pc := .enable25 }
    else { p with workCounter := p.workCounter + 1, tcnt := p.nextTcnt, pc := .loop }
  | .enable25 => (p.log (.cfgWrite 25 1)).goto .enable26
  | .enable26 => (p.log (.cfgWrite 26 1)).goto .loop
  | .returned => p

/-- `work_handler` is called. -/
def enter : PollState :=
  { p with pc := .loop, tcnt := 1, intEnabled := true, workCounter := 0, trace := [] }

/-- The card has received a packet. -/
def storeRx (word : UInt64) : PollState :=
  { p with
    txs :=
      { p.txs with
        card :=
          { p.card with
            hostRxDne :=
              Function.update p.card.hostRxDne (8 * (p.rxStored % ringSize) + 7) word } }
    rxStored := p.rxStored + 1 }

end PollState

inductive PollOp
  /-- A CPU calls `nf10priv_xmit`, or executes a statement of it. -/
  | call (cpu : ℕ) (skb : SkBuff) (port : Port)
  | xmit (cpu : ℕ) (dma : Option UInt64)
  /-- The card has sent a packet. -/
  | storeTx
  /-- The card has received a packet. -/
  | storeRx (word : UInt64)
  /-- `nf10iface_probe` gives an RX descriptor to the card. -/
  | sendRxDsc (alloc : Option ℕ) (dmaAddr : UInt64)
  /-- `work_handler` is called. -/
  | enter
  /-- `work_handler` executes a statement. -/
  | step (alloc : Option ℕ) (dmaAddr : UInt64)
  deriving DecidableEq

/-- The step of the TX side that others than `work_handler` take. -/
def PollOp.txOp : PollOp → Option TxOp
  | call cpu skb port => some (.call cpu skb port)
  | xmit cpu dma => some (.xmit cpu dma)
  | storeTx => some .store
  | _ => none

/-- The effect of a step; `none` where it cannot happen. -/
def pollExec (p : PollState) (op : PollOp) : Option PollState :=
  match op with
  | .call cpu skb port => (txExec p.txs (.call cpu skb port)).map fun txs => { p with txs := txs }
  | .xmit cpu dma => (txExec p.txs (.xmit cpu dma)).map fun txs => { p with txs := txs }
  | .storeTx => (txExec p.txs .store).map fun txs => { p with txs := txs }
  | .storeRx word =>
    if p.rxStored < p.card.rxPosted.length ∧ Card.rxDone word = true then some (p.storeRx word)
    else none
  | .sendRxDsc alloc dmaAddr =>
    match p.pc with
    | .returned => some (p.setCard (p.card.nf10privSendRxDsc alloc dmaAddr).2)
    | _ => none
  | .enter =>
    match p.pc with
    | .returned => some p.enter
    | _ => none
  | .step alloc dmaAddr =>
    match p.pc with
    | .returned => none
    | _ => some (p.loopStep alloc dmaAddr)

/-- What a step is. -/
inductive PollStep (p : PollState) : PollOp → PollState → Prop
  | tx {op : PollOp} {txOp : TxOp} {txs : TxState} : op.txOp = some txOp →
      txExec p.txs txOp = some txs → PollStep p op { p with txs := txs }
  | storeRx {word : UInt64} : p.rxStored < p.card.rxPosted.length → Card.rxDone word = true →
      PollStep p (.storeRx word) (p.storeRx word)
  | sendRxDsc {alloc : Option ℕ} {dmaAddr : UInt64} : p.pc = .returned →
      PollStep p (.sendRxDsc alloc dmaAddr) (p.setCard (p.card.nf10privSendRxDsc alloc dmaAddr).2)
  | enter : p.pc = .returned → PollStep p .enter p.enter
  | step {alloc : Option ℕ} {dmaAddr : UInt64} : p.pc ≠ .returned →
      PollStep p (.step alloc dmaAddr) (p.loopStep alloc dmaAddr)

theorem pollStep_of_exec {p p' : PollState} {op : PollOp} (hx : pollExec p op = some p') :
    PollStep p op p' := by
  cases op with
  | call cpu skb port =>
      obtain ⟨txs, htx, rfl⟩ := Option.map_eq_some_iff.mp hx
      exact .tx rfl htx
  | xmit cpu dma =>
      obtain ⟨txs, htx, rfl⟩ := Option.map_eq_some_iff.mp hx
      exact .tx rfl htx
  | storeTx =>
      obtain ⟨txs, htx, rfl⟩ := Option.map_eq_some_iff.mp hx
      exact .tx rfl htx
  | storeRx word =>
      simp only [pollExec, Option.ite_none_right_eq_some, Option.some.injEq] at hx
      obtain ⟨⟨hlt, hword⟩, rfl⟩ := hx
      exact .storeRx hlt hword
  | sendRxDsc alloc dmaAddr =>
      simp only [pollExec] at hx
      split at hx
      · obtain rfl := Option.some.inj hx
        exact .sendRxDsc ‹_›
      · cases hx
  | enter =>
      simp only [pollExec] at hx
      split at hx
      · obtain rfl := Option.some.inj hx
        exact .enter ‹_›
      · cases hx
  | step alloc dmaAddr =>
      simp only [pollExec] at hx
      split at hx
      · cases hx
      · obtain rfl := Option.some.inj hx
        exact .step ‹_›

/-- The others do not move the read pointer of the TX side, nor begin or continue a pass. -/
theorem txExec_others {s s' : TxState} {op : PollOp} {txOp : TxOp} (hop : op.txOp = some txOp)
    (hx : txExec s txOp = some s') :
    s'.card.tx.dne = s.card.tx.dne ∧ s'.handler = s.handler ∧ s'.reads = s.reads := by
  cases txStep_of_exec hx with
  | call _ => exact ⟨rfl, rfl, rfl⟩
  | xmit _ _ => exact ⟨(Card.xmitStatement_dne _ _ _).1, rfl, rfl⟩
  | store _ => exact ⟨rfl, rfl, rfl⟩
  | poll _ => cases op <;> cases hop
  | pass _ => cases op <;> cases hop

/-- The RX side of the card, with what is posted. -/
def Card.SameRx (c c' : Card) : Prop :=
  c'.rx = c.rx ∧ c'.hostRxDne = c.hostRxDne ∧ c'.rxPosted = c.rxPosted

theorem Card.sameRx_xmitStatement (c : Card) (dma : Option UInt64) (x : XmitCall) :
    c.SameRx (c.xmitStatement dma x).1 := by
  unfold Card.xmitStatement
  split
  case h_5 =>
    cases dma with
    | none => exact ⟨rfl, rfl, rfl⟩
    | some dmaAddr =>
        refine ⟨rfl, rfl, ?_⟩
        simp [Card.rxPosted, Card.call, KernelCall.allocated]
  all_goals exact ⟨rfl, rfl, rfl⟩

theorem Card.sameRx_txStatement (c : Card) (pc : TxPc) : c.SameRx (c.txStatement pc).1 := by
  cases pc with
  | release i =>
      refine ⟨rfl, rfl, ?_⟩
      simp [Card.rxPosted, Card.txStatement, Card.txRelease, Card.call, KernelCall.allocated]
  | _ => exact ⟨rfl, rfl, rfl⟩

theorem pollStep_card (s : TxState) : s.pollStep.card = s.card := by
  unfold TxState.pollStep
  split <;> rfl

/-- The TX side leaves the RX side. -/
theorem txExec_sameRx {s s' : TxState} {txOp : TxOp} (hx : txExec s txOp = some s') :
    s.card.SameRx s'.card := by
  cases txStep_of_exec hx with
  | call _ => exact ⟨rfl, rfl, rfl⟩
  | xmit _ _ => exact s.card.sameRx_xmitStatement _ _
  | store _ => exact ⟨rfl, rfl, rfl⟩
  | poll _ => rw [pollStep_card]; exact ⟨rfl, rfl, rfl⟩
  | pass _ => exact s.card.sameRx_txStatement _

/-- The state after the ring setup of `nf10_probe`. -/
def pollProbed (raw : Card) : PollState := { txs := txProbed raw }

end CodeAnalyze.Nf10
