import CodeAnalyze.Nf10.Calls

/-!
# Statement by statement

`nf10priv_xmit` runs on every CPU, and `work_handler` on another: what one of them does may
come between any two statements of the other.  Here both are programs that execute one
statement at a time, and without interruption they do what the functions do.
-/

namespace CodeAnalyze.Nf10

/-! ## `nf10priv_xmit` -/

/-- The next statement of `nf10priv_xmit`. -/
inductive XmitPc
  /-- `spin_lock_irqsave(&tx_lock, flags)`. -/
  | lock
  /-- The test of `mem_tx_dsc.cnt`, then that of `mem_tx_pkt.cnt`. -/
  | testDsc | testPkt
  /-- The write pointers move on. -/
  | reserve
  /-- `pci_map_single`. -/
  | map
  | incDsc | addPkt
  /-- The test that lets the queue run on, and `netif_stop_queue`. -/
  | stopDsc | stopPkt | stop
  | unlock
  /-- The book keeping, and the writes to the card. -/
  | book | write
  /-- `spin_unlock_irqrestore` and `return -1`. -/
  | fail
  deriving DecidableEq

/-- The statements that may be executed after one. -/
def XmitPc.successors : XmitPc → List XmitPc
  | lock => [testDsc]
  | testDsc => [testPkt, fail]
  | testPkt => [reserve, fail]
  | reserve => [map]
  | map => [incDsc, fail]
  | incDsc => [addPkt]
  | addPkt => [stopDsc]
  | stopDsc => [stopPkt, stop]
  | stopPkt => [unlock, stop]
  | stop => [unlock]
  | unlock => [book]
  | book => [write]
  | write => []
  | fail => []

/-- A call of `nf10priv_xmit`: the next statement and the local variables. -/
structure XmitCall where
  pc : XmitPc := .lock
  skb : SkBuff
  port : Port
  pktAddr : UInt64 := 0
  dscAddr : UInt64 := 0
  dmaAddr : UInt64 := 0
  deriving DecidableEq

namespace XmitCall

def clSize (x : XmitCall) : UInt64 := Card.txClSize x.skb.len

def dscIndex (x : XmitCall) : ℕ := Ring.index x.dscAddr

/-- Execution goes on at another statement. -/
def goto (x : XmitCall) (pc : XmitPc) : XmitCall := { x with pc := pc }

@[simp] theorem goto_pc (x : XmitCall) (pc : XmitPc) : (x.goto pc).pc = pc := rfl

@[simp] theorem goto_dscAddr (x : XmitCall) (pc : XmitPc) : (x.goto pc).dscAddr = x.dscAddr := rfl

@[simp] theorem goto_clSize (x : XmitCall) (pc : XmitPc) : (x.goto pc).clSize = x.clSize := rfl

@[simp] theorem goto_dscIndex (x : XmitCall) (pc : XmitPc) :
    (x.goto pc).dscIndex = x.dscIndex := rfl

end XmitCall

namespace Card

variable (c : Card)

/-- One statement of a call, where the mapping gives `dma`; `none` after the last one. -/
def xmitStatement (dma : Option UInt64) (x : XmitCall) : Card × Option XmitCall :=
  match x.pc with
  | .lock => (c, some (x.goto .testDsc))
  | .testDsc => (c, some (x.goto (if c.tx.dsc.cnt + 1 ≤ c.tx.dsc.clSize then .testPkt else .fail)))
  | .testPkt =>
    (c, some (x.goto (if c.tx.pkt.cnt + x.clSize ≤ c.tx.pkt.clSize then .reserve else .fail)))
  | .reserve =>
    (c.modifyTx fun r => r.reserve x.clSize,
      some { x with pc := .map, pktAddr := c.tx.pkt.wrPtr, dscAddr := c.tx.dsc.wrPtr })
  | .map =>
    match dma with
    | none => (c, some (x.goto .fail))
    | some dmaAddr =>
      (c.call (.pciMapSingle dmaAddr x.skb.len .toDevice),
        some { x with pc := .incDsc, dmaAddr := dmaAddr })
  | .incDsc => (c.modifyTx Ring.incDsc, some (x.goto .addPkt))
  | .addPkt => (c.modifyTx fun r => r.addPkt x.clSize, some (x.goto .stopDsc))
  | .stopDsc => (c, some (x.goto (if c.tx.dsc.cnt + 1 ≤ c.tx.dsc.clSize then .stopPkt else .stop)))
  | .stopPkt => (c, some (x.goto (if c.tx.pkt.cnt + 32 ≤ c.tx.pkt.clSize then .unlock else .stop)))
  | .stop => (c.stopQueue x.port, some (x.goto .unlock))
  | .unlock => (c, some (x.goto .book))
  | .book => (c.bookTx x.dscIndex x.skb x.port x.dmaAddr x.clSize, some (x.goto .write))
  | .write => (c.writeTxDsc x.dscIndex x.skb x.port x.pktAddr x.dmaAddr, none)
  | .fail => (c, none)

theorem pc_mem_successors {dma : Option UInt64} {x x' : XmitCall}
    (hnext : (c.xmitStatement dma x).2 = some x') : x'.pc ∈ x.pc.successors := by
  unfold xmitStatement at hnext
  split at hnext <;> rename_i hpc <;> rw [hpc]
  case h_5 =>
    cases dma with
    | none =>
        obtain rfl := Option.some.inj hnext
        exact List.mem_cons_of_mem _ (List.mem_singleton_self _)
    | some dmaAddr =>
        obtain rfl := Option.some.inj hnext
        exact List.mem_cons_self
  case h_13 => cases hnext
  case h_14 => cases hnext
  all_goals
    obtain rfl := Option.some.inj hnext
    simp only [XmitCall.goto, XmitPc.successors, List.mem_cons, List.not_mem_nil, or_false]
  all_goals split
  all_goals simp

/-- Two statements are the last ones. -/
theorem exists_next (dma : Option UInt64) {x : XmitCall} (hwrite : x.pc ≠ .write)
    (hfail : x.pc ≠ .fail) : ∃ x', (c.xmitStatement dma x).2 = some x' := by
  unfold xmitStatement
  split <;> rename_i hpc
  case h_5 => cases dma <;> exact ⟨_, rfl⟩
  case h_13 => exact absurd hpc hwrite
  case h_14 => exact absurd hpc hfail
  all_goals exact ⟨_, rfl⟩

/-- The statements of a call, as far as it takes `n` of them. -/
def xmitRun (dma : Option UInt64) : ℕ → Card → XmitCall → Card × Option XmitCall
  | 0, c, x => (c, some x)
  | n + 1, c, x =>
    match c.xmitStatement dma x with
    | (c', none) => (c', none)
    | (c', some x') => xmitRun dma n c' x'

/-- The rest of a call, from the test that stops the queue on. -/
theorem xmitRun_stopDsc (dma : Option UInt64) (x : XmitCall) (hpc : x.pc = .stopDsc) :
    xmitRun dma 6 c x =
      (((if c.txHasRoom then c else c.stopQueue x.port).bookTx x.dscIndex x.skb x.port x.dmaAddr
        x.clSize).writeTxDsc x.dscIndex x.skb x.port x.pktAddr x.dmaAddr, none) := by
  by_cases hdsc : c.tx.dsc.cnt + 1 ≤ c.tx.dsc.clSize
  · by_cases hpkt : c.tx.pkt.cnt + 32 ≤ c.tx.pkt.clSize
    · simp [xmitRun, xmitStatement, hpc, txHasRoom, hdsc, hpkt]
      rfl
    · simp [xmitRun, xmitStatement, hpc, txHasRoom, hdsc, hpkt]
      rfl
  · simp [xmitRun, xmitStatement, hpc, txHasRoom, hdsc]
    rfl

/-- The card when the packet is reserved, mapped and counted. -/
def counted (skb : SkBuff) (dmaAddr : UInt64) : Card :=
  (((c.modifyTx fun r => r.reserve (txClSize skb.len)).call
    (.pciMapSingle dmaAddr skb.len .toDevice)).modifyTx Ring.incDsc).modifyTx
      fun r => r.addPkt (txClSize skb.len)

/-- The statements up to the test that stops the queue. -/
theorem xmitRun_add (skb : SkBuff) (port : Port) (dmaAddr : UInt64) (n : ℕ)
    (hdsc : c.tx.dsc.cnt + 1 ≤ c.tx.dsc.clSize)
    (hpkt : c.tx.pkt.cnt + txClSize skb.len ≤ c.tx.pkt.clSize) :
    xmitRun (some dmaAddr) (n + 7) c { skb := skb, port := port } =
      xmitRun (some dmaAddr) n (c.counted skb dmaAddr)
        { pc := .stopDsc, skb := skb, port := port, pktAddr := c.tx.pkt.wrPtr
          dscAddr := c.tx.dsc.wrPtr, dmaAddr := dmaAddr } := by
  simp [xmitRun, xmitStatement, hdsc, hpkt, XmitCall.goto, XmitCall.clSize, counted]

/-- A call that nothing interrupts is `nf10priv_xmit`. -/
theorem xmitRun_eq (skb : SkBuff) (port : Port) (dma : Option UInt64) :
    xmitRun dma 13 c { skb := skb, port := port } = ((c.nf10privXmit skb port dma).2, none) := by
  by_cases hdsc : c.tx.dsc.cnt + 1 ≤ c.tx.dsc.clSize
  · by_cases hpkt : c.tx.pkt.cnt + txClSize skb.len ≤ c.tx.pkt.clSize
    · have hfits : c.tx.fits (txClSize skb.len) = true := by simp [Ring.fits, hdsc, hpkt]
      cases dma with
      | none =>
          rw [nf10privXmit_unmapped _ _ _ hfits]
          simp [xmitRun, xmitStatement, hdsc, hpkt, XmitCall.goto, XmitCall.clSize]
      | some dmaAddr =>
          rw [c.xmitRun_add skb port dmaAddr 6 hdsc hpkt, xmitRun_stopDsc _ _ _ rfl]
          simp only [nf10privXmit, hfits, if_true]
          rfl
    · have hfull : c.tx.fits (txClSize skb.len) = false := by simp [Ring.fits, hpkt]
      rw [nf10privXmit_full _ _ _ _ hfull]
      simp [xmitRun, xmitStatement, hdsc, hpkt, XmitCall.goto, XmitCall.clSize]
  · have hfull : c.tx.fits (txClSize skb.len) = false := by simp [Ring.fits, hdsc]
    rw [nf10privXmit_full _ _ _ _ hfull]
    simp [xmitRun, xmitStatement, hdsc, XmitCall.goto]

end Card

/-! ## The TX branch of `work_handler` -/

/-- The next statement of the TX branch. -/
inductive TxPc
  /-- `rd_ptr` moves on. -/
  | advance
  /-- `pci_unmap_single` and `dev_kfree_skb_any`. -/
  | release (index : ℕ)
  | subPkt (index : ℕ)
  | decDsc (index : ℕ)
  | invalidate (index : ℕ)
  /-- The test of `mem_tx_dsc.cnt`, then that of `mem_tx_pkt.cnt`. -/
  | testDsc | testPkt
  /-- The loop over the queues. -/
  | wake (i : Port)
  deriving DecidableEq

/-- The statement after the one for queue `i`. -/
def TxPc.afterWake (i : Port) : Option TxPc :=
  if h : i.val + 1 < 4 then some (.wake ⟨i.val + 1, h⟩) else none

namespace Card

variable (c : Card)

/-- One statement of the branch; `none` after the last one. -/
def txStatement : TxPc → Card × Option TxPc
  | .advance => (c.modifyTx Ring.advanceRd, some (.release (Ring.index c.tx.dne.rdPtr)))
  | .release index => (c.txRelease index, some (.subPkt index))
  | .subPkt index => (c.modifyTx fun r => r.subPkt index, some (.decDsc index))
  | .decDsc index => (c.modifyTx Ring.decDsc, some (.invalidate index))
  | .invalidate index => (c.txInvalidate index, some .testDsc)
  | .testDsc => (c, if c.tx.dsc.cnt + 8 * 1 ≤ c.tx.dsc.clSize then some .testPkt else none)
  | .testPkt => (c, if c.tx.pkt.cnt + 4 * 32 ≤ c.tx.pkt.clSize then some (.wake 0) else none)
  | .wake i => (c.wakeQueue i, TxPc.afterWake i)

/-- The statements of the branch, as far as it takes `n` of them. -/
def txRun : ℕ → Card → TxPc → Card × Option TxPc
  | 0, c, pc => (c, some pc)
  | n + 1, c, pc =>
    match c.txStatement pc with
    | (c', none) => (c', none)
    | (c', some pc') => txRun n c' pc'

/-- The rest of a pass, from the test that restarts the queues on. -/
theorem txRun_testDsc :
    txRun 6 c .testDsc =
      (if c.txRestarts then (((c.wakeQueue 0).wakeQueue 1).wakeQueue 2).wakeQueue 3 else c,
        none) := by
  by_cases hdsc : c.tx.dsc.cnt + 8 * 1 ≤ c.tx.dsc.clSize
  · by_cases hpkt : c.tx.pkt.cnt + 4 * 32 ≤ c.tx.pkt.clSize
    · have hrestarts : c.txRestarts = true := by simp only [txRestarts, hdsc, hpkt]; rfl
      simp only [txRun, txStatement, hdsc, hpkt, hrestarts, if_true, TxPc.afterWake]
      rfl
    · have hrestarts : c.txRestarts = false := by simp only [txRestarts, hpkt]; simp
      simp only [txRun, txStatement, hdsc, hpkt, hrestarts, if_true, if_false]
      rfl
  · have hrestarts : c.txRestarts = false := by simp only [txRestarts, hdsc]; simp
    simp only [txRun, txStatement, hdsc, hrestarts, if_false]
    rfl

/-- A pass that nothing interrupts is the branch. -/
theorem txRun_eq : txRun 11 c .advance = (c.handleTx, none) := by
  have hstart : txRun 11 c .advance = txRun 6
      (((((c.modifyTx Ring.advanceRd).txRelease (Ring.index c.tx.dne.rdPtr)).modifyTx
        fun r => r.subPkt (Ring.index c.tx.dne.rdPtr)).modifyTx Ring.decDsc).txInvalidate
          (Ring.index c.tx.dne.rdPtr)) .testDsc := rfl
  rw [hstart, txRun_testDsc]
  rfl

end Card

end CodeAnalyze.Nf10
