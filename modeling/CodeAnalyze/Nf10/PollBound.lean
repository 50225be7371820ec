import CodeAnalyze.Nf10.PollInterrupts
import CodeAnalyze.Nf10.PollPasses
import CodeAnalyze.Nf10.PollRings

/-!
# How long `work_handler` takes

Each iteration that finds a completion takes it away, and each one that finds nothing lowers
`tcnt`.  The potential is a weighted sum of the completions that were not read and of `tcnt`,
and of the statements that are left before the next iteration; every statement lowers it, and
only a completion that the card stores adds to it.
-/

namespace CodeAnalyze.Nf10

/-! ## The potential -/

/-- The statements of a pass that are left, at most. -/
def TxPc.left : TxPc → ℕ
  | advance => 11
  | release _ => 10
  | subPkt _ => 9
  | decDsc _ => 8
  | invalidate _ => 7
  | testDsc => 6
  | testPkt => 5
  | wake i => 4 - i

/-- The statements of the RX branch that are left. -/
def RxPc.left : RxPc → ℕ
  | advance => 7
  | invalidate _ => 6
  | unmap _ => 5
  | subPkt _ _ => 4
  | decDsc _ => 3
  | send _ => 2
  | deliver _ => 1

/-- The statements that are left in an iteration, at most; those between two iterations
count as the first ones of the next. -/
def LoopPc.left (pass : Option TxPc) : LoopPc → ℕ
  | enable25 => 28
  | enable26 => 27
  | loop => 26
  | disable25 => 25
  | disable26 => 24
  | readTx => 23
  | readRx => 22
  | testTx => 21
  | tx => 9 + (pass.map TxPc.left).getD 1
  | testRx => 9
  | rx pc => 1 + pc.left
  | count => 1
  | returned => 0

namespace PollState

variable (p : PollState)

/-- The completions that the card has stored and `work_handler` has not read. -/
def pending : ℕ := (p.txs.stored - p.txs.reads.length) + (p.rxStored - p.rxReads)

/-- The iteration has found a completion, so that it will not lower `tcnt`. -/
def busy : Bool :=
  match p.pc with
  | .readRx => Card.txDone p.txInt
  | .testTx => Card.txDone p.txInt
  | .tx => !p.irqDone
  | .testRx => !p.irqDone
  | .rx _ => !p.irqDone
  | .count => !p.irqDone
  | _ => false

/-- The iterations that are left, at most. -/
def iterations : ℕ := 2 * p.pending + p.tcnt + if p.busy then 2 else 0

def potential : ℕ := 28 * p.iterations + p.pc.left p.txs.handler

end PollState

/-- A statement lowers what is left of the pass. -/
theorem Card.left_txStatement (c : Card) {pc next : TxPc}
    (hnext : (c.txStatement pc).2 = some next) : next.left < pc.left := by
  cases pc with
  | advance =>
      obtain rfl := Option.some.inj hnext
      simp [TxPc.left]
  | release i =>
      obtain rfl := Option.some.inj hnext
      simp [TxPc.left]
  | subPkt i =>
      obtain rfl := Option.some.inj hnext
      simp [TxPc.left]
  | decDsc i =>
      obtain rfl := Option.some.inj hnext
      simp [TxPc.left]
  | invalidate i =>
      obtain rfl := Option.some.inj hnext
      simp [TxPc.left]
  | testDsc =>
      simp only [Card.txStatement, Option.ite_none_right_eq_some, Option.some.injEq] at hnext
      rw [← hnext.2]
      simp [TxPc.left]
  | testPkt =>
      simp only [Card.txStatement, Option.ite_none_right_eq_some, Option.some.injEq] at hnext
      rw [← hnext.2]
      simp [TxPc.left]
  | wake i =>
      simp only [Card.txStatement, TxPc.afterWake, Option.dite_none_right_eq_some,
        Option.some.injEq] at hnext
      obtain ⟨hlt, rfl⟩ := hnext
      simp only [TxPc.left]
      omega

theorem TxPc.left_pos (pc : TxPc) : 0 < pc.left := by
  cases pc with
  | wake i =>
      have := i.isLt
      simp only [TxPc.left]
      omega
  | _ => simp [TxPc.left]

theorem RxPc.left_pos (pc : RxPc) : 0 < pc.left := by
  cases pc <;> simp [RxPc.left]

theorem Card.left_rxStatement (c : Card) {alloc : Option ℕ} {dmaAddr rxInt : UInt64}
    {pc next : RxPc} (hnext : (c.rxStatement alloc dmaAddr rxInt pc).2 = some next) :
    next.left < pc.left := by
  cases pc with
  | deliver skb => cases hnext
  | _ =>
      obtain rfl := Option.some.inj hnext
      simp [RxPc.left]

/-! ## What holds while `work_handler` polls -/

structure Polls (p : PollState) : Prop where
  loop : LoopOk p
  pass : PassAt p
  completions : Completions p.txs
  rx : ∃ given, RxOk p given

theorem polls_probed (raw : Card) : Polls (pollProbed raw) where
  loop := loopOk_probed raw
  pass := passAt_probed raw
  completions := completions_probed raw
  rx := ⟨[], rxOk_probed raw⟩

variable {p p' : PollState} {op : PollOp}

theorem Polls.exec (h : Polls p) (hx : pollExec p op = some p') : Polls p' where
  loop := h.loop.exec hx
  pass := h.pass.exec hx
  completions := h.completions.pollExec h.pass hx
  rx := by
    obtain ⟨given, hrx⟩ := h.rx
    exact hrx.exec hx

/-! ## The statements -/

/-- The completion that is read is one less, and `work_handler` is busy with it. -/
theorem Polls.potential_readTx (h : Polls p) (hpc : p.pc = .readTx) (alloc : Option ℕ)
    (dmaAddr : UInt64) : (p.loopStep alloc dmaAddr).potential < p.potential := by
  have hidle := h.pass
  unfold PassAt at hidle
  simp only [hpc] at hidle
  simp only [PollState.loopStep, PollState.potential, PollState.iterations, PollState.pending,
    PollState.busy, PollState.log, PollState.card, LoopPc.left, hpc, TxState.pollStep]
  split
  · rename_i hdone
    have hlt := h.completions.stored_of_done hidle hdone
    simp
    omega
  · simp

/-- The end of an iteration. -/
theorem Polls.potential_count (h : Polls p) (hpc : p.pc = .count) (alloc : Option ℕ)
    (dmaAddr : UInt64) : (p.loopStep alloc dmaAddr).potential < p.potential := by
  have hloop := h.loop
  unfold LoopOk at hloop
  simp only [hpc] at hloop
  obtain ⟨hbody, -⟩ := hloop
  have hpos : 1 ≤ p.tcnt := by
    cases hint : p.intEnabled with
    | true => exact Nat.le_of_eq (hbody.enabled hint).1.symm
    | false => exact Nat.le_of_succ_le (hbody.disabled hint)
  have hnext : p.nextTcnt + 1 ≤ p.tcnt + if p.busy then 2 else 0 := by
    simp only [PollState.nextTcnt, PollState.busy, hpc]
    cases p.irqDone with
    | true =>
        simp
        omega
    | false =>
        simp
        split <;> omega
  have hpending : (p.loopStep alloc dmaAddr).pending = p.pending := by
    simp only [PollState.loopStep, hpc]
    split <;> rfl
  have hidle : (p.loopStep alloc dmaAddr).busy = false := by
    simp only [PollState.loopStep, hpc]
    split <;> rfl
  simp only [PollState.potential, PollState.iterations, hpending, hidle]
  simp only [PollState.loopStep, hpc, LoopPc.left]
  split
  · -- the interrupts were disabled, so that `tcnt` was at least 2
    rename_i henable
    have htwo := hbody.disabled henable.2
    simp
    omega
  · simp
    omega

/-- The statements of a pass. -/
theorem Polls.potential_tx (h : Polls p) (hpc : p.pc = .tx) (alloc : Option ℕ)
    (dmaAddr : UInt64) : (p.loopStep alloc dmaAddr).potential < p.potential := by
  have hpass := h.pass
  unfold PassAt at hpass
  simp only [hpc] at hpass
  cases hh : p.txs.handler with
  | none => exact absurd hh hpass
  | some pc =>
      have hpos := pc.left_pos
      simp only [PollState.loopStep, PollState.potential, PollState.iterations, PollState.pending,
        PollState.busy, LoopPc.left, hpc, hh, Option.map_some, Option.getD_some]
      have hsame : (p.txs.passStep pc).stored = p.txs.stored ∧
          (p.txs.passStep pc).reads = p.txs.reads := ⟨rfl, rfl⟩
      rw [hsame.1, hsame.2]
      cases hnext : (p.txs.passStep pc).handler with
      | none =>
          simp
          omega
      | some next =>
          have hlt : next.left < pc.left := p.txs.card.left_txStatement hnext
          simp
          omega

/-- The statements of the RX branch. -/
theorem potential_rx {pc : RxPc} (hpc : p.pc = .rx pc) (alloc : Option ℕ)
    (dmaAddr : UInt64) : (p.loopStep alloc dmaAddr).potential < p.potential := by
  simp only [PollState.loopStep, PollState.potential, PollState.iterations, PollState.pending,
    PollState.busy, LoopPc.left, hpc]
  split
  · rename_i next hnext
    have hlt := p.card.left_rxStatement (congrArg Prod.snd hnext)
    simp [PollState.goto, PollState.setCard]
    omega
  · have hpos := pc.left_pos
    simp [PollState.goto, PollState.setCard]
    omega

/-- Every statement of `work_handler` lowers the potential. -/
theorem Polls.potential_lt (h : Polls p) (hpc : p.pc ≠ .returned) (alloc : Option ℕ)
    (dmaAddr : UInt64) : (p.loopStep alloc dmaAddr).potential < p.potential := by
  cases hpc' : p.pc with
  | readTx => exact h.potential_readTx hpc' alloc dmaAddr
  | tx => exact h.potential_tx hpc' alloc dmaAddr
  | rx pc => exact potential_rx hpc' alloc dmaAddr
  | count => exact h.potential_count hpc' alloc dmaAddr
  | returned => exact absurd hpc' hpc
  | testTx =>
      have hpass := h.pass
      have hloop := h.loop
      unfold PassAt at hpass
      unfold LoopOk at hloop
      simp only [hpc'] at hpass hloop
      simp only [PollState.loopStep, PollState.potential, PollState.iterations, PollState.pending,
        PollState.busy, PollState.goto, LoopPc.left, hpc']
      split
      · rename_i hdone
        rw [if_pos hdone] at hpass
        simp [hpass, TxPc.left]
      · simp [hloop.2.1]
  | testRx =>
      obtain ⟨given, hrx⟩ := h.rx
      have hfound := hrx.found (by rw [hpc']; rfl)
      simp only [PollState.loopStep, PollState.potential, PollState.iterations, PollState.pending,
        PollState.busy, PollState.goto, LoopPc.left, hpc']
      split
      · have hlt := hfound ‹_›
        simp [RxPc.left]
        omega
      · simp
  | loop =>
      simp only [PollState.loopStep, PollState.potential, PollState.iterations, PollState.pending,
        PollState.busy, hpc']
      split
      · simp [PollState.goto, LoopPc.left]
      · split <;> simp [PollState.goto, PollState.log, LoopPc.left]
  | _ =>
      simp [PollState.loopStep, PollState.potential, PollState.iterations, PollState.pending,
        PollState.busy, PollState.goto, PollState.log, LoopPc.left, hpc']

/-! ## Runs -/

/-- The steps of `work_handler`. -/
def PollOp.isStep : PollOp → Bool
  | .step _ _ => true
  | _ => false

/-- The completions that the card stores. -/
def PollOp.isStore : PollOp → Bool
  | .storeTx => true
  | .storeRx _ => true
  | _ => false

/-- What the others do adds to the potential what they store. -/
theorem potential_stored (p : PollState) {txs : TxState} {rxStored : ℕ} (n : ℕ)
    (hhandler : txs.handler = p.txs.handler) (hreads : txs.reads = p.txs.reads)
    (hstored : txs.stored + rxStored ≤ p.txs.stored + p.rxStored + n)
    (htx : p.txs.stored ≤ txs.stored) (hrx : p.rxStored ≤ rxStored) :
    PollState.potential { p with txs := txs, rxStored := rxStored } ≤ p.potential + 56 * n := by
  have hpending : PollState.pending { p with txs := txs, rxStored := rxStored } ≤
      p.pending + n := by
    simp only [PollState.pending, hreads]
    omega
  have hbusy : PollState.busy { p with txs := txs, rxStored := rxStored } = p.busy := rfl
  simp only [PollState.potential, PollState.iterations, hbusy, hhandler]
  omega

theorem txExec_stored {s s' : TxState} {txOp : TxOp} (hx : txExec s txOp = some s') :
    s.stored ≤ s'.stored ∧ s'.stored ≤ s.stored + 1 ∧ (txOp ≠ .store → s'.stored = s.stored) := by
  have hpoll : s.pollStep.stored = s.stored := by
    unfold TxState.pollStep
    split <;> rfl
  cases txStep_of_exec hx with
  | store _ => exact ⟨Nat.le_succ _, Nat.le_refl _, fun hne => absurd rfl hne⟩
  | poll _ => rw [hpoll]; exact ⟨Nat.le_refl _, Nat.le_succ _, fun _ => rfl⟩
  | _ => exact ⟨Nat.le_refl _, Nat.le_succ _, fun _ => rfl⟩

theorem Polls.potential_exec (h : Polls p) (hcall : op ≠ .enter) (hx : pollExec p op = some p') :
    p'.potential + (if op.isStep then 1 else 0) ≤
      p.potential + if op.isStore then 56 else 0 := by
  cases pollStep_of_exec hx with
  | @tx _ txOp txs hop htx =>
      obtain ⟨-, hhandler, hreads⟩ := txExec_others hop htx
      obtain ⟨hle, hsucc, hsame⟩ := txExec_stored htx
      have hstep : op.isStep = false := by cases op <;> first | rfl | cases hop
      rw [hstep]
      by_cases hstore : txOp = .store
      · subst hstore
        have hop' : op.isStore = true := by
          cases op <;> first | rfl | cases hop
        rw [hop']
        exact potential_stored p 1 hhandler hreads (by omega) hle (Nat.le_refl _)
      · have hleft := potential_stored p 0 hhandler hreads (by rw [hsame hstore]; exact Nat.le_refl _)
          hle (Nat.le_refl _)
        exact Nat.le_trans hleft (Nat.le_add_right _ _)
  | storeRx _ _ => exact potential_stored p 1 rfl rfl (Nat.le_refl _) (Nat.le_refl _) (Nat.le_succ _)
  | sendRxDsc _ => exact Nat.le_refl _
  | enter _ => exact absurd rfl hcall
  | step hpc => exact h.potential_lt hpc _ _

/-- A call of `work_handler` takes no more statements than the completions allow that are
there or that the card stores meanwhile. -/
theorem Polls.steps_le (h : Polls p) {ops : List PollOp} (hcall : .enter ∉ ops)
    (hrun : ops.foldlM pollExec p.enter = some p') (hpc : p.pc = .returned) :
    ops.countP PollOp.isStep ≤ 54 + 56 * (p.pending + ops.countP PollOp.isStore) := by
  have hexec : pollExec p .enter = some p.enter := by simp only [pollExec, hpc]
  have hbound := Lib.countP_le_potential PollState.potential PollOp.isStep PollOp.isStore 56
    (fun _ _ _ h hx => h.exec hx)
    (fun s a ha s' h hx => h.potential_exec (fun heq => hcall (heq ▸ ha)) hx) (h.exec hexec) hrun
  have hstart : p.enter.potential = 54 + 56 * p.pending := by
    simp [PollState.enter, PollState.potential, PollState.iterations, PollState.pending,
      PollState.busy, LoopPc.left]
    omega
  omega

end CodeAnalyze.Nf10
