import CodeAnalyze.Nf10.Calls
import CodeAnalyze.Nf10.Completions
import CodeAnalyze.Nf10.Polling

/-!
# The passes of the TX branch, while `work_handler` polls

A pass begins where `work_handler` reads its completion, and it is over before `rx_int` is
tested.  All other steps of `work_handler` leave the TX side.
-/

namespace CodeAnalyze.Nf10

/-- Where the pass is when the loop is there. -/
def PassAt (p : PollState) : Prop :=
  match p.pc with
  | .readRx => p.txs.handler = if Card.txDone p.txInt then some .advance else none
  | .testTx => p.txs.handler = if Card.txDone p.txInt then some .advance else none
  | .tx => p.txs.handler ≠ none
  | _ => p.txs.handler = none

/-- The TX side is left as it is. -/
def TxState.SameTx (s s' : TxState) : Prop :=
  s'.card.tx = s.card.tx ∧ s'.card.hostTxDne = s.card.hostTxDne ∧ s'.handler = s.handler ∧
    s'.reads = s.reads ∧ s'.stored = s.stored ∧ s'.tag = s.tag

/-- The card stores a completion of a transmission only in a slot that was invalidated since
the one before. -/
def FreeSlots (p : PollState) : PollOp → Prop
  | .storeTx => p.txs.stored < p.txs.invalidated + ringSize
  | _ => True

instance (p : PollState) (op : PollOp) : Decidable (FreeSlots p op) := by
  unfold FreeSlots
  split <;> infer_instance

/-! ## The TX side of a step -/

theorem Card.rxStatement_tx (c : Card) (alloc : Option ℕ) (dmaAddr rxInt : UInt64) (pc : RxPc) :
    (c.rxStatement alloc dmaAddr rxInt pc).1.tx = c.tx ∧
      (c.rxStatement alloc dmaAddr rxInt pc).1.hostTxDne = c.hostTxDne := by
  cases pc with
  | send skb =>
      have hpost := c.nf10privSendRxDsc_spec dmaAddr alloc
      exact ⟨hpost.tx, hpost.hostTxDne⟩
  | deliver skb =>
      simp only [Card.rxStatement, c.rxDeliver_eq skb rxInt, and_self]
  | _ => exact ⟨rfl, rfl⟩

variable {p p' : PollState} {op : PollOp}

/-- A step of `work_handler` continues the pass, or leaves the TX side. -/
theorem PassAt.loopStep_txs (h : PassAt p) (alloc : Option ℕ) (dmaAddr : UInt64) :
    p.txs.SameTx (p.loopStep alloc dmaAddr).txs ∨
      txExec p.txs .handler = some (p.loopStep alloc dmaAddr).txs := by
  have hsame : p.txs.SameTx p.txs := ⟨rfl, rfl, rfl, rfl, rfl, rfl⟩
  unfold PassAt at h
  cases hpc : p.pc with
  | readTx =>
      simp only [PollState.loopStep, hpc] at h ⊢
      refine Or.inr ?_
      simp only [txExec, h]
  | tx =>
      simp only [PollState.loopStep, hpc] at h ⊢
      cases hh : p.txs.handler with
      | none => exact absurd hh h
      | some pc =>
          refine Or.inr ?_
          simp only [txExec, hh]
  | rx pc =>
      simp only [PollState.loopStep, hpc]
      obtain ⟨htx, hwords⟩ := p.card.rxStatement_tx alloc dmaAddr p.rxInt pc
      refine Or.inl ?_
      split <;> rename_i hst <;> rw [hst] at htx hwords <;> exact ⟨htx, hwords, rfl, rfl, rfl, rfl⟩
  | loop =>
      simp only [PollState.loopStep, hpc]
      refine Or.inl ?_
      split
      · exact hsame
      · split <;> exact hsame
  | testTx =>
      simp only [PollState.loopStep, hpc]
      refine Or.inl ?_
      split <;> exact hsame
  | testRx =>
      simp only [PollState.loopStep, hpc]
      refine Or.inl ?_
      split <;> exact hsame
  | count =>
      simp only [PollState.loopStep, hpc]
      refine Or.inl ?_
      split <;> exact hsame
  | _ =>
      simp only [PollState.loopStep, hpc]
      exact Or.inl hsame

theorem PassAt.txs_cases (h : PassAt p) (hx : pollExec p op = some p') :
    p.txs.SameTx p'.txs ∨
      ∃ txOp, (txOp = .store → op = .storeTx) ∧ txExec p.txs txOp = some p'.txs := by
  have hsame : p.txs.SameTx p.txs := ⟨rfl, rfl, rfl, rfl, rfl, rfl⟩
  cases pollStep_of_exec hx with
  | @tx _ txOp _ hop htx =>
      refine Or.inr ⟨txOp, fun hstore => ?_, htx⟩
      subst hstore
      cases op <;> cases hop
      rfl
  | storeRx _ _ => exact Or.inl ⟨rfl, rfl, rfl, rfl, rfl, rfl⟩
  | @sendRxDsc alloc dmaAddr _ =>
      have hpost := p.card.nf10privSendRxDsc_spec dmaAddr alloc
      exact Or.inl ⟨hpost.tx, hpost.hostTxDne, rfl, rfl, rfl, rfl⟩
  | enter _ => exact Or.inl hsame
  | @step alloc dmaAddr _ =>
      rcases h.loopStep_txs alloc dmaAddr with hleft | hpass
      · exact Or.inl hleft
      · exact Or.inr ⟨.handler, (by intro hstore; cases hstore), hpass⟩

/-! ## The steps -/

theorem passAt_probed (raw : Card) : PassAt (pollProbed raw) := rfl

theorem PassAt.step (h : PassAt p) (alloc : Option ℕ) (dmaAddr : UInt64) :
    PassAt (p.loopStep alloc dmaAddr) := by
  unfold PassAt at h
  cases hpc : p.pc with
  | readTx =>
      -- the read begins a pass exactly if it finds a completion
      simp only [PollState.loopStep, hpc] at h ⊢
      change p.txs.pollStep.handler = if Card.txDone p.card.txInt then some .advance else none
      unfold TxState.pollStep PollState.card
      split
      · rfl
      · exact h
  | testTx =>
      simp only [PollState.loopStep, hpc] at h ⊢
      split
      · rename_i hdone
        rw [if_pos hdone] at h
        change p.txs.handler ≠ none
        rw [h]
        exact Option.some_ne_none _
      · rename_i hempty
        rw [if_neg hempty] at h
        exact h
  | tx =>
      simp only [PollState.loopStep, hpc] at h ⊢
      cases hh : p.txs.handler with
      | none => exact absurd hh h
      | some pc =>
          dsimp only
          split
          · assumption
          · assumption
  | rx pc =>
      simp only [PollState.loopStep, hpc] at h ⊢
      split <;> exact h
  | loop =>
      simp only [PollState.loopStep, hpc] at h ⊢
      split
      · exact h
      · split <;> exact h
  | testRx =>
      simp only [PollState.loopStep, hpc] at h ⊢
      split <;> exact h
  | count =>
      simp only [PollState.loopStep, hpc] at h ⊢
      split <;> exact h
  | returned =>
      simp only [PollState.loopStep, hpc] at h ⊢
      unfold PassAt
      rw [hpc]
      exact h
  | _ =>
      simp only [PollState.loopStep, hpc] at h ⊢
      exact h

theorem PassAt.exec (h : PassAt p) (hx : pollExec p op = some p') : PassAt p' := by
  have hsame {txs : TxState} {n : ℕ} (hhandler : txs.handler = p.txs.handler) :
      PassAt { p with txs := txs, rxStored := n } := by
    unfold PassAt at h ⊢
    simp only [hhandler]
    exact h
  cases pollStep_of_exec hx with
  | tx hop htx => exact hsame (txExec_others hop htx).2.1
  | storeRx _ _ => exact hsame rfl
  | sendRxDsc _ => exact hsame rfl
  | enter hpc =>
      unfold PassAt at h
      rw [hpc] at h
      exact h
  | step _ => exact h.step _ _

/-- The completions of transmissions, in every state of the loop. -/
theorem Completions.pollExec (hs : Completions p.txs) (h : PassAt p)
    (hx : pollExec p op = some p') : Completions p'.txs := by
  rcases h.txs_cases hx with ⟨htx, hwords, hhandler, hreads, hstored, -⟩ | ⟨txOp, -, htx⟩
  · have hpast : p'.txs.invalidated = p.txs.invalidated := by
      unfold TxState.invalidated TxState.past
      rw [hhandler, hreads]
    have haligned := hs.toAligned.frame (by rw [htx]; exact hs.setUp) hhandler hreads (by rw [htx])
    exact hs.frame haligned hpast hreads hstored hwords
  · exact hs.step htx

theorem InOrder.pollExec (hs : InOrder p.txs) (h : PassAt p) (hfree : FreeSlots p op)
    (hx : pollExec p op = some p') : InOrder p'.txs := by
  have hcompletions := hs.toCompletions.pollExec h hx
  rcases h.txs_cases hx with ⟨-, hwords, hhandler, hreads, hstored, htag⟩ | ⟨txOp, hop, htx⟩
  · have hpast : p'.txs.invalidated = p.txs.invalidated := by
      unfold TxState.invalidated TxState.past
      rw [hhandler, hreads]
    exact hs.frame hcompletions hreads hpast hstored hwords htag
  · refine hs.step ?_ htx
    cases txOp with
    | store =>
        obtain rfl := hop rfl
        exact hfree
    | _ => trivial

end CodeAnalyze.Nf10
