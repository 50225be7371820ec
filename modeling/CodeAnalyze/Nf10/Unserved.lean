import CodeAnalyze.Nf10.PollBound

/-!
# Completions that arrive while the interrupts are disabled

`work_handler` reads both buffers once more after it has enabled the interrupts, so that what
arrived before is handled when it returns.  The exception is a completion of a transmission
that the TX branch erases.
-/

namespace CodeAnalyze.Nf10

open Lib (Along)

/-! ## The interrupts -/

/-- Unless `work_handler` is about to enable the interrupts, its flag says that they are. -/
def Flagged (p : PollState) : Prop :=
  p.intEnabled = true → p.pc = .enable25 ∨ p.pc = .enable26 ∨ Enabling p.trace

variable {p p' : PollState} {op : PollOp}

theorem Flagged.step (h : Flagged p) (hloop : LoopOk p) (alloc : Option ℕ) (dmaAddr : UInt64) :
    Flagged (p.loopStep alloc dmaAddr) := by
  -- a statement that writes nothing to the registers
  have hquiet {p' : PollState} {more : List PollEvent} (hpc : p.pc ≠ .enable25 ∧ p.pc ≠ .enable26)
      (hint : p'.intEnabled = true → p.intEnabled = true) (htrace : p'.trace = p.trace ++ more)
      (hmore : cfgWrites more = []) : Flagged p' := by
    intro hon
    rcases h (hint hon) with h25 | h26 | henabling
    · exact absurd h25 hpc.1
    · exact absurd h26 hpc.2
    · rw [htrace]
      exact Or.inr (Or.inr (henabling.append hmore))
  have hnone : p.trace = p.trace ++ [] := (List.append_nil _).symm
  unfold LoopOk at hloop
  cases hpc : p.pc with
  | enable25 => exact fun _ => Or.inr (Or.inl (by simp only [PollState.loopStep, hpc]; rfl))
  | enable26 =>
      simp only [hpc] at hloop
      obtain ⟨-, -, -, before, hwrites⟩ := hloop
      refine fun _ => Or.inr (Or.inr (Or.inr ⟨before, ?_⟩))
      simp only [PollState.loopStep, hpc]
      change cfgWrites (p.trace ++ [.cfgWrite 26 1]) = _
      rw [cfgWrites_append, hwrites, List.append_assoc]
      rfl
  | disable25 =>
      simp only [hpc] at hloop
      intro hon
      simp only [PollState.loopStep, hpc] at hon
      exact absurd (hloop.1.symm.trans hon) Bool.false_ne_true
  | disable26 =>
      simp only [hpc] at hloop
      intro hon
      simp only [PollState.loopStep, hpc] at hon
      exact absurd (hloop.1.symm.trans hon) Bool.false_ne_true
  | loop =>
      simp only [PollState.loopStep, hpc]
      split
      · exact hquiet (by simp [hpc]) id hnone rfl
      · split
        · intro hon
          cases hon
        · exact hquiet (by simp [hpc]) id rfl rfl
  | readTx =>
      simp only [PollState.loopStep, hpc]
      exact hquiet (by simp [hpc]) id rfl rfl
  | readRx =>
      simp only [PollState.loopStep, hpc]
      exact hquiet (by simp [hpc]) id rfl rfl
  | testTx =>
      simp only [PollState.loopStep, hpc]
      split <;> exact hquiet (by simp [hpc]) id hnone rfl
  | tx =>
      simp only [PollState.loopStep, hpc]
      split <;> exact hquiet (by simp [hpc]) id hnone rfl
  | testRx =>
      simp only [PollState.loopStep, hpc]
      split <;> exact hquiet (by simp [hpc]) id hnone rfl
  | rx pc =>
      simp only [PollState.loopStep, hpc]
      split <;> exact hquiet (by simp [hpc]) id hnone rfl
  | count =>
      simp only [PollState.loopStep, hpc]
      split
      · exact fun _ => Or.inl rfl
      · exact hquiet (by simp [hpc]) id hnone rfl
  | returned =>
      simp only [PollState.loopStep, hpc]
      exact h

theorem Flagged.exec (h : Flagged p) (hloop : LoopOk p) (hx : pollExec p op = some p') :
    Flagged p' := by
  cases pollStep_of_exec hx with
  | enter _ => exact fun _ => Or.inr (Or.inr (Or.inl rfl))
  | step _ => exact h.step hloop _ _
  | _ => exact h

/-! ## What was stored before the last look -/

/-- The buffer of transmissions was read in this iteration. -/
def LoopPc.sawTx : LoopPc → Bool
  | readRx | testTx | tx | testRx | rx _ | count => true
  | _ => false

/-- The buffer of receptions was read in this iteration. -/
def LoopPc.sawRx : LoopPc → Bool
  | testTx | tx | testRx | rx _ | count => true
  | _ => false

/-- The first `n` completions of transmissions and the first `m` of receptions are stored,
and an iteration with the interrupts enabled reads the buffers after that. -/
structure Seen (n m : ℕ) (p : PollState) : Prop where
  tx_le : n ≤ p.txs.stored
  rx_le : m ≤ p.rxStored
  tx : p.pc.sawTx = true → p.intEnabled = true → n ≤ p.txSeen
  rx : p.pc.sawRx = true → p.intEnabled = true → m ≤ p.rxSeen
  ends : p.pc = .returned ∨ p.pc = .loop ∧ p.tcnt = 0 → n ≤ p.txSeen ∧ m ≤ p.rxSeen

/-- What is stored while the interrupts are disabled is stored before they are enabled. -/
theorem seen_of_disabled (hflag : Flagged p) (hloop : LoopOk p) (hoff : ¬Enabling p.trace) :
    Seen p.txs.stored p.rxStored p := by
  have hfound (h : FoundNothing p) : Enabling p.trace := by
    obtain ⟨⟨start, hstart, htrace⟩, -⟩ := h
    rw [htrace]
    exact hstart.append rfl
  have hsaw (hpc : p.pc ≠ .enable25 ∧ p.pc ≠ .enable26) : p.intEnabled = false := by
    cases hint : p.intEnabled with
    | false => rfl
    | true =>
        rcases hflag hint with h25 | h26 | henabling
        · exact absurd h25 hpc.1
        · exact absurd h26 hpc.2
        · exact absurd henabling hoff
  refine
    { tx_le := Nat.le_refl _
      rx_le := Nat.le_refl _
      tx := fun hpc hint => ?_
      rx := fun hpc hint => ?_
      ends := fun hend => ?_ }
  · have hdisabled := hsaw (by constructor <;> (intro heq; rw [heq] at hpc; cases hpc))
    rw [hdisabled] at hint
    cases hint
  · have hdisabled := hsaw (by constructor <;> (intro heq; rw [heq] at hpc; cases hpc))
    rw [hdisabled] at hint
    cases hint
  · exfalso
    unfold LoopOk at hloop
    rcases hend with hpc | ⟨hpc, hzero⟩
    · simp only [hpc] at hloop
      rcases hloop with hempty | hfoundNothing
      · exact hoff (by rw [hempty]; exact Or.inl rfl)
      · exact hoff (hfound hfoundNothing)
    · have hdisabled := hsaw (by simp [hpc])
      simp only [hpc] at hloop
      have := hloop.2 hdisabled
      omega

theorem pollStep_stored (s : TxState) : s.pollStep.stored = s.stored := by
  unfold TxState.pollStep
  split <;> rfl

variable {n m : ℕ}

theorem LoopPc.sawTx_of_sawRx {pc : LoopPc} (h : pc.sawRx = true) : pc.sawTx = true := by
  cases pc <;> first | rfl | cases h

/-- Where no buffer has been read in the iteration, all depends on the end of the loop. -/
theorem Seen.of_unread {p' : PollState} (h : Seen n m p) (hstored : p'.txs.stored = p.txs.stored)
    (hrxStored : p'.rxStored = p.rxStored) (hpc : p'.pc.sawTx = false)
    (hends : p'.pc = .returned ∨ p'.pc = .loop ∧ p'.tcnt = 0 → n ≤ p'.txSeen ∧ m ≤ p'.rxSeen) :
    Seen n m p' where
  tx_le := by rw [hstored]; exact h.tx_le
  rx_le := by rw [hrxStored]; exact h.rx_le
  tx := fun hsaw => absurd (hsaw.symm.trans hpc) (by decide)
  rx := fun hsaw => absurd ((LoopPc.sawTx_of_sawRx hsaw).symm.trans hpc) (by decide)
  ends := hends

/-- A statement that reads no buffer and does not end the loop. -/
theorem Seen.quiet {p' : PollState} (h : Seen n m p) (hstored : p'.txs.stored = p.txs.stored)
    (hlocals : (p'.rxStored, p'.intEnabled, p'.txSeen, p'.rxSeen) =
      (p.rxStored, p.intEnabled, p.txSeen, p.rxSeen))
    (htx : p'.pc.sawTx = true → p.pc.sawTx = true) (hrx : p'.pc.sawRx = true → p.pc.sawRx = true)
    (hend : ¬(p'.pc = .returned ∨ p'.pc = .loop ∧ p'.tcnt = 0)) : Seen n m p' := by
  simp only [Prod.mk.injEq] at hlocals
  obtain ⟨hrxStored, hint, htxSeen, hrxSeen⟩ := hlocals
  exact
    { tx_le := by rw [hstored]; exact h.tx_le
      rx_le := by rw [hrxStored]; exact h.rx_le
      tx := fun hsaw hon => by rw [htxSeen]; exact h.tx (htx hsaw) (hint ▸ hon)
      rx := fun hsaw hon => by rw [hrxSeen]; exact h.rx (hrx hsaw) (hint ▸ hon)
      ends := fun hends => absurd hends hend }

/-- The end of an iteration: the loop ends only with the interrupts enabled. -/
theorem Seen.step_count (h : Seen n m p) (hpc : p.pc = .count) (alloc : Option ℕ)
    (dmaAddr : UInt64) : Seen n m (p.loopStep alloc dmaAddr) := by
  simp only [PollState.loopStep, hpc]
  split
  · refine h.of_unread rfl rfl rfl fun hend => ?_
    rcases hend with hend | ⟨hend, -⟩ <;> cases hend
  · rename_i hstay
    refine h.of_unread rfl rfl rfl fun hend => ?_
    have hzero : p.nextTcnt = 0 := by
      rcases hend with hend | ⟨-, hzero⟩
      · cases hend
      · exact hzero
    have hint : p.intEnabled = true := by
      by_contra hoff
      exact hstay ⟨by omega, Bool.eq_false_iff.mpr hoff⟩
    exact ⟨h.tx (by rw [hpc]; rfl) hint, h.rx (by rw [hpc]; rfl) hint⟩

/-- The head of the loop. -/
theorem Seen.step_loop (h : Seen n m p) (hpc : p.pc = .loop) (alloc : Option ℕ)
    (dmaAddr : UInt64) : Seen n m (p.loopStep alloc dmaAddr) := by
  simp only [PollState.loopStep, hpc]
  split
  · rename_i hzero
    exact h.of_unread rfl rfl rfl fun _ => h.ends (Or.inr ⟨hpc, hzero⟩)
  · split
    · refine h.of_unread rfl rfl rfl fun hend => ?_
      rcases hend with hend | ⟨hend, -⟩ <;> cases hend
    · exact h.quiet rfl rfl (fun hsaw => by cases hsaw) (fun hsaw => by cases hsaw)
        (by simp [PollState.goto])

theorem Seen.step (h : Seen n m p) (hloop : LoopOk p) (alloc : Option ℕ) (dmaAddr : UInt64) :
    Seen n m (p.loopStep alloc dmaAddr) := by
  have hfrom {pc : LoopPc} (hpc : p.pc = pc) (hsaw : pc.sawRx = true) :
      p.pc.sawTx = true ∧ p.pc.sawRx = true := by
    rw [hpc]
    exact ⟨LoopPc.sawTx_of_sawRx hsaw, hsaw⟩
  cases hpc : p.pc with
  | count => exact h.step_count hpc alloc dmaAddr
  | loop => exact h.step_loop hpc alloc dmaAddr
  | readTx =>
      -- the read sees at least what was stored when the history began
      simp only [PollState.loopStep, hpc]
      exact
        { tx_le := by
            change n ≤ p.txs.pollStep.stored
            rw [pollStep_stored]
            exact h.tx_le
          rx_le := h.rx_le
          tx := fun _ _ => h.tx_le
          rx := fun hsaw => by cases hsaw
          ends := fun hend => by rcases hend with hend | ⟨hend, -⟩ <;> cases hend }
  | readRx =>
      simp only [PollState.loopStep, hpc]
      exact
        { tx_le := h.tx_le
          rx_le := h.rx_le
          tx := fun _ hon => h.tx (by rw [hpc]; rfl) hon
          rx := fun _ _ => h.rx_le
          ends := fun hend => by rcases hend with hend | ⟨hend, -⟩ <;> cases hend }
  | testTx =>
      obtain ⟨htx, hrx⟩ := hfrom hpc rfl
      simp only [PollState.loopStep, hpc]
      split <;> exact h.quiet rfl rfl (fun _ => htx) (fun _ => hrx) (by simp [PollState.goto])
  | tx =>
      obtain ⟨htx, hrx⟩ := hfrom hpc rfl
      simp only [PollState.loopStep, hpc]
      split
      · exact h.quiet rfl rfl (fun _ => htx) (fun _ => hrx) (by simp [PollState.goto])
      · refine h.quiet rfl rfl (fun _ => htx) (fun _ => hrx) ?_
        dsimp only
        split <;> simp
  | testRx =>
      obtain ⟨htx, hrx⟩ := hfrom hpc rfl
      simp only [PollState.loopStep, hpc]
      split <;> exact h.quiet rfl rfl (fun _ => htx) (fun _ => hrx) (by simp [PollState.goto])
  | rx pc =>
      obtain ⟨htx, hrx⟩ := hfrom hpc rfl
      simp only [PollState.loopStep, hpc]
      split <;> exact h.quiet rfl rfl (fun _ => htx) (fun _ => hrx) (by simp [PollState.goto])
  | enable26 =>
      unfold LoopOk at hloop
      simp only [hpc] at hloop
      simp only [PollState.loopStep, hpc]
      refine h.quiet rfl rfl (fun hsaw => by cases hsaw) (fun hsaw => by cases hsaw) ?_
      simp [PollState.goto, PollState.log, hloop.2.1]
  | returned =>
      simp only [PollState.loopStep, hpc]
      exact h
  | _ =>
      simp only [PollState.loopStep, hpc]
      exact h.quiet rfl rfl (fun hsaw => by cases hsaw) (fun hsaw => by cases hsaw)
        (by simp [PollState.goto])

theorem Seen.exec (h : Seen n m p) (hloop : LoopOk p) (hcall : op ≠ .enter)
    (hx : pollExec p op = some p') : Seen n m p' := by
  cases pollStep_of_exec hx with
  | tx _ htx =>
      exact
        { tx_le := Nat.le_trans h.tx_le (txExec_stored htx).1
          rx_le := h.rx_le, tx := h.tx, rx := h.rx, ends := h.ends }
  | storeRx _ _ =>
      exact
        { tx_le := h.tx_le
          rx_le := Nat.le_succ_of_le h.rx_le
          tx := h.tx, rx := h.rx, ends := h.ends }
  | sendRxDsc _ =>
      exact { tx_le := h.tx_le, rx_le := h.rx_le, tx := h.tx, rx := h.rx, ends := h.ends }
  | enter _ => exact absurd rfl hcall
  | step _ => exact h.step hloop _ _

/-! ## What was read -/

/-- Where nothing was found, all that was stored then is read. -/
def TxRead (p : PollState) : Prop :=
  Card.txDone p.txInt = false → p.txSeen ≤ p.txs.reads.length

theorem TxRead.step (h : TxRead p) (horder : InOrder p.txs) (hpass : PassAt p)
    (alloc : Option ℕ) (dmaAddr : UInt64) : TxRead (p.loopStep alloc dmaAddr) := by
  cases hpc : p.pc with
  | readTx =>
      unfold PassAt at hpass
      simp only [hpc] at hpass
      simp only [PollState.loopStep, hpc]
      intro hempty
      have hempty' : Card.txDone p.txs.card.txInt = false := hempty
      change p.txs.stored ≤ p.txs.pollStep.reads.length
      rw [TxState.pollStep, hempty', if_neg Bool.false_ne_true]
      exact Nat.le_of_eq (horder.reads_eq_stored hpass hempty').symm
  | loop =>
      simp only [PollState.loopStep, hpc]
      split
      · exact h
      · split <;> exact h
  | testTx =>
      simp only [PollState.loopStep, hpc]
      split <;> exact h
  | tx =>
      simp only [PollState.loopStep, hpc]
      split <;> exact h
  | testRx =>
      simp only [PollState.loopStep, hpc]
      split <;> exact h
  | rx pc =>
      simp only [PollState.loopStep, hpc]
      split <;> exact h
  | count =>
      simp only [PollState.loopStep, hpc]
      split <;> exact h
  | _ =>
      simp only [PollState.loopStep, hpc]
      exact h

theorem TxRead.exec (h : TxRead p) (horder : InOrder p.txs) (hpass : PassAt p)
    (hx : pollExec p op = some p') : TxRead p' := by
  cases pollStep_of_exec hx with
  | tx hop htx =>
      intro hempty
      rw [(txExec_others hop htx).2.2]
      exact h hempty
  | step _ => exact h.step horder hpass _ _
  | _ => exact h

/-! ## Runs -/

/-- A call that has returned has read the buffers. -/
def Looks (p : PollState) : Prop := p.pc = .returned → p.trace ≠ []

theorem Looks.exec (h : Looks p) (hloop : LoopOk p) (hx : pollExec p op = some p') : Looks p' := by
  cases pollStep_of_exec hx with
  | enter _ => exact fun hpc => by cases hpc
  | @step alloc dmaAddr hrunning =>
      intro hpc'
      cases hpc : p.pc with
      | loop =>
          simp only [PollState.loopStep, hpc] at hpc' ⊢
          by_cases hzero : p.tcnt = 0
          · rw [if_pos hzero]
            obtain ⟨⟨start, -, htrace⟩, -⟩ := hloop.ends hpc hzero
            change p.trace ≠ []
            simp [htrace]
          · rw [if_neg hzero] at hpc'
            split at hpc' <;> cases hpc'
      | returned => exact absurd hpc hrunning
      | testTx =>
          simp only [PollState.loopStep, hpc] at hpc'
          split at hpc' <;> cases hpc'
      | tx =>
          simp only [PollState.loopStep, hpc] at hpc'
          split at hpc'
          · cases hpc'
          · split at hpc' <;> cases hpc'
      | testRx =>
          simp only [PollState.loopStep, hpc] at hpc'
          split at hpc' <;> cases hpc'
      | rx pc =>
          simp only [PollState.loopStep, hpc] at hpc'
          split at hpc' <;> cases hpc'
      | count =>
          simp only [PollState.loopStep, hpc] at hpc'
          split at hpc' <;> cases hpc'
      | _ =>
          simp only [PollState.loopStep, hpc] at hpc'
          cases hpc'
  | _ => exact h

/-- What holds in every state. -/
structure Reached (p : PollState) : Prop where
  polls : Polls p
  flagged : Flagged p

theorem reached_probed (raw : Card) : Reached (pollProbed raw) where
  polls := polls_probed raw
  flagged := fun _ => Or.inr (Or.inr (Or.inl rfl))

theorem Reached.exec (h : Reached p) (hx : pollExec p op = some p') : Reached p' where
  polls := h.polls.exec hx
  flagged := h.flagged.exec h.polls.loop hx

theorem Reached.run (h : Reached p) {ops : List PollOp} (hrun : ops.foldlM pollExec p = some p') :
    Reached p' :=
  Lib.run_invariant (fun _ _ _ _ h hx => h.exec hx) h hrun

/-- What holds in every state of a run that stores in free slots only. -/
structure Ordered (p : PollState) : Prop where
  reached : Reached p
  inOrder : InOrder p.txs
  txRead : TxRead p

theorem ordered_probed (raw : Card) : Ordered (pollProbed raw) where
  reached := reached_probed raw
  inOrder := inOrder_probed raw
  txRead := fun _ => Nat.le_refl 0

theorem Ordered.exec (h : Ordered p) (hfree : FreeSlots p op) (hx : pollExec p op = some p') :
    Ordered p' where
  reached := h.reached.exec hx
  inOrder := h.inOrder.pollExec h.reached.polls.pass hfree hx
  txRead := h.txRead.exec h.inOrder h.reached.polls.pass hx

/-- `work_handler` ends after a number of statements that the completions bound, whatever the
card stores and the other CPUs do meanwhile.  When it returns, the interrupts are enabled, and
an iteration that started after that has found both buffers empty at the read pointers.  What
was stored while the interrupts were disabled is handled then: all receptions, and all
transmissions where the card stores only in slots that were invalidated. -/
theorem polling_serves (raw : Card) (before ops : List PollOp) {p₀ : PollState}
    (hbefore : before.foldlM pollExec (pollProbed raw) = some p₀)
    (hrun : (.enter :: ops).foldlM pollExec p₀ = some p) (hcall : .enter ∉ ops) :
    ops.countP PollOp.isStep ≤ 54 + 56 * (p₀.pending + ops.countP PollOp.isStore) ∧
    (p.pc ≠ .returned → ∀ alloc dmaAddr, (pollExec p (.step alloc dmaAddr)).isSome = true) ∧
    (p.pc = .returned → FoundNothing p ∧
      ∀ during after q, ops = during ++ after →
        (.enter :: during).foldlM pollExec p₀ = some q → ¬Enabling q.trace →
        q.rxStored ≤ p.rxReads ∧
          (Along pollExec FreeSlots (pollProbed raw) (before ++ .enter :: ops) →
            ∀ k < q.txs.stored, p.txs.reads.count (some k) = 1)) := by
  have h₀ : Reached p₀ := (reached_probed raw).run hbefore
  have h : Reached p := h₀.run hrun
  obtain ⟨p₁, henter, hops⟩ := Option.bind_eq_some_iff.mp hrun
  have hpc₀ : p₀.pc = .returned := by
    cases pollStep_of_exec henter with
    | tx hop _ => cases hop
    | enter hpc => exact hpc
  obtain rfl : p₀.enter = p₁ := by
    simp only [pollExec, hpc₀, Option.some.injEq] at henter
    exact henter
  refine ⟨h₀.polls.steps_le hcall hops hpc₀, fun hpc alloc dmaAddr => ?_, fun hpc => ?_⟩
  · cases hpc' : p.pc with
    | returned => exact absurd hpc' hpc
    | _ => simp only [pollExec, hpc', Option.isSome_some]
  -- the last iteration has found nothing
  have hlooks : Looks p ∧ LoopOk p :=
    Lib.run_invariant (I := fun p => Looks p ∧ LoopOk p)
      (fun _ _ _ _ h hx => ⟨h.1.exec h.2 hx, h.2.exec hx⟩)
      ⟨(fun hpc => by cases hpc), LoopOk.enter p₀⟩ hops
  have hfound : FoundNothing p := by
    obtain ⟨hlooks, hloop⟩ := hlooks
    unfold LoopOk at hloop
    simp only [hpc] at hloop
    exact hloop.resolve_left (hlooks hpc)
  refine ⟨hfound, fun during after q hsplit hduring hoff => ?_⟩
  obtain ⟨-, htxEmpty, hrxEmpty⟩ := hfound
  -- what is stored in `q` was stored before the last iteration
  have hq : Reached q := h₀.run hduring
  have hafter : after.foldlM pollExec q = some p := by
    rw [hsplit, ← List.cons_append, List.foldlM_append, hduring] at hrun
    exact hrun
  have hseen : Seen q.txs.stored q.rxStored p ∧ LoopOk p :=
    Lib.run_invariant (I := fun p => Seen q.txs.stored q.rxStored p ∧ LoopOk p)
      (fun _ op hop _ h hx =>
        ⟨h.1.exec h.2 (fun heq => hcall (by rw [hsplit, ← heq]; exact List.mem_append_right _ hop))
          hx, h.2.exec hx⟩)
      ⟨seen_of_disabled hq.flagged hq.polls.loop hoff, hq.polls.loop⟩ hafter
  obtain ⟨htxSeen, hrxSeen⟩ := hseen.1.ends (Or.inl hpc)
  obtain ⟨given, hrx⟩ := h.polls.rx
  refine ⟨Nat.le_trans hrxSeen (hrx.seen hrxEmpty), fun hfree k hk => ?_⟩
  have hordered : Ordered p := by
    refine hfree.invariant (fun _ _ _ h hfree hx => h.exec hfree hx) (ordered_probed raw) ?_
    rw [List.foldlM_append, hbefore]
    exact hrun
  have hread := hordered.txRead htxEmpty
  rw [hordered.inOrder.count_reads, if_pos (by omega)]

/-- CPU 0 calls `nf10priv_xmit` and executes it to the end. -/
def pollSend : List PollOp := .call 0 ⟨1, 60⟩ 0 :: List.replicate 12 (.xmit 0 (some 0x1000))

/-- Statements of `work_handler`. -/
def pollSteps (n : ℕ) : List PollOp := List.replicate n (.step none 0)

/-- A packet is sent and completed while `work_handler` runs. -/
def servedRun : List PollOp := pollSend ++ [.storeTx] ++ pollSteps 34

def servedState : PollState :=
  ((PollOp.enter :: servedRun).foldlM pollExec (pollProbed Card.zeroed)).get (by decide +kernel)

theorem polling_serves_servedRun :
    servedRun.countP PollOp.isStep ≤
      54 + 56 * ((pollProbed Card.zeroed).pending + servedRun.countP PollOp.isStore) ∧
    (servedState.pc ≠ .returned →
      ∀ alloc dmaAddr, (pollExec servedState (.step alloc dmaAddr)).isSome = true) ∧
    (servedState.pc = .returned → FoundNothing servedState ∧
      ∀ during after q, servedRun = during ++ after →
        (.enter :: during).foldlM pollExec (pollProbed Card.zeroed) = some q →
        ¬Enabling q.trace →
        q.rxStored ≤ servedState.rxReads ∧
          (Along pollExec FreeSlots (pollProbed Card.zeroed) ([] ++ .enter :: servedRun) →
            ∀ k < q.txs.stored, servedState.txs.reads.count (some k) = 1)) :=
  polling_serves Card.zeroed [] servedRun rfl (Option.some_get (by decide +kernel)).symm
    (by decide +kernel)

example : servedState.pc = .returned := by decide +kernel

/-- The ring is full and all is completed. -/
def filledRun : List PollOp :=
  (List.replicate 32 pollSend).flatten ++ List.replicate 32 .storeTx

def filledState : PollState :=
  (filledRun.foldlM pollExec (pollProbed Card.zeroed)).get (by decide +kernel)

/-- In its second iteration `work_handler` has disabled the interrupts, and the TX branch has
given slot 1 back.  Two more packets are sent and completed, the second in slot 1. -/
def erasedDuring : List PollOp :=
  pollSteps 22 ++ pollSend ++ pollSend ++ [.storeTx, .storeTx]

/-- The second completion arrives while the interrupts are disabled, and when `work_handler`
returns no pass has read it. -/
theorem erasedDuring_unserved :
    ∃ q p, filledRun.foldlM pollExec (pollProbed Card.zeroed) = some filledState ∧
      (.enter :: erasedDuring).foldlM pollExec filledState = some q ∧
      (pollSteps 703).foldlM pollExec q = some p ∧ ¬Enabling q.trace ∧ p.pc = .returned ∧
      33 < q.txs.stored ∧ p.txs.reads.count (some 33) = 0 := by
  have hduring : ((PollOp.enter :: erasedDuring).foldlM pollExec filledState).map
      (fun q => (cfgWrites q.trace, q.txs.stored)) = some ([(25, 0), (26, 0)], 34) := by
    decide +kernel
  have hend : ((PollOp.enter :: erasedDuring ++ pollSteps 703).foldlM pollExec filledState).map
      (fun p => (p.pc, p.txs.reads.count (some 33))) = some (.returned, 0) := by
    decide +kernel
  obtain ⟨q, hq, hwrites⟩ := Option.map_eq_some_iff.mp hduring
  obtain ⟨p, hp, hreads⟩ := Option.map_eq_some_iff.mp hend
  rw [List.foldlM_append, hq] at hp
  simp only [Prod.mk.injEq] at hwrites hreads
  refine ⟨q, p, (Option.some_get _).symm, hq, hp, ?_, hreads.1, by omega, hreads.2⟩
  -- the last write to register 26 is not 1
  rintro (hnone | ⟨before, hlast⟩)
  · rw [hwrites.1] at hnone
    cases hnone
  · rw [hwrites.1] at hlast
    have hlen := congrArg List.getLast? hlast
    simp at hlen

end CodeAnalyze.Nf10
