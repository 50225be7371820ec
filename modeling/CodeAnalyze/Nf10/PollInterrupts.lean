import CodeAnalyze.Nf10.Calls
import CodeAnalyze.Nf10.Polling

/-!
# The interrupts, when `work_handler` returns

While the interrupts are disabled `tcnt` is at least 2, so that the loop does not end; and
while they are enabled it is in the first iteration after the writes, or in the one in which
it disables them.  The iteration that ends the loop has found both buffers empty.
-/

namespace CodeAnalyze.Nf10

/-- The register that is written, and the value. -/
def PollEvent.written : PollEvent → Option (ℕ × UInt64)
  | cfgWrite reg val => some (reg, val)
  | _ => none

/-- The writes to the configuration registers, in order. -/
def cfgWrites (trace : List PollEvent) : List (ℕ × UInt64) := trace.filterMap PollEvent.written

/-- The last writes to registers 25 and 26, if any, enable the interrupts. -/
def Enabling (trace : List PollEvent) : Prop :=
  cfgWrites trace = [] ∨ ∃ before, cfgWrites trace = before ++ [(25, 1), (26, 1)]

/-- After the writes an iteration has started, which has read both buffers. -/
def Looked (p : PollState) : Prop :=
  ∃ start, Enabling start ∧
    p.trace = start ++ [.iteration, .readTx p.card.tx.dne.rdPtr p.txInt,
      .readRx p.card.rx.dne.rdPtr p.rxInt]

/-- The last iteration started with the interrupts enabled, and found both buffers empty at
the read pointers. -/
def FoundNothing (p : PollState) : Prop :=
  Looked p ∧ Card.txDone p.txInt = false ∧ Card.rxDone p.rxInt = false

/-- `tcnt` and `work_counter` in an iteration. -/
structure InBody (p : PollState) : Prop where
  enabled : p.intEnabled = true → p.tcnt = 1 ∧ p.workCounter = 0
  disabled : p.intEnabled = false → 2 ≤ p.tcnt

/-- Where the loop is, and what that says of the interrupts. -/
def LoopOk (p : PollState) : Prop :=
  match p.pc with
  | .loop =>
    (p.intEnabled = true → p.tcnt = 0 ∧ FoundNothing p ∨
      p.tcnt = 1 ∧ p.workCounter = 0 ∧ Enabling p.trace ∨ p.tcnt = 2 ∧ p.workCounter = 1) ∧
    (p.intEnabled = false → 2 ≤ p.tcnt)
  | .disable25 => p.intEnabled = false ∧ 2 ≤ p.tcnt
  | .disable26 => p.intEnabled = false ∧ 2 ≤ p.tcnt
  | .readTx => InBody p ∧
    (p.intEnabled = true → ∃ start, Enabling start ∧ p.trace = start ++ [.iteration])
  | .readRx => InBody p ∧ p.irqDone = true ∧
    (p.intEnabled = true → ∃ start, Enabling start ∧
      p.trace = start ++ [.iteration, .readTx p.card.tx.dne.rdPtr p.txInt])
  | .testTx => InBody p ∧ p.irqDone = true ∧ (p.intEnabled = true → Looked p)
  | .tx => InBody p ∧ p.irqDone = false
  | .testRx => InBody p ∧
    (p.irqDone = true → Card.txDone p.txInt = false ∧ (p.intEnabled = true → Looked p))
  | .rx _ => InBody p ∧ p.irqDone = false
  | .count => InBody p ∧ (p.irqDone = true → p.intEnabled = true → FoundNothing p)
  | .enable25 => p.intEnabled = true ∧ p.tcnt = 1 ∧ p.workCounter = 0
  | .enable26 => p.intEnabled = true ∧ p.tcnt = 1 ∧ p.workCounter = 0 ∧
    ∃ before, cfgWrites p.trace = before ++ [(25, 1)]
  | .returned => p.trace = [] ∨ FoundNothing p

variable {p p' : PollState} {op : PollOp}

/-- What the others do changes nothing of it. -/
theorem LoopOk.others (h : LoopOk p) {txs : TxState} {rxStored : ℕ}
    (htx : txs.card.tx.dne = p.card.tx.dne) (hrx : txs.card.rx.dne = p.card.rx.dne) :
    LoopOk { p with txs := txs, rxStored := rxStored } := by
  have hlooked : Looked { p with txs := txs, rxStored := rxStored } ↔ Looked p := by
    unfold Looked PollState.card
    dsimp only
    rw [htx, hrx]
    rfl
  have hfound : FoundNothing { p with txs := txs, rxStored := rxStored } ↔ FoundNothing p :=
    and_congr_left' hlooked
  have hbody : InBody { p with txs := txs, rxStored := rxStored } ↔ InBody p :=
    ⟨fun hb => ⟨hb.enabled, hb.disabled⟩, fun hb => ⟨hb.enabled, hb.disabled⟩⟩
  have htx' : PollState.card { p with txs := txs, rxStored := rxStored } = txs.card := rfl
  unfold LoopOk at h ⊢
  simp only [hlooked, hfound, hbody, htx', htx]
  exact h

theorem cfgWrites_append (t t' : List PollEvent) :
    cfgWrites (t ++ t') = cfgWrites t ++ cfgWrites t' := List.filterMap_append

/-- An iteration that does not write leaves the interrupts as they are. -/
theorem Enabling.append {trace more : List PollEvent} (h : Enabling trace)
    (hmore : cfgWrites more = []) : Enabling (trace ++ more) := by
  unfold Enabling
  rw [cfgWrites_append, hmore, List.append_nil]
  exact h

theorem LoopOk.enter (p : PollState) : LoopOk p.enter := by
  refine ⟨fun _ => Or.inr (Or.inl ⟨rfl, rfl, Or.inl rfl⟩), fun h => ?_⟩
  cases h

/-- The loop ends only when the interrupts are enabled. -/
theorem LoopOk.ends (h : LoopOk p) (hpc : p.pc = .loop) (hzero : p.tcnt = 0) : FoundNothing p := by
  unfold LoopOk at h
  rw [hpc] at h
  obtain ⟨hon, hoff⟩ := h
  cases hint : p.intEnabled with
  | false =>
      have := hoff hint
      omega
  | true =>
      rcases hon hint with ⟨-, hfound⟩ | ⟨htcnt, -⟩ | ⟨htcnt, -⟩
      · exact hfound
      · omega
      · omega

/-- The start of an iteration, or the end of the loop. -/
theorem LoopOk.step_loop (h : LoopOk p) (hpc : p.pc = .loop) (alloc : Option ℕ)
    (dmaAddr : UInt64) : LoopOk (p.loopStep alloc dmaAddr) := by
  have hends := h.ends hpc
  unfold LoopOk at h
  rw [hpc] at h
  obtain ⟨hon, hoff⟩ := h
  simp only [PollState.loopStep, hpc]
  by_cases hzero : p.tcnt = 0
  · rw [if_pos hzero]
    exact Or.inr (hends hzero)
  rw [if_neg hzero]
  by_cases hdisable : p.intEnabled = true ∧ 0 < p.workCounter
  · rw [if_pos hdisable]
    rcases hon hdisable.1 with ⟨htcnt, -⟩ | ⟨-, hwork, -⟩ | ⟨htcnt, -⟩
    · exact absurd htcnt hzero
    · exact absurd (hwork ▸ hdisable.2) (by decide)
    · exact ⟨rfl, Nat.le_of_eq htcnt.symm⟩
  · rw [if_neg hdisable]
    -- an iteration with the interrupts enabled is the first one after the writes
    have hfirst (hint : p.intEnabled = true) :
        p.tcnt = 1 ∧ p.workCounter = 0 ∧ Enabling p.trace := by
      rcases hon hint with ⟨htcnt, -⟩ | hfirst | ⟨-, hwork⟩
      · exact absurd htcnt hzero
      · exact hfirst
      · exact absurd ⟨hint, by rw [hwork]; decide⟩ hdisable
    exact ⟨⟨fun hint => ⟨(hfirst hint).1, (hfirst hint).2.1⟩, hoff⟩,
      fun hint => ⟨p.trace, (hfirst hint).2.2, rfl⟩⟩

/-- The end of an iteration. -/
theorem LoopOk.step_count (h : LoopOk p) (hpc : p.pc = .count) (alloc : Option ℕ)
    (dmaAddr : UInt64) : LoopOk (p.loopStep alloc dmaAddr) := by
  unfold LoopOk at h
  rw [hpc] at h
  obtain ⟨hbody, hidle⟩ := h
  simp only [PollState.loopStep, hpc]
  by_cases henable : p.nextTcnt ≤ 1 ∧ p.intEnabled = false
  · rw [if_pos henable]
    exact ⟨rfl, rfl, rfl⟩
  · rw [if_neg henable]
    refine ⟨fun hint => ?_, fun hint => ?_⟩
    · obtain ⟨htcnt, hwork⟩ := hbody.enabled hint
      cases hirq : p.irqDone with
      | true =>
          refine Or.inl ⟨?_, hidle hirq hint⟩
          simp [PollState.nextTcnt, hirq, htcnt]
      | false =>
          refine Or.inr (Or.inr ⟨?_, ?_⟩)
          · simp [PollState.nextTcnt, hirq, htcnt]
          · change p.workCounter + 1 = 1
            rw [hwork]
            rfl
    · have hint' : p.intEnabled = false := hint
      change 2 ≤ p.nextTcnt
      by_contra hlt
      exact henable ⟨by omega, hint'⟩

/-- The statements that read the completion buffers, and the two tests. -/
theorem LoopOk.step_read (h : LoopOk p) (alloc : Option ℕ) (dmaAddr : UInt64)
    (hpc : p.pc = .readTx ∨ p.pc = .readRx ∨ p.pc = .testTx ∨ p.pc = .testRx) :
    LoopOk (p.loopStep alloc dmaAddr) := by
  unfold LoopOk at h
  rcases hpc with hpc | hpc | hpc | hpc <;> simp only [PollState.loopStep, hpc] at h ⊢
  · obtain ⟨hbody, hstarted⟩ := h
    refine ⟨⟨hbody.enabled, hbody.disabled⟩, rfl, fun hint => ?_⟩
    obtain ⟨start, hstart, htrace⟩ := hstarted hint
    refine ⟨start, hstart, ?_⟩
    simp [PollState.log, PollState.card, htrace, pollStep_card]
  · obtain ⟨hbody, hirq, hstarted⟩ := h
    refine ⟨⟨hbody.enabled, hbody.disabled⟩, hirq, fun hint => ?_⟩
    obtain ⟨start, hstart, htrace⟩ := hstarted hint
    refine ⟨start, hstart, ?_⟩
    simp [PollState.log, PollState.card, htrace]
  · obtain ⟨hbody, hirq, hlooked⟩ := h
    split
    · exact ⟨⟨hbody.enabled, hbody.disabled⟩, rfl⟩
    · exact ⟨⟨hbody.enabled, hbody.disabled⟩, fun _ => ⟨Bool.eq_false_iff.mpr ‹_›, hlooked⟩⟩
  · obtain ⟨hbody, hidle⟩ := h
    split
    · exact ⟨⟨hbody.enabled, hbody.disabled⟩, rfl⟩
    · refine ⟨⟨hbody.enabled, hbody.disabled⟩, fun hirq hint => ?_⟩
      exact ⟨(hidle hirq).2 hint, (hidle hirq).1, Bool.eq_false_iff.mpr ‹_›⟩

theorem LoopOk.step (h : LoopOk p) (alloc : Option ℕ) (dmaAddr : UInt64) :
    LoopOk (p.loopStep alloc dmaAddr) := by
  cases hpc : p.pc with
  | loop => exact h.step_loop hpc alloc dmaAddr
  | count => exact h.step_count hpc alloc dmaAddr
  | readTx => exact h.step_read alloc dmaAddr (Or.inl hpc)
  | readRx => exact h.step_read alloc dmaAddr (Or.inr (Or.inl hpc))
  | testTx => exact h.step_read alloc dmaAddr (Or.inr (Or.inr (Or.inl hpc)))
  | testRx => exact h.step_read alloc dmaAddr (Or.inr (Or.inr (Or.inr hpc)))
  | disable25 =>
      simp only [LoopOk, PollState.loopStep, hpc] at h ⊢
      exact h
  | disable26 =>
      simp only [LoopOk, PollState.loopStep, hpc] at h ⊢
      obtain ⟨hint, htcnt⟩ := h
      have hoff (hon : p.intEnabled = true) : False := by
        rw [hint] at hon
        cases hon
      exact ⟨⟨fun hon => (hoff hon).elim, fun _ => htcnt⟩, fun hon => (hoff hon).elim⟩
  | tx =>
      simp only [LoopOk, hpc] at h
      obtain ⟨hbody, hirq⟩ := h
      -- `irq_done` has been set to 0 in this round of the loop
      have hbusy (hdone : p.irqDone = true) : False := by
        rw [hirq] at hdone
        cases hdone
      simp only [PollState.loopStep, hpc]
      split
      · exact ⟨⟨hbody.enabled, hbody.disabled⟩, fun hdone => (hbusy hdone).elim⟩
      · split
        · exact ⟨⟨hbody.enabled, hbody.disabled⟩, fun hdone => (hbusy hdone).elim⟩
        · exact ⟨⟨hbody.enabled, hbody.disabled⟩, hirq⟩
  | rx pc =>
      simp only [LoopOk, hpc] at h
      obtain ⟨hbody, hirq⟩ := h
      have hbusy (hdone : p.irqDone = true) : False := by
        rw [hirq] at hdone
        cases hdone
      simp only [PollState.loopStep, hpc]
      split
      · exact ⟨⟨hbody.enabled, hbody.disabled⟩, hirq⟩
      · exact ⟨⟨hbody.enabled, hbody.disabled⟩, fun hdone => (hbusy hdone).elim⟩
  | enable25 =>
      simp only [LoopOk, PollState.loopStep, hpc] at h ⊢
      obtain ⟨hint, htcnt, hwork⟩ := h
      exact ⟨hint, htcnt, hwork, cfgWrites p.trace, cfgWrites_append _ _⟩
  | enable26 =>
      simp only [LoopOk, PollState.loopStep, hpc] at h ⊢
      obtain ⟨hint, htcnt, hwork, before, hwrites⟩ := h
      -- register 25 was written just before: both interrupts are enabled now
      refine ⟨fun _ => Or.inr (Or.inl ⟨htcnt, hwork, Or.inr ⟨before, ?_⟩⟩), fun hoff => ?_⟩
      · change cfgWrites (p.trace ++ [.cfgWrite 26 1]) = _
        rw [cfgWrites_append, hwrites, List.append_assoc]
        rfl
      · have hoff' : p.intEnabled = false := hoff
        rw [hint] at hoff'
        cases hoff'
  | returned =>
      simp only [LoopOk, PollState.loopStep, hpc] at h ⊢
      exact h

theorem LoopOk.exec (h : LoopOk p) (hx : pollExec p op = some p') : LoopOk p' := by
  cases pollStep_of_exec hx with
  | tx hop htx =>
      exact h.others (txExec_others hop htx).1 (congrArg Ring.dne (txExec_sameRx htx).1)
  | storeRx _ _ => exact h.others rfl rfl
  | @sendRxDsc alloc dmaAddr _ =>
      have hpost := p.card.nf10privSendRxDsc_spec dmaAddr alloc
      exact h.others (congrArg Ring.dne hpost.tx) hpost.dne
  | enter _ => exact .enter p
  | step _ => exact h.step _ _

theorem loopOk_probed (raw : Card) : LoopOk (pollProbed raw) := Or.inl rfl

end CodeAnalyze.Nf10
