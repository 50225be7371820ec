import Mathlib.Data.Finset.Card
import CodeAnalyze.Nf10.Counters

/-!
# Completions that are erased

The TX branch gives the descriptor back before it invalidates the slot.  In between a call
of `nf10priv_xmit` may fill the ring again, and the card may complete its packet: the
completion is in the slot that the TX branch then invalidates, and nobody has read it.  A
completion is erased in exactly the runs where the card stores one in that slot meanwhile,
whether or not mappings fail.
-/

namespace CodeAnalyze.Nf10

open Lib (Along)

/-- A completion that the card has stored was read by one pass, or no pass has read it and
it is still in its slot. -/
def NoneErased (s : TxState) : Prop :=
  ∀ k < s.stored, s.reads.count (some k) = 1 ∨
    s.reads.count (some k) = 0 ∧ s.tag (k % ringSize) = some k ∧
      s.card.hostTxDne (16 * (k % ringSize)) = 1

/-- The card does not store a completion where the TX branch has given the slot back and will
invalidate it next. -/
def ErasesNone (s : TxState) : TxOp → Prop
  | .store => s.handler ≠ some (.invalidate (s.stored % ringSize))
  | _ => True

instance decidableErasesNone (s : TxState) : ∀ op, Decidable (ErasesNone s op)
  | .store => inferInstanceAs (Decidable (s.handler ≠ _))
  | .call _ _ _ => .isTrue trivial
  | .xmit _ _ => .isTrue trivial
  | .handler => .isTrue trivial

variable {s s' : TxState} {op : TxOp} {cpu : ℕ} {x : XmitCall} {dma : Option UInt64}
  {cpus slots : Finset ℕ}

/-! ## The descriptors that are written -/

/-- The calls that have counted a packet and have not written its descriptor yet are on the
CPUs `cpus`, the descriptors that are written and not completed are in `slots`, and there is a
packet for each of them that is counted and not completed. -/
structure Waiting (s : TxState) (cpus slots : Finset ℕ) : Prop where
  inFlight : ∀ cpu x, s.xmits cpu = some x → x.pc.inFlight = true → cpu ∈ cpus
  published : ∀ i, s.published i = true → i ∈ slots
  card_le : s.stored + slots.card + cpus.card ≤ s.counted.length

/-- The card completes one of them. -/
theorem Waiting.store (h : Waiting s cpus slots)
    (hpub : s.published (s.stored % ringSize) = true) :
    Waiting s.storeStep cpus (slots.erase (s.stored % ringSize)) where
  inFlight := h.inFlight
  published := fun i hi => by
    have hne : i ≠ s.stored % ringSize := by
      rintro rfl
      simp [TxState.storeStep] at hi
    have hold : s.published i = true := by
      rw [← hi]
      exact (Function.update_of_ne hne _ _).symm
    exact Finset.mem_erase.mpr ⟨hne, h.published i hold⟩
  card_le := by
    have hslot := h.published _ hpub
    have hone := Finset.card_erase_add_one hslot
    have hle := h.card_le
    change s.stored + 1 + (slots.erase (s.stored % ringSize)).card + cpus.card ≤ s.counted.length
    omega

/-- The descriptor of a packet is written. -/
theorem Waiting.write (h : Waiting s cpus slots) (hx : s.xmits cpu = some x)
    (hwrite : x.pc = .write) :
    Waiting (s.xmitStep cpu dma x) (cpus.erase cpu) (insert x.dscIndex slots) where
  inFlight := fun cpu' y hy hf => by
    rcases xmits_xmitStep hy with ⟨-, hnext⟩ | ⟨hne, hold⟩
    · simp [Card.xmitStatement, hwrite] at hnext
    · exact Finset.mem_erase.mpr ⟨hne, h.inFlight cpu' y hold hf⟩
  published := fun i hi => by
    by_cases hself : i = x.dscIndex
    · exact Finset.mem_insert.mpr (.inl hself)
    · simp only [TxState.xmitStep, if_pos hwrite, Function.update_of_ne hself] at hi
      exact Finset.mem_insert_of_mem (h.published i hi)
  card_le := by
    have hone := Finset.card_erase_add_one (h.inFlight cpu x hx (by rw [hwrite]; rfl))
    have hinsert := Finset.card_insert_le x.dscIndex slots
    have hle := h.card_le
    rw [length_counted_xmitStep, hwrite]
    change s.stored + (insert x.dscIndex slots).card + (cpus.erase cpu).card ≤ _
    omega

/-- A packet is counted. -/
theorem Waiting.incDsc (h : Waiting s cpus slots) (hinc : x.pc = .incDsc) :
    Waiting (s.xmitStep cpu dma x) (insert cpu cpus) slots where
  inFlight := fun cpu' y hy hf => by
    rcases xmits_xmitStep hy with ⟨rfl, -⟩ | ⟨-, hold⟩
    · exact Finset.mem_insert_self cpu' cpus
    · exact Finset.mem_insert_of_mem (h.inFlight cpu' y hold hf)
  published := fun i hi => by
    simp only [TxState.xmitStep, hinc] at hi
    exact h.published i hi
  card_le := by
    have hinsert := Finset.card_insert_le cpu cpus
    have hle := h.card_le
    rw [length_counted_xmitStep, if_pos hinc]
    change s.stored + slots.card + (insert cpu cpus).card ≤ _
    omega

/-- Packets that wait are counted. -/
def Written (s : TxState) : Prop := ∃ cpus slots, Waiting s cpus slots

theorem written_probed (raw : Card) : Written (txProbed raw) :=
  ⟨∅, ∅,
    { inFlight := fun _ _ hx => by cases hx
      published := fun _ hi => by cases hi
      card_le := Nat.le_refl 0 }⟩

theorem Written.frame (h : Written s)
    (hxmits : ∀ cpu x, s'.xmits cpu = some x → x.pc.inFlight = true →
      ∃ y, s.xmits cpu = some y ∧ y.pc.inFlight = true)
    (hpublished : s'.published = s.published) (hstored : s'.stored = s.stored)
    (hcounted : s'.counted = s.counted) : Written s' := by
  obtain ⟨cpus, slots, h⟩ := h
  refine ⟨cpus, slots, { inFlight := fun cpu x hx hf => ?_, published := ?_, card_le := ?_ }⟩
  · obtain ⟨y, hy, hyf⟩ := hxmits cpu x hx hf
    exact h.inFlight cpu y hy hyf
  · rw [hpublished]
    exact h.published
  · rw [hstored, hcounted]
    exact h.card_le

theorem Written.xmit (h : Written s) (hx : s.xmits cpu = some x) :
    Written (s.xmitStep cpu dma x) := by
  by_cases hwrite : x.pc = .write
  · obtain ⟨_, _, h⟩ := h
    exact ⟨_, _, h.write hx hwrite⟩
  by_cases hinc : x.pc = .incDsc
  · obtain ⟨_, _, h⟩ := h
    exact ⟨_, _, h.incDsc hinc⟩
  · refine h.frame (fun cpu' y hy hf => ?_) (if_neg hwrite) rfl (if_neg hinc)
    rcases xmits_xmitStep hy with ⟨rfl, hnext⟩ | ⟨-, hold⟩
    · obtain ⟨-, hxf | hinc'⟩ := inFlight_xmitStatement hnext hf
      · exact ⟨x, hx, hxf⟩
      · exact absurd hinc' hinc
    · exact ⟨y, hold, hf⟩

theorem Written.step (h : Written s) (hx : txExec s op = some s') : Written s' := by
  cases txStep_of_exec hx with
  | call _ =>
      refine h.frame (fun cpu' y hy hf => ?_) rfl rfl rfl
      rcases xmits_callStep hy with hpc | hold
      · rw [hpc] at hf
        cases hf
      · exact ⟨y, hold, hf⟩
  | xmit hcall _ => exact h.xmit hcall
  | store hpub =>
      obtain ⟨_, _, h⟩ := h
      exact ⟨_, _, h.store hpub⟩
  | poll _ =>
      unfold TxState.pollStep
      split
      · exact h.frame (fun _ y hy hf => ⟨y, hy, hf⟩) rfl rfl rfl
      · exact h
  | pass _ => exact h.frame (fun _ y hy hf => ⟨y, hy, hf⟩) rfl rfl rfl

/-- The card completes a packet that is counted. -/
theorem Written.stored_lt (h : Written s) (hpub : s.published (s.stored % ringSize) = true) :
    s.stored < s.counted.length := by
  obtain ⟨cpus, slots, h⟩ := h
  have hpos := Finset.card_pos.mpr ⟨_, h.published _ hpub⟩
  have hle := h.card_le
  omega

/-! ## Runs that meet the condition -/

/-- The card stores the next completion. -/
theorem tag_storeStep {i k : ℕ} (htag : s.storeStep.tag i = some k) :
    i = s.stored % ringSize ∧ k = s.stored ∨ s.tag i = some k := by
  by_cases hslot : i = s.stored % ringSize
  · have hself : s.storeStep.tag i = some s.stored := by
      rw [hslot]
      exact Function.update_self _ _ _
    exact Or.inl ⟨hslot, Option.some.inj (htag.symm.trans hself)⟩
  · have hother : s.storeStep.tag i = s.tag i := Function.update_of_ne hslot _ _
    exact Or.inr (hother.symm.trans htag)

theorem tag_passStep {pc : TxPc} {i k : ℕ} (htag : (s.passStep pc).tag i = some k) :
    pc ≠ .invalidate i ∧ s.tag i = some k := by
  cases pc with
  | invalidate j =>
      by_cases hslot : i = j
      · have hself : (s.passStep (.invalidate j)).tag i = none := by
          rw [hslot]
          exact Function.update_self _ _ _
        rw [hself] at htag
        cases htag
      · have hother : (s.passStep (.invalidate j)).tag i = s.tag i :=
          Function.update_of_ne hslot _ _
        exact ⟨fun heq => hslot (TxPc.invalidate.inj heq).symm, hother.symm.trans htag⟩
  | _ => exact ⟨by simp, htag⟩

/-- What a slot holds was stored. -/
def Tagged (s : TxState) : Prop := ∀ i k, s.tag i = some k → k < s.stored

theorem Tagged.step (h : Tagged s) (hx : txExec s op = some s') : Tagged s' := by
  cases txStep_of_exec hx with
  | call _ => exact h
  | xmit _ _ => exact h
  | store _ =>
      intro i k htag
      rcases tag_storeStep htag with ⟨-, rfl⟩ | hold
      · exact Nat.lt_succ_self _
      · exact Nat.lt_succ_of_lt (h i k hold)
  | poll _ =>
      unfold TxState.pollStep
      split
      · exact h
      · exact h
  | pass _ => exact fun i k htag => h i k (tag_passStep htag).2

/-- The completions are in order, and the packets counted. -/
structure Kept (s : TxState) : Prop extends InOrder s where
  passes : Passes s
  holds : Holds s
  written : Written s
  tagged : Tagged s

theorem kept_probed (raw : Card) : Kept (txProbed raw) where
  toInOrder := inOrder_probed raw
  passes := passes_probed raw
  holds := fun _ _ hx => by cases hx
  written := written_probed raw
  tagged := fun _ _ htag => by cases htag

/-- A pass is between giving its slot back and invalidating it, or nothing is given back that
is not invalidated. -/
theorem decremented_cases (s : TxState) :
    (∃ i, s.handler = some (.invalidate i)) ∨ s.decremented = s.invalidated := by
  by_cases hpc : ∃ i, s.handler = some (.invalidate i)
  · exact Or.inl hpc
  · refine Or.inr (congrArg (s.reads.length - ·) ?_)
    cases hh : s.handler with
    | none => rfl
    | some pc =>
        rw [TxPc.ahead_some, TxPc.ahead_some]
        cases pc with
        | invalidate i => exact absurd ⟨i, hh⟩ hpc
        | _ => rfl

/-- Elsewhere the slot of the next completion was invalidated. -/
theorem Kept.room (h : Kept s) (hpub : s.published (s.stored % ringSize) = true)
    (hsafe : s.handler ≠ some (.invalidate (s.stored % ringSize))) :
    s.stored < s.invalidated + ringSize := by
  have hlt := h.written.stored_lt hpub
  have hcnt := h.passes.dscCnt
  have hfits := h.passes.dscFits
  rcases decremented_cases s with ⟨i, hpc⟩ | hsame
  · have hslot : i = s.invalidated % ringSize := (h.invalidate hpc).2
    -- the slot of a number a turn on is the one that will be invalidated
    refine Nat.lt_of_le_of_ne h.stored_le fun heq => hsafe ?_
    rw [hpc, heq, Nat.add_mod_right, hslot]
  · omega

/-- A step that erases nothing stores only where the slot was invalidated. -/
theorem Kept.freeSlot (h : Kept s) (hsafe : ErasesNone s op) (hx : txExec s op = some s') :
    FreeSlot s op := by
  cases txStep_of_exec hx with
  | store hpub => exact h.room hpub hsafe
  | call _ => trivial
  | xmit _ _ => trivial
  | poll _ => trivial
  | pass _ => trivial

theorem Kept.passes_step (h : Kept s) (hx : txExec s op = some s') : Passes s' := by
  cases txStep_of_exec hx with
  | call _ =>
      exact h.passes.frame (h.toCompletions.call _ _ _) rfl rfl rfl h.passes.dscFits
        (Nat.le_refl _)
  | xmit hcall _ => exact h.passes.xmit (h.holds _ _ hcall)
  | store hpub => exact h.passes.store (h.written.stored_lt hpub)
  | poll hpc => exact h.passes.poll hpc
  | pass hpc => exact h.passes.pass hpc

theorem Kept.step (h : Kept s) (hsafe : ErasesNone s op) (hx : txExec s op = some s') :
    Kept s' where
  toInOrder := h.toInOrder.step (h.freeSlot hsafe hx) hx
  passes := h.passes_step hx
  holds := h.holds.step h.passes hx
  written := h.written.step hx
  tagged := h.tagged.step hx

theorem Kept.noneErased (h : Kept s) : NoneErased s := by
  intro k hk
  rw [h.count_reads]
  split
  · exact Or.inl rfl
  · have hle : s.invalidated ≤ s.reads.length := past_le s 4
    obtain ⟨hword, htag⟩ := h.slots k (by omega) hk
    exact Or.inr ⟨rfl, htag, hword⟩

/-! ## A completion that is lost -/

/-- No pass has read the completion, and it is nowhere but in a slot that is invalidated
next. -/
structure Lost (k : ℕ) (s : TxState) : Prop where
  stored : k < s.stored
  unread : s.reads.count (some k) = 0
  tag : ∀ i, s.tag i = some k → s.handler = some (.invalidate i)

/-- A completion that is stored where the TX branch has given the slot back is lost. -/
theorem Kept.lost_of_store (h : Kept s)
    (hpc : s.handler = some (.invalidate (s.stored % ringSize))) :
    Lost s.stored s.storeStep where
  stored := Nat.lt_succ_self _
  unread := by
    have hreads := h.reads_le
    exact (h.count_reads _).trans (if_neg (by omega))
  tag := fun i htag => by
    rcases tag_storeStep htag with ⟨rfl, -⟩ | hold
    · exact hpc
    · exact absurd (h.tagged i _ hold) (Nat.lt_irrefl _)

/-- It stays lost. -/
theorem Lost.step {k : ℕ} (h : Lost k s) (hx : txExec s op = some s') : Lost k s' := by
  cases txStep_of_exec hx with
  | call _ => exact ⟨h.stored, h.unread, h.tag⟩
  | xmit _ _ => exact ⟨h.stored, h.unread, h.tag⟩
  | store _ =>
      have hlt := h.stored
      refine ⟨Nat.lt_succ_of_lt hlt, h.unread, fun i htag => ?_⟩
      rcases tag_storeStep htag with ⟨-, rfl⟩ | hold
      · exact absurd hlt (Nat.lt_irrefl _)
      · exact h.tag i hold
  | poll hpc =>
      -- between two passes the completion is in no slot
      have hnone (i : ℕ) : s.tag i ≠ some k := fun htag => by
        cases hpc.symm.trans (h.tag i htag)
      unfold TxState.pollStep
      split
      · refine ⟨h.stored, ?_, fun i htag => absurd htag (hnone i)⟩
        have hread : s.tag (Ring.index s.card.tx.dne.rdPtr) ≠ some k := hnone _
        rw [List.count_append, h.unread, List.count_singleton]
        simp [hread]
      · exact h
  | pass hpc =>
      refine ⟨h.stored, h.unread, fun i htag => ?_⟩
      obtain ⟨hne, hold⟩ := tag_passStep htag
      exact absurd (Option.some.inj (hpc.symm.trans (h.tag i hold))) hne

theorem Lost.not_noneErased {k : ℕ} (h : Lost k s)
    (hpc : ∀ i, s.handler ≠ some (.invalidate i)) : ¬NoneErased s := by
  intro hgood
  rcases hgood k h.stored with hone | ⟨-, htag, -⟩
  · rw [h.unread] at hone
    cases hone
  · exact hpc _ (h.tag _ htag)

/-- A run meets the condition, or a completion is lost. -/
theorem Kept.along_or_lost (h : Kept s) {ops : List TxOp} (hrun : ops.foldlM txExec s = some s') :
    Along txExec ErasesNone s ops ∨ ∃ k, Lost k s' := by
  induction ops generalizing s with
  | nil => exact Or.inl trivial
  | cons op rest ih =>
      rw [List.foldlM_cons] at hrun
      obtain ⟨mid, hmid, hrest⟩ := Option.bind_eq_some_iff.mp hrun
      by_cases hsafe : ErasesNone s op
      · refine (ih (h.step hsafe hmid) hrest).imp_left fun hlater => ⟨hsafe, fun s₁ hs₁ => ?_⟩
        obtain rfl := Option.some.inj (hmid.symm.trans hs₁)
        exact hlater
      · refine Or.inr ?_
        cases txStep_of_exec hmid with
        | store _ =>
            have hlost := h.lost_of_store (not_not.mp hsafe)
            exact ⟨_, Lib.run_invariant (fun _ _ _ _ hI hx => hI.step hx) hlost hrest⟩
        | call _ => exact absurd trivial hsafe
        | xmit _ _ => exact absurd trivial hsafe
        | poll _ => exact absurd trivial hsafe
        | pass _ => exact absurd trivial hsafe

/-! ## Every run -/

/-- In every run in which the card stores no completion in a slot that is given back and not
invalidated, each completion is read by one pass before its slot is overwritten, and when a
poll finds nothing, the packets that are counted are those that the card has not completed.  In
every other run a completion is erased, as soon as the slot is invalidated. -/
theorem none_erased (raw : Card) {ops : List TxOp}
    (hrun : ops.foldlM txExec (txProbed raw) = some s) :
    (Along txExec ErasesNone (txProbed raw) ops →
      NoneErased s ∧
        (s.handler = none → Card.txDone s.card.txInt = false →
          (∀ k < s.stored, s.reads.count (some k) = 1) ∧
            s.stored + s.card.tx.dsc.cnt.toNat = s.counted.length)) ∧
    ((∀ i, s.handler ≠ some (.invalidate i)) →
      (NoneErased s ↔ Along txExec ErasesNone (txProbed raw) ops)) := by
  have hkept (hsafe : Along txExec ErasesNone (txProbed raw) ops) : Kept s :=
    hsafe.invariant (fun _ _ _ h hsafe hx => h.step hsafe hx) (kept_probed raw) hrun
  refine ⟨fun hsafe => ⟨(hkept hsafe).noneErased, fun hpc hempty => ?_⟩, fun hpc => ?_⟩
  · have h := hkept hsafe
    have hall := h.reads_eq_stored hpc hempty
    have hcnt := h.passes.dscCnt
    have hpast : s.decremented = s.reads.length := past_of_none hpc 3
    refine ⟨fun k hk => ?_, by omega⟩
    rw [h.count_reads, if_pos (by omega)]
  · refine ⟨fun hgood => ?_, fun hsafe => (hkept hsafe).noneErased⟩
    rcases (kept_probed raw).along_or_lost hrun with hsafe | ⟨k, hlost⟩
    · exact hsafe
    · exact absurd hgood (hlost.not_noneErased hpc)

/-- The packet is completed, and the TX branch handles it. -/
def sentAndHandled : List TxOp := sendOne ++ .store :: List.replicate 12 .handler

def handledState : TxState :=
  (sentAndHandled.foldlM txExec (txProbed Card.zeroed)).get (by decide +kernel)

theorem none_erased_sentAndHandled :
    NoneErased handledState ∧
      (handledState.handler = none → Card.txDone handledState.card.txInt = false →
        (∀ k < handledState.stored, handledState.reads.count (some k) = 1) ∧
          handledState.stored + handledState.card.tx.dsc.cnt.toNat =
            handledState.counted.length) :=
  (none_erased Card.zeroed (Option.some_get (by decide +kernel)).symm).1 (by decide +kernel)

/-- The ring is full and all is completed; the TX branch gives a slot back, which is used for
another packet and completed before the slot is invalidated. -/
def refilled : List TxOp :=
  (List.replicate 32 sendOne).flatten ++ List.replicate 32 .store ++ List.replicate 5 .handler ++
    sendOne ++ [.store, .handler]

/-- The completion of the last packet is erased: no pass has read it. -/
theorem refilled_erased :
    ∃ s, refilled.foldlM txExec (txProbed Card.zeroed) = some s ∧ ¬NoneErased s := by
  have hend : (refilled.foldlM txExec (txProbed Card.zeroed)).map
      (fun s => (s.stored, s.reads.count (some 32), s.tag 0)) = some (33, 0, none) := by
    decide +kernel
  obtain ⟨s, hrun, hs⟩ := Option.map_eq_some_iff.mp hend
  simp only [Prod.mk.injEq] at hs
  obtain ⟨hstored, hcount, htag⟩ := hs
  refine ⟨s, hrun, fun hgood => ?_⟩
  rcases hgood 32 (by omega) with hone | ⟨-, hslot, -⟩
  · rw [hcount] at hone
    cases hone
  · rw [show 32 % ringSize = 0 from rfl, htag] at hslot
    cases hslot

end CodeAnalyze.Nf10
