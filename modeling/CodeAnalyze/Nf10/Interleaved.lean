import CodeAnalyze.Lib.Run
import CodeAnalyze.Nf10.Statements

/-!
# The TX side, interleaved

Any number of CPUs run `nf10priv_xmit`, one statement at a time and under `tx_lock` where
the code takes it.  `work_handler` polls and runs the TX branch on another CPU, and the card
consumes the descriptors on its own: it takes the one at its place in the ring when it is
written, and stores the completion word 1 in the slot of the same index.
-/

namespace CodeAnalyze.Nf10

/-- The driver and the card. -/
structure TxState where
  card : Card
  /-- The CPU that holds `tx_lock`. -/
  txLock : Option ℕ := none
  /-- The calls of `nf10priv_xmit` that run, by CPU. -/
  xmits : ℕ → Option XmitCall := fun _ => none
  /-- The next statement of the TX branch; `none` between two passes. -/
  handler : Option TxPc := none
  /-- The descriptors that are written and that the card has not consumed. -/
  published : ℕ → Bool := fun _ => false
  /-- The completions that the card has stored. -/
  stored : ℕ := 0
  /-- Ghost: `cl_size` of the packets counted in `mem_tx_dsc.cnt`, in order. -/
  counted : List UInt64 := []
  /-- Ghost: the number of the completion that is in a slot. -/
  tag : ℕ → Option ℕ := fun _ => none
  /-- Ghost: the completion that each pass of the TX branch has read, in order. -/
  reads : List (Option ℕ) := []

inductive TxOp
  /-- A CPU calls `nf10priv_xmit`. -/
  | call (cpu : ℕ) (skb : SkBuff) (port : Port)
  /-- It executes a statement, where the mapping would give `dma`. -/
  | xmit (cpu : ℕ) (dma : Option UInt64)
  /-- The card completes the next descriptor. -/
  | store
  /-- `work_handler` polls, or executes a statement of the TX branch. -/
  | handler

namespace TxState

variable (s : TxState)

/-- The holder of `tx_lock` when a CPU has executed the statement. -/
def lockAfter (cpu : ℕ) : XmitPc → Option ℕ
  | .lock => some cpu
  | .unlock => none
  | .fail => none
  | _ => s.txLock

/-- A call begins. -/
def callStep (cpu : ℕ) (skb : SkBuff) (port : Port) : TxState :=
  { s with xmits := Function.update s.xmits cpu (some { skb := skb, port := port }) }

/-- A statement of a call. -/
def xmitStep (cpu : ℕ) (dma : Option UInt64) (x : XmitCall) : TxState :=
  { s with
    card := (s.card.xmitStatement dma x).1
    txLock := s.lockAfter cpu x.pc
    xmits := Function.update s.xmits cpu (s.card.xmitStatement dma x).2
    published :=
      if x.pc = .write then Function.update s.published x.dscIndex true else s.published
    counted := if x.pc = .incDsc then s.counted ++ [x.clSize] else s.counted }

/-- The card stores the completion word and goes to the next descriptor. -/
def storeStep : TxState :=
  { s with
    card :=
      { s.card with
        hostTxDne := Function.update s.card.hostTxDne (16 * (s.stored % ringSize)) 1 }
    published := Function.update s.published (s.stored % ringSize) false
    stored := s.stored + 1
    tag := Function.update s.tag (s.stored % ringSize) (some s.stored) }

/-- The tags after a statement of the TX branch. -/
def tagAfter : TxPc → ℕ → Option ℕ
  | .invalidate index => Function.update s.tag index none
  | _ => s.tag

/-- A statement of the TX branch. -/
def passStep (pc : TxPc) : TxState :=
  { s with
    card := (s.card.txStatement pc).1
    handler := (s.card.txStatement pc).2
    tag := s.tagAfter pc }

/-- `work_handler` reads the completion buffer. -/
def pollStep : TxState :=
  if Card.txDone s.card.txInt then
    { s with
      handler := some .advance
      reads := s.reads ++ [s.tag (Ring.index s.card.tx.dne.rdPtr)] }
  else s

end TxState

/-- The effect of a step; `none` where it cannot happen. -/
def txExec (s : TxState) : TxOp → Option TxState
  | .call cpu skb port =>
    match s.xmits cpu with
    | none => some (s.callStep cpu skb port)
    | some _ => none
  | .xmit cpu dma =>
    match s.xmits cpu with
    | none => none
    | some x => if x.pc = .lock ∧ s.txLock ≠ none then none else some (s.xmitStep cpu dma x)
  | .store => if s.published (s.stored % ringSize) then some s.storeStep else none
  | .handler =>
    match s.handler with
    | none => some s.pollStep
    | some pc => some (s.passStep pc)

/-- The state after the ring setup of `nf10_probe`. -/
def txProbed (raw : Card) : TxState := { card := nf10ProbeRings raw }

/-- CPU 0 calls `nf10priv_xmit` and executes it to the end. -/
def sendOne : List TxOp := .call 0 ⟨1, 60⟩ 0 :: List.replicate 12 (.xmit 0 (some 0x1000))

/-- The step is not a mapping that fails. -/
def MapSucceeds (s : TxState) : TxOp → Prop
  | .xmit cpu none => (s.xmits cpu).all (fun x => x.pc ≠ .map) = true
  | _ => True

instance (s : TxState) (op : TxOp) : Decidable (MapSucceeds s op) := by
  unfold MapSucceeds
  split <;> infer_instance

/-! ## The steps -/

variable {s s' : TxState} {op : TxOp} {cpu : ℕ} {x : XmitCall} {dma : Option UInt64}

/-- What a step is. -/
inductive TxStep (s : TxState) : TxOp → TxState → Prop
  | call {cpu : ℕ} {skb : SkBuff} {port : Port} : s.xmits cpu = none →
      TxStep s (.call cpu skb port) (s.callStep cpu skb port)
  | xmit {cpu : ℕ} {dma : Option UInt64} {x : XmitCall} : s.xmits cpu = some x →
      (x.pc = .lock → s.txLock = none) → TxStep s (.xmit cpu dma) (s.xmitStep cpu dma x)
  | store : s.published (s.stored % ringSize) = true → TxStep s .store s.storeStep
  | poll : s.handler = none → TxStep s .handler s.pollStep
  | pass {pc : TxPc} : s.handler = some pc → TxStep s .handler (s.passStep pc)

theorem txStep_of_exec (hx : txExec s op = some s') : TxStep s op s' := by
  cases op with
  | call cpu skb port =>
      simp only [txExec] at hx
      split at hx
      · obtain rfl := Option.some.inj hx
        exact .call ‹_›
      · cases hx
  | xmit cpu dma =>
      simp only [txExec] at hx
      split at hx
      · cases hx
      · rw [Option.ite_none_left_eq_some, Option.some.injEq] at hx
        obtain ⟨hfree, rfl⟩ := hx
        exact .xmit ‹_› fun hlock => by_contra fun hne => hfree ⟨hlock, hne⟩
  | store =>
      simp only [txExec, Option.ite_none_right_eq_some, Option.some.injEq] at hx
      obtain ⟨hpub, rfl⟩ := hx
      exact .store hpub
  | handler =>
      simp only [txExec] at hx
      split at hx
      · obtain rfl := Option.some.inj hx
        exact .poll ‹_›
      · obtain rfl := Option.some.inj hx
        exact .pass ‹_›

/-- A call whose mapping is next gets one. -/
theorem MapSucceeds.dma_ne_none (hmap : MapSucceeds s (.xmit cpu dma)) (hx : s.xmits cpu = some x)
    (hpc : x.pc = .map) : dma ≠ none := by
  rintro rfl
  simp [MapSucceeds, hx, hpc] at hmap

/-- The calls after a new one. -/
theorem xmits_callStep {cpu' : ℕ} {skb : SkBuff} {port : Port} {y : XmitCall}
    (hy : (s.callStep cpu skb port).xmits cpu' = some y) :
    y.pc = .lock ∨ s.xmits cpu' = some y := by
  by_cases heq : cpu' = cpu
  · subst heq
    have hself : (s.callStep cpu' skb port).xmits cpu' = some { skb := skb, port := port } :=
      Function.update_self _ _ _
    obtain rfl := Option.some.inj (hself.symm.trans hy)
    exact Or.inl rfl
  · have hother : (s.callStep cpu skb port).xmits cpu' = s.xmits cpu' :=
      Function.update_of_ne heq _ _
    exact Or.inr (hother.symm.trans hy)

/-- The other calls stay. -/
theorem xmits_of_callStep {cpu' : ℕ} {skb : SkBuff} {port : Port} {y : XmitCall}
    (hidle : s.xmits cpu = none) (hy : s.xmits cpu' = some y) :
    (s.callStep cpu skb port).xmits cpu' = some y := by
  refine (Function.update_of_ne ?_ _ _).trans hy
  rintro rfl
  rw [hidle] at hy
  cases hy

/-- The calls after a statement of one of them. -/
theorem xmits_xmitStep {cpu' : ℕ} {y : XmitCall}
    (hy : (s.xmitStep cpu dma x).xmits cpu' = some y) :
    cpu' = cpu ∧ (s.card.xmitStatement dma x).2 = some y ∨ cpu' ≠ cpu ∧ s.xmits cpu' = some y := by
  by_cases heq : cpu' = cpu
  · subst heq
    have hself : (s.xmitStep cpu' dma x).xmits cpu' = (s.card.xmitStatement dma x).2 :=
      Function.update_self _ _ _
    exact Or.inl ⟨rfl, hself.symm.trans hy⟩
  · have hother : (s.xmitStep cpu dma x).xmits cpu' = s.xmits cpu' :=
      Function.update_of_ne heq _ _
    exact Or.inr ⟨heq, hother.symm.trans hy⟩

end CodeAnalyze.Nf10
