import CodeAnalyze.Nf10.Passes

/-!
# The counters of the TX side, interleaved

Which packets the calls of `nf10priv_xmit` have counted, and where the descriptors of those
are that the card has not completed.  With the passes, this says what the pointers and the
counter `mem_tx_dsc.cnt` are in every state reached without a failing mapping.
-/

namespace CodeAnalyze.Nf10

/-! ## Where a call is -/

namespace XmitPc

/-- `tx_lock` is held. -/
def locked : XmitPc → Bool
  | lock | book | write => false
  | _ => true

/-- The test has found room for a descriptor, and it is not counted yet. -/
def hasRoom : XmitPc → Bool
  | testPkt | reserve | map | incDsc => true
  | _ => false

/-- A descriptor is reserved, and not counted yet. -/
def reserved : XmitPc → Bool
  | map | incDsc => true
  | _ => false

/-- The packet is counted, and its descriptor is not written yet. -/
def inFlight : XmitPc → Bool
  | addPkt | stopDsc | stopPkt | stop | unlock | book | write => true
  | _ => false

/-- No lock is taken, no room is found, nothing is reserved and nothing is counted. -/
abbrev LeadsTo (pc pc' : XmitPc) : Prop :=
  (pc'.locked = true → pc.locked = true ∧ pc ≠ .unlock) ∧
    (pc'.hasRoom = true → pc.hasRoom = true) ∧
    (pc'.reserved = true → pc.reserved = true) ∧
    (pc'.inFlight = true → pc.inFlight = true)

theorem locked_of_hasRoom {pc : XmitPc} (h : pc.hasRoom = true) : pc.locked = true := by
  cases pc <;> first | rfl | cases h

theorem hasRoom_of_reserved {pc : XmitPc} (h : pc.reserved = true) : pc.hasRoom = true := by
  cases pc <;> first | rfl | cases h

theorem reserved_eq_false {pc : XmitPc} (hmap : pc ≠ .map) (hinc : pc ≠ .incDsc) :
    pc.reserved = false := by
  cases pc <;> first | rfl | contradiction

end XmitPc

/-- A call goes on with the descriptor it has. -/
structure XmitCall.Onward (x x' : XmitCall) : Prop where
  dscAddr : x'.dscAddr = x.dscAddr
  clSize : x'.clSize = x.clSize
  pc : x.pc.LeadsTo x'.pc

theorem XmitCall.Onward.dscIndex {x x' : XmitCall} (h : x.Onward x') :
    x'.dscIndex = x.dscIndex :=
  congrArg Ring.index h.dscAddr

/-! ## The invariants -/

/-- A call has the lock where it needs it, and the room that it has found. -/
structure Held (s : TxState) (cpu : ℕ) (x : XmitCall) : Prop where
  lock : x.pc.locked = true → s.txLock = some cpu
  room : x.pc.hasRoom = true → s.card.tx.dsc.cnt.toNat < ringSize

/-- All calls have. -/
def Holds (s : TxState) : Prop := ∀ cpu x, s.xmits cpu = some x → Held s cpu x

/-- A call and the packets counted. -/
structure CallOk (s : TxState) (cpu : ℕ) (x : XmitCall) : Prop extends Held s cpu x where
  reserved : x.pc.reserved = true →
    x.dscAddr.toNat = 64 * (s.counted.length % ringSize) ∧
      s.card.tx.dsc.wrPtr.toNat = 64 * ((s.counted.length + 1) % ringSize)
  inFlight : x.pc.inFlight = true →
    s.published x.dscIndex = false ∧
      ∃ k, s.stored ≤ k ∧ s.counted[k]? = some x.clSize ∧ x.dscIndex = k % ringSize

/-- The calls, and the descriptors that are written. -/
structure Calls (s : TxState) : Prop where
  call : ∀ cpu x, s.xmits cpu = some x → CallOk s cpu x
  apart : ∀ cpu cpu' x x', s.xmits cpu = some x → s.xmits cpu' = some x' →
    x.pc.inFlight = true → x'.pc.inFlight = true → x.dscIndex = x'.dscIndex → cpu = cpu'
  wrPtr : (∀ cpu x, s.xmits cpu = some x → x.pc.reserved = false) →
    s.card.tx.dsc.wrPtr.toNat = 64 * (s.counted.length % ringSize)
  published : ∀ i, s.published i = true →
    ∃ k, s.stored ≤ k ∧ k < s.counted.length ∧ i = k % ringSize

theorem Calls.holds {s : TxState} (hc : Calls s) : Holds s :=
  fun cpu x hx => (hc.call cpu x hx).toHeld

structure Counters (s : TxState) : Prop where
  passes : Passes s
  calls : Calls s

theorem counters_probed (raw : Card) : Counters (txProbed raw) where
  passes := passes_probed raw
  calls :=
    { call := fun cpu x h => by cases h
      apart := fun cpu cpu' x x' h => by cases h
      wrPtr := fun _ => rfl
      published := fun i h => by cases h }

/-! ## The statements -/

namespace Card

variable (c : Card) (dma : Option UInt64) (x : XmitCall)

/-- Two statements touch `mem_tx_dsc`. -/
theorem xmitStatement_dsc (hreserve : x.pc ≠ .reserve) (hinc : x.pc ≠ .incDsc) :
    (c.xmitStatement dma x).1.tx.dsc = c.tx.dsc := by
  obtain ⟨pc, skb, port, pktAddr, dscAddr, dmaAddr⟩ := x
  cases pc with
  | reserve => exact absurd rfl hreserve
  | incDsc => exact absurd rfl hinc
  | map => cases dma <;> rfl
  | _ => rfl

/-- One of them counts a descriptor. -/
theorem xmitStatement_cnt :
    (c.xmitStatement dma x).1.tx.dsc.cnt =
      if x.pc = .incDsc then c.tx.dsc.cnt + 1 else c.tx.dsc.cnt := by
  split
  · rename_i hinc
    simp only [xmitStatement, hinc]
    rfl
  · rename_i hinc
    by_cases hreserve : x.pc = .reserve
    · simp only [xmitStatement, hreserve]
      rfl
    · rw [xmitStatement_dsc _ _ _ hreserve hinc]

/-- The statements that take no lock, find no room for a descriptor, reserve none and count
none only go on. -/
theorem onward_xmitStatement {x' : XmitCall} (hnext : (c.xmitStatement dma x).2 = some x')
    (hlock : x.pc ≠ .lock) (htest : x.pc ≠ .testDsc) (hreserve : x.pc ≠ .reserve)
    (hinc : x.pc ≠ .incDsc) : x.Onward x' := by
  have hgoto (pc : XmitPc) (hpc : x.pc.LeadsTo pc) (hx' : some (x.goto pc) = some x') :
      x.Onward x' := by
    obtain rfl := Option.some.inj hx'
    exact ⟨rfl, rfl, hpc⟩
  unfold xmitStatement at hnext
  split at hnext <;> rename_i hpc
  · exact absurd hpc hlock
  · exact absurd hpc htest
  · exact hgoto _ (by rw [hpc]; split <;> decide) hnext
  · exact absurd hpc hreserve
  · -- the mapping fails or succeeds
    cases dma with
    | none => exact hgoto .fail (by rw [hpc]; decide) hnext
    | some dmaAddr =>
        have hleads : XmitPc.LeadsTo .map .incDsc := by decide
        obtain rfl := Option.some.inj hnext
        exact ⟨rfl, rfl, by rw [hpc]; exact hleads⟩
  · exact absurd hpc hinc
  · exact hgoto .stopDsc (by rw [hpc]; decide) hnext
  · exact hgoto _ (by rw [hpc]; split <;> decide) hnext
  · exact hgoto _ (by rw [hpc]; split <;> decide) hnext
  · exact hgoto .unlock (by rw [hpc]; decide) hnext
  · exact hgoto .book (by rw [hpc]; decide) hnext
  · exact hgoto .write (by rw [hpc]; decide) hnext
  · cases hnext
  · cases hnext

end Card

variable {s s' : TxState} {cpu : ℕ} {x : XmitCall} {dma : Option UInt64}

/-! ## A packet is counted -/

theorem length_counted_xmitStep (s : TxState) (cpu : ℕ) (dma : Option UInt64) (x : XmitCall) :
    (s.xmitStep cpu dma x).counted.length =
      s.counted.length + if x.pc = .incDsc then 1 else 0 := by
  by_cases hinc : x.pc = .incDsc <;> simp [TxState.xmitStep, hinc]

/-- A statement of a call counts a packet, or none. -/
theorem Held.toNat_cnt_xmitStep (h : Held s cpu x) (dma : Option UInt64) :
    (s.xmitStep cpu dma x).card.tx.dsc.cnt.toNat =
      s.card.tx.dsc.cnt.toNat + if x.pc = .incDsc then 1 else 0 := by
  have hstatement := s.card.xmitStatement_cnt dma x
  by_cases hinc : x.pc = .incDsc
  · have hroom := h.room (by rw [hinc]; rfl)
    rw [if_pos hinc] at hstatement ⊢
    rw [TxState.xmitStep, hstatement]
    exact Lib.toNat_add_of_lt (by simp [ringSize] at *; omega)
  · rw [if_neg hinc] at hstatement ⊢
    rw [TxState.xmitStep, hstatement]
    rfl

theorem Passes.xmit (hs : Passes s) (hheld : Held s cpu x) : Passes (s.xmitStep cpu dma x) := by
  have hlen := length_counted_xmitStep s cpu dma x
  have hcnt := hheld.toNat_cnt_xmitStep dma
  have hfits : (s.xmitStep cpu dma x).card.tx.dsc.cnt.toNat ≤ ringSize := by
    have hle := hs.dscFits
    by_cases hinc : x.pc = .incDsc
    · have hroom := hheld.room (by rw [hinc]; rfl)
      rw [hcnt, if_pos hinc]
      omega
    · rw [hcnt, if_neg hinc]
      exact hle
  refine hs.frame (hs.toCompletions.xmit cpu dma x) rfl rfl ?_ hfits ?_
  · rw [hcnt, hlen]
    omega
  · rw [hlen]
    omega

/-! ## The lock and the room -/

/-- The call of another CPU, after a step. -/
theorem Held.other {y : XmitCall} (hy : Held s cpu y)
    (hlocked : y.pc.locked = true → s'.txLock = s.txLock ∧ s'.card.tx.dsc = s.card.tx.dsc) :
    Held s' cpu y where
  lock := fun h => (hlocked h).1.trans (hy.lock h)
  room := fun h => by
    rw [(hlocked (XmitPc.locked_of_hasRoom h)).2]
    exact hy.room h

/-- A call that has found no room needs the lock at most. -/
theorem Held.of_noRoom (hlock : x.pc.locked = true → s.txLock = some cpu)
    (hroom : x.pc.hasRoom = false) : Held s cpu x where
  lock := hlock
  room := fun h => absurd (h.symm.trans hroom) (by decide)

/-- There is room, or the call fails. -/
theorem Held.xmit_testDsc {x' : XmitCall} (hs : Passes s) (h : Held s cpu x)
    (htest : x.pc = .testDsc) (hnext : (s.card.xmitStatement dma x).2 = some x') :
    Held (s.xmitStep cpu dma x) cpu x' := by
  have hheld : (s.xmitStep cpu dma x).txLock = some cpu := by
    simp only [TxState.xmitStep, TxState.lockAfter, htest]
    exact h.lock (by rw [htest]; rfl)
  simp only [Card.xmitStatement, htest, Option.some.injEq] at hnext
  subst hnext
  by_cases hfits : s.card.tx.dsc.cnt + 1 ≤ s.card.tx.dsc.clSize
  · rw [if_pos hfits]
    exact
      { lock := fun _ => hheld
        room := fun _ => by
          simp only [TxState.xmitStep, Card.xmitStatement, htest]
          exact hs.room_iff.mp hfits }
  · rw [if_neg hfits]
    exact .of_noRoom (fun _ => hheld) rfl

/-- A statement that only goes on leaves the lock and the room. -/
theorem Held.xmit_onward {x' : XmitCall} (h : Held s cpu x) (hon : x.Onward x')
    (hnext : (s.card.xmitStatement dma x).2 = some x') (hreserve : x.pc ≠ .reserve)
    (hinc : x.pc ≠ .incDsc) : Held (s.xmitStep cpu dma x) cpu x' := by
  obtain ⟨hlocked, hroom, -, -⟩ := hon.pc
  refine { lock := fun h' => ?_, room := fun h' => ?_ }
  · obtain ⟨hheld, hunlock⟩ := hlocked h'
    have hlock : x.pc ≠ .lock := by
      intro hpc
      rw [hpc] at hheld
      cases hheld
    have hfail : x.pc ≠ .fail := by
      intro hpc
      simp [Card.xmitStatement, hpc] at hnext
    have hsame : (s.xmitStep cpu dma x).txLock = s.txLock := by
      simp only [TxState.xmitStep, TxState.lockAfter]
    exact hsame.trans (h.lock hheld)
  · have hdsc : (s.xmitStep cpu dma x).card.tx.dsc = s.card.tx.dsc :=
      s.card.xmitStatement_dsc dma x hreserve hinc
    rw [hdsc]
    exact h.room (hroom h')

/-- The call that has executed a statement. -/
theorem Held.xmit {x' : XmitCall} (hs : Passes s) (h : Held s cpu x)
    (hnext : (s.card.xmitStatement dma x).2 = some x') :
    Held (s.xmitStep cpu dma x) cpu x' := by
  by_cases hlock : x.pc = .lock
  · -- the lock is taken
    simp only [Card.xmitStatement, hlock, Option.some.injEq] at hnext
    subst hnext
    exact .of_noRoom (fun _ => by simp [TxState.xmitStep, TxState.lockAfter, hlock]) rfl
  by_cases htest : x.pc = .testDsc
  · exact h.xmit_testDsc hs htest hnext
  by_cases hreserve : x.pc = .reserve
  · have hheld := h.lock (by rw [hreserve]; rfl)
    have hroom := h.room (by rw [hreserve]; rfl)
    simp only [Card.xmitStatement, hreserve, Option.some.injEq] at hnext
    subst hnext
    refine { lock := fun _ => ?_, room := fun _ => ?_ }
    · simp only [TxState.xmitStep, TxState.lockAfter, hreserve]
      exact hheld
    · simp only [TxState.xmitStep, Card.xmitStatement, hreserve]
      exact hroom
  by_cases hinc : x.pc = .incDsc
  · have hheld := h.lock (by rw [hinc]; rfl)
    simp only [Card.xmitStatement, hinc, Option.some.injEq] at hnext
    subst hnext
    refine .of_noRoom (fun _ => ?_) rfl
    simp only [TxState.xmitStep, TxState.lockAfter, hinc]
    exact hheld
  · have hon := s.card.onward_xmitStatement dma x hnext hlock htest hreserve hinc
    exact h.xmit_onward hon hnext hreserve hinc

/-- A call that holds the lock is the only one. -/
theorem Holds.holder_eq {cpu' : ℕ} {y : XmitCall} (h : Holds s) (hx : s.xmits cpu = some x)
    (hy : s.xmits cpu' = some y) (hxl : x.pc.locked = true) (hyl : y.pc.locked = true) :
    cpu = cpu' :=
  Option.some.inj (((h cpu x hx).lock hxl).symm.trans ((h cpu' y hy).lock hyl))

/-- Another call holds the lock, so that the statement takes no lock, reserves nothing and
counts nothing. -/
theorem Holds.kept_xmitStep {cpu' : ℕ} {y : XmitCall} (h : Holds s) (hx : s.xmits cpu = some x)
    (hfree : x.pc = .lock → s.txLock = none) (hne : cpu' ≠ cpu) (hy : s.xmits cpu' = some y)
    (hlocked : y.pc.locked = true) :
    (s.xmitStep cpu dma x).txLock = s.txLock ∧
      (s.xmitStep cpu dma x).card.tx.dsc = s.card.tx.dsc ∧
      (s.xmitStep cpu dma x).counted = s.counted := by
  have hheld := (h cpu' y hy).lock hlocked
  have hxl : ¬ x.pc.locked = true := fun hl => hne (h.holder_eq hx hy hl hlocked).symm
  have hlock : x.pc ≠ .lock := by
    intro hpc
    rw [hfree hpc] at hheld
    cases hheld
  have hreserve : x.pc ≠ .reserve := fun hpc => hxl (by rw [hpc]; rfl)
  have hinc : x.pc ≠ .incDsc := fun hpc => hxl (by rw [hpc]; rfl)
  have hunlock : x.pc ≠ .unlock := fun hpc => hxl (by rw [hpc]; rfl)
  have hfail : x.pc ≠ .fail := fun hpc => hxl (by rw [hpc]; rfl)
  refine ⟨?_, s.card.xmitStatement_dsc dma x hreserve hinc, if_neg hinc⟩
  simp only [TxState.xmitStep, TxState.lockAfter]

theorem Holds.xmit (hs : Passes s) (h : Holds s) (hx : s.xmits cpu = some x)
    (hfree : x.pc = .lock → s.txLock = none) : Holds (s.xmitStep cpu dma x) := by
  intro cpu' y hy
  rcases xmits_xmitStep hy with ⟨rfl, hnext⟩ | ⟨hne, hy⟩
  · exact (h cpu' x hx).xmit hs hnext
  · refine (h cpu' y hy).other fun hlocked => ⟨?_, ?_⟩
    · exact (h.kept_xmitStep hx hfree hne hy hlocked).1
    · exact (h.kept_xmitStep hx hfree hne hy hlocked).2.1

/-- Where the handler or the card executes a step. -/
theorem Holds.frame (h : Holds s) (hxmits : s'.xmits = s.xmits) (hlock : s'.txLock = s.txLock)
    (hcnt : s'.card.tx.dsc.cnt.toNat ≤ s.card.tx.dsc.cnt.toNat) : Holds s' := by
  intro cpu y hy
  rw [hxmits] at hy
  have hheld := h cpu y hy
  exact
    { lock := fun hl => hlock.trans (hheld.lock hl)
      room := fun hr => Nat.lt_of_le_of_lt hcnt (hheld.room hr) }

/-- A new call holds nothing. -/
theorem Holds.start {skb : SkBuff} {port : Port} (h : Holds s) :
    Holds (s.callStep cpu skb port) := by
  intro cpu' y hy
  rcases xmits_callStep hy with hpc | hy
  · exact .of_noRoom (fun hl => by rw [hpc] at hl; cases hl) (by rw [hpc]; rfl)
  · exact (h cpu' y hy).other fun _ => ⟨rfl, rfl⟩

/-- A pass gives descriptors back only. -/
theorem Passes.cnt_passStep_le {pc : TxPc} (hs : Passes s) (hpc : s.handler = some pc) :
    (s.passStep pc).card.tx.dsc.cnt.toNat ≤ s.card.tx.dsc.cnt.toNat := by
  cases pc with
  | decDsc i =>
      obtain ⟨-, hold⟩ := past_passStep_self hs.toAligned hpc (by simp [TxPc.rank])
      have hcnt : s.past 3 + s.card.tx.dsc.cnt.toNat = s.counted.length := hs.dscCnt
      have hreads := hs.reads_le
      have hstored := hs.stored_le
      simp only [TxPc.rank] at hold
      have hdec : (s.card.tx.dsc.cnt - 1).toNat + 1 = s.card.tx.dsc.cnt.toNat :=
        Lib.toNat_sub_add (UInt64.le_iff_toNat_le.mpr (by simp; omega))
      change (s.card.tx.dsc.cnt - 1).toNat ≤ s.card.tx.dsc.cnt.toNat
      omega
  | _ => exact Nat.le_refl _

variable {op : TxOp}

theorem Holds.step (hs : Passes s) (h : Holds s) (hx : txExec s op = some s') : Holds s' := by
  cases txStep_of_exec hx with
  | call _ => exact h.start
  | xmit hcall hfree => exact h.xmit hs hcall hfree
  | store _ => exact h.frame rfl rfl (Nat.le_refl _)
  | poll _ =>
      unfold TxState.pollStep
      split
      · exact h.frame rfl rfl (Nat.le_refl _)
      · exact h
  | pass hpc => exact h.frame rfl rfl (hs.cnt_passStep_le hpc)

/-! ## The calls -/

/-- The call of another CPU, after a step. -/
theorem CallOk.other {y : XmitCall} (hy : CallOk s cpu y)
    (hlocked : y.pc.locked = true →
      s'.txLock = s.txLock ∧ s'.card.tx.dsc = s.card.tx.dsc ∧ s'.counted = s.counted)
    (hstored : y.pc.inFlight = true → ∀ k, s.stored ≤ k → y.dscIndex = k % ringSize →
      s.counted[k]? = some y.clSize → s'.stored ≤ k)
    (hcounted : s.counted <+: s'.counted)
    (hpublished : y.pc.inFlight = true → s.published y.dscIndex = false →
      s'.published y.dscIndex = false) : CallOk s' cpu y where
  toHeld := hy.toHeld.other fun h => ⟨(hlocked h).1, (hlocked h).2.1⟩
  reserved := fun h => by
    obtain ⟨-, hdsc, hlen⟩ := hlocked (XmitPc.locked_of_hasRoom (XmitPc.hasRoom_of_reserved h))
    rw [hdsc, hlen]
    exact hy.reserved h
  inFlight := fun h => by
    obtain ⟨hfree, k, hk, hsize, hslot⟩ := hy.inFlight h
    refine ⟨hpublished h hfree, k, hstored h k hk hslot hsize, ?_, hslot⟩
    obtain ⟨hlt, hget⟩ := List.getElem?_eq_some_iff.mp hsize
    rw [List.getElem?_eq_getElem (Nat.lt_of_lt_of_le hlt hcounted.length_le),
      ← hcounted.getElem hlt, hget]

/-- A descriptor is reserved by the call that holds the lock. -/
theorem Calls.wrPtr_of_locked (hc : Calls s) (hx : s.xmits cpu = some x)
    (hlocked : x.pc.locked = true) (hreserved : x.pc.reserved = false) :
    s.card.tx.dsc.wrPtr.toNat = 64 * (s.counted.length % ringSize) := by
  refine hc.wrPtr fun cpu' y hy => ?_
  by_contra hne
  have hyr : y.pc.reserved = true := Bool.eq_true_of_not_eq_false hne
  have hyl := XmitPc.locked_of_hasRoom (XmitPc.hasRoom_of_reserved hyr)
  obtain rfl := hc.holds.holder_eq hx hy hlocked hyl
  obtain rfl := Option.some.inj (hx.symm.trans hy)
  exact hne hreserved

/-- A call that has reserved nothing and counted nothing. -/
theorem CallOk.of_held (h : Held s cpu x) (hreserved : x.pc.reserved = false)
    (hinFlight : x.pc.inFlight = false) : CallOk s cpu x where
  toHeld := h
  reserved := fun h' => absurd (h'.symm.trans hreserved) (by decide)
  inFlight := fun h' => absurd (h'.symm.trans hinFlight) (by decide)

/-- The descriptor at the write pointer is reserved. -/
theorem CallOk.xmit_reserve {x' : XmitCall} (hs : Passes s) (hc : Calls s)
    (hx : s.xmits cpu = some x) (hreserve : x.pc = .reserve)
    (hnext : (s.card.xmitStatement dma x).2 = some x') :
    CallOk (s.xmitStep cpu dma x) cpu x' := by
  have hwr := hc.wrPtr_of_locked hx (by rw [hreserve]; rfl) (by rw [hreserve]; rfl)
  have hheld := (hc.holds cpu x hx).xmit hs hnext
  simp only [Card.xmitStatement, hreserve, Option.some.injEq] at hnext
  subst hnext
  refine
    { toHeld := hheld
      reserved := fun _ => ?_
      inFlight := fun h => absurd h Bool.false_ne_true }
  have hcounted : (s.xmitStep cpu dma x).counted = s.counted := by
    simp [TxState.xmitStep, hreserve]
  have hnew : (s.xmitStep cpu dma x).card.tx.dsc.wrPtr =
      (s.card.tx.dsc.wrPtr + 64) &&& s.card.tx.dsc.mask := by
    simp only [TxState.xmitStep, Card.xmitStatement, hreserve]
    rfl
  rw [hcounted]
  refine ⟨hwr, ?_⟩
  calc (s.xmitStep cpu dma x).card.tx.dsc.wrPtr.toNat
      = (s.card.tx.dsc.wrPtr.toNat + (64 : UInt64).toNat) % 2 ^ 11 := by
        rw [hnew]
        exact Lib.toNat_add_and_mask (by decide) (by rw [hs.setUp.dscMask]; rfl)
    _ = (64 * (s.counted.length % ringSize) + 64) % 2 ^ 11 := by rw [hwr]; rfl
    _ = 64 * ((s.counted.length + 1) % ringSize) := by simp only [ringSize]; omega

/-- The packet gets its number. -/
theorem CallOk.xmit_incDsc {x' : XmitCall} (hs : Passes s) (hc : Calls s)
    (hx : s.xmits cpu = some x) (hinc : x.pc = .incDsc)
    (hnext : (s.card.xmitStatement dma x).2 = some x') :
    CallOk (s.xmitStep cpu dma x) cpu x' := by
  have h := hc.call cpu x hx
  have hheld := h.toHeld.xmit hs hnext
  have hroom := h.room (by rw [hinc]; rfl)
  have hindex := Ring.index_eq (h.reserved (by rw [hinc]; rfl)).1
  have hturn := hs.turn
  simp only [Card.xmitStatement, hinc, Option.some.injEq] at hnext
  subst hnext
  refine
    { toHeld := hheld
      reserved := fun h => absurd h Bool.false_ne_true
      inFlight := fun _ => ⟨?_, s.counted.length, hs.stored_le, ?_, hindex⟩ }
  · simp only [TxState.xmitStep, hinc]
    -- a descriptor that is written has a number less than a turn before
    by_contra hne
    obtain ⟨k, hk, hlt, hslot⟩ := hc.published _ (Bool.eq_true_of_not_eq_false hne)
    have hmod : k % ringSize = s.counted.length % ringSize := hslot.symm.trans hindex
    have := Lib.Ring.eq_of_mod_eq (Nat.le_of_lt hlt) (by omega) hmod
    omega
  · simp [TxState.xmitStep, hinc]

/-- Nothing that the call depends on is changed. -/
theorem CallOk.xmit_onward {x' : XmitCall} (h : CallOk s cpu x) (hon : x.Onward x')
    (hnext : (s.card.xmitStatement dma x).2 = some x') (hreserve : x.pc ≠ .reserve)
    (hinc : x.pc ≠ .incDsc) : CallOk (s.xmitStep cpu dma x) cpu x' := by
  obtain ⟨-, -, hreserved, hinFlight⟩ := hon.pc
  have hdsc : (s.xmitStep cpu dma x).card.tx.dsc = s.card.tx.dsc :=
    s.card.xmitStatement_dsc dma x hreserve hinc
  have hcounted : (s.xmitStep cpu dma x).counted = s.counted := if_neg hinc
  have hwrite : x.pc ≠ .write := by
    intro hpc
    simp [Card.xmitStatement, hpc] at hnext
  have hpublished : (s.xmitStep cpu dma x).published = s.published := if_neg hwrite
  refine
    { toHeld := h.toHeld.xmit_onward hon hnext hreserve hinc
      reserved := fun h' => ?_
      inFlight := fun h' => ?_ }
  · rw [hdsc, hcounted, hon.dscAddr]
    exact h.reserved (hreserved h')
  · rw [hpublished, hcounted, hon.dscIndex, hon.clSize]
    exact h.inFlight (hinFlight h')

/-- The call that has executed a statement. -/
theorem CallOk.xmit {x' : XmitCall} (hs : Passes s) (hc : Calls s) (hx : s.xmits cpu = some x)
    (hnext : (s.card.xmitStatement dma x).2 = some x') :
    CallOk (s.xmitStep cpu dma x) cpu x' := by
  have h := hc.call cpu x hx
  have hheld := h.toHeld.xmit hs hnext
  by_cases hlock : x.pc = .lock
  · simp only [Card.xmitStatement, hlock, Option.some.injEq] at hnext
    subst hnext
    exact .of_held hheld rfl rfl
  by_cases htest : x.pc = .testDsc
  · simp only [Card.xmitStatement, htest, Option.some.injEq] at hnext
    subst hnext
    exact .of_held hheld (by rw [XmitCall.goto_pc]; split <;> rfl)
      (by rw [XmitCall.goto_pc]; split <;> rfl)
  by_cases hreserve : x.pc = .reserve
  · exact CallOk.xmit_reserve hs hc hx hreserve hnext
  by_cases hinc : x.pc = .incDsc
  · exact CallOk.xmit_incDsc hs hc hx hinc hnext
  · have hon := s.card.onward_xmitStatement dma x hnext hlock htest hreserve hinc
    exact h.xmit_onward hon hnext hreserve hinc

/-- A call that is in flight after a statement was in flight with the same descriptor, or is
counted by this statement. -/
theorem inFlight_xmitStatement {c : Card} {x' : XmitCall}
    (hnext : (c.xmitStatement dma x).2 = some x') (hx' : x'.pc.inFlight = true) :
    x'.dscIndex = x.dscIndex ∧ (x.pc.inFlight = true ∨ x.pc = .incDsc) := by
  by_cases hlock : x.pc = .lock
  · simp only [Card.xmitStatement, hlock, Option.some.injEq] at hnext
    subst hnext
    cases hx'
  by_cases htest : x.pc = .testDsc
  · simp only [Card.xmitStatement, htest, Option.some.injEq] at hnext
    subst hnext
    rw [XmitCall.goto_pc] at hx'
    split at hx' <;> cases hx'
  by_cases hreserve : x.pc = .reserve
  · simp only [Card.xmitStatement, hreserve, Option.some.injEq] at hnext
    subst hnext
    cases hx'
  by_cases hinc : x.pc = .incDsc
  · simp only [Card.xmitStatement, hinc, Option.some.injEq] at hnext
    subst hnext
    exact ⟨rfl, Or.inr hinc⟩
  · have hon := c.onward_xmitStatement dma x hnext hlock htest hreserve hinc
    exact ⟨hon.dscIndex, Or.inl (hon.pc.2.2.2 hx')⟩

/-- A number that is not given yet has a slot of its own. -/
theorem Calls.ne_next_slot {cpu' : ℕ} {y : XmitCall} (hs : Passes s) (hc : Calls s)
    (hroom : s.card.tx.dsc.cnt.toNat < ringSize) (hy : s.xmits cpu' = some y)
    (hyf : y.pc.inFlight = true) : y.dscIndex ≠ s.counted.length % ringSize := by
  intro heq
  obtain ⟨-, k, hk, hsize, hslot⟩ := (hc.call cpu' y hy).inFlight hyf
  obtain ⟨hlt, -⟩ := List.getElem?_eq_some_iff.mp hsize
  have hturn := hs.turn
  have := Lib.Ring.eq_of_mod_eq (Nat.le_of_lt hlt) (by omega) (hslot.symm.trans heq)
  omega

/-- The packets counted stay, with one more behind them at most. -/
theorem counted_xmitStep (s : TxState) (cpu : ℕ) (dma : Option UInt64) (x : XmitCall) :
    s.counted <+: (s.xmitStep cpu dma x).counted := by
  unfold TxState.xmitStep
  dsimp only
  split
  · exact List.prefix_append _ _
  · exact List.prefix_refl _

/-- The descriptor of a call that has executed a statement is not that of another call. -/
theorem Calls.dscIndex_ne {cpu' : ℕ} {x' y : XmitCall} (hs : Passes s) (hc : Calls s)
    (hx : s.xmits cpu = some x) (hnext : (s.card.xmitStatement dma x).2 = some x')
    (hx' : x'.pc.inFlight = true) (hne : cpu' ≠ cpu) (hy : s.xmits cpu' = some y)
    (hyf : y.pc.inFlight = true) : x'.dscIndex ≠ y.dscIndex := by
  obtain ⟨hindex, hxf | hinc⟩ := inFlight_xmitStatement hnext hx'
  · intro heq
    exact hne (hc.apart cpu' cpu y x hy hx hyf hxf (heq.symm.trans hindex))
  · have h := hc.call cpu x hx
    have hslot := Ring.index_eq (h.reserved (by rw [hinc]; rfl)).1
    have hfar := hc.ne_next_slot hs (h.room (by rw [hinc]; rfl)) hy hyf
    intro heq
    exact hfar (heq.symm.trans (hindex.trans hslot))

/-- Where no call has a descriptor reserved after a statement, the write pointer is at the
next number. -/
theorem Calls.wrPtr_xmitStep (hc : Calls s) (hx : s.xmits cpu = some x)
    (hmap : x.pc = .map → dma ≠ none)
    (hnone : ∀ cpu' y, (s.xmitStep cpu dma x).xmits cpu' = some y → y.pc.reserved = false) :
    (s.xmitStep cpu dma x).card.tx.dsc.wrPtr.toNat =
      64 * ((s.xmitStep cpu dma x).counted.length % ringSize) := by
  have hself (x' : XmitCall) (hnext : (s.card.xmitStatement dma x).2 = some x') :
      x'.pc.reserved = false :=
    hnone cpu x' ((Function.update_self _ _ _).trans hnext)
  by_cases hreserve : x.pc = .reserve
  · cases hself _ (by simp only [Card.xmitStatement, hreserve]; rfl)
  by_cases hinc : x.pc = .incDsc
  · have hwr := ((hc.call cpu x hx).reserved (by rw [hinc]; rfl)).2
    have hcard : (s.xmitStep cpu dma x).card.tx.dsc.wrPtr = s.card.tx.dsc.wrPtr := by
      simp only [TxState.xmitStep, Card.xmitStatement, hinc]
      rfl
    rw [hcard, length_counted_xmitStep, if_pos hinc]
    exact hwr
  · have hcard : (s.xmitStep cpu dma x).card.tx.dsc = s.card.tx.dsc :=
      s.card.xmitStatement_dsc dma x hreserve hinc
    rw [hcard, length_counted_xmitStep, if_neg hinc, Nat.add_zero]
    refine hc.wrPtr fun cpu' y hy => ?_
    by_cases heq : cpu' = cpu
    · subst heq
      obtain rfl := Option.some.inj (hx.symm.trans hy)
      by_cases hpc : x.pc = .map
      · -- the mapping succeeds, and the descriptor stays reserved
        obtain ⟨dmaAddr, rfl⟩ := Option.ne_none_iff_exists'.mp (hmap hpc)
        cases hself _ (by simp only [Card.xmitStatement, hpc]; rfl)
      · exact XmitPc.reserved_eq_false hpc hinc
    · exact hnone cpu' y ((Function.update_of_ne heq _ _).trans hy)

/-- A descriptor is written for a packet that is counted. -/
theorem Calls.published_xmitStep (hc : Calls s) (hx : s.xmits cpu = some x) {i : ℕ}
    (hi : (s.xmitStep cpu dma x).published i = true) :
    ∃ k, s.stored ≤ k ∧ k < (s.xmitStep cpu dma x).counted.length ∧ i = k % ringSize := by
  have hlen := (counted_xmitStep s cpu dma x).length_le
  by_cases hwrite : x.pc = .write
  · obtain ⟨-, k, hk, hsize, hslot⟩ := (hc.call cpu x hx).inFlight (by rw [hwrite]; rfl)
    obtain ⟨hlt, -⟩ := List.getElem?_eq_some_iff.mp hsize
    by_cases hself : i = x.dscIndex
    · exact ⟨k, hk, Nat.lt_of_lt_of_le hlt hlen, hself.trans hslot⟩
    · simp only [TxState.xmitStep, if_pos hwrite, Function.update_of_ne hself] at hi
      obtain ⟨k, hk, hlt, hslot⟩ := hc.published i hi
      exact ⟨k, hk, Nat.lt_of_lt_of_le hlt hlen, hslot⟩
  · simp only [TxState.xmitStep, if_neg hwrite] at hi
    obtain ⟨k, hk, hlt, hslot⟩ := hc.published i hi
    exact ⟨k, hk, Nat.lt_of_lt_of_le hlt hlen, hslot⟩

theorem Calls.xmit (hs : Passes s) (hc : Calls s) (hx : s.xmits cpu = some x)
    (hfree : x.pc = .lock → s.txLock = none) (hmap : x.pc = .map → dma ≠ none) :
    Calls (s.xmitStep cpu dma x) where
  call := by
    intro cpu' y hy
    rcases xmits_xmitStep hy with ⟨rfl, hnext⟩ | ⟨hne, hy⟩
    · exact CallOk.xmit hs hc hx hnext
    · refine (hc.call cpu' y hy).other (hc.holds.kept_xmitStep hx hfree hne hy) (fun _ k hk _ _ => hk)
        (counted_xmitStep s cpu dma x) fun hyf hpub => ?_
      by_cases hwrite : x.pc = .write
      · -- the descriptor that is written is another
        have hslot : y.dscIndex ≠ x.dscIndex := fun heq =>
          hne (hc.apart cpu' cpu y x hy hx hyf (by rw [hwrite]; rfl) heq)
        simp only [TxState.xmitStep, if_pos hwrite]
        rw [Function.update_of_ne hslot]
        exact hpub
      · simp only [TxState.xmitStep, if_neg hwrite]
        exact hpub
  apart := by
    intro cpu₁ cpu₂ y₁ y₂ hy₁ hy₂ hf₁ hf₂ heq
    rcases xmits_xmitStep hy₁ with ⟨rfl, hnext₁⟩ | ⟨hne₁, hold₁⟩
    · rcases xmits_xmitStep hy₂ with ⟨rfl, -⟩ | ⟨hne₂, hold₂⟩
      · rfl
      · exact absurd heq (hc.dscIndex_ne hs hx hnext₁ hf₁ hne₂ hold₂ hf₂)
    · rcases xmits_xmitStep hy₂ with ⟨rfl, hnext₂⟩ | ⟨hne₂, hold₂⟩
      · exact absurd heq.symm (hc.dscIndex_ne hs hx hnext₂ hf₂ hne₁ hold₁ hf₁)
      · exact hc.apart cpu₁ cpu₂ y₁ y₂ hold₁ hold₂ hf₁ hf₂ heq
  wrPtr := hc.wrPtr_xmitStep hx hmap
  published := fun _ => hc.published_xmitStep hx

/-- What the calls depend on, where the handler or the card executes a step. -/
theorem Calls.frame (hc : Calls s) (hxmits : s'.xmits = s.xmits) (hlock : s'.txLock = s.txLock)
    (hcounted : s'.counted = s.counted) (hwr : s'.card.tx.dsc.wrPtr = s.card.tx.dsc.wrPtr)
    (hcnt : s'.card.tx.dsc.cnt.toNat ≤ s.card.tx.dsc.cnt.toNat)
    (hstored : ∀ cpu x, s.xmits cpu = some x → x.pc.inFlight = true → ∀ k, s.stored ≤ k →
      k < s.counted.length → x.dscIndex = k % ringSize → s'.stored ≤ k)
    (hpublished : ∀ i, s'.published i = true → s.published i = true ∧
      ∀ k, s.stored ≤ k → k < s.counted.length → i = k % ringSize → s'.stored ≤ k) :
    Calls s' where
  call := by
    intro cpu y hy
    rw [hxmits] at hy
    have h := hc.call cpu y hy
    refine
      { toHeld := hc.holds.frame hxmits hlock hcnt cpu y (by rw [hxmits]; exact hy)
        reserved := fun hr => by rw [hwr, hcounted]; exact h.reserved hr
        inFlight := fun hf => ?_ }
    obtain ⟨hfree, k, hk, hsize, hslot⟩ := h.inFlight hf
    obtain ⟨hlt, -⟩ := List.getElem?_eq_some_iff.mp hsize
    refine ⟨?_, k, hstored cpu y hy hf k hk hlt hslot, by rw [hcounted]; exact hsize, hslot⟩
    by_contra hne
    rw [(hpublished _ (Bool.eq_true_of_not_eq_false hne)).1] at hfree
    cases hfree
  apart := by rw [hxmits]; exact hc.apart
  wrPtr := by rw [hxmits, hwr, hcounted]; exact hc.wrPtr
  published := by
    intro i hi
    obtain ⟨hold, hlater⟩ := hpublished i hi
    obtain ⟨k, hk, hlt, hslot⟩ := hc.published i hold
    exact ⟨k, hlater k hk hlt hslot, by rw [hcounted]; exact hlt, hslot⟩

/-- The card completes the packet whose number is next. -/
theorem Calls.store (hc : Calls s) (hpub : s.published (s.stored % ringSize) = true) :
    Calls s.storeStep := by
  -- a number from `stored` on whose slot is another is a later one
  have hlater (k : ℕ) (hk : s.stored ≤ k) (hne : k % ringSize ≠ s.stored % ringSize) :
      s.stored + 1 ≤ k := by
    rcases Nat.eq_or_lt_of_le hk with heq | hlt
    · exact absurd (congrArg (· % ringSize) heq.symm) hne
    · exact hlt
  refine hc.frame rfl rfl rfl rfl (Nat.le_refl _) ?_ ?_
  · intro cpu x hx hf k hk _ hslot
    obtain ⟨hfree, -⟩ := (hc.call cpu x hx).inFlight hf
    refine hlater k hk fun heq => ?_
    rw [hslot, heq, hpub] at hfree
    cases hfree
  · intro i hi
    have hne : i ≠ s.stored % ringSize := by
      rintro rfl
      simp [TxState.storeStep] at hi
    have hold : s.published i = true := by
      rw [← hi]
      exact (Function.update_of_ne hne _ _).symm
    exact ⟨hold, fun k hk _ hslot => hlater k hk (by rw [← hslot]; exact hne)⟩

theorem Calls.stored_lt (hc : Calls s) (hpub : s.published (s.stored % ringSize) = true) :
    s.stored < s.counted.length := by
  obtain ⟨k, hk, hlt, -⟩ := hc.published _ hpub
  omega

theorem Calls.pass {pc : TxPc} (hs : Passes s) (hc : Calls s) (hpc : s.handler = some pc) :
    Calls (s.passStep pc) := by
  have hwr : (s.passStep pc).card.tx.dsc.wrPtr = s.card.tx.dsc.wrPtr := by cases pc <;> rfl
  exact hc.frame rfl rfl rfl hwr (hs.cnt_passStep_le hpc) (fun _ _ _ _ _ hk _ _ => hk) fun i hi =>
    ⟨hi, fun _ hk _ _ => hk⟩

theorem Calls.poll (hc : Calls s) : Calls s.pollStep := by
  unfold TxState.pollStep
  split
  · exact hc.frame rfl rfl rfl rfl (Nat.le_refl _) (fun _ _ _ _ _ hk _ _ => hk) fun i hi =>
      ⟨hi, fun _ hk _ _ => hk⟩
  · exact hc

/-- A new call holds nothing. -/
theorem Calls.start {skb : SkBuff} {port : Port} (hc : Calls s) (hidle : s.xmits cpu = none) :
    Calls (s.callStep cpu skb port) := by
  refine
    { call := fun cpu' y hy => ?_
      apart := fun cpu₁ cpu₂ y₁ y₂ hy₁ hy₂ hf₁ hf₂ heq => ?_
      wrPtr := fun hnone => hc.wrPtr fun cpu' y hy => hnone cpu' y (xmits_of_callStep hidle hy)
      published := hc.published }
  · have hheld := hc.holds.start cpu' y hy
    rcases xmits_callStep hy with hpc | hy
    · exact .of_held hheld (by rw [hpc]; rfl) (by rw [hpc]; rfl)
    · have h := hc.call cpu' y hy
      exact ⟨hheld, h.reserved, h.inFlight⟩
  · rcases xmits_callStep hy₁ with hpc | hy₁
    · rw [hpc] at hf₁
      cases hf₁
    rcases xmits_callStep hy₂ with hpc | hy₂
    · rw [hpc] at hf₂
      cases hf₂
    exact hc.apart cpu₁ cpu₂ y₁ y₂ hy₁ hy₂ hf₁ hf₂ heq

/-! ## A step -/

theorem Counters.step (h : Counters s) (hmap : MapSucceeds s op) (hx : txExec s op = some s') :
    Counters s' := by
  obtain ⟨hs, hc⟩ := h
  cases txStep_of_exec hx with
  | call hidle =>
      exact ⟨hs.frame (hs.toCompletions.call _ _ _) rfl rfl rfl hs.dscFits (Nat.le_refl _),
        hc.start hidle⟩
  | xmit hcall hfree =>
      exact ⟨hs.xmit (hc.holds _ _ hcall), hc.xmit hs hcall hfree (hmap.dma_ne_none hcall)⟩
  | store hpub => exact ⟨hs.store (hc.stored_lt hpub), hc.store hpub⟩
  | poll hpc => exact ⟨hs.poll hpc, hc.poll⟩
  | pass hpc => exact ⟨hs.pass hpc, hc.pass hs hpc⟩

end CodeAnalyze.Nf10
