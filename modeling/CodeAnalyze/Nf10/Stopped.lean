import CodeAnalyze.Nf10.Accounts

/-!
# Stopped queues

A call stops the queue of its port after it has counted its packet and before it writes the
descriptor, so that a pass for this packet is still to come.  The pass that takes the last
packet back finds both counters zero at its two tests, and wakes all queues.
-/

namespace CodeAnalyze.Nf10

open Lib (Along)

/-- From here on a pass that finds both counters zero wakes the queue of the port. -/
def TxPc.WillWake (port : Port) : TxPc → Prop
  | invalidate _ => True
  | testDsc => True
  | testPkt => True
  | wake i => i ≤ port
  | _ => False

/-- A queue that is stopped will be woken: a packet is counted, or the pass that has taken the
last one back has not come to the queue yet. -/
def Woken (s : TxState) : Prop :=
  ∀ port, s.card.queueStopped port = true →
    0 < s.card.tx.dsc.cnt.toNat ∨ ∃ pc, s.handler = some pc ∧ pc.WillWake port

/-- A packet that is counted and not completed is in flight, or its descriptor is written. -/
def Covered (s : TxState) : Prop :=
  ∀ k, s.stored ≤ k → k < s.counted.length → s.published (k % ringSize) = true ∨
    ∃ cpu x, s.xmits cpu = some x ∧ x.pc.inFlight = true ∧ x.dscIndex = k % ringSize

variable {s s' : TxState} {op : TxOp} {cpu : ℕ} {x : XmitCall} {dma : Option UInt64}

/-! ## Waking -/

/-- A packet in flight is counted. -/
theorem Counters.cnt_pos_of_inFlight (h : Counters s) (hx : s.xmits cpu = some x)
    (hf : x.pc.inFlight = true) : 0 < s.card.tx.dsc.cnt.toNat := by
  obtain ⟨hs, hc⟩ := h
  obtain ⟨-, k, hk, hsize, -⟩ := (hc.call cpu x hx).inFlight hf
  obtain ⟨hlt, -⟩ := List.getElem?_eq_some_iff.mp hsize
  have hturn := hs.turn
  omega

/-- Without packets the packet memory is empty too. -/
theorem Accounts.pktCnt_eq_zero (h : Accounts s) (hcounters : Counters s)
    (hpc : s.handler = some .testPkt) (hcnt : s.card.tx.dsc.cnt.toNat = 0) :
    s.card.tx.pkt.cnt.toNat = 0 := by
  have hsum := h.whole fun cpu x hx hadd => by
    have := hcounters.cnt_pos_of_inFlight hx (by rw [hadd]; rfl)
    omega
  obtain ⟨hs, -⟩ := hcounters
  have hdec : s.decremented = s.reads.length := past_of_lt hpc (by decide)
  have hsub : s.subtracted = s.reads.length := past_of_lt hpc (by decide)
  have hall := hs.dscCnt
  have hpaid : s.paid = s.total := by
    rw [TxState.paid, TxState.total, List.take_of_length_le (by omega)]
  omega

theorem Woken.frame (h : Woken s) (hhandler : s'.handler = s.handler)
    (hcnt : s.card.tx.dsc.cnt.toNat ≤ s'.card.tx.dsc.cnt.toNat)
    (hstopped : s'.card.queueStopped = s.card.queueStopped) : Woken s' := by
  intro port hport
  rw [hstopped] at hport
  rw [hhandler]
  rcases h port hport with hpos | hwake
  · exact Or.inl (Nat.lt_of_lt_of_le hpos hcnt)
  · exact Or.inr hwake

namespace Card

variable (c : Card)

/-- One statement stops a queue. -/
theorem xmitStatement_queueStopped (dma : Option UInt64) (x : XmitCall) :
    (c.xmitStatement dma x).1.queueStopped =
      if x.pc = .stop then Function.update c.queueStopped x.port true else c.queueStopped := by
  unfold xmitStatement
  split <;> rename_i hpc <;> simp only [hpc]
  all_goals first | rfl | (cases dma <;> rfl)

end Card

/-- A call stops a queue while its own packet is counted. -/
theorem Woken.xmit (h : Woken s) (hcounters : Counters s) (hx : s.xmits cpu = some x) :
    Woken (s.xmitStep cpu dma x) := by
  have hcnt := (hcounters.calls.holds cpu x hx).toNat_cnt_xmitStep dma
  by_cases hstop : x.pc = .stop
  · have hpos := hcounters.cnt_pos_of_inFlight hx (by rw [hstop]; rfl)
    exact fun port _ => Or.inl (by omega)
  · exact h.frame rfl (by omega) ((s.card.xmitStatement_queueStopped dma x).trans (if_neg hstop))

/-- The tests of a pass that finds no packet hold. -/
theorem Counters.restarts (h : Counters s) (hcnt : s.card.tx.dsc.cnt.toNat = 0) :
    s.card.tx.dsc.cnt + 8 * 1 ≤ s.card.tx.dsc.clSize := by
  rw [h.passes.setUp.dscClSize, UInt64.le_iff_toNat_le, Lib.toNat_add_of_lt (by rw [hcnt]; decide),
    hcnt]
  decide

theorem Accounts.restarts (h : Accounts s) (hcounters : Counters s)
    (hpc : s.handler = some .testPkt) (hcnt : s.card.tx.dsc.cnt.toNat = 0) :
    s.card.tx.pkt.cnt + 4 * 32 ≤ s.card.tx.pkt.clSize := by
  have hpkt := h.pktCnt_eq_zero hcounters hpc hcnt
  rw [hcounters.passes.setUp.pktClSize, UInt64.le_iff_toNat_le,
    Lib.toNat_add_of_lt (by rw [hpkt]; decide), hpkt]
  decide

theorem Woken.pass {pc : TxPc} (h : Woken s) (hcounters : Counters s) (haccounts : Accounts s)
    (hpc : s.handler = some pc) : Woken (s.passStep pc) := by
  -- before the pass takes its packet back, one is counted
  have hbefore (hnot : ∀ port, ¬ pc.WillWake port) {port : Port}
      (hport : s.card.queueStopped port = true) : 0 < s.card.tx.dsc.cnt.toNat := by
    rcases h port hport with hpos | ⟨pc', hpc', hwake⟩
    · exact hpos
    · obtain rfl := Option.some.inj (hpc.symm.trans hpc')
      exact absurd hwake (hnot port)
  intro port hport
  cases pc with
  | advance => exact Or.inl (hbefore (fun _ => id) hport)
  | release i => exact Or.inl (hbefore (fun _ => id) hport)
  | subPkt i => exact Or.inl (hbefore (fun _ => id) hport)
  | decDsc i => exact Or.inr ⟨_, rfl, trivial⟩
  | invalidate i => exact Or.inr ⟨_, rfl, trivial⟩
  | testDsc =>
      rcases Nat.eq_zero_or_pos s.card.tx.dsc.cnt.toNat with hzero | hpos
      · exact Or.inr ⟨.testPkt, if_pos (hcounters.restarts hzero), trivial⟩
      · exact Or.inl hpos
  | testPkt =>
      rcases Nat.eq_zero_or_pos s.card.tx.dsc.cnt.toNat with hzero | hpos
      · exact Or.inr ⟨.wake 0, if_pos (haccounts.restarts hcounters hpc hzero), Fin.zero_le port⟩
      · exact Or.inl hpos
  | wake i =>
      -- the queue of the port is not the one that is woken
      have hne : port ≠ i := by
        rintro rfl
        have hwoken : (s.passStep (.wake port)).card.queueStopped port = false :=
          Function.update_self _ _ _
        rw [hwoken] at hport
        cases hport
      have hold : s.card.queueStopped port = true := by
        rw [← hport]
        exact (Function.update_of_ne hne _ _).symm
      rcases h port hold with hpos | ⟨pc', hpc', hwake⟩
      · exact Or.inl hpos
      · obtain rfl := Option.some.inj (hpc.symm.trans hpc')
        have hle : i ≤ port := hwake
        have hlt : i.val + 1 ≤ port.val := by
          have hval : port.val ≠ i.val := fun heq => hne (Fin.ext heq)
          have := Fin.le_def.mp hle
          omega
        have hnext : i.val + 1 < 4 := by omega
        exact Or.inr ⟨.wake ⟨i.val + 1, hnext⟩, dif_pos hnext, hlt⟩

/-- Between two passes a stopped queue has a packet that is counted. -/
theorem Woken.cnt_pos (h : Woken s) (hpc : s.handler = none) {port : Port}
    (hport : s.card.queueStopped port = true) : 0 < s.card.tx.dsc.cnt.toNat := by
  rcases h port hport with hpos | ⟨pc, hpc', -⟩
  · exact hpos
  · rw [hpc] at hpc'
    cases hpc'

theorem Woken.poll (h : Woken s) (hpc : s.handler = none) : Woken s.pollStep := by
  unfold TxState.pollStep
  split
  · exact fun port hport => Or.inl (h.cnt_pos hpc hport)
  · exact h

theorem Woken.step (h : Woken s) (hcounters : Counters s) (haccounts : Accounts s)
    (hx : txExec s op = some s') : Woken s' := by
  cases txStep_of_exec hx with
  | call _ => exact h.frame rfl (Nat.le_refl _) rfl
  | xmit hcall _ => exact h.xmit hcounters hcall
  | store _ => exact h.frame rfl (Nat.le_refl _) rfl
  | poll hpc => exact h.poll hpc
  | pass hpc => exact h.pass hcounters haccounts hpc

/-! ## The packets that are not completed -/

theorem Covered.frame (h : Covered s) (hstored : s'.stored = s.stored)
    (hcounted : s'.counted = s.counted) (hpublished : s'.published = s.published)
    (hxmits : ∀ cpu x, s.xmits cpu = some x → s'.xmits cpu = some x) : Covered s' := by
  intro k hk hlt
  rw [hstored] at hk
  rw [hcounted] at hlt
  rw [hpublished]
  rcases h k hk hlt with hpub | ⟨cpu, x, hx, hf⟩
  · exact Or.inl hpub
  · exact Or.inr ⟨cpu, x, hxmits cpu x hx, hf⟩

theorem inFlight_successor {pc pc' : XmitPc} (h : pc' ∈ pc.successors) (hf : pc.inFlight = true) :
    pc'.inFlight = true := by
  cases pc <;> simp only [XmitPc.successors, List.mem_cons, List.not_mem_nil, or_false] at h
  all_goals grind [XmitPc.inFlight]

theorem Covered.xmit (h : Covered s) (hc : Calls s) (hx : s.xmits cpu = some x) :
    Covered (s.xmitStep cpu dma x) := by
  intro k hk hlt
  rw [length_counted_xmitStep] at hlt
  by_cases hold : k < s.counted.length
  · have hpublished {i : ℕ} (hpub : s.published i = true) :
        (s.xmitStep cpu dma x).published i = true := by
      unfold TxState.xmitStep
      dsimp only
      split
      · by_cases heq : i = x.dscIndex
        · rw [heq, Function.update_self]
        · rw [Function.update_of_ne heq, hpub]
      · exact hpub
    rcases h k hk hold with hpub | ⟨cpu', y, hy, hf, hindex⟩
    · exact Or.inl (hpublished hpub)
    by_cases heq : cpu' = cpu
    · subst heq
      obtain rfl := Option.some.inj (hx.symm.trans hy)
      by_cases hwrite : x.pc = .write
      · -- the descriptor is written
        refine Or.inl ?_
        rw [← hindex]
        simp only [TxState.xmitStep, if_pos hwrite, Function.update_self]
      · obtain ⟨x', hnext⟩ := s.card.exists_next dma (x := x) hwrite
          (fun hpc => by rw [hpc] at hf; cases hf)
        have hsame := (s.card.kept_xmitStatement dma x hnext).2
          fun hpc => by rw [hpc] at hf; cases hf
        exact Or.inr ⟨cpu', x', (Function.update_self _ _ _).trans hnext,
          inFlight_successor (s.card.pc_mem_successors hnext) hf, hsame.trans hindex⟩
    · exact Or.inr ⟨cpu', y, (Function.update_of_ne heq _ _).trans hy, hf, hindex⟩
  · -- the packet that is counted now
    have hinc : x.pc = .incDsc := by
      by_contra hinc
      rw [if_neg hinc] at hlt
      omega
    rw [if_pos hinc] at hlt
    obtain rfl : k = s.counted.length := by omega
    refine Or.inr ⟨cpu, x.goto .addPkt, ?_, rfl, ?_⟩
    · simp [TxState.xmitStep, Card.xmitStatement, hinc]
    · exact Ring.index_eq ((hc.call cpu x hx).reserved (by rw [hinc]; rfl)).1

theorem Covered.store (h : Covered s) (hs : Passes s) : Covered s.storeStep := by
  intro k hk hlt
  have hk' : s.stored + 1 ≤ k := hk
  have hlt' : k < s.counted.length := hlt
  have hturn := hs.turn
  have hfits := hs.dscFits
  have hne : k % ringSize ≠ s.stored % ringSize := fun heq => by
    have := Lib.Ring.eq_of_mod_eq (b := k) (by omega) (by omega) heq.symm
    omega
  rcases h k (by omega) hlt' with hpub | hflight
  · exact Or.inl ((Function.update_of_ne hne _ _).trans hpub)
  · exact Or.inr hflight

theorem Covered.step (h : Covered s) (hcounters : Counters s) (hx : txExec s op = some s') :
    Covered s' := by
  obtain ⟨hs, hc⟩ := hcounters
  cases txStep_of_exec hx with
  | call hidle => exact h.frame rfl rfl rfl fun _ _ hx => xmits_of_callStep hidle hx
  | xmit hcall _ => exact h.xmit hc hcall
  | store _ => exact h.store hs
  | poll _ =>
      unfold TxState.pollStep
      split
      · exact h.frame rfl rfl rfl fun _ _ hx => hx
      · exact h
  | pass _ => exact h.frame rfl rfl rfl fun _ _ hx => hx

/-! ## Runs -/

/-- All of it. -/
structure Served (s : TxState) : Prop where
  counters : Counters s
  accounts : Accounts s
  woken : Woken s
  covered : Covered s

theorem served_probed (raw : Card) : Served (txProbed raw) where
  counters := counters_probed raw
  accounts := accounts_probed raw
  woken := fun _ hport => by cases hport
  covered := fun k _ hk => absurd hk (Nat.not_lt_zero k)

theorem Served.step (h : Served s) (hmap : MapSucceeds s op) (hx : txExec s op = some s') :
    Served s' where
  counters := h.counters.step hmap hx
  accounts := h.accounts.step h.counters hx
  woken := h.woken.step h.counters h.accounts hx
  covered := h.covered.step h.counters hx

/-- A packet that is counted is there to be handled, or to be completed. -/
theorem Served.next (h : Served s) (hpc : s.handler = none)
    (hflight : ∀ cpu x, s.xmits cpu = some x → x.pc.inFlight = false)
    (hpos : 0 < s.card.tx.dsc.cnt.toNat) :
    s.reads.length < s.stored ∨ s.published (s.stored % ringSize) = true := by
  have hcnt := h.counters.passes.dscCnt
  have hdec : s.decremented = s.reads.length := past_of_none hpc 3
  rcases Nat.lt_or_ge s.reads.length s.stored with hlt | hge
  · exact Or.inl hlt
  · rcases h.covered s.stored (Nat.le_refl _) (by omega) with hpub | ⟨cpu, x, hx, hf, -⟩
    · exact Or.inr hpub
    · rw [hflight cpu x hx] at hf
      cases hf

/-- In every run without a failing mapping: when a queue is stopped and no pass is going on,
`mem_tx_dsc.cnt` is not zero, and unless a packet is between its count and its descriptor, a
completion is there to be read or a descriptor to be completed; and when a pass ends with
`mem_tx_dsc.cnt` zero, no queue is stopped. -/
theorem stopped_queue_woken (raw : Card) {ops : List TxOp}
    (hrun : ops.foldlM txExec (txProbed raw) = some s)
    (hmaps : Along txExec MapSucceeds (txProbed raw) ops) :
    (s.handler = none → (∃ port, s.card.queueStopped port = true) →
      0 < s.card.tx.dsc.cnt.toNat ∧
        ((∀ cpu x, s.xmits cpu = some x → x.pc.inFlight = false) →
          s.reads.length < s.stored ∨ s.published (s.stored % ringSize) = true)) ∧
    (∀ s', s.handler ≠ none → txExec s .handler = some s' → s'.handler = none →
      s'.card.tx.dsc.cnt = 0 → ∀ port, s'.card.queueStopped port = false) := by
  have h : Served s :=
    hmaps.invariant (fun _ _ _ h hmap hx => h.step hmap hx) (served_probed raw) hrun
  constructor
  · rintro hpc ⟨port, hport⟩
    have hpos := h.woken.cnt_pos hpc hport
    exact ⟨hpos, fun hflight => h.next hpc hflight hpos⟩
  · intro s' _ hx hend hzero port
    have hwoken := h.woken.step h.counters h.accounts hx
    by_contra hne
    have hpos := hwoken.cnt_pos hend (Bool.eq_true_of_not_eq_false hne)
    rw [hzero] at hpos
    cases hpos

/-- The ring is full, and the queue is stopped. -/
def fullRing : List TxOp := (List.replicate 32 sendOne).flatten

def fullState : TxState := (fullRing.foldlM txExec (txProbed Card.zeroed)).get (by decide +kernel)

theorem stopped_queue_woken_fullRing :
    (fullState.handler = none → (∃ port, fullState.card.queueStopped port = true) →
      0 < fullState.card.tx.dsc.cnt.toNat ∧
        ((∀ cpu x, fullState.xmits cpu = some x → x.pc.inFlight = false) →
          fullState.reads.length < fullState.stored ∨
            fullState.published (fullState.stored % ringSize) = true)) ∧
    (∀ s', fullState.handler ≠ none → txExec fullState .handler = some s' → s'.handler = none →
      s'.card.tx.dsc.cnt = 0 → ∀ port, s'.card.queueStopped port = false) :=
  stopped_queue_woken Card.zeroed (Option.some_get (by decide +kernel)).symm (by decide +kernel)

example : fullState.card.queueStopped 0 = true := by decide +kernel

end CodeAnalyze.Nf10
