import CodeAnalyze.Nf10.Iface

/-!
# Is a sent skb released once?

The skb goes from the network stack to `nf10i_tx`, from there to the ring when the
descriptor is written, and `work_handler` releases it when the descriptor is completed.
`nf10i_tx` does not look whether `skb_pad` has released it, and reads its length once more
when it is in the ring.  `work_handler` releases what the books have for the slot, whatever
packet the completion is for: when the driver is out of step with the card, it is another
one.
-/

namespace CodeAnalyze.Nf10

open Lib (Along)

namespace SendPc

/-- Where an skb that is released already cannot be put right.  After a padding that has
failed nothing is lost yet, and behind the hand-over the ring has the skb. -/
def settled : SendPc → Bool
  | put => false
  | statPackets => false
  | statBytes => false
  | _ => true

/-- The skb is in the ring. -/
def handedOver : SendPc → Bool
  | statPackets => true
  | statBytes => true
  | _ => false

theorem not_handedOver (pc : SendPc) (h : pc.settled = true) : pc.handedOver = false := by
  cases pc with
  | statPackets => cases h
  | statBytes => cases h
  | _ => rfl

end SendPc

/-- The statements that are left for `nf10i_tx` in and after a call of `nf10priv_xmit`, at
most. -/
def XmitPc.left : XmitPc → ℕ
  | lock => 15
  | testDsc => 14
  | testPkt => 13
  | reserve => 12
  | map => 11
  | incDsc => 10
  | addPkt => 9
  | stopDsc => 8
  | stopPkt => 7
  | stop => 6
  | unlock => 5
  | book => 4
  | write => 3
  | fail => 2

/-- The statements that are left for `nf10i_tx`, at most. -/
def SendPc.left : SendPc → ℕ
  | testShort => 20
  | pad => 19
  | put => 18
  | testBig => 17
  | freeBig => 1
  | enter => 16
  | xmit x => x.pc.left
  | freeDropped => 1
  | statPackets => 2
  | statBytes => 1

namespace SendState

/-! ## Releases and accesses -/

/-- Nothing is left to happen to the packet. -/
def Over (s : SendState) : Prop := s.pc = none ∧ s.dsc.inRing = false

/-- The skb is released at most once, and once in the end, by `skb_pad`, by `nf10i_tx` or
for the completion of its descriptor, and `nf10i_tx` and `nf10priv_xmit` leave it alone
after that. -/
structure Linear (s : SendState) : Prop where
  once : s.releases.length ≤ 1
  notStale : .stale ∉ s.releases
  notLate : s.late = false
  atEnd : s.Over → s.releases.length = 1

/-- The TX branch finds the skb in the books exactly when it handles the completion of the
packet, and `nf10i_tx` has returned by then; and it does not invalidate the completion
before it has read it. -/
def TimelyPass (s : SendState) : TxPc → Prop
  | .release index => if s.dsc = .read then s.pc = none ∧ s.Finds index else ¬s.Finds index
  | .invalidate index => s.dsc ≠ .stored index
  | _ => True

instance decidableTimelyPass (s : SendState) : ∀ pc, Decidable (s.TimelyPass pc)
  | .release index =>
    inferInstanceAs (Decidable (if s.dsc = .read then s.pc = none ∧ s.Finds index
      else ¬s.Finds index))
  | .invalidate index => inferInstanceAs (Decidable (s.dsc ≠ .stored index))
  | .advance => .isTrue trivial
  | .subPkt _ => .isTrue trivial
  | .decDsc _ => .isTrue trivial
  | .testDsc => .isTrue trivial
  | .testPkt => .isTrue trivial
  | .wake _ => .isTrue trivial

/-- A padding does not fail, and `work_handler` completes the packet when it should. -/
def Timely (s : SendState) : SendOp → Prop
  | .step padOk _ => s.pc = some .pad → padOk = true
  | .handler => ∀ pc ∈ s.handler, s.TimelyPass pc
  | _ => True

instance decidableTimely (s : SendState) : ∀ op, Decidable (s.Timely op)
  | .step padOk _ => inferInstanceAs (Decidable (s.pc = some .pad → padOk = true))
  | .store => .isTrue trivial
  | .handler => inferInstanceAs (Decidable (∀ pc ∈ s.handler, s.TimelyPass pc))
  | .reuse _ => .isTrue trivial
  | .others _ => .isTrue trivial

/-- Nothing has gone wrong that stays so. -/
def Fair (s : SendState) : Prop := s.late = false ∧ .stale ∉ s.releases

/-- What always holds. -/
structure Sending (s : SendState) : Prop where
  unwritten : ∀ pc, s.pc = some pc → pc.handedOver = false → s.dsc.inRing = false
  settled : ∀ pc, s.pc = some pc → pc.settled = true → s.releases ≠ [] → ¬s.Fair
  inRing : s.dsc.inRing = true → s.releases ≠ [] → ¬s.Fair

/-- What has happened so far is in time. -/
def OnTime (s : SendState) : Prop :=
  s.Fair ∧
    match s.pc, s.dsc.inRing with
    | some pc, inRing => s.releases = [] ∧ inRing = pc.handedOver
    | none, true => s.releases = []
    | none, false => s.releases.length = 1

theorem sending_handed (card : Card) (skb : SkBuff) (port : Port) :
    (handed card skb port).Sending where
  unwritten := fun _ _ _ => rfl
  settled := fun _ _ _ hne => absurd rfl hne
  inRing := fun hin => nomatch hin

theorem onTime_handed (card : Card) (skb : SkBuff) (port : Port) : (handed card skb port).OnTime :=
  ⟨⟨rfl, List.not_mem_nil⟩, rfl, rfl⟩

/-- A call that has returned is in time exactly if the skb is used linearly. -/
theorem Sending.linear_iff {s : SendState} (h : s.Sending) (hret : s.pc = none) :
    s.Linear ↔ s.OnTime := by
  unfold OnTime
  rw [hret]
  cases hin : s.dsc.inRing with
  | false =>
      constructor
      · exact fun hl => ⟨⟨hl.notLate, hl.notStale⟩, hl.atEnd ⟨hret, hin⟩⟩
      · rintro ⟨⟨hlate, hstale⟩, hlen⟩
        exact ⟨Nat.le_of_eq hlen, hstale, hlate, fun _ => hlen⟩
  | true =>
      constructor
      · refine fun hl => ⟨⟨hl.notLate, hl.notStale⟩, ?_⟩
        by_contra hne
        exact h.inRing hin hne ⟨hl.notLate, hl.notStale⟩
      · rintro ⟨⟨hlate, hstale⟩, hnil⟩
        refine ⟨by simp [show s.releases = [] from hnil], hstale, hlate, fun hover => ?_⟩
        exact absurd (hin.symm.trans hover.2) (by decide)

theorem OnTime.linear {s : SendState} (h : s.OnTime) : s.Linear := by
  obtain ⟨⟨hlate, hstale⟩, hrest⟩ := h
  cases hpc : s.pc with
  | some pc =>
      rw [hpc] at hrest
      refine ⟨by simp [hrest.1], hstale, hlate, fun hover => ?_⟩
      rw [hover.1] at hpc
      cases hpc
  | none =>
      rw [hpc] at hrest
      cases hin : s.dsc.inRing with
      | false =>
          rw [hin] at hrest
          exact ⟨Nat.le_of_eq hrest, hstale, hlate, fun _ => hrest⟩
      | true =>
          rw [hin] at hrest
          refine ⟨by simp [show s.releases = [] from hrest], hstale, hlate, fun hover => ?_⟩
          exact absurd (hin.symm.trans hover.2) (by decide)

/-! ## Statements -/

variable {s s' : SendState}

theorem not_fair_access (h : s.releases ≠ []) : ¬s.access.Fair := by
  simp [access, Fair, h]

theorem late_access_eq_false : s.access.late = false ↔ s.late = false ∧ s.releases = [] := by
  simp [access]

theorem left_of_successor {pc pc' : XmitPc} (h : pc' ∈ pc.successors) : pc'.left < pc.left := by
  revert h
  cases pc <;> cases pc' <;> decide

/-- The statement after one of `nf10priv_xmit`. -/
theorem afterXmit_spec (c : Card) (dma : Option UInt64) (x : XmitCall) :
    (SendPc.afterXmit x (c.xmitStatement dma x).2).left < x.pc.left ∧
      ((SendPc.afterXmit x (c.xmitStatement dma x).2).handedOver = true ↔ x.pc = .write) := by
  cases hnext : (c.xmitStatement dma x).2 with
  | some x' =>
      refine ⟨left_of_successor (c.pc_mem_successors hnext), ?_⟩
      constructor
      · intro h
        cases h
      · intro hwrite
        simp [Card.xmitStatement, hwrite] at hnext
  | none =>
      by_cases hwrite : x.pc = .write
      · simp [SendPc.afterXmit, hwrite, SendPc.left, XmitPc.left, SendPc.handedOver]
      · have hfail : x.pc = .fail := by
          by_contra hfail
          obtain ⟨x', hx'⟩ := c.exists_next dma hwrite hfail
          rw [hnext] at hx'
          cases hx'
        simp [SendPc.afterXmit, hfail, SendPc.left, XmitPc.left, SendPc.handedOver]

/-- What holds always, where an skb that is released shows it. -/
theorem Sending.of_shown (hreleased : s'.releases ≠ [] → ¬s'.Fair)
    (hun : ∀ pc, s'.pc = some pc → pc.handedOver = false → s'.dsc.inRing = false) :
    s'.Sending where
  unwritten := hun
  settled := fun _ _ _ => hreleased
  inRing := fun _ => hreleased

/-- `nf10i_tx` returns, and what is in the ring is as it was. -/
theorem Sending.of_leave (hpc : s'.pc = none)
    (hreleased : s'.dsc.inRing = true → s'.releases ≠ [] → ¬s'.Fair) : s'.Sending where
  unwritten := fun pc h => by
    rw [hpc] at h
    cases h
  settled := fun pc h => by
    rw [hpc] at h
    cases h
  inRing := hreleased

theorem Sending.statement (h : s.Sending) {pc : SendPc} (hpc : s.pc = some pc) (padOk : Bool)
    (dma : Option UInt64) : (s.statement padOk dma pc).Sending := by
  have hun := h.unwritten pc hpc
  have hout (hin : s.dsc.inRing = true) : pc.handedOver = false → False := fun hnot =>
    absurd (hin.symm.trans (hun hnot)) (by decide)
  have hshown : s.releases ≠ [] → ¬s.access.Fair := not_fair_access
  -- until the descriptor is written the call owns the skb; a padding that fails has freed it
  cases pc with
  | testShort => exact .of_shown hshown fun _ _ _ => hun rfl
  | pad =>
      cases padOk with
      | true => exact .of_shown hshown fun _ _ _ => hun rfl
      | false =>
          constructor
          · exact fun _ _ _ => hun rfl
          · intro pc hput hsettled
            obtain rfl := Option.some.inj hput
            cases hsettled
          · exact fun hin => (hout hin rfl).elim
  | put => exact .of_shown hshown fun _ _ _ => hun rfl
  | testBig => exact .of_shown hshown fun _ _ _ => hun rfl
  | freeBig => exact .of_leave rfl fun hin => (hout hin rfl).elim
  | enter => exact .of_shown hshown fun _ _ _ => hun rfl
  | xmit x =>
      obtain ⟨-, hover⟩ := afterXmit_spec s.card dma x
      -- the mapping reads the skb; before it, what is wrong was wrong
      have hreleased : (s.xmitStep dma x).releases ≠ [] → ¬(s.xmitStep dma x).Fair := by
        intro hne hfair
        have hlate : (if x.pc = .map then s.access.late else s.late) = false := hfair.1
        split at hlate
        · exact hshown hne ⟨hlate, hfair.2⟩
        · exact h.settled _ hpc rfl hne ⟨hlate, hfair.2⟩
      refine .of_shown hreleased fun pc hnext hnot => ?_
      obtain rfl := Option.some.inj hnext
      have hwrite : x.pc ≠ .write := fun hw => absurd ((hover.mpr hw).symm.trans hnot) (by decide)
      change (if x.pc = .write then DscStage.published x.dscIndex else s.dsc).inRing = false
      rw [if_neg hwrite]
      exact hun rfl
  | freeDropped => exact .of_leave rfl fun hin => (hout hin rfl).elim
  | statPackets =>
      constructor
      · intro pc hbytes hnot
        obtain rfl := Option.some.inj hbytes
        cases hnot
      · intro pc hbytes hsettled
        obtain rfl := Option.some.inj hbytes
        cases hsettled
      · exact h.inRing
  | statBytes => exact .of_leave rfl fun _ => hshown

/-! ## `work_handler` -/

theorem inRing_afterPoll (index : ℕ) (d : DscStage) : (d.afterPoll index).inRing = d.inRing := by
  unfold DscStage.afterPoll
  split
  · rename_i hstored
    rw [hstored]
    rfl
  · rfl

/-- A packet that is in the ring after a statement of the TX branch has been there before. -/
theorem inRing_of_afterPass {pc : TxPc} {d : DscStage} (h : (d.afterPass pc).inRing = true) :
    d.inRing = true := by
  cases d with
  | out => cases pc <;> exact h
  | _ => rfl

/-- The TX branch releases the skb for its completion, or it is not to be put right. -/
theorem not_fair_passStep {pc : TxPc} (h : s.releases ≠ [] → ¬s.Fair)
    (hne : (s.passStep pc).releases ≠ []) :
    ¬(s.passStep pc).Fair ∨ s.dsc = .read ∧ ∃ index, pc = .release index := by
  cases pc with
  | release index =>
      by_cases hread : s.dsc = .read
      · exact Or.inr ⟨hread, index, rfl⟩
      · refine Or.inl fun hfair => ?_
        have hstale : .stale ∉ s.releasesAfter (.release index) := hfair.2
        have hne' : s.releasesAfter (.release index) ≠ [] := hne
        simp only [releasesAfter, hread, if_false] at hstale hne'
        split at hstale
        · exact hstale (List.mem_append_right _ (List.mem_singleton_self _))
        · rename_i hfinds
          rw [if_neg hfinds] at hne'
          exact h hne' ⟨hfair.1, hstale⟩
  | _ => exact Or.inl (h hne)

/-- `nf10i_tx` has handed over a packet that is in the ring. -/
theorem Sending.handedOver (h : s.Sending) (hin : s.dsc.inRing = true) {pc : SendPc}
    (hpc : s.pc = some pc) : pc.handedOver = true := by
  by_contra hnot
  have hout := h.unwritten pc hpc (Bool.eq_false_iff.mpr hnot)
  rw [hin] at hout
  cases hout

theorem Sending.pollStep (h : s.Sending) : s.pollStep.Sending := by
  unfold SendState.pollStep
  split
  · refine ⟨fun pc hpc hnot => ?_, h.settled, fun hin => ?_⟩
    · exact (inRing_afterPoll _ _).trans (h.unwritten pc hpc hnot)
    · exact h.inRing ((inRing_afterPoll _ _).symm.trans hin)
  · exact h

theorem Sending.passStep (h : s.Sending) (pc : TxPc) : (s.passStep pc).Sending := by
  constructor
  · intro pc' hpc' hnot
    by_contra hin
    exact absurd (inRing_of_afterPass (Bool.eq_true_of_not_eq_false hin))
      (Bool.not_eq_true _ ▸ h.unwritten pc' hpc' hnot)
  · intro pc' hpc' hsettled hne
    rcases not_fair_passStep (h.settled pc' hpc' hsettled) hne with hfair | ⟨hread, -⟩
    · exact hfair
    · have hover := h.handedOver (by rw [hread]; rfl) hpc'
      exact absurd (hover.symm.trans (pc'.not_handedOver hsettled)) (by decide)
  · intro hin hne
    rcases not_fair_passStep (h.inRing (inRing_of_afterPass hin)) hne with
      hfair | ⟨hread, index, rfl⟩
    · exact hfair
    · change (s.dsc.afterPass (.release index)).inRing = true at hin
      simp [DscStage.afterPass, hread, DscStage.inRing] at hin

/-- Every step keeps what always holds. -/
theorem Sending.step {op : SendOp} (h : s.Sending) (hx : sendExec s op = some s') : s'.Sending := by
  cases op with
  | step padOk dma =>
      obtain ⟨pc, hpc, rfl⟩ := Option.map_eq_some_iff.mp hx
      exact h.statement hpc padOk dma
  | store =>
      simp only [sendExec] at hx
      split at hx
      · rename_i index hdsc
        obtain rfl := Option.some.inj hx
        have hin : s.dsc.inRing = true := by rw [hdsc]; rfl
        refine ⟨fun pc hpc hnot => ?_, h.settled, fun _ => h.inRing hin⟩
        exact absurd ((h.handedOver hin hpc).symm.trans hnot) (by decide)
      · cases hx
  | handler =>
      simp only [sendExec] at hx
      split at hx
      · obtain rfl := Option.some.inj hx
        exact h.pollStep
      · obtain rfl := Option.some.inj hx
        exact h.passStep _
  | reuse len =>
      simp only [sendExec, Option.ite_none_left_eq_some, Option.some.injEq] at hx
      obtain ⟨-, rfl⟩ := hx
      exact ⟨h.unwritten, h.settled, h.inRing⟩
  | others change =>
      obtain rfl := Option.some.inj hx
      exact ⟨h.unwritten, h.settled, h.inRing⟩

/-! ## In time -/

theorem fair_iff_of_nil (h : s.releases = []) : s.Fair ↔ s.late = false := by
  simp [Fair, h]

theorem onTime_of_pc {pc : SendPc} (hpc : s.pc = some pc) :
    s.OnTime ↔ s.late = false ∧ s.releases = [] ∧ s.dsc.inRing = pc.handedOver := by
  simp only [OnTime, hpc]
  constructor
  · exact fun ⟨hfair, hnil, hin⟩ => ⟨hfair.1, hnil, hin⟩
  · exact fun ⟨hlate, hnil, hin⟩ => ⟨(fair_iff_of_nil hnil).mpr hlate, hnil, hin⟩

theorem onTime_in_ring (hpc : s.pc = none) (hin : s.dsc.inRing = true) :
    s.OnTime ↔ s.late = false ∧ s.releases = [] := by
  simp only [OnTime, hpc, hin]
  exact ⟨fun ⟨hfair, hnil⟩ => ⟨hfair.1, hnil⟩,
    fun ⟨hlate, hnil⟩ => ⟨(fair_iff_of_nil hnil).mpr hlate, hnil⟩⟩

theorem onTime_over (h : s.Over) : s.OnTime ↔ s.Fair ∧ s.releases.length = 1 := by
  simp [OnTime, h.1, h.2]

/-- `nf10i_tx` goes on after it has looked at the skb. -/
theorem onTime_access_goto {pc pc' : SendPc} (hpc : s.pc = some pc) (hout : s.dsc.inRing = false)
    (hpc' : s'.pc = some pc') (hout' : s'.dsc.inRing = false) (hlate : s'.late = s.access.late)
    (hreleases : s'.releases = s.releases) (hover : pc.handedOver = false)
    (hover' : pc'.handedOver = false) : s'.OnTime ↔ s.OnTime := by
  rw [onTime_of_pc hpc, onTime_of_pc hpc', hlate, hreleases, late_access_eq_false, hout, hout',
    hover, hover']
  tauto

/-- `nf10i_tx` returns after it has released the skb. -/
theorem onTime_release {pc : SendPc} (hpc : s.pc = some pc) (hout : s.dsc.inRing = false)
    (hover : pc.handedOver = false) : ((s.access.release .nf10iTx).leave).OnTime ↔ s.OnTime := by
  have hend : ((s.access.release .nf10iTx).leave).Over := ⟨rfl, hout⟩
  rw [onTime_of_pc hpc, onTime_over hend, hout, hover]
  change (s.access.late = false ∧ Releaser.stale ∉ s.releases ++ [Releaser.nf10iTx]) ∧
    (s.releases ++ [Releaser.nf10iTx]).length = 1 ↔ _
  rw [late_access_eq_false]
  constructor
  · exact fun ⟨⟨⟨hlate, hnil⟩, _⟩, _⟩ => ⟨hlate, hnil, rfl⟩
  · rintro ⟨hlate, hnil, -⟩
    rw [hnil]
    exact ⟨⟨⟨hlate, rfl⟩, by decide⟩, rfl⟩

theorem onTime_xmit (h : s.Sending) {x : XmitCall} (hpc : s.pc = some (.xmit x))
    (dma : Option UInt64) : (s.xmitStep dma x).OnTime ↔ s.OnTime := by
  obtain ⟨-, hover⟩ := afterXmit_spec s.card dma x
  have hout : s.dsc.inRing = false := h.unwritten _ hpc rfl
  have hpc' : (s.xmitStep dma x).pc = some (SendPc.afterXmit x (s.card.xmitStatement dma x).2) :=
    rfl
  rw [onTime_of_pc hpc, onTime_of_pc hpc']
  change (if x.pc = .map then s.access.late else s.late) = false ∧ s.releases = [] ∧
    (if x.pc = .write then DscStage.published x.dscIndex else s.dsc).inRing = _ ↔ _
  have hlate : s.releases = [] →
      (if x.pc = .map then s.access.late else s.late) = s.late := by
    intro hnil
    split
    · simp [access, hnil]
    · rfl
  have hin : (if x.pc = .write then DscStage.published x.dscIndex else s.dsc).inRing =
      (SendPc.afterXmit x (s.card.xmitStatement dma x).2).handedOver := by
    by_cases hwrite : x.pc = .write
    · rw [if_pos hwrite, hover.mpr hwrite]
      rfl
    · rw [if_neg hwrite, hout]
      exact (Bool.eq_false_iff.mpr fun hh => hwrite (hover.mp hh)).symm
  rw [hin, hout]
  constructor
  · rintro ⟨hfalse, hnil, -⟩
    exact ⟨(hlate hnil).symm.trans hfalse, hnil, rfl⟩
  · rintro ⟨hfalse, hnil, -⟩
    exact ⟨(hlate hnil).trans hfalse, hnil, rfl⟩

theorem onTime_statBytes (hpc : s.pc = some .statBytes) (padOk : Bool) (dma : Option UInt64) :
    (s.statement padOk dma .statBytes).OnTime ↔ s.OnTime := by
  rw [onTime_of_pc hpc]
  have hret : (s.statement padOk dma .statBytes).pc = none := rfl
  cases hin : s.dsc.inRing with
  | false =>
      rw [onTime_over ⟨hret, hin⟩]
      constructor
      · rintro ⟨hfair, hlen⟩
        have hnil := (late_access_eq_false.mp hfair.1).2
        change s.releases.length = 1 at hlen
        simp [hnil] at hlen
      · rintro ⟨-, -, hover⟩
        cases hover
  | true =>
      rw [onTime_in_ring hret hin]
      change s.access.late = false ∧ s.releases = [] ↔ _
      rw [late_access_eq_false]
      exact ⟨fun ⟨⟨hlate, hnil⟩, _⟩ => ⟨hlate, hnil, rfl⟩,
        fun ⟨hlate, hnil, _⟩ => ⟨⟨hlate, hnil⟩, hnil⟩⟩

/-- A statement is in time exactly if what came before was, and it is not a padding that
fails. -/
theorem Sending.onTime_statement (h : s.Sending) {pc : SendPc} (hpc : s.pc = some pc)
    (padOk : Bool) (dma : Option UInt64) :
    (s.statement padOk dma pc).OnTime ↔ s.OnTime ∧ (pc = .pad → padOk = true) := by
  have hun := h.unwritten pc hpc
  cases pc with
  | testShort =>
      rw [and_iff_left fun hpad => nomatch hpad]
      refine onTime_access_goto hpc (hun rfl) rfl (hun rfl) rfl rfl rfl ?_
      split <;> rfl
  | pad =>
      cases padOk with
      | true =>
          rw [and_iff_left fun _ => rfl]
          exact onTime_access_goto hpc (hun rfl) rfl (hun rfl) rfl rfl rfl rfl
      | false =>
          -- `skb_pad` has freed the skb, and the call goes on with it
          have hput : (s.statement false dma .pad).pc = some .put := rfl
          rw [onTime_of_pc hput]
          constructor
          · rintro ⟨-, hnil, -⟩
            exact absurd hnil (List.append_ne_nil_of_right_ne_nil _ (List.cons_ne_nil _ _))
          · exact fun hpad => absurd (hpad.2 rfl) Bool.false_ne_true
  | put =>
      rw [and_iff_left fun hpad => nomatch hpad]
      exact onTime_access_goto hpc (hun rfl) rfl (hun rfl) rfl rfl rfl rfl
  | testBig =>
      rw [and_iff_left fun hpad => nomatch hpad]
      refine onTime_access_goto hpc (hun rfl) rfl (hun rfl) rfl rfl rfl ?_
      split <;> rfl
  | freeBig =>
      rw [and_iff_left fun hpad => nomatch hpad]
      exact onTime_release hpc (hun rfl) rfl
  | enter =>
      rw [and_iff_left fun hpad => nomatch hpad]
      exact onTime_access_goto hpc (hun rfl) rfl (hun rfl) rfl rfl rfl rfl
  | xmit x =>
      rw [and_iff_left fun hpad => nomatch hpad]
      exact onTime_xmit h hpc dma
  | freeDropped =>
      rw [and_iff_left fun hpad => nomatch hpad]
      exact onTime_release hpc (hun rfl) rfl
  | statPackets =>
      rw [and_iff_left fun hpad => nomatch hpad]
      have hbytes : (s.statement padOk dma .statPackets).pc = some .statBytes := rfl
      rw [onTime_of_pc hpc, onTime_of_pc hbytes]
      rfl
  | statBytes =>
      rw [and_iff_left fun hpad => nomatch hpad]
      exact onTime_statBytes hpc padOk dma

/-- A step that leaves the skb and the call alone. -/
theorem onTime_congr (hpc : s'.pc = s.pc) (hin : s'.dsc.inRing = s.dsc.inRing)
    (hreleases : s'.releases = s.releases) (hlate : s'.late = s.late) :
    s'.OnTime ↔ s.OnTime := by
  unfold OnTime Fair
  rw [hpc, hin, hreleases, hlate]

/-- A packet that leaves the ring must be released by that. -/
theorem Sending.not_onTime (h : s.Sending) (hin : s.dsc.inRing = true)
    (hpc : s'.pc = s.pc) (hout : s'.dsc.inRing = false) (hreleases : s'.releases = s.releases)
    (hlate : s'.late = s.late) : ¬s'.OnTime := by
  intro hontime
  cases hret : s.pc with
  | some pc =>
      have hhanded := ((onTime_of_pc (hpc.trans hret)).mp hontime).2.2
      rw [hout, h.handedOver hin hret] at hhanded
      cases hhanded
  | none =>
      obtain ⟨hfair, hlen⟩ := (onTime_over ⟨hpc.trans hret, hout⟩).mp hontime
      rw [hreleases] at hlen
      have hne : s.releases ≠ [] := fun hnil => by simp [hnil] at hlen
      exact h.inRing hin hne ⟨hlate ▸ hfair.1, hreleases ▸ hfair.2⟩

/-- The TX branch handles the completion of the packet. -/
theorem Sending.onTime_completion (h : s.Sending) (hread : s.dsc = .read) (index : ℕ) :
    (s.passStep (.release index)).OnTime ↔ s.OnTime ∧ s.pc = none ∧ s.Finds index := by
  have hin : s.dsc.inRing = true := by rw [hread]; rfl
  have hout : (s.passStep (.release index)).dsc.inRing = false := by
    simp [SendState.passStep, DscStage.afterPass, hread, DscStage.inRing]
  by_cases hfinds : s.Finds index
  · have hreleases : (s.passStep (.release index)).releases = s.releases ++ [.completion] := by
      simp [SendState.passStep, releasesAfter, hfinds, hread]
    cases hpc : s.pc with
    | some pc =>
        have hpc' : (s.passStep (.release index)).pc = some pc := hpc
        rw [onTime_of_pc hpc', hreleases]
        constructor
        · exact fun ⟨_, hnil, _⟩ => absurd hnil (by simp)
        · exact fun ⟨_, hnone, _⟩ => nomatch hnone
    | none =>
        have hover : (s.passStep (.release index)).Over := ⟨hpc, hout⟩
        rw [onTime_over hover, onTime_in_ring hpc hin, Fair, hreleases]
        change (s.late = false ∧ _) ∧ _ ↔ _
        constructor
        · rintro ⟨⟨hlate, -⟩, hlen⟩
          exact ⟨⟨hlate, by simpa using hlen⟩, rfl, hfinds⟩
        · rintro ⟨⟨hlate, hnil⟩, -, -⟩
          rw [hnil]
          exact ⟨⟨hlate, by decide⟩, rfl⟩
  · have hreleases : (s.passStep (.release index)).releases = s.releases := by
      simp [SendState.passStep, releasesAfter, hfinds]
    constructor
    · exact fun hontime => absurd hontime (h.not_onTime hin rfl hout hreleases rfl)
    · exact fun hontime => absurd hontime.2.2 hfinds

/-- It handles another one. -/
theorem onTime_other (hread : s.dsc ≠ .read) (index : ℕ) :
    (s.passStep (.release index)).OnTime ↔ s.OnTime ∧ ¬s.Finds index := by
  by_cases hfinds : s.Finds index
  · have hreleases : (s.passStep (.release index)).releases = s.releases ++ [.stale] := by
      simp [SendState.passStep, releasesAfter, hfinds, hread]
    constructor
    · intro hontime
      have hstale := hontime.1.2
      rw [hreleases] at hstale
      exact absurd (List.mem_append_right _ (List.mem_singleton_self _)) hstale
    · exact fun hontime => absurd hfinds hontime.2
  · rw [and_iff_left hfinds]
    refine onTime_congr rfl ?_ ?_ rfl
    · simp [SendState.passStep, DscStage.afterPass, hread]
    · simp [SendState.passStep, releasesAfter, hfinds]

/-- A statement of the TX branch is in time exactly if what came before was, and it is. -/
theorem Sending.onTime_passStep (h : s.Sending) (pc : TxPc) :
    (s.passStep pc).OnTime ↔ s.OnTime ∧ s.TimelyPass pc := by
  cases pc with
  | release index =>
      by_cases hread : s.dsc = .read
      · rw [h.onTime_completion hread]
        simp [TimelyPass, hread]
      · rw [onTime_other hread]
        simp [TimelyPass, hread]
  | invalidate index =>
      by_cases hstored : s.dsc = .stored index
      · have hin : s.dsc.inRing = true := by rw [hstored]; rfl
        have hout : (s.passStep (.invalidate index)).dsc.inRing = false := by
          simp [SendState.passStep, DscStage.afterPass, hstored, DscStage.inRing]
        constructor
        · exact fun hontime => absurd hontime (h.not_onTime hin rfl hout rfl rfl)
        · exact fun hontime => absurd hstored hontime.2
      · have hsame : (s.passStep (.invalidate index)).dsc = s.dsc := if_neg hstored
        have htimely : s.TimelyPass (.invalidate index) := hstored
        rw [and_iff_left htimely]
        exact onTime_congr rfl (congrArg _ hsame) rfl rfl
  | _ => exact (onTime_congr rfl rfl rfl rfl).trans (and_iff_left trivial).symm

/-- A step is in time exactly if what came before was, and the step is. -/
theorem Sending.onTime_step {op : SendOp} (h : s.Sending) (hx : sendExec s op = some s') :
    s'.OnTime ↔ s.OnTime ∧ s.Timely op := by
  cases op with
  | step padOk dma =>
      obtain ⟨pc, hpc, rfl⟩ := Option.map_eq_some_iff.mp hx
      rw [h.onTime_statement hpc]
      simp [Timely, hpc]
  | store =>
      simp only [sendExec] at hx
      split at hx
      · rename_i index hdsc
        obtain rfl := Option.some.inj hx
        have hin : (s.storeStep index).dsc.inRing = s.dsc.inRing := by
          rw [hdsc]
          rfl
        have htimely : s.Timely .store := trivial
        rw [and_iff_left htimely]
        exact onTime_congr rfl hin rfl rfl
      · cases hx
  | handler =>
      simp only [sendExec] at hx
      split at hx
      · rename_i hidle
        obtain rfl := Option.some.inj hx
        rw [and_iff_left (by simp [Timely, hidle])]
        unfold SendState.pollStep
        split
        · exact onTime_congr rfl (inRing_afterPoll _ _) rfl rfl
        · rfl
      · rename_i pc hpc
        obtain rfl := Option.some.inj hx
        rw [h.onTime_passStep]
        simp [Timely, hpc]
  | reuse len =>
      simp only [sendExec, Option.ite_none_left_eq_some, Option.some.injEq] at hx
      obtain ⟨-, rfl⟩ := hx
      exact (onTime_congr rfl rfl rfl rfl).trans (and_iff_left trivial).symm
  | others change =>
      obtain rfl := Option.some.inj hx
      exact (onTime_congr rfl rfl rfl rfl).trans (and_iff_left trivial).symm

/-! ## Runs -/

/-- The statements that are left, at most. -/
def left (s : SendState) : ℕ := s.pc.elim 0 SendPc.left

theorem left_statement (padOk : Bool) (dma : Option UInt64) (pc : SendPc) :
    (s.statement padOk dma pc).left < pc.left := by
  cases pc with
  | testShort =>
      change SendPc.left (if s.skb.len < 60 then .pad else .testBig) < 20
      split <;> decide
  | pad => cases padOk <;> exact Nat.lt_succ_self 18
  | put => exact Nat.lt_succ_self 17
  | testBig =>
      change SendPc.left (if s.skb.len > 1514 then .freeBig else .enter) < 17
      split <;> decide
  | freeBig => exact Nat.lt_succ_self 0
  | enter => exact Nat.lt_succ_self 15
  | xmit x => exact (afterXmit_spec s.card dma x).1
  | freeDropped => exact Nat.lt_succ_self 0
  | statPackets => exact Nat.lt_succ_self 1
  | statBytes => exact Nat.lt_succ_self 0

end SendState

/-- A statement of `nf10i_tx`. -/
def SendOp.isStep : SendOp → Bool
  | step _ _ => true
  | _ => false

/-- What comes in between leaves `nf10i_tx` where it is. -/
theorem left_sendExec {s s' : SendState} {op : SendOp} (hx : sendExec s op = some s') :
    s'.left + (if op.isStep then 1 else 0) ≤ s.left + if false then 0 else 0 := by
  cases op with
  | step padOk dma =>
      obtain ⟨pc, hpc, rfl⟩ := Option.map_eq_some_iff.mp hx
      have hlt := s.left_statement padOk dma pc
      simp only [SendState.left, hpc, SendOp.isStep, if_true]
      exact hlt
  | store =>
      simp only [sendExec] at hx
      split at hx
      · obtain rfl := Option.some.inj hx
        exact Nat.le_refl _
      · cases hx
  | handler =>
      simp only [sendExec] at hx
      split at hx
      · obtain rfl := Option.some.inj hx
        unfold SendState.pollStep
        split <;> exact Nat.le_refl _
      · obtain rfl := Option.some.inj hx
        exact Nat.le_refl _
  | reuse len =>
      simp only [sendExec, Option.ite_none_left_eq_some, Option.some.injEq] at hx
      obtain ⟨-, rfl⟩ := hx
      exact Nat.le_refl _
  | others change =>
      obtain rfl := Option.some.inj hx
      exact Nat.le_refl _

/-- Where `skb_pad` does not fail, and `work_handler` releases the skb for the completion of
its descriptor and for no other, when `nf10i_tx` has returned, the skb is released once and
left alone after that; a call that has returned has done so in no other case.  It takes 20
statements at most. -/
theorem tx_skb_linear_iff (card : Card) (skb : SkBuff) (port : Port) {labels : List SendOp}
    {s : SendState} (hrun : labels.foldlM sendExec (handed card skb port) = some s) :
    (Along sendExec SendState.Timely (handed card skb port) labels → s.Linear) ∧
    (s.pc = none →
      (s.Linear ↔ Along sendExec SendState.Timely (handed card skb port) labels)) ∧
    labels.countP SendOp.isStep ≤ 20 := by
  have hsending : (handed card skb port).Sending := SendState.sending_handed card skb port
  have hends : s.Sending :=
    Lib.run_invariant (fun _ _ _ _ h hx => h.step hx) hsending hrun
  have hiff : s.OnTime ↔ Along sendExec SendState.Timely (handed card skb port) labels := by
    rw [Lib.along_iff (P := SendState.OnTime) (I := SendState.Sending)
      (fun _ _ _ h hx => h.step hx) (fun _ _ _ h hx => h.onTime_step hx) hsending hrun]
    exact and_iff_right (SendState.onTime_handed card skb port)
  refine ⟨fun hgood => (hiff.mpr hgood).linear, fun hret => ?_, ?_⟩
  · exact (hends.linear_iff hret).trans hiff
  · have hcount := Lib.countP_le_potential (I := fun _ => True) SendState.left SendOp.isStep
      (fun _ => false) 0 (fun _ _ _ _ _ => trivial) (fun _ _ _ _ _ hx => left_sendExec hx)
      trivial hrun
    have hstart : (handed card skb port).left = 20 := rfl
    omega

/-- `work_handler` reads the completion and releases the skb. -/
def completes : List SendOp := List.replicate 3 .handler

/-- A packet that is padded, sent and completed. -/
def sentRun : List SendOp := List.replicate 19 (.step true (some 0x1000)) ++ .store :: completes

theorem tx_skb_linear_iff_sentRun :
    SendState.Linear ((sentRun.foldlM sendExec
      (handed (nf10ProbeRings Card.zeroed) ⟨1, 10⟩ 0)).get (by decide +kernel)) :=
  (tx_skb_linear_iff (nf10ProbeRings Card.zeroed) ⟨1, 10⟩ 0
    (Option.some_get (by decide +kernel)).symm).1 (by decide +kernel)

/-- The packet is short and cannot be padded. -/
def unpaddedRun : List SendOp :=
  List.replicate 19 (.step false (some 0x1000)) ++ .store :: completes

/-- The packet is completed before `nf10i_tx` reads its length. -/
def completedEarlyRun : List SendOp :=
  List.replicate 16 (.step true (some 0x1000)) ++ .store :: completes ++ [.step true none]

/-- The driver is out of step with the card: the completion of the packet that had the slot
before comes when the books have the skb already, and its own comes a round later. -/
def outOfStepRun : List SendOp :=
  List.replicate 17 (.step true (some 0x1000)) ++
    .others (fun c => c.storeTxDne 0) :: List.replicate 12 .handler ++
    .store :: .others (fun c => c.modifyTx fun r => { r with dne := { r.dne with rdPtr := 0 } }) ::
    completes

theorem tx_skb_not_linear :
    ¬SendState.Linear ((unpaddedRun.foldlM sendExec
      (handed (nf10ProbeRings Card.zeroed) ⟨1, 10⟩ 0)).get (by decide +kernel)) ∧
    ¬SendState.Linear ((completedEarlyRun.foldlM sendExec
      (handed (nf10ProbeRings Card.zeroed) ⟨1, 60⟩ 0)).get (by decide +kernel)) ∧
    ¬SendState.Linear ((outOfStepRun.foldlM sendExec
      (handed (nf10ProbeRings Card.zeroed) ⟨1, 60⟩ 0)).get (by decide +kernel)) := by
  refine ⟨fun h => ?_, fun h => ?_, fun h => ?_⟩
  · have honce := h.once
    revert honce
    decide +kernel
  · have hlate := h.notLate
    revert hlate
    decide +kernel
  · have honce := h.once
    revert honce
    decide +kernel

end CodeAnalyze.Nf10
