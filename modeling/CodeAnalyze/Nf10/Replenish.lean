import CodeAnalyze.Nf10.History

/-!
# Replenishment of the RX ring

`nf10iface_probe` gives the card as many descriptors as the packet memory has room for.
`work_handler` tries to replace each descriptor it takes back, once.  One for which no skb
could be allocated is therefore missing for good.
-/

namespace CodeAnalyze.Nf10

open Lib (wordSum)

/-- The attempts of `nf10iface_probe`. -/
def probeAttempts (raw : Card) : ℕ := (nf10ProbeRings raw).rx.dsc.clSize.toNat - 2

/-- The state when `nf10iface_probe` has given descriptors to the card. -/
def started (raw : Card) (allocs : List (Option ℕ × UInt64)) : State :=
  { card := postRxDscs (nf10ProbeRings raw) allocs }

/-- The card after `nf10iface_probe` if no allocation fails. -/
def fullCard (raw : Card) : Card :=
  postRxDscs (nf10ProbeRings raw) (List.replicate (probeAttempts raw) (some 0, 0))

/-- The card owns as many descriptors as after an `nf10iface_probe` without failures, and no
further descriptor fits. -/
structure Refilled (raw c : Card) : Prop where
  cnt : c.rx.dsc.cnt = (fullCard raw).rx.dsc.cnt
  noRoom : c.rx.fits Card.rxClSize = false

/-- The attempts without an skb. -/
def failures (allocs : List (Option ℕ × UInt64)) : ℕ :=
  allocs.countP fun alloc => alloc.1.isNone

namespace Op

/-- `work_handler` gets no skb for the descriptor it takes back. -/
def replenishFails : Op → Bool
  | handleRx none _ => true
  | _ => false

def isSendRxDsc : Op → Bool
  | sendRxDsc _ _ => true
  | _ => false

end Op

/-! ## The room for descriptors -/

/-- All descriptors in the RX ring have the same size. -/
structure RxSized (s : State) (h : History) : Prop where
  rx : RxConsistent s h
  sizes : ∀ e ∈ h.rxGiven, e.2.2 = Card.rxClSize

variable {raw : Card} {s s' : State} {h : History} {op : Op}

theorem wordSum_of_sizes {given : List Entry} (h : ∀ e ∈ given, e.2.2 = Card.rxClSize) :
    wordSum (·.2.2) given = 24 * given.length := by
  induction given with
  | nil => rfl
  | cons e rest ih =>
      obtain ⟨he, hrest⟩ := List.forall_mem_cons.mp h
      rw [Lib.wordSum_cons, ih hrest, he, Card.toNat_rxClSize, List.length_cons]
      omega

/-- The lines of a ring in which all descriptors have the same size. -/
theorem agrees_pktCnt {r : Ring} {handled : ℕ} {given : List Entry}
    (h : r.Agrees handled given) (hsizes : ∀ e ∈ given, e.2.2 = Card.rxClSize) :
    r.pkt.cnt.toNat = 24 * r.dsc.cnt.toNat := by
  have hcnt := h.dscCnt
  rw [h.pktCnt, wordSum_of_sizes fun e he => hsizes e (List.mem_of_mem_drop he),
    List.length_drop]
  omega

/-- The packet memory has room for 21 descriptors. -/
theorem agrees_fits_iff {r : Ring} {handled : ℕ} {given : List Entry}
    (h : r.Agrees handled given) (hsizes : ∀ e ∈ given, e.2.2 = Card.rxClSize) :
    r.fits Card.rxClSize = true ↔ r.dsc.cnt.toNat < 21 := by
  have hlines := agrees_pktCnt h hsizes
  rw [h.fits_iff (by rw [Card.toNat_rxClSize]; decide), Card.toNat_rxClSize, hlines]
  simp only [ringSize]
  omega

theorem RxSized.cnt_le (hs : RxSized s h) : s.card.rx.dsc.cnt.toNat ≤ 21 := by
  have hlines := agrees_pktCnt hs.rx.ring hs.sizes
  have hfits := hs.rx.ring.pktFits
  omega

theorem sizes_rxGives {c : Card} {alloc : Option ℕ} {dmaAddr : UInt64} {e : Entry}
    (he : e ∈ c.rxGives dmaAddr alloc) : e.2.2 = Card.rxClSize := by
  cases alloc with
  | none => cases he
  | some ptr =>
      rw [Card.rxGives, List.mem_ite_nil_right, List.mem_singleton] at he
      rw [he.2]
      rfl

/-- A call adds a descriptor if there is room and an skb. -/
theorem length_rxGives (hs : RxSized s h) (alloc : Option ℕ) (dmaAddr : UInt64) :
    (s.card.rxGives dmaAddr alloc).length =
      if s.card.rx.dsc.cnt.toNat < 21 ∧ alloc.isSome = true then 1 else 0 := by
  have hfits := agrees_fits_iff hs.rx.ring hs.sizes
  cases alloc with
  | none => simp [Card.rxGives]
  | some ptr =>
      by_cases hroom : s.card.rx.dsc.cnt.toNat < 21
      · simp [Card.rxGives, hfits.mpr hroom, hroom]
      · have hfull : s.card.rx.fits Card.rxClSize = false := by
          rw [← Bool.not_eq_true, hfits]
          exact hroom
        simp [Card.rxGives, hfull, hroom]

/-! ## `nf10iface_probe` -/

theorem failures_cons (alloc : Option ℕ) (dmaAddr : UInt64) (rest : List (Option ℕ × UInt64)) :
    failures ((alloc, dmaAddr) :: rest) =
      failures rest + if alloc.isSome = true then 0 else 1 := by
  cases alloc <;> simp [failures]

theorem failures_le (allocs : List (Option ℕ × UInt64)) : failures allocs ≤ allocs.length :=
  List.countP_le_length

theorem rxSized_probed (raw : Card) : RxSized { card := nf10ProbeRings raw } {} where
  rx := (consistent_probed raw).rx
  sizes := by simp

/-- The descriptors the card has after the loop. -/
theorem RxSized.post {c : Card} (hs : RxSized { card := c } h)
    (allocs : List (Option ℕ × UInt64)) :
    ∃ h', RxSized { card := postRxDscs c allocs } h' ∧
      (postRxDscs c allocs).rx.dsc.cnt.toNat =
        min 21 (c.rx.dsc.cnt.toNat + (allocs.length - failures allocs)) := by
  induction allocs generalizing c h with
  | nil =>
      have hle := hs.cnt_le
      refine ⟨h, hs, ?_⟩
      simp only [postRxDscs, List.foldl_nil, failures, List.countP_nil, List.length_nil]
      simp only at hle
      omega
  | cons first rest ih =>
      obtain ⟨alloc, dmaAddr⟩ := first
      have hpost := c.nf10privSendRxDsc_spec dmaAddr alloc
      have hs' : RxSized { card := (c.nf10privSendRxDsc alloc dmaAddr).2 }
          { h with rxGiven := h.rxGiven ++ c.rxGives dmaAddr alloc } :=
        { rx := hs.rx.post hpost rfl rfl rfl
          sizes := by
            intro e he
            rcases List.mem_append.mp he with hold | hnew
            · exact hs.sizes e hold
            · exact sizes_rxGives hnew }
      obtain ⟨h', hs'', hcnt⟩ := ih hs'
      refine ⟨h', hs'', ?_⟩
      have hbefore := hs.rx.ring.dscCnt
      have hafter := hs'.rx.ring.dscCnt
      have hlen := length_rxGives hs alloc dmaAddr
      have hle := hs.cnt_le
      have hrest := failures_le rest
      simp only [List.length_append] at hafter hbefore hlen hle
      change (postRxDscs (c.nf10privSendRxDsc alloc dmaAddr).2 rest).rx.dsc.cnt.toNat = _
      rw [hcnt, failures_cons, List.length_cons]
      cases hsome : alloc.isSome with
      | false =>
          simp only [hsome, Bool.false_eq_true, and_false, if_false] at hlen ⊢
          omega
      | true =>
          simp only [hsome, and_true, if_true] at hlen ⊢
          split at hlen <;> omega

theorem RxSized.step (hs : RxSized s h) (hx : exec s op = some s') :
    RxSized s' (h.next s op) where
  rx := hs.rx.step hx
  sizes := by
    intro e he
    rcases List.mem_append.mp he with hold | hnew
    · exact hs.sizes e hold
    · cases op with
      | sendRxDsc alloc dmaAddr => exact sizes_rxGives hnew
      | handleRx alloc dmaAddr => exact sizes_rxGives hnew
      | _ => cases hnew

/-! ## `work_handler` -/

/-- A descriptor taken back leaves room for the next. -/
theorem length_takeRx_rxGives (hs : RxSized s h) (hdone : Card.rxDone s.card.rxInt = true)
    (alloc : Option ℕ) (dmaAddr : UInt64) :
    (s.card.takeRx.rxGives dmaAddr alloc).length = if alloc.isSome = true then 1 else 0 := by
  have hlt := hs.rx.handled_lt hdone
  have hcnt := hs.rx.ring.dscCnt
  have htaken := hs.rx.ring.take hlt
  have hcnt' := htaken.dscCnt
  have hle := hs.cnt_le
  have hroom : s.card.takeRx.rx.fits Card.rxClSize = true := by
    change s.card.rx.take.fits Card.rxClSize = true
    rw [agrees_fits_iff htaken hs.sizes]
    omega
  cases alloc with
  | none => rfl
  | some ptr => simp [Card.rxGives, hroom]

/-- Only a replenishment that fails changes the number of descriptors. -/
theorem RxSized.cnt_step (hs : RxSized s h) (hx : exec s op = some s')
    (hop : op.isSendRxDsc = false) :
    s'.card.rx.dsc.cnt.toNat + (if op.replenishFails = true then 1 else 0) =
      s.card.rx.dsc.cnt.toNat := by
  have hbefore := hs.rx.ring.dscCnt
  have hafter := (hs.rx.step hx).ring.dscCnt
  simp only [History.next, List.length_append] at hafter
  cases op with
  | sendRxDsc alloc dmaAddr => cases hop
  | handleRx alloc dmaAddr =>
      simp only [exec, Option.ite_none_right_eq_some] at hx
      have hlen := length_takeRx_rxGives hs hx.1 alloc dmaAddr
      simp only [State.rxGives, Op.rxHandles, hlen] at hafter
      cases alloc with
      | none =>
          simp only [Option.isSome_none, Bool.false_eq_true, if_false] at hafter
          simp only [Op.replenishFails, if_true]
          omega
      | some ptr =>
          simp only [Option.isSome_some, if_true] at hafter
          simp only [Op.replenishFails, Bool.false_eq_true, if_false]
          omega
  | _ =>
      simp only [State.rxGives, Op.rxHandles, List.length_nil] at hafter
      simp only [Op.replenishFails, Bool.false_eq_true, if_false]
      omega

theorem RxSized.cnt_run {ops : List Op} (hs : RxSized s h)
    (hops : ∀ op ∈ ops, op.isSendRxDsc = false) (hrun : ops.foldlM exec s = some s') :
    (∃ h', RxSized s' h') ∧
      s'.card.rx.dsc.cnt.toNat + ops.countP Op.replenishFails = s.card.rx.dsc.cnt.toNat := by
  induction ops generalizing s h with
  | nil =>
      rw [List.foldlM_nil] at hrun
      cases hrun
      exact ⟨⟨h, hs⟩, rfl⟩
  | cons op rest ih =>
      rw [List.foldlM_cons] at hrun
      obtain ⟨mid, hmid, hrest⟩ := Option.bind_eq_some_iff.mp hrun
      obtain ⟨hhead, htail⟩ := List.forall_mem_cons.mp hops
      obtain ⟨hs', hcnt⟩ := ih (hs.step hmid) htail hrest
      have hstep := hs.cnt_step hmid hhead
      refine ⟨hs', ?_⟩
      rw [List.countP_cons]
      omega

theorem RxSized.refilled_iff (hs : RxSized s h) (raw : Card) :
    Refilled raw s.card ↔ s.card.rx.dsc.cnt.toNat = 21 := by
  obtain ⟨-, -, hfull⟩ := (rxSized_probed raw).post
    (List.replicate (probeAttempts raw) (some 0, 0))
  have hcnt : (fullCard raw).rx.dsc.cnt.toNat = 21 := by
    have hstart : (nf10ProbeRings raw).rx.dsc.cnt.toNat = 0 := rfl
    have hattempts : probeAttempts raw = 30 := rfl
    have hfail : failures (List.replicate (probeAttempts raw) (some 0, 0)) = 0 := by
      simp [failures, List.countP_replicate]
    rw [fullCard, hfull, hfail, List.length_replicate, hstart, hattempts]
    rfl
  have hfits := agrees_fits_iff hs.rx.ring hs.sizes
  constructor
  · intro h
    rw [h.cnt, hcnt]
  · intro h21
    refine ⟨UInt64.toNat_inj.mp (h21.trans hcnt.symm), ?_⟩
    rw [← Bool.not_eq_true, hfits]
    omega

/-- After a completion whose replenishment succeeded the card owns all descriptors again
exactly if at most 9 of the 30 attempts of `nf10iface_probe` failed, and no replenishment
before. -/
theorem ring_refilled_iff (raw : Card) {allocs : List (Option ℕ × UInt64)}
    (hlen : allocs.length = probeAttempts raw) {ops : List Op} {ptr : ℕ} {dmaAddr : UInt64}
    {s : State} (hops : ∀ op ∈ ops, op.isSendRxDsc = false)
    (hrun : (ops ++ [Op.handleRx (some ptr) dmaAddr]).foldlM exec (started raw allocs) = some s) :
    Refilled raw s.card ↔ failures allocs ≤ 9 ∧ ∀ op ∈ ops, op.replenishFails = false := by
  obtain ⟨h, hs, hposted⟩ := (rxSized_probed raw).post allocs
  have hall : ∀ op ∈ ops ++ [Op.handleRx (some ptr) dmaAddr], op.isSendRxDsc = false := by
    intro op hop
    rcases List.mem_append.mp hop with hold | hlast
    · exact hops op hold
    · rw [List.mem_singleton.mp hlast]
      rfl
  obtain ⟨⟨h', hs'⟩, hcnt⟩ := hs.cnt_run hall hrun
  have hattempts : probeAttempts raw = 30 := rfl
  have hfail := failures_le allocs
  have hlast : (ops ++ [Op.handleRx (some ptr) dmaAddr]).countP Op.replenishFails =
      ops.countP Op.replenishFails := by
    rw [List.countP_append]
    rfl
  have hnone : ops.countP Op.replenishFails = 0 ↔ ∀ op ∈ ops, op.replenishFails = false := by
    rw [List.countP_eq_zero]
    simp only [Bool.not_eq_true]
  have hstart : (nf10ProbeRings raw).rx.dsc.cnt.toNat = 0 := rfl
  rw [hs'.refilled_iff raw, ← hnone]
  change (started raw allocs).card.rx.dsc.cnt.toNat = _ at hposted
  rw [hstart, hlen, hattempts] at hposted
  change _ = (started raw allocs).card.rx.dsc.cnt.toNat at hcnt
  omega

/-- All attempts of `nf10iface_probe` succeed. -/
def allSucceed : List (Option ℕ × UInt64) := (List.range 30).map fun i => (some i, 0x1000)

/-- One packet of 60 bytes is received; its skb cannot be replaced. -/
def missedOnce : List Op := [.storeRx 0x0200003c, .handleRx none 0, .storeRx 0x0200003c]

theorem ring_refilled_iff_missedOnce :
    Refilled Card.zeroed (((missedOnce ++ [Op.handleRx (some 30) 0x2000]).foldlM exec
        (started Card.zeroed allSucceed)).get (by decide +kernel)).card ↔
      failures allSucceed ≤ 9 ∧ ∀ op ∈ missedOnce, op.replenishFails = false :=
  ring_refilled_iff Card.zeroed (by rfl) (by decide) (Option.some_get _).symm

/-- After the next packet, which is replaced, the card owns 20 descriptors instead of 21. -/
theorem missedOnce_not_refilled :
    ∃ s, (missedOnce ++ [Op.handleRx (some 30) 0x2000]).foldlM exec
        (started Card.zeroed allSucceed) = some s ∧
      s.card.rx.dsc.cnt = 20 ∧ ¬Refilled Card.zeroed s.card := by
  refine ⟨((missedOnce ++ [Op.handleRx (some 30) 0x2000]).foldlM exec
    (started Card.zeroed allSucceed)).get (by decide +kernel), (Option.some_get _).symm,
    by decide +kernel, fun hrefilled => ?_⟩
  have hcnt := hrefilled.cnt
  revert hcnt
  decide +kernel

end CodeAnalyze.Nf10
