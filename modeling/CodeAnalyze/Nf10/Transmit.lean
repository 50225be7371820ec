import CodeAnalyze.Lib.Run
import CodeAnalyze.Nf10.History

/-!
# Transmits that fail

`nf10priv_xmit` moves the write pointers on before it maps the packet, and does not move
them back where the mapping fails.  From then on it writes descriptors to other slots than
those the card and `work_handler` go on with.
-/

namespace CodeAnalyze.Nf10

open Lib (Along)

/-- What a failed transmit leaves as it was. -/
structure Restored (c c' : Card) : Prop where
  dsc : c'.tx.dsc = c.tx.dsc
  pkt : c'.tx.pkt = c.tx.pkt
  bkSkb : c'.tx.bkSkb = c.tx.bkSkb
  bkDmaAddr : c'.tx.bkDmaAddr = c.tx.bkDmaAddr
  bkSize : c'.tx.bkSize = c.tx.bkSize
  bkPort : c'.txBkPort = c.txBkPort
  dscMem : c'.tx.dscMem = c.tx.dscMem
  queueStopped : c'.queueStopped = c.queueStopped

/-- The next descriptor is written to the slot that is next for the card, whose completions
are in the order of the accepted packets, and for `work_handler`. -/
structure InStep (s : State) : Prop where
  card : s.card.tx.dsc.wrPtr.toNat = 64 * (s.txAccepted.length % ringSize)
  workHandler : s.card.tx.dsc.wrPtr.toNat =
    (s.card.tx.dne.rdPtr.toNat + 64 * s.card.tx.dsc.cnt.toNat) % (s.card.tx.dsc.mask.toNat + 1)

/-- The write pointers lead back to where they are. -/
def Stays (c : Card) (len : UInt32) : Prop :=
  (c.tx.pkt.wrPtr + 64 * Card.txClSize len) &&& c.tx.pkt.mask = c.tx.pkt.wrPtr ∧
    (c.tx.dsc.wrPtr + 64) &&& c.tx.dsc.mask = c.tx.dsc.wrPtr

theorem Restored.refl (c : Card) : Restored c c := ⟨rfl, rfl, rfl, rfl, rfl, rfl, rfl, rfl⟩

/-- A reservation that is given up has moved both write pointers on. -/
theorem restored_reserve_iff (c : Card) (len : UInt32) :
    Restored c (c.modifyTx fun r => r.reserve (Card.txClSize len)) ↔ Stays c len := by
  constructor
  · intro h
    exact ⟨congrArg Nf10mem.wrPtr h.pkt, congrArg Nf10mem.wrPtr h.dsc⟩
  · intro h
    have hpkt : Ring.advanceWr c.tx.pkt (64 * Card.txClSize len) = c.tx.pkt := by
      unfold Ring.advanceWr
      rw [h.1]
    have hdsc : Ring.advanceWr c.tx.dsc 64 = c.tx.dsc := by
      unfold Ring.advanceWr
      rw [h.2]
    exact ⟨hdsc, hpkt, rfl, rfl, rfl, rfl, rfl, rfl⟩

/-- When a failed transmit leaves everything as it was, in any state of the card. -/
theorem restored_iff (c : Card) (skb : SkBuff) (port : Port) (dma : Option UInt64) :
    ((c.nf10privXmit skb port dma).1 = -1 → Restored c (c.nf10privXmit skb port dma).2) ↔
      (c.tx.fits (Card.txClSize skb.len) = true → dma = none → Stays c skb.len) := by
  cases hfits : c.tx.fits (Card.txClSize skb.len) with
  | false =>
      rw [Card.nf10privXmit_full _ _ _ _ hfits]
      simp [Restored.refl]
  | true =>
      cases dma with
      | none =>
          rw [Card.nf10privXmit_unmapped _ _ _ hfits]
          simp [restored_reserve_iff]
      | some dmaAddr =>
          obtain ⟨c', hret, -⟩ := c.nf10privXmit_sent skb port dmaAddr hfits
          rw [hret]
          simp

variable {s s' : State} {h : History} {op : Op}

theorem Consistent.inStep (hs : Consistent s h) : InStep s where
  card := by rw [hs.tx.accepted, List.length_map]; exact hs.tx.ring.wrPtr
  workHandler := hs.tx.ring.intact.wrPtr

/-- A packet that fits and cannot be mapped brings the write pointer out of step. -/
theorem inStep_mapsOk (hs : Consistent s h) (hx : exec s op = some s') (hstep : InStep s') :
    MapsOk s op := by
  cases op with
  | xmit skb port dma =>
      cases dma with
      | some dmaAddr => trivial
      | none =>
          by_contra hfull
          have hfits : s.card.tx.fits (Card.txClSize skb.len) = true := by simpa [MapsOk] using hfull
          simp only [exec, Option.some.injEq, Card.nf10privXmit_unmapped _ _ _ hfits] at hx
          subst hx
          have hmoved : ((s.card.tx.dsc.wrPtr + 64) &&& s.card.tx.dsc.mask).toNat =
              64 * (s.txAccepted.length % ringSize) := hstep.card
          have hslot := hs.inStep.card
          rw [Lib.toNat_add_and_mask (k := 11) (by decide)
            (by rw [hs.tx.ring.setUp.dscMask]; rfl), hslot] at hmoved
          simp only [ringSize, UInt64.reduceToNat] at hmoved
          omega
  | _ => trivial

/-- A failed transmit leaves the ring as it was, in any state of the card, unless a packet
fits and cannot be mapped; and the driver stays in step with the card along the runs in
which that does not happen, and along no others. -/
theorem failed_xmit_iff (raw : Card) {ops : List Op} {s : State}
    (hrun : ops.foldlM exec (probed raw) = some s) :
    (∀ (c : Card) (skb : SkBuff) (port : Port) (dma : Option UInt64),
      ((c.nf10privXmit skb port dma).1 = -1 → Restored c (c.nf10privXmit skb port dma).2) ↔
        (c.tx.fits (Card.txClSize skb.len) = true → dma = none → Stays c skb.len)) ∧
    (Along exec (fun s op => ∀ s', exec s op = some s' → InStep s') (probed raw) ops ↔
      Along exec MapsOk (probed raw) ops) := by
  refine ⟨restored_iff, ?_⟩
  refine Lib.along_congr (I := fun s => ∃ h, Consistent s h) (Q := fun _ => True) ?_ ?_
    ⟨{}, consistent_probed raw⟩ (fun _ _ => trivial) hrun
  · intro s op s' hI _ hx
    obtain ⟨h, hs⟩ := hI
    exact ⟨fun hstep => inStep_mapsOk hs hx (hstep s' hx),
      fun hok s₁ hx₁ => (hs.step hok hx₁).inStep⟩
  · intro s op s' hI _ hstep hx
    obtain ⟨h, hs⟩ := hI
    exact ⟨h.next s op, hs.step (inStep_mapsOk hs hx (hstep s' hx)) hx⟩

/-- A packet that is mapped, and one that is not. -/
def mappedThenNot : List Op := [.xmit ⟨1, 60⟩ 0 (some 0x1000), .xmit ⟨2, 60⟩ 0 none]

theorem failed_xmit_iff_mappedThenNot :
    (∀ (c : Card) (skb : SkBuff) (port : Port) (dma : Option UInt64),
      ((c.nf10privXmit skb port dma).1 = -1 → Restored c (c.nf10privXmit skb port dma).2) ↔
        (c.tx.fits (Card.txClSize skb.len) = true → dma = none → Stays c skb.len)) ∧
    (Along exec (fun s op => ∀ s', exec s op = some s' → InStep s') (probed Card.zeroed)
        mappedThenNot ↔
      Along exec MapsOk (probed Card.zeroed) mappedThenNot) :=
  failed_xmit_iff Card.zeroed
    (s := (mappedThenNot.foldlM exec (probed Card.zeroed)).get (by decide +kernel))
    (Option.some_get _).symm

/-- The first packet after `nf10_probe` cannot be mapped. -/
theorem unmapped_not_restored :
    ((nf10ProbeRings Card.zeroed).nf10privXmit ⟨1, 60⟩ 0 none).1 = -1 ∧
      ¬Restored (nf10ProbeRings Card.zeroed)
        ((nf10ProbeRings Card.zeroed).nf10privXmit ⟨1, 60⟩ 0 none).2 := by
  refine ⟨by decide +kernel, fun h => ?_⟩
  have hdsc := h.dsc
  revert hdsc
  decide +kernel

end CodeAnalyze.Nf10
