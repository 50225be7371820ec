import CodeAnalyze.Nf10.Network

/-!
# The rings as the queues of an interface

The history of the rings ties the driver to the interface.  What it has given to a ring and
not handled is what is in the queues, and the number of completions that the card has stored
says where the one queue of a direction ends and the other begins.
-/

namespace CodeAnalyze.Nf10

open Lib (wordSum)
open Lib.Ring (contents)

/-! ## Descriptors -/

/-- The card finds in a descriptor what the driver has put there. -/
theorem Descriptor.unpack_pack {len ports : UInt64} (addr dmaAddr : UInt64)
    (hlen : len.toNat < 2 ^ 16) (hports : ports.toNat < 2 ^ 16) :
    Descriptor.unpack (Placement.pack len ports addr) dmaAddr = ⟨len, ports, dmaAddr⟩ := by
  have hlow : (addr &&& 0xffffffff).toNat < 2 ^ 32 := by
    rw [toNat_and_mask (k := 32) rfl]
    exact Nat.mod_lt _ (by decide)
  have hpack : Placement.pack len ports addr = Placement.pack len ports (addr &&& 0xffffffff) := by
    simp only [Placement.pack, UInt64.and_assoc, UInt64.and_self]
  have hword := Placement.toNat_pack hlen hports hlow
  rw [← hpack] at hword
  have hshift48 : (Placement.pack len ports addr >>> 48).toNat = len.toNat := by
    rw [UInt64.toNat_shiftRight, hword, Nat.shiftRight_eq_div_pow]
    simp only [UInt64.reduceToNat, Nat.reduceMod]
    omega
  have hshift32 : ((Placement.pack len ports addr >>> 32) &&& 0xffff).toNat = ports.toNat := by
    rw [toNat_and_mask (k := 16) rfl, UInt64.toNat_shiftRight, hword, Nat.shiftRight_eq_div_pow]
    simp only [UInt64.reduceToNat, Nat.reduceMod]
    omega
  unfold unpack
  rw [UInt64.toNat_inj.mp hshift48, UInt64.toNat_inj.mp hshift32]

/-- A descriptor is written to its slot. -/
theorem Ring.descriptor_writeDsc (r : Ring) (i : ℕ) (dscL0 dscL1 : UInt64) :
    (r.writeDsc i dscL0 dscL1).descriptor =
      Function.update r.descriptor i (.unpack dscL0 dscL1) := by
  have hwords : (r.writeDsc i dscL0 dscL1).dscMem =
      Function.update (Function.update r.dscMem (8 * i) dscL0) (8 * i + 1) dscL1 := rfl
  funext j
  unfold Ring.descriptor
  rw [hwords]
  by_cases hj : j = i
  · subst hj
    simp
  · have hfirst : 8 * j ≠ 8 * i := by omega
    have hsecond : 8 * j + 1 ≠ 8 * i + 1 := by omega
    have heven : 8 * j ≠ 8 * i + 1 := by omega
    have hodd : 8 * j + 1 ≠ 8 * i := by omega
    simp only [Function.update_of_ne hj, Function.update_of_ne hfirst,
      Function.update_of_ne hsecond, Function.update_of_ne heven, Function.update_of_ne hodd]

/-- Nothing else writes descriptors. -/
theorem Ring.descriptor_congr {r r' : Ring} (h : r'.dscMem = r.dscMem) :
    r'.descriptor = r.descriptor := by
  funext i
  unfold Ring.descriptor
  rw [h]

/-! ## What the calls do to the queues of the kernel -/

namespace Card

variable (c : Card)

/-- The queue of the port stops where a packet of full length would not fit. -/
theorem queueStopped_nf10privXmit {skb : SkBuff} (port : Port) (dmaAddr : UInt64)
    (hfits : c.tx.fits (txClSize skb.len) = true) :
    (c.nf10privXmit skb port (some dmaAddr)).2.queueStopped =
      if (c.nf10privXmit skb port (some dmaAddr)).2.txHasRoom then c.queueStopped
      else Function.update c.queueStopped port true := by
  unfold nf10privXmit
  simp only [hfits, if_true]
  split
  next hroom => exact (if_pos hroom).symm
  next hfull => exact (if_neg hfull).symm

theorem portUp_nf10privXmit {skb : SkBuff} (port : Port) (dmaAddr : UInt64)
    (hfits : c.tx.fits (txClSize skb.len) = true) :
    (c.nf10privXmit skb port (some dmaAddr)).2.portUp = c.portUp := by
  unfold nf10privXmit
  simp only [hfits, if_true]
  split <;> rfl

/-- All the queues run again where there is room. -/
theorem queueStopped_handleTx :
    c.handleTx.queueStopped =
      if c.handleTx.txRestarts then fun _ => false else c.queueStopped := by
  have hall (f : Port → Bool) : Function.update (Function.update (Function.update
      (Function.update f 0 false) 1 false) 2 false) 3 false = fun _ => false := by
    funext port
    match port with
    | 0 | 1 | 2 | 3 => rfl
  unfold handleTx
  simp only
  split
  next hroom => exact (hall _).trans (if_pos hroom).symm
  next => rfl

theorem portUp_handleTx : c.handleTx.portUp = c.portUp := by
  unfold handleTx
  simp only
  split <;> rfl

/-- Posting a buffer leaves the devices alone. -/
theorem devices_nf10privSendRxDsc (alloc : Option ℕ) (dmaAddr : UInt64) :
    (c.nf10privSendRxDsc alloc dmaAddr).2.queueStopped = c.queueStopped ∧
      (c.nf10privSendRxDsc alloc dmaAddr).2.portUp = c.portUp := by
  unfold nf10privSendRxDsc
  split
  · cases alloc <;> exact ⟨rfl, rfl⟩
  · exact ⟨rfl, rfl⟩

end Card

/-! ## The relation -/

/-- What the books have for a packet. -/
def TxPacket.entry (p : TxPacket) : Entry := (p.skb, p.dmaAddr, Card.txClSize p.skb.len)

/-- What the books have for a buffer. -/
def RxBuffer.entry (b : RxBuffer) : Entry := Card.rxEntry b.ptr b.dmaAddr

/-- The TX ring holds the packets that are in flight. -/
structure TxMirrors (d : State) (h : History) (n : Nic) : Prop where
  entries : h.txGiven.drop h.txHandled = n.inFlight.map TxPacket.entry
  stored : d.txStored = h.txHandled + n.sent.length
  short : ∀ p ∈ n.inFlight, p.skb.len ≤ 1514
  descriptors : contents d.card.tx.descriptor ringSize h.txHandled n.inFlight.length =
    n.inFlight.map TxPacket.descriptor

/-- The RX ring holds the buffers, and the completion words say what is in those filled. -/
structure RxMirrors (d : State) (h : History) (n : Nic) : Prop where
  entries : h.rxGiven.drop h.rxHandled = n.buffers.map RxBuffer.entry
  stored : d.rxStored = h.rxHandled + n.filled.length
  words : contents (fun i => d.card.hostRxDne (8 * i + 7)) ringSize h.rxHandled
    n.filled.length = n.filled.map (·.2)
  descriptors : contents d.card.rx.descriptor ringSize h.rxHandled n.buffers.length =
    n.buffers.map RxBuffer.descriptor

structure Mirrors (s : NetState) (n : Nic) (h : History) : Prop where
  consistent : Consistent s.driver h
  tx : TxMirrors s.driver h n
  rx : RxMirrors s.driver h n
  observed : s.observed = n.toObservation

theorem mirrors_netProbed (raw : Card) : Mirrors (netProbed raw) {} {} where
  consistent := consistent_probed raw
  tx := { entries := rfl, stored := rfl, short := fun _ hp => absurd hp List.not_mem_nil
          descriptors := rfl }
  rx := { entries := rfl, stored := rfl, words := rfl, descriptors := rfl }
  observed := rfl

variable {s : NetState} {d d' : State} {n n' : Nic} {h h' : History}

/-- What the TX side depends on. -/
theorem TxMirrors.frame (hs : TxMirrors d h n) (hmem : d'.card.tx.dscMem = d.card.tx.dscMem)
    (hstored : d'.txStored = d.txStored) (hgiven : h'.txGiven = h.txGiven)
    (hhandled : h'.txHandled = h.txHandled) (hsent : n'.sent = n.sent)
    (hwaiting : n'.waiting = n.waiting) : TxMirrors d' h' n' := by
  have hflight : n'.inFlight = n.inFlight := by rw [Nic.inFlight, hsent, hwaiting, Nic.inFlight]
  constructor
  · rw [hgiven, hhandled, hflight]
    exact hs.entries
  · rw [hstored, hhandled, hsent]
    exact hs.stored
  · rw [hflight]
    exact hs.short
  · rw [Ring.descriptor_congr hmem, hhandled, hflight]
    exact hs.descriptors

/-- What the RX side depends on. -/
theorem RxMirrors.frame (hs : RxMirrors d h n) (hmem : d'.card.rx.dscMem = d.card.rx.dscMem)
    (hwords : d'.card.hostRxDne = d.card.hostRxDne) (hstored : d'.rxStored = d.rxStored)
    (hgiven : h'.rxGiven = h.rxGiven) (hhandled : h'.rxHandled = h.rxHandled)
    (hfilled : n'.filled = n.filled) (hposted : n'.posted = n.posted) : RxMirrors d' h' n' := by
  have hbuffers : n'.buffers = n.buffers := by rw [Nic.buffers, hfilled, hposted, Nic.buffers]
  constructor
  · rw [hgiven, hhandled, hbuffers]
    exact hs.entries
  · rw [hstored, hhandled, hfilled]
    exact hs.stored
  · rw [hwords, hhandled, hfilled]
    exact hs.words
  · rw [Ring.descriptor_congr hmem, hhandled, hbuffers]
    exact hs.descriptors

/-! ## Room -/

/-- The number of descriptors that are outstanding. -/
theorem TxMirrors.dscCnt (hs : TxMirrors d h n) (hring : d.card.tx.Agrees h.txHandled h.txGiven) :
    d.card.tx.dsc.cnt.toNat = n.inFlight.length := by
  have hcnt := hring.dscCnt
  have hlen := congrArg List.length hs.entries
  rw [List.length_drop, List.length_map] at hlen
  omega

theorem RxMirrors.dscCnt (hs : RxMirrors d h n) (hring : d.card.rx.Agrees h.rxHandled h.rxGiven) :
    d.card.rx.dsc.cnt.toNat = n.buffers.length := by
  have hcnt := hring.dscCnt
  have hlen := congrArg List.length hs.entries
  rw [List.length_drop, List.length_map] at hlen
  omega

theorem wordSum_txEntries (packets : List TxPacket) (hshort : ∀ p ∈ packets, p.skb.len ≤ 1514) :
    wordSum (·.2.2) (packets.map TxPacket.entry) = Nic.totalLines packets := by
  induction packets with
  | nil => rfl
  | cons p rest ih =>
      obtain ⟨hp, hrest⟩ := List.forall_mem_cons.mp hshort
      rw [List.map_cons, Lib.wordSum_cons, ih hrest]
      change (Card.txClSize p.skb.len).toNat + _ = _
      rw [Card.toNat_txClSize hp]
      rfl

theorem wordSum_rxEntries (buffers : List RxBuffer) :
    wordSum (·.2.2) (buffers.map RxBuffer.entry) = 24 * buffers.length := by
  induction buffers with
  | nil => rfl
  | cons b rest ih =>
      rw [List.map_cons, Lib.wordSum_cons, ih, List.length_cons, Nat.mul_succ, Nat.add_comm]
      rfl

/-- The lines that are in use. -/
theorem TxMirrors.pktCnt (hs : TxMirrors d h n) (hring : d.card.tx.Agrees h.txHandled h.txGiven) :
    d.card.tx.pkt.cnt.toNat = Nic.totalLines n.inFlight := by
  rw [hring.pktCnt, hs.entries, wordSum_txEntries _ hs.short]

/-- The tests of the driver are those of the interface. -/
theorem TxMirrors.room (hs : TxMirrors d h n) (hring : d.card.tx.Agrees h.txHandled h.txGiven)
    (packets lines : UInt64) (hpackets : packets.toNat < 2 ^ 32) (hlines : lines.toNat < 2 ^ 32) :
    (decide (d.card.tx.dsc.cnt + packets ≤ d.card.tx.dsc.clSize) &&
      decide (d.card.tx.pkt.cnt + lines ≤ d.card.tx.pkt.clSize)) =
    n.txRoom packets.toNat lines.toNat := by
  have hdsc := hring.dscFits
  have hpkt := hring.pktFits
  have hsum : (d.card.tx.dsc.cnt + packets).toNat = d.card.tx.dsc.cnt.toNat + packets.toNat :=
    Lib.toNat_add_of_lt (by simp only [ringSize] at hdsc; omega)
  have hsum' : (d.card.tx.pkt.cnt + lines).toNat = d.card.tx.pkt.cnt.toNat + lines.toNat :=
    Lib.toNat_add_of_lt (by omega)
  unfold Nic.txRoom
  rw [hring.setUp.dscClSize, hring.setUp.pktClSize]
  simp only [UInt64.le_iff_toNat_le, hsum, hsum', hs.dscCnt hring, hs.pktCnt hring]
  rfl

/-- A buffer fits where the interface has less than it can have. -/
theorem RxMirrors.fits (hs : RxMirrors d h n) (hring : d.card.rx.Agrees h.rxHandled h.rxGiven) :
    d.card.rx.fits Card.rxClSize = decide (n.buffers.length < Nic.rxCapacity) := by
  have hcnt := hs.dscCnt hring
  have hlines : d.card.rx.pkt.cnt.toNat = 24 * n.buffers.length := by
    rw [hring.pktCnt, hs.entries, wordSum_rxEntries]
  rw [Bool.eq_iff_iff, decide_eq_true_iff, hring.fits_iff (by rw [Card.toNat_rxClSize]; decide),
    hcnt, hlines, Card.toNat_rxClSize]
  simp only [ringSize, Nic.rxCapacity]
  omega

/-! ## Transmission -/

/-- The card finds the packets in flight in the slots from the oldest on. -/
theorem TxMirrors.descriptor_eq (hs : TxMirrors d h n) {k : ℕ} (hk : k < n.inFlight.length) :
    d.card.tx.descriptor ((h.txHandled + k) % ringSize) = n.inFlight[k].descriptor :=
  Lib.Ring.slot_of_contents hs.descriptors hk

/-- A packet is put behind the others. -/
theorem TxMirrors.accept (hs : TxMirrors d h n) (hring : d.card.tx.Agrees h.txHandled h.txGiven)
    {p : TxPacket} (hshort : p.skb.len ≤ 1514)
    (hfits : d.card.tx.fits (Card.txClSize p.skb.len) = true)
    (htx : d'.card.tx = ((d.card.nf10privXmit p.skb p.port (some p.dmaAddr)).2).tx)
    (hstored : d'.txStored = d.txStored)
    (hgiven : h'.txGiven = h.txGiven ++ [p.entry]) (hhandled : h'.txHandled = h.txHandled)
    (hsent : n'.sent = n.sent) (hwaiting : n'.waiting = n.waiting ++ [p]) :
    TxMirrors d' h' n' := by
  have hflight : n'.inFlight = n.inFlight ++ [p] := by
    rw [Nic.inFlight, hsent, hwaiting, ← List.append_assoc]
    rfl
  constructor
  · rw [hgiven, hhandled, hflight, List.drop_append_of_le_length hring.handled_le, hs.entries,
      List.map_append]
    rfl
  · rw [hstored, hhandled, hsent]
    exact hs.stored
  · rw [hflight]
    intro q hq
    rcases List.mem_append.mp hq with hold | hnew
    · exact hs.short q hold
    · rw [List.mem_singleton.mp hnew]
      exact hshort
  · have hlen : p.skb.len.toUInt64.toNat < 2 ^ 16 := by
      have hle : p.skb.len.toNat ≤ 1514 := UInt32.le_iff_toNat_le.mp hshort
      rw [UInt32.toNat_toUInt64]
      omega
    have hcnt := hs.dscCnt hring
    have hroom : n.inFlight.length < ringSize := by
      rw [← hcnt]
      exact ((hring.fits_iff (Card.toNat_txClSize_lt _)).mp hfits).1
    have hslot : Ring.index d.card.tx.dsc.wrPtr =
        (h.txHandled + n.inFlight.length) % ringSize := by
      rw [hring.index_wrPtr, ← hring.dscCnt, hcnt]
    have hports : (Card.portDecoded p.port).toNat < 2 ^ 16 := by
      generalize p.port = port
      revert port
      decide
    -- the descriptor that is written, as the card reads it
    have hunpack : Descriptor.unpack (d.card.txPlacement p.skb p.port p.dmaAddr).dscL0 p.dmaAddr =
        p.descriptor :=
      Descriptor.unpack_pack _ _ hlen hports
    have hmem : d'.card.tx.descriptor =
        Function.update d.card.tx.descriptor ((h.txHandled + n.inFlight.length) % ringSize)
          p.descriptor := by
      rw [htx, Card.tx_nf10privXmit d.card p.port p.dmaAddr hfits, Ring.descriptor_writeDsc,
        hslot, hunpack]
      rfl
    rw [hmem, hhandled, hflight, List.length_append, List.length_singleton,
      Lib.Ring.contents_push _ _ hroom, hs.descriptors, List.map_append]
    rfl

/-- A packet is sent. -/
theorem TxMirrors.send (hs : TxMirrors d h n) {p : TxPacket} {rest : List TxPacket}
    (hhead : n.waiting = p :: rest) (hmem : d'.card.tx.dscMem = d.card.tx.dscMem)
    (hstored : d'.txStored = d.txStored + 1) (hgiven : h'.txGiven = h.txGiven)
    (hhandled : h'.txHandled = h.txHandled) (hsent : n'.sent = n.sent ++ [p])
    (hwaiting : n'.waiting = rest) : TxMirrors d' h' n' := by
  have hflight : n'.inFlight = n.inFlight := by
    rw [Nic.inFlight, hsent, hwaiting, Nic.inFlight, hhead, List.append_assoc,
      List.singleton_append]
  constructor
  · rw [hgiven, hhandled, hflight]
    exact hs.entries
  · rw [hstored, hhandled, hsent, hs.stored, List.length_append, List.length_singleton,
      Nat.add_assoc]
  · rw [hflight]
    exact hs.short
  · rw [Ring.descriptor_congr hmem, hhandled, hflight]
    exact hs.descriptors

/-- The oldest packet is completed. -/
theorem TxMirrors.complete (hs : TxMirrors d h n) {p : TxPacket} {rest : List TxPacket}
    (hhead : n.sent = p :: rest) (hmem : d'.card.tx.dscMem = d.card.tx.dscMem)
    (hstored : d'.txStored = d.txStored) (hgiven : h'.txGiven = h.txGiven)
    (hhandled : h'.txHandled = h.txHandled + 1) (hsent : n'.sent = rest)
    (hwaiting : n'.waiting = n.waiting) : TxMirrors d' h' n' := by
  have hflight : n.inFlight = p :: n'.inFlight := by
    rw [Nic.inFlight, hhead, Nic.inFlight, hsent, hwaiting, List.cons_append]
  have hentries := hs.entries
  have hdescriptors := hs.descriptors
  rw [hflight, List.map_cons] at hentries
  rw [hflight, List.length_cons, Lib.Ring.contents_pop, List.map_cons] at hdescriptors
  constructor
  · rw [hgiven, hhandled, ← List.drop_drop, hentries, List.drop_one, List.tail_cons]
  · have := hs.stored
    rw [hhead, List.length_cons] at this
    rw [hstored, hhandled, hsent]
    omega
  · intro q hq
    refine hs.short q ?_
    rw [hflight]
    exact List.mem_cons_of_mem p hq
  · rw [Ring.descriptor_congr hmem, hhandled]
    exact (List.cons.inj hdescriptors).2

/-! ## Reception -/

theorem RxMirrors.descriptor_eq (hs : RxMirrors d h n) {k : ℕ} (hk : k < n.buffers.length) :
    d.card.rx.descriptor ((h.rxHandled + k) % ringSize) = n.buffers[k].descriptor :=
  Lib.Ring.slot_of_contents hs.descriptors hk

/-- No buffer is posted, or the interface and the ring get the same one. -/
theorem RxMirrors.post_cases (hs : RxMirrors d h n)
    (hring : d.card.rx.Agrees h.rxHandled h.rxGiven) (dmaAddr : UInt64) (alloc : Option ℕ) :
    (d.card.rxGives dmaAddr alloc = [] ∧ (d.card.nf10privSendRxDsc alloc dmaAddr).2 = d.card ∧
      n.post dmaAddr alloc = n) ∨
    ∃ b : RxBuffer, d.card.rxGives dmaAddr alloc = [b.entry] ∧ n.buffers.length < ringSize ∧
      (d.card.nf10privSendRxDsc alloc dmaAddr).2.rx.descriptor =
        Function.update d.card.rx.descriptor ((h.rxHandled + n.buffers.length) % ringSize)
          b.descriptor ∧
      n.post dmaAddr alloc = { n.log (Card.postCalls b.entry) with posted := n.posted ++ [b] } := by
  have hfits := hs.fits hring
  cases alloc with
  | none =>
      refine .inl ⟨rfl, ?_, rfl⟩
      unfold Card.nf10privSendRxDsc
      split <;> rfl
  | some ptr =>
      by_cases hroom : n.buffers.length < Nic.rxCapacity
      · rw [decide_eq_true hroom] at hfits
        have hlt : n.buffers.length < ringSize := Nat.lt_trans hroom (by decide)
        have hslot : Ring.index d.card.rx.dsc.wrPtr =
            (h.rxHandled + n.buffers.length) % ringSize := by
          rw [hring.index_wrPtr, ← hring.dscCnt, hs.dscCnt hring]
        have hlen : Card.skBuffAllocSize.toUInt64.toNat < 2 ^ 16 := by decide
        have hports : (0 : UInt64).toNat < 2 ^ 16 := by decide
        -- the descriptor that is written, as the card reads it
        have hunpack : Descriptor.unpack (d.card.rxPlacement dmaAddr).dscL0 dmaAddr =
            (⟨ptr, dmaAddr⟩ : RxBuffer).descriptor :=
          Descriptor.unpack_pack _ _ hlen hports
        refine .inr ⟨⟨ptr, dmaAddr⟩, ?_, hlt, ?_, ?_⟩
        · simp only [Card.rxGives, hfits, if_true]
          rfl
        · rw [Card.rx_nf10privSendRxDsc d.card ptr dmaAddr hfits, Ring.descriptor_writeDsc, hslot,
            hunpack]
          rfl
        · rw [Nic.post, if_pos hroom]
          rfl
      · rw [decide_eq_false hroom] at hfits
        exact .inl ⟨by simp [Card.rxGives, hfits], by simp [Card.nf10privSendRxDsc, hfits],
          if_neg hroom⟩

/-- A buffer is posted, or none is. -/
theorem RxMirrors.post (hs : RxMirrors d h n) (hring : d.card.rx.Agrees h.rxHandled h.rxGiven)
    (dmaAddr : UInt64) (alloc : Option ℕ)
    (hrx : d'.card.rx = ((d.card.nf10privSendRxDsc alloc dmaAddr).2).rx)
    (hwords : d'.card.hostRxDne = d.card.hostRxDne) (hstored : d'.rxStored = d.rxStored)
    (hgiven : h'.rxGiven = h.rxGiven ++ d.card.rxGives dmaAddr alloc)
    (hhandled : h'.rxHandled = h.rxHandled) : RxMirrors d' h' (n.post dmaAddr alloc) := by
  rcases hs.post_cases hring dmaAddr alloc with
    ⟨hnone, hcard, hpost⟩ | ⟨b, hone, hroom, hmem, hpost⟩
  · rw [hpost]
    rw [hnone, List.append_nil] at hgiven
    rw [hcard] at hrx
    exact hs.frame (by rw [hrx]) hwords hstored hgiven hhandled rfl rfl
  · have hbuffers : (n.post dmaAddr alloc).buffers = n.buffers ++ [b] := by
      rw [hpost]
      exact (List.append_assoc _ _ _).symm
    have hfilled : (n.post dmaAddr alloc).filled = n.filled := by
      rw [hpost]
      rfl
    constructor
    · rw [hgiven, hhandled, hbuffers, List.drop_append_of_le_length hring.handled_le, hs.entries,
        hone, List.map_append]
      rfl
    · rw [hstored, hhandled, hfilled]
      exact hs.stored
    · rw [hwords, hhandled, hfilled]
      exact hs.words
    · rw [hrx, hmem, hhandled, hbuffers, List.length_append, List.length_singleton,
        Lib.Ring.contents_push _ _ hroom, hs.descriptors, List.map_append]
      rfl

/-- The word of a completion is stored in the slot of the buffer that was filled. -/
theorem RxMirrors.fill (hs : RxMirrors d h n) (hring : d.card.rx.Agrees h.rxHandled h.rxGiven)
    {b : RxBuffer} {rest : List RxBuffer} {word : UInt64} (hhead : n.posted = b :: rest)
    (hmem : d'.card.rx.dscMem = d.card.rx.dscMem)
    (hwords : d'.card.hostRxDne =
      Function.update d.card.hostRxDne (8 * (d.rxStored % ringSize) + 7) word)
    (hstored : d'.rxStored = d.rxStored + 1) (hgiven : h'.rxGiven = h.rxGiven)
    (hhandled : h'.rxHandled = h.rxHandled) (hfilled : n'.filled = n.filled ++ [(b, word)])
    (hposted : n'.posted = rest) : RxMirrors d' h' n' := by
  have hbuffers : n'.buffers = n.buffers := by
    rw [Nic.buffers, hfilled, hposted, Nic.buffers, hhead, List.map_append, List.append_assoc]
    rfl
  have hroom : n.filled.length < ringSize := by
    have hcnt := hs.dscCnt hring
    have hfits := hring.dscFits
    rw [hcnt, Nic.buffers, hhead, List.length_append, List.length_map, List.length_cons] at hfits
    omega
  constructor
  · rw [hgiven, hhandled, hbuffers]
    exact hs.entries
  · rw [hstored, hhandled, hfilled, hs.stored, List.length_append, List.length_singleton,
      Nat.add_assoc]
  · -- the word is behind those of the buffers filled before
    have hslots : (fun i => d'.card.hostRxDne (8 * i + 7)) =
        Function.update (fun i => d.card.hostRxDne (8 * i + 7))
          ((h.rxHandled + n.filled.length) % ringSize) word := by
      funext i
      rw [hwords, ← hs.stored]
      by_cases hi : i = d.rxStored % ringSize
      · subst hi
        simp
      · rw [Function.update_of_ne hi, Function.update_of_ne (by omega)]
    rw [hslots, hhandled, hfilled, List.length_append, List.length_singleton,
      Lib.Ring.contents_push _ _ hroom, hs.words, List.map_append]
    rfl
  · rw [Ring.descriptor_congr hmem, hhandled, hbuffers]
    exact hs.descriptors

/-- The oldest buffer that was filled is taken, and its completion word goes away. -/
theorem RxMirrors.take (hs : RxMirrors d h n) (hring : d.card.rx.Agrees h.rxHandled h.rxGiven)
    {b : RxBuffer} {word : UInt64} {rest : List (RxBuffer × UInt64)}
    (hhead : n.filled = (b, word) :: rest) (hmem : d'.card.rx.dscMem = d.card.rx.dscMem)
    (hwords : d'.card.hostRxDne = Function.update d.card.hostRxDne
      (Ring.index d.card.rx.dne.rdPtr * 8 + 7) 0xffffffffffffffff)
    (hstored : d'.rxStored = d.rxStored) (hgiven : h'.rxGiven = h.rxGiven)
    (hhandled : h'.rxHandled = h.rxHandled + 1) (hfilled : n'.filled = rest)
    (hposted : n'.posted = n.posted) : RxMirrors d' h' n' := by
  have hbuffers : n.buffers = b :: n'.buffers := by
    rw [Nic.buffers, hhead, Nic.buffers, hfilled, hposted, List.map_cons, List.cons_append]
  have hentries := hs.entries
  have hdescriptors := hs.descriptors
  have hold := hs.words
  rw [hbuffers, List.map_cons] at hentries
  rw [hbuffers, List.length_cons, Lib.Ring.contents_pop, List.map_cons] at hdescriptors
  rw [hhead, List.length_cons, Lib.Ring.contents_pop, List.map_cons] at hold
  constructor
  · rw [hgiven, hhandled, ← List.drop_drop, hentries, List.drop_one, List.tail_cons]
  · have := hs.stored
    rw [hhead, List.length_cons] at this
    rw [hstored, hhandled, hfilled]
    omega
  · -- the other words stay
    rw [hhandled, hfilled, ← (List.cons.inj hold).2]
    refine Lib.Ring.contents_congr fun i hi => ?_
    obtain ⟨k, hk, rfl⟩ := Lib.Ring.mem_slots.mp hi
    have hne : (h.rxHandled + 1 + k) % ringSize ≠ h.rxHandled % ringSize := by
      intro heq
      have hcnt := hs.dscCnt hring
      have hfits := hring.dscFits
      rw [hcnt, Nic.buffers, hhead, List.length_append, List.length_map, List.length_cons] at hfits
      have := Lib.Ring.eq_of_mod_eq (by omega) (by omega) heq.symm
      omega
    rw [hwords, hring.index_rdPtr, Function.update_of_ne (by omega)]
  · rw [Ring.descriptor_congr hmem, hhandled]
    exact (List.cons.inj hdescriptors).2

end CodeAnalyze.Nf10
