import CodeAnalyze.Lib.Spans
import CodeAnalyze.Nf10.Integrity

/-!
# The packet buffers of the card

A packet gets a whole number of lines of 64 bytes of the packet buffer and starts in them
where the alignment of its DMA address says.  The descriptor tells the card where that is.
-/

namespace CodeAnalyze.Nf10

open Lib (Laid spanBytes wordSum)
open Lib.Ring (contents)

/-- What a call that gives a descriptor to the card has in its local variables. -/
structure Placement where
  len : UInt64
  /-- Descriptors of receptions have none. -/
  portDecoded : UInt64 := 0
  pktAddr : UInt64
  pktAddrFixed : UInt64
  clSize : UInt64
  deriving DecidableEq

namespace Placement

/-- The first word of a descriptor. -/
def pack (len portDecoded pktAddrFixed : UInt64) : UInt64 :=
  (len <<< 48) + (portDecoded <<< 32) + (pktAddrFixed &&& 0xffffffff)

def dscL0 (p : Placement) : UInt64 := pack p.len p.portDecoded p.pktAddrFixed

/-- The bytes of the packet in a buffer with this mask. -/
def bytes (mask : UInt64) (p : Placement) : Set ℕ :=
  spanBytes (mask.toNat + 1) p.pktAddrFixed.toNat p.len.toNat

/-- The packet lies in the lines that are reserved for it. -/
def Inside (p : Placement) : Prop :=
  p.pktAddr.toNat ≤ p.pktAddrFixed.toNat ∧
    p.pktAddrFixed.toNat + p.len.toNat ≤ p.pktAddr.toNat + 64 * p.clSize.toNat

end Placement

namespace Card

variable (c : Card)

/-- The variables of `nf10priv_xmit`. -/
def txPlacement (skb : SkBuff) (port : Port) (dmaAddr : UInt64) : Placement where
  len := skb.len.toUInt64
  portDecoded := portDecoded port
  pktAddr := c.tx.pkt.wrPtr
  pktAddrFixed := c.tx.pkt.wrPtr + (dmaAddr &&& 0x3f)
  clSize := txClSize skb.len

/-- The variables of `nf10priv_send_rx_dsc`. -/
def rxPlacement (dmaAddr : UInt64) : Placement where
  len := skBuffAllocSize.toUInt64
  pktAddr := c.rx.pkt.wrPtr
  pktAddrFixed := c.rx.pkt.wrPtr + (dmaAddr &&& 0x3)
  clSize := rxClSize

/-- What a call of `nf10priv_send_rx_dsc` places. -/
def rxPlaces (dmaAddr : UInt64) : Option ℕ → List Placement
  | none => []
  | some _ => if c.rx.fits rxClSize then [c.rxPlacement dmaAddr] else []

end Card

/-- The driver, the card and where the packets are that are not completed. -/
structure PlacedState where
  state : State
  /-- Ghost: the packets of the two rings, the oldest first. -/
  txPlaced : List Placement := []
  rxPlaced : List Placement := []

/-- What a step places for the TX ring. -/
def State.txPlaces (s : State) : Op → List Placement
  | .xmit skb port (some dmaAddr) =>
    if s.card.tx.fits (Card.txClSize skb.len) then [s.card.txPlacement skb port dmaAddr] else []
  | _ => []

/-- What a step places for the RX ring. -/
def State.rxPlaces (s : State) : Op → List Placement
  | .sendRxDsc alloc dmaAddr => s.card.rxPlaces dmaAddr alloc
  | .handleRx alloc dmaAddr => s.card.takeRx.rxPlaces dmaAddr alloc
  | _ => []

/-- A step, with what becomes of the packets. -/
def placedExec (s : PlacedState) (op : Op) : Option PlacedState :=
  (exec s.state op).map fun s' =>
    { state := s'
      txPlaced := s.txPlaced.drop op.txHandles ++ s.state.txPlaces op
      rxPlaced := s.rxPlaced.drop op.rxHandles ++ s.state.rxPlaces op }

/-- The state after the ring setup of `nf10_probe`. -/
def placedProbed (raw : Card) : PlacedState := { state := probed raw }

/-- Packets have a length that `nf10i_tx` lets through, and can be mapped. -/
def Op.Sends : Op → Prop
  | .xmit skb _ dma => 60 ≤ skb.len ∧ skb.len ≤ 1514 ∧ dma.isSome = true
  | _ => True

/-! ## One packet -/

theorem toNat_and_mask {a m : UInt64} {k : ℕ} (hm : m.toNat = 2 ^ k - 1) :
    (a &&& m).toNat = a.toNat % 2 ^ k := by
  rw [UInt64.toNat_and, hm, Nat.and_two_pow_sub_one_eq_mod]

namespace Card

/-- The lines of a packet, in numbers. -/
theorem toNat_txClSize {len : UInt32} (h : len ≤ 1514) :
    (txClSize len).toNat = (len.toNat + 126) / 64 := by
  have hle : len.toNat ≤ 1514 := UInt32.le_iff_toNat_le.mp h
  unfold txClSize
  rw [UInt32.toNat_toUInt64, UInt32.toNat_div, UInt32.toNat_add]
  simp only [UInt32.reduceMul, UInt32.reduceToNat]
  omega

/-- The lines of a packet hold it with any alignment. -/
theorem inside_txPlacement (c : Card) {skb : SkBuff} (port : Port) (dmaAddr : UInt64)
    (hlen : skb.len ≤ 1514) (hptr : c.tx.pkt.wrPtr.toNat < 2 ^ 15) :
    (c.txPlacement skb port dmaAddr).Inside := by
  have hle : skb.len.toNat ≤ 1514 := UInt32.le_iff_toNat_le.mp hlen
  have hshift : (dmaAddr &&& 0x3f).toNat = dmaAddr.toNat % 2 ^ 6 := toNat_and_mask rfl
  have hmod : dmaAddr.toNat % 2 ^ 6 < 2 ^ 6 := Nat.mod_lt _ (by decide)
  have hfixed : (c.tx.pkt.wrPtr + (dmaAddr &&& 0x3f)).toNat =
      c.tx.pkt.wrPtr.toNat + dmaAddr.toNat % 2 ^ 6 := by
    rw [Lib.toNat_add_of_lt (by omega), hshift]
  constructor
  · change c.tx.pkt.wrPtr.toNat ≤ (c.tx.pkt.wrPtr + (dmaAddr &&& 0x3f)).toNat
    omega
  · change (c.tx.pkt.wrPtr + (dmaAddr &&& 0x3f)).toNat + skb.len.toUInt64.toNat ≤
      c.tx.pkt.wrPtr.toNat + 64 * (txClSize skb.len).toNat
    rw [hfixed, UInt32.toNat_toUInt64, toNat_txClSize hlen]
    omega

theorem inside_rxPlacement (c : Card) (dmaAddr : UInt64) (hptr : c.rx.pkt.wrPtr.toNat < 2 ^ 15) :
    (c.rxPlacement dmaAddr).Inside := by
  have hshift : (dmaAddr &&& 0x3).toNat = dmaAddr.toNat % 2 ^ 2 := toNat_and_mask rfl
  have hmod : dmaAddr.toNat % 2 ^ 2 < 2 ^ 2 := Nat.mod_lt _ (by decide)
  have hfixed : (c.rx.pkt.wrPtr + (dmaAddr &&& 0x3)).toNat =
      c.rx.pkt.wrPtr.toNat + dmaAddr.toNat % 2 ^ 2 := by
    rw [Lib.toNat_add_of_lt (by omega), hshift]
  constructor
  · change c.rx.pkt.wrPtr.toNat ≤ (c.rx.pkt.wrPtr + (dmaAddr &&& 0x3)).toNat
    omega
  · change (c.rx.pkt.wrPtr + (dmaAddr &&& 0x3)).toNat + 1533 ≤
      c.rx.pkt.wrPtr.toNat + 64 * rxClSize.toNat
    rw [hfixed, toNat_rxClSize]
    omega

end Card

namespace Placement

variable {len portDecoded pktAddrFixed len' portDecoded' pktAddrFixed' : UInt64}

/-- A descriptor, in numbers. -/
theorem toNat_pack (hlen : len.toNat < 2 ^ 16) (hport : portDecoded.toNat < 2 ^ 16)
    (haddr : pktAddrFixed.toNat < 2 ^ 32) :
    (pack len portDecoded pktAddrFixed).toNat =
      len.toNat * 2 ^ 48 + portDecoded.toNat * 2 ^ 32 + pktAddrFixed.toNat := by
  have hhigh : (len <<< 48).toNat = len.toNat * 2 ^ 48 := by
    rw [UInt64.toNat_shiftLeft, Nat.shiftLeft_eq]
    simp only [UInt64.reduceToNat, Nat.reduceMod, Nat.reducePow]
    omega
  have hmiddle : (portDecoded <<< 32).toNat = portDecoded.toNat * 2 ^ 32 := by
    rw [UInt64.toNat_shiftLeft, Nat.shiftLeft_eq]
    simp only [UInt64.reduceToNat, Nat.reduceMod, Nat.reducePow]
    omega
  have hlow : (pktAddrFixed &&& 0xffffffff).toNat = pktAddrFixed.toNat :=
    (toNat_and_mask rfl).trans (Nat.mod_eq_of_lt haddr)
  unfold pack
  rw [UInt64.toNat_add, UInt64.toNat_add, hhigh, hmiddle, hlow]
  omega

/-- The fields of a descriptor do not carry into each other. -/
theorem pack_injective (hlen : len.toNat < 2 ^ 16) (hport : portDecoded.toNat < 2 ^ 16)
    (haddr : pktAddrFixed.toNat < 2 ^ 32) (hlen' : len'.toNat < 2 ^ 16)
    (hport' : portDecoded'.toNat < 2 ^ 16) (haddr' : pktAddrFixed'.toNat < 2 ^ 32)
    (h : pack len portDecoded pktAddrFixed = pack len' portDecoded' pktAddrFixed') :
    len = len' ∧ portDecoded = portDecoded' ∧ pktAddrFixed = pktAddrFixed' := by
  have heq := congrArg UInt64.toNat h
  rw [toNat_pack hlen hport haddr, toNat_pack hlen' hport' haddr'] at heq
  refine ⟨UInt64.toNat_inj.mp ?_, UInt64.toNat_inj.mp ?_, UInt64.toNat_inj.mp ?_⟩
  · omega
  · omega
  · omega

end Placement

/-! ## A ring -/

namespace Placement

/-- The values a call can have in its variables. -/
structure Valid (p : Placement) : Prop where
  inside : p.Inside
  len : p.len.toNat ≤ 1533
  portDecoded : p.portDecoded.toNat < 2 ^ 16
  pktAddr : p.pktAddr.toNat < 2 ^ 15
  clSize : p.clSize.toNat ≤ 512

def pos (p : Placement) : ℕ := p.pktAddr.toNat

/-- The bytes of the lines that are reserved. -/
def size (p : Placement) : ℕ := 64 * p.clSize.toNat

end Placement

namespace Ring

/-- The packets of the outstanding descriptors: their descriptors are in the memory of the
card, and they lie one behind the other in the packet buffer, up to the write pointer. -/
structure Places (r : Ring) (handled : ℕ) (given : List Entry) (placed : List Placement) :
    Prop where
  agrees : r.Agrees handled given
  mask : r.pkt.mask = pktMask
  sizes : placed.map (·.clSize) = (given.drop handled).map (·.2.2)
  words : contents (fun i => r.dscMem (8 * i)) ringSize handled r.dsc.cnt.toNat =
    placed.map Placement.dscL0
  laid : ∃ start, Laid (2 ^ 15) Placement.pos Placement.size start placed ∧
    r.pkt.wrPtr.toNat = (start + (placed.map Placement.size).sum) % 2 ^ 15
  valid : ∀ p ∈ placed, p.Valid

variable {r : Ring} {handled : ℕ} {given : List Entry} {placed : List Placement}

theorem places_probed (raw : Ring) : (probedRing raw).Places 0 [] [] where
  agrees := agrees_probed raw
  mask := rfl
  sizes := rfl
  words := rfl
  laid := ⟨0, trivial, rfl⟩
  valid := fun _ hp => absurd hp List.not_mem_nil

theorem Places.wrPtr_lt (h : r.Places handled given placed) : r.pkt.wrPtr.toNat < 2 ^ 15 := by
  obtain ⟨start, -, hwr⟩ := h.laid
  rw [hwr]
  exact Nat.mod_lt _ (by decide)

/-- The lines of the packets are those that are counted. -/
theorem Places.sum_size (h : r.Places handled given placed) :
    (placed.map Placement.size).sum ≤ 2 ^ 15 := by
  have hsum : (placed.map Placement.size).sum = 64 * wordSum (·.2.2) (given.drop handled) :=
    calc (placed.map Placement.size).sum
        = (((placed.map (·.clSize)).map UInt64.toNat).map (64 * ·)).sum := by
          rw [List.map_map, List.map_map]
          rfl
      _ = 64 * (((given.drop handled).map (·.2.2)).map UInt64.toNat).sum := by
          rw [h.sizes, List.sum_map_mul_left, List.map_id']
      _ = 64 * wordSum (·.2.2) (given.drop handled) := by
          rw [List.map_map]
          rfl
  have hcnt := h.agrees.pktCnt
  have hfits := h.agrees.pktFits
  omega

/-- A descriptor is written to the place of its index. -/
theorem dscMem_writeDsc (r : Ring) (i : ℕ) (dscL0 dscL1 : UInt64) :
    (fun j => (r.writeDsc i dscL0 dscL1).dscMem (8 * j)) =
      Function.update (fun j => r.dscMem (8 * j)) i dscL0 := by
  funext j
  have hodd : 8 * j ≠ 8 * i + 1 := by omega
  change Function.update (Function.update r.dscMem (8 * i) dscL0) (8 * i + 1) dscL1 (8 * j) = _
  rw [Function.update_of_ne hodd]
  by_cases hj : j = i
  · rw [hj, Function.update_self, Function.update_self]
  · rw [Function.update_of_ne hj, Function.update_of_ne (by omega)]

/-- A packet is put behind the others. -/
theorem Places.give (h : r.Places handled given placed) {skb : SkBuff} {dmaAddr : UInt64}
    {p : Placement} (hfits : r.fits p.clSize = true) (hpos : p.pktAddr = r.pkt.wrPtr)
    (hvalid : p.Valid) :
    ((r.give skb dmaAddr p.clSize).writeDsc (index r.dsc.wrPtr) p.dscL0 dmaAddr).Places handled
      (given ++ [(skb, dmaAddr, p.clSize)]) (placed ++ [p]) := by
  have hcl : p.clSize.toNat < 2 ^ 32 := lt_of_le_of_lt hvalid.clSize (by decide)
  obtain ⟨hroom, hlines⟩ := (h.agrees.fits_iff hcl).mp hfits
  have hcnt : (r.dsc.cnt + 1).toNat = r.dsc.cnt.toNat + 1 :=
    Lib.toNat_add_of_lt (by simp [ringSize] at *; omega)
  have hdrop : (given ++ [(skb, dmaAddr, p.clSize)]).drop handled =
      given.drop handled ++ [(skb, dmaAddr, p.clSize)] :=
    List.drop_append_of_le_length h.agrees.handled_le
  obtain ⟨start, hlaid, hwr⟩ := h.laid
  refine
    { agrees := (h.agrees.give hcl hfits skb dmaAddr).writeDsc _ _ _
      mask := h.mask
      sizes := by rw [hdrop, List.map_append, List.map_append, h.sizes]; rfl
      words := ?_
      laid := ⟨start, hlaid.push ?_, ?_⟩
      valid := ?_ }
  · -- the word of the new descriptor is behind those of the others
    have hslot : index r.dsc.wrPtr = (handled + r.dsc.cnt.toNat) % ringSize := by
      rw [h.agrees.index_wrPtr, h.agrees.dscCnt]
    have hmem : (fun i => ((r.give skb dmaAddr p.clSize).writeDsc (index r.dsc.wrPtr) p.dscL0
        dmaAddr).dscMem (8 * i)) =
        Function.update (fun i => r.dscMem (8 * i)) ((handled + r.dsc.cnt.toNat) % ringSize)
          p.dscL0 :=
      calc (fun i => ((r.give skb dmaAddr p.clSize).writeDsc (index r.dsc.wrPtr) p.dscL0
            dmaAddr).dscMem (8 * i))
          = Function.update (fun i => r.dscMem (8 * i)) (index r.dsc.wrPtr) p.dscL0 :=
            dscMem_writeDsc (r.give skb dmaAddr p.clSize) _ _ _
        _ = _ := by rw [hslot]
    change contents _ ringSize handled (r.dsc.cnt + 1).toNat = _
    rw [hmem, hcnt, Lib.Ring.contents_push _ _ hroom, h.words, List.map_append]
    rfl
  · change p.pktAddr.toNat = _
    rw [hpos, hwr]
  · -- the write pointer moves on by the lines of the packet, which may go round
    have hbytes : (64 * p.clSize).toNat = p.size := by
      rw [UInt64.toNat_mul, Placement.size]
      simp only [UInt64.reduceToNat]
      have := hvalid.clSize
      omega
    change ((r.pkt.wrPtr + 64 * p.clSize) &&& r.pkt.mask).toNat = _
    rw [Lib.toNat_add_and_mask (k := 15) (by decide) (by rw [h.mask]; rfl), hbytes, hwr,
      List.map_append, List.sum_append, Nat.mod_add_mod, Nat.add_assoc]
    simp
  · intro q hq
    rcases List.mem_append.mp hq with hold | hnew
    · exact h.valid q hold
    · rw [List.mem_singleton.mp hnew]
      exact hvalid

/-- The oldest packet is taken back. -/
theorem Places.take (h : r.Places handled given placed) (hlt : handled < given.length) :
    r.take.Places (handled + 1) given (placed.drop 1) := by
  have hdrop : given.drop handled = given[handled] :: given.drop (handled + 1) :=
    List.drop_eq_getElem_cons hlt
  have htake := h.agrees.take hlt
  have hcnt : r.dsc.cnt.toNat = r.take.dsc.cnt.toNat + 1 := by
    have hbefore := h.agrees.dscCnt
    have hafter := htake.dscCnt
    omega
  have hsizes := h.sizes
  have hwords := h.words
  obtain ⟨start, hlaid, hwr⟩ := h.laid
  rw [hdrop, List.map_cons] at hsizes
  cases placed with
  | nil => cases hsizes
  | cons q rest =>
      rw [hcnt, Lib.Ring.contents_pop] at hwords
      refine
        { agrees := htake
          mask := h.mask
          sizes := (List.cons.inj hsizes).2
          words := (List.cons.inj hwords).2
          laid := ⟨start + q.size, hlaid.2, ?_⟩
          valid := fun p hp => h.valid p (List.mem_cons_of_mem q hp) }
      change r.pkt.wrPtr.toNat = _
      rw [hwr, List.map_cons, List.sum_cons, Nat.add_assoc]
      rfl

end Ring

/-! ## The calls of the driver -/

namespace Card

variable (c : Card)

/-- The descriptor of a packet that is sent. -/
theorem tx_nf10privXmit {skb : SkBuff} (port : Port) (dmaAddr : UInt64)
    (hfits : c.tx.fits (txClSize skb.len) = true) :
    ((c.nf10privXmit skb port (some dmaAddr)).2).tx =
      (c.tx.give skb dmaAddr (txClSize skb.len)).writeDsc (Ring.index c.tx.dsc.wrPtr)
        (c.txPlacement skb port dmaAddr).dscL0 dmaAddr := by
  unfold nf10privXmit
  simp only [hfits, if_true]
  -- the queue of the port is stopped or not
  split <;> rfl

/-- A descriptor of a reception has no ports. -/
theorem dscL0_rxPlacement (dmaAddr : UInt64) :
    (c.rxPlacement dmaAddr).dscL0 =
      (skBuffAllocSize.toUInt64 <<< 48) +
        ((c.rx.pkt.wrPtr + (dmaAddr &&& 0x3)) &&& 0xffffffff) := by
  simp [Placement.dscL0, Placement.pack, rxPlacement]

/-- The descriptor of an skb that is posted. -/
theorem rx_nf10privSendRxDsc (ptr : ℕ) (dmaAddr : UInt64) (hfits : c.rx.fits rxClSize = true) :
    ((c.nf10privSendRxDsc (some ptr) dmaAddr).2).rx =
      (c.rx.give { ptr := ptr, len := 0 } dmaAddr rxClSize).writeDsc (Ring.index c.rx.dsc.wrPtr)
        (c.rxPlacement dmaAddr).dscL0 dmaAddr := by
  rw [dscL0_rxPlacement]
  unfold nf10privSendRxDsc
  simp only [hfits, if_true]
  rfl

theorem valid_txPlacement {skb : SkBuff} (port : Port) (dmaAddr : UInt64)
    (hlen : skb.len ≤ 1514) (hptr : c.tx.pkt.wrPtr.toNat < 2 ^ 15) :
    (c.txPlacement skb port dmaAddr).Valid where
  inside := c.inside_txPlacement port dmaAddr hlen hptr
  len := by
    have hle : skb.len.toNat ≤ 1514 := UInt32.le_iff_toNat_le.mp hlen
    change skb.len.toUInt64.toNat ≤ 1533
    rw [UInt32.toNat_toUInt64]
    omega
  portDecoded := by
    change (portDecoded port).toNat < 2 ^ 16
    revert port
    decide
  pktAddr := hptr
  clSize := by
    have hle : skb.len.toNat ≤ 1514 := UInt32.le_iff_toNat_le.mp hlen
    change (txClSize skb.len).toNat ≤ 512
    rw [toNat_txClSize hlen]
    omega

theorem valid_rxPlacement (dmaAddr : UInt64) (hptr : c.rx.pkt.wrPtr.toNat < 2 ^ 15) :
    (c.rxPlacement dmaAddr).Valid where
  inside := c.inside_rxPlacement dmaAddr hptr
  len := Nat.le_refl 1533
  portDecoded := Nat.zero_lt_succ _
  pktAddr := hptr
  clSize := by
    change rxClSize.toNat ≤ 512
    decide

/-- What posting an skb does to the RX ring. -/
theorem places_nf10privSendRxDsc {handled : ℕ} {given : List Entry} {placed : List Placement}
    (h : c.rx.Places handled given placed) (alloc : Option ℕ) (dmaAddr : UInt64) :
    ((c.nf10privSendRxDsc alloc dmaAddr).2).rx.Places handled (given ++ c.rxGives dmaAddr alloc)
      (placed ++ c.rxPlaces dmaAddr alloc) := by
  have hsame (hcall : (c.nf10privSendRxDsc alloc dmaAddr).2 = c)
      (hgives : c.rxGives dmaAddr alloc = []) (hplaces : c.rxPlaces dmaAddr alloc = []) :
      ((c.nf10privSendRxDsc alloc dmaAddr).2).rx.Places handled (given ++ c.rxGives dmaAddr alloc)
        (placed ++ c.rxPlaces dmaAddr alloc) := by
    rw [hcall, hgives, hplaces, List.append_nil, List.append_nil]
    exact h
  cases alloc with
  | none =>
      refine hsame ?_ rfl rfl
      unfold nf10privSendRxDsc
      split <;> rfl
  | some ptr =>
      cases hfits : c.rx.fits rxClSize with
      | false =>
          exact hsame (by simp [nf10privSendRxDsc, hfits]) (by simp [rxGives, hfits])
            (by simp [rxPlaces, hfits])
      | true =>
          rw [rx_nf10privSendRxDsc c ptr dmaAddr hfits]
          simp only [rxGives, rxPlaces, hfits, if_true]
          exact h.give (p := c.rxPlacement dmaAddr) hfits rfl
            (c.valid_rxPlacement dmaAddr h.wrPtr_lt)

end Card

/-! ## Steps -/

/-- The packets that were placed are those of the rings. -/
structure Located (s : PlacedState) (h : History) : Prop where
  consistent : Consistent s.state h
  tx : s.state.card.tx.Places h.txHandled h.txGiven s.txPlaced
  rx : s.state.card.rx.Places h.rxHandled h.rxGiven s.rxPlaced

theorem located_probed (raw : Card) : Located (placedProbed raw) {} where
  consistent := consistent_probed raw
  tx := Ring.places_probed raw.tx
  rx := Ring.places_probed raw.rx

theorem Op.Sends.maps {op : Op} (h : op.Sends) : op.Maps := by
  cases op with
  | xmit skb port dma => exact h.2.2
  | _ => trivial

variable {s s' : State} {h : History} {op : Op} {placed : List Placement}

/-- A step keeps the packets of the TX ring where they are. -/
theorem Consistent.txPlaces (hs : Consistent s h)
    (hplaces : s.card.tx.Places h.txHandled h.txGiven placed) (hsends : op.Sends)
    (hx : exec s op = some s') :
    s'.card.tx.Places (h.txHandled + op.txHandles) (h.txGiven ++ s.txGives op)
      (placed.drop op.txHandles ++ s.txPlaces op) := by
  have hsame (htx : s'.card.tx = s.card.tx) (hgives : s.txGives op = [])
      (hnone : s.txPlaces op = []) (hzero : op.txHandles = 0) :
      s'.card.tx.Places (h.txHandled + op.txHandles) (h.txGiven ++ s.txGives op)
        (placed.drop op.txHandles ++ s.txPlaces op) := by
    rw [htx, hgives, hnone, hzero, List.append_nil, List.append_nil]
    exact hplaces
  cases op with
  | xmit skb port dma =>
      obtain ⟨-, hlen, hsome⟩ := hsends
      obtain ⟨dmaAddr, rfl⟩ := Option.isSome_iff_exists.mp hsome
      simp only [exec, Option.some.injEq] at hx
      subst hx
      cases hfits : s.card.tx.fits (Card.txClSize skb.len) with
      | false =>
          refine hsame ?_ (by simp [State.txGives, hfits]) (by simp [State.txPlaces, hfits]) rfl
          rw [Card.nf10privXmit_full _ _ _ _ hfits]
      | true =>
          simp only [State.txGives, State.txPlaces, hfits, if_true]
          rw [Card.tx_nf10privXmit s.card port dmaAddr hfits]
          exact hplaces.give (p := s.card.txPlacement skb port dmaAddr) hfits rfl
            (s.card.valid_txPlacement port dmaAddr hlen hplaces.wrPtr_lt)
  | sendRxDsc alloc dmaAddr =>
      simp only [exec, Option.some.injEq] at hx
      subst hx
      exact hsame (s.card.nf10privSendRxDsc_spec dmaAddr alloc).tx rfl rfl rfl
  | storeTx =>
      simp only [exec, Option.ite_none_right_eq_some, Option.some.injEq] at hx
      obtain ⟨-, rfl⟩ := hx
      exact hsame rfl rfl rfl rfl
  | storeRx word =>
      simp only [exec, Option.ite_none_right_eq_some, Option.some.injEq] at hx
      obtain ⟨-, rfl⟩ := hx
      exact hsame rfl rfl rfl rfl
  | handleTx =>
      simp only [exec, Option.ite_none_right_eq_some, Option.some.injEq] at hx
      obtain ⟨hdone, rfl⟩ := hx
      -- the oldest packet is taken back, and none is given
      change s.card.handleTx.tx.Places (h.txHandled + 1) (h.txGiven ++ []) (placed.drop 1 ++ [])
      rw [s.card.handleTx_spec.tx, List.append_nil, List.append_nil]
      exact hplaces.take (hs.tx.handled_lt hdone)
  | handleRx alloc dmaAddr =>
      simp only [exec, Option.ite_none_right_eq_some, Option.some.injEq] at hx
      obtain ⟨-, rfl⟩ := hx
      exact hsame (s.card.handleRx_spec dmaAddr alloc).tx rfl rfl rfl

/-- A step keeps the packets of the RX ring where they are. -/
theorem Consistent.rxPlaces (hs : Consistent s h)
    (hplaces : s.card.rx.Places h.rxHandled h.rxGiven placed) (hx : exec s op = some s') :
    s'.card.rx.Places (h.rxHandled + op.rxHandles) (h.rxGiven ++ s.rxGives op)
      (placed.drop op.rxHandles ++ s.rxPlaces op) := by
  have hsame (hrx : s'.card.rx = s.card.rx) (hgives : s.rxGives op = [])
      (hnone : s.rxPlaces op = []) (hzero : op.rxHandles = 0) :
      s'.card.rx.Places (h.rxHandled + op.rxHandles) (h.rxGiven ++ s.rxGives op)
        (placed.drop op.rxHandles ++ s.rxPlaces op) := by
    rw [hrx, hgives, hnone, hzero, List.append_nil, List.append_nil]
    exact hplaces
  cases op with
  | xmit skb port dma =>
      simp only [exec, Option.some.injEq] at hx
      subst hx
      refine hsame ?_ rfl rfl rfl
      cases hfits : s.card.tx.fits (Card.txClSize skb.len) with
      | false => rw [Card.nf10privXmit_full _ _ _ _ hfits]
      | true =>
          cases dma with
          | none =>
              rw [Card.nf10privXmit_unmapped _ _ _ hfits]
              rfl
          | some dmaAddr =>
              obtain ⟨c', hret, hsent⟩ := s.card.nf10privXmit_sent skb port dmaAddr hfits
              rw [hret]
              exact hsent.rx
  | sendRxDsc alloc dmaAddr =>
      simp only [exec, Option.some.injEq] at hx
      subst hx
      exact s.card.places_nf10privSendRxDsc hplaces alloc dmaAddr
  | storeTx =>
      simp only [exec, Option.ite_none_right_eq_some, Option.some.injEq] at hx
      obtain ⟨-, rfl⟩ := hx
      exact hsame rfl rfl rfl rfl
  | storeRx word =>
      simp only [exec, Option.ite_none_right_eq_some, Option.some.injEq] at hx
      obtain ⟨-, rfl⟩ := hx
      exact hsame rfl rfl rfl rfl
  | handleTx =>
      simp only [exec, Option.ite_none_right_eq_some, Option.some.injEq] at hx
      obtain ⟨-, rfl⟩ := hx
      exact hsame s.card.handleTx_spec.rx rfl rfl rfl
  | handleRx alloc dmaAddr =>
      simp only [exec, Option.ite_none_right_eq_some, Option.some.injEq] at hx
      obtain ⟨hdone, rfl⟩ := hx
      -- the oldest buffer is taken back, and a new one is posted in its place
      have htaken : s.card.takeRx.rx.Places (h.rxHandled + 1) h.rxGiven (placed.drop 1) := by
        rw [s.card.takeRx_spec.rx]
        exact hplaces.take (hs.rx.handled_lt hdone)
      have hposted := s.card.takeRx.places_nf10privSendRxDsc htaken alloc dmaAddr
      rw [Card.handleRx_eq, Card.rxDeliver_eq]
      exact hposted

theorem Located.step {s s' : PlacedState} (hs : Located s h) (hsends : op.Sends)
    (hx : placedExec s op = some s') : Located s' (h.next s.state op) := by
  obtain ⟨t, ht, rfl⟩ := Option.map_eq_some_iff.mp hx
  exact
    { consistent := hs.consistent.step hsends.maps.mapsOk ht
      tx := hs.consistent.txPlaces hs.tx hsends ht
      rx := hs.consistent.rxPlaces hs.rx ht }

/-! ## Runs -/

/-- The packets of a ring do not overlap. -/
theorem Ring.Places.disjoint {r : Ring} {handled : ℕ} {given : List Entry}
    {placed : List Placement} (h : r.Places handled given placed) :
    placed.Pairwise fun p q => Disjoint (p.bytes r.pkt.mask) (q.bytes r.pkt.mask) := by
  obtain ⟨start, hlaid, -⟩ := h.laid
  have hspans := hlaid.disjoint h.sum_size
  have hsub : ∀ p ∈ placed, p.bytes r.pkt.mask ⊆ spanBytes (2 ^ 15) p.pos p.size := by
    intro p hp
    obtain ⟨hstart, hend⟩ := (h.valid p hp).inside
    have hbytes : p.bytes r.pkt.mask =
        spanBytes (2 ^ 15) (p.pos + (p.pktAddrFixed.toNat - p.pos)) p.len.toNat := by
      rw [Placement.bytes, h.mask, Placement.pos, Nat.add_sub_of_le hstart]
      rfl
    rw [hbytes]
    apply Lib.spanBytes_mono
    unfold Placement.pos Placement.size
    omega
  refine List.Pairwise.imp_of_mem ?_ hspans
  intro p q hp hq hdisj
  exact hdisj.mono (hsub p hp) (hsub q hq)

/-- Packets that are sent or can be received lie in the lines that are reserved for them and
do not overlap in the buffers of the card, and their descriptors say where they are. -/
theorem packets_disjoint (raw : Card) {ops : List Op} {s : PlacedState}
    (hsends : ∀ op ∈ ops, op.Sends)
    (hrun : ops.foldlM placedExec (placedProbed raw) = some s) :
    (s.txPlaced.Pairwise fun p q =>
      Disjoint (p.bytes s.state.card.tx.pkt.mask) (q.bytes s.state.card.tx.pkt.mask)) ∧
    (s.rxPlaced.Pairwise fun p q =>
      Disjoint (p.bytes s.state.card.rx.pkt.mask) (q.bytes s.state.card.rx.pkt.mask)) ∧
    (∀ p ∈ s.txPlaced ++ s.rxPlaced, p.Inside) ∧
    (s.state.card.tx.outstanding.map fun i => s.state.card.tx.dscMem (8 * i)) =
      s.txPlaced.map Placement.dscL0 ∧
    (s.state.card.rx.outstanding.map fun i => s.state.card.rx.dscMem (8 * i)) =
      s.rxPlaced.map Placement.dscL0 ∧
    ∀ p ∈ s.txPlaced, ∀ len portDecoded pktAddrFixed : UInt64, len.toNat < 2 ^ 16 →
      portDecoded.toNat < 2 ^ 16 → pktAddrFixed.toNat < 2 ^ 32 →
      Placement.pack len portDecoded pktAddrFixed = p.dscL0 →
      len = p.len ∧ portDecoded = p.portDecoded ∧ pktAddrFixed = p.pktAddrFixed := by
  obtain ⟨h, hs⟩ : ∃ h, Located s h :=
    Lib.run_invariant (I := fun s => ∃ h, Located s h)
      (fun s op hop s' hI hx => ⟨_, hI.choose_spec.step (hsends op hop) hx⟩)
      ⟨{}, located_probed raw⟩ hrun
  refine ⟨hs.tx.disjoint, hs.rx.disjoint, ?_, ?_, ?_, ?_⟩
  · intro p hp
    rcases List.mem_append.mp hp with htx | hrx
    · exact (hs.tx.valid p htx).inside
    · exact (hs.rx.valid p hrx).inside
  · rw [hs.tx.agrees.outstanding_eq]
    exact hs.tx.words
  · rw [hs.rx.agrees.outstanding_eq]
    exact hs.rx.words
  · intro p hp len portDecoded pktAddrFixed hlen hport haddr heq
    have hvalid := hs.tx.valid p hp
    have hlines := hvalid.inside.2
    have hptr := hvalid.pktAddr
    have hcl := hvalid.clSize
    have hplen := hvalid.len
    exact Placement.pack_injective hlen hport haddr (by omega) hvalid.portDecoded (by omega) heq

/-- Two packets are sent with different alignments, and an skb is posted. -/
def sentAligned : List Op :=
  [.xmit ⟨1, 1514⟩ 0 (some 0x103f), .xmit ⟨2, 60⟩ 3 (some 0x2001), .sendRxDsc (some 3) 0x3002]

def alignedState : PlacedState :=
  (sentAligned.foldlM placedExec (placedProbed Card.zeroed)).get (by decide +kernel)

theorem packets_disjoint_sentAligned :
    alignedState.txPlaced.length = 2 ∧ alignedState.txPlaced.Pairwise fun p q =>
      Disjoint (p.bytes alignedState.state.card.tx.pkt.mask)
        (q.bytes alignedState.state.card.tx.pkt.mask) :=
  ⟨by decide +kernel,
    (@packets_disjoint Card.zeroed sentAligned alignedState (by simp [sentAligned, Op.Sends])
      (Option.some_get (by decide +kernel)).symm).1⟩

end CodeAnalyze.Nf10
