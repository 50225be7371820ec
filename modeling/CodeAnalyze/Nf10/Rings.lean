import CodeAnalyze.Lib.Ring
import CodeAnalyze.Lib.Words
import CodeAnalyze.Nf10.Card

/-!
# Descriptor rings as queues

The descriptors of a ring that are given to the card and not handled yet are a queue.
`Ring.Agrees` says that the pointers, the counters and the books are those of this queue;
giving a descriptor to the card puts an entry behind the others, and handling a completion
takes the first.
-/

namespace CodeAnalyze.Nf10

open Lib (wordSum)
open Lib.Ring (slots contents)

/-- What the books have for a descriptor: the skb, the DMA address and the size. -/
abbrev Entry : Type := SkBuff × UInt64 × UInt64

namespace Ring

variable {r r' : Ring} {handled : ℕ} {given : List Entry} {clSize : UInt64}

/-- The slots that are given to the card and not handled yet, the oldest first. -/
def outstanding (r : Ring) : List ℕ := slots ringSize (index r.dne.rdPtr) r.dsc.cnt.toNat

/-- The entries of the outstanding slots. -/
def entries (r : Ring) : List Entry := r.outstanding.map r.entry

/-- The members that `nf10_probe` sets once. -/
structure SetUp (r : Ring) : Prop where
  dscMask : r.dsc.mask = Nf10.dscMask
  dscClSize : r.dsc.clSize = 32
  pktClSize : r.pkt.clSize = 512
  dneMask : r.dne.mask = Nf10.dscMask

/-- The ring is the queue of what was given to the card, without the first `handled`. -/
structure Agrees (r : Ring) (handled : ℕ) (given : List Entry) : Prop where
  setUp : r.SetUp
  rdPtr : r.dne.rdPtr.toNat = 64 * (handled % ringSize)
  wrPtr : r.dsc.wrPtr.toNat = 64 * (given.length % ringSize)
  dscCnt : handled + r.dsc.cnt.toNat = given.length
  dscFits : r.dsc.cnt.toNat ≤ ringSize
  pktCnt : r.pkt.cnt.toNat = wordSum (·.2.2) (given.drop handled)
  pktFits : r.pkt.cnt.toNat ≤ 512
  books : contents r.entry ringSize handled r.dsc.cnt.toNat = given.drop handled

theorem index_eq {addr : UInt64} {k : ℕ} (h : addr.toNat = 64 * k) : index addr = k := by
  unfold index
  rw [UInt64.toNat_div, h]
  exact Nat.mul_div_cancel_left k (by decide)

theorem Agrees.index_rdPtr (h : r.Agrees handled given) :
    index r.dne.rdPtr = handled % ringSize :=
  index_eq h.rdPtr

theorem Agrees.index_wrPtr (h : r.Agrees handled given) :
    index r.dsc.wrPtr = given.length % ringSize :=
  index_eq h.wrPtr

theorem Agrees.handled_le (h : r.Agrees handled given) : handled ≤ given.length := by
  have := h.dscCnt
  omega

theorem Agrees.length_le (h : r.Agrees handled given) : given.length ≤ handled + ringSize := by
  have := h.dscCnt
  have := h.dscFits
  omega

theorem Agrees.outstanding_eq (h : r.Agrees handled given) :
    r.outstanding = slots ringSize handled r.dsc.cnt.toNat := by
  unfold outstanding
  rw [h.index_rdPtr, Lib.Ring.slots_mod]

theorem Agrees.entries_eq (h : r.Agrees handled given) : r.entries = given.drop handled := by
  unfold entries
  rw [h.outstanding_eq]
  exact h.books

/-- The entry at the read pointer is that of the oldest descriptor. -/
theorem Agrees.entry_rdPtr (h : r.Agrees handled given) (hlt : handled < given.length) :
    r.entry (index r.dne.rdPtr) = given[handled] := by
  obtain ⟨cnt, hcnt⟩ : ∃ cnt, r.dsc.cnt.toNat = cnt + 1 :=
    ⟨r.dsc.cnt.toNat - 1, by have := h.dscCnt; omega⟩
  have hbooks := h.books
  rw [hcnt, Lib.Ring.contents_pop, List.drop_eq_getElem_cons hlt] at hbooks
  rw [h.index_rdPtr]
  exact (List.cons.inj hbooks).1

/-- The rings of `nf10_probe` are empty. -/
theorem agrees_probed (raw : Ring) : (probedRing raw).Agrees 0 [] where
  setUp := { dscMask := rfl, dscClSize := by rfl, pktClSize := by rfl, dneMask := rfl }
  rdPtr := rfl
  wrPtr := rfl
  dscCnt := rfl
  dscFits := Nat.zero_le _
  pktCnt := rfl
  pktFits := Nat.zero_le _
  books := rfl

/-- The memory of the card is no part of the queue. -/
theorem Agrees.writeDsc (h : r.Agrees handled given) (i : ℕ) (dscL0 dscL1 : UInt64) :
    (r.writeDsc i dscL0 dscL1).Agrees handled given where
  setUp := { dscMask := h.setUp.dscMask, dscClSize := h.setUp.dscClSize
             pktClSize := h.setUp.pktClSize, dneMask := h.setUp.dneMask }
  rdPtr := h.rdPtr
  wrPtr := h.wrPtr
  dscCnt := h.dscCnt
  dscFits := h.dscFits
  pktCnt := h.pktCnt
  pktFits := h.pktFits
  books := h.books

/-! ## Integrity -/

/-- The pointers and the counters agree with the outstanding slots and the books. -/
structure Intact (r : Ring) : Prop where
  wrPtr : r.dsc.wrPtr.toNat =
    (r.dne.rdPtr.toNat + 64 * r.dsc.cnt.toNat) % (r.dsc.mask.toNat + 1)
  dscFits : r.dsc.cnt ≤ r.dsc.clSize
  pktCnt : r.pkt.cnt.toNat = wordSum r.bkSize r.outstanding
  pktFits : r.pkt.cnt ≤ r.pkt.clSize

theorem wordSum_entries (r : Ring) : wordSum (·.2.2) r.entries = wordSum r.bkSize r.outstanding := by
  unfold wordSum entries
  rw [List.map_map]
  rfl

theorem Agrees.intact (h : r.Agrees handled given) : r.Intact where
  wrPtr := by
    have hcnt := h.dscCnt
    rw [h.wrPtr, h.rdPtr, h.setUp.dscMask]
    simp only [dscMask, UInt64.reduceToNat, ringSize]
    omega
  dscFits := by
    rw [h.setUp.dscClSize, UInt64.le_iff_toNat_le]
    exact h.dscFits
  pktCnt := by rw [h.pktCnt, ← h.entries_eq, wordSum_entries]
  pktFits := by
    rw [h.setUp.pktClSize, UInt64.le_iff_toNat_le]
    exact h.pktFits

/-- The queue after a step that takes from the front and puts entries behind. -/
theorem Agrees.entries_next {k : ℕ} {gives : List Entry} (h : r.Agrees handled given)
    (h' : r'.Agrees (handled + k) (given ++ gives)) (hk : handled + k ≤ given.length) :
    r'.entries = r.entries.drop k ++ gives := by
  rw [h.entries_eq, h'.entries_eq, List.drop_drop, List.drop_append_of_le_length hk]

/-- Entries that stay in the queue stay in their slots, and are not overwritten. -/
theorem Agrees.entry_kept {k : ℕ} {gives : List Entry} (h : r.Agrees handled given)
    (h' : r'.Agrees (handled + k) (given ++ gives)) (hk : handled + k ≤ given.length) {i : ℕ}
    (hi : i ∈ r.outstanding.drop k) : r'.entry i = r.entry i := by
  have hcnt := h.dscCnt
  have hcnt' := h'.dscCnt
  rw [List.length_append] at hcnt'
  have hstay : r.outstanding.drop k =
      slots ringSize (handled + k) (r.dsc.cnt.toNat - k) := by
    rw [h.outstanding_eq, Lib.Ring.slots_drop]
  have hfirst : r'.outstanding.take (r.dsc.cnt.toNat - k) =
      slots ringSize (handled + k) (r.dsc.cnt.toNat - k) := by
    rw [h'.outstanding_eq, Lib.Ring.slots_take _ _ (by omega)]
  have hlen : (r.entries.drop k).length = r.dsc.cnt.toNat - k := by
    simp [entries, h.outstanding_eq]
  have hsame : (r.outstanding.drop k).map r'.entry = (r.outstanding.drop k).map r.entry :=
    calc (r.outstanding.drop k).map r'.entry
        = r'.entries.take (r.dsc.cnt.toNat - k) := by
          rw [hstay, ← hfirst, List.map_take, entries]
      _ = r.entries.drop k := by
          rw [h.entries_next h' hk, ← hlen, List.take_left]
      _ = (r.outstanding.drop k).map r.entry := by rw [entries, List.map_drop]
  exact List.map_inj_left.mp hsame i hi

/-! ## Giving a descriptor to the card -/

/-- A descriptor is reserved, counted and put into the books. -/
def give (r : Ring) (skb : SkBuff) (dmaAddr clSize : UInt64) : Ring :=
  (((r.reserve clSize).incDsc).addPkt clSize).book (index r.dsc.wrPtr) skb dmaAddr clSize

theorem entry_book (r : Ring) (i : ℕ) (skb : SkBuff) (dmaAddr clSize : UInt64) :
    (r.book i skb dmaAddr clSize).entry =
      Function.update r.entry i (skb, dmaAddr, clSize) := by
  funext j
  by_cases h : j = i
  · subst h
    simp [entry, book]
  · simp [entry, book, Function.update_of_ne h]

/-- The test of the driver, in numbers. -/
theorem Agrees.fits_iff (h : r.Agrees handled given) (hcl : clSize.toNat < 2 ^ 32) :
    r.fits clSize = true ↔
      r.dsc.cnt.toNat < ringSize ∧ r.pkt.cnt.toNat + clSize.toNat ≤ 512 := by
  have hdsc := h.dscFits
  have hpkt := h.pktFits
  unfold fits
  rw [h.setUp.dscClSize, h.setUp.pktClSize, Bool.and_eq_true, decide_eq_true_iff,
    decide_eq_true_iff, UInt64.le_iff_toNat_le, UInt64.le_iff_toNat_le,
    Lib.toNat_add_of_lt (by simp [ringSize] at *; omega),
    Lib.toNat_add_of_lt (by simp [ringSize] at *; omega)]
  simp only [UInt64.reduceToNat, ringSize]
  omega

theorem Agrees.give (h : r.Agrees handled given) (hcl : clSize.toNat < 2 ^ 32)
    (hfits : r.fits clSize = true) (skb : SkBuff) (dmaAddr : UInt64) :
    (r.give skb dmaAddr clSize).Agrees handled (given ++ [(skb, dmaAddr, clSize)]) := by
  obtain ⟨hroom, hlines⟩ := (h.fits_iff hcl).mp hfits
  have hle := h.handled_le
  have hdsc : (r.dsc.cnt + 1).toNat = r.dsc.cnt.toNat + 1 :=
    Lib.toNat_add_of_lt (by simp [ringSize] at *; omega)
  have hpkt : (r.pkt.cnt + clSize).toNat = r.pkt.cnt.toNat + clSize.toNat :=
    Lib.toNat_add_of_lt (by omega)
  have hdrop : (given ++ [(skb, dmaAddr, clSize)]).drop handled =
      given.drop handled ++ [(skb, dmaAddr, clSize)] :=
    List.drop_append_of_le_length hle
  refine
    { setUp := { dscMask := h.setUp.dscMask, dscClSize := h.setUp.dscClSize
                 pktClSize := h.setUp.pktClSize, dneMask := h.setUp.dneMask }
      rdPtr := h.rdPtr
      wrPtr := ?_
      dscCnt := ?_
      dscFits := ?_
      pktCnt := ?_
      pktFits := ?_
      books := ?_ }
  · calc (((r.dsc.wrPtr + 64) &&& r.dsc.mask).toNat)
        = (r.dsc.wrPtr.toNat + (64 : UInt64).toNat) % 2 ^ 11 :=
          Lib.toNat_add_and_mask (by decide) (by rw [h.setUp.dscMask]; rfl)
      _ = (64 * (given.length % ringSize) + 64) % 2 ^ 11 := by rw [h.wrPtr]; rfl
      _ = 64 * ((given.length + 1) % ringSize) := by simp only [ringSize]; omega
      _ = 64 * ((given ++ [(skb, dmaAddr, clSize)]).length % ringSize) := by simp
  · have := h.dscCnt
    change handled + (r.dsc.cnt + 1).toNat = _
    rw [hdsc, List.length_append]
    simp
    omega
  · change (r.dsc.cnt + 1).toNat ≤ ringSize
    omega
  · change (r.pkt.cnt + clSize).toNat = _
    rw [hpkt, hdrop, Lib.wordSum_append, h.pktCnt]
    simp [wordSum]
  · change (r.pkt.cnt + clSize).toNat ≤ 512
    omega
  · -- the entry goes into the slot behind the others
    have hslot : index r.dsc.wrPtr = (handled + r.dsc.cnt.toNat) % ringSize := by
      rw [h.index_wrPtr, h.dscCnt]
    have hentry : (r.give skb dmaAddr clSize).entry =
        Function.update r.entry ((handled + r.dsc.cnt.toNat) % ringSize)
          (skb, dmaAddr, clSize) := by
      rw [← hslot]
      exact entry_book _ _ _ _ _
    change contents _ ringSize handled (r.dsc.cnt + 1).toNat = _
    rw [hentry, hdsc, Lib.Ring.contents_push _ _ hroom, h.books, hdrop]

/-! ## Handling a completion -/

/-- The oldest descriptor is taken back. -/
def take (r : Ring) : Ring := (r.advanceRd.subPkt (index r.dne.rdPtr)).decDsc

theorem Agrees.take (h : r.Agrees handled given) (hlt : handled < given.length) :
    r.take.Agrees (handled + 1) given := by
  have hcnt := h.dscCnt
  have hfits := h.dscFits
  have hlines := h.pktFits
  have hdrop : given.drop handled = given[handled] :: given.drop (handled + 1) :=
    List.drop_eq_getElem_cons hlt
  have hentry := h.entry_rdPtr hlt
  have hsize : r.bkSize (index r.dne.rdPtr) = given[handled].2.2 := by rw [← hentry]; rfl
  have hsum : r.pkt.cnt.toNat =
      given[handled].2.2.toNat + wordSum (·.2.2) (given.drop (handled + 1)) := by
    rw [h.pktCnt, hdrop, Lib.wordSum_cons]
  -- neither count wraps below zero: the oldest entry is counted in both
  have hdsc : (r.dsc.cnt - 1).toNat + 1 = r.dsc.cnt.toNat :=
    Lib.toNat_sub_add (UInt64.le_iff_toNat_le.mpr (by simp; omega))
  have hpkt : (r.pkt.cnt - r.bkSize (index r.dne.rdPtr)).toNat + given[handled].2.2.toNat =
      r.pkt.cnt.toNat := by
    rw [hsize]
    exact Lib.toNat_sub_add (UInt64.le_iff_toNat_le.mpr (by omega))
  refine
    { setUp := { dscMask := h.setUp.dscMask, dscClSize := h.setUp.dscClSize
                 pktClSize := h.setUp.pktClSize, dneMask := h.setUp.dneMask }
      rdPtr := ?_
      wrPtr := h.wrPtr
      dscCnt := ?_
      dscFits := ?_
      pktCnt := ?_
      pktFits := ?_
      books := ?_ }
  · calc ((r.dne.rdPtr + 64) &&& r.dne.mask).toNat
        = (r.dne.rdPtr.toNat + (64 : UInt64).toNat) % 2 ^ 11 :=
          Lib.toNat_add_and_mask (by decide) (by rw [h.setUp.dneMask]; rfl)
      _ = (64 * (handled % ringSize) + 64) % 2 ^ 11 := by rw [h.rdPtr]; rfl
      _ = 64 * ((handled + 1) % ringSize) := by simp only [ringSize]; omega
  · change handled + 1 + (r.dsc.cnt - 1).toNat = given.length
    omega
  · change (r.dsc.cnt - 1).toNat ≤ ringSize
    omega
  · change (r.pkt.cnt - r.bkSize (index r.dne.rdPtr)).toNat = _
    omega
  · change (r.pkt.cnt - r.bkSize (index r.dne.rdPtr)).toNat ≤ 512
    omega
  · have hbooks := h.books
    rw [← hdsc, Lib.Ring.contents_pop, hdrop] at hbooks
    exact (List.cons.inj hbooks).2

end Ring

end CodeAnalyze.Nf10
