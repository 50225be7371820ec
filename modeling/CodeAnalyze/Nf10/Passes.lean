import CodeAnalyze.Nf10.Completions

/-!
# The passes of the TX branch, interleaved

What the counter `mem_tx_dsc.cnt` is in every state reached, wherever the calls and the
handler are.  A packet is known by its number: the packets are counted in order, the card
completes them in order, and each pass of the TX branch takes one back.
-/

namespace CodeAnalyze.Nf10

/-- The completions, the passes and the packets counted. -/
structure Passes (s : TxState) : Prop extends Completions s where
  dscCnt : s.decremented + s.card.tx.dsc.cnt.toNat = s.counted.length
  dscFits : s.card.tx.dsc.cnt.toNat ≤ ringSize
  stored_le : s.stored ≤ s.counted.length

theorem passes_probed (raw : Card) : Passes (txProbed raw) where
  toCompletions := completions_probed raw
  dscCnt := rfl
  dscFits := Nat.zero_le _
  stored_le := Nat.le_refl 0

/-! ## The steps -/

variable {s s' : TxState}

/-- What the passes depend on. -/
theorem Passes.frame (hs : Passes s) (hcompletions : Completions s')
    (hdecremented : s'.decremented = s.decremented) (hstored : s'.stored = s.stored)
    (hcnt : s'.card.tx.dsc.cnt.toNat + s.counted.length =
      s.card.tx.dsc.cnt.toNat + s'.counted.length)
    (hfits : s'.card.tx.dsc.cnt.toNat ≤ ringSize)
    (hcounted : s.counted.length ≤ s'.counted.length) : Passes s' where
  toCompletions := hcompletions
  dscCnt := by
    have := hs.dscCnt
    rw [hdecremented]
    omega
  dscFits := hfits
  stored_le := by rw [hstored]; exact Nat.le_trans hs.stored_le hcounted

/-- The card stores a completion for a packet that is counted. -/
theorem Passes.store (hs : Passes s) (hlt : s.stored < s.counted.length) :
    Passes s.storeStep where
  toCompletions := hs.toCompletions.store
  dscCnt := hs.dscCnt
  dscFits := hs.dscFits
  stored_le := hlt

theorem Passes.poll (hs : Passes s) (hpc : s.handler = none) : Passes s.pollStep := by
  have hcompletions := hs.toCompletions.poll hpc
  have hdec : s.pollStep.decremented = s.decremented := past_pollStep hpc 3
  unfold TxState.pollStep at *
  split
  · rename_i hdone
    rw [if_pos hdone] at hcompletions hdec
    exact hs.frame hcompletions hdec rfl rfl hs.dscFits (Nat.le_refl _)
  · exact hs

theorem Passes.pass {pc : TxPc} (hs : Passes s) (hpc : s.handler = some pc) :
    Passes (s.passStep pc) := by
  have hcompletions := hs.toCompletions.pass hpc
  -- a statement that does not give back
  have hquiet (hne : pc.rank ≠ 3) (hdsc : (s.passStep pc).card.tx.dsc = s.card.tx.dsc) :
      Passes (s.passStep pc) :=
    hs.frame hcompletions (past_passStep_of_ne hpc (by decide) hne) rfl (by rw [hdsc]; rfl)
      (by rw [hdsc]; exact hs.dscFits) (Nat.le_refl _)
  cases pc with
  | decDsc i =>
      obtain ⟨hnew, hold⟩ := past_passStep_self hs.toAligned hpc (by simp [TxPc.rank])
      have hcnt : s.past 3 + s.card.tx.dsc.cnt.toNat = s.counted.length := hs.dscCnt
      have hreads := hs.reads_le
      have hstored := hs.stored_le
      have hfits := hs.dscFits
      simp only [TxPc.rank] at hnew hold
      have hdec : (s.card.tx.dsc.cnt - 1).toNat + 1 = s.card.tx.dsc.cnt.toNat :=
        Lib.toNat_sub_add (UInt64.le_iff_toNat_le.mpr (by simp; omega))
      refine
        { toCompletions := hcompletions
          dscCnt := ?_
          dscFits := ?_
          stored_le := hs.stored_le }
      · change (s.passStep (.decDsc i)).past 3 + (s.card.tx.dsc.cnt - 1).toNat = s.counted.length
        omega
      · change (s.card.tx.dsc.cnt - 1).toNat ≤ ringSize
        omega
  | advance => exact hquiet (by decide) rfl
  | release i => exact hquiet (by simp [TxPc.rank]) rfl
  | subPkt i => exact hquiet (by simp [TxPc.rank]) rfl
  | invalidate i => exact hquiet (by simp [TxPc.rank]) rfl
  | testDsc => exact hquiet (by decide) rfl
  | testPkt => exact hquiet (by decide) rfl
  | wake i => exact hquiet (by simp [TxPc.rank]) rfl

/-- The numbers of the packets that the card has not completed are less than a turn apart. -/
theorem Passes.turn (hs : Passes s) : s.counted.length ≤ s.stored + s.card.tx.dsc.cnt.toNat := by
  have hcnt := hs.dscCnt
  have hpast : s.decremented ≤ s.reads.length := past_le s 3
  have hreads := hs.reads_le
  omega

/-- The test for room, in numbers. -/
theorem Passes.room_iff (hs : Passes s) :
    s.card.tx.dsc.cnt + 1 ≤ s.card.tx.dsc.clSize ↔ s.card.tx.dsc.cnt.toNat < ringSize := by
  have hfits := hs.dscFits
  rw [hs.setUp.dscClSize, UInt64.le_iff_toNat_le,
    Lib.toNat_add_of_lt (by simp [ringSize] at *; omega)]
  simp only [UInt64.reduceToNat, ringSize]
  omega

end CodeAnalyze.Nf10
