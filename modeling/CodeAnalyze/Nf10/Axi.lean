import CodeAnalyze.Lib.Run
import Mathlib.Data.Nat.Bitwise

/-!
# The AXI write buffer: `nf10fops.c`

The device holds up to 64 register writes that are pending, and drains them on its own.
The driver counts its writes, and asks the device once it has counted 64.  Its tests
`~(val & 0x2)` and `~(val & 0x4)` are never zero, so whenever the buffer is not empty the
driver takes it for not almost full.
-/

namespace CodeAnalyze.Nf10

open Lib (Along)

/-- The writes the device has room for. -/
def axiDepth : ℕ := 64

/-- The status word of the device with `pending` writes. -/
@[mk_iff]
structure AxiStatus (pending : ℕ) (val : UInt64) : Prop where
  empty : val &&& 0x1 ≠ 0 ↔ pending = 0
  almostFull : val &&& 0x2 ≠ 0 ↔ 48 < pending
  full : val &&& 0x4 ≠ 0 ↔ 63 < pending

instance (pending : ℕ) (val : UInt64) : Decidable (AxiStatus pending val) :=
  decidable_of_iff' _ (axiStatus_iff pending val)

/-- `axi_wr_cnt`, and what is pending in the device. -/
structure Axi where
  axiWrCnt : ℕ := 0
  pending : ℕ := 0
  deriving DecidableEq

/-- What the device does during a call of `NF10_IOCTL_CMD_WRITE_REG`: how much is pending,
and what the status word is, at the two places where it can be read, and how much is
pending when the register is written. -/
structure Draining where
  first : ℕ
  val : UInt64
  second : ℕ
  val' : UInt64
  atWrite : ℕ

/-- The device only drains, and its status words are right. -/
@[mk_iff]
structure Draining.Possible (d : Draining) (pending : ℕ) : Prop where
  first_le : d.first ≤ pending
  second_le : d.second ≤ d.first
  atWrite_le : d.atWrite ≤ d.second
  status : AxiStatus d.first d.val
  status' : AxiStatus d.second d.val'

instance (d : Draining) (pending : ℕ) : Decidable (d.Possible pending) :=
  decidable_of_iff' _ (Draining.possible_iff d pending)

/-- `axi_wr_cnt` of a call of `NF10_IOCTL_CMD_WRITE_REG`. -/
def countWrite (axiWrCnt : ℕ) (val val' : UInt64) : ℕ :=
  if axiWrCnt < 64 then axiWrCnt + 1
  else if val &&& 0x1 ≠ 0 then 1  -- buffer empty
  else if ~~~(val &&& 0x2) ≠ 0 then 49  -- buffer not almost full
  else if ~~~(val &&& 0x4) ≠ 0 then 64  -- buffer not full
  -- buffer full
  else if val' &&& 0x1 ≠ 0 then 1
  else if ~~~(val' &&& 0x2) ≠ 0 then 49
  else if ~~~(val' &&& 0x4) ≠ 0 then 64
  else 65

def efault : ℤ := 14

/-- `NF10_IOCTL_CMD_WRITE_REG`: the return value, whether the register was written, and the
state.  A write to a full buffer is lost. -/
def Axi.writeReg (s : Axi) (d : Draining) : ℤ × Bool × Axi :=
  let axiWrCnt := countWrite s.axiWrCnt d.val d.val'
  if axiWrCnt > 64 then (-efault, false, { axiWrCnt := axiWrCnt, pending := d.atWrite })
  else (0, true, { axiWrCnt := axiWrCnt, pending := min axiDepth (d.atWrite + 1) })

/-- `NF10_IOCTL_CMD_READ_REG`: the read completes when nothing is pending any more. -/
def Axi.readReg : Axi := { axiWrCnt := 0, pending := 0 }

inductive AxiOp
  | writeReg (d : Draining)
  | readReg

/-- The effect of a call; `none` where the device cannot do what is said. -/
def Axi.exec (s : Axi) : AxiOp → Option Axi
  | .writeReg d => if d.Possible s.pending then some (s.writeReg d).2.2 else none
  | .readReg => some Axi.readReg

/-- The buffer is not overrun by a call: a write that is made finds less than 64 pending,
`axi_wr_cnt` is an upper bound after it, and where the driver has to ask and the buffer is
full both times, nothing is written. -/
structure NoOverrun (s : Axi) (d : Draining) : Prop where
  bound : (s.writeReg d).1 = 0 → (s.writeReg d).2.2.pending ≤ (s.writeReg d).2.2.axiWrCnt
  room : (s.writeReg d).2.1 = true → d.atWrite < axiDepth
  refused : 64 ≤ s.axiWrCnt → d.val &&& 0x4 ≠ 0 → d.val' &&& 0x4 ≠ 0 →
    (s.writeReg d).1 = -efault ∧ (s.writeReg d).2.1 = false

def AxiSafe (s : Axi) : AxiOp → Prop
  | .writeReg d => NoOverrun s d
  | .readReg => True

/-- Where the driver asks, the buffer is empty, or it is not full both times and at most 48
writes are pending when the next is made. -/
def DrainedInTime (s : Axi) : AxiOp → Prop
  | .writeReg d => s.axiWrCnt = 64 → d.first = 0 ∨ (d.second < 64 ∧ d.atWrite ≤ 48)
  | .readReg => True

instance decidableDrainedInTime (s : Axi) : ∀ op, Decidable (DrainedInTime s op)
  | .writeReg d =>
    inferInstanceAs (Decidable (s.axiWrCnt = 64 → d.first = 0 ∨ (d.second < 64 ∧ d.atWrite ≤ 48)))
  | .readReg => .isTrue trivial

/-- The test of the driver for a buffer that is not almost full never fails. -/
theorem not_and_two_ne_zero (val : UInt64) : ~~~(val &&& 0x2) ≠ 0 := by
  intro h
  have hle : (val &&& 0x2).toNat ≤ 2 := by
    rw [UInt64.toNat_and]
    exact Nat.and_le_right
  have hall : val &&& 0x2 = ~~~0 := by rw [← h, UInt64.not_not]
  rw [hall] at hle
  exact absurd hle (by decide)

/-- Once the driver has counted 64 it goes on with 1 or 49. -/
theorem countWrite_refresh (val val' : UInt64) :
    countWrite 64 val val' = if val &&& 0x1 ≠ 0 then 1 else 49 := by
  unfold countWrite
  rw [if_neg (by decide)]
  by_cases hempty : val &&& 0x1 ≠ 0
  · rw [if_pos hempty, if_pos hempty]
  · rw [if_neg hempty, if_neg hempty, if_pos (not_and_two_ne_zero val)]

theorem countWrite_of_lt {axiWrCnt : ℕ} (h : axiWrCnt < 64) (val val' : UInt64) :
    countWrite axiWrCnt val val' = axiWrCnt + 1 := by
  unfold countWrite
  rw [if_pos h]

/-- The count is an upper bound, and never over 64. -/
structure AxiBound (s : Axi) : Prop where
  pending_le : s.pending ≤ s.axiWrCnt
  cnt_le : s.axiWrCnt ≤ 64

/-- The write is always made. -/
theorem AxiBound.writeReg_eq {s : Axi} (hs : AxiBound s) (d : Draining) :
    countWrite s.axiWrCnt d.val d.val' ≤ 64 ∧
      s.writeReg d = (0, true,
        { axiWrCnt := countWrite s.axiWrCnt d.val d.val'
          pending := min axiDepth (d.atWrite + 1) }) := by
  have hcnt := hs.cnt_le
  have hle : countWrite s.axiWrCnt d.val d.val' ≤ 64 := by
    rcases Nat.lt_or_ge s.axiWrCnt 64 with hlt | hge
    · rw [countWrite_of_lt hlt]
      omega
    · rw [Nat.le_antisymm hcnt hge, countWrite_refresh]
      split <;> omega
  refine ⟨hle, ?_⟩
  unfold Axi.writeReg
  rw [if_neg (by omega)]

theorem axiSafe_iff {s s' : Axi} {op : AxiOp} (hs : AxiBound s) (hx : s.exec op = some s') :
    AxiSafe s op ↔ DrainedInTime s op := by
  cases op with
  | readReg => exact Iff.rfl
  | writeReg d =>
      simp only [Axi.exec, Option.ite_none_right_eq_some] at hx
      have hd := hx.1
      have hfirst := hd.first_le
      have hsecond := hd.second_le
      have hwrite := hd.atWrite_le
      have hpending := hs.pending_le
      have hcnt := hs.cnt_le
      obtain ⟨-, heq⟩ := hs.writeReg_eq d
      have hdepth : axiDepth = 64 := rfl
      constructor
      · intro hsafe hfull
        have hbound := hsafe.bound
        have hrefused := hsafe.refused (Nat.le_of_eq hfull.symm)
        rw [heq] at hbound hrefused
        simp only [hfull, countWrite_refresh, forall_const] at hbound
        by_cases hempty : d.val &&& 0x1 ≠ 0
        · exact .inl (hd.status.empty.mp hempty)
        · rw [if_neg hempty] at hbound
          -- a refusal would return an error, and the call returns 0
          have hnot : ¬63 < d.second := by
            intro h63
            have herr : (0 : ℤ) = -efault :=
              (hrefused (hd.status.full.mpr (by omega)) (hd.status'.full.mpr h63)).1
            exact absurd herr (by decide)
          exact .inr ⟨by omega, by omega⟩
      · intro hdrained
        refine { bound := fun _ => ?_, room := fun _ => ?_, refused := fun hfull => ?_ }
        · rw [heq]
          rcases Nat.lt_or_ge s.axiWrCnt 64 with hlt | hge
          · simp only [countWrite_of_lt hlt]
            omega
          · have h64 := Nat.le_antisymm hcnt hge
            simp only [h64, countWrite_refresh]
            rcases hdrained h64 with hzero | ⟨-, h48⟩
            · rw [if_pos (hd.status.empty.mpr hzero)]
              omega
            · split <;> rename_i hempty
              · have := hd.status.empty.mp hempty
                omega
              · omega
        · rcases Nat.lt_or_ge s.axiWrCnt 64 with hlt | hge
          · omega
          · rcases hdrained (Nat.le_antisymm hcnt hge) with hzero | ⟨-, h48⟩ <;> omega
        · intro hval hval'
          have h63 := hd.status.full.mp hval
          have h63' := hd.status'.full.mp hval'
          rcases hdrained (Nat.le_antisymm hcnt hfull) with hzero | ⟨h64, -⟩ <;> omega

theorem AxiBound.step {s s' : Axi} {op : AxiOp} (hs : AxiBound s) (hsafe : AxiSafe s op)
    (hx : s.exec op = some s') : AxiBound s' := by
  cases op with
  | readReg =>
      cases hx
      exact ⟨Nat.le_refl 0, Nat.zero_le 64⟩
  | writeReg d =>
      simp only [Axi.exec, Option.ite_none_right_eq_some, Option.some.injEq] at hx
      obtain ⟨-, rfl⟩ := hx
      obtain ⟨hle, heq⟩ := hs.writeReg_eq d
      refine ⟨hsafe.bound (by rw [heq]), ?_⟩
      rw [heq]
      exact hle

/-- The buffer is not overrun along a run exactly if whenever the driver has counted 64 the
device has drained enough. -/
theorem axi_safe_iff {ops : List AxiOp} {s : Axi} (hrun : ops.foldlM Axi.exec {} = some s) :
    Along Axi.exec AxiSafe {} ops ↔ Along Axi.exec DrainedInTime {} ops :=
  Lib.along_congr (I := AxiBound) (Q := fun _ => True) (fun _ _ _ hs _ hx => axiSafe_iff hs hx)
    (fun _ _ _ hs _ hsafe hx => hs.step hsafe hx) ⟨Nat.le_refl 0, Nat.zero_le 64⟩
    (fun _ _ => trivial) hrun

/-- The device drains nothing while the driver writes, and says what is pending. -/
def stuckAt (pending : ℕ) : AxiOp :=
  .writeReg
    { first := pending, second := pending, atWrite := pending
      val := if pending = 0 then 1 else if pending ≤ 48 then 0 else if pending ≤ 63 then 2 else 6
      val' := if pending = 0 then 1 else if pending ≤ 48 then 0 else if pending ≤ 63 then 2 else 6 }

/-- The driver counts 64 writes, and 34 of them are drained when it asks. -/
def drainedRun : List AxiOp := (List.range 64).map stuckAt ++ [stuckAt 30, .readReg]

theorem axi_safe_iff_drainedRun : Along Axi.exec AxiSafe {} drainedRun :=
  (axi_safe_iff (s := {}) (by decide +kernel)).mpr (by decide +kernel)

/-- The last of 65 writes to a device that drains nothing is made to the full buffer. -/
theorem stuck_overrun :
    (((List.range 64).map stuckAt ++ [stuckAt 64]).foldlM Axi.exec {}).isSome = true ∧
      ¬Along Axi.exec AxiSafe {} ((List.range 64).map stuckAt ++ [stuckAt 64]) := by
  refine ⟨by decide +kernel, fun hsafe => ?_⟩
  have hfill : ((List.range 64).map stuckAt).foldlM Axi.exec {} =
      some { axiWrCnt := 64, pending := 64 } := by decide +kernel
  have hlast := hsafe.later hfill
  have hroom := hlast.1.room (by decide +kernel)
  exact absurd hroom (by decide)

end CodeAnalyze.Nf10
