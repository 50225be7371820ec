import CodeAnalyze.Irqbalance.Database
import CodeAnalyze.Irqbalance.Frame
import CodeAnalyze.Irqbalance.Sample

/-!
# Does the database cover `/proc/interrupts`?

`rebuild_irq_db` adds what it has not met on the PCI bus from `/proc/interrupts`, so
`parse_proc_interrupts` should find every number it reads.  The label it jumps to
where there is no PCI directory lies behind that pass, though, and the database
stays empty there.
-/

namespace CodeAnalyze.Irqbalance

open Lib

variable {cfg : Config} {sysfs : Sysfs} {t : Topology} {db db' : IrqDb}

theorem Classified.mem_known {irq : ℤ} (h : Classified cfg t db irq db') : irq ∈ db'.known :=
  (h.known_eq irq).mpr (.inl rfl)

theorem addMissingIrq_known (cfg : Config) (sysfs : Sysfs) (t : Topology) (info : IrqInfo) (db : IrqDb) :
    info.irq ∈ (addMissingIrq cfg sysfs t db info).known ∧
      ∀ n ∈ db.known, n ∈ (addMissingIrq cfg sysfs t db info).known := by
  rcases addMissingIrq_cases cfg sysfs t info db with
    ⟨hmem, heq⟩ | hc
  · rw [heq]
    exact ⟨hmem, fun _ hn => hn⟩
  · exact ⟨hc.mem_known, fun n hn => (hc.known_eq n).mpr (.inr hn)⟩

/-- The pass over `tmp_irqs` leaves none of them out. -/
theorem foldl_addMissingIrq_known (infos : List IrqInfo) (db : IrqDb) :
    (∀ info ∈ infos, info.irq ∈ (infos.foldl (addMissingIrq cfg sysfs t) db).known) ∧
      ∀ n ∈ db.known, n ∈ (infos.foldl (addMissingIrq cfg sysfs t) db).known := by
  induction infos generalizing db with
  | nil => exact ⟨fun _ hinfo => absurd hinfo List.not_mem_nil, fun _ hn => hn⟩
  | cons info infos ih =>
      obtain ⟨hself, hkeeps⟩ := addMissingIrq_known cfg sysfs t info db
      obtain ⟨hrest, hrestKeeps⟩ := ih (addMissingIrq cfg sysfs t db info)
      refine ⟨fun e he => ?_, fun n hn => hrestKeeps n (hkeeps n hn)⟩
      rcases List.mem_cons.mp he with rfl | he
      · exact hrestKeeps _ hself
      · exact hrest e he

/-- The numbered lines of `/proc/interrupts`. -/
def procLines (sysfs : Sysfs) : List (Bytes × ℤ × Bytes) :=
  match sysfs.procInterrupts with
  | none => []
  | some file => numberedLines (procBuffers file)

theorem collectFullIrqList_irq (cfg : Config) (sysfs : Sysfs) :
    (collectFullIrqList cfg sysfs).map IrqInfo.irq = (procLines sysfs).map fun line => line.2.1 := by
  unfold collectFullIrqList procLines
  cases sysfs.procInterrupts with
  | none => rfl
  | some file => simp [collectedIrq]

theorem rebuildIrqDb_known (hpci : sysfs.pciDevices ≠ none) {line : Bytes × ℤ × Bytes}
    (hline : line ∈ procLines sysfs) : line.2.1 ∈ (rebuildIrqDb cfg sysfs t db).known := by
  have hirq : line.2.1 ∈ (collectFullIrqList cfg sysfs).map IrqInfo.irq := by
    rw [collectFullIrqList_irq]
    exact List.mem_map_of_mem hline
  obtain ⟨info, hinfo, heq⟩ := List.mem_map.mp hirq
  have hsome : (collectFullIrqList cfg sysfs).isEmpty = false := by
    rw [List.isEmpty_eq_false_iff]
    exact List.ne_nil_of_mem hinfo
  obtain ⟨devs, hdevs⟩ := Option.ne_none_iff_exists'.mp hpci
  unfold rebuildIrqDb
  simp only [hdevs, hsome, Bool.false_eq_true, if_false]
  rw [← heq]
  exact (foldl_addMissingIrq_known _ _).1 info hinfo

/-! ## `parse_proc_interrupts` on the same file -/

theorem State.updateCount_known {s s' : State} {number : ℤ} {counts : Bytes}
    (h : s.updateCount number counts = .ok s') : s'.irqs.known = s.irqs.known := by
  have hfixed := fixed_of_still (updateCount_still h)
  unfold IrqDb.known
  rw [List.map_append, List.map_append, fixed_irqNumbers hfixed, fixed_bannedNumbers hfixed]

theorem State.updateCount_ne_unknown {s : State} {number : ℤ} {counts : Bytes}
    (h : number ∈ s.irqs.known) : s.updateCount number counts ≠ .error .unknownIrq := by
  obtain ⟨ref, href⟩ := Option.isSome_iff_exists.mp (getIrqInfo_isSome_iff.mpr h)
  unfold updateCount
  rw [href]
  dsimp only
  split
  · simp
  · split
    · simp
    · split <;> simp

/-- Where every number of the file is known, no line asks for a rescan as unknown. -/
theorem State.parseProcLines_ne_unknown (s : State) (lines : List Bytes)
    (h : ∀ line ∈ numberedLines lines, line.2.1 ∈ s.irqs.known) :
    (s.parseProcLines lines).2 ≠ some .unknownIrq := by
  induction lines generalizing s with
  | nil => simp [parseProcLines]
  | cons line rest ih =>
      have hmsi : ∀ b : Bool, (if b then { s with procIntHasMsi := true } else s).irqs = s.irqs := by
        intro b
        cases b <;> rfl
      unfold parseProcLines
      unfold numberedLines at h
      dsimp only
      cases hline : procLine line with
      | stop => simp
      | skip =>
          rw [hline] at h
          exact ih _ (by rw [hmsi]; exact h)
      | irq number counts =>
          rw [hline] at h
          have hnumber := h (line, number, counts) List.mem_cons_self
          dsimp only
          split
          · rename_i cause hcause
            intro heq
            rw [Option.some.inj heq] at hcause
            exact updateCount_ne_unknown (by rw [hmsi]; exact hnumber) hcause
          · rename_i s' hs'
            refine ih s' fun l hl => ?_
            rw [updateCount_known hs', hmsi]
            exact h l (List.mem_cons_of_mem _ hl)

/-! ## Coverage -/

/-- After a rebuild `get_irq_info` finds every number of `/proc/interrupts`, and the
same file asks for no rescan because of an unknown IRQ. -/
def Covers (cfg : Config) (sysfs : Sysfs) : Prop :=
  ∀ t db,
    (∀ line ∈ procLines sysfs, ((rebuildIrqDb cfg sysfs t db).getIrqInfo line.2.1).isSome) ∧
    ∀ (file : Bytes) (s : State), sysfs.procInterrupts = some file →
      s.irqs.known = (rebuildIrqDb cfg sysfs t db).known →
      (s.parseProcLines (procBuffers file)).2 ≠ some .unknownIrq

/-- The database covers `/proc/interrupts` exactly where there is a directory of PCI
devices, or no numbered line to cover. -/
theorem covers_iff (cfg : Config) (sysfs : Sysfs) :
    Covers cfg sysfs ↔ sysfs.pciDevices ≠ none ∨ procLines sysfs = [] := by
  constructor
  · intro hcovers
    by_contra hneither
    rw [not_or, not_not] at hneither
    obtain ⟨line, hline⟩ := List.exists_mem_of_ne_nil _ hneither.2
    have hfound := (hcovers {} {}).1 line hline
    have hempty : rebuildIrqDb cfg sysfs {} {} = {} := by
      simp [rebuildIrqDb, hneither.1, IrqDb.freeIrqDb]
    rw [hempty] at hfound
    simp [IrqDb.getIrqInfo] at hfound
  · intro hcond t db
    have hknown : ∀ line ∈ procLines sysfs, line.2.1 ∈ (rebuildIrqDb cfg sysfs t db).known := by
      intro line hline
      rcases hcond with hpci | hnone
      · exact rebuildIrqDb_known hpci hline
      · rw [hnone] at hline
        cases hline
    refine ⟨fun line hline => getIrqInfo_isSome_iff.mpr (hknown line hline),
      fun file s hfile hs => s.parseProcLines_ne_unknown _ fun line hline => ?_⟩
    rw [hs]
    refine hknown line ?_
    unfold procLines
    rw [hfile]
    exact hline

/-- A machine without a PCI bus, and a timer in `/proc/interrupts`. -/
def Sample.withoutPci : Sysfs where
  cpuDirs := some [cpuDir cpu0]
  procInterrupts := some (chars
    [' ', 'C', 'P', 'U', '0', '\n', '1', ':', ' ', '7', ' ', 't', 'i', 'm', 'e', 'r', '\n'])

/-- The database of that machine misses the timer, and the next look at
`/proc/interrupts` asks for another rescan. -/
theorem withoutPci_not_covered :
    ¬ Covers Sample.config Sample.withoutPci ∧
    ((start Sample.config Sample.withoutPci {}).parseProcInterrupts
      Sample.withoutPci.procInterrupts).needRescan = true := by
  constructor
  · intro hcovers
    have hmem : (chars ['1', ':', ' ', '7', ' ', 't', 'i', 'm', 'e', 'r', '\n'], 1,
        chars [' ', '7', ' ', 't', 'i', 'm', 'e', 'r', '\n']) ∈ procLines Sample.withoutPci := by
      decide
    have hfound := (hcovers {} {}).1 _ hmem
    revert hfound
    decide
  · decide

end CodeAnalyze.Irqbalance
