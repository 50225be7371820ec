import CodeAnalyze.Irqbalance.Ownership

/-!
# Banned IRQs are left alone

A banned IRQ has no entry in `interrupts_db`, and everything the daemon moves or
writes is an entry of `interrupts_db`.
-/

namespace CodeAnalyze.Irqbalance

open Lib

variable {cfg : Config} {s s' : State}

namespace State

/-- The numbers in `interrupts_db`. -/
def numbers (s : State) : List ℤ := s.irqs.interruptsDb.map IrqInfo.irq

theorem irq_mem_numbers {i : ℕ} (hi : i < s.dbSize) : (s.info i).irq ∈ s.numbers := by
  rw [info_eq_getElem hi]
  exact List.mem_map_of_mem (List.getElem_mem hi)

/-- The policy script has asked to leave the IRQ alone. -/
def PolicyBanned (s : State) (irq : ℤ) : Prop :=
  ∃ entry ∈ s.irqs.policyLog, entry.1 = irq ∧ entry.2.ban = some true

/-- The IRQ must not be balanced. -/
def Banned (cfg : Config) (s : State) (irq : ℤ) : Prop :=
  irq ∈ cfg.banirq ∨ s.PolicyBanned irq ∨ irq ∈ s.irqs.bannedIrqs.map IrqInfo.irq

/-- No banned IRQ is in `interrupts_db`. -/
def BansKept (cfg : Config) (s : State) : Prop := ∀ irq ∈ s.numbers, ¬ s.Banned cfg irq

theorem BansKept.of_fixed (h : s.BansKept cfg) (hfixed : s'.fixed = s.fixed) :
    s'.BansKept cfg := by
  intro irq hirq hbanned
  unfold numbers at hirq
  rw [fixed_irqNumbers hfixed] at hirq
  unfold Banned PolicyBanned at hbanned
  rw [fixed_policyLog hfixed, fixed_bannedNumbers hfixed] at hbanned
  exact h irq hirq hbanned

end State

theorem IrqDb.Sound.not_banned {t : Topology} {db : IrqDb} (h : db.Sound cfg t) {irq : ℤ}
    (hirq : irq ∈ db.interruptsDb.map IrqInfo.irq) :
    irq ∉ cfg.banirq ∧ (∀ entry ∈ db.policyLog, entry.1 = irq → entry.2.ban ≠ some true) ∧
      irq ∉ db.bannedIrqs.map IrqInfo.irq := by
  obtain ⟨info, hinfo, rfl⟩ := List.mem_map.mp hirq
  refine ⟨h.not_banirq info hinfo, fun entry hentry heq hban => ?_, fun hmem => ?_⟩
  · exact h.not_policy entry hentry hban info hinfo heq.symm
  · have hunique := h.unique
    rw [IrqDb.known, List.map_append] at hunique
    exact List.disjoint_of_nodup_append hunique (List.mem_map_of_mem hinfo) hmem

theorem State.Fresh.bansKept (h : s.Fresh cfg) : s.BansKept cfg := by
  intro irq hirq hbanned
  obtain ⟨hcl, hpolicy, hlist⟩ := h.database.not_banned hirq
  rcases hbanned with hbanned | ⟨entry, hentry, heq, hban⟩ | hbanned
  · exact hcl hbanned
  · exact hpolicy entry hentry heq hban
  · exact hlist hbanned

theorem reachable_bansKept (h : Ops.Reachable cfg s) : s.BansKept cfg :=
  reachable_fixed (fun _ => State.Fresh.bansKept) (fun _ _ hfixed hkept => hkept.of_fixed hfixed) h

/-! ## Writes -/

namespace State

/-- What is written from `s` to `s'` is written for entries of `interrupts_db`. -/
def WritesOwn (s s' : State) : Prop :=
  ∃ new, s'.writes = s.writes ++ new ∧ ∀ write ∈ new, write.1 ∈ s.numbers

theorem WritesOwn.of_eq (h : s'.writes = s.writes) : s.WritesOwn s' :=
  ⟨[], by simp [h], by simp⟩

theorem Turns.writesOwn (h : Turns cfg s s') : s.WritesOwn s' := by
  refine (Turns.keeps (P := fun t => t.fixed = s.fixed ∧ s.WritesOwn t) ?_ ?_ ?_ ?_
    ⟨rfl, .of_eq rfl⟩ h).2
  · rintro t t' ⟨hfixed, new, hnew, hown⟩ hmv
    exact ⟨hmv.fixed_eq.trans hfixed, new, hmv.writes_eq.trans hnew, hown⟩
  · rintro t d ⟨hfixed, hown⟩
    exact ⟨(t.sleep_fixed d).trans hfixed, hown⟩
  · rintro t d ⟨hfixed, hown⟩
    exact ⟨(t.clearPowersaveMode_fixed d).trans hfixed, hown⟩
  · rintro t i mask ⟨hfixed, new, hnew, hown⟩ hi -
    refine ⟨(t.writeAffinity_fixed i mask).trans hfixed, new ++ [((t.info i).irq, mask)], ?_,
      fun write hwrite => ?_⟩
    · rw [← List.append_assoc, ← hnew]
      rfl
    · rcases List.mem_append.mp hwrite with hold | hlast
      · exact hown write hold
      · rw [List.mem_singleton.mp hlast]
        unfold numbers
        rw [← fixed_irqNumbers hfixed]
        exact irq_mem_numbers hi

end State

theorem exec_writesOwn {op : Op} (howned : s.Owned) (hrun : exec cfg s op = some s') :
    s.WritesOwn s' := by
  by_cases hop : ∃ sysfs stack, op = .rescan sysfs stack
  · obtain ⟨sysfs, stack, rfl⟩ := hop
    obtain ⟨blank, -, hwrites, rfl⟩ := exec_rescan s hrun
    exact .of_eq ((State.rebuild_writes cfg sysfs stack blank).trans hwrites)
  · exact (exec_turns howned (fun sysfs stack heq => hop ⟨sysfs, stack, heq⟩) hrun).writesOwn

/-- No `smp_affinity` of an IRQ given to `--banirq` is ever written. -/
theorem reachable_writes_not_banirq (h : Ops.Reachable cfg s) :
    ∀ write ∈ s.writes, write.1 ∉ cfg.banirq := by
  have hboth : Ops.Reachable cfg s ∧ ∀ write ∈ s.writes, write.1 ∉ cfg.banirq := by
    refine ReachableWith.invariant
      (P := fun s => Ops.Reachable cfg s ∧ ∀ write ∈ s.writes, write.1 ∉ cfg.banirq) ?_ ?_ h
    · rintro s hinit -
      refine ⟨.start hinit, ?_⟩
      obtain ⟨sysfs, stack, rfl⟩ := hinit
      simp [start_writes]
    · rintro s op s' - ⟨hreach, hwrites⟩ hrun -
      refine ⟨hreach.next hrun, fun write hwrite => ?_⟩
      obtain ⟨new, hnew, hown⟩ := exec_writesOwn (reachable_owned hreach) hrun
      rw [hnew] at hwrite
      rcases List.mem_append.mp hwrite with hold | hlast
      · exact hwrites write hold
      · exact fun hmem => reachable_bansKept hreach _ (hown write hlast) (.inl hmem)
  exact hboth.2

/-- Every rebuild leaves each number in the database once and no banned number in
`interrupts_db`; so no banned IRQ is ever on a list of the balancer, and no call
writes the `smp_affinity` of one. -/
theorem banned_irqs_left_alone (cfg : Config) :
    (∀ sysfs t db,
      (rebuildIrqDb cfg sysfs t db).known.Nodup ∧
      (∀ irq ∈ cfg.banirq, irq ∉ (rebuildIrqDb cfg sysfs t db).interruptsDb.map IrqInfo.irq) ∧
      ((rebuildIrqDb cfg sysfs t db).policyLog.map Prod.fst).Nodup ∧
      ∀ entry ∈ (rebuildIrqDb cfg sysfs t db).policyLog, entry.2.ban = some true →
        entry.1 ∉ (rebuildIrqDb cfg sysfs t db).interruptsDb.map IrqInfo.irq) ∧
    ∀ s, Ops.Reachable cfg s →
      s.irqs.known.Nodup ∧
      (∀ i ∈ s.irqLists, ¬ s.Banned cfg (s.info i).irq) ∧
      (∀ write ∈ s.writes, write.1 ∉ cfg.banirq) ∧
      ∀ op s', exec cfg s op = some s' →
        ∃ new, s'.writes = s.writes ++ new ∧ ∀ write ∈ new, ¬ s.Banned cfg write.1 := by
  refine ⟨fun sysfs t db => ?_, fun s h => ?_⟩
  · have hdb := rebuildIrqDb_sound cfg sysfs t db
    refine ⟨hdb.unique, fun irq hcl hirq => (hdb.not_banned hirq).1 hcl, hdb.asked_once,
      fun entry hentry hban hirq => (hdb.not_banned hirq).2.1 entry hentry rfl hban⟩
  · have howned := reachable_owned h
    have hkept := reachable_bansKept h
    refine ⟨reachable_known_nodup h, fun i hi => ?_, reachable_writes_not_banirq h,
      fun op s' hrun => ?_⟩
    · obtain ⟨l, hhome⟩ := howned.home_of_mem_irqLists hi
      exact hkept _ (State.irq_mem_numbers (State.lt_dbSize_of_home hhome))
    · obtain ⟨new, hnew, hown⟩ := exec_writesOwn howned hrun
      exact ⟨new, hnew, fun write hwrite => hkept _ (hown write hwrite)⟩

/-- The sample machine with the interrupt of the first card banned. -/
def Sample.banConfig : Config := { config with banirq := [11] }

theorem banned_irqs_left_alone_start :
    (start Sample.banConfig Sample.machine {}).irqs.known.Nodup ∧
      ∀ i ∈ (start Sample.banConfig Sample.machine {}).irqLists,
        ¬ (start Sample.banConfig Sample.machine {}).Banned Sample.banConfig
          ((start Sample.banConfig Sample.machine {}).info i).irq := by
  have hleft := (banned_irqs_left_alone Sample.banConfig).2
    (start Sample.banConfig Sample.machine {}) (.start ⟨Sample.machine, {}, rfl⟩)
  exact ⟨hleft.1, hleft.2.1⟩

end CodeAnalyze.Irqbalance
