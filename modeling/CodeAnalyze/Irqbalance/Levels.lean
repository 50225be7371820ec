import CodeAnalyze.Irqbalance.Database
import CodeAnalyze.Irqbalance.Sample
import CodeAnalyze.Lib.Registry

/-!
# The balance level of an IRQ

The level is written where the class is: `add_one_irq_to_db` leaves both alone where it
cannot read the class, and `add_new_irq` overrides both.  The first place that reports an
IRQ decides what becomes of the level the policy script asks for.
-/

namespace CodeAnalyze.Irqbalance

open Lib

variable {cfg : Config} {sysfs : Sysfs} {t : Topology} {db : IrqDb} {irq : ℤ} {info : IrqInfo}

/-! ## Where an IRQ is discovered -/

/-- The path `build_one_dev_entry` calls the ban script with. -/
def PciDevice.banPath (dev : PciDevice) : DevPath :=
  if dev.msiIrqs.isSome then .device dev.name else .deviceIrq dev.name

/-- The type `build_one_dev_entry` gives the IRQs of a device. -/
def PciDevice.irqType (dev : PciDevice) : IrqType :=
  if dev.msiIrqs.isSome then .msix else .legacy

/-- The numbers `build_one_dev_entry` reads: those of the MSI directory, or that of the
file `irq`.  It does nothing about number 0. -/
def PciDevice.irqnums (dev : PciDevice) : List ℤ :=
  (match dev.msiIrqs with
    | some irqnums => irqnums
    | none => dev.irq.join.toList).filter (· ≠ 0)

/-- What the devices report, in the order `rebuild_irq_db` comes to it. -/
def Sysfs.reports (sysfs : Sysfs) : List (PciDevice × ℤ) :=
  (sysfs.pciDevices.getD []).flatMap fun dev => dev.irqnums.map fun irq => (dev, irq)

/-- How `rebuild_irq_db` comes to know of an IRQ. -/
inductive Discovery
  /-- A device reports it, in its MSI directory or in its file `irq`. -/
  | device (dev : PciDevice)
  /-- It is only in `/proc/interrupts`. -/
  | proc (entry : IrqInfo)

/-- The first place that reports the IRQ. -/
def discovery (cfg : Config) (sysfs : Sysfs) (irq : ℤ) : Option Discovery :=
  match sysfs.reports.find? fun report => report.2 = irq with
  | some report => some (.device report.1)
  | none => ((collectFullIrqList cfg sysfs).find? fun entry => entry.irq = irq).map .proc

/-- The path the policy script is called with. -/
def Discovery.path : Discovery → DevPath
  | .device dev => .device dev.name
  | .proc _ => .sys

/-- The valid `balance_level` the policy script sets for an IRQ. -/
def scriptLevel (cfg : Config) (sysfs : Sysfs) (t : Topology) (irq : ℤ) : Option BalanceLevel :=
  (discovery cfg sysfs irq).bind fun found => (getIrqUserPolicy cfg sysfs t found.path irq).level

/-- The level is the one the script sets; without one it is that of the class. -/
def LevelHonoured (cfg : Config) (sysfs : Sysfs) (t : Topology) (info : IrqInfo) : Prop :=
  info.level = (scriptLevel cfg sysfs t info.irq).getD (mapClassToLevel info.irqClass)

/-- The class of a device can be read and is in `class_codes`. -/
def ClassFile.Known (file : ClassFile) : Prop :=
  ∃ pciClass, file.class? = some pciClass ∧ pciClass >>> 16 < classCodes.length

/-- When the level is right: the class of the reporting device is known, or the script
happens to ask for the level the code ends up with. -/
def LevelSafe (cfg : Config) (sysfs : Sysfs) (t : Topology) (irq : ℤ) : Prop :=
  match discovery cfg sysfs irq with
  | some (.device dev) => dev.attrs.classFile.Known ∨ scriptLevel cfg sysfs t irq = some .none
  | some (.proc entry) =>
    scriptLevel cfg sysfs t irq = none ∨
      scriptLevel cfg sysfs t irq = some (mapClassToLevel entry.irqClass)
  | none => True

/-! ## What a report makes of the database -/

/-- The entry a device makes. -/
def MadeByDevice (cfg : Config) (sysfs : Sysfs) (t : Topology) (report : PciDevice × ℤ)
    (info : IrqInfo) : Prop :=
  (info.irqClass, info.level) =
    classifyIrq report.1.attrs.classFile
      (getIrqUserPolicy cfg sysfs t (.device report.1.name) report.2)

/-- The entry a line of `/proc/interrupts` makes. -/
def MadeByLine (entry info : IrqInfo) : Prop :=
  info.irqClass = entry.irqClass ∧ info.level = mapClassToLevel entry.irqClass

theorem addDevIrq_filed (dev : PciDevice) (banPath : DevPath) (type : IrqType)
    (hinfo : info ∈ (addDevIrq cfg sysfs t dev banPath type db irq).interruptsDb) :
    info ∈ db.interruptsDb ∨
      info.irq = irq ∧ irq ∉ db.known ∧ MadeByDevice cfg sysfs t (dev, irq) info := by
  unfold addDevIrq at hinfo
  split at hinfo
  · exact .inl hinfo
  · split at hinfo
    · exact .inl hinfo
    · rename_i hunknown
      have hnew : irq ∉ db.known := fun hmem => hunknown (getIrqInfo_isSome_iff.mpr hmem)
      dsimp only [askPolicy] at hinfo
      generalize hpol : getIrqUserPolicy cfg sysfs t (.device dev.name) irq = pol at hinfo
      split at hinfo
      · exact .inl hinfo
      · have hask : irq ∉ ({ db with policyLog := db.policyLog ++ [(irq, pol)] } : IrqDb).known :=
          hnew
        rw [addOneIrqToDb_of_new hask] at hinfo
        simp only [IrqDb.modifyRef, modify_concat] at hinfo
        rcases List.mem_append.mp hinfo with hold | hlast
        · exact .inl hold
        · rw [List.mem_singleton.mp hlast]
          refine .inr ⟨rfl, hnew, ?_⟩
          unfold MadeByDevice
          rw [hpol]
          rfl

theorem addMissingIrq_filed (entry : IrqInfo)
    (hinfo : info ∈ (addMissingIrq cfg sysfs t db entry).interruptsDb) :
    info ∈ db.interruptsDb ∨
      info.irq = entry.irq ∧ entry.irq ∉ db.known ∧ MadeByLine entry info := by
  unfold addMissingIrq at hinfo
  split at hinfo
  · exact .inl hinfo
  · unfold addNewIrq at hinfo
    split at hinfo
    · exact .inl hinfo
    · rename_i hunknown
      have hnew : entry.irq ∉ db.known := fun hmem => hunknown (getIrqInfo_isSome_iff.mpr hmem)
      dsimp only [askPolicy] at hinfo
      generalize getIrqUserPolicy cfg sysfs t .sys entry.irq = pol at hinfo
      have hask : entry.irq ∉
          ({ db with policyLog := db.policyLog ++ [(entry.irq, pol)] } : IrqDb).known := hnew
      by_cases hban :
          (decide (pol.ban = some true) || checkForIrqBan cfg sysfs none entry.irq) = true
      · rw [if_pos hban, addBannedIrq_of_new (not_mem_bannedIrqs hnew)] at hinfo
        have hirq : ({ irq := entry.irq, banned := true, hintPolicy := .exact } : IrqInfo).irq =
            entry.irq := rfl
        dsimp only at hinfo
        rw [getIrqInfo_of_banned hask hirq] at hinfo
        exact .inl hinfo
      · rw [if_neg hban, addOneIrqToDb_of_new hask] at hinfo
        simp only [IrqDb.modifyRef, modify_concat] at hinfo
        rcases List.mem_append.mp hinfo with hold | hlast
        · exact .inl hold
        · rw [List.mem_singleton.mp hlast]
          exact .inr ⟨rfl, hnew, rfl, rfl⟩

/-- What `build_one_dev_entry` makes of one number. -/
def addReport (cfg : Config) (sysfs : Sysfs) (t : Topology) (db : IrqDb)
    (report : PciDevice × ℤ) : IrqDb :=
  addDevIrq cfg sysfs t report.1 report.1.banPath report.1.irqType db report.2

/-- A device registers the IRQs it reports. -/
theorem addReport_registers (db : IrqDb) (report : PciDevice × ℤ) (hirq : report.2 ≠ 0) :
    Registers Prod.snd IrqInfo.irq (fun db n => n ∈ db.known) IrqDb.interruptsDb
      (MadeByDevice cfg sysfs t) db report (addReport cfg sysfs t db report) := by
  rcases addDevIrq_cases cfg sysfs t report.1 report.1.banPath report.1.irqType db report.2 with
    ⟨hzero | hknown, heq⟩ | hc
  · exact absurd hzero hirq
  · rw [addReport, heq]
    exact .of_known hknown
  · refine ⟨hc.known_eq, fun info hinfo => ?_⟩
    exact addDevIrq_filed report.1 report.1.banPath report.1.irqType hinfo

/-- A line of `/proc/interrupts` registers its IRQ. -/
theorem addMissingIrq_registers (entry : IrqInfo) :
    Registers IrqInfo.irq IrqInfo.irq (fun db n => n ∈ db.known) IrqDb.interruptsDb MadeByLine
      db entry (addMissingIrq cfg sysfs t db entry) := by
  rcases addMissingIrq_cases cfg sysfs t entry db with ⟨hknown, heq⟩ | hc
  · rw [heq]
    exact .of_known hknown
  · exact ⟨hc.known_eq, fun info hinfo => addMissingIrq_filed entry hinfo⟩

/-! ## The whole database -/

/-- The devices report one IRQ after another. -/
theorem foldl_buildOneDevEntry (devs : List PciDevice) (db : IrqDb) :
    devs.foldl (buildOneDevEntry cfg sysfs t) db =
      (devs.flatMap fun dev => dev.irqnums.map fun irq => (dev, irq)).foldl
        (addReport cfg sysfs t) db := by
  have hzero : ∀ dev (db : IrqDb) irq,
      (if irq ≠ 0 then addReport cfg sysfs t db (dev, irq) else db) =
        addReport cfg sysfs t db (dev, irq) := by
    intro dev db irq
    split
    · rfl
    · rename_i hirq
      unfold addReport addDevIrq
      rw [if_pos (not_not.mp hirq)]
  rw [List.foldl_flatMap]
  congr 1
  funext db dev
  rw [List.foldl_map, PciDevice.irqnums, List.foldl_filter]
  simp only [decide_eq_true_eq, hzero]
  unfold buildOneDevEntry
  cases hmsi : dev.msiIrqs with
  | some irqnums =>
      simp only [addReport, PciDevice.banPath, PciDevice.irqType, hmsi]
      rfl
  | none =>
      simp only [addReport, PciDevice.banPath, PciDevice.irqType, hmsi]
      cases dev.irq with
      | none => rfl
      | some irqnum => cases irqnum <;> rfl

theorem ne_zero_of_mem_reports (sysfs : Sysfs) : ∀ report ∈ sysfs.reports, report.2 ≠ 0 := by
  intro report h
  obtain ⟨dev, -, hreport⟩ := List.mem_flatMap.mp h
  obtain ⟨irq, hirq, rfl⟩ := List.mem_map.mp hreport
  exact of_decide_eq_true (List.mem_filter.mp hirq).2

/-- The database after the devices. -/
def deviceDb (cfg : Config) (sysfs : Sysfs) (t : Topology) : IrqDb :=
  sysfs.reports.foldl (addReport cfg sysfs t) {}

theorem mem_known_deviceDb :
    irq ∈ (deviceDb cfg sysfs t).known ↔ ∃ report ∈ sysfs.reports, report.2 = irq := by
  have hknown := known_foldl_iff (f := addReport cfg sysfs t) (s := {})
    (fun db report hreport =>
      addReport_registers db report (ne_zero_of_mem_reports sysfs report hreport)) irq
  refine hknown.trans (or_iff_right fun h => ?_)
  cases h

theorem deviceDb_filed (hinfo : info ∈ (deviceDb cfg sysfs t).interruptsDb) :
    ∃ report, (sysfs.reports.find? fun report => report.2 = info.irq) = some report ∧
      MadeByDevice cfg sysfs t report info := by
  have hfiled := filed_foldl_cases (f := addReport cfg sysfs t) (s := {})
    (fun db report hreport =>
      addReport_registers db report (ne_zero_of_mem_reports sysfs report hreport)) hinfo
  rcases hfiled with hstart | ⟨-, hfirst⟩
  · cases hstart
  · exact hfirst

/-- Every entry was made by the first place that reports its IRQ. -/
theorem rebuildIrqDb_made (hinfo : info ∈ (rebuildIrqDb cfg sysfs t db).interruptsDb) :
    ∃ found, discovery cfg sysfs info.irq = some found ∧
      match found with
      | .device dev => MadeByDevice cfg sysfs t (dev, info.irq) info
      | .proc entry => MadeByLine entry info := by
  unfold rebuildIrqDb at hinfo
  cases hdevs : sysfs.pciDevices with
  | none =>
      rw [hdevs] at hinfo
      cases hinfo
  | some devs =>
      rw [hdevs] at hinfo
      dsimp only at hinfo
      rw [foldl_buildOneDevEntry] at hinfo
      have hreports : (devs.flatMap fun dev => dev.irqnums.map fun irq => (dev, irq)) =
          sysfs.reports := by
        unfold Sysfs.reports
        rw [hdevs]
        rfl
      rw [hreports] at hinfo
      change info ∈ ((if (collectFullIrqList cfg sysfs).isEmpty then
        (deviceDb cfg sysfs t).interruptsDb else collectFullIrqList cfg sysfs).foldl
          (addMissingIrq cfg sysfs t) (deviceDb cfg sysfs t)).interruptsDb at hinfo
      rcases filed_foldl_cases (fun _ entry _ => addMissingIrq_registers entry) hinfo with
        hdevice | ⟨hnew, entry, hentry, hmade⟩
      · -- a device made the entry
        obtain ⟨report, hreport, hmade⟩ := deviceDb_filed hdevice
        have hirq : report.2 = info.irq := by simpa using List.find?_some hreport
        refine ⟨.device report.1, ?_, hirq ▸ hmade⟩
        unfold discovery
        rw [hreport]
      · -- a line of `/proc/interrupts` made it, so no device reports the number
        refine ⟨.proc entry, ?_, hmade⟩
        have hreports : (sysfs.reports.find? fun report => report.2 = info.irq) = none := by
          rw [List.find?_eq_none]
          intro report hreport hirq
          exact hnew (mem_known_deviceDb.mpr ⟨report, hreport, of_decide_eq_true hirq⟩)
        unfold discovery
        rw [hreports]
        dsimp only
        split at hentry
        · -- the walk over the database finds only what is known
          have hknown : entry.irq ∈ (deviceDb cfg sysfs t).known :=
            List.mem_map_of_mem (List.mem_append_left _ (List.mem_of_find?_eq_some hentry))
          have hirq : entry.irq = info.irq := by simpa using List.find?_some hentry
          exact absurd (hirq ▸ hknown) hnew
        · rw [hentry]
          rfl

/-! ## Which levels are right -/

theorem ClassFile.known_iff {file : ClassFile} :
    file.Known ↔ ∃ pciClass irqClass, file.class? = some pciClass ∧
      classCodes[pciClass >>> 16]? = some irqClass := by
  unfold Known
  refine exists_congr fun pciClass => ?_
  rw [exists_and_left]
  refine and_congr_right fun _ => ?_
  simp [List.getElem?_eq_some_iff]

theorem classifyIrq_known {file : ClassFile} {pciClass : ℕ} {irqClass : IrqClass}
    (hclass : file.class? = some pciClass) (hcode : classCodes[pciClass >>> 16]? = some irqClass)
    (pol : UserIrqPolicy) :
    classifyIrq file pol = (irqClass, pol.level.getD (mapClassToLevel irqClass)) := by
  unfold classifyIrq
  rw [hclass]
  dsimp only
  rw [hcode]

/-- Without a known class the entry keeps the zeroes of `calloc`. -/
theorem classifyIrq_unknown {file : ClassFile} (h : ¬ file.Known) (pol : UserIrqPolicy) :
    classifyIrq file pol = (.other, .none) := by
  unfold classifyIrq
  cases hclass : file.class? with
  | none => rfl
  | some pciClass =>
      dsimp only
      cases hcode : classCodes[pciClass >>> 16]? with
      | none => rfl
      | some irqClass => exact absurd (ClassFile.known_iff.mpr ⟨pciClass, irqClass, hclass, hcode⟩) h

/-- For every IRQ that `rebuild_irq_db` puts into the database, the level the script sets
is honoured exactly if the class of the reporting device is known, or the level is the
one the code ends up with anyway. -/
theorem level_honoured_iff (cfg : Config) (sysfs : Sysfs) (t : Topology) (db : IrqDb)
    (info : IrqInfo) (hinfo : info ∈ (rebuildIrqDb cfg sysfs t db).interruptsDb) :
    LevelHonoured cfg sysfs t info ↔ LevelSafe cfg sysfs t info.irq := by
  obtain ⟨found, hfound, hmade⟩ := rebuildIrqDb_made hinfo
  have hscript : scriptLevel cfg sysfs t info.irq =
      (getIrqUserPolicy cfg sysfs t found.path info.irq).level := by
    unfold scriptLevel
    rw [hfound]
    rfl
  unfold LevelHonoured LevelSafe
  rw [hfound]
  cases found with
  | device dev =>
      have hclassify : (info.irqClass, info.level) = classifyIrq dev.attrs.classFile
          (getIrqUserPolicy cfg sysfs t (.device dev.name) info.irq) := hmade
      rw [hscript]
      change info.level =
        Option.getD (getIrqUserPolicy cfg sysfs t (.device dev.name) info.irq).level
        (mapClassToLevel info.irqClass) ↔ _ ∨
          (getIrqUserPolicy cfg sysfs t (.device dev.name) info.irq).level = _
      generalize getIrqUserPolicy cfg sysfs t (.device dev.name) info.irq = pol at hclassify ⊢
      by_cases hknown : dev.attrs.classFile.Known
      · obtain ⟨pciClass, irqClass, hclass, hcode⟩ := ClassFile.known_iff.mp hknown
        obtain ⟨hirqClass, hlevel⟩ :=
          Prod.mk.inj (hclassify.trans (classifyIrq_known hclass hcode pol))
        rw [hlevel, hirqClass]
        exact iff_of_true rfl (.inl hknown)
      · -- the class cannot be read: the level stays `BALANCE_NONE`
        obtain ⟨hirqClass, hlevel⟩ := Prod.mk.inj (hclassify.trans (classifyIrq_unknown hknown pol))
        rw [hlevel, hirqClass, or_iff_right hknown]
        cases hpol : pol.level with
        | none => decide
        | some level => simp [eq_comm]
  | proc entry =>
      -- `add_new_irq` has set the level by the class
      obtain ⟨hirqClass, hlevel⟩ : MadeByLine entry info := hmade
      dsimp only
      rw [hlevel, hirqClass]
      cases scriptLevel cfg sysfs t info.irq with
      | none => simp
      | some level => simp [eq_comm]

/-! ## A script that is not heard -/

namespace Sample

/-- A machine whose timer interrupt belongs to no PCI device, with a script that takes it
out of the balancing: `balance_level=none`. -/
def timer : Sysfs where
  pciDevices := some []
  procInterrupts := some (chars [' ', '0', ':', ' ', '7', ' ', 't', 'i', 'm', 'e', 'r', '\n'])
  policyOutput _ _ := some (keyBalanceLevel ++ chars ['=', 'n', 'o', 'n', 'e', '\n'])

def scriptConfig : Config := { config with polscript := true }

/-- The entry of the timer. -/
def timerEntry : IrqInfo := (rebuildIrqDb scriptConfig timer {} {}).interruptsDb.headD default

theorem timerEntry_mem : timerEntry ∈ (rebuildIrqDb scriptConfig timer {} {}).interruptsDb := by
  decide +kernel

theorem scriptLevel_timer : scriptLevel scriptConfig timer {} timerEntry.irq = some .none := by
  decide +kernel

/-- The timer is balanced at the level of its class, whatever the script says. -/
theorem timer_not_honoured :
    timerEntry ∈ (rebuildIrqDb scriptConfig timer {} {}).interruptsDb ∧
      ¬ LevelHonoured scriptConfig timer {} timerEntry := by
  refine ⟨timerEntry_mem, ?_⟩
  unfold LevelHonoured
  rw [scriptLevel_timer]
  decide +kernel

end Sample

/-- At the timer the condition fails. -/
theorem level_honoured_iff_timer :
    LevelHonoured Sample.scriptConfig Sample.timer {} Sample.timerEntry ↔
      LevelSafe Sample.scriptConfig Sample.timer {} Sample.timerEntry.irq :=
  level_honoured_iff _ _ _ {} _ Sample.timerEntry_mem

end CodeAnalyze.Irqbalance
