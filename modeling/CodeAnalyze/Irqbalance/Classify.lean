import CodeAnalyze.Irqbalance.Policy
import CodeAnalyze.Irqbalance.ProcLines
import CodeAnalyze.Irqbalance.Glist

/-!
# The interrupt database: `classify.c`

`rebuild_irq_db` fills `interrupts_db` and `banned_irqs` from the PCI devices of
sysfs and then from `/proc/interrupts`.
-/

namespace CodeAnalyze.Irqbalance

/-- `map_class_to_level`. -/
def mapClassToLevel : IrqClass → BalanceLevel
  | .other => .package
  | .legacy => .cache
  | _ => .core

/-- `class_codes`. -/
def classCodes : List IrqClass :=
  [.other, .scsi, .eth, .video, .other, .other, .legacy, .other, .other, .legacy, .other, .other,
    .legacy, .eth, .scsi, .other, .other, .other]

/-- A pointer into `interrupts_db` or `banned_irqs`. -/
inductive InfoRef
  | db (place : ℕ)
  | banned (place : ℕ)
  deriving DecidableEq

namespace IrqDb

/-- `is_banned_irq`. -/
def isBannedIrq (db : IrqDb) (irq : ℤ) : Bool :=
  db.bannedIrqs.any fun info => info.irq == irq

/-- `get_irq_info`. -/
def getIrqInfo (db : IrqDb) (irq : ℤ) : Option InfoRef :=
  match db.interruptsDb.findIdx? fun info => info.irq == irq with
  | some place => some (.db place)
  | none => (db.bannedIrqs.findIdx? fun info => info.irq == irq).map .banned

/-- Writing through a pointer `get_irq_info` returned. -/
def modifyRef (db : IrqDb) (ref : InfoRef) (f : IrqInfo → IrqInfo) : IrqDb :=
  match ref with
  | .db place => { db with interruptsDb := db.interruptsDb.modify place f }
  | .banned place => { db with bannedIrqs := db.bannedIrqs.modify place f }

/-- `free_irq_db`. -/
def freeIrqDb (_ : IrqDb) : IrqDb := {}

end IrqDb

section Build

variable (cfg : Config) (sysfs : Sysfs) (t : Topology)

/-- The value of `class` where `add_one_irq_to_db` shifts it; `none` where it has
left for `get_numa_node` before. -/
def ClassFile.class? : ClassFile → Option ℕ
  | .unreadable => none
  | .noNumber => none
  | .eof => some 0
  | .code value => some value.toNat

/-- The class and level `add_one_irq_to_db` gives a new entry.  An entry whose
class cannot be read keeps the zeroes of `calloc`. -/
def classifyIrq (classFile : ClassFile) (pol : UserIrqPolicy) : IrqClass × BalanceLevel :=
  match classFile.class? with
  | none => (.other, .none)
  | some pciClass =>
    match classCodes[pciClass >>> 16]? with
    | none => (.other, .none)
    | some irqClass => (irqClass, pol.level.getD (mapClassToLevel irqClass))

/-- The entry `add_one_irq_to_db` makes. -/
def newIrqInfo (attrs : DeviceAttrs) (irq : ℤ) (pol : UserIrqPolicy) : IrqInfo :=
  let numaNode := if cfg.numaAvail then attrs.numaNode.getD (-1) else -1
  { irq := irq
    irqClass := (classifyIrq attrs.classFile pol).1
    level := (classifyIrq attrs.classFile pol).2
    hintPolicy := pol.hintpolicy
    numaNode := getNumaNode cfg t (pol.numaNode.getD numaNode)
    cpumask := attrs.localCpus.getD cpuMaskAll
    affinityHint := (sysfs.affinityHint irq).getD 0#(nrCpus) }

/-- `add_one_irq_to_db`, with the pointer it returns. -/
def addOneIrqToDb (attrs : DeviceAttrs) (irq : ℤ) (pol : UserIrqPolicy) (db : IrqDb) :
    IrqDb × Option InfoRef :=
  if db.interruptsDb.any fun info => info.irq == irq then (db, none)
  else if db.isBannedIrq irq then (db, none)
  else
    ({ db with interruptsDb := db.interruptsDb ++ [newIrqInfo cfg sysfs t attrs irq pol] },
      some (.db db.interruptsDb.length))

/-- A call of `get_irq_user_policy`, recorded. -/
def askPolicy (path : DevPath) (irq : ℤ) (db : IrqDb) : UserIrqPolicy × IrqDb :=
  let pol := getIrqUserPolicy cfg sysfs t path irq
  (pol, { db with policyLog := db.policyLog ++ [(irq, pol)] })

/-- The statements `build_one_dev_entry` repeats for an MSI vector and for a legacy
interrupt; they differ in the path the ban script gets and in the type. -/
def addDevIrq (dev : PciDevice) (banPath : DevPath) (type : IrqType) (db : IrqDb) (irqnum : ℤ) :
    IrqDb :=
  if irqnum = 0 then db
  else if (db.getIrqInfo irqnum).isSome then db
  else
    let (pol, db) := askPolicy cfg sysfs t (.device dev.name) irqnum db
    if pol.ban = some true || checkForIrqBan cfg sysfs (some banPath) irqnum then
      { db with bannedIrqs := addBannedIrq irqnum db.bannedIrqs }
    else
      match addOneIrqToDb cfg sysfs t dev.attrs irqnum pol db with
      | (db, none) => db
      | (db, some new) => db.modifyRef new fun info => { info with type := type }

/-- `build_one_dev_entry`.  A device with a directory `msi_irqs` has its legacy
interrupt left alone. -/
def buildOneDevEntry (db : IrqDb) (dev : PciDevice) : IrqDb :=
  match dev.msiIrqs with
  | some irqnums => irqnums.foldl (addDevIrq cfg sysfs t dev (.device dev.name) .msix) db
  | none =>
    match dev.irq with
    | some (some irqnum) => addDevIrq cfg sysfs t dev (.deviceIrq dev.name) .legacy db irqnum
    | _ => db

/-- `add_new_irq`. -/
def addNewIrq (irq : ℤ) (hint : Option IrqInfo) (db : IrqDb) : IrqDb :=
  if (db.getIrqInfo irq).isSome then db
  else
    let (pol, db) := askPolicy cfg sysfs t .sys irq db
    let (db, new) :=
      if pol.ban = some true || checkForIrqBan cfg sysfs none irq then
        let db := { db with bannedIrqs := addBannedIrq irq db.bannedIrqs }
        (db, db.getIrqInfo irq)
      else addOneIrqToDb cfg sysfs t sysfs.sysAttrs irq pol db
    match new with
    | none => db
    | some new =>
      db.modifyRef new fun info =>
        let info :=
          match hint with
          | none => info
          | some hint => { info with type := hint.type, irqClass := hint.irqClass }
        { info with level := mapClassToLevel info.irqClass }

/-- `add_missing_irq`. -/
def addMissingIrq (db : IrqDb) (info : IrqInfo) : IrqDb :=
  match db.getIrqInfo info.irq with
  | some _ => db
  | none => addNewIrq cfg sysfs t info.irq (some info) db

/-- `rebuild_irq_db`.  Without a directory of PCI devices it is done; the walk over
an empty `tmp_irqs` is one over `interrupts_db`. -/
def rebuildIrqDb (db : IrqDb) : IrqDb :=
  let db := db.freeIrqDb
  let tmpIrqs := collectFullIrqList cfg sysfs
  match sysfs.pciDevices with
  | none => db
  | some devs =>
    let db := devs.foldl (buildOneDevEntry cfg sysfs t) db
    (if tmpIrqs.isEmpty then db.interruptsDb else tmpIrqs).foldl (addMissingIrq cfg sysfs t) db

end Build

/-! ## Moving IRQs -/

namespace State

/-- `migrate_irq`.  The link is found by its IRQ number; if there is none, nothing
happens. -/
def migrateIrq (s : State) (src dst : IrqList) (i : ℕ) : State :=
  match (s.irqList src).find? fun j => (s.info j).irq == (s.info i).irq with
  | none => s
  | some tmp =>
    let s := s.modifyIrqList src fun list =>
      list.eraseP fun j => (s.info j).irq == (s.info i).irq
    let s := s.modifyIrqList dst fun list => list ++ [tmp]
    s.modifyInfo i fun info => { info with moved := true }

/-- `sort_irqs`.  `addr` is where `calloc` put the entries. -/
def sortIrqs (s : State) (addr : ℕ → ℕ) (a b : ℕ) : ℤ :=
  if (s.info a).irqClass.toNat < (s.info b).irqClass.toNat || (s.info a).load < (s.info b).load ||
      addr a < addr b then 1
  else -1

/-- `sort_irq_list`. -/
def sortIrqList (s : State) (addr : ℕ → ℕ) (list : IrqList) : State :=
  s.modifyIrqList list (gListSort (s.sortIrqs addr))

/-- `force_rebalance_irq`. -/
def forceRebalanceIrq (s : State) (i : ℕ) : State :=
  if (s.info i).level = .none then s
  else
    let s :=
      match (s.info i).assignedObj with
      | none => s.modifyIrqList .rebalance fun list => list ++ [i]
      | some d => s.migrateIrq (.ofObj d) .rebalance i
    s.modifyInfo i fun info => { info with assignedObj := none }

end State

end CodeAnalyze.Irqbalance
