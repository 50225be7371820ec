import CodeAnalyze.Irqbalance.Database
import Mathlib.Data.List.Induction

/-!
# The nodes of the database

`rebuild_irq_db` comes by an IRQ in the directories of the PCI devices first and in
`/proc/interrupts` then.  Only the first time counts: what is found there decides whether the
IRQ is banned, and else which node its entry points to.
-/

namespace CodeAnalyze.Irqbalance

open Lib

/-- An IRQ that `rebuild_irq_db` comes by, with what it is classified by. -/
structure Request where
  irq : ℤ
  attrs : DeviceAttrs
  /-- What the policy script is called with. -/
  path : DevPath
  /-- What the ban script is called with. -/
  banPath : Option DevPath

namespace Request

section Answers

variable (cfg : Config) (sysfs : Sysfs) (t : Topology) (r : Request)

/-- The policy of the IRQ. -/
def pol : UserIrqPolicy := getIrqUserPolicy cfg sysfs t r.path r.irq

/-- The IRQ is put on `banned_irqs`. -/
def isBanned : Bool :=
  (r.pol cfg sysfs t).ban = some true || checkForIrqBan cfg sysfs r.banPath r.irq

/-- The number `get_numa_node` is called with for the IRQ. -/
def nodeid : ℤ :=
  (r.pol cfg sysfs t).numaNode.getD (if cfg.numaAvail then r.attrs.numaNode.getD (-1) else -1)

end Answers

/-- The requests that are the first for their IRQ. -/
def firsts (requests : List Request) : List Request :=
  requests.foldl (fun seen r => if r.irq ∈ seen.map Request.irq then seen else seen ++ [r]) []

theorem firsts_concat (requests : List Request) (r : Request) :
    firsts (requests ++ [r]) =
      if r.irq ∈ (firsts requests).map Request.irq then firsts requests
      else firsts requests ++ [r] := by
  simp [firsts]

end Request

/-- The requests of a PCI device. -/
def PciDevice.requests (dev : PciDevice) : List Request :=
  match dev.msiIrqs with
  | some irqnums =>
    (irqnums.filter (· ≠ 0)).map fun irq =>
      { irq := irq, attrs := dev.attrs, path := .device dev.name
        banPath := some (.device dev.name) }
  | none =>
    match dev.irq with
    | some (some irqnum) =>
      if irqnum = 0 then []
      else
        [{ irq := irqnum, attrs := dev.attrs, path := .device dev.name
           banPath := some (.deviceIrq dev.name) }]
    | _ => []

/-- A request for an IRQ of `/proc/interrupts`. -/
def procRequest (sysfs : Sysfs) (info : IrqInfo) : Request :=
  { irq := info.irq, attrs := sysfs.sysAttrs, path := .sys, banPath := none }

/-- All requests of `rebuild_irq_db`, in order. -/
def requests (cfg : Config) (sysfs : Sysfs) : List Request :=
  match sysfs.pciDevices with
  | none => []
  | some devs =>
    devs.flatMap PciDevice.requests ++ (collectFullIrqList cfg sysfs).map (procRequest sysfs)

variable {cfg : Config} {sysfs : Sysfs} {t : Topology} {db db' : IrqDb} {r : Request}

/-! ## One request -/

/-- A request for an IRQ that is known changes nothing; another one puts an entry on one of
the two lists. -/
def Serves (cfg : Config) (sysfs : Sysfs) (t : Topology) (r : Request) (db db' : IrqDb) : Prop :=
  r.irq ∈ db.known ∧ db' = db ∨
    r.irq ∉ db.known ∧ (∀ n, n ∈ db'.known ↔ n = r.irq ∨ n ∈ db.known) ∧
      db'.interruptsDb.map IrqInfo.numaNode = db.interruptsDb.map IrqInfo.numaNode ++
        if r.isBanned cfg sysfs t then [] else [getNumaNode cfg t (r.nodeid cfg sysfs t)]

theorem Classified.new {irq : ℤ} (h : Classified cfg t db irq db') : irq ∉ db.known := by
  cases h <;> assumption

theorem addDevIrq_serves (cfg : Config) (sysfs : Sysfs) (t : Topology) (dev : PciDevice)
    (banPath : DevPath) (type : IrqType) (db : IrqDb) {irq : ℤ} (hirq : irq ≠ 0) :
    Serves cfg sysfs t
      { irq := irq, attrs := dev.attrs, path := .device dev.name, banPath := some banPath }
      db (addDevIrq cfg sysfs t dev banPath type db irq) := by
  rcases addDevIrq_cases cfg sysfs t dev banPath type db irq with ⟨hknown, heq⟩ | hclassified
  · exact Or.inl ⟨hknown.resolve_left hirq, heq⟩
  · have hnew := hclassified.new
    refine Or.inr ⟨hnew, hclassified.known_eq, ?_⟩
    have hnone : ¬ (db.getIrqInfo irq).isSome = true := fun hsome =>
      hnew (getIrqInfo_isSome_iff.mp hsome)
    unfold addDevIrq
    rw [if_neg hirq, if_neg hnone, Request.isBanned, Request.nodeid, Request.pol]
    dsimp only [askPolicy]
    generalize getIrqUserPolicy cfg sysfs t (.device dev.name) irq = pol
    split
    · rw [List.append_nil]
    · have hask : irq ∉ ({ db with policyLog := db.policyLog ++ [(irq, pol)] } : IrqDb).known :=
        hnew
      rw [addOneIrqToDb_of_new hask]
      simp only [IrqDb.modifyRef, modify_concat, List.map_append]
      rfl

theorem addMissingIrq_serves (cfg : Config) (sysfs : Sysfs) (t : Topology) (info : IrqInfo)
    (db : IrqDb) :
    Serves cfg sysfs t (procRequest sysfs info) db (addMissingIrq cfg sysfs t db info) := by
  rcases addMissingIrq_cases cfg sysfs t info db with ⟨hknown, heq⟩ | hclassified
  · exact Or.inl ⟨hknown, heq⟩
  · have hnew := hclassified.new
    refine Or.inr ⟨hnew, hclassified.known_eq, ?_⟩
    have hnone := getIrqInfo_eq_none_iff.mpr hnew
    unfold addMissingIrq addNewIrq
    rw [hnone, Request.isBanned, Request.nodeid, Request.pol, procRequest]
    dsimp only [askPolicy, Option.isSome_none]
    generalize getIrqUserPolicy cfg sysfs t .sys info.irq = pol
    have hask : info.irq ∉
        ({ db with policyLog := db.policyLog ++ [(info.irq, pol)] } : IrqDb).known := hnew
    rw [if_neg Bool.false_ne_true]
    by_cases hban : (decide (pol.ban = some true) || checkForIrqBan cfg sysfs none info.irq) = true
    · rw [if_pos hban, if_pos hban, addBannedIrq_of_new (not_mem_bannedIrqs hnew)]
      have hentry : ({ irq := info.irq, banned := true, hintPolicy := .exact } : IrqInfo).irq =
          info.irq := rfl
      dsimp only
      rw [getIrqInfo_of_banned hask hentry, List.append_nil]
      rfl
    · rw [if_neg hban, if_neg hban, addOneIrqToDb_of_new hask]
      simp only [IrqDb.modifyRef, modify_concat, List.map_append]
      rfl

/-! ## All requests -/

/-- The database after the requests. -/
structure Asked (cfg : Config) (sysfs : Sysfs) (t : Topology) (rs : List Request) (db : IrqDb) :
    Prop where
  known : ∀ n, n ∈ db.known ↔ n ∈ (Request.firsts rs).map Request.irq
  nodes : db.interruptsDb.map IrqInfo.numaNode =
    ((Request.firsts rs).filter fun r => !r.isBanned cfg sysfs t).map fun r =>
      getNumaNode cfg t (r.nodeid cfg sysfs t)

theorem asked_nil : Asked cfg sysfs t [] {} where
  known := fun n => by simp [IrqDb.known, Request.firsts]
  nodes := rfl

theorem Asked.serve {rs : List Request} (h : Asked cfg sysfs t rs db)
    (hserves : Serves cfg sysfs t r db db') : Asked cfg sysfs t (rs ++ [r]) db' := by
  rcases hserves with ⟨hknown, rfl⟩ | ⟨hnew, hknown, hnodes⟩
  · have hsame : Request.firsts (rs ++ [r]) = Request.firsts rs := by
      rw [Request.firsts_concat, if_pos ((h.known _).mp hknown)]
    exact ⟨by rw [hsame]; exact h.known, by rw [hsame]; exact h.nodes⟩
  · have hmore : Request.firsts (rs ++ [r]) = Request.firsts rs ++ [r] := by
      rw [Request.firsts_concat, if_neg fun hmem => hnew ((h.known _).mpr hmem)]
    constructor
    · intro n
      rw [hknown, h.known, hmore, List.map_append, List.mem_append, or_comm]
      simp
    · rw [hnodes, h.nodes, hmore, List.filter_append, List.map_append]
      cases hban : r.isBanned cfg sysfs t <;> simp [hban]

/-- A loop that serves one request in each round. -/
theorem Asked.foldl {α : Type*} {f : IrqDb → α → IrqDb} {request : α → Request} {rs : List Request}
    {list : List α} (hserves : ∀ x ∈ list, ∀ db, Serves cfg sysfs t (request x) db (f db x))
    (h : Asked cfg sysfs t rs db) : Asked cfg sysfs t (rs ++ list.map request) (list.foldl f db) := by
  induction list generalizing rs db with
  | nil =>
      rw [List.map_nil, List.append_nil]
      exact h
  | cons x rest ih =>
      have hnext := ih (fun y hy => hserves y (List.mem_cons_of_mem x hy))
        (h.serve (hserves x List.mem_cons_self db))
      rw [List.append_assoc] at hnext
      exact hnext

/-- The entries `.` and `..` of `msi_irqs` ask for nothing. -/
theorem foldl_addDevIrq (dev : PciDevice) (banPath : DevPath) (type : IrqType) (irqnums : List ℤ)
    (db : IrqDb) :
    irqnums.foldl (addDevIrq cfg sysfs t dev banPath type) db =
      (irqnums.filter (· ≠ 0)).foldl (addDevIrq cfg sysfs t dev banPath type) db := by
  induction irqnums generalizing db with
  | nil => rfl
  | cons irq rest ih =>
      by_cases hirq : irq = 0
      · have hsame : addDevIrq cfg sysfs t dev banPath type db irq = db := by
          unfold addDevIrq
          rw [if_pos hirq]
        rw [List.foldl_cons, hsame, ih, List.filter_cons_of_neg (by simp [hirq])]
      · rw [List.foldl_cons, ih, List.filter_cons_of_pos (by simp [hirq]), List.foldl_cons]

theorem Asked.buildOneDevEntry {rs : List Request} (h : Asked cfg sysfs t rs db) (dev : PciDevice) :
    Asked cfg sysfs t (rs ++ dev.requests) (buildOneDevEntry cfg sysfs t db dev) := by
  unfold PciDevice.requests Irqbalance.buildOneDevEntry
  cases dev.msiIrqs with
  | some irqnums =>
      dsimp only
      rw [foldl_addDevIrq]
      refine h.foldl fun irq hirq db => addDevIrq_serves cfg sysfs t dev _ _ db ?_
      simpa using (List.mem_filter.mp hirq).2
  | none =>
      cases hlegacy : dev.irq with
      | none =>
          rw [List.append_nil]
          exact h
      | some file =>
          cases file with
          | none =>
              rw [List.append_nil]
              exact h
          | some irqnum =>
              dsimp only
              by_cases hzero : irqnum = 0
              · rw [if_pos hzero, List.append_nil, addDevIrq, if_pos hzero]
                exact h
              · rw [if_neg hzero]
                exact h.serve (addDevIrq_serves cfg sysfs t dev _ _ db hzero)

theorem Asked.devices {rs : List Request} (h : Asked cfg sysfs t rs db) (devs : List PciDevice) :
    Asked cfg sysfs t (rs ++ devs.flatMap PciDevice.requests)
      (devs.foldl (Irqbalance.buildOneDevEntry cfg sysfs t) db) := by
  induction devs generalizing rs db with
  | nil =>
      rw [List.flatMap_nil, List.append_nil]
      exact h
  | cons dev rest ih =>
      rw [List.flatMap_cons, ← List.append_assoc]
      exact ih (h.buildOneDevEntry dev)

/-- A walk of `add_missing_irq` over entries of the database finds every one of them. -/
theorem foldl_addMissingIrq_self {infos : List IrqInfo}
    (hknown : ∀ info ∈ infos, info.irq ∈ db.known) :
    infos.foldl (addMissingIrq cfg sysfs t) db = db := by
  refine foldl_invariant (fun u => u = db) ?_ rfl
  rintro info hinfo u rfl
  rcases addMissingIrq_cases cfg sysfs t info u with ⟨-, heq⟩ | hclassified
  · exact heq
  · exact absurd (hknown info hinfo) hclassified.new

/-- `rebuild_irq_db` serves all requests, in order. -/
theorem rebuildIrqDb_asked (cfg : Config) (sysfs : Sysfs) (t : Topology) (db : IrqDb) :
    Asked cfg sysfs t (requests cfg sysfs) (rebuildIrqDb cfg sysfs t db) := by
  unfold rebuildIrqDb requests
  cases hpci : sysfs.pciDevices with
  | none => exact asked_nil
  | some devs =>
      have hdevices : Asked cfg sysfs t (devs.flatMap PciDevice.requests)
          (devs.foldl (buildOneDevEntry cfg sysfs t) db.freeIrqDb) := asked_nil.devices devs
      dsimp only
      split
      · rename_i hempty
        rw [List.isEmpty_iff.mp hempty, List.map_nil, List.append_nil, foldl_addMissingIrq_self]
        · exact hdevices
        · intro info hinfo
          rw [IrqDb.known, List.map_append]
          exact List.mem_append_left _ (List.mem_map_of_mem hinfo)
      · exact hdevices.foldl fun info _ u => addMissingIrq_serves cfg sysfs t info u

end CodeAnalyze.Irqbalance
