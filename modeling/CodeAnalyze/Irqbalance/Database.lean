import CodeAnalyze.Irqbalance.Build
import CodeAnalyze.Irqbalance.Classify

/-!
# Building the database

Every path by which `rebuild_irq_db` comes by an IRQ either does nothing, because
the IRQ is known, or classifies the IRQ: it asks for the policy and puts one new
entry on one of the two lists.  `Classified` is that step, and what it keeps
holds of every database.
-/

namespace CodeAnalyze.Irqbalance

open Lib

variable {cfg : Config} {sysfs : Sysfs} {t : Topology} {db db' : IrqDb}

/-! ## Known numbers -/

/-- The numbers `get_irq_info` finds. -/
def IrqDb.known (db : IrqDb) : List ℤ := (db.interruptsDb ++ db.bannedIrqs).map IrqInfo.irq

theorem findIdx?_irq_eq_none_iff {list : List IrqInfo} {irq : ℤ} :
    (list.findIdx? fun info => info.irq == irq) = none ↔ irq ∉ list.map IrqInfo.irq := by
  simp [List.findIdx?_eq_none_iff]

theorem getIrqInfo_eq_none_iff {irq : ℤ} : db.getIrqInfo irq = none ↔ irq ∉ db.known := by
  rw [IrqDb.known, List.map_append, List.mem_append, not_or, ← findIdx?_irq_eq_none_iff,
    ← findIdx?_irq_eq_none_iff]
  unfold IrqDb.getIrqInfo
  cases db.interruptsDb.findIdx? fun info => info.irq == irq <;> simp

theorem getIrqInfo_isSome_iff {irq : ℤ} : (db.getIrqInfo irq).isSome ↔ irq ∈ db.known := by
  rw [← Option.ne_none_iff_isSome, Ne, getIrqInfo_eq_none_iff, not_not]

theorem any_irq_eq_false_iff {list : List IrqInfo} {irq : ℤ} :
    (list.any fun info => info.irq == irq) = false ↔ irq ∉ list.map IrqInfo.irq := by
  simp [List.any_eq_false]

theorem any_irq_iff {list : List IrqInfo} {irq : ℤ} :
    (list.any fun info => info.irq == irq) = true ↔ irq ∈ list.map IrqInfo.irq := by
  simp [List.any_eq_true]

theorem addBannedIrq_irq (irq : ℤ) (list : List IrqInfo) (n : ℤ) :
    n ∈ (addBannedIrq irq list).map IrqInfo.irq ↔ n = irq ∨ n ∈ list.map IrqInfo.irq := by
  unfold addBannedIrq
  split
  · rename_i h
    have hmem := any_irq_iff.mp h
    exact ⟨.inr, fun hn => hn.elim (fun heq => heq ▸ hmem) id⟩
  · rw [List.map_append, List.mem_append, or_comm]
    simp

/-- `cl_banned_irqs` holds what `--banirq` was given. -/
theorem mem_clBannedIrqs {irq : ℤ} :
    irq ∈ (clBannedIrqs cfg).map IrqInfo.irq ↔ irq ∈ cfg.banirq := by
  have hfold : ∀ (irqs : List ℤ) (list : List IrqInfo),
      irq ∈ (irqs.foldl (fun list irq => addBannedIrq irq list) list).map IrqInfo.irq ↔
        irq ∈ irqs ∨ irq ∈ list.map IrqInfo.irq := by
    intro irqs
    induction irqs with
    | nil => simp
    | cons n irqs ih =>
        intro list
        rw [List.foldl_cons, ih, addBannedIrq_irq, List.mem_cons]
        tauto
  have h := hfold cfg.banirq []
  rwa [List.map_nil, List.mem_nil_iff, or_false] at h

/-! ## One IRQ classified -/

/-- What the rest of the daemon may rely on in a new entry. -/
structure IrqInfo.Unplaced (info : IrqInfo) : Prop where
  assignedObj : info.assignedObj = none
  moved : info.moved = false
  load : info.load = 0
  irqCount : info.irqCount = 0
  lastIrqCount : info.lastIrqCount = 0

/-- One IRQ is classified: it becomes banned, or it gets an entry in `interrupts_db`. -/
inductive Classified (cfg : Config) (t : Topology) (db : IrqDb) (irq : ℤ) : IrqDb → Prop
  | ban (pol : UserIrqPolicy) (info : IrqInfo) : irq ∉ db.known → info.irq = irq →
      Classified cfg t db irq
        { db with
          bannedIrqs := db.bannedIrqs ++ [info]
          policyLog := db.policyLog ++ [(irq, pol)] }
  | add (pol : UserIrqPolicy) (info : IrqInfo) (nodeid : ℤ) : irq ∉ db.known → info.irq = irq →
      info.Unplaced → pol.ban ≠ some true → irq ∉ cfg.banirq →
      info.numaNode = getNumaNode cfg t nodeid →
      Classified cfg t db irq
        { db with
          interruptsDb := db.interruptsDb ++ [info]
          policyLog := db.policyLog ++ [(irq, pol)] }

theorem modify_concat {α : Type*} (l : List α) (a : α) (f : α → α) :
    (l ++ [a]).modify l.length f = l ++ [f a] := by
  apply List.ext_getElem?
  intro n
  rw [List.getElem?_modify, List.getElem?_append, List.getElem?_append]
  rcases Nat.lt_trichotomy n l.length with hlt | heq | hgt
  · simp [hlt, Nat.ne_of_gt hlt]
  · simp [heq]
  · have hpos : n - l.length ≠ 0 := by omega
    have hlong : ∀ b : α, ([b] : List α)[n - l.length]? = none := fun b =>
      List.getElem?_eq_none (by simpa using Nat.one_le_iff_ne_zero.mpr hpos)
    simp [Nat.not_lt_of_gt hgt, hlong]

/-- The tests both paths make before they classify. -/
theorem not_banned_of_not_check {path : Option DevPath} {irq : ℤ}
    (h : ¬ checkForIrqBan cfg sysfs path irq = true) : irq ∉ cfg.banirq := by
  intro hmem
  refine h ?_
  unfold checkForIrqBan
  rw [if_pos (any_irq_iff.mpr (mem_clBannedIrqs.mpr hmem))]

theorem addBannedIrq_of_new {irq : ℤ} {list : List IrqInfo} (h : irq ∉ list.map IrqInfo.irq) :
    addBannedIrq irq list = list ++ [{ irq := irq, banned := true, hintPolicy := .exact }] := by
  unfold addBannedIrq
  rw [any_irq_eq_false_iff.mpr h]
  rfl

theorem addOneIrqToDb_of_new {attrs : DeviceAttrs} {irq : ℤ} {pol : UserIrqPolicy}
    (h : irq ∉ db.known) :
    addOneIrqToDb cfg sysfs t attrs irq pol db =
      ({ db with interruptsDb := db.interruptsDb ++ [newIrqInfo cfg sysfs t attrs irq pol] },
        some (.db db.interruptsDb.length)) := by
  rw [IrqDb.known, List.map_append, List.mem_append, not_or] at h
  unfold addOneIrqToDb IrqDb.isBannedIrq
  rw [any_irq_eq_false_iff.mpr h.1, any_irq_eq_false_iff.mpr h.2]
  rfl

theorem not_mem_bannedIrqs {irq : ℤ} (h : irq ∉ db.known) :
    irq ∉ db.bannedIrqs.map IrqInfo.irq := by
  rw [IrqDb.known, List.map_append, List.mem_append, not_or] at h
  exact h.2

/-- `build_one_dev_entry` does nothing about an IRQ it knows, or about number 0. -/
theorem addDevIrq_cases (cfg : Config) (sysfs : Sysfs) (t : Topology) (dev : PciDevice)
    (banPath : DevPath) (type : IrqType) (db : IrqDb) (irq : ℤ) :
    (irq = 0 ∨ irq ∈ db.known) ∧ addDevIrq cfg sysfs t dev banPath type db irq = db ∨
      Classified cfg t db irq (addDevIrq cfg sysfs t dev banPath type db irq) := by
  unfold addDevIrq
  split
  · rename_i hzero
    exact .inl ⟨.inl hzero, rfl⟩
  · split
    · rename_i hknown
      exact .inl ⟨.inr (getIrqInfo_isSome_iff.mp hknown), rfl⟩
    · rename_i hunknown
      have hnew : irq ∉ db.known := fun hmem => hunknown (getIrqInfo_isSome_iff.mpr hmem)
      refine .inr ?_
      dsimp only [askPolicy]
      generalize hpol : getIrqUserPolicy cfg sysfs t (.device dev.name) irq = pol
      split
      · rw [addBannedIrq_of_new (not_mem_bannedIrqs hnew)]
        exact .ban pol _ hnew rfl
      · rename_i hallowed
        have hask : irq ∉ ({ db with policyLog := db.policyLog ++ [(irq, pol)] } : IrqDb).known :=
          hnew
        rw [addOneIrqToDb_of_new hask]
        simp only [IrqDb.modifyRef, modify_concat]
        have hsplit : ¬ pol.ban = some true ∧
            ¬ checkForIrqBan cfg sysfs (some banPath) irq = true := by
          simpa [not_or] using hallowed
        refine .add pol _ _ hnew rfl ?_ hsplit.1 (not_banned_of_not_check hsplit.2) rfl
        constructor <;> rfl

/-- `get_irq_info` finds the IRQ that has just been banned. -/
theorem getIrqInfo_of_banned {irq : ℤ} {info : IrqInfo} (h : irq ∉ db.known)
    (hinfo : info.irq = irq) :
    ({ db with bannedIrqs := db.bannedIrqs ++ [info] } : IrqDb).getIrqInfo irq =
      some (.banned db.bannedIrqs.length) := by
  rw [IrqDb.known, List.map_append, List.mem_append, not_or] at h
  unfold IrqDb.getIrqInfo
  rw [findIdx?_irq_eq_none_iff.mpr h.1]
  dsimp only
  rw [List.findIdx?_append, findIdx?_irq_eq_none_iff.mpr h.2]
  simp [hinfo]

/-- `add_new_irq` does nothing about an IRQ it knows. -/
theorem addNewIrq_cases (irq : ℤ) (hint : Option IrqInfo) (db : IrqDb) :
    irq ∈ db.known ∧ addNewIrq cfg sysfs t irq hint db = db ∨
      Classified cfg t db irq (addNewIrq cfg sysfs t irq hint db) := by
  unfold addNewIrq
  split
  · rename_i hknown
    exact .inl ⟨getIrqInfo_isSome_iff.mp hknown, rfl⟩
  · rename_i hunknown
    have hnew : irq ∉ db.known := fun hmem => hunknown (getIrqInfo_isSome_iff.mpr hmem)
    refine .inr ?_
    dsimp only [askPolicy]
    generalize getIrqUserPolicy cfg sysfs t .sys irq = pol
    have hask : irq ∉ ({ db with policyLog := db.policyLog ++ [(irq, pol)] } : IrqDb).known := hnew
    by_cases hban : (decide (pol.ban = some true) || checkForIrqBan cfg sysfs none irq) = true
    · rw [if_pos hban, addBannedIrq_of_new (not_mem_bannedIrqs hnew)]
      dsimp only
      rw [getIrqInfo_of_banned hask rfl]
      simp only [IrqDb.modifyRef, modify_concat]
      refine .ban pol _ hnew ?_
      cases hint <;> rfl
    · rw [if_neg hban, addOneIrqToDb_of_new hask]
      simp only [IrqDb.modifyRef, modify_concat]
      have hsplit : ¬ pol.ban = some true ∧ ¬ checkForIrqBan cfg sysfs none irq = true := by
        simpa [not_or] using hban
      refine .add pol _ (pol.numaNode.getD
        (if cfg.numaAvail then sysfs.sysAttrs.numaNode.getD (-1) else -1)) hnew ?_ ?_ hsplit.1
        (not_banned_of_not_check hsplit.2) ?_
      · cases hint <;> rfl
      · constructor <;> cases hint <;> rfl
      · cases hint <;> rfl

theorem addMissingIrq_cases (cfg : Config) (sysfs : Sysfs) (t : Topology) (info : IrqInfo)
    (db : IrqDb) :
    info.irq ∈ db.known ∧ addMissingIrq cfg sysfs t db info = db ∨
      Classified cfg t db info.irq (addMissingIrq cfg sysfs t db info) := by
  unfold addMissingIrq
  split
  · rename_i hknown
    exact .inl ⟨getIrqInfo_isSome_iff.mp (by rw [hknown]; rfl), rfl⟩
  · exact addNewIrq_cases info.irq (some info) db

/-! ## What classification keeps -/

theorem Classified.known_eq {irq : ℤ} (h : Classified cfg t db irq db') (n : ℤ) :
    n ∈ db'.known ↔ n = irq ∨ n ∈ db.known := by
  cases h with
  | ban pol info _ hinfo =>
      simp only [IrqDb.known, List.map_append, List.mem_append, List.map_cons, List.map_nil,
        List.mem_singleton, hinfo]
      tauto
  | add pol info nodeid _ hinfo _ _ _ _ =>
      simp only [IrqDb.known, List.map_append, List.mem_append, List.map_cons, List.map_nil,
        List.mem_singleton, hinfo]
      tauto

/-- What holds of the database all through `rebuild_irq_db`. -/
structure IrqDb.Sound (cfg : Config) (t : Topology) (db : IrqDb) : Prop where
  /-- A number is in the two lists once. -/
  unique : db.known.Nodup
  unplaced : ∀ info ∈ db.interruptsDb, info.Unplaced
  /-- No IRQ that is to be balanced was given to `--banirq`. -/
  not_banirq : ∀ info ∈ db.interruptsDb, info.irq ∉ cfg.banirq
  /-- Who was asked about is known. -/
  asked : ∀ entry ∈ db.policyLog, entry.1 ∈ db.known
  /-- The script is asked about a number once. -/
  asked_once : (db.policyLog.map Prod.fst).Nodup
  /-- No IRQ that is to be balanced was banned by the script. -/
  not_policy : ∀ entry ∈ db.policyLog, entry.2.ban = some true →
    ∀ info ∈ db.interruptsDb, info.irq ≠ entry.1
  numaNode : ∀ info ∈ db.interruptsDb, ∃ nodeid, info.numaNode = getNumaNode cfg t nodeid
  rebalance : db.rebalanceIrqList = []

theorem IrqDb.sound_empty (cfg : Config) (t : Topology) : IrqDb.Sound cfg t {} := by
  constructor <;> simp [IrqDb.known]

section Classifying

variable {irq : ℤ} {pol : UserIrqPolicy} {info : IrqInfo}

/-- A number that is not known has not been asked about. -/
theorem IrqDb.Sound.not_asked (h : db.Sound cfg t) (hnew : irq ∉ db.known) :
    irq ∉ db.policyLog.map Prod.fst := by
  intro hmem
  obtain ⟨entry, hentry, rfl⟩ := List.mem_map.mp hmem
  exact hnew (h.asked entry hentry)

theorem IrqDb.Sound.asked_concat (h : db.Sound cfg t) (hc : Classified cfg t db irq db') :
    ∀ entry ∈ db.policyLog ++ [(irq, pol)], entry.1 ∈ db'.known := by
  intro entry hentry
  rw [hc.known_eq]
  rcases List.mem_append.mp hentry with hold | hlast
  · exact .inr (h.asked entry hold)
  · rw [List.mem_singleton.mp hlast]
    exact .inl rfl

theorem IrqDb.Sound.asked_once_concat (h : db.Sound cfg t) (hnew : irq ∉ db.known) :
    ((db.policyLog ++ [(irq, pol)]).map Prod.fst).Nodup := by
  rw [List.map_append, List.map_singleton, ← List.concat_eq_append]
  exact h.asked_once.concat (h.not_asked hnew)

theorem IrqDb.Sound.ban (h : db.Sound cfg t) (hnew : irq ∉ db.known) (hinfo : info.irq = irq) :
    IrqDb.Sound cfg t { db with
      bannedIrqs := db.bannedIrqs ++ [info]
      policyLog := db.policyLog ++ [(irq, pol)] } where
  unique := by
    simp only [IrqDb.known, ← List.append_assoc]
    rw [List.map_append, List.map_singleton, hinfo, ← List.concat_eq_append]
    exact h.unique.concat hnew
  unplaced := h.unplaced
  not_banirq := h.not_banirq
  asked := h.asked_concat (.ban pol info hnew hinfo)
  asked_once := h.asked_once_concat hnew
  not_policy := by
    intro entry hentry hbanned e he
    rcases List.mem_append.mp hentry with hold | hlast
    · exact h.not_policy entry hold hbanned e he
    · -- what is to be balanced is known, and the banned number was not
      rw [List.mem_singleton.mp hlast]
      rintro rfl
      exact hnew (List.mem_map_of_mem (List.mem_append_left _ he))
  numaNode := h.numaNode
  rebalance := h.rebalance

theorem IrqDb.Sound.add {nodeid : ℤ} (h : db.Sound cfg t) (hnew : irq ∉ db.known)
    (hinfo : info.irq = irq) (hunplaced : info.Unplaced) (hpol : pol.ban ≠ some true)
    (hbanirq : irq ∉ cfg.banirq) (hnode : info.numaNode = getNumaNode cfg t nodeid) :
    IrqDb.Sound cfg t { db with
      interruptsDb := db.interruptsDb ++ [info]
      policyLog := db.policyLog ++ [(irq, pol)] } := by
  have hold : ∀ e ∈ db.interruptsDb ++ [info], e ∈ db.interruptsDb ∨ e = info := by
    intro e he
    simpa using he
  constructor
  case unique =>
    -- the entry stands between the two lists, so the numbers are only permuted
    have hperm : (((db.interruptsDb ++ [info]) ++ db.bannedIrqs).map IrqInfo.irq).Perm
        (info.irq :: db.known) := by
      simp only [IrqDb.known, List.map_append, List.map_singleton, List.append_assoc]
      exact List.perm_middle
    refine hperm.nodup_iff.mpr (List.nodup_cons.mpr ⟨?_, h.unique⟩)
    rw [hinfo]
    exact hnew
  case unplaced =>
    intro e he
    rcases hold e he with he | rfl
    · exact h.unplaced e he
    · exact hunplaced
  case not_banirq =>
    intro e he
    rcases hold e he with he | rfl
    · exact h.not_banirq e he
    · rw [hinfo]
      exact hbanirq
  case asked =>
    exact h.asked_concat (.add pol info nodeid hnew hinfo hunplaced hpol hbanirq hnode)
  case asked_once => exact h.asked_once_concat hnew
  case not_policy =>
    intro entry hentry hbanned e he
    rcases List.mem_append.mp hentry with hlogged | hlast
    · rcases hold e he with he | rfl
      · exact h.not_policy entry hlogged hbanned e he
      · -- who was asked about before is known, and this number was not
        rintro heq
        exact hnew (hinfo ▸ heq ▸ h.asked entry hlogged)
    · rw [List.mem_singleton.mp hlast] at hbanned
      exact absurd hbanned hpol
  case numaNode =>
    intro e he
    rcases hold e he with he | rfl
    · exact h.numaNode e he
    · exact ⟨nodeid, hnode⟩
  case rebalance => exact h.rebalance

/-- One IRQ more is classified. -/
theorem IrqDb.Sound.classified (h : db.Sound cfg t) (hc : Classified cfg t db irq db') :
    db'.Sound cfg t := by
  cases hc with
  | ban pol info hnew hinfo => exact h.ban hnew hinfo
  | add pol info nodeid hnew hinfo hunplaced hpol hbanirq hnode =>
      exact h.add hnew hinfo hunplaced hpol hbanirq hnode

end Classifying

/-! ## The whole database -/

theorem buildOneDevEntry_sound (h : db.Sound cfg t) (dev : PciDevice) :
    (buildOneDevEntry cfg sysfs t db dev).Sound cfg t := by
  have hone : ∀ banPath type irq (db : IrqDb), db.Sound cfg t →
      (addDevIrq cfg sysfs t dev banPath type db irq).Sound cfg t := by
    intro banPath type irq db hdb
    rcases addDevIrq_cases cfg sysfs t dev banPath type db irq with
      ⟨-, heq⟩ | hc
    · rw [heq]
      exact hdb
    · exact hdb.classified hc
  unfold buildOneDevEntry
  split
  · exact foldl_invariant (fun db => IrqDb.Sound cfg t db)
      (fun irq _ db hdb => hone _ _ irq db hdb) h
  · split
    · exact hone _ _ _ db h
    · exact h

theorem addMissingIrq_sound (h : db.Sound cfg t) (info : IrqInfo) :
    (addMissingIrq cfg sysfs t db info).Sound cfg t := by
  rcases addMissingIrq_cases cfg sysfs t info db with ⟨-, heq⟩ | hc
  · rw [heq]
    exact h
  · exact h.classified hc

theorem rebuildIrqDb_sound (cfg : Config) (sysfs : Sysfs) (t : Topology) (db : IrqDb) :
    (rebuildIrqDb cfg sysfs t db).Sound cfg t := by
  have hempty : db.freeIrqDb.Sound cfg t := IrqDb.sound_empty cfg t
  unfold rebuildIrqDb
  dsimp only
  split
  · exact hempty
  · refine foldl_invariant (fun db => IrqDb.Sound cfg t db)
      (fun info _ db hdb => addMissingIrq_sound hdb info) ?_
    exact foldl_invariant (fun db => IrqDb.Sound cfg t db)
      (fun dev _ db hdb => buildOneDevEntry_sound hdb dev) hempty

end CodeAnalyze.Irqbalance
