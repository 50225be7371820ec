import CodeAnalyze.Irqbalance.Pieces
import CodeAnalyze.Irqbalance.Policy
import CodeAnalyze.Irqbalance.Sample

/-!
# The lines of the policy script

The manual describes the answer of the script line by line: a line `key=value` sets a
field, any other line sets nothing, and the last line that sets a field wins.  The daemon
reads pieces of 127 bytes, each up to its first NUL, and converts the number of a node
without looking at it.  The two agree line by line exactly if every line with a setting
fits into the buffer and no piece of any other line looks like a setting.
-/

namespace CodeAnalyze.Irqbalance

open Lib

variable {cfg : Config} {sysfs : Sysfs} {t : Topology} {line piece : Bytes} {pol : UserIrqPolicy}

/-! ## Settings -/

/-- What one line of the script may set. -/
inductive Setting
  | ban (ban : Bool)
  | balanceLevel (level : BalanceLevel)
  | numaNode (node : ℤ)
  | hintpolicy (hintpolicy : HintPolicy)
  deriving DecidableEq

namespace Setting

def ban? : Setting → Option Bool
  | ban b => some b
  | _ => none

def balanceLevel? : Setting → Option BalanceLevel
  | balanceLevel level => some level
  | _ => none

def numaNode? : Setting → Option ℤ
  | numaNode node => some node
  | _ => none

def hintpolicy? : Setting → Option HintPolicy
  | hintpolicy hint => some hint
  | _ => none

end Setting

/-- The policy with one field replaced. -/
def UserIrqPolicy.set (pol : UserIrqPolicy) : Setting → UserIrqPolicy
  | .ban b => { pol with ban := some b }
  | .balanceLevel level => { pol with level := some level }
  | .numaNode node => { pol with numaNode := some node }
  | .hintpolicy hint => { pol with hintpolicy := hint }

/-- The setting of a text `key=value`; `node` says which numbers of nodes it may set. -/
def settingOf (node : Bytes → Option ℤ) (text : Bytes) : Option Setting :=
  match strchr text 61 with
  | none => none
  | some (key, value) =>
    if strcaseeq keyBan key then (valueOf banvals value).map .ban
    else if strcaseeq keyBalanceLevel key then (valueOf levelvals value).map .balanceLevel
    else if strcaseeq keyNumaNode key then (node value).map .numaNode
    else if strcaseeq keyHintpolicy key then (valueOf hintvals value).map .hintpolicy
    else none

/-- The documented values of `numa_node`: a decimal integer, an `int` as the numbers of
nodes are, that is -1 or the number of an existing node. -/
def documentedNode (t : Topology) (value : Bytes) : Option ℤ :=
  (decimal value).filter fun v =>
    decide (-2 ^ 31 ≤ v ∧ v < 2 ^ 31) && (v == -1 || t.numaNodes.any fun node => node.number == v)

/-- What the daemon takes a value of `numa_node` for. -/
def acceptedNode (cfg : Config) (t : Topology) (value : Bytes) : Option ℤ :=
  (getNumaNode cfg t (toInt (strtoul value))).map fun _ => toInt (strtoul value)

/-! ## What the manual says -/

/-- The lines of the script's answer. -/
def policyLines (output : Bytes) : List Bytes := output.splitOn 10

/-- The value of the last setting of a field. -/
def lastOf {α : Type} (field : Setting → Option α) (settings : List Setting) : Option α :=
  (settings.filterMap field).getLast?

/-- The initial policy, with each field replaced by the last line that sets it. -/
def documentedPolicy (cfg : Config) (t : Topology) (output : Bytes) : UserIrqPolicy :=
  let settings := (policyLines output).filterMap (settingOf (documentedNode t))
  { ban := lastOf Setting.ban? settings
    level := lastOf Setting.balanceLevel? settings
    numaNode := lastOf Setting.numaNode? settings
    hintpolicy := (lastOf Setting.hintpolicy? settings).getD cfg.globalHintPolicy }

/-- What the manual says a line changes. -/
def documentedChange (t : Topology) (line : Bytes) (pol : UserIrqPolicy) : UserIrqPolicy :=
  match settingOf (documentedNode t) line with
  | none => pol
  | some setting => pol.set setting

/-! ## What the daemon does -/

/-- What the loop of `get_irq_user_policy` makes of one line. -/
def readLine (cfg : Config) (t : Topology) (line : Bytes) (pol : UserIrqPolicy) : UserIrqPolicy :=
  (fgetsChunks 127 line).foldl (fun pol buf => parseUserPolicyKey cfg t buf pol) pol

/-- The answer is read as the manual says: the policy is the documented one, and every
line changes what it should, whatever the lines before have set. -/
def ReadAsDocumented (cfg : Config) (sysfs : Sysfs) (t : Topology) (path : DevPath) (irq : ℤ)
    (output : Bytes) : Prop :=
  getIrqUserPolicy cfg sysfs t path irq = documentedPolicy cfg t output ∧
    ∀ line ∈ policyLines output, ∀ pol, readLine cfg t line pol = documentedChange t line pol

/-- A line with a documented setting fits into the buffer, unless it sets node 0; no piece
of any other line, cut at its first NUL, looks like a setting to the daemon. -/
def LineFits (cfg : Config) (t : Topology) (line : Bytes) : Prop :=
  match settingOf (documentedNode t) line with
  | some setting => line.length ≤ 127 ∨ setting = .numaNode 0
  | none => ∀ piece ∈ fgetsChunks 127 line, settingOf (acceptedNode cfg t) (cstr piece) = none

/-! ## Settings one after another -/

section Settings

variable {settings : List Setting}

/-- After many settings each field has the value of its last one. -/
theorem foldl_set (settings : List Setting) (pol : UserIrqPolicy) :
    settings.foldl UserIrqPolicy.set pol =
      { ban := (lastOf Setting.ban? settings).or pol.ban
        level := (lastOf Setting.balanceLevel? settings).or pol.level
        numaNode := (lastOf Setting.numaNode? settings).or pol.numaNode
        hintpolicy := (lastOf Setting.hintpolicy? settings).getD pol.hintpolicy } := by
  induction settings using List.reverseRecOn with
  | nil => rfl
  | append_singleton settings setting ih =>
      rw [List.foldl_append, ih]
      cases setting <;> simp [UserIrqPolicy.set, lastOf, List.filterMap_append, Setting.ban?,
        Setting.balanceLevel?, Setting.numaNode?, Setting.hintpolicy?]

/-- No setting leaves every policy as it is. -/
theorem exists_set_ne (setting : Setting) :
    ∃ pol, ∀ pol' : UserIrqPolicy, pol'.set setting ≠ pol := by
  cases setting with
  | ban b =>
      exact ⟨{ hintpolicy := .exact }, fun pol' h => Option.some_ne_none _ (congrArg (·.ban) h)⟩
  | balanceLevel level =>
      exact ⟨{ hintpolicy := .exact }, fun pol' h => Option.some_ne_none _ (congrArg (·.level) h)⟩
  | numaNode node =>
      refine ⟨{ hintpolicy := .exact }, fun pol' h => ?_⟩
      exact Option.some_ne_none _ (congrArg (·.numaNode) h)
  | hintpolicy hint =>
      have hother : ∃ other : HintPolicy, hint ≠ other := by
        cases hint with
        | ignore => exact ⟨.subset, by decide⟩
        | subset => exact ⟨.exact, by decide⟩
        | exact => exact ⟨.ignore, by decide⟩
      obtain ⟨other, hne⟩ := hother
      exact ⟨{ hintpolicy := other }, fun pol' h => hne (congrArg (·.hintpolicy) h)⟩

/-- Only no settings at all change no policy. -/
theorem foldl_set_eq_self_iff :
    (∀ pol : UserIrqPolicy, settings.foldl UserIrqPolicy.set pol = pol) ↔ settings = [] := by
  constructor
  · intro h
    cases settings using List.reverseRecOn with
    | nil => rfl
    | append_singleton settings setting =>
        obtain ⟨pol, hne⟩ := exists_set_ne setting
        have hset := h pol
        rw [List.foldl_append] at hset
        exact absurd hset (hne _)
  · rintro rfl pol
    rfl

end Settings

/-! ## One piece -/

/-- The setting the daemon finds in a piece. -/
def pieceSetting (cfg : Config) (t : Topology) (piece : Bytes) : Option Setting :=
  settingOf (acceptedNode cfg t) (cstr piece)

theorem strchr_append {a b : Bytes} (c : UInt8) (ha : c ∉ a) :
    strchr (a ++ c :: b) c = some (a, b) := by
  have htake : (a ++ c :: b).takeWhile (· ≠ c) = a := by
    rw [List.takeWhile_append_of_pos (by simpa using fun x hx (h : x = c) => ha (h ▸ hx))]
    simp
  have hdrop : (a ++ c :: b).dropWhile (· ≠ c) = c :: b := by
    rw [List.dropWhile_append_of_pos (by simpa using fun x hx (h : x = c) => ha (h ▸ hx))]
    simp
  unfold strchr
  rw [if_pos (by simp), htake, hdrop]
  rfl

theorem strchr_cases {s : Bytes} {c : UInt8} {key value : Bytes}
    (h : strchr s c = some (key, value)) : s = key ++ c :: value ∧ c ∉ key := by
  have hc : c ∈ s := by
    unfold strchr at h
    split at h
    · assumption
    · cases h
  obtain ⟨a, b, rfl, ha⟩ := List.eq_append_cons_of_mem hc
  rw [strchr_append c ha, Option.some.injEq, Prod.mk.injEq] at h
  rw [← h.1, ← h.2]
  exact ⟨rfl, ha⟩

theorem strchr_eq_none {s : Bytes} {c : UInt8} : strchr s c = none ↔ c ∉ s := by
  unfold strchr
  split <;> simp_all

theorem mem_of_mem_cstr {c : UInt8} (h : c ∈ cstr piece) : c ∈ piece :=
  (List.takeWhile_prefix _).subset h

theorem cstr_eq_self (h : 0 ∉ line) : cstr line = line :=
  List.takeWhile_eq_self_iff.mpr (by simpa using fun c hc (hzero : c = 0) => h (hzero ▸ hc))

/-- A line without its newline. -/
theorem parseUserPolicyKey_eq (hpiece : 10 ∉ piece) (pol : UserIrqPolicy) :
    parseUserPolicyKey cfg t piece pol =
      match pieceSetting cfg t piece with
      | none => pol
      | some setting => pol.set setting := by
  unfold parseUserPolicyKey pieceSetting settingOf
  cases hcut : strchr (cstr piece) 61 with
  | none => rfl
  | some cut =>
      obtain ⟨key, value⟩ := cut
      have hvalue : value.takeWhile (· ≠ 10) = value := by
        refine List.takeWhile_eq_self_iff.mpr fun c hc => ?_
        have hmem : c ∈ cstr piece := by
          rw [(strchr_cases hcut).1]
          simp [hc]
        have hne : c ≠ 10 := fun h => hpiece (h ▸ mem_of_mem_cstr hmem)
        simpa using hne
      dsimp only
      rw [hvalue]
      unfold acceptedNode
      split
      · cases valueOf banvals value <;> rfl
      · split
        · cases valueOf levelvals value <;> rfl
        · split
          · cases getNumaNode cfg t (toInt (strtoul value)) <;> rfl
          · split
            · cases valueOf hintvals value <;> rfl
            · rfl

/-- The newline at the end of a piece is cut off. -/
theorem parseUserPolicyKey_newline (hpiece : 10 ∉ piece) (pol : UserIrqPolicy) :
    parseUserPolicyKey cfg t (piece ++ [10]) pol = parseUserPolicyKey cfg t piece pol := by
  by_cases hzero : 0 ∈ piece
  · -- the string ends before the newline
    obtain ⟨a, b, rfl, ha⟩ := List.eq_append_cons_of_mem hzero
    have hcstr : ∀ b, cstr (a ++ 0 :: b) = a := by
      intro b
      unfold cstr
      rw [List.takeWhile_append_of_pos (by simpa using fun c hc (h : c = 0) => ha (h ▸ hc))]
      simp
    unfold parseUserPolicyKey
    rw [List.append_assoc, List.cons_append, hcstr, hcstr]
  · have hlonger : 0 ∉ piece ++ [10] := by
      rw [List.mem_append, List.mem_singleton, not_or]
      exact ⟨hzero, by decide⟩
    unfold parseUserPolicyKey
    rw [cstr_eq_self hzero, cstr_eq_self hlonger]
    by_cases hcut : 61 ∈ piece
    · obtain ⟨key, value, rfl, hkey⟩ := List.eq_append_cons_of_mem hcut
      have hvalue : (value ++ [10]).takeWhile (· ≠ 10) = value.takeWhile (· ≠ 10) := by
        have hself : value.takeWhile (· ≠ 10) = value :=
          List.takeWhile_eq_self_iff.mpr (by
            simpa using fun c hc (h : c = 10) => hpiece (by simp [← h, hc]))
        rw [List.takeWhile_append, hself]
        simp
      rw [List.append_assoc, List.cons_append, strchr_append 61 hkey, strchr_append 61 hkey]
      dsimp only
      rw [hvalue]
    · rw [strchr_eq_none.mpr hcut, strchr_eq_none.mpr (by simpa using hcut)]

/-! ## One line -/

/-- The settings the daemon finds in a line. -/
def lineSettings (cfg : Config) (t : Topology) (line : Bytes) : List Setting :=
  (fgetsChunks 127 line).filterMap (pieceSetting cfg t)

theorem readLine_eq (hline : 10 ∉ line) (pol : UserIrqPolicy) :
    readLine cfg t line pol = (lineSettings cfg t line).foldl UserIrqPolicy.set pol := by
  unfold readLine lineSettings
  rw [List.foldl_filterMap]
  refine List.foldl_ext _ _ _ fun pol piece hpiece => ?_
  have hmem : 10 ∉ piece := fun h => by
    rcases mem_of_mem_fgetsFill hpiece h with h | h
    · cases h
    · exact hline h
  rw [parseUserPolicyKey_eq hmem]
  cases pieceSetting cfg t piece <;> rfl

theorem lineSettings_short (hline : 10 ∉ line) (hshort : line.length ≤ 127) :
    lineSettings cfg t line = (pieceSetting cfg t line).toList := by
  unfold lineSettings
  by_cases hnil : line = []
  · rw [hnil]
    rfl
  · rw [fgetsChunks_short hline hshort hnil, List.filterMap_cons, List.filterMap_nil]
    cases pieceSetting cfg t line <;> rfl

/-- A word of the manual in any spelling. -/
theorem strcaseeq_spelling {word text : Bytes} (h : strcaseeq word text = true) :
    text.length = word.length ∧ (0 ∉ word.map tolower → 0 ∉ text) := by
  have hmap : word.map tolower = text.map tolower := by simpa [strcaseeq] using h
  constructor
  · simpa using congrArg List.length hmap.symm
  · intro hzero hmem
    rw [hmap] at hzero
    exact hzero (List.mem_map.mpr ⟨0, hmem, rfl⟩)

theorem valueOf_spelling {α : Type*} {values : List (Bytes × α)} {text : Bytes} {a : α}
    (h : valueOf values text = some a) : ∃ word ∈ values.map (·.1), strcaseeq word text = true := by
  unfold valueOf at h
  obtain ⟨entry, hentry, -⟩ := Option.map_eq_some_iff.mp h
  exact ⟨entry.1, List.mem_map_of_mem (List.mem_of_find?_eq_some hentry),
    by simpa using List.find?_some hentry⟩

/-- A line that sets a field to a word. -/
theorem word_fits {α : Type*} {values : List (Bytes × α)} {word key value : Bytes} {a : α}
    (hkey : strcaseeq word key = true) (hword : word.length ≤ 13 ∧ 0 ∉ word.map tolower)
    (hvalues : ∀ v ∈ values.map (·.1), v.length ≤ 7 ∧ 0 ∉ v.map tolower)
    (hvalue : valueOf values value = some a) :
    (key ++ 61 :: value).length ≤ 127 ∧ 0 ∉ key ++ 61 :: value := by
  obtain ⟨v, hv, hspelling⟩ := valueOf_spelling hvalue
  obtain ⟨hkeyLength, hkeyZero⟩ := strcaseeq_spelling hkey
  obtain ⟨hvalueLength, hvalueZero⟩ := strcaseeq_spelling hspelling
  have hseven := (hvalues v hv).1
  constructor
  · rw [List.length_append, List.length_cons]
    omega
  · rw [List.mem_append, List.mem_cons, not_or, not_or]
    exact ⟨hkeyZero hword.2, by decide, hvalueZero (hvalues v hv).2⟩

/-- A line with a documented setting either sets a field to a word, and is then short, or
it sets the node. -/
theorem documented_cases {setting : Setting}
    (h : settingOf (documentedNode t) line = some setting) :
    ((∀ node, settingOf node line = some setting) ∧ line.length ≤ 127 ∧ 0 ∉ line) ∨
      ∃ key value v, line = key ++ 61 :: value ∧ 61 ∉ key ∧ strcaseeq keyNumaNode key = true ∧
        documentedNode t value = some v ∧ setting = .numaNode v := by
  unfold settingOf at h
  cases hcut : strchr line 61 with
  | none =>
      rw [hcut] at h
      cases h
  | some cut =>
      obtain ⟨key, value⟩ := cut
      obtain ⟨rfl, hkey⟩ := strchr_cases hcut
      rw [hcut] at h
      unfold settingOf
      simp only [hcut]
      dsimp only at h
      -- the keys in the order of `parse_user_policy_key`
      split at h
      · rename_i hban
        obtain ⟨a, ha, rfl⟩ := Option.map_eq_some_iff.mp h
        refine .inl ⟨fun node => ?_, word_fits hban (by decide) (by decide) ha⟩
        rw [if_pos hban, ha]
        rfl
      · rename_i hban
        split at h
        · rename_i hlevel
          obtain ⟨a, ha, rfl⟩ := Option.map_eq_some_iff.mp h
          refine .inl ⟨fun node => ?_, word_fits hlevel (by decide) (by decide) ha⟩
          rw [if_neg hban, if_pos hlevel, ha]
          rfl
        · rename_i hlevel
          split at h
          · rename_i hnode
            obtain ⟨v, hv, rfl⟩ := Option.map_eq_some_iff.mp h
            exact .inr ⟨key, value, v, rfl, hkey, hnode, hv, rfl⟩
          · rename_i hnode
            split at h
            · rename_i hhint
              obtain ⟨a, ha, rfl⟩ := Option.map_eq_some_iff.mp h
              refine .inl ⟨fun node => ?_, word_fits hhint (by decide) (by decide) ha⟩
              rw [if_neg hban, if_neg hlevel, if_neg hnode, if_pos hhint, ha]
              rfl
            · cases h

section Node

variable {key value : Bytes} {v : ℤ}

theorem documentedNode_iff :
    documentedNode t value = some v ↔
      decimal value = some v ∧ IsInt v ∧ (v = -1 ∨ ∃ node ∈ t.numaNodes, node.number = v) := by
  unfold documentedNode IsInt
  rw [Option.filter_eq_some_iff]
  simp [List.any_eq_true]

/-- `get_numa_node` finds the documented nodes. -/
theorem getNumaNode_of_documented (cfg : Config) (h : documentedNode t value = some v) :
    (getNumaNode cfg t v).isSome := by
  obtain ⟨-, -, hv⟩ := documentedNode_iff.mp h
  unfold getNumaNode
  split
  · rfl
  · split
    · rfl
    · rename_i hne
      obtain ⟨node, hnode, rfl⟩ := hv.resolve_left hne
      rw [List.findIdx?_isSome]
      exact List.any_eq_true.mpr ⟨node, hnode, by simp⟩

theorem zero_not_mem_of_decimal (h : decimal value = some v) : 0 ∉ value ∧ 61 ∉ value := by
  obtain ⟨minus, sign, digits, hsign, rfl, -, hdigits, -⟩ := decimal_cases h
  have hdigit : ∀ c : UInt8, isdigit c = false → c ∉ digits := by
    intro c hc hmem
    exact ne_of_isdigit (hdigits c hmem) hc rfl
  constructor <;> rw [List.mem_append, not_or]
  · exact ⟨by cases hsign <;> decide, hdigit 0 (by decide)⟩
  · exact ⟨by cases hsign <;> decide, hdigit 61 (by decide)⟩

variable (hkey : 61 ∉ key) (hspelling : strcaseeq keyNumaNode key = true)
include hkey hspelling

/-- What the daemon finds in a piece that begins like a line with a node. -/
theorem pieceSetting_node (hvalue : 0 ∉ value) :
    pieceSetting cfg t (key ++ 61 :: value) = (acceptedNode cfg t value).map .numaNode := by
  obtain ⟨-, hzero⟩ := strcaseeq_spelling hspelling
  have hline : 0 ∉ key ++ 61 :: value := by
    rw [List.mem_append, List.mem_cons, not_or, not_or]
    exact ⟨hzero (by decide), by decide, hvalue⟩
  have hother : ∀ word : Bytes, word.map tolower ≠ keyNumaNode.map tolower →
      ¬ strcaseeq word key = true := by
    intro word hword heq
    have hmap : word.map tolower = key.map tolower := by simpa [strcaseeq] using heq
    have hnode : keyNumaNode.map tolower = key.map tolower := by
      simpa [strcaseeq] using hspelling
    exact hword (hmap.trans hnode.symm)
  unfold pieceSetting settingOf
  rw [cstr_eq_self hline, strchr_append 61 hkey]
  dsimp only
  rw [if_neg (hother keyBan (by decide)), if_neg (hother keyBalanceLevel (by decide)),
    if_pos hspelling]

/-- A line with a node that does not fit into the buffer: only its first piece is of the
form `key=value`. -/
theorem lineSettings_node_long (hline : 10 ∉ key ++ 61 :: value) (hvalue : 0 ∉ value ∧ 61 ∉ value)
    (hlong : 127 < (key ++ 61 :: value).length) :
    lineSettings cfg t (key ++ 61 :: value) =
      ((acceptedNode cfg t (value.take 117)).map .numaNode).toList := by
  obtain ⟨hlength, -⟩ := strcaseeq_spelling hspelling
  have hnine : keyNumaNode.length = 9 := by decide
  have htake : (key ++ 61 :: value).take 127 = key ++ 61 :: value.take 117 := by
    rw [List.take_append, List.take_of_length_le (by omega), hlength, hnine]
    rfl
  have hdrop : (key ++ 61 :: value).drop 127 = value.drop 117 := by
    rw [List.drop_append, List.drop_of_length_le (by omega), hlength, hnine]
    rfl
  have hrest : (fgetsChunks 127 (value.drop 117)).filterMap (pieceSetting cfg t) = [] := by
    refine List.filterMap_eq_nil_iff.mpr fun piece hpiece => ?_
    have hcut : 61 ∉ cstr piece := by
      intro hmem
      rcases mem_of_mem_fgetsFill hpiece (mem_of_mem_cstr hmem) with h | h
      · cases h
      · exact hvalue.2 (List.mem_of_mem_drop h)
    unfold pieceSetting settingOf
    rw [strchr_eq_none.mpr hcut]
  unfold lineSettings
  rw [fgetsChunks_long hline (by decide) hlong, htake, hdrop, List.filterMap_cons, hrest,
    pieceSetting_node hkey hspelling fun h => hvalue.1 (List.mem_of_mem_take h)]
  cases acceptedNode cfg t (value.take 117) <;> rfl

end Node

/-- A line changes what the manual says exactly if it fits. -/
theorem readLine_iff (hline : 10 ∉ line) :
    (∀ pol, readLine cfg t line pol = documentedChange t line pol) ↔ LineFits cfg t line := by
  unfold documentedChange LineFits
  cases hdoc : settingOf (documentedNode t) line with
  | none =>
      simp only [readLine_eq hline]
      rw [foldl_set_eq_self_iff]
      exact List.filterMap_eq_nil_iff
  | some setting =>
      dsimp only
      rcases documented_cases hdoc with ⟨hword, hshort, hzero⟩ |
        ⟨key, value, v, rfl, hkey, hspelling, hnode, rfl⟩
      · refine iff_of_true (fun pol => ?_) (.inl hshort)
        rw [readLine_eq hline, lineSettings_short hline hshort, pieceSetting, cstr_eq_self hzero,
          hword]
        rfl
      · obtain ⟨hdecimal, hint, -⟩ := documentedNode_iff.mp hnode
        have hvalue := zero_not_mem_of_decimal hdecimal
        by_cases hshort : (key ++ 61 :: value).length ≤ 127
        · refine iff_of_true (fun pol => ?_) (.inl hshort)
          have haccepted : acceptedNode cfg t value = some v := by
            unfold acceptedNode
            rw [toInt_strtoul_decimal hdecimal hint]
            obtain ⟨node, hfound⟩ :=
              Option.isSome_iff_exists.mp (getNumaNode_of_documented cfg hnode)
            rw [hfound]
            rfl
          rw [readLine_eq hline, lineSettings_short hline hshort,
            pieceSetting_node hkey hspelling hvalue.1, haccepted]
          rfl
        · have hlong : 117 < value.length := by
            have hlength := (strcaseeq_spelling hspelling).1
            have hnine : keyNumaNode.length = 9 := by decide
            rw [List.length_append, List.length_cons] at hshort
            omega
          have hcut := toInt_strtoul_take hdecimal hint (by decide) hlong
          simp only [readLine_eq hline,
            lineSettings_node_long hkey hspelling hline hvalue (by omega), or_iff_right hshort,
            Setting.numaNode.injEq, acceptedNode]
          constructor
          · intro h
            -- whatever is found in the first piece has to be the number of the whole line
            cases hfound : getNumaNode cfg t (toInt (strtoul (value.take 117))) with
            | none =>
                rw [hfound] at h
                obtain ⟨pol, hne⟩ := exists_set_ne (.numaNode v)
                exact absurd (h pol).symm (hne pol)
            | some node =>
                rw [hfound] at h
                have hset := congrArg UserIrqPolicy.numaNode (h { hintpolicy := .exact })
                exact hcut.mp (Option.some.inj hset)
          · rintro rfl pol
            rw [hcut.mpr rfl]
            obtain ⟨node, hfound⟩ :=
              Option.isSome_iff_exists.mp (getNumaNode_of_documented cfg hnode)
            rw [hfound]
            rfl

/-! ## The whole answer -/

/-- The first line and the rest. -/
theorem policyLines_cases (output : Bytes) :
    10 ∉ output ∧ policyLines output = [output] ∨
      ∃ first rest, output = first ++ 10 :: rest ∧ 10 ∉ first ∧
        policyLines output = first :: policyLines rest := by
  by_cases h : 10 ∈ output
  · obtain ⟨first, rest, rfl, hfirst⟩ := List.eq_append_cons_of_mem h
    exact .inr ⟨first, rest, rfl, hfirst, List.splitOn_append_cons_self_of_not_mem hfirst rest⟩
  · exact .inl ⟨h, List.splitOn_eq_singleton h⟩

theorem not_mem_of_mem_policyLines {output : Bytes} (h : line ∈ policyLines output) :
    10 ∉ line := by
  induction hn : output.length using Nat.strong_induction_on generalizing output with
  | _ n ih =>
      rcases policyLines_cases output with ⟨hnone, hlines⟩ | ⟨first, rest, rfl, hfirst, hlines⟩
      · rw [hlines, List.mem_singleton] at h
        exact h ▸ hnone
      · rw [hlines, List.mem_cons] at h
        rcases h with rfl | h
        · exact hfirst
        · refine ih rest.length ?_ h rfl
          rw [← hn, List.length_append, List.length_cons]
          omega

/-- The pieces are read line by line. -/
theorem foldl_policyLines (output : Bytes) (pol : UserIrqPolicy) :
    (fgetsChunks 127 output).foldl (fun pol buf => parseUserPolicyKey cfg t buf pol) pol =
      (policyLines output).foldl (fun pol line => readLine cfg t line pol) pol := by
  induction hn : output.length using Nat.strong_induction_on generalizing output pol with
  | _ n ih =>
      rcases policyLines_cases output with ⟨hnone, hlines⟩ | ⟨first, rest, rfl, hfirst, hlines⟩
      · rw [hlines]
        rfl
      · have hshorter : rest.length < n := by
          rw [← hn, List.length_append, List.length_cons]
          omega
        rw [hlines, List.foldl_cons, ← ih rest.length hshorter rest _ rfl, fgetsChunks,
          fgetsFill_append_newline hfirst, List.foldl_append]
        congr 1
        exact foldl_fgetsFill_newline (fun _ => rfl)
          (fun pol piece hpiece => parseUserPolicyKey_newline hpiece pol) hfirst List.not_mem_nil

/-- The documented changes, one after another, make the documented policy. -/
theorem foldl_documentedChange (cfg : Config) (t : Topology) (output : Bytes) :
    (policyLines output).foldl (fun pol line => documentedChange t line pol)
        { hintpolicy := cfg.globalHintPolicy } = documentedPolicy cfg t output := by
  have hsettings : ∀ lines : List Bytes, ∀ pol,
      lines.foldl (fun pol line => documentedChange t line pol) pol =
        (lines.filterMap (settingOf (documentedNode t))).foldl UserIrqPolicy.set pol := by
    intro lines pol
    rw [List.foldl_filterMap]
    congr 1
    funext pol line
    unfold documentedChange
    cases settingOf (documentedNode t) line <;> rfl
  rw [hsettings, foldl_set]
  simp only [Option.or_none]
  rfl

/-- For every answer of the script: it is read as documented exactly if every line fits. -/
theorem read_as_documented_iff (cfg : Config) (sysfs : Sysfs) (t : Topology) (path : DevPath)
    (irq : ℤ) (output : Bytes) (hscript : cfg.polscript = true)
    (houtput : sysfs.policyOutput path irq = some output) :
    ReadAsDocumented cfg sysfs t path irq output ↔
      ∀ line ∈ policyLines output, LineFits cfg t line := by
  have hpolicy : getIrqUserPolicy cfg sysfs t path irq =
      (policyLines output).foldl (fun pol line => readLine cfg t line pol)
        { hintpolicy := cfg.globalHintPolicy } := by
    unfold getIrqUserPolicy
    rw [hscript, houtput, ← foldl_policyLines]
    rfl
  unfold ReadAsDocumented
  constructor
  · rintro ⟨-, hlines⟩ line hline
    exact (readLine_iff (not_mem_of_mem_policyLines hline)).mp (hlines line hline)
  · intro hfits
    have hlines : ∀ line ∈ policyLines output, ∀ pol,
        readLine cfg t line pol = documentedChange t line pol := fun line hline =>
      (readLine_iff (not_mem_of_mem_policyLines hline)).mpr (hfits line hline)
    refine ⟨?_, hlines⟩
    rw [hpolicy, ← foldl_documentedChange]
    exact List.foldl_ext _ _ _ fun pol line hline => hlines line hline pol

/-! ## A comment that bans an interrupt -/

namespace Sample

/-- A line of 135 bytes that is no setting, and whose second piece is `ban=true`. -/
def comment : Bytes := List.replicate 127 35 ++ keyBan ++ chars ['=', 't', 'r', 'u', 'e', '\n']

def commenting : Sysfs where
  policyOutput _ _ := some comment

def commentConfig : Config := { config with polscript := true }

/-- The comment should change nothing, and bans the interrupt. -/
theorem comment_not_documented :
    getIrqUserPolicy commentConfig commenting {} .sys 9 ≠
      documentedPolicy commentConfig {} comment := by
  decide +kernel

end Sample

/-- At the comment the condition fails. -/
theorem read_as_documented_iff_comment :
    ReadAsDocumented Sample.commentConfig Sample.commenting {} .sys 9 Sample.comment ↔
      ∀ line ∈ policyLines Sample.comment, LineFits Sample.commentConfig {} line :=
  read_as_documented_iff _ _ _ _ _ _ rfl rfl

end CodeAnalyze.Irqbalance
