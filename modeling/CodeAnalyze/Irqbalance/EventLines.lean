import CodeAnalyze.Irqbalance.ProcLines
import CodeAnalyze.Irqbalance.Sample
import Mathlib.Data.List.TakeWhile

/-!
# Event channels in long lines

`collect_full_irq_list` looks for the last token but one of a line in a copy of 1024
bytes.  `strncpy` fills the copy up with NULs if the line is shorter, and puts none
behind it if it is not; the loop over the tokens then runs off the end of the array.
The columns of a line grow with the number of CPUs, so that a machine of about a
hundred is enough.
-/

namespace CodeAnalyze.Irqbalance

variable {cfg : Config} {sysfs : Sysfs} {line : Bytes}

/-! ## Tokens -/

/-- A text without spaces is one token, or none. -/
theorem strtok_of_not_mem {token : Bytes} (h : 32 ∉ token) :
    strtok token = if token = [] then [] else [token] := by
  unfold strtok
  rw [List.splitOn_eq_singleton h]
  by_cases hnil : token = [] <;> simp [hnil]

/-- A space ends a token, if one was begun. -/
theorem strtok_append_space {token : Bytes} (h : 32 ∉ token) (rest : Bytes) :
    strtok (token ++ 32 :: rest) = if token = [] then strtok rest else token :: strtok rest := by
  unfold strtok
  rw [List.splitOn_append_cons_self_of_not_mem h]
  by_cases hnil : token = [] <;> simp [hnil]

/-- The name the loop ends with is the last token but one. -/
theorem irqName_eq {tokens : List Bytes} (h : 2 ≤ tokens.length) :
    irqName tokens = tokens.dropLast.getLast? := by
  match tokens with
  | first :: second :: rest =>
      unfold irqName
      -- the two pointers stand on the last two tokens read
      have hloop : ∀ (before : List Bytes) (first second : Bytes),
          some (rest.foldl (fun (tokens : Bytes × Bytes) p => (tokens.2, p)) (first, second)).1 =
            (before ++ first :: second :: rest).dropLast.getLast? := by
        induction rest with
        | nil =>
            intro before first second
            rw [List.foldl_nil, List.dropLast_append_cons]
            simp
        | cons p rest ih =>
            intro before first second
            rw [List.foldl_cons, ih (by simp) (before ++ [first]) second p, List.append_assoc]
            rfl
      exact hloop [] first second

/-! ## The copy -/

/-- `strncpy` into an array of `size` bytes. -/
def strncpy (src : Bytes) (size : ℕ) : Bytes :=
  (cstr src).take size ++ List.replicate (size - (cstr src).length) 0

/-- The tokens that `strtok_r(.., " ", ..)` finds in an array, called until it returns
NULL, or nothing where a call reads behind the end of the array.  `token` is the part
of a token that the current call has passed. -/
def strtokIn (token : Bytes) : Bytes → Option (List Bytes)
  | [] => none
  | c :: rest =>
    if c = 0 then some (if token = [] then [] else [token])
    else if c = 32 then
      (strtokIn [] rest).map fun tokens => if token = [] then tokens else token :: tokens
    else strtokIn (token ++ [c]) rest

/-- The calls end at the first NUL, and run off the end of an array without one. -/
theorem strtokIn_eq {token : Bytes} (htoken : 32 ∉ token) (array : Bytes) :
    strtokIn token array =
      if 0 ∈ array then some (strtok (token ++ cstr array)) else none := by
  induction array generalizing token with
  | nil => rfl
  | cons c rest ih =>
      unfold strtokIn
      by_cases hnul : c = 0
      · subst hnul
        rw [if_pos rfl, if_pos List.mem_cons_self]
        simp [cstr, strtok_of_not_mem htoken]
      · have hmem : 0 ∈ c :: rest ↔ 0 ∈ rest := by simp [Ne.symm hnul]
        have hcstr : cstr (c :: rest) = c :: cstr rest := by simp [cstr, hnul]
        simp only [if_neg hnul, hmem, hcstr]
        by_cases hspace : c = 32
        · subst hspace
          rw [if_pos rfl, ih List.not_mem_nil, strtok_append_space htoken, List.nil_append]
          by_cases hrest : 0 ∈ rest
          · simp only [if_pos hrest, Option.map_some]
          · simp only [if_neg hrest, Option.map_none]
        · rw [if_neg hspace, ih (by simp [htoken, Ne.symm hspace]), List.append_assoc]
          rfl

theorem not_mem_cstr (s : Bytes) : 0 ∉ cstr s := by
  intro hmem
  simpa using List.mem_takeWhile_imp hmem

theorem cstr_append_nul {s : Bytes} (h : 0 ∉ s) (rest : Bytes) : cstr (s ++ 0 :: rest) = s := by
  unfold cstr
  rw [List.takeWhile_append_of_pos, List.takeWhile_cons_of_neg (by simp), List.append_nil]
  intro c hc
  rw [decide_eq_true]
  rintro rfl
  exact h hc

/-- A shorter line is copied whole, with a NUL behind it. -/
theorem strncpy_short {size : ℕ} (h : (cstr line).length < size) :
    ∃ fill, strncpy line size = cstr line ++ 0 :: fill := by
  refine ⟨List.replicate (size - (cstr line).length - 1) 0, ?_⟩
  unfold strncpy
  rw [List.take_of_length_le (Nat.le_of_lt h), ← List.replicate_succ]
  congr
  omega

/-- Of a longer line the array is filled, and has no NUL. -/
theorem strncpy_long {size : ℕ} (h : size ≤ (cstr line).length) :
    strncpy line size = (cstr line).take size ∧ 0 ∉ strncpy line size := by
  have hcopy : strncpy line size = (cstr line).take size := by
    unfold strncpy
    rw [Nat.sub_eq_zero_of_le h, List.replicate_zero, List.append_nil]
  refine ⟨hcopy, ?_⟩
  rw [hcopy]
  exact fun hmem => not_mem_cstr line (List.mem_of_mem_take hmem)

/-- The tokeniser stays inside the copy exactly if the line is shorter than the copy,
and then it finds the tokens of the line. -/
theorem strtokIn_strncpy (line : Bytes) (size : ℕ) :
    strtokIn [] (strncpy line size) =
      if (cstr line).length < size then some (strtok (cstr line)) else none := by
  rw [strtokIn_eq List.not_mem_nil, List.nil_append]
  by_cases h : (cstr line).length < size
  · obtain ⟨fill, hcopy⟩ := strncpy_short h
    rw [if_pos h, hcopy, if_pos (by simp), cstr_append_nul (not_mem_cstr line)]
  · rw [if_neg h, if_neg (strncpy_long (Nat.le_of_not_lt h)).2]

/-- Behind the array the tokeniser reads on, up to the NUL it meets there. -/
theorem strtokIn_savedline (sysfs : Sysfs) (line : Bytes)
    (hbehind : 0 ∉ sysfs.behindSavedline (cstr line)) (rest : Bytes) :
    strtokIn [] (strncpy line savedlineSize ++ (sysfs.behindSavedline (cstr line) ++ 0 :: rest)) =
      some (strtok (savedline sysfs line)) := by
  rw [strtokIn_eq List.not_mem_nil, List.nil_append, if_pos (by simp)]
  unfold savedline
  dsimp only
  split
  · rename_i h
    obtain ⟨fill, hcopy⟩ := strncpy_short h
    rw [hcopy, List.append_assoc, List.cons_append, cstr_append_nul (not_mem_cstr line)]
  · rename_i h
    obtain ⟨hcopy, hnul⟩ := strncpy_long (Nat.le_of_not_lt h)
    rw [← List.append_assoc, cstr_append_nul, hcopy]
    rw [List.mem_append, not_or]
    exact ⟨hnul, hbehind⟩

/-! ## Event channels -/

/-- The last token but one of the whole line contains `xen-dyn-event`. -/
def namesEvent (line : Bytes) : Bool :=
  (strtok (cstr line)).dropLast.getLast?.any fun name => strstr name xenDynEvent

/-- The entry for a line is what the line says, and was made without a look behind the
end of the copy. -/
structure RecordsEvent (line : Bytes) (number : ℤ) (entry : Option IrqInfo) : Prop where
  within : strtokIn [] (strncpy line savedlineSize) ≠ none
  entry : ∃ info, entry = some info ∧ info.irq = number ∧
    (if namesEvent line then info.type = .virtEvent ∧ info.irqClass = .virtEvent
      else info.type = .legacy ∧ info.irqClass = .other)

/-- The entry of a line that fits is made from its own last token but one. -/
theorem collectedIrq_of_short (cfg : Config) (sysfs : Sysfs) (number : ℤ)
    (htokens : 2 ≤ (strtok (cstr line)).length) (h : (cstr line).length < savedlineSize) :
    collectedIrq cfg sysfs line number =
      { irq := number
        type := if namesEvent line then .virtEvent else .legacy
        irqClass := if namesEvent line then .virtEvent else .other
        hintPolicy := cfg.globalHintPolicy } := by
  have hcopy : savedline sysfs line = cstr line := if_pos h
  unfold collectedIrq namesEvent
  rw [hcopy, irqName_eq htokens]
  cases (strtok (cstr line)).dropLast.getLast? <;> rfl

/-- The entries are those of the numbered lines, one by one. -/
theorem collectFullIrqList_get {file : Bytes} {n : ℕ} {number : ℤ} {counts : Bytes}
    (hfile : sysfs.procInterrupts = some file)
    (hline : (numberedLines (procBuffers file))[n]? = some (line, number, counts)) :
    (collectFullIrqList cfg sysfs)[n]? = some (collectedIrq cfg sysfs line number) := by
  unfold collectFullIrqList
  rw [hfile]
  simp [hline]

/-- A numbered line with at least three tokens is recorded as what its last token but
one says, from the copy alone, exactly if it is shorter than the copy. -/
theorem event_recorded_iff (cfg : Config) (sysfs : Sysfs) (file : Bytes)
    (hfile : sysfs.procInterrupts = some file) (n : ℕ) (line : Bytes) (number : ℤ)
    (counts : Bytes)
    (hline : (numberedLines (procBuffers file))[n]? = some (line, number, counts))
    (htokens : 3 ≤ (strtok (cstr line)).length) :
    RecordsEvent line number (collectFullIrqList cfg sysfs)[n]? ↔
      (cstr line).length < savedlineSize := by
  constructor
  · intro h
    by_contra hlong
    have hoff := strtokIn_strncpy line savedlineSize
    rw [if_neg hlong] at hoff
    exact h.within hoff
  · intro h
    constructor
    · rw [strtokIn_strncpy, if_pos h]
      simp
    · refine ⟨_, collectFullIrqList_get hfile hline, ?_⟩
      rw [collectedIrq_of_short cfg sysfs number (by omega) h]
      cases namesEvent line <;> exact ⟨rfl, rfl, rfl⟩

/-! ## A machine with a hundred CPUs -/

namespace Sample

/-- The line of an event channel: a number, a column of eleven bytes for each CPU, and
the name. -/
def eventLine (cpus : ℕ) : Bytes :=
  chars [' ', '1', '6', ':', ' '] ++
    (List.replicate cpus (List.replicate 9 32 ++ [48, 32])).flatten ++
    xenDynEvent ++ chars [' ', 'e', 't', 'h', '0'] ++ [10]

/-- `/proc/interrupts` with one interrupt. -/
def eventFile (cpus : ℕ) : Bytes := chars ['C', 'P', 'U', '0'] ++ 10 :: eventLine cpus

def eventSysfs (cpus : ℕ) : Sysfs where
  procInterrupts := some (eventFile cpus)

/-- With a hundred CPUs the copy ends among the columns: the interrupt is recorded as a
legacy one, after a look behind the end of the copy. -/
theorem long_line_not_event :
    (numberedLines (procBuffers (eventFile 100)))[0]?.map (·.1) = some (eventLine 100) ∧
      3 ≤ (strtok (cstr (eventLine 100))).length ∧ namesEvent (eventLine 100) = true ∧
      (collectFullIrqList config (eventSysfs 100))[0]?.map (·.type) = some .legacy ∧
      ¬ RecordsEvent (eventLine 100) 16 (collectFullIrqList config (eventSysfs 100))[0]? := by
  refine ⟨by decide +kernel, by decide +kernel, by decide +kernel, by decide +kernel, ?_⟩
  intro h
  exact h.within (by decide +kernel)

end Sample

/-- With four CPUs the line fits. -/
theorem event_recorded_iff_four :
    RecordsEvent (Sample.eventLine 4) 16
      (collectFullIrqList Sample.config (Sample.eventSysfs 4))[0]? := by
  exact (event_recorded_iff Sample.config (Sample.eventSysfs 4) (Sample.eventFile 4) rfl 0
    (Sample.eventLine 4) 16 ((Sample.eventLine 4).drop 4) (by decide +kernel)
    (by decide +kernel)).mpr (by decide +kernel)

end CodeAnalyze.Irqbalance
