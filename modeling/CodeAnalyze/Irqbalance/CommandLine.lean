import CodeAnalyze.Irqbalance.IrqBalancing
import CodeAnalyze.Irqbalance.PolicyLines
import Mathlib.Data.List.Induction

/-!
# The command line: `parse_command_line`

`getopt_long` takes the command line apart.  An `Opt` is what one call of it returns, with
`optarg` where the option has an argument.

The order of different options does not matter, and of several options of a kind the last
one counts; only `--banirq` collects.
-/

namespace CodeAnalyze.Irqbalance

/-! ## The options -/

/-- What `getopt_long` returns. -/
inductive Opt
  /-- `'?'`: an unknown option, or one without its argument. -/
  | unknown
  | banscript (optarg : Bytes)
  | deepestcache (optarg : Bytes)
  | debug
  | foreground
  | hintpolicy (optarg : Bytes)
  | banirq (optarg : Bytes)
  | policyscript (optarg : Bytes)
  | powerthresh (optarg : Bytes)
  | oneshot
  | pid (optarg : Bytes)
  deriving DecidableEq

/-- The globals `parse_command_line` sets. -/
structure Settings where
  banscript : Option Bytes := none
  deepestCache : UInt64 := 2
  debugMode : Bool := false
  foregroundMode : Bool := false
  globalHintPolicy : HintPolicy := .ignore
  /-- The calls of `add_cl_banned_irq`, in order. -/
  banirq : List ℤ := []
  polscript : Option Bytes := none
  powerThresh : UInt64 := ulongMax
  oneShotMode : Bool := false
  pidfile : Option Bytes := none
  deriving DecidableEq

/-- `!strncmp(optarg, word, strlen(optarg))`. -/
def startsWord (optarg word : Bytes) : Bool := (cstr optarg).isPrefixOf word

/-- The argument of `--deepestcache`, if `usage` is not called. -/
def deepestcacheArg (optarg : Bytes) : Option UInt64 :=
  let deepestCache := strtoul (cstr optarg)
  if deepestCache = ulongMax || deepestCache < 1 then none else some deepestCache

/-- The argument of `--hintpolicy`. -/
def hintpolicyArg (optarg : Bytes) : Option HintPolicy :=
  if startsWord optarg (chars ['e', 'x', 'a', 'c', 't']) then some .exact
  else if startsWord optarg (chars ['s', 'u', 'b', 's', 'e', 't']) then some .subset
  else if startsWord optarg (chars ['i', 'g', 'n', 'o', 'r', 'e']) then some .ignore
  else none

/-- The argument of `--banirq`. -/
def banirqArg (optarg : Bytes) : Option ℤ :=
  let val := strtoul (cstr optarg)
  if val = ulongMax then none else some (toInt val)

/-- The argument of `--powerthresh`. -/
def powerthreshArg (optarg : Bytes) : Option UInt64 :=
  if startsWord optarg (chars ['o', 'f', 'f']) then some ulongMax
  else
    let powerThresh := strtoul (cstr optarg)
    if powerThresh = ulongMax then none else some powerThresh

/-- One turn of the loop of `parse_command_line`; `none` where it exits.  `includeBanscript`
is `INCLUDE_BANSCRIPT`. -/
def parseOpt (includeBanscript : Bool) (set : Settings) : Opt → Option Settings
  | .unknown => none
  | .banscript optarg =>
    if includeBanscript then some { set with banscript := some optarg } else none
  | .deepestcache optarg =>
    (deepestcacheArg optarg).map fun deepestCache => { set with deepestCache := deepestCache }
  | .debug => some { set with debugMode := true, foregroundMode := true }
  | .foreground => some { set with foregroundMode := true }
  | .hintpolicy optarg =>
    (hintpolicyArg optarg).map fun hintPolicy => { set with globalHintPolicy := hintPolicy }
  | .banirq optarg => (banirqArg optarg).map fun irq => { set with banirq := set.banirq ++ [irq] }
  | .policyscript optarg => some { set with polscript := some optarg }
  | .powerthresh optarg =>
    (powerthreshArg optarg).map fun powerThresh => { set with powerThresh := powerThresh }
  | .oneshot => some { set with oneShotMode := true }
  | .pid optarg => some { set with pidfile := some optarg }

/-- `parse_command_line`; `none` where it exits with status 1. -/
def parseCommandLine (includeBanscript : Bool) (opts : List Opt) : Option Settings :=
  opts.foldlM (parseOpt includeBanscript) {}

/-! ## Numbers -/

section

variable {optarg : Bytes} {n : ℕ}

/-- A number that does not fit is `ULONG_MAX`. -/
theorem strtoul_decimal (h : decimal optarg = some (n : ℤ)) :
    strtoul (cstr optarg) = UInt64.ofNat (min n (2 ^ 64 - 1)) := by
  rw [cstr_eq_self (zero_not_mem_of_decimal h).1]
  obtain ⟨minus, sign, digits, hsign, rfl, hne, hdigits, hvalue⟩ := decimal_cases h
  rw [strtoul_append hsign hne hdigits]
  unfold signed at hvalue
  cases minus with
  | true =>
      have hzero : digitsValue digits = 0 ∧ n = 0 := by
        simp only [if_true] at hvalue
        omega
      rw [hzero.1, hzero.2]
      rfl
  | false =>
      have heq : digitsValue digits = n := by
        simp only [Bool.false_eq_true, if_false] at hvalue
        omega
      rw [heq]
      congr 1
      simp only [Bool.false_eq_true, if_false]
      split <;> omega

theorem strtoul_decimal_eq_ulongMax_iff (h : decimal optarg = some (n : ℤ)) :
    strtoul (cstr optarg) = ulongMax ↔ 2 ^ 64 - 1 ≤ n := by
  rw [strtoul_decimal h, ← UInt64.toNat_inj, UInt64.toNat_ofNat',
    show ulongMax.toNat = 2 ^ 64 - 1 from rfl, Nat.mod_eq_of_lt (by omega)]
  omega

theorem deepestcacheArg_decimal (h : decimal optarg = some (n : ℤ)) :
    deepestcacheArg optarg =
      if 1 ≤ n ∧ n < 2 ^ 64 - 1 then some (UInt64.ofNat n) else none := by
  have hpos : strtoul (cstr optarg) < 1 ↔ n = 0 := by
    rw [UInt64.lt_iff_toNat_lt, strtoul_decimal h, UInt64.toNat_ofNat',
      Nat.mod_eq_of_lt (by omega), show (1 : UInt64).toNat = 1 from rfl]
    omega
  unfold deepestcacheArg
  simp only [Bool.or_eq_true, decide_eq_true_eq, strtoul_decimal_eq_ulongMax_iff h, hpos]
  by_cases hn : 1 ≤ n ∧ n < 2 ^ 64 - 1
  · rw [if_neg (by omega), if_pos hn, strtoul_decimal h, Nat.min_eq_left (by omega)]
  · rw [if_pos (by omega), if_neg hn]

/-- The number of an IRQ. -/
theorem banirqArg_decimal (h : decimal optarg = some (n : ℤ)) (hn : n < 2 ^ 31) :
    banirqArg optarg = some (n : ℤ) := by
  have hfits : ¬strtoul (cstr optarg) = ulongMax := by
    rw [strtoul_decimal_eq_ulongMax_iff h]
    omega
  have hint : IsInt (n : ℤ) := by
    unfold IsInt
    omega
  unfold banirqArg
  simp only
  rw [if_neg hfits, cstr_eq_self (zero_not_mem_of_decimal h).1, toInt_strtoul_decimal h hint]

theorem startsWord_off_of_decimal {v : ℤ} (h : decimal optarg = some v) :
    startsWord optarg (chars ['o', 'f', 'f']) = false := by
  unfold startsWord
  rw [cstr_eq_self (zero_not_mem_of_decimal h).1]
  obtain ⟨minus, sign, digits, hsign, rfl, hne, hdigits, -⟩ := decimal_cases h
  obtain ⟨c, rest, rfl⟩ := List.exists_cons_of_ne_nil hne
  have hc : c ≠ 111 := ne_of_isdigit (hdigits c List.mem_cons_self) (by decide)
  have hword : chars ['o', 'f', 'f'] = [111, 102, 102] := by decide
  rw [hword]
  cases hsign <;> simp [List.isPrefixOf, hc]

theorem powerthreshArg_decimal (h : decimal optarg = some (n : ℤ)) :
    powerthreshArg optarg = if n < 2 ^ 64 - 1 then some (UInt64.ofNat n) else none := by
  unfold powerthreshArg
  simp only [startsWord_off_of_decimal h, Bool.false_eq_true, if_false,
    strtoul_decimal_eq_ulongMax_iff h]
  by_cases hn : n < 2 ^ 64 - 1
  · rw [if_neg (by omega), if_pos hn, strtoul_decimal h, Nat.min_eq_left (by omega)]
  · rw [if_pos (by omega), if_neg hn]

end

/-! ## What the options say -/

namespace Opt

/-- The option does not make `parse_command_line` exit. -/
def accepted (includeBanscript : Bool) : Opt → Bool
  | unknown => false
  | banscript _ => includeBanscript
  | deepestcache optarg => (deepestcacheArg optarg).isSome
  | hintpolicy optarg => (hintpolicyArg optarg).isSome
  | banirq optarg => (banirqArg optarg).isSome
  | powerthresh optarg => (powerthreshArg optarg).isSome
  | _ => true

@[simp] def banscript? : Opt → Option Bytes
  | banscript optarg => some optarg
  | _ => none

@[simp] def deepestcache? : Opt → Option UInt64
  | deepestcache optarg => deepestcacheArg optarg
  | _ => none

@[simp] def hintpolicy? : Opt → Option HintPolicy
  | hintpolicy optarg => hintpolicyArg optarg
  | _ => none

@[simp] def banirq? : Opt → Option ℤ
  | banirq optarg => banirqArg optarg
  | _ => none

@[simp] def policyscript? : Opt → Option Bytes
  | policyscript optarg => some optarg
  | _ => none

@[simp] def powerthresh? : Opt → Option UInt64
  | powerthresh optarg => powerthreshArg optarg
  | _ => none

@[simp] def pid? : Opt → Option Bytes
  | pid optarg => some optarg
  | _ => none

end Opt

/-- What the last option of a kind says. -/
def lastArg {α : Type} (arg : Opt → Option α) (opts : List Opt) : Option α :=
  (opts.filterMap arg).getLast?

/-- The settings a command line asks for: of each kind of option the last one, and all of
`--banirq`. -/
def settingsOf (opts : List Opt) : Settings where
  banscript := lastArg Opt.banscript? opts
  deepestCache := (lastArg Opt.deepestcache? opts).getD 2
  debugMode := .debug ∈ opts
  foregroundMode := .debug ∈ opts || .foreground ∈ opts
  globalHintPolicy := (lastArg Opt.hintpolicy? opts).getD .ignore
  banirq := opts.filterMap Opt.banirq?
  polscript := lastArg Opt.policyscript? opts
  powerThresh := (lastArg Opt.powerthresh? opts).getD ulongMax
  oneShotMode := .oneshot ∈ opts
  pidfile := lastArg Opt.pid? opts

theorem lastArg_concat {α : Type} (arg : Opt → Option α) (opts : List Opt) (opt : Opt) :
    lastArg arg (opts ++ [opt]) = (arg opt).or (lastArg arg opts) := by
  unfold lastArg
  rw [List.filterMap_append]
  cases harg : arg opt <;> simp [harg]

/-- One more option. -/
theorem parseOpt_settingsOf (includeBanscript : Bool) (opts : List Opt) (opt : Opt) :
    parseOpt includeBanscript (settingsOf opts) opt =
      if opt.accepted includeBanscript then some (settingsOf (opts ++ [opt])) else none := by
  unfold settingsOf
  simp only [lastArg_concat, List.filterMap_append, List.mem_append, List.mem_singleton]
  cases opt with
  | deepestcache optarg =>
      cases harg : deepestcacheArg optarg <;> simp [parseOpt, Opt.accepted, List.filterMap_cons, harg]
  | hintpolicy optarg =>
      cases harg : hintpolicyArg optarg <;> simp [parseOpt, Opt.accepted, List.filterMap_cons, harg]
  | banirq optarg =>
      cases harg : banirqArg optarg <;> simp [parseOpt, Opt.accepted, harg]
  | powerthresh optarg =>
      cases harg : powerthreshArg optarg <;> simp [parseOpt, Opt.accepted, List.filterMap_cons, harg]
  | _ => simp [parseOpt, Opt.accepted, List.filterMap_cons]

/-- The loop gives up at the first option it does not accept, and otherwise ends with what
the options ask for. -/
theorem parseCommandLine_eq (includeBanscript : Bool) (opts : List Opt) :
    parseCommandLine includeBanscript opts =
      if opts.all (·.accepted includeBanscript) then some (settingsOf opts) else none := by
  induction opts using List.reverseRecOn with
  | nil => rfl
  | append_singleton opts opt ih =>
      unfold parseCommandLine at ih ⊢
      rw [List.foldlM_append, ih, List.all_append]
      by_cases hopts : opts.all (·.accepted includeBanscript) = true
      · rw [if_pos hopts, hopts, Option.bind_eq_bind, Option.bind_some, List.foldlM_cons,
          parseOpt_settingsOf]
        cases hopt : opt.accepted includeBanscript <;> simp [hopt]
      · rw [if_neg hopts, Bool.eq_false_iff.mpr hopts]
        rfl

end CodeAnalyze.Irqbalance
