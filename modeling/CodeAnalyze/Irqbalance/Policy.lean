import CodeAnalyze.Irqbalance.Numa

/-!
# The policy of an IRQ: `get_irq_user_policy` and `check_for_irq_ban`

The policy script prints lines `key=value`.  They reach `parse_user_policy_key`
through a buffer of 128 bytes, so a longer line arrives in pieces and each piece
is read as a line of its own.
-/

namespace CodeAnalyze.Irqbalance

/-! ## Keys and values -/

def keyBan : Bytes := chars ['b', 'a', 'n']

def keyBalanceLevel : Bytes :=
  chars ['b', 'a', 'l', 'a', 'n', 'c', 'e', '_', 'l', 'e', 'v', 'e', 'l']

def keyNumaNode : Bytes := chars ['n', 'u', 'm', 'a', '_', 'n', 'o', 'd', 'e']

def keyHintpolicy : Bytes := chars ['h', 'i', 'n', 't', 'p', 'o', 'l', 'i', 'c', 'y']

/-- The values of `ban`. -/
def banvals : List (Bytes × Bool) :=
  [(chars ['f', 'a', 'l', 's', 'e'], false), (chars ['t', 'r', 'u', 'e'], true)]

/-- `levelvals`. -/
def levelvals : List (Bytes × BalanceLevel) :=
  [(chars ['n', 'o', 'n', 'e'], .none),
   (chars ['p', 'a', 'c', 'k', 'a', 'g', 'e'], .package),
   (chars ['c', 'a', 'c', 'h', 'e'], .cache),
   (chars ['c', 'o', 'r', 'e'], .core)]

/-- The values of `hintpolicy`. -/
def hintvals : List (Bytes × HintPolicy) :=
  [(chars ['e', 'x', 'a', 'c', 't'], .exact),
   (chars ['s', 'u', 'b', 's', 'e', 't'], .subset),
   (chars ['i', 'g', 'n', 'o', 'r', 'e'], .ignore)]

/-- The chain of `strcasecmp` calls that looks a value up. -/
def valueOf {α : Type*} (values : List (Bytes × α)) (value : Bytes) : Option α :=
  (values.find? fun entry => strcaseeq entry.1 value).map (·.2)

/-! ## The script's answer -/

/-- `parse_user_policy_key`. -/
def parseUserPolicyKey (cfg : Config) (t : Topology) (buf : Bytes) (pol : UserIrqPolicy) :
    UserIrqPolicy :=
  match strchr (cstr buf) 61 with
  | none => pol
  | some (key, rest) =>
    let value := rest.takeWhile (· ≠ 10)
    if strcaseeq keyBan key then
      match valueOf banvals value with
      | none => pol
      | some ban => { pol with ban := some ban }
    else if strcaseeq keyBalanceLevel key then
      match valueOf levelvals value with
      | none => pol
      | some level => { pol with level := some level }
    else if strcaseeq keyNumaNode key then
      let idx := toInt (strtoul value)
      match getNumaNode cfg t idx with
      | none => pol
      | some _ => { pol with numaNode := some idx }
    else if strcaseeq keyHintpolicy key then
      match valueOf hintvals value with
      | none => pol
      | some hintpolicy => { pol with hintpolicy := hintpolicy }
    else pol

/-- `get_irq_user_policy`. -/
def getIrqUserPolicy (cfg : Config) (sysfs : Sysfs) (t : Topology) (path : DevPath) (irq : ℤ) :
    UserIrqPolicy :=
  let pol : UserIrqPolicy := { hintpolicy := cfg.globalHintPolicy }
  if !cfg.polscript then pol
  else
    match sysfs.policyOutput path irq with
    | none => pol
    | some output =>
      (fgetsChunks 127 output).foldl (fun pol buf => parseUserPolicyKey cfg t buf pol) pol

/-! ## Bans -/

/-- `add_banned_irq`. -/
def addBannedIrq (irq : ℤ) (list : List IrqInfo) : List IrqInfo :=
  if list.any fun info => info.irq == irq then list
  else list ++ [{ irq := irq, banned := true, hintPolicy := .exact }]

/-- `cl_banned_irqs`, after one `add_cl_banned_irq` for each `--banirq`. -/
def clBannedIrqs (cfg : Config) : List IrqInfo :=
  cfg.banirq.foldl (fun list irq => addBannedIrq irq list) []

/-- `check_for_irq_ban`.  A path of NULL is `none`; a `system` that fails counts as
no ban. -/
def checkForIrqBan (cfg : Config) (sysfs : Sysfs) (path : Option DevPath) (irq : ℤ) : Bool :=
  if (clBannedIrqs cfg).any fun info => info.irq == irq then true
  else if !cfg.banscript then false
  else
    match path with
    | none => false
    | some path => sysfs.banExit path irq

end CodeAnalyze.Irqbalance
