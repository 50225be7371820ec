import CodeAnalyze.Irqbalance.Placement

/-!
# Writing affinities: `activate.c`
-/

namespace CodeAnalyze.Irqbalance

namespace State

/-- `applied_mask` where `valid_mask` is set, and `none` where it is not. -/
def appliedMask (cfg : Config) (s : State) (info : IrqInfo) : Option Cpumask :=
  if info.hintPolicy = .exact && !cpusEmpty info.affinityHint then
    if cpusIntersects info.affinityHint cfg.bannedCpus then none else some info.affinityHint
  else
    match info.assignedObj with
    | none => none
    | some d =>
      if info.hintPolicy = .subset && !cpusEmpty info.affinityHint then
        let appliedMask := (s.obj d).mask &&& info.affinityHint
        if cpusIntersects appliedMask s.topo.unbannedCpus then some appliedMask else none
      else some (s.obj d).mask

/-- `check_affinity`.  A file that cannot be read counts as up to date. -/
def checkAffinity (file : SmpAffinity) (appliedMask : Cpumask) : Bool :=
  match file.current with
  | none => true
  | some current => appliedMask == current

/-- `activate_mapping`. -/
def activateMapping (cfg : Config) (smpAffinity : ℤ → SmpAffinity) (s : State) (i : ℕ) : State :=
  let info := s.info i
  if !info.moved then s
  else
    match s.appliedMask cfg info with
    | none => s
    | some appliedMask =>
      if checkAffinity (smpAffinity info.irq) appliedMask then s
      else if info.assignedObj.isNone then s
      else if !(smpAffinity info.irq).writable then s
      else
        { s.modifyInfo i fun info => { info with moved := false } with
          writes := s.writes ++ [(info.irq, appliedMask)] }

/-- `activate_mappings`. -/
def activateMappings (cfg : Config) (smpAffinity : ℤ → SmpAffinity) (s : State) : State :=
  (List.range s.dbSize).foldl (activateMapping cfg smpAffinity) s

end State

end CodeAnalyze.Irqbalance
