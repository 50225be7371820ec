import CodeAnalyze.Irqbalance.Daemon

/-!
# A small machine

Two CPUs on one package, two PCI devices with an interrupt each.
-/

namespace CodeAnalyze.Irqbalance.Sample

/-- Arithmetic without a floating-point unit, with a deviation of zero. -/
def fpu : Fpu where
  toNsec load := load * 10000000
  below load _ avg := load ≤ avg
  above load _ avg := avg ≤ load

def config : Config := { fpu := fpu }

def cpu0 : Fin nrCpus := ⟨0, by decide⟩

def cpu1 : Fin nrCpus := ⟨1, by decide⟩

def cpu2 : Fin nrCpus := ⟨2, by decide⟩

def cpuDir (number : Fin nrCpus) : CpuDir where
  number := number
  coreSiblings := some 3#(nrCpus)
  physicalPackageId := some 0

/-- A network card. -/
def card (irq : ℤ) : PciDevice where
  name := [48]
  attrs := { classFile := .code 0x020000 }
  irq := some (some irq)

def machine : Sysfs where
  cpuDirs := some [cpuDir cpu0, cpuDir cpu1]
  pciDevices := some [card 11, card 12]

/-- A package that spans two NUMA nodes, as the processors with two dies have it. -/
def spanning : Sysfs where
  nodeDirs := some [{ number := 0, cpumap := some 1#(nrCpus) }, { number := 1, cpumap := some 2#(nrCpus) }]
  cpuDirs := some
    [{ cpuDir cpu0 with node := some 0 }, { cpuDir cpu1 with node := some 1 }]

def numaConfig : Config := { config with numaAvail := true }

/-- The state in which the loop of `main` starts. -/
def started : State := start config machine {}

theorem reachable_started : Ops.Reachable config started :=
  .start ⟨machine, {}, rfl⟩

example : started.irqs.rebalanceIrqList = [0, 1] := by decide

/-- The interrupts are placed, and their affinities written. -/
def placing : List Op :=
  [.calculatePlacement id, .activateMappings fun _ => { current := some 3#(nrCpus), writable := true }]

def placed : State := (placing.foldlM (exec config) started).getD {}

theorem placing_run : placing.foldlM (exec config) started = some placed := by
  have hsome : (placing.foldlM (exec config) started).isSome = true := by decide +kernel
  obtain ⟨s, hs⟩ := Option.isSome_iff_exists.mp hsome
  rw [placed, hs]
  rfl

theorem reachable_placed : Ops.Reachable config placed :=
  reachable_started.of_run (fun _ _ _ hstep => hstep) placing_run

end CodeAnalyze.Irqbalance.Sample
