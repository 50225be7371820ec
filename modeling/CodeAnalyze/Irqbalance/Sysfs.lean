import CodeAnalyze.Irqbalance.Types
import CodeAnalyze.Irqbalance.CString

/-!
# What the daemon reads

The files and directories under `/sys` and `/proc` that the daemon looks at, and
the answers of the scripts it runs.  Masks stand for the text
`cpumask_parse_user` reads them from; a file that cannot be opened is `none`.
-/

namespace CodeAnalyze.Irqbalance

/-- A directory under `/sys/devices/system/node` whose name contains `node`. -/
structure NodeDir where
  /-- `strtoul(&nodename[4], NULL, 10)`, as an `int`. -/
  number : ℤ
  cpumap : Option Cpumask
  deriving DecidableEq

/-- A directory `/sys/devices/system/cpu/cpuN`. -/
structure CpuDir where
  number : Fin nrCpus
  /-- False where the file `online` starts with `0`. -/
  online : Bool := true
  coreSiblings : Option Cpumask
  /-- `strtoul` of `topology/physical_package_id`, as an `int`. -/
  physicalPackageId : Option ℤ := none
  /-- `cache/index1/shared_cpu_map`, `cache/index2/shared_cpu_map`, and so on as
  long as `stat` finds them. -/
  sharedCpuMaps : List (Option Cpumask) := []
  /-- The number in the first entry whose name contains `node`, as an `int`. -/
  node : Option ℤ := none
  deriving DecidableEq

/-- What `fscanf(fd, "%x", &class)` meets in the `class` file of a device. -/
inductive ClassFile
  /-- The file cannot be opened. -/
  | unreadable
  /-- No number: `fscanf` returns 0. -/
  | noNumber
  /-- Nothing to read: `fscanf` returns `EOF`, and `class` keeps its 0. -/
  | eof
  /-- The 24 bits of the PCI class register. -/
  | code (value : BitVec 24)
  deriving DecidableEq

/-- The files of a device directory that `add_one_irq_to_db` reads. -/
structure DeviceAttrs where
  classFile : ClassFile := .unreadable
  /-- The number in `numa_node`, as an `int`. -/
  numaNode : Option ℤ := none
  localCpus : Option Cpumask := none
  deriving DecidableEq

/-- A directory under `/sys/bus/pci/devices`. -/
structure PciDevice where
  name : Bytes
  attrs : DeviceAttrs := {}
  /-- `strtol` of each entry of `msi_irqs`, as an `int`; the entries `.` and `..`
  give 0. -/
  msiIrqs : Option (List ℤ) := none
  /-- The decimal number in the file `irq`; the inner `none` is an empty file. -/
  irq : Option (Option ℤ) := none
  deriving DecidableEq

/-- The path a script is called with. -/
inductive DevPath
  /-- `/sys`. -/
  | sys
  /-- `/sys/bus/pci/devices/NAME`. -/
  | device (name : Bytes)
  /-- `/sys/bus/pci/devices/NAME/irq`. -/
  | deviceIrq (name : Bytes)
  deriving DecidableEq

/-- The content of sysfs and `/proc` while the tree is built, and the scripts. -/
structure Sysfs where
  /-- `/sys/devices/system/node`. -/
  nodeDirs : Option (List NodeDir) := none
  /-- `/sys/devices/system/cpu`. -/
  cpuDirs : Option (List CpuDir) := none
  /-- `/sys/bus/pci/devices`. -/
  pciDevices : Option (List PciDevice) := none
  /-- `/sys/class`, `/sys/numa_node` and `/sys/local_cpus`. -/
  sysAttrs : DeviceAttrs := {}
  /-- `/proc/irq/N/affinity_hint`. -/
  affinityHint : ℤ → Option Cpumask := fun _ => none
  /-- `/proc/interrupts`. -/
  procInterrupts : Option Bytes := none
  /-- What the policy script prints; `none` where `popen` fails. -/
  policyOutput : DevPath → ℤ → Option Bytes := fun _ _ => none
  /-- The ban script exits with a status other than 0. -/
  banExit : DevPath → ℤ → Bool := fun _ _ => false
  /-- What is read behind the end of `savedline` in `collect_full_irq_list`, for a line
  of `/proc/interrupts` that fills the array. -/
  behindSavedline : Bytes → Bytes := fun _ => []

/-- What `do_one_cpu` finds in memory it has not written. -/
structure Stack where
  /-- `package_mask` on entry, for each CPU. -/
  packageMask : Fin nrCpus → Cpumask := fun _ => 0#(nrCpus)

/-- `/proc/irq/N/smp_affinity` when `activate_mapping` gets to it. -/
structure SmpAffinity where
  /-- The mask in force. -/
  current : Option Cpumask
  /-- It can be opened for writing. -/
  writable : Bool
  deriving DecidableEq

end CodeAnalyze.Irqbalance
