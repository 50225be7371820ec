import CodeAnalyze.Irqbalance.Numa

/-!
# The CPU tree: `cputree.c`

Packages and cache domains are found by their masks and made when no object with
the mask is there yet.  A new object is put on its master list when it is made;
for a CPU, which the source appends to `cpus` only at the end of `do_one_cpu`,
nothing reads `cpus` in between.
-/

namespace CodeAnalyze.Irqbalance

/-- The first half of `add_cache_domain_to_package`: the package with the mask,
made if there is none. -/
def findPackage (t : Topology) (packageid : ℤ) (packageMask : Cpumask) : Topology × ℕ :=
  match t.packages.findIdx? fun package => package.mask == packageMask with
  | some package => (t, package)
  | none =>
    let package : TopoObj := { mask := packageMask, number := packageid }
    ({ t with packages := t.packages ++ [package], packageCount := t.packageCount + 1 },
      t.packages.length)

/-- `add_cache_domain_to_package`, with the package it returns. -/
def addCacheDomainToPackage (t : Topology) (cache : ℕ) (packageid : ℤ)
    (packageMask : Cpumask) : Topology × ℕ :=
  let (t, package) := findPackage t packageid packageMask
  if cache ∈ (t.obj ⟨.package, package⟩).children then (t, package)
  else (t.link ⟨.package, package⟩ ⟨.cache, cache⟩, package)

/-- The first half of `add_cpu_to_cache_domain`: the cache domain with the mask,
made if there is none. -/
def findCacheDomain (t : Topology) (cacheMask : Cpumask) : Topology × ℕ :=
  match t.cacheDomains.findIdx? fun cache => cache.mask == cacheMask with
  | some cache => (t, cache)
  | none =>
    let cache : TopoObj := { mask := cacheMask, number := t.cacheDomainCount }
    ({ t with
        cacheDomains := t.cacheDomains ++ [cache]
        cacheDomainCount := t.cacheDomainCount + 1 }, t.cacheDomains.length)

/-- `add_cpu_to_cache_domain`, with the cache domain it returns. -/
def addCpuToCacheDomain (t : Topology) (cpu : ℕ) (cacheMask : Cpumask) : Topology × ℕ :=
  let (t, cache) := findCacheDomain t cacheMask
  if cpu ∈ (t.obj ⟨.cache, cache⟩).children then (t, cache)
  else (t.link ⟨.cache, cache⟩ ⟨.cpu, cpu⟩, cache)

/-- The loop over `cache/indexK/shared_cpu_map` that computes `max_cache_index`. -/
def maxCacheIndex (deepestCache : ℕ) : ℕ → List (Option Cpumask) → ℕ
  | max, [] => max
  | max, _ :: rest =>
    if max + 1 = deepestCache then max + 1 else maxCacheIndex deepestCache (max + 1) rest

/-- `package_mask` of `do_one_cpu` before it is restricted to unbanned CPUs.  The
array is not cleared: without a `core_siblings` file it is whatever the stack
holds, with the CPU's bit set. -/
def readPackageMask (stack : Stack) (dir : CpuDir) : Cpumask :=
  dir.coreSiblings.getD (cpuSet dir.number (stack.packageMask dir.number))

/-- `cache_mask` of `do_one_cpu` before it is restricted to unbanned CPUs. -/
def readCacheMask (cfg : Config) (dir : CpuDir) : Cpumask :=
  let max := maxCacheIndex cfg.deepestCache 0 dir.sharedCpuMaps
  let solitary := cpuSet dir.number 0#(nrCpus)
  if max > 0 then (dir.sharedCpuMaps[max - 1]?.getD none).getD solitary else solitary

/-- `nodeid` of `do_one_cpu`. -/
def readNodeid (cfg : Config) (dir : CpuDir) : ℤ :=
  if cfg.numaAvail then dir.node.getD (-1) else -1

/-- `do_one_cpu`. -/
def doOneCpu (cfg : Config) (stack : Stack) (t : Topology) (dir : CpuDir) : Topology :=
  if !dir.online then t
  else
    let t := { t with cpuPossibleMap := cpuSet dir.number t.cpuPossibleMap }
    let mask := cpuSet dir.number 0#(nrCpus)
    if cpusIntersects mask cfg.bannedCpus then { t with coreCount := t.coreCount + 1 }
    else
      let cpu := t.cpus.length
      let t :=
        { t with
          cpus := t.cpus ++ [{ number := dir.number.val, mask := mask }]
          coreCount := t.coreCount + 1 }
      let cacheMask := readCacheMask cfg dir &&& t.unbannedCpus
      let packageMask := readPackageMask stack dir &&& t.unbannedCpus
      let (t, cache) := addCpuToCacheDomain t cpu cacheMask
      let (t, package) :=
        addCacheDomainToPackage t cache (dir.physicalPackageId.getD 0) packageMask
      addPackageToNode cfg t package (readNodeid cfg dir)

/-- `parse_cpu_tree`. -/
def parseCpuTree (cfg : Config) (sysfs : Sysfs) (stack : Stack) (t : Topology) : Topology :=
  let t := { t with unbannedCpus := ~~~cfg.bannedCpus }
  match sysfs.cpuDirs with
  | none => t
  | some dirs => dirs.foldl (doOneCpu cfg stack) t

/-- `clear_cpu_tree`. -/
def clearCpuTree (t : Topology) : Topology :=
  { t with
    packages := []
    packageCount := 0
    cacheDomains := []
    cacheDomainCount := 0
    cpus := []
    coreCount := 0 }

/-! ## Work statistics -/

namespace State

/-- `clear_irq_stats`. -/
def clearIrqStats (s : State) (i : ℕ) : State :=
  s.modifyInfo i fun info => { info with load := 0 }

/-- `clear_obj_stats`.  The walk of an empty `interrupts` list clears the whole
database. -/
def clearObjStats (s : State) (d : ObjRef) : State :=
  let s := (s.topo.childRefs d).attach.foldl (fun s c => s.clearObjStats c.1) s
  (s.forEachIrq (s.obj d).interrupts).foldl clearIrqStats s
termination_by d.objType.height
decreasing_by
  have := ObjType.height_below (Topology.objType_of_mem_childRefs c.2)
  omega

theorem clearObjStats_eq (s : State) (d : ObjRef) :
    s.clearObjStats d =
      let s := (s.topo.childRefs d).foldl clearObjStats s
      (s.forEachIrq (s.obj d).interrupts).foldl clearIrqStats s := by
  rw [clearObjStats]
  simp only [List.foldl_subtype, List.unattach_attach]

/-- `clear_work_stats`. -/
def clearWorkStats (s : State) : State :=
  (s.topo.refs .node).foldl clearObjStats s

end State

end CodeAnalyze.Irqbalance
