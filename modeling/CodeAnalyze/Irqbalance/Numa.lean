import CodeAnalyze.Irqbalance.Sysfs
import CodeAnalyze.Irqbalance.Access

/-!
# NUMA nodes: `numa.c`

`unspecified_node` is the first object `build_numa_node_list` puts on the list,
so its address is place 0 of `numa_nodes`.
-/

namespace CodeAnalyze.Irqbalance

/-- `unspecified_node_template`. -/
def unspecifiedNodeTemplate : TopoObj := { number := -1, mask := cpuMaskAll }

/-- `add_one_node`. -/
def addOneNode (t : Topology) (dir : NodeDir) : Topology :=
  match dir.cpumap with
  | none => t
  | some mask =>
    { t with numaNodes := t.numaNodes ++ [{ number := dir.number, mask := mask }] }

/-- `build_numa_node_list`. -/
def buildNumaNodeList (cfg : Config) (sysfs : Sysfs) (t : Topology) : Topology :=
  let t := { t with numaNodes := t.numaNodes ++ [unspecifiedNodeTemplate] }
  if !cfg.numaAvail then t
  else
    match sysfs.nodeDirs with
    | none => t
    | some dirs => dirs.foldl addOneNode t

/-- `free_numa_node_list`. -/
def freeNumaNodeList (t : Topology) : Topology := { t with numaNodes := [] }

/-- `get_numa_node`. -/
def getNumaNode (cfg : Config) (t : Topology) (nodeid : ℤ) : Option ℕ :=
  if !cfg.numaAvail then some 0
  else if nodeid = -1 then some 0
  else t.numaNodes.findIdx? fun node => node.number == nodeid

/-- The two statements that link an object into the tree: `child` is appended to
the children of `parent`, and `child->parent` is set. -/
def Topology.link (t : Topology) (parent child : ObjRef) : Topology :=
  (t.modify parent fun o => { o with children := o.children ++ [child.place] }).modify child
    fun o => { o with parent := some parent.place }

/-- `add_package_to_node`. -/
def addPackageToNode (cfg : Config) (t : Topology) (p : ℕ) (nodeid : ℤ) : Topology :=
  match getNumaNode cfg t nodeid with
  | none => t
  | some node =>
    if (t.obj ⟨.package, p⟩).parent.isNone then t.link ⟨.node, node⟩ ⟨.package, p⟩ else t

end CodeAnalyze.Irqbalance
