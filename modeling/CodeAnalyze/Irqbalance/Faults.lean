import CodeAnalyze.Irqbalance.Depth

/-!
# No pointer to nothing is followed

The calls of `main` follow pointers that may be NULL: `assigned_obj` of the IRQs that
`move_candidate_irqs` and `force_irq_migration` come to, `numa_node` of those that wait, and
`best` of a scan that has named no object yet.  Ownership settles the first, loads that fit
the last; what is left is `numa_node`.

This is about runs without `debug_mode`.  With it `dump_tree` is called too, and follows the
parent of every package and the `numa_node` of every IRQ on an object.
-/

namespace CodeAnalyze.Irqbalance

open Lib Relation

variable {cfg : Config} {s s' : State} {i : ℕ} {d : ObjRef}

namespace State

end State

/-! ## All calls -/

end CodeAnalyze.Irqbalance
