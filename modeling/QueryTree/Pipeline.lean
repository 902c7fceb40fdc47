import QueryTree.Pass.DeadColumns
import QueryTree.Pass.Lowering
import QueryTree.Pass.OrderLifting
import QueryTree.Sql.Formatter

/-!
# From query tree to command

A pipeline is the way of a query tree into one dialect: ordering normalization as the dialect
allows, generic lowering, the passes that plug-ins add, dead-column elimination, and then
rendering.
-/

namespace QueryTree

/-- The dialect that trees are prepared for, and the passes that were added for it. -/
structure Pipeline where
  dialect : Dialect
  /-- Passes between generic lowering and dead-column elimination. -/
  extra : List Pass := []

namespace Pipeline

/-- The passes in the order in which they run. -/
def passes (p : Pipeline) : List Pass :=
  Pass.ordering p.dialect.distinctInAggregates :: Pass.lowering :: p.extra ++ [Pass.deadColumns]

/-- The names of the passes in the order in which they run. -/
def passNames (p : Pipeline) : List String := p.passes.map (·.name)

/-- Run every pass. Of a query with parameters only the body changes. -/
def prepare (p : Pipeline) : Expr → Except QueryError Expr
  | .lambda params body => return .lambda params (← Pass.runAll p.passes body)
  | e => Pass.runAll p.passes e

/-- Run every pass and render the result. -/
def command (p : Pipeline) (e : Expr) : Except QueryError Command := do
  Command.ofStatement p.dialect (← p.prepare e)

end Pipeline

end QueryTree
