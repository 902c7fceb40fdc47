import QueryTree.Error

/-!
# Passes

A pass takes a query tree to a tree with the same meaning, or fails on a tree that it cannot take.
Passes run one after another, and the first failure ends the run.
-/

namespace QueryTree

/-- A rewriting of trees, which may fail. -/
structure Pass where
  name : String
  description : String := ""
  run : Expr → Except QueryError Expr

/-- Run passes in order. -/
def Pass.runAll (passes : List Pass) (e : Expr) : Except QueryError Expr :=
  passes.foldlM (fun tree pass => pass.run tree) e

end QueryTree
