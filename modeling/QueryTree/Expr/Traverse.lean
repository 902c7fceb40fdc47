import QueryTree.Expr.Basic

/-!
# Walking a tree

`Expr.children` lists the direct subtrees of a node in the order in which they are evaluated, and
`Expr.mapChildrenM` replaces each of them in that same order. The whole-tree walks are `Expr.nodes`,
every node from the root down, and `Expr.transformUp`, which applies a local change to every node
after its children; a pass that is such a local change owes only facts about one node.
`Expr.replaceOutermost` goes from the root down and stops where it has replaced a node.
-/

namespace QueryTree.Expr

/-- The direct subtrees in evaluation order. -/
def children : Expr → List Expr
  | const .. | param .. | column .. => []
  | member target _ _ => [target]
  | binary _ left right _ => [left, right]
  | unary _ operand _ => [operand]
  | call _ args _ => args
  | aggregate _ arg _ _ => arg.toList
  | lambda _ body => [body]
  | scan source _ _ => [source]
  | filter input predicate => [input, predicate]
  | project _ input columns _ groupBy => input :: columns.map (·.expr) ++ groupBy
  | order input keys => input :: keys.map (·.expr)
  | limit input take skip => input :: take.toList ++ skip.toList
  | join _ left right on => left :: right :: on.toList
  | setOp _ _ left right _ => [left, right]

section Monadic

variable {m : Type → Type} [Monad m]

/-- Replace an optional subtree. -/
def mapOptionM (f : Expr → m Expr) : Option Expr → m (Option Expr)
  | none => pure none
  | some e => return some (← f e)

/-- Rebuild a node with every direct subtree replaced, in the order of `children`. -/
def mapChildrenM (f : Expr → m Expr) : Expr → m Expr
  | const v t => pure (const v t)
  | param n t => pure (param n t)
  | column a n t => pure (column a n t)
  | member target n t => return member (← f target) n t
  | binary op left right t => return binary op (← f left) (← f right) t
  | unary op operand t => return unary op (← f operand) t
  | call n args t => return call n (← args.mapM f) t
  | aggregate fn arg d t => return aggregate fn (← mapOptionM f arg) d t
  | lambda params body => return lambda params (← f body)
  | scan source a t => return scan (← f source) a t
  | filter input predicate => return filter (← f input) (← f predicate)
  | project a input columns d groupBy =>
    return project a (← f input) (← columns.mapM fun c => return ⟨c.name, ← f c.expr⟩) d
      (← groupBy.mapM f)
  | order input keys =>
    return order (← f input) (← keys.mapM fun k => return ⟨← f k.expr, k.direction⟩)
  | limit input take skip =>
    return limit (← f input) (← mapOptionM f take) (← mapOptionM f skip)
  | join k left right on => return join k (← f left) (← f right) (← mapOptionM f on)
  | setOp op all left right a => return setOp op all (← f left) (← f right) a

end Monadic

/-- Rebuild a node with every direct subtree replaced. -/
def mapChildren (f : Expr → Expr) (e : Expr) : Expr := Id.run (e.mapChildrenM fun c => pure (f c))

/-! ## All nodes -/

mutual

/-- Every node of a tree, each before its subtrees. -/
def nodes : Expr → List Expr
  | const v t => [const v t]
  | param n t => [param n t]
  | column a n t => [column a n t]
  | member target n t => member target n t :: nodes target
  | binary op left right t => binary op left right t :: (nodes left ++ nodes right)
  | unary op operand t => unary op operand t :: nodes operand
  | call n args t => call n args t :: nodesList args
  | aggregate fn arg d t => aggregate fn arg d t :: nodesOption arg
  | lambda params body => lambda params body :: nodes body
  | scan source a t => scan source a t :: nodes source
  | filter input predicate => filter input predicate :: (nodes input ++ nodes predicate)
  | project a input columns d groupBy =>
    project a input columns d groupBy ::
      (nodes input ++ nodesColumns columns ++ nodesList groupBy)
  | order input keys => order input keys :: (nodes input ++ nodesKeys keys)
  | limit input take skip =>
    limit input take skip :: (nodes input ++ nodesOption take ++ nodesOption skip)
  | join k left right on => join k left right on :: (nodes left ++ nodes right ++ nodesOption on)
  | setOp op all left right a => setOp op all left right a :: (nodes left ++ nodes right)

/-- The nodes of several trees. -/
def nodesList : List Expr → List Expr
  | [] => []
  | e :: rest => nodes e ++ nodesList rest

/-- The nodes of an optional tree. -/
def nodesOption : Option Expr → List Expr
  | none => []
  | some e => nodes e

/-- The nodes of columns. -/
def nodesColumns : List (ColumnOf Expr) → List Expr
  | [] => []
  | ⟨_, e⟩ :: rest => nodes e ++ nodesColumns rest

/-- The nodes of ordering keys. -/
def nodesKeys : List (KeyOf Expr) → List Expr
  | [] => []
  | ⟨e, _⟩ :: rest => nodes e ++ nodesKeys rest

end

/-- Some node of the tree satisfies `p`. -/
def any (p : Expr → Bool) (e : Expr) : Bool := e.nodes.any p

/-- Some node of the tree is an aggregate. -/
def hasAggregate (e : Expr) : Bool := e.any isAggregate

/-- The first node, from the root down, whose type satisfies `p`. -/
def findTyped? (p : LogicalType → Bool) (e : Expr) : Option Expr :=
  e.nodes.find? fun node => p node.type

/-! ## Changing every node -/

section TransformM

variable {m : Type → Type} [Monad m]

mutual

/-- Apply `f` to every node after its subtrees. -/
def transformUpM (f : Expr → m Expr) : Expr → m Expr
  | const v t => f (const v t)
  | param n t => f (param n t)
  | column a n t => f (column a n t)
  | member target n t => do f (member (← transformUpM f target) n t)
  | binary op left right t => do
    f (binary op (← transformUpM f left) (← transformUpM f right) t)
  | unary op operand t => do f (unary op (← transformUpM f operand) t)
  | call n args t => do f (call n (← transformUpListM f args) t)
  | aggregate fn arg d t => do f (aggregate fn (← transformUpOptionM f arg) d t)
  | lambda params body => do f (lambda params (← transformUpM f body))
  | scan source a t => do f (scan (← transformUpM f source) a t)
  | filter input predicate => do
    f (filter (← transformUpM f input) (← transformUpM f predicate))
  | project a input columns d groupBy => do
    f (project a (← transformUpM f input) (← transformUpColumnsM f columns) d
      (← transformUpListM f groupBy))
  | order input keys => do f (order (← transformUpM f input) (← transformUpKeysM f keys))
  | limit input take skip => do
    f (limit (← transformUpM f input) (← transformUpOptionM f take) (← transformUpOptionM f skip))
  | join k left right on => do
    f (join k (← transformUpM f left) (← transformUpM f right) (← transformUpOptionM f on))
  | setOp op all left right a => do
    f (setOp op all (← transformUpM f left) (← transformUpM f right) a)

/-- Rebuild several trees, from left to right. -/
def transformUpListM (f : Expr → m Expr) : List Expr → m (List Expr)
  | [] => pure []
  | e :: rest => return (← transformUpM f e) :: (← transformUpListM f rest)

/-- Rebuild an optional tree. -/
def transformUpOptionM (f : Expr → m Expr) : Option Expr → m (Option Expr)
  | none => pure none
  | some e => return some (← transformUpM f e)

/-- Rebuild columns, from left to right. -/
def transformUpColumnsM (f : Expr → m Expr) :
    List (ColumnOf Expr) → m (List (ColumnOf Expr))
  | [] => pure []
  | ⟨n, e⟩ :: rest => return ⟨n, ← transformUpM f e⟩ :: (← transformUpColumnsM f rest)

/-- Rebuild ordering keys, from left to right. -/
def transformUpKeysM (f : Expr → m Expr) : List (KeyOf Expr) → m (List (KeyOf Expr))
  | [] => pure []
  | ⟨e, d⟩ :: rest => return ⟨← transformUpM f e, d⟩ :: (← transformUpKeysM f rest)

end

end TransformM

/-- Apply `f` to every node after its subtrees. -/
def transformUp (f : Expr → Expr) (e : Expr) : Expr :=
  Id.run (transformUpM (fun node => pure (f node)) e)

/-! ## Replacing the outermost nodes -/

mutual

/-- Replace the outermost nodes that `f` has an answer for. `f` is asked about a node as it stands
in the tree, before its subtrees; what it answers is not looked into. -/
def replaceOutermost (f : Expr → Option Expr) : Expr → Expr
  | const v t => (f (const v t)).getD (const v t)
  | param n t => (f (param n t)).getD (param n t)
  | column a n t => (f (column a n t)).getD (column a n t)
  | member target n t =>
    (f (member target n t)).getD (member (replaceOutermost f target) n t)
  | binary op left right t =>
    (f (binary op left right t)).getD
      (binary op (replaceOutermost f left) (replaceOutermost f right) t)
  | unary op operand t =>
    (f (unary op operand t)).getD (unary op (replaceOutermost f operand) t)
  | call n args t => (f (call n args t)).getD (call n (replaceOutermostList f args) t)
  | aggregate fn arg d t =>
    (f (aggregate fn arg d t)).getD (aggregate fn (replaceOutermostOption f arg) d t)
  | lambda params body =>
    (f (lambda params body)).getD (lambda params (replaceOutermost f body))
  | scan source a t => (f (scan source a t)).getD (scan (replaceOutermost f source) a t)
  | filter input predicate =>
    (f (filter input predicate)).getD
      (filter (replaceOutermost f input) (replaceOutermost f predicate))
  | project a input columns d groupBy =>
    (f (project a input columns d groupBy)).getD
      (project a (replaceOutermost f input) (replaceOutermostColumns f columns) d
        (replaceOutermostList f groupBy))
  | order input keys =>
    (f (order input keys)).getD (order (replaceOutermost f input) (replaceOutermostKeys f keys))
  | limit input take skip =>
    (f (limit input take skip)).getD
      (limit (replaceOutermost f input) (replaceOutermostOption f take)
        (replaceOutermostOption f skip))
  | join k left right on =>
    (f (join k left right on)).getD
      (join k (replaceOutermost f left) (replaceOutermost f right) (replaceOutermostOption f on))
  | setOp op all left right a =>
    (f (setOp op all left right a)).getD
      (setOp op all (replaceOutermost f left) (replaceOutermost f right) a)

/-- Replace in several trees. -/
def replaceOutermostList (f : Expr → Option Expr) : List Expr → List Expr
  | [] => []
  | e :: rest => replaceOutermost f e :: replaceOutermostList f rest

/-- Replace in an optional tree. -/
def replaceOutermostOption (f : Expr → Option Expr) : Option Expr → Option Expr
  | none => none
  | some e => some (replaceOutermost f e)

/-- Replace in columns. -/
def replaceOutermostColumns (f : Expr → Option Expr) :
    List (ColumnOf Expr) → List (ColumnOf Expr)
  | [] => []
  | ⟨n, e⟩ :: rest => ⟨n, replaceOutermost f e⟩ :: replaceOutermostColumns f rest

/-- Replace in ordering keys. -/
def replaceOutermostKeys (f : Expr → Option Expr) : List (KeyOf Expr) → List (KeyOf Expr)
  | [] => []
  | ⟨e, d⟩ :: rest => ⟨replaceOutermost f e, d⟩ :: replaceOutermostKeys f rest

end

end QueryTree.Expr
