import QueryTree.Expr.Basic

/-!
# Substituting arguments for parameters

Each reference to a bound parameter becomes a constant of its argument, typed as the parameter was
declared. A lambda that declares a name again keeps its own references under that name.
-/

namespace QueryTree

/-- A parameter and the argument that stands for it. -/
structure Binding where
  param : Parameter
  value : Value

/-- Parameters with arguments, pairwise from the left; what is left over on either side is unbound.
-/
abbrev Bindings := List Binding

namespace Bindings

/-- Arguments bound to parameters in order; what is left over on either side is dropped. -/
def ofArguments (params : List Parameter) (args : List Value) : Bindings :=
  List.zipWith Binding.mk params args

/-- The binding of a name; of two the later counts. -/
def find? (bs : Bindings) (name : String) : Option Binding :=
  bs.reverse.find? (·.param.name == name)

/-- The bindings that a lambda with these parameters leaves visible. -/
def shadow (bs : Bindings) (params : List Parameter) : Bindings :=
  bs.filter fun b => !params.any (·.name == b.param.name)

end Bindings

namespace Expr

mutual

/-- Put the bound arguments in place of their parameters. -/
def substitute (bs : Bindings) : Expr → Expr
  | param name t =>
    match bs.find? name with
    | some b => const b.value b.param.type
    | none => param name t
  | lambda params body => lambda params (substitute (bs.shadow params) body)
  | const v t => const v t
  | column a n t => column a n t
  | member target n t => member (substitute bs target) n t
  | binary op left right t => binary op (substitute bs left) (substitute bs right) t
  | unary op operand t => unary op (substitute bs operand) t
  | call n args t => call n (substituteList bs args) t
  | aggregate fn arg d t => aggregate fn (substituteOption bs arg) d t
  | scan source a t => scan (substitute bs source) a t
  | filter input predicate => filter (substitute bs input) (substitute bs predicate)
  | project a input columns d groupBy =>
    project a (substitute bs input) (substituteColumns bs columns) d (substituteList bs groupBy)
  | order input keys => order (substitute bs input) (substituteKeys bs keys)
  | limit input take skip =>
    limit (substitute bs input) (substituteOption bs take) (substituteOption bs skip)
  | join k left right on =>
    join k (substitute bs left) (substitute bs right) (substituteOption bs on)
  | setOp op all left right a => setOp op all (substitute bs left) (substitute bs right) a

/-- Substitute in several trees. -/
def substituteList (bs : Bindings) : List Expr → List Expr
  | [] => []
  | e :: rest => substitute bs e :: substituteList bs rest

/-- Substitute in an optional tree. -/
def substituteOption (bs : Bindings) : Option Expr → Option Expr
  | none => none
  | some e => some (substitute bs e)

/-- Substitute in columns. -/
def substituteColumns (bs : Bindings) : List (ColumnOf Expr) → List (ColumnOf Expr)
  | [] => []
  | ⟨n, e⟩ :: rest => ⟨n, substitute bs e⟩ :: substituteColumns bs rest

/-- Substitute in ordering keys. -/
def substituteKeys (bs : Bindings) : List (KeyOf Expr) → List (KeyOf Expr)
  | [] => []
  | ⟨e, d⟩ :: rest => ⟨substitute bs e, d⟩ :: substituteKeys bs rest

end

end Expr

end QueryTree
