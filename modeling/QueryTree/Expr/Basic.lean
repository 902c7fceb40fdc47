import QueryTree.Value.Basic

/-!
# Query trees

A query tree joins scalar expressions (constants, parameters, members, columns, operators, function
calls, aggregates) with relational nodes (scan, filter, projection, ordering, limit, join, set
operation). One type holds both: a tree that comes from outside may have a node where it has no
meaning, and each consumer says what it makes of that.

Every node has a logical type. Scalar nodes and scans carry theirs; for the others `Expr.type`
derives it from the node below.
-/

namespace QueryTree

/-! ## Operators -/

/-- The operators with two operands. -/
inductive BinaryOperator where
  | eq | notEq | lt | ltEq | gt | gtEq
  | and | or
  | plus | minus | multiply | divide | modulo
  | like | concat
deriving DecidableEq, Repr, Inhabited

namespace BinaryOperator

/-- All of them, in the order of their declaration. -/
def all : List BinaryOperator :=
  [eq, notEq, lt, ltEq, gt, gtEq, and, or, plus, minus, multiply, divide, modulo, like, concat]

/-- The name of the operator in error messages. -/
def name : BinaryOperator → String
  | eq => "Eq"
  | notEq => "NotEq"
  | lt => "Lt"
  | ltEq => "LtEq"
  | gt => "Gt"
  | gtEq => "GtEq"
  | and => "And"
  | or => "Or"
  | plus => "Plus"
  | minus => "Minus"
  | multiply => "Multiply"
  | divide => "Divide"
  | modulo => "Modulo"
  | like => "Like"
  | concat => "Concat"

/-- The operator compares its operands. -/
def isComparison : BinaryOperator → Bool
  | eq | notEq | lt | ltEq | gt | gtEq => true
  | _ => false

/-- The operator is a connective. -/
def isLogical : BinaryOperator → Bool
  | and | or => true
  | _ => false

/-- The comparison that gives the same result with its operands swapped. -/
def flipped? : BinaryOperator → Option BinaryOperator
  | eq => some eq
  | notEq => some notEq
  | lt => some gt
  | ltEq => some gtEq
  | gt => some lt
  | gtEq => some ltEq
  | _ => none

end BinaryOperator

/-- The operators with one operand. -/
inductive UnaryOperator where
  | not | negate | isNull | isNotNull
deriving DecidableEq, Repr, Inhabited

/-- The functions of a set of rows. -/
inductive AggregateFunction where
  | count | sum | min | max | avg
deriving DecidableEq, Repr, Inhabited

/-- The name of an aggregate in SQL. -/
def AggregateFunction.sqlName : AggregateFunction → String
  | count => "COUNT"
  | sum => "SUM"
  | min => "MIN"
  | max => "MAX"
  | avg => "AVG"

/-- The direction of an ordering key. -/
inductive Direction where
  | ascending | descending
deriving DecidableEq, Repr, Inhabited

/-- The kinds of joins. -/
inductive JoinKind where
  | inner | left | right | full | cross
deriving DecidableEq, Repr, Inhabited

/-- The operations on sets of rows. -/
inductive SetOperator where
  | union | intersect | except
deriving DecidableEq, Repr, Inhabited

/-! ## Trees -/

/-- A formal parameter of a query. -/
structure Parameter where
  name : String
  type : LogicalType
deriving DecidableEq, Repr

/-- A projected column: an expression and the name it is given. -/
structure ColumnOf (α : Type) where
  name : String
  expr : α

/-- An ordering key: an expression and its direction. -/
structure KeyOf (α : Type) where
  expr : α
  direction : Direction

/-- The tree of a query: scalars and relations in one type. -/
inductive Expr where
  | const (value : Value) (type : LogicalType)
  /-- A reference to a formal parameter. -/
  | param (name : String) (type : LogicalType)
  /-- `target.name` on a record. -/
  | member (target : Expr) (name : String) (type : LogicalType)
  /-- A column of an aliased relation. -/
  | column (qualifier name : String) (type : LogicalType)
  | binary (op : BinaryOperator) (left right : Expr) (type : LogicalType)
  | unary (op : UnaryOperator) (operand : Expr) (type : LogicalType)
  | call (function : String) (args : List Expr) (type : LogicalType)
  /-- An aggregate over the rows of a group; without an argument it is over the rows themselves. -/
  | aggregate (function : AggregateFunction) (arg : Option Expr) (distinct : Bool)
      (type : LogicalType)
  | lambda (params : List Parameter) (body : Expr)
  /-- The rows of a table under an alias. -/
  | scan (source : Expr) (qualifier : String) (type : LogicalType)
  | filter (input predicate : Expr)
  /-- Columns computed from the rows of the input, or from its groups. -/
  | project (qualifier : String) (input : Expr) (columns : List (ColumnOf Expr)) (distinct : Bool)
      (groupBy : List Expr)
  | order (input : Expr) (keys : List (KeyOf Expr))
  | limit (input : Expr) (take skip : Option Expr)
  | join (kind : JoinKind) (left right : Expr) (on : Option Expr)
  /-- A set operation; its columns are those of the left branch, under `alias`. -/
  | setOp (op : SetOperator) (all : Bool) (left right : Expr) (qualifier : String)

/-- A column of a projection. -/
abbrev Column := ColumnOf Expr

/-- A key of an ordering. -/
abbrev OrderKey := KeyOf Expr

instance : Inhabited Expr := ⟨.const .null .int64⟩

/-- A query with its formal parameters. -/
structure Query where
  params : List Parameter
  body : Expr

/-- The number of arguments that the query takes. -/
def Query.arity (q : Query) : Nat := q.params.length

/-! ## Kinds -/

/-- The kind of a node, named in error messages. -/
inductive NodeKind where
  | constant | parameter | memberAccess | column | binary | unary | functionCall | aggregate
  | lambda | scan | filter | projection | ordering | limit | join | setOp
deriving DecidableEq, Repr

/-- The name of a kind of nodes. -/
def NodeKind.text : NodeKind → String
  | constant => "Constant"
  | parameter => "ParameterRef"
  | memberAccess => "MemberAccess"
  | column => "Column"
  | binary => "Binary"
  | unary => "Unary"
  | functionCall => "FunctionCall"
  | aggregate => "Aggregate"
  | lambda => "Lambda"
  | scan => "Scan"
  | filter => "Filter"
  | projection => "Projection"
  | ordering => "Ordering"
  | limit => "Limit"
  | join => "Join"
  | setOp => "SetOp"

namespace Expr

/-- The kind of the root. -/
def kind : Expr → NodeKind
  | const .. => .constant
  | param .. => .parameter
  | member .. => .memberAccess
  | column .. => .column
  | binary .. => .binary
  | unary .. => .unary
  | call .. => .functionCall
  | aggregate .. => .aggregate
  | lambda .. => .lambda
  | scan .. => .scan
  | filter .. => .filter
  | project .. => .projection
  | order .. => .ordering
  | limit .. => .limit
  | join .. => .join
  | setOp .. => .setOp

/-- The node produces rows. -/
def isRelational : Expr → Bool
  | scan .. | filter .. | project .. | order .. | limit .. | join .. | setOp .. => true
  | _ => false

/-- The root is a constant. -/
def isConstant : Expr → Bool
  | const .. => true
  | _ => false

/-- The root declares parameters. -/
def isLambda : Expr → Bool
  | lambda .. => true
  | _ => false

/-- The root is an aggregate. -/
def isAggregate : Expr → Bool
  | aggregate .. => true
  | _ => false

/-! ## Types -/

/-- The name of the row shape of a sequence type; any other type is named by its text. -/
def rowName : LogicalType → String
  | .sequence (.row name) => name
  | .sequence element => element.text
  | other => other.text

/-- The logical type of the value that a node produces. -/
def type : Expr → LogicalType
  | const _ t | param _ t | member _ _ t | column _ _ t | binary _ _ _ t | unary _ _ t
  | call _ _ t | aggregate _ _ _ t | scan _ _ t => t
  | lambda _ body => body.type
  | filter input _ | order input _ | limit input _ _ => input.type
  | project qualifier .. | setOp _ _ _ _ qualifier => .sequenceOf qualifier
  | join _ left right _ => .sequenceOf (rowName left.type ++ "+" ++ rowName right.type)

/-! ## Building nodes

The builders compute the type of the node they build from its operands. -/

/-- An integer constant. -/
def int (n : Int64) : Expr := .const (.int n) .int64

/-- A literal table. -/
def source (s : Source) : Expr := .const (.source s) (.queryableOf s.table)

/-- A constant with the type that its value shows; a value without one counts as an integer. -/
def literal (v : Value) : Expr := .const v (v.logicalType?.getD .int64)

/-- Comparisons, logic and LIKE are Boolean, concatenation is text, and arithmetic widens its
operands. -/
def mkBinary (op : BinaryOperator) (left right : Expr) : Expr :=
  .binary op left right <|
    if op.isComparison || op.isLogical || op = .like then .bool
    else if op = .concat then .string
    else .arithmetic left.type right.type

/-- A unary operation of the type that its operator gives it. -/
def mkUnary (op : UnaryOperator) (operand : Expr) : Expr :=
  .unary op operand (if op = .negate then operand.type else .bool)

/-- Counts are integers and averages are doubles; the others have the type of their argument. -/
def mkAggregate (function : AggregateFunction) (arg : Option Expr) (distinct : Bool) : Expr :=
  .aggregate function arg distinct <|
    match function, arg with
    | .count, _ => .int64
    | .avg, _ => .float64
    | _, some a => a.type
    | _, none => .int64

/-- A scan yields the rows of its table. -/
def mkScan (source : Expr) (qualifier : String) : Expr :=
  .scan source qualifier <|
    match source.type with
    | .queryable row => .sequence row
    | other => .sequence other

end Expr

end QueryTree
