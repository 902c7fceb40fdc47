import QueryTree.Sql.Render

/-!
# The formatter

A statement is written clause by clause, and its parameters are numbered on the way. What is carried
along is a `Formatter`: the parameters met so far, how many of them are constants, and the alias of
the projection whose columns are named without it, which is set only while the outer ordering of a
block is written.

A formal parameter is entered at its first use and found again later; a constant that does not stand
in the text is entered wherever it stands. Each gets its placeholder as soon as it is met, so the
numbers depend on the order in which the clauses are written. A batch hands the formatter on from
one statement to the next. Where a part cannot be written there is no statement, and what was
entered before is dropped.
-/

namespace QueryTree

/-- What is carried along while a statement is written. -/
structure Formatter where
  parameters : List CommandParameter := []
  /-- The number of constants entered so far, which names the next one. -/
  constantCount : Nat := 0
  /-- The alias of the projection whose columns are named without it. -/
  bareAlias : Option String := none

/-- A part of a statement, written from a formatter. -/
abbrev Format := StateT Formatter (Except QueryError)

namespace Formatter

/-- The formatter with another alias named bare. -/
def withBare (bare : Option String) (f : Formatter) : Formatter := { f with bareAlias := bare }

/-- Write a part with another alias named bare, and set it back after it. -/
def naming {α : Type} (bare : Option String) (part : Format α) : Format α := do
  let previous := (← get).bareAlias
  modify (withBare bare)
  let written ← part
  modify (withBare previous)
  pure written

/-! ## Parameters -/

/-- Enter a constant, and give its placeholder. -/
def enterConstant (d : Dialect) (value : Value) (type : LogicalType) (f : Formatter) :
    String × Formatter :=
  let name := "_c" ++ toString f.constantCount
  (d.placeholder (f.parameters.length + 1) name,
    { f with
      parameters := f.parameters ++ [⟨name, type, some value⟩]
      constantCount := f.constantCount + 1 })

/-- Find a formal parameter or enter it, and give its placeholder. -/
def enterNamed (d : Dialect) (name : String) (type : LogicalType) (f : Formatter) :
    String × Formatter :=
  match Command.position? f.parameters name with
  | some i => (d.placeholder (i + 1) name, f)
  | none =>
    (d.placeholder (f.parameters.length + 1) name,
      { f with parameters := f.parameters ++ [⟨name, type, none⟩] })

/-! ## Scalars -/

/-- A constant, in the text or as a parameter. -/
def literal (d : Dialect) (value : Value) (type : LogicalType) : Format String :=
  match value with
  | .null => pure "NULL"
  | .bool b => pure (if b then "TRUE" else "FALSE")
  | .int n => pure (toString n.toInt)
  | .float x =>
    if x.isFinite then pure (FloatStyle.statement.text x)
    else modifyGet (enterConstant d value type)
  | .text _ | .bytes _ | .date _ | .time _ | .dateTime _ => modifyGet (enterConstant d value type)
  | .record _ | .list _ | .rows _ | .source _ | .provider _ =>
    throw (.unsupported .constant (value.display ++ " cannot be rendered as SQL"))

/-- Put a binary expression in parentheses where it is an operand. -/
def operand (e : Expr) (written : String) : String :=
  match e with
  | .binary .. => "(" ++ written ++ ")"
  | _ => written

/-- A unary operator on the text of its operand. -/
def unary (op : UnaryOperator) (inner : String) : String :=
  match op with
  | .not => "NOT " ++ inner
  | .negate => "-" ++ inner
  | .isNull => inner ++ " IS NULL"
  | .isNotNull => inner ++ " IS NOT NULL"

mutual

/-- A scalar expression. -/
def scalar (d : Dialect) : Expr → Format String
  | .const value type => literal d value type
  | .param name type => modifyGet (enterNamed d name type)
  | .column qualifier name _ => do
    let f ← get
    pure (Sql.columnText d f.bareAlias qualifier name)
  | .binary op left right _ => do
    let l ← scalar d left
    let r ← scalar d right
    pure (operand left l ++ " " ++ Sql.operatorText op ++ " " ++ operand right r)
  | .unary op e _ => do
    let inner ← scalar d e
    pure (unary op (operand e inner))
  | .call name args _ => do
    let parts ← scalars d args
    pure (name ++ "(" ++ ", ".intercalate parts ++ ")")
  | .aggregate function arg distinct _ => do
    if distinct && !d.distinctInAggregates then
      throw (.unsupported .aggregate
        s!"{d.name} does not allow DISTINCT inside {function.sqlName}")
    let inner ← scalarOption d arg
    let opening := if distinct then "(DISTINCT " else "("
    pure (function.sqlName ++ opening ++ inner ++ ")")
  | .member _ name _ =>
    throw (.unsupported .memberAccess s!"member '{name}' has no SQL equivalent")
  | .lambda ps b => throw (Sql.notScalar (.lambda ps b))
  | .scan s a t => throw (Sql.notScalar (.scan s a t))
  | .filter i p => throw (Sql.notScalar (.filter i p))
  | .project a i cs dst gs => throw (Sql.notScalar (.project a i cs dst gs))
  | .order i ks => throw (Sql.notScalar (.order i ks))
  | .limit i t s => throw (Sql.notScalar (.limit i t s))
  | .join k l r o => throw (Sql.notScalar (.join k l r o))
  | .setOp op all l r a => throw (Sql.notScalar (.setOp op all l r a))

/-- Write scalars from left to right. -/
def scalars (d : Dialect) : List Expr → Format (List String)
  | [] => pure []
  | e :: rest => return (← scalar d e) :: (← scalars d rest)

/-- The argument of an aggregate; without one it is over whole rows. -/
def scalarOption (d : Dialect) : Option Expr → Format String
  | none => pure "*"
  | some e => scalar d e

end

/-! ## Clauses -/

/-- A projected column, with its name unless the column already has it. -/
def columnDecl (d : Dialect) (c : Column) : Format String := do
  let written ← scalar d c.expr
  match c.expr with
  | .column _ name _ =>
    if name = c.name then pure written else pure (written ++ " AS " ++ d.quote c.name)
  | _ => pure (written ++ " AS " ++ d.quote c.name)

/-- The SELECT clause; without a projection it is for all columns. -/
def selectClause (d : Dialect) : Option Projection → Format String
  | none => pure "SELECT *"
  | some p => do
    let columns ← p.columns.mapM (columnDecl d)
    pure ((if p.distinct then "SELECT DISTINCT " else "SELECT ") ++ ", ".intercalate columns)

/-- The filters of a block. They were collected from the outside in; the innermost applies first. -/
def whereClause (d : Dialect) : List Expr → Format (List String)
  | [] => pure []
  | [e] => do pure ["WHERE " ++ (← scalar d e)]
  | many => do
    let parts ← many.reverse.mapM fun e => return operand e (← scalar d e)
    pure ["WHERE " ++ " AND ".intercalate parts]

/-- The GROUP BY clause, if there are groups. -/
def groupClause (d : Dialect) : Option Projection → Format (List String)
  | none => pure []
  | some p => do
    if p.groupBy.isEmpty then pure []
    else pure ["GROUP BY " ++ ", ".intercalate (← scalars d p.groupBy)]

/-- An ordering key with its direction. -/
def orderKey (d : Dialect) (k : OrderKey) : Format String := do
  let written ← scalar d k.expr
  match k.direction with
  | .ascending => pure written
  | .descending => pure (written ++ " DESC")

/-- The keys of a block. In the outer ordering the columns of the block's own projection are named
without its alias. -/
def orderClause (d : Dialect) (b : Block) : Format (List String) := do
  let outer ← naming (b.projection.map (·.qualifier)) (b.outerOrder.mapM (orderKey d))
  let inner ← b.innerOrder.mapM (orderKey d)
  let keys := outer ++ inner
  pure (if keys.isEmpty then [] else ["ORDER BY " ++ ", ".intercalate keys])

/-- A count under its keyword, if there is one. -/
def countClause (d : Dialect) (keyword : String) : Option Expr → Format (List String)
  | none => pure []
  | some e => do pure [keyword ++ (← scalar d e)]

/-- The limit of a block: the outer one, or else the inner one. -/
def limitClause (d : Dialect) (b : Block) : Format (List String) :=
  match b.outerLimit.or b.innerLimit with
  | none => pure []
  | some w => do
    let take ← countClause d "LIMIT " w.take
    let skip ← countClause d "OFFSET " w.skip
    pure (take ++ skip)

/-- A SELECT over a from-item, its clauses in the order in which they are written. -/
def block (d : Dialect) (b : Block) (source : Format String) : Format String := do
  let columns ← selectClause d b.projection
  let item ← source
  let filters ← whereClause d b.filters
  let groups ← groupClause d b.projection
  let keys ← orderClause d b
  let limit ← limitClause d b
  pure (" ".intercalate (columns :: ("FROM " ++ item) :: filters ++ groups ++ keys ++ limit))

/-! ## Queries -/

/-- A table under an alias. -/
def scanItem (d : Dialect) (source : Expr) (qualifier : String) : Format String :=
  match source with
  | .const (.source s) _ => pure (d.quote s.table ++ " AS " ++ qualifier)
  | other => throw (.unsupported other.kind "table source must be a literal queryable source")

/-- The condition of a join; a cross join has none. -/
def joinCondition (d : Dialect) (kind : JoinKind) (on : Option Expr) : Format String :=
  match kind, on with
  | .cross, _ | _, none => pure ""
  | _, some e => do pure (" ON " ++ (← scalar d e))

/-- A branch of a set operation, in parentheses where it needs them. -/
def branch (e : Expr) (written : String) : String :=
  if Sql.needsParentheses e then "(" ++ written ++ ")" else written

set_option linter.unusedVariables false in
mutual

/-- A relational node as a complete query. -/
def query (d : Dialect) (e : Expr) : Format String :=
  match h : (Block.split e).setParts? with
  | some s => do
    let l ← query d s.left
    let r ← query d s.right
    pure (branch s.left l ++ Sql.setText s.op s.all ++ branch s.right r)
  | none => block d (Block.split e) (fromItem d (Block.split e).source)
termination_by (sizeOf e, Sql.queryRank e)
decreasing_by
  · exact .left _ _ (Nat.lt_of_lt_of_le (Block.sizeOf_setParts_lt h).1
      (Block.sizeOf_source_split_le e))
  · exact .left _ _ (Nat.lt_of_lt_of_le (Block.sizeOf_setParts_lt h).2
      (Block.sizeOf_source_split_le e))
  · exact Sql.source_before_query h

/-- What stands after FROM. -/
def fromItem (d : Dialect) (e : Expr) : Format String :=
  match e with
  | .scan source qualifier _ => scanItem d source qualifier
  | .join kind left right on => do
    let l ← fromItem d left
    let r ← fromItem d right
    let condition ← joinCondition d kind on
    pure (l ++ " " ++ Sql.joinText kind ++ " " ++ r ++ condition)
  | e =>
    match h : Sql.subqueryAlias? e with
    | none => throw (.unsupported e.kind "subquery has no single alias")
    | some qualifier => do
      let sql ← query d e
      pure ("(" ++ sql ++ ")" ++ (" AS " ++ qualifier))
termination_by (sizeOf e, 1)
decreasing_by
  · exact .left _ _ (by simp only [Expr.join.sizeOf_spec]; omega)
  · exact .left _ _ (by simp only [Expr.join.sizeOf_spec]; omega)
  · simp only [Sql.queryRank, Sql.isDerived_of_subqueryAlias? h, if_true]
    exact .right _ (by decide)

end

/-- A statement: a query, or the body of one with parameters. -/
def statement (d : Dialect) : Expr → Format String
  | .lambda _ body => statement d body
  | e =>
    if e.isRelational then query d e
    else throw (.unsupported e.kind "a statement must produce rows")

end Formatter

namespace Command

/-- The command of one statement. -/
def ofStatement (d : Dialect) (e : Expr) : Except QueryError Command := do
  let (sql, f) ← (Formatter.statement d e).run {}
  pure ⟨sql, f.parameters⟩

/-- One command for several statements, numbered through. -/
def ofStatements (d : Dialect) (es : List Expr) : Except QueryError Command := do
  let (statements, f) ← (es.mapM (Formatter.statement d)).run {}
  pure ⟨";\n".intercalate statements, f.parameters⟩

/-- One command for several statements. A dialect that takes one statement at a time refuses the
second. -/
def ofBatch (d : Dialect) (es : List Expr) : Except QueryError Command :=
  match es with
  | _ :: second :: _ =>
    if d.multipleStatements then ofStatements d es
    else
      .error (.unsupported second.kind
        s!"{d.name} does not allow multiple statements per command")
  | _ => ofStatements d es

end Command

end QueryTree
