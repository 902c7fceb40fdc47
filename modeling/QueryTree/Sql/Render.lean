import QueryTree.Error
import QueryTree.Sql.Block
import QueryTree.Sql.Command
import QueryTree.Value.Text

/-!
# Rendering

A query tree becomes SQL block by block: each block is one SELECT, a node that does not fit into it
becomes a subquery with an alias, and a set operation stands between the queries of its branches.
The rendered parts are written in the order in which they stand in the text, so the first part that
cannot be rendered is the one reported.

Text, bytes, dates and times never enter the SQL text, and neither do infinities and NaN; they
become slots. A column of the block's own projection is named without its alias in the outer
ordering.

What is rendered here is the text with its slots open. It needs no memory: the same tree gives the
same tokens wherever it stands. The formatter fills the slots while it writes.
-/

namespace QueryTree.Sql

/-! ## Scalars -/

/-- The text of a binary operator. -/
def operatorText : BinaryOperator → String
  | .eq => "="
  | .notEq => "<>"
  | .lt => "<"
  | .ltEq => "<="
  | .gt => ">"
  | .gtEq => ">="
  | .and => "AND"
  | .or => "OR"
  | .plus => "+"
  | .minus => "-"
  | .multiply => "*"
  | .divide => "/"
  | .modulo => "%"
  | .like => "LIKE"
  | .concat => "||"

/-- A constant, in the text or as a slot. -/
def literal (value : Value) (type : LogicalType) : Except QueryError Sql :=
  match value with
  | .null => .ok (word "NULL")
  | .bool b => .ok (word (if b then "TRUE" else "FALSE"))
  | .int n => .ok (word (toString n.toInt))
  | .float x =>
    if x.isFinite then .ok (word (FloatStyle.statement.text x))
    else .ok [.slot (.constant value type)]
  | .text _ | .bytes _ | .date _ | .time _ | .dateTime _ => .ok [.slot (.constant value type)]
  | .record _ | .list _ | .rows _ | .source _ | .provider _ =>
    .error (.unsupported .constant (value.display ++ " cannot be rendered as SQL"))

/-- Put a binary expression in parentheses where it is an operand. -/
def operand (e : Expr) (rendered : Sql) : Sql :=
  match e with
  | .binary .. => parenthesized rendered
  | _ => rendered

/-- A unary operator on the text of its operand. -/
def unaryText (op : UnaryOperator) (inner : Sql) : Sql :=
  match op with
  | .not => word "NOT " ++ inner
  | .negate => word "-" ++ inner
  | .isNull => inner ++ word " IS NULL"
  | .isNotNull => inner ++ word " IS NOT NULL"

/-- A column with its alias, which may be left out where it is that of the projection. -/
def columnText (d : Dialect) (bare : Option String) (qualifier name : String) : String :=
  if bare = some qualifier then d.quote name else qualifier ++ "." ++ d.quote name

/-- The error for a relation in a scalar position. -/
def notScalar (e : Expr) : QueryError := .unsupported e.kind "not valid in a scalar position"

mutual

/-- A scalar expression. Columns under the alias `bare` are named without it. -/
def scalar (d : Dialect) (bare : Option String) : Expr → Except QueryError Sql
  | .const value type => literal value type
  | .param name type => .ok [.slot (.named name type)]
  | .column qualifier name _ => .ok (word (columnText d bare qualifier name))
  | .binary op left right _ => do
    let l ← scalar d bare left
    let r ← scalar d bare right
    pure (operand left l ++ word (" " ++ operatorText op ++ " ") ++ operand right r)
  | .unary op e _ => do
    let inner ← scalar d bare e
    pure (unaryText op (operand e inner))
  | .call name args _ => do
    let parts ← scalars d bare args
    pure (word (name ++ "(") ++ separated ", " parts ++ word ")")
  | .aggregate function arg distinct _ => do
    if distinct && !d.distinctInAggregates then
      throw (.unsupported .aggregate
        s!"{d.name} does not allow DISTINCT inside {function.sqlName}")
    let inner ← scalarOption d bare arg
    let opening := if distinct then "(DISTINCT " else "("
    pure (word (function.sqlName ++ opening) ++ inner ++ word ")")
  | .member _ name _ =>
    .error (.unsupported .memberAccess s!"member '{name}' has no SQL equivalent")
  | .lambda ps b => .error (notScalar (.lambda ps b))
  | .scan s a t => .error (notScalar (.scan s a t))
  | .filter i p => .error (notScalar (.filter i p))
  | .project a i cs dst gs => .error (notScalar (.project a i cs dst gs))
  | .order i ks => .error (notScalar (.order i ks))
  | .limit i t s => .error (notScalar (.limit i t s))
  | .join k l r o => .error (notScalar (.join k l r o))
  | .setOp op all l r a => .error (notScalar (.setOp op all l r a))

/-- Render scalars from left to right. -/
def scalars (d : Dialect) (bare : Option String) : List Expr → Except QueryError (List Sql)
  | [] => .ok []
  | e :: rest => return (← scalar d bare e) :: (← scalars d bare rest)

/-- The argument of an aggregate; without one it is over whole rows. -/
def scalarOption (d : Dialect) (bare : Option String) : Option Expr → Except QueryError Sql
  | none => .ok (word "*")
  | some e => scalar d bare e

end

/-! ## Clauses -/

/-- A projected column, with its name unless the column already has it. -/
def columnDecl (d : Dialect) (c : Column) : Except QueryError Sql := do
  let rendered ← scalar d none c.expr
  match c.expr with
  | .column _ name _ =>
    if name = c.name then pure rendered else pure (rendered ++ word (" AS " ++ d.quote c.name))
  | _ => pure (rendered ++ word (" AS " ++ d.quote c.name))

/-- The SELECT clause; without a projection it is for all columns. -/
def selectClause (d : Dialect) : Option Projection → Except QueryError Sql
  | none => .ok (word "SELECT *")
  | some p => do
    let columns ← p.columns.mapM (columnDecl d)
    pure (word (if p.distinct then "SELECT DISTINCT " else "SELECT ") ++ separated ", " columns)

/-- The filters of a block. They were collected from the outside in; the innermost applies first. -/
def whereClause (d : Dialect) : List Expr → Except QueryError (List Sql)
  | [] => .ok []
  | [e] => do pure [word "WHERE " ++ (← scalar d none e)]
  | many => do
    let parts ← many.reverse.mapM fun e => return operand e (← scalar d none e)
    pure [word "WHERE " ++ separated " AND " parts]

/-- The GROUP BY clause, if there are groups. -/
def groupClause (d : Dialect) : Option Projection → Except QueryError (List Sql)
  | none => .ok []
  | some p => do
    if p.groupBy.isEmpty then pure []
    else pure [word "GROUP BY " ++ separated ", " (← scalars d none p.groupBy)]

/-- An ordering key with its direction. -/
def orderKey (d : Dialect) (bare : Option String) (k : OrderKey) : Except QueryError Sql := do
  let rendered ← scalar d bare k.expr
  match k.direction with
  | .ascending => pure rendered
  | .descending => pure (rendered ++ word " DESC")

/-- The ORDER BY clause, if there are keys. -/
def orderClause (d : Dialect) (b : Block) : Except QueryError (List Sql) := do
  let outer ← b.outerOrder.mapM (orderKey d (b.projection.map (·.qualifier)))
  let inner ← b.innerOrder.mapM (orderKey d none)
  let keys := outer ++ inner
  pure (if keys.isEmpty then [] else [word "ORDER BY " ++ separated ", " keys])

/-- A count under its keyword, if there is one. -/
def countClause (d : Dialect) (keyword : String) : Option Expr → Except QueryError (List Sql)
  | none => .ok []
  | some e => do pure [word keyword ++ (← scalar d none e)]

/-- The limit of a block: the outer one, or else the inner one. -/
def limitClause (d : Dialect) (b : Block) : Except QueryError (List Sql) :=
  match b.outerLimit.or b.innerLimit with
  | none => .ok []
  | some w => do
    let take ← countClause d "LIMIT " w.take
    let skip ← countClause d "OFFSET " w.skip
    pure (take ++ skip)

/-- A SELECT over a rendered from-item. -/
def select (d : Dialect) (b : Block) (source : Except QueryError Sql) : Except QueryError Sql := do
  let columns ← selectClause d b.projection
  let source ← source
  let filters ← whereClause d b.filters
  let groups ← groupClause d b.projection
  let keys ← orderClause d b
  let limit ← limitClause d b
  pure (separated " " (columns :: (word "FROM " ++ source) :: filters ++ groups ++ keys ++ limit))

/-! ## From-items -/

/-- The alias under which the enclosing node sees the columns of a relation. -/
def relationAlias? : Expr → Option String
  | .scan _ qualifier _ | .project qualifier .. | .setOp _ _ _ _ qualifier => some qualifier
  | .filter input _ | .order input _ | .limit input _ _ => relationAlias? input
  | _ => none

/-- A table under an alias. -/
def scanItem (d : Dialect) (source : Expr) (qualifier : String) : Except QueryError Sql :=
  match source with
  | .const (.source s) _ => .ok (word (d.quote s.table ++ " AS " ++ qualifier))
  | other => .error (.unsupported other.kind "table source must be a literal queryable source")

/-- The text of a join. -/
def joinText : JoinKind → String
  | .inner => "INNER JOIN"
  | .left => "LEFT JOIN"
  | .right => "RIGHT JOIN"
  | .full => "FULL JOIN"
  | .cross => "CROSS JOIN"

/-- The condition of a join; a cross join has none. -/
def joinCondition (d : Dialect) (kind : JoinKind) (on : Option Expr) : Except QueryError Sql :=
  match kind, on with
  | .cross, _ | _, none => .ok []
  | _, some e => do pure (word " ON " ++ (← scalar d none e))

/-- The text of a set operation. -/
def setText (op : SetOperator) (all : Bool) : String :=
  let name := match op with
    | .union => "UNION"
    | .intersect => "INTERSECT"
    | .except => "EXCEPT"
  if all then " " ++ name ++ " ALL " else " " ++ name ++ " "

/-- A branch of a set operation that needs parentheses: its last clause would otherwise be read as
the clause of the whole. -/
def needsParentheses : Expr → Bool
  | .order .. | .limit .. | .setOp .. => true
  | .project _ (.order ..) .. | .project _ (.limit ..) .. => true
  | _ => false

/-- A branch of a set operation, in parentheses where it needs them. -/
def branch (e : Expr) (rendered : Sql) : Sql :=
  if needsParentheses e then parenthesized rendered else rendered

/-! ## Queries -/

/-- A relation that becomes a query of its own where it is a from-item. -/
def isDerived : Expr → Bool
  | .filter .. | .project .. | .order .. | .limit .. | .setOp .. => true
  | _ => false

/-- A from-item that is not a table or a join is rendered as a query, and a query renders its own
from-item. The rank settles which of the two comes first on one and the same tree. -/
def queryRank (e : Expr) : Nat := if isDerived e then 0 else 2

/-- The alias of a relation as a subquery. -/
def subqueryAlias? (e : Expr) : Option String := if isDerived e then relationAlias? e else none

/-- Only a derived relation has an alias as a subquery. -/
theorem isDerived_of_subqueryAlias? {e : Expr} {qualifier : String}
    (h : subqueryAlias? e = some qualifier) : isDerived e = true := by
  unfold subqueryAlias? at h
  split at h
  · assumption
  · cases h

/-- Rendering the from-item of a query comes before the query. -/
theorem source_before_query {e : Expr} (h : (Block.split e).setParts? = none) :
    Prod.Lex (· < ·) (· < ·) (sizeOf (Block.split e).source, 1) (sizeOf e, queryRank e) := by
  rw [Prod.lex_def]
  by_cases hc : Block.isClause e = true
  · exact .inl (Block.sizeOf_source_split_lt hc)
  · refine (Nat.lt_or_eq_of_le (Block.sizeOf_source_split_le e)).imp id fun heq => ⟨heq, ?_⟩
    cases e <;> simp_all [Block.isClause, queryRank, isDerived, Block.setParts?_split_setOp]

set_option linter.unusedVariables false in
mutual

/-- A relational node as a complete query. -/
def query (d : Dialect) (e : Expr) : Except QueryError Sql :=
  match h : (Block.split e).setParts? with
  | some s => do
    let l ← query d s.left
    let r ← query d s.right
    pure (branch s.left l ++ word (setText s.op s.all) ++ branch s.right r)
  | none => select d (Block.split e) (fromItem d (Block.split e).source)
termination_by (sizeOf e, queryRank e)
decreasing_by
  · exact .left _ _ (Nat.lt_of_lt_of_le (Block.sizeOf_setParts_lt h).1
      (Block.sizeOf_source_split_le e))
  · exact .left _ _ (Nat.lt_of_lt_of_le (Block.sizeOf_setParts_lt h).2
      (Block.sizeOf_source_split_le e))
  · exact source_before_query h

/-- What stands after FROM. -/
def fromItem (d : Dialect) (e : Expr) : Except QueryError Sql :=
  match e with
  | .scan source qualifier _ => scanItem d source qualifier
  | .join kind left right on => do
    let l ← fromItem d left
    let r ← fromItem d right
    let condition ← joinCondition d kind on
    pure (l ++ word (" " ++ joinText kind ++ " ") ++ r ++ condition)
  | e =>
    match h : subqueryAlias? e with
    | none => .error (.unsupported e.kind "subquery has no single alias")
    | some qualifier => do
      let sql ← query d e
      pure (parenthesized sql ++ word (" AS " ++ qualifier))
termination_by (sizeOf e, 1)
decreasing_by
  · exact .left _ _ (by simp only [Expr.join.sizeOf_spec]; omega)
  · exact .left _ _ (by simp only [Expr.join.sizeOf_spec]; omega)
  · simp only [queryRank, isDerived_of_subqueryAlias? h, if_true]
    exact .right _ (by decide)

end

/-- A statement: a query, or the body of one with parameters. -/
def statement (d : Dialect) : Expr → Except QueryError Sql
  | .lambda _ body => statement d body
  | e =>
    if e.isRelational then query d e
    else .error (.unsupported e.kind "a statement must produce rows")

end QueryTree.Sql
