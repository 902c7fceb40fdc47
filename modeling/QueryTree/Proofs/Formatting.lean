import QueryTree.Proofs.Rendering
import QueryTree.Proofs.Tree
import QueryTree.Sql.Formatter

/-!
# The formatter numbers from left to right

The formatter gives out numbers while it writes, clause by clause and block by block, and it carries
what it has given out from one clause to the next. The renderer carries nothing: it leaves slots
open in the text, and `Command.ofTokens` fills them from left to right when the text is complete.
The two come to the same command, or fail with the same error (`ofStatement_eq`, `ofBatch_eq`). This
is where it matters that each clause is written in its place in the text: a formatter that wrote one
clause ahead of another would give out other numbers.

`write` fills the slots of a text from a given formatter. A part of the formatter fills what a part
of the renderer leaves open when it writes the rendered text with its slots filled, and leaves the
formatter that filling them leaves (`Fills`). One lemma says how a part is put together from smaller
ones (`Fills.bind`); with it each part of the formatter fills the part of the renderer that has its
name, up to whole statements (`statement_fills`).

The alias that is named bare is part of the formatter's memory. It is set for the outer ordering of
a block and reset after it (`orderClause_fills`), so it is clear wherever a query begins.
-/

namespace QueryTree

open Attempt

namespace Formatter

variable {d : Dialect}

/-! ### Filling slots -/

/-- Fill one token. -/
def writeToken (d : Dialect) (f : Formatter) : Token → String × Formatter
  | .text s => (s, f)
  | .slot (.constant value type) => f.enterConstant d value type
  | .slot (.named name type) => f.enterNamed d name type

/-- Fill the slots of a text from left to right, beginning with what the formatter has entered. -/
def write (d : Dialect) (f : Formatter) : Sql → String × Formatter
  | [] => ("", f)
  | token :: rest =>
    let first := writeToken d f token
    let others := write d first.2 rest
    (first.1 ++ others.1, others.2)

/-- Fill the slots of several texts, one after another. -/
def writeAll (d : Dialect) (f : Formatter) : List Sql → List String × Formatter
  | [] => ([], f)
  | part :: rest =>
    let first := write d f part
    let others := writeAll d first.2 rest
    (first.1 :: others.1, others.2)

@[simp] theorem write_nil (f : Formatter) : write d f [] = ("", f) := rfl

@[simp] theorem write_word (f : Formatter) (s : String) : write d f (Sql.word s) = (s, f) := by
  simp [Sql.word, write, writeToken]

/-- The second of two texts is filled from the formatter that the first one leaves. -/
@[simp] theorem write_append (f : Formatter) (a b : Sql) :
    write d f (a ++ b) =
      ((write d f a).1 ++ (write d (write d f a).2 b).1, (write d (write d f a).2 b).2) := by
  induction a generalizing f with
  | nil => simp
  | cons token a ih => simp [write, ih, String.append_assoc]

/-- Parentheses are written around, and change nothing of the state. -/
@[simp] theorem write_parenthesized (f : Formatter) (s : Sql) :
    write d f (Sql.parenthesized s) = ("(" ++ (write d f s).1 ++ ")", (write d f s).2) := by
  simp [Sql.parenthesized, String.append_assoc]

@[simp] theorem writeAll_nil (f : Formatter) : writeAll d f [] = ([], f) := rfl

@[simp] theorem writeAll_cons (f : Formatter) (part : Sql) (rest : List Sql) :
    writeAll d f (part :: rest) =
      ((write d f part).1 :: (writeAll d (write d f part).2 rest).1,
        (writeAll d (write d f part).2 rest).2) := rfl

/-- Parts are written one after the other, each in the state that the one before has left. -/
@[simp] theorem writeAll_append (f : Formatter) (as bs : List Sql) :
    writeAll d f (as ++ bs) =
      ((writeAll d f as).1 ++ (writeAll d (writeAll d f as).2 bs).1,
        (writeAll d (writeAll d f as).2 bs).2) := by
  induction as generalizing f with
  | nil => simp
  | cons a as ih => simp [ih]

/-- Separated parts are filled one after another, and the separator has no slots. -/
@[simp] theorem write_separated (f : Formatter) (separator : String) (parts : List Sql) :
    write d f (Sql.separated separator parts) =
      (separator.intercalate (writeAll d f parts).1, (writeAll d f parts).2) := by
  induction parts generalizing f with
  | nil => simp [Sql.separated]
  | cons part rest ih =>
    cases rest with
    | nil => simp [Sql.separated]
    | cons next rest =>
      rw [Sql.separated, write_append, write_append, ih]
      · simp [String.intercalate_cons_cons]
      · simp

/-! ### The bare alias while slots are filled -/

@[simp] theorem bareAlias_withBare (bare : Option String) (f : Formatter) :
    (f.withBare bare).bareAlias = bare := rfl

@[simp] theorem withBare_withBare (bare bare' : Option String) (f : Formatter) :
    (f.withBare bare).withBare bare' = f.withBare bare' := rfl

/-- A state is left by naming what it names already. -/
theorem withBare_self {bare : Option String} {f : Formatter} (h : f.bareAlias = bare) :
    f.withBare bare = f := by
  subst h
  rfl

/-- Filling a token neither reads nor changes the alias that is named bare. -/
theorem writeToken_withBare (bare : Option String) (f : Formatter) (token : Token) :
    writeToken d (f.withBare bare) token =
      ((writeToken d f token).1, (writeToken d f token).2.withBare bare) := by
  cases token with
  | text s => rfl
  | slot s =>
    cases s with
    | constant value type => rfl
    | named name type =>
      simp only [writeToken, enterNamed, withBare]
      split <;> rfl

/-- What is bare has no influence on tokens, which are written as they stand. -/
theorem write_withBare (bare : Option String) (f : Formatter) (ts : Sql) :
    write d (f.withBare bare) ts = ((write d f ts).1, (write d f ts).2.withBare bare) := by
  induction ts generalizing f with
  | nil => rfl
  | cons token ts ih => simp [write, writeToken_withBare, ih]

/-- Nor has it on parts. -/
theorem writeAll_withBare (bare : Option String) (f : Formatter) (parts : List Sql) :
    writeAll d (f.withBare bare) parts =
      ((writeAll d f parts).1, (writeAll d f parts).2.withBare bare) := by
  induction parts generalizing f with
  | nil => rfl
  | cons part parts ih => simp [write_withBare, ih]

/-- Writing does not change what is bare. -/
@[simp] theorem bareAlias_write (f : Formatter) (ts : Sql) :
    (write d f ts).2.bareAlias = f.bareAlias := by
  have h := write_withBare (d := d) f.bareAlias f ts
  rw [withBare_self rfl] at h
  rw [h]
  rfl

/-- Nor does writing parts. -/
@[simp] theorem bareAlias_writeAll (f : Formatter) (parts : List Sql) :
    (writeAll d f parts).2.bareAlias = f.bareAlias := by
  induction parts generalizing f with
  | nil => rfl
  | cons part parts ih => simp [ih]

/-! ### Filling what is rendered -/

/-- From every formatter with this alias named bare, `m` gives what `r` gives with its slots filled
by `fill`, and fails where `r` fails. -/
def Fills {α β : Type} (fill : Formatter → β → α × Formatter) (bare : Option String)
    (m : Format α) (r : Except QueryError β) : Prop :=
  ∀ f : Formatter, f.bareAlias = bare → m.run f = fill f <$> r

section Fills

variable {α β γ δ : Type} {fill : Formatter → β → α × Formatter} {bare : Option String}
  {m : Format α} {r : Except QueryError β}

/-- A part that comes first is written from the formatter at hand, and the rest from the formatter
that it leaves. -/
theorem Fills.bind (h : Fills fill bare m r) {f : Formatter} (hf : f.bareAlias = bare)
    {k : α → Format γ} {k' : β → Except QueryError δ} {g : δ → γ × Formatter}
    (hk : ∀ b, (k (fill f b).1).run (fill f b).2 = g <$> k' b) :
    (m >>= k).run f = g <$> (r >>= k') := by
  rw [StateT.run_bind, h f hf]
  cases r with
  | error e => rfl
  | ok b => exact hk b

/-- A computation that writes nothing follows the empty rendering. -/
theorem fills_pure {a : α} {b : β} (h : ∀ f : Formatter, fill f b = (a, f)) :
    Fills fill bare (pure a) (.ok b) := by
  intro f _
  exact congrArg Except.ok (h f).symm

/-- A failure follows the same failure. -/
theorem fills_throw (e : QueryError) : Fills fill bare (throw e) (.error e) := by
  intro f _
  rfl

/-- A part that is written with another alias named bare leaves the alias as it was. -/
theorem Fills.naming {m : Format (List String)} {r : Except QueryError (List Sql)}
    (h : Fills (writeAll d) bare m r) (bare' : Option String) :
    Fills (writeAll d) bare' (naming bare m) r := by
  intro f hf
  unfold Formatter.naming
  rw [StateT.run_bind, StateT.run_get, pure_bind, StateT.run_bind, StateT.run_modify, pure_bind]
  rw [← bind_pure r]
  apply h.bind rfl
  intro parts
  rw [StateT.run_bind, StateT.run_modify, pure_bind, StateT.run_pure, writeAll_withBare,
    withBare_withBare, withBare_self (bareAlias_writeAll f parts)]
  rfl

/-- Parts of a list are written one after another. -/
theorem fills_mapM {ι : Type} {l : List ι} {m : ι → Format String} {r : ι → Except QueryError Sql}
    (h : ∀ i ∈ l, Fills (write d) bare (m i) (r i)) :
    Fills (writeAll d) bare (l.mapM m) (l.mapM r) := by
  induction l with
  | nil =>
    intro f _
    rfl
  | cons i l ih =>
    obtain ⟨hi, hl⟩ := List.forall_mem_cons.1 h
    intro f hf
    rw [List.mapM_cons, List.mapM_cons]
    apply hi.bind hf
    intro part
    apply (ih hl).bind
    · rw [bareAlias_write, hf]
    · intro parts
      rfl

end Fills

/-! ### Scalars -/

variable {bare : Option String}

/-- A constant is written as its text, or entered under the next number. -/
theorem literal_fills (value : Value) (type : LogicalType) :
    Fills (write d) bare (literal d value type) (Sql.literal value type) := by
  have hslot : Fills (write d) bare (modifyGet (enterConstant d value type))
      (.ok [.slot (.constant value type)]) := by
    intro f _
    simp [write, writeToken]
  cases value with
  | null | bool | int => exact fills_pure fun f => write_word f _
  | float x =>
    by_cases hx : x.isFinite = true
    · simp only [literal, Sql.literal, hx, if_true]
      exact fills_pure fun f => write_word f _
    · simp only [literal, Sql.literal, hx]
      exact hslot
  | text | bytes | date | time | dateTime => exact hslot
  | record | list | rows | source | provider => exact fills_throw _

/-- An operand is put in parentheses before or after it is written. -/
@[simp] theorem write_operand (f : Formatter) (e : Expr) (s : Sql) :
    write d f (Sql.operand e s) = (operand e (write d f s).1, (write d f s).2) := by
  cases e <;> simp [Sql.operand, operand]

/-- An operator is put to its operand before or after it is written. -/
@[simp] theorem write_unaryText (f : Formatter) (op : UnaryOperator) (s : Sql) :
    write d f (Sql.unaryText op s) = (unary op (write d f s).1, (write d f s).2) := by
  cases op <;> simp [Sql.unaryText, unary]

/-- Arguments are formatted one after the other. -/
theorem scalars_eq (es : List Expr) : scalars d es = es.mapM (scalar d) := by
  induction es with
  | nil => rfl
  | cons e es ih => rw [scalars, ih, List.mapM_cons]

/-- A scalar is written as it is rendered, its operands and arguments from left to right. By
induction on the expression. Each part is written behind the text that the ones before have left,
and all that the rendering depends on, the alias in scope, stays the same. -/
theorem scalar_fills (e : Expr) :
    Fills (write d) bare (scalar d e) (Sql.scalar d bare e) := by
  induction e using Expr.treeInduction with
  | const value type => exact literal_fills value type
  | param name type =>
    intro f _
    simp [scalar, Sql.scalar, write, writeToken]
  | column qualifier name t =>
    intro f hf
    simp [scalar, Sql.scalar, hf]
  | binary op l r t ihl ihr =>
    intro f hf
    unfold scalar Sql.scalar
    apply ihl.bind hf
    intro left
    apply ihr.bind (by rw [bareAlias_write, hf])
    intro right
    simp [String.append_assoc]
  | unary op e t ih =>
    intro f hf
    unfold scalar Sql.scalar
    apply ih.bind hf
    intro inner
    simp
  | call name es t ih =>
    intro f hf
    unfold scalar Sql.scalar
    rw [scalars_eq, Sql.scalars_eq]
    apply (fills_mapM ih).bind hf
    intro parts
    simp [String.append_assoc]
  | aggregate function arg distinct t ih =>
    have harg : Fills (write d) bare (scalarOption d arg) (Sql.scalarOption d bare arg) := by
      cases arg with
      | none => exact fills_pure fun f => write_word f _
      | some e => exact ih e rfl
    intro f hf
    by_cases hrefused : (distinct && !d.distinctInAggregates) = true
    · simp only [scalar, Sql.scalar, hrefused, if_true]
      rfl
    · simp only [scalar, Sql.scalar, hrefused]
      apply harg.bind hf
      intro inner
      simp [String.append_assoc]
  | _ => exact fills_throw _

/-! ### Clauses -/

/-- A column follows its expression, with its name after it. -/
theorem columnDecl_fills (c : Column) :
    Fills (write d) none (columnDecl d c) (Sql.columnDecl d c) := by
  obtain ⟨name, e⟩ := c
  intro f hf
  apply (scalar_fills e).bind hf
  intro rendered
  cases e with
  | column qualifier n t => by_cases hn : n = name <;> simp [hn, String.append_assoc]
  | _ => simp [String.append_assoc]

/-- The head of a block follows the list of columns. -/
theorem selectClause_fills (p : Option Projection) :
    Fills (write d) none (selectClause d p) (Sql.selectClause d p) := by
  cases p with
  | none => exact fills_pure fun f => write_word f _
  | some p =>
    intro f hf
    apply (fills_mapM fun c _ => columnDecl_fills c).bind hf
    intro columns
    simp

/-- Conditions follow one another, from the innermost to the outermost. -/
theorem whereClause_fills (filters : List Expr) :
    Fills (writeAll d) none (whereClause d filters) (Sql.whereClause d filters) := by
  have hparts : Fills (writeAll d) none
      (filters.reverse.mapM fun e => return operand e (← scalar d e))
      (filters.reverse.mapM fun e => return Sql.operand e (← Sql.scalar d none e)) := by
    apply fills_mapM
    intro e _ f hf
    apply (scalar_fills e).bind hf
    intro rendered
    simp
  cases filters with
  | nil => exact fills_pure fun f => rfl
  | cons e rest =>
    intro f hf
    cases rest with
    | nil =>
      apply (scalar_fills e).bind hf
      intro rendered
      simp
    | cons _ _ =>
      apply hparts.bind hf
      intro parts
      simp

/-- The grouping clause follows the grouping keys. -/
theorem groupClause_fills (p : Option Projection) :
    Fills (writeAll d) none (groupClause d p) (Sql.groupClause d p) := by
  cases p with
  | none => exact fills_pure fun f => rfl
  | some p =>
    by_cases hempty : p.groupBy.isEmpty = true
    · simp only [groupClause, Sql.groupClause, hempty, if_true]
      exact fills_pure fun f => rfl
    · simp only [groupClause, Sql.groupClause, hempty, scalars_eq, Sql.scalars_eq]
      intro f hf
      apply (fills_mapM fun e _ => scalar_fills e).bind hf
      intro parts
      simp

/-- An ordering key follows its expression, with columns of the bare alias unqualified. -/
theorem orderKey_fills (k : OrderKey) :
    Fills (write d) bare (orderKey d k) (Sql.orderKey d bare k) := by
  obtain ⟨e, direction⟩ := k
  intro f hf
  apply (scalar_fills e).bind hf
  intro rendered
  cases direction <;> simp

/-- An ordering without keys is not written. -/
theorem writeAll_keys (f : Formatter) (keyword : String) (keys : List Sql) :
    writeAll d f (if keys.isEmpty then [] else [Sql.word keyword ++ Sql.separated ", " keys]) =
      (if (writeAll d f keys).1.isEmpty then []
        else [keyword ++ ", ".intercalate (writeAll d f keys).1], (writeAll d f keys).2) := by
  cases keys <;> simp

/-- The outer keys are written with the alias of the projection named bare, and the inner ones as
the rest of the block. -/
theorem orderClause_fills (b : Block) :
    Fills (writeAll d) none (orderClause d b) (Sql.orderClause d b) := by
  have houter : Fills (writeAll d) (b.projection.map (·.qualifier))
      (b.outerOrder.mapM (orderKey d))
      (b.outerOrder.mapM (Sql.orderKey d (b.projection.map (·.qualifier)))) :=
    fills_mapM fun k _ => orderKey_fills k
  have hinner : Fills (writeAll d) none (b.innerOrder.mapM (orderKey d))
      (b.innerOrder.mapM (Sql.orderKey d none)) := fills_mapM fun k _ => orderKey_fills k
  intro f hf
  apply (houter.naming none).bind hf
  intro outer
  apply hinner.bind (by rw [bareAlias_writeAll, hf])
  intro inner
  refine congrArg Except.ok ?_
  rw [writeAll_keys, writeAll_append]

/-- A count follows its expression, or is not there. -/
theorem countClause_fills (keyword : String) (o : Option Expr) :
    Fills (writeAll d) none (countClause d keyword o) (Sql.countClause d keyword o) := by
  cases o with
  | none => exact fills_pure fun f => rfl
  | some e =>
    intro f hf
    apply (scalar_fills e).bind hf
    intro rendered
    simp

/-- The limits of a block follow the window that is written. -/
theorem limitClause_fills (b : Block) :
    Fills (writeAll d) none (limitClause d b) (Sql.limitClause d b) := by
  unfold limitClause Sql.limitClause
  cases b.outerLimit.or b.innerLimit with
  | none => exact fills_pure fun f => writeAll_nil f
  | some w =>
    intro f hf
    apply (countClause_fills _ w.take).bind hf
    intro take
    apply (countClause_fills _ w.skip).bind (by rw [bareAlias_writeAll, hf])
    intro skip
    simp

/-- A SELECT is written clause by clause in the order of the text. -/
theorem block_fills (b : Block) {source : Format String} {rendered : Except QueryError Sql}
    (hsource : Fills (write d) none source rendered) :
    Fills (write d) none (block d b source) (Sql.select d b rendered) := by
  intro f hf
  apply (selectClause_fills b.projection).bind hf
  intro columns
  apply hsource.bind (by simp [hf])
  intro item
  apply (whereClause_fills b.filters).bind (by simp [hf])
  intro filters
  apply (groupClause_fills b.projection).bind (by simp [hf])
  intro groups
  apply (orderClause_fills b).bind (by simp [hf])
  intro keys
  apply (limitClause_fills b).bind (by simp [hf])
  intro limit
  simp

/-! ### Queries -/

/-- A table enters nothing. -/
theorem scanItem_fills (source : Expr) (qualifier : String) :
    Fills (write d) none (scanItem d source qualifier) (Sql.scanItem d source qualifier) := by
  cases source with
  | const value t =>
    cases value with
    | source s => exact fills_pure fun f => write_word f _
    | _ => exact fills_throw _
  | _ => exact fills_throw _

/-- The condition of a cross join is not written. -/
theorem joinCondition_fills (kind : JoinKind) (on : Option Expr) :
    Fills (write d) none (joinCondition d kind on) (Sql.joinCondition d kind on) := by
  cases on with
  | none => cases kind <;> exact fills_pure fun f => write_nil f
  | some e =>
    cases kind with
    | cross => exact fills_pure fun f => write_nil f
    | _ =>
      intro f hf
      apply (scalar_fills e).bind hf
      intro rendered
      simp

/-- A branch is put in parentheses before or after it is written. -/
@[simp] theorem write_branch (f : Formatter) (e : Expr) (s : Sql) :
    write d f (Sql.branch e s) = (branch e (write d f s).1, (write d f s).2) := by
  unfold Sql.branch branch
  by_cases h : Sql.needsParentheses e = true
  · simp [h]
  · simp [h]

/-! The formatter calls itself on the trees on which the renderer does, so its equations are those of
the renderer. -/

/-- A tree over a set operation is formatted branch by branch. -/
theorem query_of_setParts {e : Expr} {s : Block.SetParts}
    (h : (Block.split e).setParts? = some s) :
    query d e = (do
      let l ← query d s.left
      let r ← query d s.right
      pure (branch s.left l ++ Sql.setText s.op s.all ++ branch s.right r)) := by
  rw [query]
  split
  next s' hs' =>
    obtain rfl : s' = s := Option.some.inj (hs'.symm.trans h)
    rfl
  next hnone => cases hnone.symm.trans h

/-- Any other tree is formatted as a block. -/
theorem query_of_block {e : Expr} (h : (Block.split e).setParts? = none) :
    query d e = block d (Block.split e) (fromItem d (Block.split e).source) := by
  rw [query]
  split
  next s hs => cases hs.symm.trans h
  next => rfl

section Derived

variable {e : Expr} (hscan : ∀ source qualifier t, e = .scan source qualifier t → False)
  (hjoin : ∀ kind left right on, e = .join kind left right on → False)

include hscan hjoin

/-- A subquery without an alias cannot be formatted. -/
theorem fromItem_of_noAlias (h : Sql.subqueryAlias? e = none) :
    fromItem d e = throw (.unsupported e.kind "subquery has no single alias") := by
  rw [fromItem]
  · split
    next => rfl
    next qualifier hq => cases hq.symm.trans h
  · exact hscan
  · exact hjoin

/-- A subquery is its query in parentheses, with the alias after it. -/
theorem fromItem_of_alias {qualifier : String} (h : Sql.subqueryAlias? e = some qualifier) :
    fromItem d e = (do
      let sql ← query d e
      pure ("(" ++ sql ++ ")" ++ (" AS " ++ qualifier))) := by
  rw [fromItem]
  · split
    next hnone => cases hnone.symm.trans h
    next q hq =>
      obtain rfl : q = qualifier := Option.some.inj (hq.symm.trans h)
      rfl
  · exact hscan
  · exact hjoin

end Derived

/-- Queries and from-items are written as they are rendered: the left branch of a set operation
before the right one, the sides of a join before its condition. -/
theorem query_fromItem_fills :
    (∀ e : Expr, Fills (write d) none (query d e) (Sql.query d e)) ∧
      ∀ e : Expr, Fills (write d) none (fromItem d e) (Sql.fromItem d e) := by
  -- the induction follows the calls of the two functions on each other
  apply Sql.query.mutual_induct
  case case1 =>
    intro e s hs ihl ihr f hf
    rw [query_of_setParts hs, Sql.query_of_setParts hs]
    apply ihl.bind hf
    intro l
    apply ihr.bind (by simp [hf])
    intro r
    simp [String.append_assoc]
  case case2 =>
    intro e hs ih
    rw [query_of_block hs, Sql.query_of_block hs]
    exact block_fills _ ih
  case case3 =>
    intro source qualifier t
    rw [fromItem, Sql.fromItem]
    exact scanItem_fills source qualifier
  case case4 =>
    intro kind left right on ihl ihr f hf
    rw [fromItem, Sql.fromItem]
    apply ihl.bind hf
    intro l
    apply ihr.bind (by simp [hf])
    intro r
    apply (joinCondition_fills kind on).bind (by simp [hf])
    intro condition
    simp [String.append_assoc]
  case case5 =>
    intro e hscan hjoin halias
    rw [fromItem_of_noAlias hscan hjoin halias, Sql.fromItem_of_noAlias hscan hjoin halias]
    exact fills_throw _
  case case6 =>
    intro e hscan hjoin qualifier halias ih f hf
    rw [fromItem_of_alias hscan hjoin halias, Sql.fromItem_of_alias hscan hjoin halias]
    apply ih.bind hf
    intro sql
    simp [String.append_assoc]

/-- A statement is written as it is rendered. -/
theorem statement_fills (e : Expr) :
    Fills (write d) none (statement d e) (Sql.statement d e) := by
  induction e using Expr.treeInduction with
  | lambda ps body ih => exact ih
  | scan | filter | project | order | limit | join | setOp => exact query_fromItem_fills.1 _
  | _ => exact fills_throw _

/-! ### Numbers -/

/-- The constants are counted as they are entered. -/
def Counts (f : Formatter) : Prop :=
  f.constantCount = f.parameters.countP (·.value.isSome)

/-- Writing a token counts the constants that it enters. -/
theorem Counts.writeToken {f : Formatter} (h : f.Counts) (token : Token) :
    (writeToken d f token).2.Counts := by
  cases token with
  | text s => exact h
  | slot s =>
    cases s with
    | constant value type =>
      have hcount : f.constantCount = f.parameters.countP (·.value.isSome) := h
      simp [Formatter.writeToken, enterConstant, Counts, List.countP_append, hcount]
    | named name type =>
      cases hposition : Command.position? f.parameters name with
      | some i => simpa [Formatter.writeToken, enterNamed, hposition] using h
      | none =>
        simpa [Formatter.writeToken, enterNamed, hposition, Counts, List.countP_append] using h

/-- Filling one token from a formatter is writing it at the end of the command. -/
theorem push_eq_writeToken {f : Formatter} (h : f.Counts) (sql : String) (token : Token) :
    Command.push d ⟨sql, f.parameters⟩ token =
      ⟨sql ++ (writeToken d f token).1, (writeToken d f token).2.parameters⟩ := by
  cases token with
  | text s => rfl
  | slot s =>
    cases s with
    | constant value type =>
      simp only [Command.push, Formatter.writeToken, enterConstant, Command.constantName]
      rw [h]
    | named name type =>
      cases hposition : Command.position? f.parameters name <;>
        simp [Command.push, Formatter.writeToken, enterNamed, hposition]

/-- Filling the slots of a text from a formatter is numbering them from left to right. -/
theorem foldl_push_eq_write {f : Formatter} (h : f.Counts) (sql : String) (ts : Sql) :
    ts.foldl (Command.push d) ⟨sql, f.parameters⟩ =
      ⟨sql ++ (write d f ts).1, (write d f ts).2.parameters⟩ := by
  induction ts generalizing f sql with
  | nil => simp
  | cons token ts ih =>
    rw [List.foldl_cons, push_eq_writeToken h, ih (h.writeToken token)]
    simp [write, String.append_assoc]

/-- From a formatter that has entered nothing, filling the slots of a text gives its command. -/
theorem ofTokens_eq_write (ts : Sql) :
    Command.ofTokens d ts = ⟨(write d {} ts).1, (write d {} ts).2.parameters⟩ := by
  have h := foldl_push_eq_write (d := d) (f := {}) rfl "" ts
  rwa [String.empty_append] at h

end Formatter

namespace Command

variable {d : Dialect}

/-- The command of a statement is what is rendered, its slots numbered from left to right. -/
theorem ofStatement_eq (e : Expr) : ofStatement d e = ofTokens d <$> Sql.statement d e := by
  unfold ofStatement
  rw [Formatter.statement_fills e {} rfl]
  cases Sql.statement d e with
  | error error => rfl
  | ok ts => exact congrArg Except.ok (Formatter.ofTokens_eq_write ts).symm

/-- The command of several statements is what is rendered of them, numbered through. -/
theorem ofStatements_eq (es : List Expr) :
    ofStatements d es =
      (fun statements => ofTokens d (Sql.separated ";\n" statements)) <$>
        es.mapM (Sql.statement d) := by
  have hstatements := Formatter.fills_mapM fun e (_ : e ∈ es) => Formatter.statement_fills (d := d) e
  unfold ofStatements
  rw [hstatements {} rfl]
  cases es.mapM (Sql.statement d) with
  | error error => rfl
  | ok statements =>
    refine congrArg Except.ok ?_
    show _ = ofTokens d (Sql.separated ";\n" statements)
    rw [Formatter.ofTokens_eq_write, Formatter.write_separated]

/-- The command of a query over one table. -/
theorem ofStatement_over_table {e source : Expr} {qualifier : String} {t : LogicalType}
    (hquery : Sql.statement d e = Sql.query d e) (hparts : (Block.split e).setParts? = none)
    (hsource : (Block.split e).source = .scan source qualifier t) :
    ofStatement d e = ofTokens d <$>
      Sql.select d (Block.split e) (Sql.scanItem d source qualifier) := by
  rw [ofStatement_eq, hquery, Sql.query_over_table hparts hsource]

end Command

end QueryTree
