import QueryTree.Proofs.Rebuild
import QueryTree.Proofs.Rendering

/-!
# Statements with other leaves

What a constant or a parameter becomes in a statement is decided at that leaf. So if the leaves of a
tree are exchanged for other leaves, the renderer does what it did before, and returns the same
tokens but for those of the leaves (`statement_follows`). Where it fails, it fails on both trees;
how the two failures are related is left open here (`Follows`).

`LeafChange` says what it takes: other nodes stay as they are, and each leaf by itself is rendered
as it should be.
-/

namespace QueryTree

/-! ### Outcomes -/

namespace Attempt

variable {ε α β γ δ : Type} {E : ε → ε → Prop}

/-- The second computation returns what the first does, changed by `f`, or both fail, with related
failures. -/
inductive Follows (E : ε → ε → Prop) (f : α → β) : Except ε α → Except ε β → Prop
  | ok (a : α) : Follows E f (.ok a) (.ok (f a))
  | error {e e' : ε} : E e e' → Follows E f (.error e) (.error e')

/-- A value follows the value that it is the image of. -/
theorem follows_pure {f : α → β} {a : α} {b : β} (h : b = f a) :
    Follows E f (pure a) (pure b) := h ▸ .ok a

/-- Computations that follow one another step by step do so in sequence. -/
theorem Follows.bind {f : α → β} {g : γ → δ} {x : Except ε α} {y : Except ε β}
    {k : α → Except ε γ} {k' : β → Except ε δ} (h : Follows E f x y)
    (hk : ∀ a, Follows E g (k a) (k' (f a))) : Follows E g (x >>= k) (y >>= k') := by
  cases h with
  | ok a => exact hk a
  | error h => exact .error h

/-- Loops follow one another if their steps do. -/
theorem Follows.mapM {l : List α} {m : α → β} {f : γ → δ} {k : α → Except ε γ}
    {k' : β → Except ε δ} (h : ∀ a ∈ l, Follows E f (k a) (k' (m a))) :
    Follows E (List.map f) (l.mapM k) ((l.map m).mapM k') := by
  induction l with
  | nil => exact .ok []
  | cons a l ih =>
    obtain ⟨ha, hl⟩ := List.forall_mem_cons.1 h
    rw [List.map_cons, List.mapM_cons, List.mapM_cons]
    refine ha.bind fun b => (ih hl).bind fun bs => follows_pure rfl

/-- What follows a success succeeds, with the image. -/
theorem Follows.eq_ok {f : α → β} {x : Except ε α} {y : Except ε β} (h : Follows E f x y) {a : α}
    (hx : x = .ok a) : y = .ok (f a) := by
  subst hx
  cases h
  rfl

/-- Computing the image afterwards is one way to follow. -/
theorem follows_of_eq_map {f : α → β} {x : Except ε α} {y : Except ε β} (h : y = f <$> x) :
    Follows Eq f x y := by
  subst h
  cases x with
  | ok a => exact .ok a
  | error e => exact .error rfl

/-- If errors stay the same, following is computing the image. -/
theorem Follows.eq_map {f : α → β} {x : Except ε α} {y : Except ε β} (h : Follows Eq f x y) :
    y = f <$> x := by
  cases h with
  | ok a => rfl
  | error h => exact congrArg _ h.symm

end Attempt

/-! ### Leaves -/

/-- A constant or a parameter. -/
def Expr.isLeaf : Expr → Bool
  | .const .. | .param .. => true
  | _ => false

open Attempt

/-- The trees change at their leaves, and each leaf is rendered accordingly. -/
structure LeafChange (d : Dialect) (E : QueryError → QueryError → Prop) (m : Expr → Expr)
    (f : Token → Token) : Prop where
  text : ∀ s, f (.text s) = .text s
  inner : ∀ e, e.isLeaf = false → m e = e.mapChildren m
  leaf : ∀ e, e.isLeaf = true → (m e).isLeaf = true
  scalar : ∀ e bare, e.isLeaf = true →
    Follows E (List.map f) (Sql.scalar d bare e) (Sql.scalar d bare (m e))
  scanItem : ∀ e qualifier, e.isLeaf = true →
    Follows E (List.map f) (Sql.scanItem d e qualifier) (Sql.scanItem d (m e) qualifier)
  same : ∀ error, E error error
  kind : ∀ e detail, E (.unsupported (Expr.kind e) detail) (.unsupported (m e).kind detail)

variable {d : Dialect} {E : QueryError → QueryError → Prop} {m : Expr → Expr} {f : Token → Token}

/-! ### Blocks -/

/-- A window with its bounds changed. -/
def Window.map (m : Expr → Expr) (w : Window) : Window := ⟨w.take.map m, w.skip.map m⟩

/-- A projection with its expressions changed. -/
def Projection.map (m : Expr → Expr) (p : Projection) : Projection :=
  ⟨p.qualifier, p.columns.map (·.map m), p.distinct, p.groupBy.map m⟩

namespace Block

/-- A block with its expressions changed. -/
def map (m : Expr → Expr) (b : Block) : Block where
  outerLimit := b.outerLimit.map (·.map m)
  outerOrder := b.outerOrder.map (·.map m)
  projection := b.projection.map (·.map m)
  innerLimit := b.innerLimit.map (·.map m)
  innerOrder := b.innerOrder.map (·.map m)
  filters := b.filters.map m
  source := m b.source

/-- A set operation with its branches changed. -/
def SetParts.map (m : Expr → Expr) (s : SetParts) : SetParts := ⟨s.op, s.all, m s.left, m s.right⟩

/-- Whether an inner limit is allowed does not depend on the leaves. -/
theorem allowsInnerLimit_map (b : Block) : (b.map m).allowsInnerLimit = b.allowsInnerLimit := by
  cases hp : b.projection <;> simp [allowsInnerLimit, map, hp, Projection.map]

/-- Whether a block is bare does not depend on the leaves. -/
theorem isBare_map (b : Block) : (b.map m).isBare = b.isBare := by
  simp [isBare, map]

/-- What is no clause becomes the source of the block. -/
theorem absorb_of_not_isClause {e : Expr} (he : isClause e = false) (stage : Nat) (b : Block) :
    absorb stage b e = { b with source := e } := by
  cases e with
  | limit | order | project | filter => cases he
  | _ => rfl

end Block

namespace LeafChange

variable (h : LeafChange d E m f)

include h

/-- What is seen at the root of a tree stays, if leaves do not differ in it. -/
theorem root_eq {α : Type} {p : Expr → α} (a : α) (hleaf : ∀ e, e.isLeaf = true → p e = a)
    (hinner : ∀ e : Expr, e.isLeaf = false → p (e.mapChildren m) = p e) (e : Expr) :
    p (m e) = p e := by
  cases he : e.isLeaf with
  | true => rw [hleaf e he, hleaf (m e) (h.leaf e he)]
  | false => rw [h.inner e he, hinner e he]

/-- A clause stays a clause of its kind. -/
theorem isClause_map (e : Expr) : Block.isClause (m e) = Block.isClause e := by
  refine h.root_eq false (fun e he => ?_) (fun e _ => ?_) e
  · cases e <;> first | rfl | cases he
  · cases e <;> rfl

/-- A derived relation stays one. -/
theorem isDerived_map (e : Expr) : Sql.isDerived (m e) = Sql.isDerived e := by
  refine h.root_eq false (fun e he => ?_) (fun e _ => ?_) e
  · cases e <;> first | rfl | cases he
  · cases e <;> rfl

/-- A relation stays a relation. -/
theorem isRelational_map (e : Expr) : (m e).isRelational = e.isRelational := by
  refine h.root_eq false (fun e he => ?_) (fun e _ => ?_) e
  · cases e <;> first | rfl | cases he
  · cases e <;> rfl

/-- A lambda stays a lambda. -/
theorem isLambda_map (e : Expr) : (m e).isLambda = e.isLambda := by
  refine h.root_eq false (fun e he => ?_) (fun e _ => ?_) e
  · cases e <;> first | rfl | cases he
  · cases e <;> rfl

/-- Clauses are taken up alike before and after the change. By induction on the tree. Which clause
is taken up depends on the kind of the node and on the stage, and the change keeps both. -/
theorem absorb_map (stage : Nat) (b : Block) (e : Expr) :
    Block.absorb stage (b.map m) (m e) = (Block.absorb stage b e).map m := by
  induction e using Expr.treeInduction generalizing stage b with
  | limit input take skip ih _ _ =>
    have heq : m (.limit input take skip) = .limit (m input) (take.map m) (skip.map m) := by
      rw [h.inner _ rfl, Expr.mapChildren_limit]
    rw [heq]
    simp only [Block.absorb, Block.allowsInnerLimit_map]
    split_ifs
    · exact ih 1 { b with outerLimit := some ⟨take, skip⟩ }
    · exact ih 4 { b with innerLimit := some ⟨take, skip⟩ }
    · simp [Block.map, heq]
  | order input keys ih _ =>
    have heq : m (.order input keys) = .order (m input) (keys.map (·.map m)) := by
      rw [h.inner _ rfl, Expr.mapChildren_order]
    rw [heq]
    simp only [Block.absorb]
    split_ifs
    · exact ih 2 { b with outerOrder := keys }
    · exact ih 5 { b with innerOrder := keys }
    · simp [Block.map, heq]
  | project qualifier input columns distinct groupBy ih _ _ =>
    have heq : m (.project qualifier input columns distinct groupBy) =
        .project qualifier (m input) (columns.map (·.map m)) distinct (groupBy.map m) := by
      rw [h.inner _ rfl, Expr.mapChildren_project]
    rw [heq]
    simp only [Block.absorb]
    split_ifs
    · exact ih 3 { b with projection := some ⟨qualifier, columns, distinct, groupBy⟩ }
    · simp [Block.map, heq]
  | filter input predicate ih _ =>
    rw [h.inner _ rfl, Expr.mapChildren_filter]
    simp only [Block.absorb]
    rw [← ih 5 { b with filters := b.filters ++ [predicate] }]
    simp [Block.map]
  | _ => exact Block.absorb_of_not_isClause ((h.isClause_map _).trans rfl) stage (b.map m)

/-- A tree is split into a block alike before and after the change. -/
theorem split_map (e : Expr) : Block.split (m e) = (Block.split e).map m :=
  h.absorb_map 0 { source := e } e

/-- What a view of the root shows of other nodes alone, it shows of the changed tree. -/
theorem leaf_cases {e : Expr} (he : e.isLeaf = true) :
    (∃ v t, m e = .const v t) ∨ ∃ n t, m e = .param n t := by
  have hleaf := h.leaf e he
  cases hm : m e with
  | const v t => exact .inl ⟨v, t, rfl⟩
  | param n t => exact .inr ⟨n, t, rfl⟩
  | _ => rw [hm] at hleaf; cases hleaf

/-- The set operation of a block is the same up to its leaves. -/
theorem setParts?_map (b : Block) : (b.map m).setParts? = b.setParts?.map (·.map m) := by
  have hsource : (b.map m).source = m b.source := rfl
  unfold Block.setParts?
  rw [Block.isBare_map, hsource]
  split
  · cases b.source with
    | const v t =>
      rcases h.leaf_cases (e := .const v t) rfl with ⟨_, _, hm⟩ | ⟨_, _, hm⟩ <;> rw [hm] <;> rfl
    | param n t =>
      rcases h.leaf_cases (e := .param n t) rfl with ⟨_, _, hm⟩ | ⟨_, _, hm⟩ <;> rw [hm] <;> rfl
    | _ => rw [h.inner _ rfl]; rfl
  · rfl

end LeafChange

/-! ### Scalars -/

namespace Sql

/-- Keywords do not change. -/
theorem map_word (htext : ∀ s, f (.text s) = .text s) (s : String) :
    (word s).map f = word s := by
  rw [word, List.map_singleton, htext]

/-- A change of tokens goes into separated parts. -/
theorem map_separated (htext : ∀ s, f (.text s) = .text s) (separator : String)
    (parts : List Sql) :
    (separated separator parts).map f = separated separator (parts.map (List.map f)) := by
  induction parts with
  | nil => rfl
  | cons part rest ih =>
    cases rest with
    | nil => rfl
    | cons next rest =>
      simp only [separated, List.map_cons, List.map_append, map_word htext] at ih ⊢
      rw [ih]

/-- A change of tokens goes into parentheses. -/
theorem map_parenthesized (htext : ∀ s, f (.text s) = .text s) (ts : Sql) :
    (parenthesized ts).map f = parenthesized (ts.map f) := by
  simp [parenthesized, map_word htext]

end Sql

namespace LeafChange

open Sql

variable (h : LeafChange d E m f)

include h

/-- Parentheses around an operand depend on its root only. -/
theorem operand_map (e : Expr) (ts : Sql) : operand (m e) (ts.map f) = (operand e ts).map f := by
  have hroot : operand (m e) (ts.map f) = operand e (ts.map f) := by
    refine h.root_eq (p := fun e => operand e (ts.map f)) (ts.map f) (fun e he => ?_)
      (fun e _ => ?_) e
    · cases e <;> first | rfl | cases he
    · cases e <;> rfl
  rw [hroot]
  cases e with
  | binary => exact (map_parenthesized h.text ts).symm
  | _ => rfl

/-- The place of a unary operator does not depend on its operand. -/
theorem unaryText_map (op : UnaryOperator) (ts : Sql) :
    unaryText op (ts.map f) = (unaryText op ts).map f := by
  cases op <;> simp [unaryText, map_word h.text]

/-- A scalar is rendered with the change at its leaves. By induction on the expression: constants
and parameters are where the change is made, and the text around them stays. -/
theorem scalar_follows (bare : Option String) (e : Expr) :
    Follows E (List.map f) (Sql.scalar d bare e) (Sql.scalar d bare (m e)) := by
  induction e using Expr.treeInduction with
  | const v t => exact h.scalar _ bare rfl
  | param n t => exact h.scalar _ bare rfl
  | column a n t =>
    rw [h.inner _ rfl]
    exact follows_pure (map_word h.text _).symm
  | binary op l r t ihl ihr =>
    rw [h.inner _ rfl, Expr.mapChildren_binary]
    refine ihl.bind fun lts => ihr.bind fun rts => follows_pure ?_
    simp [h.operand_map, map_word h.text]
  | unary op e t ih =>
    rw [h.inner _ rfl, Expr.mapChildren_unary]
    refine ih.bind fun inner => follows_pure ?_
    rw [h.operand_map, h.unaryText_map]
  | call n es t ih =>
    rw [h.inner _ rfl, Expr.mapChildren_call]
    simp only [Sql.scalar, scalars_eq]
    refine (Follows.mapM ih).bind fun parts => follows_pure ?_
    simp [map_word h.text, map_separated h.text]
  | aggregate fn a dst t ih =>
    rw [h.inner _ rfl, Expr.mapChildren_aggregate]
    have harg : Follows E (List.map f) (scalarOption d bare a) (scalarOption d bare (a.map m)) := by
      cases a with
      | none => exact follows_pure (map_word h.text _).symm
      | some e => exact ih e rfl
    simp only [Sql.scalar]
    split
    · exact .error (h.same _)
    · refine harg.bind fun inner => follows_pure ?_
      simp [map_word h.text]
  | _ => rw [h.inner _ rfl]; exact .error (h.same _)

/-! ### Clauses -/

/-- A column follows its expression and keeps its name. -/
theorem columnDecl_follows (c : Column) :
    Follows E (List.map f) (columnDecl d c) (columnDecl d (c.map m)) := by
  refine (h.scalar_follows none c.expr).bind fun rendered => ?_
  have hnamed : Follows E (List.map f) (pure (rendered ++ word (" AS " ++ d.quote c.name)))
      (pure (rendered.map f ++ word (" AS " ++ d.quote c.name))) :=
    follows_pure (by simp [map_word h.text])
  rw [ColumnOf.map_expr, ColumnOf.map_name]
  cases c.expr with
  | column a n t =>
    rw [h.inner _ rfl, Expr.mapChildren_column]
    dsimp only
    split_ifs
    · exact follows_pure rfl
    · exact hnamed
  | const v t =>
    rcases h.leaf_cases (e := .const v t) rfl with ⟨_, _, hm⟩ | ⟨_, _, hm⟩ <;> rw [hm] <;>
      exact hnamed
  | param n t =>
    rcases h.leaf_cases (e := .param n t) rfl with ⟨_, _, hm⟩ | ⟨_, _, hm⟩ <;> rw [hm] <;>
      exact hnamed
  | _ => rw [h.inner _ rfl]; exact hnamed

/-- The head of a block follows column by column. -/
theorem selectClause_follows (p : Option Projection) :
    Follows E (List.map f) (selectClause d p) (selectClause d (p.map (·.map m))) := by
  cases p with
  | none => exact follows_pure (map_word h.text _).symm
  | some p =>
    refine (Follows.mapM fun c _ => h.columnDecl_follows c).bind fun columns => follows_pure ?_
    rw [List.map_append, map_word h.text, map_separated h.text]
    rfl

/-- The conditions follow one by one. -/
theorem whereClause_follows (filters : List Expr) :
    Follows E (List.map (List.map f)) (whereClause d filters) (whereClause d (filters.map m)) := by
  match filters with
  | [] => exact .ok []
  | [e] =>
    refine (h.scalar_follows none e).bind fun rendered => follows_pure ?_
    simp [map_word h.text]
  | e :: e' :: rest =>
    have hwalk : Follows E (List.map (List.map f))
        ((e :: e' :: rest).reverse.mapM fun e => return operand e (← Sql.scalar d none e))
        (((e :: e' :: rest).map m).reverse.mapM fun e =>
          return operand e (← Sql.scalar d none e)) := by
      rw [← List.map_reverse]
      refine Follows.mapM fun e _ => ?_
      exact (h.scalar_follows none e).bind fun ts => follows_pure (h.operand_map e ts)
    refine hwalk.bind fun parts => follows_pure ?_
    simp [map_word h.text, map_separated h.text]

/-- The grouping clause follows key by key. -/
theorem groupClause_follows (p : Option Projection) :
    Follows E (List.map (List.map f)) (groupClause d p) (groupClause d (p.map (·.map m))) := by
  cases p with
  | none => exact .ok []
  | some p =>
    simp only [Option.map_some, groupClause, Projection.map, List.isEmpty_map, scalars_eq]
    split
    · exact .ok []
    · refine (Follows.mapM fun e _ => h.scalar_follows none e).bind fun keys => follows_pure ?_
      simp [map_word h.text, map_separated h.text]

/-- An ordering key follows its expression and keeps its direction. -/
theorem orderKey_follows (bare : Option String) (k : OrderKey) :
    Follows E (List.map f) (orderKey d bare k) (orderKey d bare (k.map m)) := by
  refine (h.scalar_follows bare k.expr).bind fun rendered => ?_
  rw [KeyOf.map_direction]
  cases k.direction with
  | ascending => exact follows_pure rfl
  | descending => exact follows_pure (by simp [map_word h.text])

/-- The ordering clause follows key by key. -/
theorem orderClause_follows (b : Block) :
    Follows E (List.map (List.map f)) (orderClause d b) (orderClause d (b.map m)) := by
  have hbare : (b.map m).projection.map (·.qualifier) = b.projection.map (·.qualifier) := by
    simp only [Block.map, Option.map_map]
    rfl
  unfold orderClause
  rw [hbare]
  refine (Follows.mapM fun k _ => h.orderKey_follows _ k).bind fun outer => ?_
  refine (Follows.mapM fun k _ => h.orderKey_follows none k).bind fun inner => follows_pure ?_
  rw [← List.map_append, List.isEmpty_map]
  split
  · rfl
  · simp [map_word h.text, map_separated h.text]

/-- A count follows its expression. -/
theorem countClause_follows (keyword : String) (o : Option Expr) :
    Follows E (List.map (List.map f)) (countClause d keyword o)
      (countClause d keyword (o.map m)) := by
  cases o with
  | none => exact .ok []
  | some e =>
    refine (h.scalar_follows none e).bind fun rendered => follows_pure ?_
    simp [map_word h.text]

/-- The limits follow their bounds. -/
theorem limitClause_follows (b : Block) :
    Follows E (List.map (List.map f)) (limitClause d b) (limitClause d (b.map m)) := by
  have hwindow : (b.map m).outerLimit.or (b.map m).innerLimit =
      (b.outerLimit.or b.innerLimit).map (·.map m) := by
    simp only [Block.map]
    cases b.outerLimit <;> rfl
  unfold limitClause
  rw [hwindow]
  cases b.outerLimit.or b.innerLimit with
  | none => exact .ok []
  | some w =>
    refine (h.countClause_follows _ w.take).bind fun take => ?_
    exact (h.countClause_follows _ w.skip).bind fun skip => follows_pure (by simp)

/-- A whole block follows, once its source does. -/
theorem select_follows (b : Block) {source source' : Except QueryError Sql}
    (hsource : Follows E (List.map f) source source') :
    Follows E (List.map f) (select d b source) (select d (b.map m) source') := by
  refine (h.selectClause_follows b.projection).bind fun columns => ?_
  refine hsource.bind fun item => ?_
  refine (h.whereClause_follows b.filters).bind fun filters => ?_
  refine (h.groupClause_follows b.projection).bind fun groups => ?_
  refine (h.orderClause_follows b).bind fun keys => ?_
  refine (h.limitClause_follows b).bind fun limit => follows_pure ?_
  simp [map_word h.text, map_separated h.text]

/-! ### Queries -/

/-- The condition of a join follows, unless the join is a cross join, which has none. -/
theorem joinCondition_follows (kind : JoinKind) (on : Option Expr) :
    Follows E (List.map f) (joinCondition d kind on) (joinCondition d kind (on.map m)) := by
  cases on with
  | none => cases kind <;> exact .ok []
  | some e =>
    have hon : Follows E (List.map f) (do pure (word " ON " ++ (← Sql.scalar d none e)))
        (do pure (word " ON " ++ (← Sql.scalar d none (m e)))) :=
      (h.scalar_follows none e).bind fun ts => follows_pure (by simp [map_word h.text])
    cases kind with
    | cross => exact .ok []
    | inner | left | right | full => exact hon

/-- A table is rendered as it was. -/
theorem scanItem_follows (source : Expr) (qualifier : String) :
    Follows E (List.map f) (Sql.scanItem d source qualifier)
      (Sql.scanItem d (m source) qualifier) := by
  cases source with
  | const v t => exact h.scanItem _ qualifier rfl
  | param n t => exact h.scanItem _ qualifier rfl
  | _ =>
    rw [h.inner _ rfl]
    exact .error (h.same _)

/-- The alias of a relation stays. -/
theorem relationAlias?_map (e : Expr) : relationAlias? (m e) = relationAlias? e := by
  induction e using Expr.treeInduction with
  | const v t =>
    rcases h.leaf_cases (e := .const v t) rfl with ⟨_, _, hm⟩ | ⟨_, _, hm⟩ <;> rw [hm] <;> rfl
  | param n t =>
    rcases h.leaf_cases (e := .param n t) rfl with ⟨_, _, hm⟩ | ⟨_, _, hm⟩ <;> rw [hm] <;> rfl
  | filter i p ih _ => rw [h.inner _ rfl]; exact ih
  | order i ks ih _ => rw [h.inner _ rfl]; exact ih
  | limit i t s ih _ _ => rw [h.inner _ rfl]; exact ih
  | _ => rw [h.inner _ rfl]; rfl

/-- The alias of a subquery stays. -/
theorem subqueryAlias?_map (e : Expr) : subqueryAlias? (m e) = subqueryAlias? e := by
  rw [subqueryAlias?, subqueryAlias?, h.isDerived_map, h.relationAlias?_map]

/-- Whether a branch needs parentheses depends on its root only. -/
theorem needsParentheses_map (e : Expr) : needsParentheses (m e) = needsParentheses e := by
  refine h.root_eq false (fun e he => ?_) (fun e _ => ?_) e
  · cases e <;> first | rfl | cases he
  · cases e with
    | project a i cs dst gs =>
      have hinput (i : Expr) (cs : List Column) (gs : List Expr) :
          needsParentheses (.project a i cs dst gs) =
            needsParentheses (.project a i [] dst []) := by
        cases i <;> rfl
      rw [Expr.mapChildren_project, hinput (m i), hinput i]
      refine h.root_eq (p := fun i => needsParentheses (.project a i [] dst [])) false
        (fun i hi => ?_) (fun i _ => ?_) i
      · cases i <;> first | rfl | cases hi
      · cases i <;> rfl
    | _ => rfl

/-- The change goes into the parentheses of a branch. -/
theorem branch_map (e : Expr) (ts : Sql) : branch (m e) (ts.map f) = (branch e ts).map f := by
  rw [branch, branch, h.needsParentheses_map]
  split
  · exact (map_parenthesized h.text ts).symm
  · rfl

/-- What is no table does not become one. -/
theorem map_ne_scan {e : Expr} (he : ∀ source qualifier t, e = .scan source qualifier t → False) :
    ∀ source qualifier t, m e = .scan source qualifier t → False := by
  intro source qualifier t heq
  cases hleaf : e.isLeaf with
  | true =>
    have hchanged := h.leaf e hleaf
    rw [heq] at hchanged
    cases hchanged
  | false =>
    rw [h.inner e hleaf] at heq
    cases e <;> first | exact he _ _ _ rfl | cases heq

/-- What is no join does not become one. -/
theorem map_ne_join {e : Expr} (he : ∀ kind left right on, e = .join kind left right on → False) :
    ∀ kind left right on, m e = .join kind left right on → False := by
  intro kind left right on heq
  cases hleaf : e.isLeaf with
  | true =>
    have hchanged := h.leaf e hleaf
    rw [heq] at hchanged
    cases hchanged
  | false =>
    rw [h.inner e hleaf] at heq
    cases e <;> first | exact he _ _ _ _ rfl | cases heq

/-- Queries and from-items of the changed tree are those of the tree, changed. The two are proved at
once, along their calls on each other. -/
theorem query_fromItem_follows :
    (∀ e : Expr, Follows E (List.map f) (query d e) (query d (m e))) ∧
      ∀ e : Expr, Follows E (List.map f) (fromItem d e) (fromItem d (m e)) := by
  -- the induction follows the calls of the two functions on each other
  apply query.mutual_induct
  case case1 =>
    intro e s hs ihl ihr
    have hs' : (Block.split (m e)).setParts? = some (s.map m) := by
      rw [h.split_map, h.setParts?_map, hs]
      rfl
    rw [query_of_setParts hs, query_of_setParts hs']
    refine ihl.bind fun l => ihr.bind fun r => follows_pure ?_
    simp [Block.SetParts.map, h.branch_map, map_word h.text]
  case case2 =>
    intro e hs ih
    have hs' : (Block.split (m e)).setParts? = none := by
      rw [h.split_map, h.setParts?_map, hs]
      rfl
    rw [query_of_block hs, query_of_block hs', h.split_map]
    exact h.select_follows _ ih
  case case3 =>
    intro source qualifier t
    rw [h.inner _ rfl, Expr.mapChildren_scan, fromItem_scan, fromItem_scan]
    exact h.scanItem_follows source qualifier
  case case4 =>
    intro kind left right on ihl ihr
    rw [h.inner _ rfl, Expr.mapChildren_join, fromItem_join, fromItem_join]
    refine ihl.bind fun l => ihr.bind fun r => ?_
    refine (h.joinCondition_follows kind on).bind fun condition => follows_pure ?_
    simp [map_word h.text]
  case case5 =>
    intro e hscan hjoin halias
    rw [fromItem_of_noAlias hscan hjoin halias,
      fromItem_of_noAlias (h.map_ne_scan hscan) (h.map_ne_join hjoin)
        ((h.subqueryAlias?_map e).trans halias)]
    exact .error (h.kind e _)
  case case6 =>
    intro e hscan hjoin qualifier halias ih
    rw [fromItem_of_alias hscan hjoin halias,
      fromItem_of_alias (h.map_ne_scan hscan) (h.map_ne_join hjoin)
        ((h.subqueryAlias?_map e).trans halias)]
    refine ih.bind fun ts => follows_pure ?_
    simp [map_word h.text, map_parenthesized h.text]

omit h in
/-- A relation is rendered as a query. -/
theorem statement_of_isRelational {e : Expr} (he : e.isRelational = true) :
    statement d e = query d e := by
  cases e <;> first | rfl | cases he

omit h in
/-- What gives no rows is refused, with its kind. -/
theorem statement_of_not_isRelational {e : Expr} (he : e.isRelational = false)
    (hlambda : e.isLambda = false) :
    statement d e = .error (.unsupported e.kind "a statement must produce rows") := by
  cases e with
  | lambda => cases hlambda
  | scan | filter | project | order | limit | join | setOp => cases he
  | _ => rfl

/-- The statement of the changed tree is that of the tree, changed. -/
theorem statement_follows (e : Expr) :
    Follows E (List.map f) (statement d e) (statement d (m e)) := by
  induction e using Expr.treeInduction with
  | lambda ps b ih => rw [h.inner _ rfl]; exact ih
  | scan | filter | project | order | limit | join | setOp =>
    rw [statement_of_isRelational rfl, statement_of_isRelational ((h.isRelational_map _).trans rfl)]
    exact h.query_fromItem_follows.1 _
  | _ =>
    rw [statement_of_not_isRelational rfl rfl, statement_of_not_isRelational
      ((h.isRelational_map _).trans rfl) ((h.isLambda_map _).trans rfl)]
    exact .error (h.kind _ _)

end LeafChange

end QueryTree
