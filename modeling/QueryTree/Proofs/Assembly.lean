import QueryTree.Proofs.Formatting
import QueryTree.Proofs.ReadingOrder

/-!
# How a statement is put together

The renderer has few ways to make text. A part of a statement is a value, a placeholder, a sign
before its operand, a part behind an opening word, or two parts with a dividing word between them
(`Assembled`). The words are keywords, or they are made of names of the tree (`Opening`, `Divider`).

Every statement is put together like this, out of what its tree contributes in reading order
(`query_fromItem_assembled`, `statement_assembled`), and so is every command
(`Command.Formats.assembled`). What holds of all statements can then be shown by induction over the
five ways, with no look at clauses, blocks and queries.
-/

namespace QueryTree

namespace Expr

/-- The names at the root of a tree that its statement has in its text. -/
def labels : Expr → List String
  | column qualifier name _ => [qualifier, name]
  | call function _ _ => [function]
  | const (.source s) _ => [s.table]
  | scan _ qualifier _ | setOp _ _ _ _ qualifier => [qualifier]
  | project qualifier _ columns _ _ => qualifier :: columns.map (·.name)
  | _ => []

/-- The property holds of every node of the tree. -/
def All (Q : Expr → Prop) (e : Expr) : Prop := ∀ n ∈ e.nodes, Q n

/-- The name stands at a node with the property. -/
def IsLabel (Q : Expr → Prop) (name : String) : Prop := ∃ n, Q n ∧ name ∈ n.labels

section All

variable {Q : Expr → Prop} {e : Expr}

/-- What holds of all nodes holds of the root. -/
theorem All.root (h : e.All Q) : Q e := h e e.mem_nodes_self

/-- What holds of all nodes holds of those of a subtree. -/
theorem All.child (h : e.All Q) {c : Expr} (hc : c ∈ e.children) : c.All Q :=
  (forall_mem_nodes_iff.1 h).2 c hc

/-- The names that a node has are labels under what holds of all nodes. -/
theorem All.label (h : e.All Q) {name : String} (hname : name ∈ e.labels) : IsLabel Q name :=
  ⟨e, h.root, hname⟩

end All

end Expr

/-! ### Blocks -/

namespace Block

/-- The clauses of a block are made of nodes with the property. -/
structure All (Q : Expr → Prop) (b : Block) : Prop where
  columns : ∀ p ∈ b.projection, ∀ c ∈ p.columns, Expr.IsLabel Q c.name ∧ c.expr.All Q
  groups : ∀ p ∈ b.projection, ∀ g ∈ p.groupBy, g.All Q
  filters : ∀ p ∈ b.filters, p.All Q
  outerOrder : ∀ k ∈ b.outerOrder, k.expr.All Q
  innerOrder : ∀ k ∈ b.innerOrder, k.expr.All Q
  outerLimit : ∀ w ∈ b.outerLimit, ∀ e, e ∈ w.take ∨ e ∈ w.skip → e.All Q
  innerLimit : ∀ w ∈ b.innerLimit, ∀ e, e ∈ w.take ∨ e ∈ w.skip → e.All Q

variable {Q : Expr → Prop}

/-- Clauses that are taken off a tree are made of its nodes. By induction on the tree with the block
as an accumulator: each node that is taken up hands the property on from its operands to one place
of the block. -/
theorem absorb_all {stage : Nat} {b : Block} {e : Expr} (hb : b.All Q) (he : e.All Q) :
    (absorb stage b e).All Q ∧ (absorb stage b e).source.All Q := by
  induction e using Expr.treeInduction generalizing stage b with
  | limit input take skip ih _ _ =>
    have hinput : input.All Q := he.child (by simp [Expr.children])
    have hwindow : ∀ w ∈ some (Window.mk take skip), ∀ e, e ∈ w.take ∨ e ∈ w.skip → e.All Q := by
      intro w hw e hwe
      obtain rfl := Option.mem_some.1 hw
      exact he.child (by simpa [Expr.children] using .inr hwe)
    simp only [absorb]
    split_ifs
    · exact ih { hb with outerLimit := hwindow } hinput
    · exact ih { hb with innerLimit := hwindow } hinput
    · exact ⟨{ hb with }, he⟩
  | order input keys ih _ =>
    have hinput : input.All Q := he.child (by simp [Expr.children])
    have hkeys : ∀ k ∈ keys, k.expr.All Q := by
      intro k hk
      exact he.child (List.mem_cons_of_mem _ (List.mem_map_of_mem hk))
    simp only [absorb]
    split_ifs
    · exact ih { hb with outerOrder := hkeys } hinput
    · exact ih { hb with innerOrder := hkeys } hinput
    · exact ⟨{ hb with }, he⟩
  | project qualifier input columns distinct groupBy ih _ _ =>
    have hinput : input.All Q := he.child (by simp [Expr.children])
    have hcolumns : ∀ c ∈ columns, Expr.IsLabel Q c.name ∧ c.expr.All Q := by
      intro c hc
      refine ⟨he.label (List.mem_cons_of_mem _ (List.mem_map_of_mem hc)), ?_⟩
      exact he.child (by simpa [Expr.children] using .inr (.inl ⟨c, hc, rfl⟩))
    have hgroups : ∀ g ∈ groupBy, g.All Q := by
      intro g hg
      exact he.child (by simp [Expr.children, hg])
    simp only [absorb]
    split_ifs
    · refine ih { hb with columns := ?_, groups := ?_ } hinput
      · intro p hp
        obtain rfl := Option.mem_some.1 hp
        exact hcolumns
      · intro p hp
        obtain rfl := Option.mem_some.1 hp
        exact hgroups
    · exact ⟨{ hb with }, he⟩
  | filter input predicate ih _ =>
    have hinput : input.All Q := he.child (by simp [Expr.children])
    refine ih { hb with filters := ?_ } hinput
    intro p hp
    rcases List.mem_append.1 hp with hp | hp
    · exact hb.filters p hp
    · obtain rfl := List.mem_singleton.1 hp
      exact he.child (by simp [Expr.children])
  | _ => exact ⟨{ hb with }, he⟩

/-- Splitting a tree into a block takes nodes over and makes up none. -/
theorem split_all {e : Expr} (h : e.All Q) : (split e).All Q ∧ (split e).source.All Q := by
  have hbare : All Q { source := e } := by
    constructor <;> simp
  exact absorb_all hbare h

end Block

namespace Sql

open Attempt

/-! ### Parts of a statement -/

/-- Keywords before a part. -/
def openings : List String :=
  ["(", "*", "NOT ", "SELECT *", "SELECT ", "SELECT DISTINCT ", "FROM ", "WHERE ", "GROUP BY ",
    "ORDER BY ", "LIMIT ", "OFFSET "]

/-- Keywords between two parts, or behind the last one. -/
def dividers : List String :=
  [")", ", ", " ", " AND ", " DESC", " IS NULL", " IS NOT NULL", " ON ", ";\n"]

/-- What can stand before a part. -/
inductive Opening (d : Dialect) (Q : Expr → Prop) : String → Prop
  | keyword {w : String} : w ∈ openings → Opening d Q w
  | column (bare : Option String) {q n : String} : Expr.IsLabel Q q → Expr.IsLabel Q n →
    Opening d Q (columnText d bare q n)
  | call {f : String} : Expr.IsLabel Q f → Opening d Q (f ++ "(")
  | aggregate (f : AggregateFunction) (distinct : Bool) :
    Opening d Q (f.sqlName ++ if distinct then "(DISTINCT " else "(")
  | table {table q : String} : Expr.IsLabel Q table → Expr.IsLabel Q q →
    Opening d Q (d.quote table ++ " AS " ++ q)

/-- What can stand between two parts, or behind the last one. -/
inductive Divider (d : Dialect) (Q : Expr → Prop) : String → Prop
  | keyword {w : String} : w ∈ dividers → Divider d Q w
  | operator (op : BinaryOperator) : Divider d Q (" " ++ operatorText op ++ " ")
  | join (kind : JoinKind) : Divider d Q (" " ++ joinText kind ++ " ")
  | setOp (op : SetOperator) (all : Bool) : Divider d Q (setText op all)
  | column {n : String} : Expr.IsLabel Q n → Divider d Q (" AS " ++ d.quote n)
  | relation {q : String} : Expr.IsLabel Q q → Divider d Q (" AS " ++ q)

/-- The tokens are put together from what the listed nodes contribute. -/
inductive Assembled (d : Dialect) (Q : Expr → Prop) : Sql → List Expr → Prop
  | nil : Assembled d Q [] []
  | literal {v : Value} {t : LogicalType} {ts : Sql} :
    literal v t = .ok ts → Assembled d Q ts [.const v t]
  | param {n : String} {t : LogicalType} :
    Q (.param n t) → Assembled d Q [.slot (.named n t)] [.param n t]
  | sign {bare : Option String} {e : Expr} (t : LogicalType) {inner : Sql} {l : List Expr} :
    e.All Q → scalar d bare e = .ok inner → Assembled d Q inner l →
    Assembled d Q (word "-" ++ operand e inner) ((Expr.unary .negate e t).uncrossed :: l)
  | opening {w : String} {part : Sql} {l : List Expr} :
    Opening d Q w → Assembled d Q part l → Assembled d Q (word w ++ part) l
  | divider {w : String} {a b : Sql} {l m : List Expr} :
    Divider d Q w → Assembled d Q a l → Assembled d Q b m →
    Assembled d Q (a ++ word w ++ b) (l ++ m)

variable {d : Dialect} {Q : Expr → Prop} {bare : Option String}

section Assembled

variable {a : Sql} {l : List Expr} {w : String}

/-- A keyword stands at the beginning of a piece and adds no slot. -/
theorem assembled_word (hw : Opening d Q w) : Assembled d Q (word w) [] := .opening hw .nil

/-- What divides two pieces may stand after the first. -/
theorem Assembled.before (ha : Assembled d Q a l) (hw : Divider d Q w) :
    Assembled d Q (a ++ word w) l := by
  have h := Assembled.divider hw ha .nil
  rw [List.append_nil, List.append_nil] at h
  exact h

/-- Parentheses around a piece change nothing of what it is made of. -/
theorem Assembled.parenthesized (ha : Assembled d Q a l) : Assembled d Q (parenthesized a) l :=
  (ha.opening (.keyword (by simp [openings]))).before (.keyword (by simp [dividers]))

/-- An operand is the piece itself or the piece in parentheses. -/
theorem Assembled.operand (ha : Assembled d Q a l) (e : Expr) : Assembled d Q (operand e a) l := by
  cases e with
  | binary => exact ha.parenthesized
  | _ => exact ha

/-- A branch is the query itself or the query in parentheses. -/
theorem Assembled.branch (ha : Assembled d Q a l) (e : Expr) : Assembled d Q (branch e a) l := by
  unfold Sql.branch
  split_ifs
  · exact ha.parenthesized
  · exact ha

end Assembled

/-- Parts in a row, and what each of them contributes. -/
inductive Parts (d : Dialect) (Q : Expr → Prop) : List Sql → List Expr → Prop
  | nil : Parts d Q [] []
  | cons {part : Sql} {parts : List Sql} {l m : List Expr} :
    Assembled d Q part l → Parts d Q parts m → Parts d Q (part :: parts) (l ++ m)

section Parts

variable {parts : List Sql} {l m : List Expr}

theorem Assembled.single {part : Sql} (h : Assembled d Q part l) : Parts d Q [part] l := by
  have hparts := Parts.cons h .nil
  rw [List.append_nil] at hparts
  exact hparts

/-- Parts side by side make up the parts of both. -/
theorem Parts.append {more : List Sql} (h : Parts d Q parts l) (hmore : Parts d Q more m) :
    Parts d Q (parts ++ more) (l ++ m) := by
  induction h with
  | nil => exact hmore
  | cons hpart _ ih =>
    rw [List.append_assoc]
    exact .cons hpart ih

/-- Parts with a divider between them are one piece. -/
theorem Parts.separated {separator : String} (hsep : separator ∈ dividers)
    (h : Parts d Q parts l) : Assembled d Q (separated separator parts) l := by
  induction h with
  | nil => exact .nil
  | cons hpart hparts ih =>
    cases hparts with
    | nil =>
      rw [List.append_nil]
      exact hpart
    | cons => exact .divider (.keyword hsep) hpart ih

/-- A walk along a list puts together what its elements contribute one after another. -/
theorem parts_of_mapM {α : Type} {f : α → Except QueryError Sql} {g : α → List Expr} {xs : List α}
    (h : xs.mapM f = .ok parts) (hstep : ∀ x ∈ xs, ∀ ts, f x = .ok ts → Assembled d Q ts (g x)) :
    Parts d Q parts (xs.flatMap g) := by
  have hsteps := mapM_eq_ok_iff.1 h
  clear h
  induction hsteps with
  | nil => exact .nil
  | @cons x ts xs parts hx _ ih =>
    obtain ⟨hfirst, hrest⟩ := List.forall_mem_cons.1 hstep
    exact .cons (hfirst ts hx) (ih hrest)

end Parts

/-! ### Scalars -/

/-- The text of a value that stands in the statement itself. -/
inductive Inline : Value → String → Prop
  | null : Inline .null "NULL"
  | bool (b : Bool) : Inline (.bool b) (if b then "TRUE" else "FALSE")
  | int (n : Int64) : Inline (.int n) (toString n.toInt)
  | float {x : Float} : x.isFinite = true → Inline (.float x) (FloatStyle.statement.text x)

/-- A constant stands in the statement, or it is a slot. Values of the other kinds are refused, so
there is nothing to say about their text. -/
theorem literal_cases {v : Value} {t : LogicalType} {ts : Sql} (h : literal v t = .ok ts) :
    (∃ w, Inline v w ∧ ts = word w ∧ (Expr.const v t).slot? = none) ∨
      ts = [.slot (.constant v t)] ∧ (Expr.const v t).slot? = some (.constant v t) := by
  cases v with
  | null =>
    obtain rfl := Except.ok.inj h
    exact .inl ⟨_, .null, rfl, rfl⟩
  | bool b =>
    obtain rfl := Except.ok.inj h
    exact .inl ⟨_, .bool b, rfl, rfl⟩
  | int n =>
    obtain rfl := Except.ok.inj h
    exact .inl ⟨_, .int n, rfl, rfl⟩
  | float x =>
    simp only [literal] at h
    by_cases hx : x.isFinite = true
    · rw [if_pos hx] at h
      obtain rfl := Except.ok.inj h
      exact .inl ⟨_, .float hx, rfl, if_pos hx⟩
    · rw [if_neg hx] at h
      obtain rfl := Except.ok.inj h
      exact .inr ⟨rfl, if_neg hx⟩
  | text | bytes | date | time | dateTime =>
    obtain rfl := Except.ok.inj h
    exact .inr ⟨rfl, rfl⟩
  | _ => cases h

/-- What a literal can be written for is written, so it counts. -/
theorem contributes_of_literal {v : Value} {t : LogicalType} {ts : Sql}
    (h : literal v t = .ok ts) : (Expr.const v t).contributes = true := by
  cases v with
  | source => cases h
  | _ => rfl

/-- A scalar is put together from left to right. There is one case for each kind of scalar, and in
each the parts of the text are put together in the order in which the operands stand. -/
theorem scalar_assembled {e : Expr} (he : e.All Q) {ts : Sql} (h : scalar d bare e = .ok ts) :
    Assembled d Q ts e.contributions := by
  induction e using Expr.treeInduction generalizing ts with
  | const v t =>
    rw [Expr.contributions_const t (contributes_of_literal h)]
    exact .literal h
  | param name t =>
    obtain rfl := Except.ok.inj h
    rw [Expr.contributions_param]
    exact .param he.root
  | column q name t =>
    obtain rfl := Except.ok.inj h
    rw [Expr.contributions_column]
    exact assembled_word (.column bare (he.label (by simp [Expr.labels]))
      (he.label (by simp [Expr.labels])))
  | binary op l r t ihl ihr =>
    simp only [scalar] at h
    obtain ⟨lts, hl, h⟩ := bind_eq_ok_iff.1 h
    obtain ⟨rts, hr, h⟩ := bind_eq_ok_iff.1 h
    obtain rfl := pure_eq_ok_iff.1 h
    have hleft := ihl (he.child (by simp [Expr.children])) hl
    have hright := ihr (he.child (by simp [Expr.children])) hr
    rw [Expr.contributions_binary]
    exact .divider (.operator op) (hleft.operand l) (hright.operand r)
  | unary op e t ih =>
    simp only [scalar] at h
    obtain ⟨inner, hinner, h⟩ := bind_eq_ok_iff.1 h
    obtain rfl := pure_eq_ok_iff.1 h
    have hall : e.All Q := he.child (by simp [Expr.children])
    have hoperand := ih hall hinner
    by_cases hop : op = .negate
    · subst hop
      rw [Expr.contributions_negate]
      exact .sign t hall hinner hoperand
    · rw [Expr.contributions_unary e t hop]
      cases op with
      | not => exact .opening (.keyword (by simp [openings])) (hoperand.operand e)
      | negate => exact absurd rfl hop
      | isNull => exact (hoperand.operand e).before (.keyword (by simp [dividers]))
      | isNotNull => exact (hoperand.operand e).before (.keyword (by simp [dividers]))
  | call f args t ih =>
    simp only [scalar, scalars_eq] at h
    obtain ⟨parts, hparts, h⟩ := bind_eq_ok_iff.1 h
    obtain rfl := pure_eq_ok_iff.1 h
    have hargs : Parts d Q parts (args.flatMap Expr.contributions) := by
      refine parts_of_mapM hparts ?_
      intro e hmem ts hts
      exact ih e hmem (he.child (by simp [Expr.children, hmem])) hts
    have hopening : Opening d Q (f ++ "(") := .call (he.label (by simp [Expr.labels]))
    rw [Expr.contributions_call]
    exact ((hargs.separated (by simp [dividers])).opening hopening).before
      (.keyword (by simp [dividers]))
  | aggregate f arg distinct t ih =>
    simp only [scalar] at h
    split at h
    · cases h
    obtain ⟨inner, hinner, h⟩ := bind_eq_ok_iff.1 h
    obtain rfl := pure_eq_ok_iff.1 h
    have harg : Assembled d Q inner (arg.toList.flatMap Expr.contributions) := by
      cases arg with
      | none =>
        obtain rfl := Except.ok.inj hinner
        exact assembled_word (.keyword (by simp [openings]))
      | some e =>
        simp only [Option.toList_some, List.flatMap_singleton]
        exact ih e rfl (he.child (by simp [Expr.children])) hinner
    rw [Expr.contributions_aggregate]
    exact (harg.opening (.aggregate f distinct)).before (.keyword (by simp [dividers]))
  | _ => cases h

/-! ### Clauses -/

/-- A column is its expression and the name after it. -/
theorem columnDecl_assembled {c : Column} (hname : Expr.IsLabel Q c.name) (hexpr : c.expr.All Q)
    {ts : Sql} (h : columnDecl d c = .ok ts) : Assembled d Q ts c.expr.contributions := by
  obtain ⟨rendered, hrendered, h⟩ := bind_eq_ok_iff.1 h
  have hbare : Assembled d Q rendered c.expr.contributions := scalar_assembled hexpr hrendered
  have hnamed := hbare.before (.column hname)
  split at h
  · split_ifs at h
    · obtain rfl := pure_eq_ok_iff.1 h
      exact hbare
    · obtain rfl := pure_eq_ok_iff.1 h
      exact hnamed
  · obtain rfl := pure_eq_ok_iff.1 h
    exact hnamed

/-- Conditions are written from the innermost to the outermost, with AND between them. -/
theorem whereClause_parts {filters : List Expr} (hall : ∀ p ∈ filters, p.All Q)
    {parts : List Sql} (h : whereClause d filters = .ok parts) :
    Parts d Q parts (filters.reverse.flatMap Expr.contributions) := by
  have hwhere : Opening d Q "WHERE " := .keyword (by simp [openings])
  unfold whereClause at h
  split at h
  · obtain rfl := Except.ok.inj h
    exact .nil
  · rename_i e
    obtain ⟨rendered, hrendered, h⟩ := bind_eq_ok_iff.1 h
    obtain rfl := pure_eq_ok_iff.1 h
    simp only [List.reverse_singleton, List.flatMap_singleton]
    exact ((scalar_assembled (hall e List.mem_cons_self) hrendered).opening hwhere).single
  · obtain ⟨conjuncts, hconjuncts, h⟩ := bind_eq_ok_iff.1 h
    obtain rfl := pure_eq_ok_iff.1 h
    refine (((parts_of_mapM hconjuncts ?_).separated (by simp [dividers])).opening hwhere).single
    intro e he ts hts
    obtain ⟨rendered, hrendered, hts⟩ := bind_eq_ok_iff.1 hts
    obtain rfl := pure_eq_ok_iff.1 hts
    exact (scalar_assembled (hall e (List.mem_reverse.1 he)) hrendered).operand e

/-- An ordering key is its expression with its direction after it. -/
theorem orderKey_assembled {k : OrderKey} (hk : k.expr.All Q) {ts : Sql}
    (h : orderKey d bare k = .ok ts) : Assembled d Q ts k.expr.contributions := by
  obtain ⟨rendered, hrendered, h⟩ := bind_eq_ok_iff.1 h
  have hkey : Assembled d Q rendered k.expr.contributions := scalar_assembled hk hrendered
  split at h
  · obtain rfl := pure_eq_ok_iff.1 h
    exact hkey
  · obtain rfl := pure_eq_ok_iff.1 h
    exact hkey.before (.keyword (by simp [dividers]))

/-- A count is written after its keyword, or not at all. -/
theorem countClause_parts {keyword : String} (hkeyword : keyword ∈ openings) {o : Option Expr}
    (ho : ∀ e ∈ o, e.All Q) {parts : List Sql} (h : countClause d keyword o = .ok parts) :
    Parts d Q parts (o.toList.flatMap Expr.contributions) := by
  cases o with
  | none =>
    obtain rfl := Except.ok.inj h
    exact .nil
  | some e =>
    obtain ⟨rendered, hrendered, h⟩ := bind_eq_ok_iff.1 h
    obtain rfl := pure_eq_ok_iff.1 h
    simp only [Option.toList_some, List.flatMap_singleton]
    exact ((scalar_assembled (ho e rfl) hrendered).opening (.keyword hkeyword)).single

section Block

variable {b : Block} (hb : b.All Q) {parts : List Sql}

include hb

/-- The head of a block is the list of its columns. -/
theorem selectClause_assembled {ts : Sql} (h : selectClause d b.projection = .ok ts) :
    Assembled d Q ts b.columnContributions := by
  unfold Block.columnContributions
  cases hp : b.projection with
  | none =>
    rw [hp] at h
    obtain rfl := Except.ok.inj h
    exact assembled_word (.keyword (by simp [openings]))
  | some p =>
    rw [hp] at h
    obtain ⟨columns, hcolumns, h⟩ := bind_eq_ok_iff.1 h
    obtain rfl := pure_eq_ok_iff.1 h
    simp only [Option.toList_some, List.flatMap_singleton]
    have hkeyword : (if p.distinct then "SELECT DISTINCT " else "SELECT ") ∈ openings := by
      split_ifs <;> simp [openings]
    refine ((parts_of_mapM hcolumns ?_).separated (by simp [dividers])).opening (.keyword hkeyword)
    intro c hc ts hts
    obtain ⟨hname, hexpr⟩ := hb.columns p hp c hc
    exact columnDecl_assembled hname hexpr hts

/-- A grouping clause is made of the grouping keys. Without a projection, or with one that has no
keys, there is no clause and nothing to account for. -/
theorem groupClause_parts (h : groupClause d b.projection = .ok parts) :
    Parts d Q parts b.groupContributions := by
  unfold Block.groupContributions
  cases hp : b.projection with
  | none =>
    rw [hp] at h
    obtain rfl := Except.ok.inj h
    exact .nil
  | some p =>
    rw [hp] at h
    simp only [groupClause, scalars_eq] at h
    simp only [Option.toList_some, List.flatMap_singleton]
    split_ifs at h with hempty
    · obtain rfl := pure_eq_ok_iff.1 h
      rw [List.isEmpty_iff.1 hempty]
      exact .nil
    · obtain ⟨keys, hkeys, h⟩ := bind_eq_ok_iff.1 h
      obtain rfl := pure_eq_ok_iff.1 h
      refine (((parts_of_mapM hkeys ?_).separated (by simp [dividers])).opening
        (.keyword (by simp [openings]))).single
      intro e he ts hts
      exact scalar_assembled (hb.groups p hp e he) hts

/-- The ordering clause of a block is made of the outer keys and then the inner ones. -/
theorem orderClause_parts (h : orderClause d b = .ok parts) :
    Parts d Q parts b.orderContributions := by
  obtain ⟨outer, houter, h⟩ := bind_eq_ok_iff.1 h
  obtain ⟨inner, hinner, h⟩ := bind_eq_ok_iff.1 h
  have hkeys : Parts d Q (outer ++ inner) b.orderContributions := by
    unfold Block.orderContributions
    rw [List.flatMap_append]
    refine (parts_of_mapM houter ?_).append (parts_of_mapM hinner ?_)
    · intro k hk ts hts
      exact orderKey_assembled (hb.outerOrder k hk) hts
    · intro k hk ts hts
      exact orderKey_assembled (hb.innerOrder k hk) hts
  obtain rfl := pure_eq_ok_iff.1 h
  split_ifs with hempty
  · rw [List.isEmpty_iff.1 hempty] at hkeys
    exact hkeys
  · exact ((hkeys.separated (by simp [dividers])).opening (.keyword (by simp [openings]))).single

/-- The outer window of a block is written where it has one, else the inner one. -/
theorem limitClause_parts (h : limitClause d b = .ok parts) :
    Parts d Q parts ((b.outerLimit.or b.innerLimit).toList.flatMap Window.contributions) := by
  unfold limitClause at h
  cases hw : b.outerLimit.or b.innerLimit with
  | none =>
    rw [hw] at h
    obtain rfl := Except.ok.inj h
    exact .nil
  | some w =>
    rw [hw] at h
    have hall : ∀ e, e ∈ w.take ∨ e ∈ w.skip → e.All Q := by
      rcases Option.or_eq_some_iff.1 hw with hw | ⟨_, hw⟩
      · exact hb.outerLimit w hw
      · exact hb.innerLimit w hw
    obtain ⟨take, htake, h⟩ := bind_eq_ok_iff.1 h
    obtain ⟨skip, hskip, h⟩ := bind_eq_ok_iff.1 h
    obtain rfl := pure_eq_ok_iff.1 h
    simp only [Option.toList_some, List.flatMap_singleton]
    exact (countClause_parts (by simp [openings]) (fun e he => hall e (.inl he)) htake).append
      (countClause_parts (by simp [openings]) (fun e he => hall e (.inr he)) hskip)

/-- A SELECT is put together in the order of its clauses, with its from-item in between. -/
theorem select_assembled {source : Except QueryError Sql} {l : List Expr}
    (hsource : ∀ ts, source = .ok ts → Assembled d Q ts l) {ts : Sql}
    (h : select d b source = .ok ts) : Assembled d Q ts (b.reading l) := by
  obtain ⟨columns, hcolumns, h⟩ := bind_eq_ok_iff.1 h
  obtain ⟨item, hitem, h⟩ := bind_eq_ok_iff.1 h
  obtain ⟨filters, hfilters, h⟩ := bind_eq_ok_iff.1 h
  obtain ⟨groups, hgroups, h⟩ := bind_eq_ok_iff.1 h
  obtain ⟨keys, hkeys, h⟩ := bind_eq_ok_iff.1 h
  obtain ⟨limit, hlimit, h⟩ := bind_eq_ok_iff.1 h
  obtain rfl := pure_eq_ok_iff.1 h
  have hselect := (selectClause_assembled hb hcolumns).single
  have hfrom : Parts d Q [word "FROM " ++ item] l :=
    ((hsource item hitem).opening (.keyword (by simp [openings]))).single
  have hwhere := whereClause_parts hb.filters hfilters
  have hgroup := groupClause_parts hb hgroups
  have horder := orderClause_parts hb hkeys
  have hcount := limitClause_parts hb hlimit
  exact (((((hselect.append hfrom).append hwhere).append hgroup).append horder).append
    hcount).separated (by simp [dividers])

end Block

/-! ### Queries -/

/-- The alias of a relation is a name of one of its nodes. -/
theorem isLabel_relationAlias {e : Expr} (he : e.All Q) {qualifier : String}
    (h : relationAlias? e = some qualifier) : Expr.IsLabel Q qualifier := by
  induction e using Expr.treeInduction with
  | scan | project | setOp =>
    obtain rfl := Option.some.inj h
    exact he.label (by simp [Expr.labels])
  | filter input p ih _ => exact ih (he.child (by simp [Expr.children])) h
  | order input keys ih _ => exact ih (he.child (by simp [Expr.children])) h
  | limit input take skip ih _ _ => exact ih (he.child (by simp [Expr.children])) h
  | _ => cases h

/-- A table is its name with the alias after it. -/
theorem scanItem_assembled {source : Expr} {qualifier : String} {t : LogicalType}
    (he : (Expr.scan source qualifier t).All Q) {ts : Sql}
    (h : scanItem d source qualifier = .ok ts) : Assembled d Q ts source.contributions := by
  have hq : Expr.IsLabel Q qualifier := he.label (by simp [Expr.labels])
  unfold scanItem at h
  split at h
  · obtain rfl := Except.ok.inj h
    have hsource := he.child List.mem_cons_self
    rw [Expr.contributions_source]
    exact assembled_word (.table (hsource.label (by simp [Expr.labels])) hq)
  · cases h

/-- The condition of a join stands behind its right side. -/
theorem Assembled.joinCondition {kind : JoinKind} {on : Option Expr} (hon : ∀ e ∈ on, e.All Q)
    {condition : Sql} (h : joinCondition d kind on = .ok condition) {a : Sql} {l : List Expr}
    (ha : Assembled d Q a l) :
    Assembled d Q (a ++ condition) (l ++ Expr.conditionContributions kind on) := by
  unfold Sql.joinCondition at h
  split at h
  · obtain rfl := Except.ok.inj h
    rw [Expr.conditionContributions, if_pos rfl, List.append_nil, List.append_nil]
    exact ha
  · obtain rfl := Except.ok.inj h
    have hnone : Expr.conditionContributions kind none = [] := by simp [Expr.conditionContributions]
    rw [hnone, List.append_nil, List.append_nil]
    exact ha
  · rename_i e hcross
    obtain ⟨rendered, hrendered, h⟩ := bind_eq_ok_iff.1 h
    obtain rfl := pure_eq_ok_iff.1 h
    have hsome : Expr.conditionContributions kind (some e) = e.contributions := by
      rw [Expr.conditionContributions, if_neg hcross]
      simp
    rw [hsome, ← List.append_assoc]
    exact .divider (.keyword (by simp [dividers])) ha (scalar_assembled (hon e rfl) hrendered)

/-- Queries and from-items are put together in reading order. The two are proved at once, since a
query renders its source as a from-item, and a from-item may be a query in parentheses. -/
theorem query_fromItem_assembled :
    (∀ e : Expr, e.All Q → ∀ ts, query d e = .ok ts → Assembled d Q ts e.reading) ∧
      ∀ e : Expr, e.All Q → ∀ ts, fromItem d e = .ok ts → Assembled d Q ts e.reading := by
  -- the induction follows the calls of the two functions on each other
  apply query.mutual_induct
  case case1 =>
    intro e s hs ihl ihr he ts h
    obtain ⟨_, q, hsource⟩ := Block.source_of_setParts hs
    have hset : (Expr.setOp s.op s.all s.left s.right q).All Q := hsource ▸ (Block.split_all he).2
    rw [query_of_setParts hs] at h
    obtain ⟨l, hl, h⟩ := bind_eq_ok_iff.1 h
    obtain ⟨r, hr, h⟩ := bind_eq_ok_iff.1 h
    obtain rfl := pure_eq_ok_iff.1 h
    have hleft := ihl (hset.child (by simp [Expr.children])) l hl
    have hright := ihr (hset.child (by simp [Expr.children])) r hr
    rw [Expr.reading_of_setParts hs]
    exact .divider (.setOp s.op s.all) (hleft.branch s.left) (hright.branch s.right)
  case case2 =>
    intro e hs ih he ts h
    obtain ⟨hclauses, hsource⟩ := Block.split_all he
    rw [query_of_block hs] at h
    rw [Expr.reading_eq]
    exact select_assembled hclauses (ih hsource) h
  case case3 =>
    intro source qualifier t he ts h
    rw [fromItem_scan] at h
    rw [Expr.reading_scan]
    exact scanItem_assembled he h
  case case4 =>
    intro kind left right on ihl ihr he ts h
    rw [fromItem_join] at h
    obtain ⟨l, hl, h⟩ := bind_eq_ok_iff.1 h
    obtain ⟨r, hr, h⟩ := bind_eq_ok_iff.1 h
    obtain ⟨condition, hcondition, h⟩ := bind_eq_ok_iff.1 h
    obtain rfl := pure_eq_ok_iff.1 h
    have hleft := ihl (he.child (by simp [Expr.children])) l hl
    have hright := ihr (he.child (by simp [Expr.children])) r hr
    have hon : ∀ e ∈ on, e.All Q := by
      intro e hmem
      exact he.child (by simp [Expr.children, Option.mem_def.1 hmem])
    rw [Expr.reading_join]
    exact (Assembled.divider (.join kind) hleft hright).joinCondition hon hcondition
  case case5 =>
    intro e hscan hjoin halias he ts h
    rw [fromItem_of_noAlias hscan hjoin halias] at h
    cases h
  case case6 =>
    intro e hscan hjoin qualifier halias ih he ts h
    rw [fromItem_of_alias hscan hjoin halias] at h
    obtain ⟨sql, hsql, h⟩ := bind_eq_ok_iff.1 h
    obtain rfl := pure_eq_ok_iff.1 h
    have hq : Expr.IsLabel Q qualifier := by
      unfold subqueryAlias? at halias
      split_ifs at halias
      exact isLabel_relationAlias he halias
    exact (ih he sql hsql).parenthesized.before (.relation hq)

/-- A statement is put together in reading order. -/
theorem statement_assembled {e : Expr} (he : e.All Q) {ts : Sql} (h : statement d e = .ok ts) :
    Assembled d Q ts e.reading := by
  induction e using Expr.treeInduction with
  | lambda ps body ih =>
    rw [Expr.reading_lambda]
    exact ih (he.child (by simp [Expr.children])) h
  | scan | filter | project | order | limit | join | setOp =>
    exact query_fromItem_assembled.1 _ he ts h
  | _ => cases h

end Sql

/-! ### Commands -/

namespace Command

open Attempt

variable {d : Dialect} {es : List Expr} {c : Command}

/-- The command is that of one statement, or of several in a batch. -/
def Formats (d : Dialect) (es : List Expr) (c : Command) : Prop :=
  (∃ e, es = [e] ∧ ofStatement d e = .ok c) ∨ ofBatch d es = .ok c

/-- A batch is written from its statements, if the dialect takes as many. One statement, or none, is
taken by every dialect. -/
theorem ofBatch_eq_ok_iff :
    ofBatch d es = .ok c ↔ (es.length ≤ 1 ∨ d.multipleStatements = true) ∧
      ∃ statements, es.mapM (Sql.statement d) = .ok statements ∧
        c = ofTokens d (Sql.separated ";\n" statements) := by
  have hwritten : ofStatements d es = .ok c ↔
      ∃ statements, es.mapM (Sql.statement d) = .ok statements ∧
        c = ofTokens d (Sql.separated ";\n" statements) := by
    rw [ofStatements_eq, ← bind_pure_comp, bind_eq_ok_iff]
    simp only [pure_eq_ok_iff, eq_comm (a := c)]
  cases es with
  | nil => exact (and_iff_right (.inl (Nat.zero_le 1))).symm.trans (and_congr_right' hwritten)
  | cons e es =>
    cases es with
    | nil => exact (and_iff_right (.inl (Nat.le_refl 1))).symm.trans (and_congr_right' hwritten)
    | cons second rest =>
      cases hmultiple : d.multipleStatements with
      | true => rw [← hwritten, and_iff_right (.inr rfl), ofBatch, hmultiple, if_pos rfl]
      | false =>
        have hrefused : ofBatch d (e :: second :: rest) ≠ .ok c := by
          unfold ofBatch
          rw [hmultiple]
          intro h
          cases h
        refine iff_of_false hrefused ?_
        simp

/-- One statement is a batch of one. -/
theorem formats_iff : Formats d es c ↔ ofBatch d es = .ok c := by
  refine ⟨?_, .inr⟩
  rintro (⟨e, rfl, h⟩ | h)
  · have hone : ofBatch d [e] = ofStatement d e := by
      change ofStatements d [e] = ofStatement d e
      rw [ofStatements_eq, ofStatement_eq]
      simp [Sql.separated]
    rw [hone, h]
  · exact h

/-- Statements are put together in reading order, one behind another. -/
theorem statements_assembled {Q : Expr → Prop} (hes : ∀ e ∈ es, e.All Q) {statements : List Sql}
    (h : es.mapM (Sql.statement d) = .ok statements) :
    Sql.Assembled d Q (Sql.separated ";\n" statements) (es.flatMap Expr.reading) := by
  refine (Sql.parts_of_mapM h ?_).separated (by simp [Sql.dividers])
  intro e he ts hts
  exact Sql.statement_assembled (hes e he) hts

/-- A command is written from tokens that are put together from its trees in reading order. -/
theorem Formats.assembled {Q : Expr → Prop} (h : Formats d es c) (hes : ∀ e ∈ es, e.All Q) :
    ∃ ts, c = ofTokens d ts ∧ Sql.Assembled d Q ts (es.flatMap Expr.reading) := by
  obtain ⟨_, statements, hstatements, hc⟩ := ofBatch_eq_ok_iff.1 (formats_iff.1 h)
  exact ⟨_, hc, statements_assembled hes hstatements⟩

end Command

end QueryTree
