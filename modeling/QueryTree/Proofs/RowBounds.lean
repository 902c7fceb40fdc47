import QueryTree.Proofs.Rebuild
import QueryTree.Proofs.SortContract

/-!
# No look-up past the end of a row

A column is looked up by its position among the columns of a relation, and its cell is then taken
from the row at hand. Here the interpreter is written with the way rows are read as a parameter, a
`Reader`: whatever an expression takes from a row goes through it. Read without a check, this is the
interpreter itself (`Reader.readsAll_unchecked`). Read with a check that stops the run at a row too
short for its columns, it is still the interpreter when the tables are rectangular
(`Reader.readsAll_checked`), so no run comes to such a row.

Both are cases of one induction over the tree (`Reader.ReadsAll.relation`). It asks only that the
rows of all relations can be read, and with them the pairs of rows that a join puts together. All of
this is said for the interpreter with any `Sorter` in it.
-/

namespace QueryTree

/-! ### Loops with errors in another form -/

namespace Attempt

variable {ε ε' α β : Type} {f : ε → ε'}

/-- A list is walked alike if its elements are. -/
theorem Mirrors.mapM {l : List α} {g : α → Except ε β} {g' : α → Except ε' β}
    (h : ∀ a ∈ l, Mirrors f (g a) (g' a)) : Mirrors f (l.mapM g) (l.mapM g') := by
  induction l with
  | nil => rfl
  | cons a l ih =>
    obtain ⟨ha, hl⟩ := List.forall_mem_cons.1 h
    rw [List.mapM_cons, List.mapM_cons]
    exact ha.bind fun b _ => (ih hl).bind fun bs _ => .pure _

/-- A list is folded alike if each step is. -/
theorem Mirrors.foldlM {l : List α} {g : β → α → Except ε β} {g' : β → α → Except ε' β}
    (h : ∀ a ∈ l, ∀ b, Mirrors f (g b a) (g' b a)) (b : β) :
    Mirrors f (l.foldlM g b) (l.foldlM g' b) := by
  induction l generalizing b with
  | nil => rfl
  | cons a l ih =>
    obtain ⟨ha, hl⟩ := List.forall_mem_cons.1 h
    rw [List.foldlM_cons, List.foldlM_cons]
    exact (ha b).bind fun c _ => ih hl c

/-- What each step of an accumulation keeps holds of its result. -/
theorem foldlM_invariant {P : β → Prop} {g : β → α → Except ε β} {l : List α}
    (hstep : ∀ a ∈ l, ∀ b c, P b → g b a = .ok c → P c) {b c : β} (hb : P b)
    (h : l.foldlM g b = .ok c) : P c := by
  induction l generalizing b with
  | nil =>
    rw [List.foldlM_nil, pure_eq_ok_iff] at h
    exact h ▸ hb
  | cons a l ih =>
    obtain ⟨ha, hl⟩ := List.forall_mem_cons.1 hstep
    rw [List.foldlM_cons, bind_eq_ok_iff] at h
    obtain ⟨d, hd, h⟩ := h
    exact ih hl (ha b d hb hd) h

end Attempt

open Attempt

namespace Expr

variable {ε ε' : Type} {f : ε → ε'} {g : Expr → Except ε Expr} {g' : Expr → Except ε' Expr}

/-- An optional subtree is walked alike if the subtree is. -/
theorem mapOptionM_mirrors {o : Option Expr} (h : ∀ e ∈ o, Mirrors f (g e) (g' e)) :
    Mirrors f (mapOptionM g o) (mapOptionM g' o) := by
  cases o with
  | none => rfl
  | some e => exact (h e rfl).bind fun _ _ => .pure _

/-- The subtrees of a node are walked alike if each of them is. Both walks come to the subtrees in
the same order, so what happens at each can be compared in turn. -/
theorem mapChildrenM_mirrors {e : Expr} (h : ∀ c ∈ e.children, Mirrors f (g c) (g' c)) :
    Mirrors f (e.mapChildrenM g) (e.mapChildrenM g') := by
  cases e with
  | const | param | column => exact .pure _
  | member | unary | lambda | scan =>
    exact (h _ List.mem_cons_self).bind fun _ _ => .pure _
  | binary | filter | setOp =>
    refine (h _ List.mem_cons_self).bind fun _ _ => ?_
    exact (h _ (List.mem_cons_of_mem _ List.mem_cons_self)).bind fun _ _ => .pure _
  | call n args t => exact (Mirrors.mapM h).bind fun _ _ => .pure _
  | aggregate fn arg d t =>
    refine (mapOptionM_mirrors fun a ha => h a (Option.mem_toList.2 ha)).bind fun _ _ => .pure _
  | project a input columns d groupBy =>
    obtain ⟨hinput, hrest⟩ := List.forall_mem_cons.1 h
    obtain ⟨hcolumns, hgroups⟩ := List.forall_mem_append.1 hrest
    refine hinput.bind fun _ _ => Mirrors.bind ?_ fun _ _ =>
      (Mirrors.mapM hgroups).bind fun _ _ => .pure _
    exact Mirrors.mapM fun c hc => (hcolumns _ (List.mem_map_of_mem hc)).bind fun _ _ => .pure _
  | order input keys =>
    obtain ⟨hinput, hkeys⟩ := List.forall_mem_cons.1 h
    refine hinput.bind fun _ _ => Mirrors.bind ?_ fun _ _ => .pure _
    exact Mirrors.mapM fun k hk => (hkeys _ (List.mem_map_of_mem hk)).bind fun _ _ => .pure _
  | limit input take skip =>
    obtain ⟨hinput, hrest⟩ := List.forall_mem_cons.1 h
    obtain ⟨htake, hskip⟩ := List.forall_mem_append.1 hrest
    refine hinput.bind fun _ _ => ?_
    refine (mapOptionM_mirrors fun a ha => htake a (Option.mem_toList.2 ha)).bind fun _ _ => ?_
    exact (mapOptionM_mirrors fun a ha => hskip a (Option.mem_toList.2 ha)).bind fun _ _ => .pure _
  | join k left right on =>
    obtain ⟨hleft, hrest⟩ := List.forall_mem_cons.1 h
    obtain ⟨hright, hon⟩ := List.forall_mem_cons.1 hrest
    refine hleft.bind fun _ _ => hright.bind fun _ _ => ?_
    exact (mapOptionM_mirrors fun a ha => hon a (Option.mem_toList.2 ha)).bind fun _ _ => .pure _

/-- A tree is walked alike if each node is. -/
theorem transformUpM_mirrors (h : ∀ e, Mirrors f (g e) (g' e)) (e : Expr) :
    Mirrors f (e.transformUpM g) (e.transformUpM g') := by
  induction e using childInduction with
  | h e ih =>
    rw [transformUpM_eq, transformUpM_eq]
    exact (mapChildrenM_mirrors ih).bind fun rebuilt _ => h rebuilt

end Expr

/-! ### Rows of groups -/

namespace Relation

/-- The rows of the new groups are the old ones and the row. -/
theorem mem_of_mem_addToGroup {key : List Value} {row x : Row}
    {groups : List (List Value × List Row)} {g : List Value × List Row}
    (hg : g ∈ addToGroup key row groups) (hx : x ∈ g.2) :
    x = row ∨ ∃ old ∈ groups, x ∈ old.2 := by
  induction groups with
  | nil =>
    obtain rfl := List.mem_singleton.1 hg
    exact .inl (List.mem_singleton.1 hx)
  | cons first rest ih =>
    rw [addToGroup] at hg
    split at hg
    · rcases List.mem_cons.1 hg with rfl | hg
      · rcases List.mem_append.1 hx with hx | hx
        · exact .inr ⟨first, List.mem_cons_self, hx⟩
        · exact .inl (List.mem_singleton.1 hx)
      · exact .inr ⟨g, List.mem_cons_of_mem _ hg, hx⟩
    · rcases List.mem_cons.1 hg with rfl | hg
      · exact .inr ⟨_, List.mem_cons_self, hx⟩
      · rcases ih hg with h | ⟨old, hold, h⟩
        · exact .inl h
        · exact .inr ⟨old, List.mem_cons_of_mem _ hold, h⟩

/-- Groups are made of the rows of the relation. -/
theorem mem_of_mem_groupRows {r : Relation} {gs : List Expr} {groups : List (List Row)}
    (h : r.groupRows gs = .ok groups) {group : List Row} (hgroup : group ∈ groups) :
    ∀ row ∈ group, row ∈ r.rows := by
  unfold groupRows at h
  split at h
  · obtain rfl := pure_eq_ok_iff.1 h
    obtain rfl := List.mem_singleton.1 hgroup
    exact fun _ hrow => hrow
  · obtain ⟨keyed, hkeyed, h⟩ := bind_eq_ok_iff.1 h
    obtain rfl := pure_eq_ok_iff.1 h
    obtain ⟨g, hg, rfl⟩ := List.mem_map.1 hgroup
    refine foldlM_invariant (P := fun groups => ∀ g ∈ groups, ∀ x ∈ g.2, x ∈ r.rows) ?_ ?_ hkeyed
      g hg
    · intro row hrow old next hold hnext g hg x hx
      obtain ⟨key, _, hnext⟩ := bind_eq_ok_iff.1 hnext
      obtain rfl := pure_eq_ok_iff.1 hnext
      rcases mem_of_mem_addToGroup hg hx with rfl | ⟨g', hg', hx⟩
      · exact hrow
      · exact hold g' hg' x hx
    · intro g hg
      cases hg

end Relation

/-! ### Reading rows -/

/-- How a run ends without a result: as it does without a reader, or at a row that is too short for
its columns. -/
inductive Stop where
  | halt (h : Halt)
  | shortRow (columns : List QualifiedName) (row : Row)

/-- A fault of the run. -/
def Stop.fault (f : Fault) : Stop := .halt (.fault f)

/-- A fault of an expression. -/
def Stop.ofEval (e : EvalError) : Stop := .fault (.eval e)

/-- The environment in which expressions are evaluated on a row. -/
abbrev Reader := List QualifiedName → Row → Except Stop Env

namespace Reader

open QueryTree.Relation (index? rowEnv liftEval)

/-- Cells are looked up as they come; where the row has ended there is none. -/
def unchecked : Reader := fun columns row => .ok (rowEnv columns row)

/-- Every column must have a cell before anything is looked up. -/
def checked : Reader := fun columns row =>
  if h : columns.length ≤ row.length then
    .ok { parameter := fun _ => none
          column := fun q n => (columns.findFinIdx? fun c => c.1 == q && c.2 == n).map fun i =>
            row.get (i.castLE h) }
  else .error (.shortRow columns row)

/-- A row of the right length is read without a halt. -/
theorem checked_eq_ok {columns : List QualifiedName} {row : Row}
    (h : row.length = columns.length) : checked columns row = .ok (rowEnv columns row) := by
  rw [checked, dif_pos (Nat.le_of_eq h.symm), rowEnv]
  congr 2
  funext q n
  rw [index?, List.findIdx?_eq_map_findFinIdx?_val]
  cases columns.findFinIdx? fun c => c.1 == q && c.2 == n with
  | none => rfl
  | some i => simp

/-! ### The interpreter over a reader

The operations are those on relations, with `read` where these build the environment of a row.
-/

variable (read : Reader) (S : Sorter)

/-- An evaluation on a row. -/
def on {α : Type} (columns : List QualifiedName) (row : Row) (k : Env → Except EvalError α) :
    Except Stop α := do
  (k (← read columns row)).mapError .ofEval

/-- The rows on which a predicate is true. -/
def filterRows (columns : List QualifiedName) (predicate : Expr) :
    List Row → Except Stop (List Row)
  | [] => .ok []
  | row :: rest => do
    let v ← read.on columns row predicate.evaluate
    let kept ← filterRows columns predicate rest
    pure (match v with
      | .bool true => row :: kept
      | _ => kept)

/-- The rows in the order that the sorter gives them. -/
def sort (r : Relation) (keys : List OrderKey) : Except Stop Relation := do
  let keyed ← r.rows.mapM fun row => do
    return (← read.on r.columns row (Expr.evaluateList · (keys.map (·.expr))), row)
  (S.arrange r keys keyed).mapError .halt

/-- The rows in groups of equal values. -/
def groupRows (r : Relation) (groupBy : List Expr) : Except Stop (List (List Row)) := do
  if groupBy.isEmpty then return [r.rows]
  let groups ← r.rows.foldlM (fun groups row => do
    let key ← read.on r.columns row (Expr.evaluateList · groupBy)
    return Relation.addToGroup key row groups) []
  return groups.map (·.2)

/-- The value of an aggregate on the rows of a group. -/
def aggregate (columns : List QualifiedName) (group : List Row) (function : AggregateFunction)
    (arg : Option Expr) (distinct : Bool) : Except Stop Value := do
  match arg with
  | none => return .int (Int64.ofNat group.length)
  | some e =>
    let values ← group.mapM fun row => read.on columns row e.evaluate
    let present := values.filter fun v => !v.isNull
    (Relation.aggregateValues function
      (if distinct then Relation.dedup present else present)).mapError .fault

/-- An aggregate with its value on a group in its place. -/
def aggregateNode (columns : List QualifiedName) (group : List Row) : Expr → Except Stop Expr
  | .aggregate function arg distinct type =>
    return .const (← aggregate read columns group function arg distinct) type
  | e => .ok e

/-- A group without rows has no row to read. -/
def groupEnv (columns : List QualifiedName) : List Row → Except Stop Env
  | row :: _ => read columns row
  | [] => .ok (Relation.groupEnv columns [])

/-- The value of an expression on a group. -/
def groupValue (columns : List QualifiedName) (group : List Row) (e : Expr) :
    Except Stop Value := do
  let reduced ← e.transformUpM (aggregateNode read columns group)
  (reduced.evaluate (← groupEnv read columns group)).mapError .ofEval

/-- The rows of a projection, one for each row or one for each group. -/
def projectRows (input : Relation) (columns : List Column) (groupBy : List Expr) :
    Except Stop (List Row) := do
  if columns.any (fun c => c.expr.hasAggregate) || !groupBy.isEmpty then
    let groups ← groupRows read input groupBy
    groups.mapM fun group => columns.mapM fun c => groupValue read input.columns group c.expr
  else
    input.rows.mapM fun row =>
      read.on input.columns row (Expr.evaluateList · (columns.map (·.expr)))

/-- The relation of a projection. -/
def project (input : Relation) (qualifier : String) (columns : List Column) (distinct : Bool)
    (groupBy : List Expr) : Except Stop Relation := do
  let rows ← projectRows read input columns groupBy
  return ⟨columns.map fun c => (qualifier, c.name),
    if distinct then Relation.dedup rows else rows⟩

/-- The rows of a left row with each right row that satisfies the condition. -/
def matching (columns : List QualifiedName) (on : Option Expr) (left : Row) (right : List Row) :
    Except Stop (List Row) :=
  let combined := right.map (left ++ ·)
  match on with
  | none => .ok combined
  | some predicate => filterRows read columns predicate combined

/-- The relation of a join. -/
def join (kind : JoinKind) (left right : Relation) (on : Option Expr) : Except Stop Relation := do
  match kind with
  | .right | .full => (Relation.join kind left right on).mapError .fault
  | _ =>
    let columns := left.columns ++ right.columns
    let condition := if kind = .cross then none else on
    let rows ← left.rows.mapM fun l => do
      let found ← matching read columns condition l right.rows
      if kind = .left && found.isEmpty then
        return [l ++ List.replicate right.columns.length .null]
      else return found
    return ⟨columns, rows.flatten⟩

/-- The relation that a relational tree denotes. Tables, limits and set operations read no row. -/
def relation (tables : Tables) : Expr → Except Stop Relation
  | .filter input predicate => do
    let r ← relation tables input
    let rows ← filterRows read r.columns predicate r.rows
    return { r with rows }
  | .project qualifier input columns distinct groupBy => do
    project read (← relation tables input) qualifier columns distinct groupBy
  | .order input keys => do
    sort read S (← relation tables input) keys
  | .limit input take skip => do
    let r ← relation tables input
    let skipped ← (Expr.rowCount skip).mapError .fault
    let taken ← (Expr.rowCount take).mapError .fault
    return { r with rows := Expr.window skipped taken r.rows }
  | .join kind left right on => do
    let l ← relation tables left
    let r ← relation tables right
    join read kind l r on
  | .setOp op all left right qualifier => do
    let l ← relation tables left
    let r ← relation tables right
    (Relation.setOperation op all qualifier l r).mapError .fault
  | e => (e.relation tables).mapError .fault

/-- The value of a tree over tables. -/
def run (tables : Tables) (e : Expr) : Except Stop Value :=
  if e.isRelational then return .rows (← relation read S tables e).toRowSet
  else (e.evaluate .empty).mapError .ofEval

/-! ### Rows that can be read -/

/-- The reader gives the cells of these rows. -/
def Reads (columns : List QualifiedName) (rows : List Row) : Prop :=
  ∀ row ∈ rows, read columns row = .ok (rowEnv columns row)

variable {read} {S} {columns : List QualifiedName} {rows : List Row}

/-- Fewer rows are read as well. -/
theorem Reads.mono {rows' : List Row} (h : read.Reads columns rows)
    (hrows : ∀ row ∈ rows', row ∈ rows) : read.Reads columns rows' :=
  fun row hrow => h row (hrows row hrow)

/-- What is done with a readable row is what is done without the check. -/
theorem Reads.on (h : read.Reads columns rows) {row : Row} (hrow : row ∈ rows) {α : Type}
    (k : Env → Except EvalError α) :
    Mirrors Stop.ofEval (k (rowEnv columns row)) (read.on columns row k) := by
  rw [Reader.on, h row hrow]
  rfl

/-- An evaluation inside a larger computation has its error in the larger one's form. -/
theorem mirrors_liftEval {α : Type} {x : Except EvalError α} {x' : Except Stop α}
    (h : Mirrors Stop.ofEval x x') : Mirrors Stop.fault (liftEval x) x' := by
  cases x with
  | error e => exact h
  | ok a => exact h

/-- A fault of an operation ends the run that the operation is part of. -/
theorem mirrors_halt {α : Type} {x : Except Fault α} {x' : Except Stop α}
    (h : Mirrors Stop.fault x x') : Mirrors Stop.halt (x.mapError Halt.fault) x' :=
  Mirrors.mapError h

/-- Rows are filtered as they are without the check. -/
theorem Reads.filterRows (h : read.Reads columns rows) (p : Expr) :
    Mirrors Stop.ofEval (Relation.filterRows columns p rows) (read.filterRows columns p rows) := by
  induction rows with
  | nil => rfl
  | cons row rows ih =>
    refine (h.on List.mem_cons_self p.evaluate).bind fun v _ => ?_
    exact (ih (h.mono fun _ => List.mem_cons_of_mem _)).bind fun kept _ => .pure _

/-- Rows are sorted as they are without the check. -/
theorem Reads.sort {r : Relation} (h : read.Reads r.columns r.rows) (keys : List OrderKey) :
    Mirrors Stop.halt (S.sortRows r keys) (read.sort S r keys) := by
  have hkeyed : Mirrors Stop.ofEval (r.rows.mapM (Relation.withKeys r.columns keys))
      (r.rows.mapM fun row => do
        return (← read.on r.columns row (Expr.evaluateList · (keys.map (·.expr))), row)) :=
    Mirrors.mapM fun row hrow => (h.on hrow _).bind fun _ _ => .pure _
  exact (mirrors_halt (mirrors_liftEval hkeyed)).bind fun keyed _ => rfl

/-- Rows are grouped as they are without the check. -/
theorem Reads.groupRows {r : Relation} (h : read.Reads r.columns r.rows) (gs : List Expr) :
    Mirrors Stop.ofEval (r.groupRows gs) (read.groupRows r gs) := by
  unfold Relation.groupRows Reader.groupRows
  split
  · rfl
  · refine Mirrors.bind (Mirrors.foldlM (fun row hrow groups => ?_) _) fun groups _ => .pure _
    exact (h.on hrow _).bind fun _ _ => .pure _

/-- Aggregates are evaluated as they are without the check. -/
theorem Reads.aggregateNode {group : List Row} (h : read.Reads columns group) (e : Expr) :
    Mirrors Stop.fault (Relation.aggregateNode columns group e)
      (read.aggregateNode columns group e) := by
  cases e with
  | aggregate function arg distinct type =>
    refine Mirrors.bind ?_ fun v _ => .pure _
    cases arg with
    | none => rfl
    | some e =>
      refine Mirrors.bind (mirrors_liftEval (Mirrors.mapM fun row hrow => ?_)) fun _ _ => rfl
      exact h.on hrow e.evaluate
  | _ => rfl

/-- Expressions are evaluated on a group as they are without the check. -/
theorem Reads.groupValue {group : List Row} (h : read.Reads columns group) (e : Expr) :
    Mirrors Stop.fault (Relation.groupValue columns group e) (read.groupValue columns group e) := by
  refine (e.transformUpM_mirrors h.aggregateNode).bind fun reduced _ => mirrors_liftEval ?_
  cases group with
  | nil => rfl
  | cons row group =>
    rw [Reader.groupEnv, h row List.mem_cons_self]
    rfl

/-- Rows are projected as they are without the check. -/
theorem Reads.projectRows {r : Relation} (h : read.Reads r.columns r.rows) (cs : List Column)
    (gs : List Expr) : Mirrors Stop.fault (r.projectRows cs gs) (read.projectRows r cs gs) := by
  unfold Relation.projectRows Reader.projectRows
  split
  · refine (mirrors_liftEval (h.groupRows gs)).bind fun groups hgroups => ?_
    refine Mirrors.mapM fun group hgroup => Mirrors.mapM fun c _ => ?_
    have hrows := Relation.mem_of_mem_groupRows (liftEval_eq_ok_iff.1 hgroups) hgroup
    exact (h.mono hrows).groupValue c.expr
  · exact mirrors_liftEval (Mirrors.mapM fun row hrow => h.on hrow _)

/-- Relations are joined as they are without the check, if the rows of both together are readable.
-/
theorem Reads.join {l r : Relation}
    (h : ∀ a ∈ l.rows, read.Reads (l.columns ++ r.columns) (r.rows.map (a ++ ·)))
    (kind : JoinKind) (on : Option Expr) :
    Mirrors Stop.fault (Relation.join kind l r on) (read.join kind l r on) := by
  have hmatching : ∀ a ∈ l.rows, ∀ condition : Option Expr,
      Mirrors Stop.ofEval (Relation.matching (l.columns ++ r.columns) condition a r.rows)
        (read.matching (l.columns ++ r.columns) condition a r.rows) := by
    intro a ha condition
    cases condition with
    | none => rfl
    | some p => exact (h a ha).filterRows p
  cases kind with
  | right | full => rfl
  | inner | left | cross =>
    refine Mirrors.bind (mirrors_liftEval (Mirrors.mapM fun a ha => ?_)) fun _ _ => .pure _
    refine (hmatching a ha _).bind fun found _ => ?_
    split <;> exact .pure _

/-! ### Whole trees -/

variable {tables : Tables}

/-- The reader gives the cells of all rows that a tree over the tables can evaluate an expression
on: those of its relations, and those that a join puts together. -/
structure ReadsAll (read : Reader) (S : Sorter) (tables : Tables) : Prop where
  rows : ∀ {e : Expr} {r : Relation}, S.relation tables e = .ok r → read.Reads r.columns r.rows
  pairs : ∀ {left right : Expr} {l r : Relation}, S.relation tables left = .ok l →
    S.relation tables right = .ok r →
      ∀ a ∈ l.rows, read.Reads (l.columns ++ r.columns) (r.rows.map (a ++ ·))

/-- With such a reader the interpreter computes the same relation or ends in the same way. -/
theorem ReadsAll.relation (h : read.ReadsAll S tables) (e : Expr) :
    Mirrors Stop.halt (S.relation tables e) (read.relation S tables e) := by
  induction e using Expr.treeInduction with
  | filter input p ih _ =>
    refine ih.bind fun r hr => ?_
    exact (mirrors_halt (mirrors_liftEval ((h.rows hr).filterRows p))).bind fun rows _ => .pure _
  | project qualifier input cs distinct gs ih _ _ =>
    refine ih.bind fun r hr => mirrors_halt ?_
    exact ((h.rows hr).projectRows cs gs).bind fun rows _ => .pure _
  | order input keys ih _ => exact ih.bind fun r hr => (h.rows hr).sort keys
  | limit input take skip ih _ _ =>
    refine ih.bind fun r _ => ?_
    refine Mirrors.bind (mirrors_halt rfl) fun skipped _ => ?_
    exact Mirrors.bind (mirrors_halt rfl) fun taken _ => .pure _
  | join kind left right on ihl ihr _ =>
    refine ihl.bind fun l hl => ihr.bind fun r hr => mirrors_halt ?_
    exact Reads.join (h.pairs hl hr) kind on
  | setOp op all left right qualifier ihl ihr =>
    exact ihl.bind fun l _ => ihr.bind fun r _ => mirrors_halt rfl
  | _ => exact mirrors_halt rfl

/-- Over tables of which every relation is readable, the check changes nothing about a run. -/
theorem ReadsAll.run (h : read.ReadsAll S tables) (e : Expr) :
    read.run S tables e = (S.run tables e).mapError .halt := by
  unfold Reader.run Sorter.run
  split
  · exact (h.relation e).bind fun r _ => .pure _
  · exact mirrors_halt (mirrors_liftEval rfl)

/-- Without the check every row is readable. -/
theorem readsAll_unchecked (S : Sorter) (tables : Tables) : unchecked.ReadsAll S tables where
  rows _ _ _ := rfl
  pairs _ _ _ _ _ _ := rfl

/-- Over rectangular tables every row has a cell for each column, and so has every pair of rows. -/
theorem readsAll_checked (S : Sorter) (ht : tables.Rectangular) : checked.ReadsAll S tables where
  rows hr row hrow := checked_eq_ok (Sorter.relation_rectangular ht hr row hrow)
  pairs hl hr a ha row hrow := by
    obtain ⟨b, hb, rfl⟩ := List.mem_map.1 hrow
    refine checked_eq_ok ?_
    rw [List.length_append, List.length_append, Sorter.relation_rectangular ht hl a ha,
      Sorter.relation_rectangular ht hr b hb]

end Reader

/-! ### The answers -/

namespace Expr

/-- Over rectangular tables, and with any sort, every node of a tree has a rectangular relation if
it has one, and a run never comes to a row that is too short for its columns. A relational tree
gives a fault or a rectangular row set, unless the sort gives up, which it does only if some
ordering of the tree does not compare by an order; any other tree is evaluated as a scalar. The runs
are those of the interpreter if the sort is its own, or if all orderings compare by an order. -/
theorem rectangular_run {tables : Tables} (ht : tables.Rectangular) (S : Sorter) (e : Expr) :
    (∀ node ∈ e.nodes, ∀ r, S.relation tables node = .ok r → r.Rectangular) ∧
    (Reader.unchecked.run S tables e = (S.run tables e).mapError .halt ∧
      Reader.checked.run S tables e = (S.run tables e).mapError .halt) ∧
    (e.isRelational = true →
      (∃ fault, S.run tables e = .error (.fault fault)) ∨
        (∃ set, S.run tables e = .ok (.rows set) ∧ set.Rectangular) ∨
        (S.run tables e = .error .unsorted ∧ ¬ Sorter.KeysOrdered tables e)) ∧
    (e.isRelational = false →
      S.run tables e = (Relation.liftEval (e.evaluate .empty)).mapError .fault) ∧
    (S = .stable ∨ Sorter.KeysOrdered tables e →
      S.run tables e = (e.run tables).mapError .fault) := by
  refine ⟨fun node _ r => Sorter.relation_rectangular ht, ⟨(Reader.readsAll_unchecked S tables).run e,
    (Reader.readsAll_checked S ht).run e⟩, ?_, ?_, ?_⟩
  · intro he
    cases hrun : S.run tables e with
    | error halt =>
      cases halt with
      | fault fault => exact .inl ⟨fault, rfl⟩
      | unsorted =>
        refine .inr (.inr ⟨rfl, fun hordered => ?_⟩)
        -- an interpreter does not give up, so neither does a sorter that agrees with it
        rw [Sorter.run_of_keysOrdered hordered] at hrun
        cases hresult : e.run tables with
        | error fault => rw [hresult] at hrun; cases hrun
        | ok v => rw [hresult] at hrun; cases hrun
    | ok v =>
      obtain ⟨r, hr, rfl⟩ := (Sorter.run_eq_ok_iff he).1 hrun
      refine .inr (.inl ⟨r.toRowSet, rfl, fun row hrow => ?_⟩)
      rw [Relation.toRowSet, List.length_map]
      exact Sorter.relation_rectangular ht hr row hrow
  · intro he
    rw [Sorter.run, if_neg (by rw [he]; exact Bool.false_ne_true)]
  · rintro (rfl | hordered)
    · exact Sorter.run_stable tables e
    · exact Sorter.run_of_keysOrdered hordered

/-- Two people, of whom one has tasks. -/
def peopleAndTasks : Tables :=
  [("person", ⟨["name"], [[.text "ada"], [.text "ben"]]⟩),
    ("task", ⟨["id", "owner"], [[.int 1, .text "ada"], [.int 2, .text "ada"]]⟩)]

/-- The number of tasks of each person, and then the last of no tasks: rows filled up with NULL,
groups of them, and a group of no rows. -/
def loadsAndLast : Expr :=
  .setOp .union true
    (.project "l"
      (.join .left (mkScan (source ⟨"person", none⟩) "p") (mkScan (source ⟨"task", none⟩) "t")
        (some (mkBinary .eq (.column "t" "owner" .string) (.column "p" "name" .string))))
      [⟨"name", .column "p" "name" .string⟩,
        ⟨"n", mkAggregate .count (some (.column "t" "id" .int64)) false⟩]
      false [.column "p" "name" .string])
    (.project "r"
      (.filter (mkScan (source ⟨"task", none⟩) "t")
        (mkBinary .gt (.column "t" "id" .int64) (.int 2)))
      [⟨"owner", .column "t" "owner" .string⟩,
        ⟨"last", mkAggregate .max (some (.column "t" "id" .int64)) false⟩]
      false [])
    "u"

/-- A join, an aggregate, a sort with a strict sorter and a row of NULLs: no row is read beyond its
end. -/
theorem rectangular_run_loadsAndLast :
    peopleAndTasks.Rectangular ∧
      Sorter.strict.run peopleAndTasks loadsAndLast = .ok (.rows ⟨["name", "n"],
        [[.text "ada", .int 2], [.text "ben", .int 0], [.null, .null]]⟩) ∧
      Reader.checked.run Sorter.strict peopleAndTasks loadsAndLast = .ok (.rows ⟨["name", "n"],
        [[.text "ada", .int 2], [.text "ben", .int 0], [.null, .null]]⟩) := by
  have ht : peopleAndTasks.Rectangular := by decide
  obtain ⟨_, ⟨_, hchecked⟩, _, _, hsame⟩ := rectangular_run ht Sorter.strict loadsAndLast
  have hrun := hsame (.inr ⟨⟨trivial, trivial⟩, trivial⟩)
  refine ⟨ht, hrun, ?_⟩
  rw [hchecked, hrun]
  rfl

-- Over a table that is not rectangular the check stops a run.
example :
    Reader.checked.run .stable [("t", ⟨["a", "b"], [[.int 1]]⟩)]
        (.filter (mkScan (source ⟨"t", none⟩) "t") (.const (.bool true) .bool)) =
      .error (.shortRow [("t", "a"), ("t", "b")] [.int 1]) := rfl

/-- A number, and a row set that is not rectangular, are trees that run to themselves; and numbers
on either side of a text are no order to a sort that looks for one. -/
theorem run_const_not_rectangular :
    run [] (.int 7) = .ok (.int 7) ∧
      run [] (.const (.rows ⟨["a"], [[]]⟩) .int64) = .ok (.rows ⟨["a"], [[]]⟩) ∧
      ¬ (⟨["a"], [[]]⟩ : RowSet).Rectangular ∧
      Sorter.strict.run [("t", ⟨["a"], [[.int 2], [.text "x"], [.int 1]]⟩)]
          (.order (mkScan (source ⟨"t", none⟩) "t") [⟨.column "t" "a" .int64, .ascending⟩]) =
        .error .unsorted := by
  refine ⟨rfl, rfl, ?_, rfl⟩
  intro h
  exact absurd (h [] List.mem_cons_self) (by decide)

end Expr

end QueryTree
