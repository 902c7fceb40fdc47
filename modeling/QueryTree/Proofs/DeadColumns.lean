import QueryTree.Pass.DeadColumns
import QueryTree.Proofs.Rebuild
import QueryTree.Proofs.SortContract

/-!
# Dead-column elimination keeps the rows

A pruned tree computes narrower rows. What ties them to the rows of the original is `Narrowed`: row
by row, the two answer alike for every column that is still needed, and the needed columns are there
in both or in neither. Every expression above reads needed columns only, so it has the same value on
both (`valueOn_congr`, `Narrowed.groupValue`), and each node keeps the correspondence, from the
scans up to the output, where nothing is pruned and the rows are the same (`prune_narrowed`).

Two things about a column are not seen by the names that refer to it, and there the result can
change. `PruneSafe` says that neither happens.

* An ungrouped projection is an aggregation because one of its columns has an aggregate. When that
  column is dropped as unread, the projection computes a row for each row of its input
  (`run_deadColumns_oneOfCount`).
* An aggregate inside a relational node inside a column is computed, but the columns it reads are not
  counted, since such a node has a scope of its own (`run_prune_decidedBeforeSum`).

Nothing else is asked of the tree: not that names are distinct, not that the rows below an output
are unique, and not that columns referred to exist where no row reaches them.
-/

namespace QueryTree

open Attempt

namespace Relation

/-! ### Columns of wider rows -/

/-- A column is looked for on the left first. -/
theorem rowEnv_append {columns columns' : List QualifiedName} {row : Row}
    (hrow : row.length = columns.length) (row' : Row) (a n : String) :
    (rowEnv (columns ++ columns') (row ++ row')).column a n =
      ((rowEnv columns row).column a n).or ((rowEnv columns' row').column a n) := by
  simp only [rowEnv, index?, List.findIdx?_append]
  cases hi : columns.findIdx? fun c => c.1 == a && c.2 == n with
  | some i =>
    have hlt : i < row.length := hrow ▸ (List.findIdx?_eq_some_iff_getElem.1 hi).1
    simp [List.getElem?_append_left hlt, List.getElem?_eq_getElem hlt]
  | none =>
    cases columns'.findIdx? fun c => c.1 == a && c.2 == n with
    | none => rfl
    | some j => simp [← hrow, List.getElem?_append_right]

/-- On a row of NULLs every column that is there is NULL. -/
theorem rowEnv_nulls (columns : List QualifiedName) (a n : String) :
    (rowEnv columns (List.replicate columns.length .null)).column a n =
      (index? columns a n).map fun _ => .null := by
  simp only [rowEnv]
  cases hi : index? columns a n with
  | none => rfl
  | some i =>
    have hlt : i < columns.length := (List.findIdx?_eq_some_iff_getElem.1 hi).1
    simp [hlt]

/-- A column of a join is found on the left or on the right. -/
theorem index?_append_isSome (columns columns' : List QualifiedName) (a n : String) :
    (index? (columns ++ columns') a n).isSome =
      ((index? columns a n).isSome || (index? columns' a n).isSome) := by
  simp [index?, List.findIdx?_isSome]

/-- A column of a projection is the first one of its name. -/
theorem rowEnv_projected (q : String) (cs : List Column) (g : Column → Value) (a n : String) :
    (rowEnv (projectedColumns q cs) (cs.map g)).column a n =
      (cs.find? fun c => q == a && c.name == n).map g := by
  induction cs with
  | nil => rfl
  | cons c cs ih =>
    rw [projectedColumns, List.map_cons, List.map_cons, rowEnv_column_cons, List.find?_cons]
    split
    next h => rw [h]; rfl
    next h =>
      rw [Bool.not_eq_true] at h
      rw [h]
      exact ih

/-- A column of a projection is found if the projection has one of that name. -/
theorem index?_projected_isSome (q : String) (cs : List Column) (a n : String) :
    (index? (projectedColumns q cs) a n).isSome =
      (cs.find? fun c => q == a && c.name == n).isSome := by
  rw [index?, projectedColumns, List.findIdx?_isSome, List.any_map, Bool.eq_iff_iff,
    List.find?_isSome, List.any_eq_true]
  rfl

end Relation

namespace Expr

/-! ### The columns that are kept -/

variable {needed : List ColumnRef} {q : String} {cs : List Column}

/-- The columns that are kept were there. -/
theorem mem_of_mem_keptColumns {c : Column} (h : c ∈ keptColumns needed q cs) : c ∈ cs := by
  simp only [keptColumns] at h
  split at h
  · exact List.mem_of_mem_take h
  · exact (List.mem_filter.1 h).1

/-- A column that is needed is found among the kept ones where it was found before. When no column
is needed the first one stays, but then it is not the one looked for. -/
theorem find?_keptColumns {ref : ColumnRef} (href : ref ∈ needed) :
    ((keptColumns needed q cs).find? fun c => q == ref.qualifier && c.name == ref.name) =
      cs.find? fun c => q == ref.qualifier && c.name == ref.name := by
  have hneeded : ∀ c : Column, (q == ref.qualifier && c.name == ref.name) = true →
      needed.contains ⟨q, c.name⟩ = true := by
    intro c hc
    simp only [Bool.and_eq_true, beq_iff_eq] at hc
    rw [hc.1, hc.2]
    exact List.contains_iff_mem.2 href
  simp only [keptColumns]
  split
  next hempty =>
    -- nothing is needed, so neither list has the column
    have hnone : ∀ c ∈ cs, ¬ (q == ref.qualifier && c.name == ref.name) = true := by
      intro c hc hmatch
      have hkept : c ∈ cs.filter fun c => needed.contains ⟨q, c.name⟩ :=
        List.mem_filter.2 ⟨hc, hneeded c hmatch⟩
      rw [List.isEmpty_iff.1 hempty] at hkept
      cases hkept
    rw [List.find?_eq_none.2 fun c hc => hnone c (List.mem_of_mem_take hc),
      List.find?_eq_none.2 hnone]
  next =>
    rw [List.find?_filter]
    congr 1
    funext c
    cases hmatch : q == ref.qualifier && c.name == ref.name with
    | false => simp
    | true => rw [hneeded c hmatch]; rfl

end Expr

/-! ### Rows that agree on the columns needed -/

namespace Relation

/-- Row by row the two lists, under their columns, answer alike for the needed columns. -/
def RowsAgree (needed : List ColumnRef) (columns columns' : List QualifiedName)
    (rows rows' : List Row) : Prop :=
  List.Forall₂ (fun row row' => Env.AgreeOn needed (rowEnv columns row) (rowEnv columns' row'))
    rows rows'

section RowsAgree

variable {needed : List ColumnRef} {columns columns' : List QualifiedName} {rows rows' : List Row}

/-- Rows that agree on some references agree on fewer. -/
theorem RowsAgree.mono (h : RowsAgree needed columns columns' rows rows') {needed' : List ColumnRef}
    (hneeded : ∀ ref ∈ needed', ref ∈ needed) : RowsAgree needed' columns columns' rows rows' :=
  h.imp fun _ _ hrow => hrow.mono hneeded

/-- An expression has the same value on rows that agree on what it reads. -/
theorem valueOn_congr {row row' : Row} {e : Expr}
    (h : Env.AgreeOn needed (rowEnv columns row) (rowEnv columns' row'))
    (he : ∀ ref ∈ e.columnRefs, ref ∈ needed) :
    valueOn columns e row = valueOn columns' e row' := by
  rw [valueOn, valueOn, e.evaluate_congr (h.mono he)]

/-- An expression that reads needed columns only is defined on both lists or on neither. -/
theorem RowsAgree.defined (h : RowsAgree needed columns columns' rows rows') {e : Expr}
    (he : ∀ ref ∈ e.columnRefs, ref ∈ needed) (hdef : Defined columns e rows) :
    Defined columns' e rows' := by
  intro row' hrow'
  obtain ⟨row, hrow, hagree⟩ := exists_rel_of_mem_right h hrow'
  rw [← e.evaluate_congr (hagree.mono he), ← valueOn_congr hagree he]
  exact hdef row hrow

/-- A condition selects the same rows where they agree on what it reads. -/
theorem RowsAgree.filter (h : RowsAgree needed columns columns' rows rows') {p : Expr}
    (hp : ∀ ref ∈ p.columnRefs, ref ∈ needed) :
    RowsAgree needed columns columns' (rows.filter (holdsOn columns p))
      (rows'.filter (holdsOn columns' p)) := by
  refine List.rel_filter (fun row row' hagree => ?_) h
  show holdsOn columns p row = true ↔ holdsOn columns' p row' = true
  rw [holdsOn, holdsOn, valueOn_congr hagree hp]

/-- Rows that agree on what the keys read are put in the same order. -/
theorem RowsAgree.sortBy (h : RowsAgree needed columns columns' rows rows') {ks : List OrderKey}
    (hks : ∀ k ∈ ks, ∀ ref ∈ k.expr.columnRefs, ref ∈ needed) :
    RowsAgree needed columns columns' (sortBy (rowCompare columns ks) rows)
      (Relation.sortBy (rowCompare columns' ks) rows') := by
  refine sortBy_rel h fun a a' b b' ha hb => ?_
  refine rowCompare_congr (fun k hk => ?_) fun k hk => ?_
  · exact valueOn_congr ha (hks k hk)
  · exact valueOn_congr hb (hks k hk)

/-- A window takes rows at the same places. -/
theorem RowsAgree.window (h : RowsAgree needed columns columns' rows rows')
    (skip take : Option Nat) :
    RowsAgree needed columns columns' (Expr.window skip take rows)
      (Expr.window skip take rows') := by
  have hdrop := List.forall₂_drop (skip.getD 0) h
  cases take with
  | none => exact hdrop
  | some n => exact List.forall₂_take n hdrop

end RowsAgree

/-- The rows agree on the needed columns, and these are columns of both relations or of neither. -/
structure Narrowed (needed : List ColumnRef) (r r' : Relation) : Prop where
  rows : RowsAgree needed r.columns r'.columns r.rows r'.rows
  present : ∀ ref ∈ needed, (index? r.columns ref.qualifier ref.name).isSome =
    (index? r'.columns ref.qualifier ref.name).isSome

/-- A relation that nothing is left out of is narrowed to itself. -/
theorem Narrowed.refl (needed : List ColumnRef) (r : Relation) : Narrowed needed r r where
  rows := List.forall₂_same.2 fun _ _ => ⟨fun _ => rfl, fun _ _ => rfl⟩
  present _ _ := rfl

/-- Fewer references are easier to agree on. -/
theorem Narrowed.mono {needed needed' : List ColumnRef} {r r' : Relation} (h : Narrowed needed r r')
    (hneeded : ∀ ref ∈ needed', ref ∈ needed) : Narrowed needed' r r' where
  rows := h.rows.mono hneeded
  present ref href := h.present ref (hneeded ref href)

/-! ### Joins -/

section Join

variable {needed : List ColumnRef} {l l' r r' : Relation}

/-- Joined rows agree where both parts do. -/
theorem agreeOn_append {columns columns' other other' : List QualifiedName} {row row' x x' : Row}
    (hrow : row.length = columns.length) (hrow' : row'.length = columns'.length)
    (h : Env.AgreeOn needed (rowEnv columns row) (rowEnv columns' row'))
    (hx : Env.AgreeOn needed (rowEnv other x) (rowEnv other' x')) :
    Env.AgreeOn needed (rowEnv (columns ++ other) (row ++ x))
      (rowEnv (columns' ++ other') (row' ++ x')) where
  parameter _ := rfl
  column ref href := by
    rw [rowEnv_append hrow, rowEnv_append hrow', h.column ref href, hx.column ref href]

/-- What is NULL wherever it is present agrees where presence does. -/
theorem map_null_eq {o o' : Option Nat} (h : o.isSome = o'.isSome) :
    (o.map fun _ => Value.null) = o'.map fun _ => Value.null := by
  cases o with
  | none => cases o' with
    | none => rfl
    | some _ => cases h
  | some _ => cases o' with
    | none => cases h
    | some _ => rfl

/-- Rows of NULLs agree. -/
theorem Narrowed.nulls (h : Narrowed needed r r') :
    Env.AgreeOn needed (rowEnv r.columns (List.replicate r.columns.length .null))
      (rowEnv r'.columns (List.replicate r'.columns.length .null)) where
  parameter _ := rfl
  column ref href := by
    rw [rowEnv_nulls, rowEnv_nulls]
    exact map_null_eq (h.present ref href)

section Row

variable {columns columns' : List QualifiedName} {row row' : Row}
  (hrow : row.length = columns.length) (hrow' : row'.length = columns'.length)
  (hagree : Env.AgreeOn needed (rowEnv columns row) (rowEnv columns' row'))
  {on : Option Expr} (hon : ∀ p ∈ on, ∀ ref ∈ p.columnRefs, ref ∈ needed) {found : List Row}

include hrow hrow' hagree hon

/-- The matches of left rows that agree are rows that agree. -/
theorem Narrowed.matching (hr : Narrowed needed r r')
    (h : matching (columns ++ r.columns) on row r.rows = .ok found) :
    ∃ found', Relation.matching (columns' ++ r'.columns) on row' r'.rows = .ok found' ∧
      RowsAgree needed (columns ++ r.columns) (columns' ++ r'.columns) found found' := by
  have hcombined : RowsAgree needed (columns ++ r.columns) (columns' ++ r'.columns)
      (r.rows.map (row ++ ·)) (r'.rows.map (row' ++ ·)) := by
    rw [RowsAgree, List.forall₂_map_left_iff, List.forall₂_map_right_iff]
    exact hr.rows.imp fun x x' hx => agreeOn_append hrow hrow' hagree hx
  cases on with
  | none =>
    obtain rfl := Except.ok.inj h
    exact ⟨_, rfl, hcombined⟩
  | some p =>
    obtain ⟨hdef, rfl⟩ := filterRows_eq_ok_iff.1 h
    have hp := hon p rfl
    exact ⟨_, filterRows_eq_ok_iff.2 ⟨hcombined.defined hp hdef, rfl⟩, hcombined.filter hp⟩

/-- A row finds the same partners, cut to what is read. -/
theorem Narrowed.joinRow (hr : Narrowed needed r r') {kind : JoinKind}
    (h : joinRow kind (columns ++ r.columns) on r.columns.length r.rows row = .ok found) :
    ∃ found', Relation.joinRow kind (columns' ++ r'.columns) on r'.columns.length r'.rows row' =
        .ok found' ∧
      RowsAgree needed (columns ++ r.columns) (columns' ++ r'.columns) found found' := by
  obtain ⟨matched, hmatched, h⟩ := bind_eq_ok_iff.1 h
  obtain ⟨matched', hmatched', hrel⟩ := hr.matching hrow hrow' hagree hon hmatched
  have hempty : matched'.isEmpty = matched.isEmpty := by
    cases hrel <;> rfl
  rw [Relation.joinRow, hmatched']
  split at h
  next hleft =>
    obtain rfl := pure_eq_ok_iff.1 h
    refine ⟨_, by rw [← hempty] at hleft; exact if_pos hleft, ?_⟩
    exact .cons (agreeOn_append hrow hrow' hagree hr.nulls) .nil
  next hleft =>
    obtain rfl := pure_eq_ok_iff.1 h
    exact ⟨_, by rw [← hempty] at hleft; exact if_neg hleft, hrel⟩

end Row

/-- Joins of relations that agree agree. -/
theorem Narrowed.join (hl : Narrowed needed l l') (hr : Narrowed needed r r')
    (hrect : l.Rectangular) (hrect' : l'.Rectangular) {kind : JoinKind} {on : Option Expr}
    (hon : ∀ p ∈ on, ∀ ref ∈ p.columnRefs, ref ∈ needed) {s : Relation}
    (h : join kind l r on = .ok s) :
    ∃ s', Relation.join kind l' r' on = .ok s' ∧ Narrowed needed s s' := by
  obtain ⟨hkind, rows, hrows, rfl⟩ := join_eq_ok_iff.1 h
  have hon' : ∀ p ∈ (if kind = .cross then none else on), ∀ ref ∈ p.columnRefs, ref ∈ needed := by
    split
    · exact fun p hp => nomatch hp
    · exact hon
  obtain ⟨rows', hrows', hrel⟩ := mapM_rel (forall₂_and_mem hl.rows)
    (fun row row' found hboth hfound => hr.joinRow (hrect row hboth.2.1) (hrect' row' hboth.2.2)
      hboth.1 hon' hfound) hrows
  refine ⟨_, join_eq_ok_iff.2 ⟨hkind, rows', hrows', rfl⟩, List.rel_flatten hrel, fun ref href => ?_⟩
  rw [index?_append_isSome, index?_append_isSome, hl.present ref href, hr.present ref href]

end Join

/-! ### Groups -/

section Group

variable {needed : List ColumnRef} {columns columns' : List QualifiedName}

/-- Groups with the same keys, whose rows agree. -/
abbrev GroupsAgree (needed : List ColumnRef) (columns columns' : List QualifiedName) :
    List (List Value × List Row) → List (List Value × List Row) → Prop :=
  List.Forall₂ fun g g' => g.1 = g'.1 ∧ RowsAgree needed columns columns' g.2 g'.2

/-- Adding rows that agree to groups that agree leaves groups that agree. -/
theorem GroupsAgree.addToGroup {groups groups' : List (List Value × List Row)}
    (h : GroupsAgree needed columns columns' groups groups') (key : List Value) {row row' : Row}
    (hrow : Env.AgreeOn needed (rowEnv columns row) (rowEnv columns' row')) :
    GroupsAgree needed columns columns' (addToGroup key row groups)
      (Relation.addToGroup key row' groups') := by
  induction h with
  | nil => exact .cons ⟨rfl, .cons hrow .nil⟩ .nil
  | @cons g g' gs gs' hg _ ih =>
    rw [Relation.addToGroup, Relation.addToGroup, hg.1]
    split
    · exact .cons ⟨rfl, List.rel_append hg.2 (.cons hrow .nil)⟩ ‹_›
    · exact .cons ⟨rfl, hg.2⟩ ih

/-- Rows that agree fall into the same groups when the keys read needed columns only. Without keys
all rows are one group. With keys the groups are built up row by row on both sides, and each row
finds its group at the same place, since the keys have the same values. -/
theorem Narrowed.groupRows {r r' : Relation} (h : Narrowed needed r r') {gs : List Expr}
    (hgs : ∀ g ∈ gs, ∀ ref ∈ g.columnRefs, ref ∈ needed) {groups : List (List Row)}
    (hgroups : r.groupRows gs = .ok groups) :
    ∃ groups', r'.groupRows gs = .ok groups' ∧
      List.Forall₂ (RowsAgree needed r.columns r'.columns) groups groups' := by
  rw [Relation.groupRows] at hgroups ⊢
  cases hempty : gs.isEmpty with
  | true =>
    rw [hempty] at hgroups
    obtain rfl := Except.ok.inj hgroups
    exact ⟨_, rfl, .cons h.rows .nil⟩
  | false =>
    rw [hempty] at hgroups
    obtain ⟨keyed, hkeyed, hgroups⟩ := bind_eq_ok_iff.1 hgroups
    obtain rfl := pure_eq_ok_iff.1 hgroups
    have hstep : ∀ (groups groups' : List (List Value × List Row)) (row row' : Row)
        (next : List (List Value × List Row)),
        GroupsAgree needed r.columns r'.columns groups groups' →
        Env.AgreeOn needed (rowEnv r.columns row) (rowEnv r'.columns row') →
        (return addToGroup (← Expr.evaluateList (rowEnv r.columns row) gs) row groups) = .ok next →
        ∃ next', (return addToGroup (← Expr.evaluateList (rowEnv r'.columns row') gs) row' groups') =
          .ok next' ∧ GroupsAgree needed r.columns r'.columns next next' := by
      intro groups groups' row row' next hgroups hrow hnext
      obtain ⟨key, hkey, hnext⟩ := bind_eq_ok_iff.1 hnext
      obtain rfl := pure_eq_ok_iff.1 hnext
      have hsame : Expr.evaluateList (rowEnv r.columns row) gs =
          Expr.evaluateList (rowEnv r'.columns row') gs := by
        rw [Expr.evaluateList_eq, Expr.evaluateList_eq]
        exact mapM_congr fun g hg => g.evaluate_congr (hrow.mono (hgs g hg))
      exact ⟨_, bind_eq_ok_iff.2 ⟨key, hsame ▸ hkey, rfl⟩, hgroups.addToGroup key hrow⟩
    obtain ⟨keyed', hkeyed', hrel⟩ := foldlM_rel h.rows hstep .nil hkeyed
    refine ⟨_, bind_eq_ok_iff.2 ⟨keyed', hkeyed', rfl⟩, ?_⟩
    rw [List.forall₂_map_left_iff, List.forall₂_map_right_iff]
    exact hrel.imp fun _ _ hg => hg.2

/-! ### Aggregates -/

/-- Over a group, an aggregate becomes a constant and any other node stays. -/
theorem reducesAggregates_aggregateNode (columns : List QualifiedName) (group : List Row) :
    Expr.ReducesAggregates (aggregateNode columns group) where
  other e he := by
    cases e <;> first | rfl | cases he
  aggregate e x he hx := by
    cases e with
    | aggregate f a d t =>
      obtain ⟨v, _, hx⟩ := bind_eq_ok_iff.1 hx
      obtain rfl := pure_eq_ok_iff.1 hx
      rfl
    | _ => cases he

/-- An aggregate of needed columns is the same over groups that agree. -/
theorem RowsAgree.aggregate {group group' : List Row}
    (h : RowsAgree needed columns columns' group group') {arg : Option Expr}
    (harg : ∀ e ∈ arg, ∀ ref ∈ e.columnRefs, ref ∈ needed) (f : AggregateFunction) (d : Bool) :
    Below (aggregate columns group f arg d) (Relation.aggregate columns' group' f arg d) := by
  cases arg with
  | none => exact .of_eq (by rw [Relation.aggregate, Relation.aggregate, h.length_eq])
  | some e =>
    refine Below.bind (fun values hvalues => ?_) fun values _ => .refl _
    rw [liftEval_eq_ok_iff] at hvalues ⊢
    refine Below.mapM (h.imp fun row row' hrow => ?_) values hvalues
    exact .of_eq (e.evaluate_congr (hrow.mono (harg e rfl)))

/-- The aggregates inside an expression, at any depth, read these columns only. -/
def AggregatesRead (refs : List ColumnRef) (e : Expr) : Prop :=
  ∀ n ∈ e.nodes, n.isAggregate = true → ∀ ref ∈ n.columnRefs, ref ∈ refs

instance (refs : List ColumnRef) (e : Expr) : Decidable (AggregatesRead refs e) :=
  inferInstanceAs (Decidable (∀ n ∈ e.nodes, n.isAggregate = true → ∀ ref ∈ n.columnRefs, ref ∈ refs))

/-- The rest of a grouped column is evaluated on first rows that agree, or on NULLs. -/
theorem Narrowed.groupEnv {r r' : Relation} (h : Narrowed needed r r') {group group' : List Row}
    (hgroup : RowsAgree needed r.columns r'.columns group group') :
    Env.AgreeOn needed (groupEnv r.columns group) (Relation.groupEnv r'.columns group') := by
  cases hgroup with
  | nil => exact ⟨fun _ => rfl, fun ref href => map_null_eq (h.present ref href)⟩
  | cons hrow _ => exact hrow

/-- A column over groups that agree has the same value when all it reads is needed. -/
theorem Narrowed.groupValue {r r' : Relation} (h : Narrowed needed r r') {group group' : List Row}
    (hgroup : RowsAgree needed r.columns r'.columns group group') {e : Expr}
    (he : ∀ ref ∈ e.columnRefs, ref ∈ needed) (hagg : AggregatesRead needed e) :
    Below (groupValue r.columns group e) (Relation.groupValue r'.columns group' e) := by
  have hreduces := reducesAggregates_aggregateNode r.columns group
  refine Below.bind (Expr.transformUpM_below hreduces (reducesAggregates_aggregateNode _ _) ?_)
    fun reduced hreduced => ?_
  · intro n hn hn' y hy
    cases hy with
    | @aggregate a a' f d t hrel =>
      refine Below.bind (hgroup.aggregate (fun e' he' ref href => ?_) f d) fun _ _ => .refl _
      cases hrel with
      | none => cases he'
      | @some c c' hc =>
        -- the argument comes here with its own aggregates computed
        obtain rfl := Option.some.inj he'
        exact hagg _ hn rfl ref (Expr.columnRefs_reduced hreduces hc ref href)
    | _ => cases hn'
  · refine .of_eq (congrArg liftEval (reduced.evaluate_congr ((h.groupEnv hgroup).mono ?_)))
    exact fun ref href => he ref (Expr.columnRefs_reduced hreduces hreduced ref href)

end Group

/-! ### Projections -/

section Project

variable {needed : List ColumnRef} {r r' : Relation} {cs cs' : List Column}

/-- Two rows of cells computed column by column, with the same cell for the same column. -/
def CellsAgree (cs cs' : List Column) (row row' : Row) : Prop :=
  ∃ cell : Column → Value, row = cs.map cell ∧ row' = cs'.map cell

/-- Cells that agree under the names that are read make rows that agree. -/
theorem CellsAgree.agreeOn {row row' : Row} (h : CellsAgree cs cs' row row') {q : String}
    (hfind : ∀ ref ∈ needed, (cs'.find? fun c => q == ref.qualifier && c.name == ref.name) =
      cs.find? fun c => q == ref.qualifier && c.name == ref.name) :
    Env.AgreeOn needed (rowEnv (projectedColumns q cs) row)
      (rowEnv (projectedColumns q cs') row') := by
  obtain ⟨cell, rfl, rfl⟩ := h
  refine ⟨fun _ => rfl, fun ref href => ?_⟩
  rw [rowEnv_projected, rowEnv_projected, hfind ref href]

/-- Columns that can be computed can be computed among fewer. -/
theorem exists_cellsAgree {ε : Type} {f f' : Column → Except ε Value} (hsub : ∀ c ∈ cs', c ∈ cs)
    (hbelow : ∀ c ∈ cs', Below (f c) (f' c)) {row : Row} (h : cs.mapM f = .ok row) :
    ∃ row', cs'.mapM f' = .ok row' ∧ CellsAgree cs cs' row row' := by
  obtain ⟨hcells, rfl⟩ := (mapM_eq_ok_iff_map Value.null).1 h
  refine ⟨_, mapM_eq_ok_map fun c hc => ?_, _, rfl, rfl⟩
  exact hbelow c hc _ (hcells c (hsub c hc))

/-- A projection of fewer columns has the same cells, as long as all that the columns read is needed
and the projection is still an aggregation if it was one. -/
theorem Narrowed.projectRows (h : Narrowed needed r r') (hsub : ∀ c ∈ cs', c ∈ cs)
    {gs : List Expr} (hkind : gs = [] → cs.any (fun c => c.expr.hasAggregate) = true →
      cs'.any (fun c => c.expr.hasAggregate) = true)
    (hcs : ∀ c ∈ cs', ∀ ref ∈ c.expr.columnRefs, ref ∈ needed)
    (hagg : ∀ c ∈ cs', AggregatesRead needed c.expr)
    (hgs : ∀ g ∈ gs, ∀ ref ∈ g.columnRefs, ref ∈ needed) {rows : List Row}
    (hrows : r.projectRows cs gs = .ok rows) :
    ∃ rows', r'.projectRows cs' gs = .ok rows' ∧ List.Forall₂ (CellsAgree cs cs') rows rows' := by
  have hsame : (cs'.any (fun c => c.expr.hasAggregate) || !gs.isEmpty) =
      (cs.any (fun c => c.expr.hasAggregate) || !gs.isEmpty) := by
    cases gs with
    | cons g gs => simp
    | nil =>
      simp only [List.isEmpty_nil, Bool.not_true, Bool.or_false]
      rw [Bool.eq_iff_iff]
      refine ⟨fun h' => ?_, hkind rfl⟩
      obtain ⟨c, hc, hcagg⟩ := List.any_eq_true.1 h'
      exact List.any_eq_true.2 ⟨c, hsub c hc, hcagg⟩
  rw [Relation.projectRows] at hrows ⊢
  rw [hsame]
  split at hrows
  next hgrouped =>
    rw [if_pos hgrouped]
    obtain ⟨groups, hgroups, hrows⟩ := bind_eq_ok_iff.1 hrows
    rw [liftEval_eq_ok_iff] at hgroups
    obtain ⟨groups', hgroups', hrel⟩ := h.groupRows hgs hgroups
    obtain ⟨rows', hrows', hcells⟩ := mapM_rel hrel (fun group group' row hgroup hrow =>
      exists_cellsAgree hsub (fun c hc => h.groupValue hgroup (hcs c hc) (hagg c hc)) hrow) hrows
    exact ⟨rows', bind_eq_ok_iff.2 ⟨groups', liftEval_eq_ok_iff.2 hgroups', hrows'⟩, hcells⟩
  next hplain =>
    rw [if_neg hplain]
    simp only [liftEval_eq_ok_iff, Expr.evaluateList_eq, List.mapM_map] at hrows ⊢
    exact mapM_rel h.rows (fun row row' cells hrow hcells =>
      exists_cellsAgree hsub (fun c hc => .of_eq (c.expr.evaluate_congr (hrow.mono (hcs c hc))))
        hcells) hrows

end Project

end Relation

/-! ### Pruned trees -/

namespace Expr

open QueryTree.Relation

/-- The columns that are left of a projection. -/
def survivingColumns (needed : List ColumnRef) (output distinct : Bool) (q : String)
    (cs : List Column) : List Column :=
  if output || distinct then cs else keptColumns needed q cs

/-- The columns that a projection reads of its input. -/
def columnsRead (cs : List Column) (gs : List Expr) : List ColumnRef :=
  columnRefsList (cs.map (·.expr)) ++ columnRefsList gs

/-- The columns that survive were there. -/
theorem mem_of_mem_survivingColumns {needed : List ColumnRef} {output distinct : Bool} {q : String}
    {cs : List Column} {c : Column} (h : c ∈ survivingColumns needed output distinct q cs) :
    c ∈ cs := by
  rw [survivingColumns] at h
  split at h
  · exact h
  · exact mem_of_mem_keptColumns h

/-- A column that is read is found among the survivors, as it was before. -/
theorem find?_survivingColumns {needed : List ColumnRef} (output distinct : Bool) (q : String)
    (cs : List Column) {ref : ColumnRef} (href : ref ∈ needed) :
    ((survivingColumns needed output distinct q cs).find? fun c =>
        q == ref.qualifier && c.name == ref.name) =
      cs.find? fun c => q == ref.qualifier && c.name == ref.name := by
  rw [survivingColumns]
  split
  · rfl
  · exact find?_keptColumns href

/-- The references of a list are those of its members. -/
theorem mem_columnRefsList {es : List Expr} {e : Expr} (he : e ∈ es) {ref : ColumnRef}
    (href : ref ∈ e.columnRefs) : ref ∈ columnRefsList es := by
  rw [columnRefsList_eq]
  exact List.mem_flatMap.2 ⟨e, he, href⟩

/-- The references of an optional expression are its own. -/
theorem mem_columnRefsOption {o : Option Expr} {e : Expr} (he : e ∈ o) {ref : ColumnRef}
    (href : ref ∈ e.columnRefs) : ref ∈ columnRefsOption o := by
  rw [columnRefsOption_eq]
  exact List.mem_flatMap.2 ⟨e, Option.mem_toList.2 he, href⟩

/-- What the names of the columns do not show stays: an ungrouped aggregation keeps a column with an
aggregate, and the aggregates of the columns that are left, also those inside relational nodes, read
columns that are counted as read. -/
def PruneSafe (needed : List ColumnRef) (output : Bool) : Expr → Prop
  | .project q input cs distinct gs =>
    let kept := survivingColumns needed output distinct q cs
    (gs = [] → cs.any (fun c => c.expr.hasAggregate) = true →
        kept.any (fun c => c.expr.hasAggregate) = true) ∧
      (∀ c ∈ kept, AggregatesRead (columnsRead kept gs) c.expr) ∧
      PruneSafe (columnsRead kept gs) false input
  | .filter input p => PruneSafe (needed ++ columnRefs p) output input
  | .order input ks => PruneSafe (needed ++ columnRefsList (ks.map (·.expr))) output input
  | .limit input take skip =>
    PruneSafe (needed ++ columnRefsOption take ++ columnRefsOption skip) output input
  | .join _ left right on =>
    PruneSafe (needed ++ columnRefsOption on) output left ∧
      PruneSafe (needed ++ columnRefsOption on) output right
  | .setOp _ _ left right _ => PruneSafe [] true left ∧ PruneSafe [] true right
  | _ => True

instance decidePruneSafe (needed : List ColumnRef) (output : Bool) :
    (e : Expr) → Decidable (PruneSafe needed output e)
  | .project q input cs distinct gs =>
    let kept := survivingColumns needed output distinct q cs
    have := decidePruneSafe (columnsRead kept gs) false input
    inferInstanceAs (Decidable (_ ∧ _ ∧ _))
  | .filter input p => decidePruneSafe (needed ++ columnRefs p) output input
  | .order input ks => decidePruneSafe (needed ++ columnRefsList (ks.map (·.expr))) output input
  | .limit input take skip =>
    decidePruneSafe (needed ++ columnRefsOption take ++ columnRefsOption skip) output input
  | .join _ left right on =>
    have := decidePruneSafe (needed ++ columnRefsOption on) output left
    have := decidePruneSafe (needed ++ columnRefsOption on) output right
    inferInstanceAs (Decidable (_ ∧ _))
  | .setOp _ _ left right _ =>
    have := decidePruneSafe [] true left
    have := decidePruneSafe [] true right
    inferInstanceAs (Decidable (_ ∧ _))
  | .const .. | .param .. | .column .. | .member .. | .binary .. | .unary .. | .call ..
  | .aggregate .. | .lambda .. | .scan .. => inferInstanceAs (Decidable True)

variable {tables : Tables} {needed : List ColumnRef} {output : Bool}

/-- The projection that is left of a projection computes rows that agree, and the same rows when its
columns are an output. -/
theorem project_narrowed {q : String} {cs : List Column} {distinct : Bool} {gs : List Expr}
    (hkind : gs = [] → cs.any (fun c => c.expr.hasAggregate) = true →
      (survivingColumns needed output distinct q cs).any (fun c => c.expr.hasAggregate) = true)
    (hagg : ∀ c ∈ survivingColumns needed output distinct q cs,
      AggregatesRead (columnsRead (survivingColumns needed output distinct q cs) gs) c.expr)
    {r r' : Relation} {rows : List Row}
    (h : Narrowed (columnsRead (survivingColumns needed output distinct q cs) gs) r r')
    (hrows : r.projectRows cs gs = .ok rows) :
    ∃ rows', r'.projectRows (survivingColumns needed output distinct q cs) gs = .ok rows' ∧
      Narrowed needed ⟨projectedColumns q cs, if distinct then dedup rows else rows⟩
        ⟨projectedColumns q (survivingColumns needed output distinct q cs),
          if distinct then dedup rows' else rows'⟩ ∧
      ((output || distinct) = true → rows' = rows) := by
  obtain ⟨rows', hrows', hcells⟩ := h.projectRows (fun c hc => mem_of_mem_survivingColumns hc) hkind
    (fun c hc ref href => List.mem_append_left _
      (mem_columnRefsList (List.mem_map_of_mem (f := fun c : Column => c.expr) hc) href))
    hagg (fun g hg ref href => List.mem_append_right _ (mem_columnRefsList hg href)) hrows
  have hsame : (output || distinct) = true → rows' = rows := by
    intro hall
    rw [survivingColumns, if_pos hall] at hcells
    refine (List.forall₂_eq_eq_eq ▸ hcells.imp ?_ : rows = rows').symm
    rintro row row' ⟨cell, rfl, rfl⟩
    rfl
  refine ⟨rows', hrows', ⟨?_, fun ref href => ?_⟩, hsame⟩
  · have hagree : RowsAgree needed (projectedColumns q cs)
        (projectedColumns q (survivingColumns needed output distinct q cs)) rows rows' :=
      hcells.imp fun row row' hrow => hrow.agreeOn fun ref href =>
        find?_survivingColumns output distinct q cs href
    cases distinct with
    | false => exact hagree
    | true =>
      obtain rfl := hsame (Bool.or_true output)
      rw [survivingColumns, if_pos (Bool.or_true output)]
      exact (Narrowed.refl needed ⟨projectedColumns q cs, dedup rows'⟩).rows
  · rw [index?_projected_isSome, index?_projected_isSome, find?_survivingColumns _ _ _ _ href]

/-- A pruned tree computes rows that agree on the needed columns, and the same rows when they are an
output. -/
theorem prune_narrowed (ht : tables.Rectangular) {e : Expr} (hsafe : PruneSafe needed output e)
    {r : Relation} (h : relation tables e = .ok r) :
    ∃ r', relation tables (e.prune needed output) = .ok r' ∧ Narrowed needed r r' ∧
      (output = true → r' = r) := by
  induction e using treeInduction generalizing needed output r with
  | scan source a t _ => exact ⟨r, h, .refl _ r, fun _ => rfl⟩
  | filter input p ih _ =>
    obtain ⟨s, hs, hdef, rfl⟩ := relation_filter_eq_ok_iff.1 h
    obtain ⟨s', hs', hrel, hout⟩ := ih hsafe hs
    have hp : ∀ ref ∈ p.columnRefs, ref ∈ needed ++ p.columnRefs :=
      fun ref href => List.mem_append_right _ href
    refine ⟨_, relation_filter_eq_ok_iff.2 ⟨s', hs', hrel.rows.defined hp hdef, rfl⟩, ?_, ?_⟩
    · exact Narrowed.mono ⟨hrel.rows.filter hp, hrel.present⟩ fun ref => List.mem_append_left _
    · intro h
      rw [hout h]
  | order input ks ih _ =>
    obtain ⟨s, hs, hdef, rfl⟩ := relation_order_eq_ok_iff.1 h
    obtain ⟨s', hs', hrel, hout⟩ := ih hsafe hs
    have hks : ∀ k ∈ ks, ∀ ref ∈ k.expr.columnRefs,
        ref ∈ needed ++ columnRefsList (ks.map (·.expr)) := fun k hk ref href =>
      List.mem_append_right _
        (mem_columnRefsList (List.mem_map_of_mem (f := fun k : OrderKey => k.expr) hk) href)
    refine ⟨_, relation_order_eq_ok_iff.2
      ⟨s', hs', fun k hk => hrel.rows.defined (hks k hk) (hdef k hk), rfl⟩, ?_, ?_⟩
    · exact Narrowed.mono ⟨hrel.rows.sortBy hks, hrel.present⟩ fun ref => List.mem_append_left _
    · intro h
      rw [hout h]
  | limit input take skip ih _ _ =>
    obtain ⟨s, skipped, taken, hs, hskip, htake, rfl⟩ := relation_limit_eq_ok_iff.1 h
    obtain ⟨s', hs', hrel, hout⟩ := ih hsafe hs
    refine ⟨_, relation_limit_eq_ok_iff.2 ⟨s', skipped, taken, hs', hskip, htake, rfl⟩, ?_, ?_⟩
    · exact Narrowed.mono ⟨hrel.rows.window skipped taken, hrel.present⟩ fun ref href =>
        List.mem_append_left _ (List.mem_append_left _ href)
    · intro h
      rw [hout h]
  | project q input cs distinct gs ih _ _ =>
    obtain ⟨s, rows, hs, hrows, rfl⟩ := relation_project_eq_ok_iff.1 h
    obtain ⟨hkind, hagg, hinput⟩ := hsafe
    obtain ⟨s', hs', hrel, _⟩ := ih hinput hs
    obtain ⟨rows', hrows', hrel, hout⟩ := project_narrowed hkind hagg hrel hrows
    refine ⟨_, relation_project_eq_ok_iff.2 ⟨s', rows', hs', hrows', rfl⟩, hrel, fun h => ?_⟩
    subst h
    rw [hout rfl]
    rfl
  | join kind left right on ihl ihr _ =>
    obtain ⟨l, s, hl, hs, h⟩ := relation_join_eq_ok_iff.1 h
    obtain ⟨l', hl', hrell, houtl⟩ := ihl hsafe.1 hl
    obtain ⟨s', hs', hrels, houts⟩ := ihr hsafe.2 hs
    obtain ⟨r', hr', hrel⟩ := hrell.join hrels (relation_rectangular ht hl)
      (relation_rectangular ht hl')
      (fun p hp ref href => List.mem_append_right _ (mem_columnRefsOption hp href)) h
    refine ⟨r', relation_join_eq_ok_iff.2 ⟨l', s', hl', hs', hr'⟩,
      hrel.mono fun ref => List.mem_append_left _, fun hout => ?_⟩
    rw [houtl hout, houts hout, h] at hr'
    exact (Except.ok.inj hr').symm
  | setOp op all left right a ihl ihr =>
    obtain ⟨l, s, hl, hs, h⟩ := relation_setOp_eq_ok_iff.1 h
    obtain ⟨l', hl', _, houtl⟩ := ihl hsafe.1 hl
    obtain ⟨s', hs', _, houts⟩ := ihr hsafe.2 hs
    obtain rfl := houtl rfl
    obtain rfl := houts rfl
    exact ⟨r, relation_setOp_eq_ok_iff.2 ⟨l', s', hl', hs', h⟩, .refl _ r, fun _ => rfl⟩
  | const | param | column | member | binary | unary | call | aggregate | lambda => cases h

/-- Pruning leaves a relation a relation. -/
theorem isRelational_prune (e : Expr) : (e.prune needed output).isRelational = e.isRelational := by
  cases e <;> rfl

/-- Dead-column elimination keeps the result of a relational tree: the names of its columns and its
rows in their order. `PruneSafe` asks for what references do not show: an ungrouped aggregation must
keep an aggregate, and what the aggregates read must be counted as read. -/
theorem run_deadColumns (ht : tables.Rectangular) {e : Expr} (he : e.isRelational = true)
    (hsafe : PruneSafe [] true e) {v : Value} (h : run tables e = .ok v) :
    ∃ e', Pass.deadColumns.run e = .ok e' ∧ run tables e' = .ok v := by
  obtain ⟨r, hr, rfl⟩ := (run_eq_ok_iff he).1 h
  obtain ⟨r', hr', _, hsame⟩ := prune_narrowed ht hsafe hr
  obtain rfl := hsame rfl
  exact ⟨_, rfl, (run_eq_ok_iff ((isRelational_prune e).trans he)).2 ⟨r', hr', rfl⟩⟩

/-- Three tasks and who has them. -/
def ownedTasks : Tables :=
  [("task", ⟨["id", "owner"],
    [[.int 1, .text "ben"], [.int 2, .text "ada"], [.int 3, .text "ada"]]⟩)]

/-- The owners by the number of their tasks. The last task of each is computed and never read. -/
def ownersByLoad : Expr :=
  .project "o"
    (.order
      (.project "s" (mkScan (source ⟨"task", none⟩) "t")
        [⟨"owner", .column "t" "owner" .string⟩, ⟨"n", mkAggregate .count none false⟩,
          ⟨"last", mkAggregate .max (some (.column "t" "id" .int64)) false⟩]
        false [.column "t" "owner" .string])
      [⟨.column "s" "n" .int64, .descending⟩])
    [⟨"owner", .column "s" "owner" .string⟩] false []

/-- The owners by the number of their tasks: the count is read by the ordering, and stays. -/
theorem run_deadColumns_ownersByLoad :
    run ownedTasks ownersByLoad = .ok (.rows ⟨["owner"], [[.text "ada"], [.text "ben"]]⟩) ∧
      ∃ e', Pass.deadColumns.run ownersByLoad = .ok e' ∧
        run ownedTasks e' = .ok (.rows ⟨["owner"], [[.text "ada"], [.text "ben"]]⟩) := by
  have ht : ownedTasks.Rectangular := by decide
  exact ⟨rfl, run_deadColumns ht rfl (by decide) rfl⟩

/-- Two rows. -/
def twoRows : Tables := [("t", ⟨["a"], [[.int 1], [.int 2]]⟩)]

/-- A constant for the one row of a projection that counts, and never reads the count. -/
def oneOfCount : Expr :=
  .project "o"
    (.project "s" (mkScan (source ⟨"t", none⟩) "t")
      [⟨"k", .int 1⟩, ⟨"n", mkAggregate .count none false⟩] false [])
    [⟨"one", .int 1⟩] false []

/-- Without the count the inner projection is no aggregation and has a row for each row. -/
theorem run_deadColumns_oneOfCount :
    twoRows.Rectangular ∧ oneOfCount.isRelational = true ∧
      run twoRows oneOfCount = .ok (.rows ⟨["one"], [[.int 1]]⟩) ∧
      ∃ e', Pass.deadColumns.run oneOfCount = .ok e' ∧
        run twoRows e' = .ok (.rows ⟨["one"], [[.int 1], [.int 1]]⟩) :=
  ⟨by decide, rfl, rfl, _, rfl, rfl⟩

/-- A conjunction that is decided on its left, with a filter on its right that has a sum in its
predicate. -/
def decidedBeforeSum : Expr :=
  .project "o"
    (.project "s" (mkScan (source ⟨"t", none⟩) "t")
      [⟨"k", .int 1⟩, ⟨"b", .column "t" "a" .int64⟩] false [])
    [⟨"c", mkBinary .and (.const (.bool false) .bool)
      (.filter (mkScan (source ⟨"t", none⟩) "t")
        (mkBinary .gt (mkAggregate .sum (some (.column "s" "b" .int64)) false) (.int 1)))⟩] false []

/-- The sum is computed although its column does not count as read, and fails where that column was
dropped. -/
theorem run_prune_decidedBeforeSum :
    run twoRows decidedBeforeSum = .ok (.rows ⟨["c"], [[.bool false]]⟩) ∧
      run twoRows (decidedBeforeSum.prune [] true) = .error (.eval (.unknownColumn "s" "b")) :=
  ⟨rfl, rfl⟩

end Expr

end QueryTree
