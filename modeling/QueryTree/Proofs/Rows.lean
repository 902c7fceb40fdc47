import QueryTree.Memory.Interpreter
import QueryTree.Proofs.Evaluation
import QueryTree.Proofs.StableSort
import QueryTree.Proofs.ValueOrder

/-!
# What the relational operations do to rows

Filtering, sorting and projecting walk over the rows and stop at the first expression that fails.
When none fails they are the operations of lists: a selection (`filterRows_eq_ok_iff`), a stable
sort by the values of the keys (`sort_eq_ok_iff`) and a map (`projectRows_eq_ok_iff`). The same is
said of the nodes of a tree (`relation_filter_eq_ok_iff` and the lemmas after it), and this is the
form in which trees are compared.

Keys whose values are of one kind each order the rows (`rowCompare_orderOn`).
-/

namespace QueryTree

open Attempt

namespace Relation

variable {columns : List QualifiedName} {rows : List Row}

/-! ### Expressions on rows -/

/-- The value of an expression on a row, and NULL where it has none. -/
def valueOn (columns : List QualifiedName) (e : Expr) (row : Row) : Value :=
  valueOr .null (e.evaluate (rowEnv columns row))

/-- The expression has a value on each of the rows. -/
def Defined (columns : List QualifiedName) (e : Expr) (rows : List Row) : Prop :=
  ∀ row ∈ rows, e.evaluate (rowEnv columns row) = .ok (valueOn columns e row)

theorem valueOn_eq {e : Expr} {row : Row} {v : Value} (h : e.evaluate (rowEnv columns row) = .ok v) :
    valueOn columns e row = v := by
  rw [valueOn, h]
  rfl

/-- An expression with some value on a row has the one that `valueOn` gives. -/
theorem evaluate_valueOn {e : Expr} {row : Row} {v : Value}
    (h : e.evaluate (rowEnv columns row) = .ok v) :
    e.evaluate (rowEnv columns row) = .ok (valueOn columns e row) :=
  eq_ok_valueOr h .null

/-- Fewer rows are no obstacle. -/
theorem Defined.mono {e : Expr} {rows' : List Row} (h : Defined columns e rows)
    (hrows : ∀ row ∈ rows', row ∈ rows) : Defined columns e rows' :=
  fun row hrow => h row (hrows row hrow)

/-- Columns to the right of those a row has show nothing that was not bound and hide nothing that
was. -/
theorem rowEnv_take_below (columns hidden : List QualifiedName) (row : Row) :
    Env.Below (rowEnv columns (row.take columns.length)) (rowEnv (columns ++ hidden) row) where
  parameter _ _ h := h
  column a n v h := by
    simp only [rowEnv, Option.bind_eq_some_iff] at h ⊢
    obtain ⟨i, hi, hv⟩ := h
    refine ⟨i, ?_, ?_⟩
    · rw [index?] at hi ⊢
      rw [List.findIdx?_append, hi, Option.some_or]
    · rw [List.getElem?_take] at hv
      split at hv
      · exact hv
      · cases hv

/-! ### Filtering -/

/-- The predicate is true of the row. -/
def holdsOn (columns : List QualifiedName) (p : Expr) (row : Row) : Bool :=
  (valueOn columns p row).asBool? == some true

/-- A filter selects the rows on which its predicate is true. It has a result just in case the
predicate has a value on every row, also on those that it does not select. -/
theorem filterRows_eq_ok_iff {p : Expr} {kept : List Row} :
    filterRows columns p rows = .ok kept ↔
      Defined columns p rows ∧ kept = rows.filter (holdsOn columns p) := by
  induction rows generalizing kept with
  | nil =>
    constructor
    · intro h
      exact ⟨fun _ hrow => (nomatch hrow), (Except.ok.inj h).symm⟩
    · rintro ⟨_, rfl⟩
      rfl
  | cons row rows ih =>
    rw [filterRows, bind_eq_ok_iff]
    constructor
    · rintro ⟨v, hv, h⟩
      obtain ⟨rest, hrest, h⟩ := bind_eq_ok_iff.1 h
      obtain ⟨hdef, rfl⟩ := ih.1 hrest
      have hcell := valueOn_eq hv
      refine ⟨List.forall_mem_cons.2 ⟨evaluate_valueOn hv, hdef⟩, ?_⟩
      rw [← pure_eq_ok_iff.1 h, List.filter_cons, holdsOn, hcell]
      cases v with
      | bool b => cases b <;> rfl
      | _ => rfl
    · rintro ⟨hdef, rfl⟩
      obtain ⟨hrow, hrest⟩ := List.forall_mem_cons.1 hdef
      refine ⟨_, hrow, bind_eq_ok_iff.2 ⟨_, ih.2 ⟨hrest, rfl⟩, pure_eq_ok_iff.2 ?_⟩⟩
      rw [List.filter_cons, holdsOn]
      cases valueOn columns p row with
      | bool b => cases b <;> rfl
      | _ => rfl

/-! ### Lists of expressions -/

/-- Several expressions have values on a row exactly when each has. -/
theorem evaluateList_eq_ok_iff {es : List Expr} {row : Row} {vs : List Value} :
    Expr.evaluateList (rowEnv columns row) es = .ok vs ↔
      (∀ e ∈ es, e.evaluate (rowEnv columns row) = .ok (valueOn columns e row)) ∧
        vs = es.map (valueOn columns · row) := by
  rw [Expr.evaluateList_eq]
  exact mapM_eq_ok_iff_map Value.null

/-! ### Sorting -/

/-- Compare two rows by the values of one key. -/
def keyCompare (columns : List QualifiedName) (k : OrderKey) (a b : Row) : Ordering :=
  match k.direction with
  | .ascending => (valueOn columns k.expr a).sortCompare (valueOn columns k.expr b)
  | .descending => (valueOn columns k.expr b).sortCompare (valueOn columns k.expr a)

/-- Compare two rows by the values of several keys, the first key first. -/
def rowCompare (columns : List QualifiedName) : List OrderKey → Row → Row → Ordering
  | [], _, _ => .eq
  | k :: ks, a, b => (keyCompare columns k a b).then (rowCompare columns ks a b)

/-- The first key is compared first. -/
theorem rowCompare_cons (k : OrderKey) (ks : List OrderKey) :
    rowCompare columns (k :: ks) = compareLex (keyCompare columns k) (rowCompare columns ks) := rfl

/-- The keys of the front are compared first. -/
theorem rowCompare_append (ks ks' : List OrderKey) :
    rowCompare columns (ks ++ ks') = compareLex (rowCompare columns ks) (rowCompare columns ks') := by
  funext a b
  induction ks with
  | nil => rfl
  | cons k ks ih => rw [List.cons_append, rowCompare, ih, compareLex, compareLex, rowCompare,
      Ordering.then_assoc]

/-- Rows compare alike if their keys have the same values. -/
theorem rowCompare_congr {columns columns' : List QualifiedName} {ks : List OrderKey}
    {a b a' b' : Row} (ha : ∀ k ∈ ks, valueOn columns k.expr a = valueOn columns' k.expr a')
    (hb : ∀ k ∈ ks, valueOn columns k.expr b = valueOn columns' k.expr b') :
    rowCompare columns ks a b = rowCompare columns' ks a' b' := by
  induction ks with
  | nil => rfl
  | cons k ks ih =>
    obtain ⟨hka, ha⟩ := List.forall_mem_cons.1 ha
    obtain ⟨hkb, hb⟩ := List.forall_mem_cons.1 hb
    rw [rowCompare, rowCompare, ih ha hb, keyCompare, keyCompare, hka, hkb]

/-- Comparing the values of the keys is comparing the rows. -/
theorem compareKeys_valueOn (ks : List OrderKey) (a b : Row) :
    compareKeys (ks.map (·.direction)) (ks.map fun k => valueOn columns k.expr a)
      (ks.map fun k => valueOn columns k.expr b) = rowCompare columns ks a b := by
  induction ks with
  | nil => rfl
  | cons k ks ih => rw [rowCompare, ← ih, keyCompare]; rfl

/-- A row gets its keys exactly if each of them has a value on it. -/
theorem withKeys_eq_ok_iff {ks : List OrderKey} {row : Row} {keyed : List Value × Row} :
    withKeys columns ks row = .ok keyed ↔
      (∀ k ∈ ks, k.expr.evaluate (rowEnv columns row) = .ok (valueOn columns k.expr row)) ∧
        keyed = (ks.map fun k => valueOn columns k.expr row, row) := by
  rw [withKeys, bind_eq_ok_iff]
  simp only [evaluateList_eq_ok_iff, pure_eq_ok_iff, List.forall_mem_map, List.map_map]
  constructor
  · rintro ⟨vs, ⟨hdef, rfl⟩, rfl⟩
    exact ⟨hdef, rfl⟩
  · rintro ⟨hdef, rfl⟩
    exact ⟨_, ⟨hdef, rfl⟩, rfl⟩

/-- A row with the values of the keys on it. -/
def keyedRow (columns : List QualifiedName) (ks : List OrderKey) (row : Row) : List Value × Row :=
  (ks.map fun k => valueOn columns k.expr row, row)

/-- Rows are taken with their keys exactly when each key has a value on each of them. -/
theorem mapM_withKeys_eq_ok_iff {ks : List OrderKey} {keyed : List (List Value × Row)} :
    rows.mapM (withKeys columns ks) = .ok keyed ↔
      (∀ k ∈ ks, Defined columns k.expr rows) ∧ keyed = rows.map (keyedRow columns ks) := by
  constructor
  · intro h
    have hdef : ∀ row ∈ rows, ∀ k ∈ ks,
        k.expr.evaluate (rowEnv columns row) = .ok (valueOn columns k.expr row) := by
      intro row hrow
      obtain ⟨_, _, hk⟩ := exists_of_mem_of_mapM_eq_ok h hrow
      exact (withKeys_eq_ok_iff.1 hk).1
    rw [mapM_eq_ok_map fun row hrow => withKeys_eq_ok_iff.2 ⟨hdef row hrow, rfl⟩] at h
    exact ⟨fun k hk row hrow => hdef row hrow k hk, (Except.ok.inj h).symm⟩
  · rintro ⟨hdef, rfl⟩
    exact mapM_eq_ok_map fun row hrow =>
      withKeys_eq_ok_iff.2 ⟨fun k hk => hdef k hk row hrow, rfl⟩

/-- Sorting a relation sorts its rows stably by the values of the keys. -/
theorem sort_eq_ok_iff {r s : Relation} {ks : List OrderKey} :
    r.sort ks = .ok s ↔
      (∀ k ∈ ks, Defined r.columns k.expr r.rows) ∧
        s = ⟨r.columns, sortBy (rowCompare r.columns ks) r.rows⟩ := by
  have hsorted : (stableSort (fun a b : List Value × Row =>
        compareKeys (ks.map (·.direction)) a.1 b.1 == .lt)
        (r.rows.map (keyedRow r.columns ks))).map (·.2) =
      sortBy (rowCompare r.columns ks) r.rows := by
    rw [stableSort_map (p := fun a b => rowCompare r.columns ks a b == .lt)
        (keyedRow r.columns ks) fun a _ b _ => by rw [keyedRow, keyedRow, compareKeys_valueOn],
      List.map_map, sortBy]
    exact List.map_id _
  rw [sort, bind_eq_ok_iff]
  simp only [mapM_withKeys_eq_ok_iff, pure_eq_ok_iff]
  constructor
  · rintro ⟨_, ⟨hdef, rfl⟩, rfl⟩
    exact ⟨hdef, by rw [hsorted]⟩
  · rintro ⟨hdef, rfl⟩
    exact ⟨_, ⟨hdef, rfl⟩, by rw [hsorted]⟩

/-! ### Keys of one kind -/

/-- The values that an expression has on the rows are NULL or all of one kind. -/
def Uniform (columns : List QualifiedName) (e : Expr) (rows : List Row) : Prop :=
  ∃ k : Value.Kind, ∀ row ∈ rows, (valueOn columns e row).FitsKind k

/-- Fewer rows are of one kind too. -/
theorem Uniform.mono {e : Expr} {rows' : List Row} (h : Uniform columns e rows)
    (hrows : ∀ row ∈ rows', row ∈ rows) : Uniform columns e rows' := by
  obtain ⟨k, hk⟩ := h
  exact ⟨k, fun row hrow => hk row (hrows row hrow)⟩

/-- A key with values of one kind orders the rows. -/
theorem keyCompare_orderOn {k : OrderKey} (h : Uniform columns k.expr rows) :
    OrderOn (keyCompare columns k) rows := by
  obtain ⟨kind, hkind⟩ := h
  let view (row : Row) : Option kind.Carrier := (valueOn columns k.expr row).view? kind
  have hcompare : ∀ a ∈ rows, ∀ b ∈ rows,
      (valueOn columns k.expr a).sortCompare (valueOn columns k.expr b) = compareOn view a b :=
    fun a ha b hb => Value.sortCompare_eq_compare (hkind a ha) (hkind b hb)
  cases hd : k.direction with
  | ascending =>
    refine ⟨compareOn view, inferInstance, fun a ha b hb => ?_⟩
    rw [← hcompare a ha b hb, keyCompare, hd]
  | descending =>
    refine ⟨fun a b => compareOn view b a, inferInstance, fun a ha b hb => ?_⟩
    show keyCompare columns k a b = compareOn view b a
    rw [← hcompare b hb a ha, keyCompare, hd]

/-- Keys with values of one kind each order the rows. -/
theorem rowCompare_orderOn {ks : List OrderKey} (h : ∀ k ∈ ks, Uniform columns k.expr rows) :
    OrderOn (rowCompare columns ks) rows := by
  induction ks with
  | nil => exact ⟨compareOn fun _ => 0, inferInstance, fun _ _ _ _ => rfl⟩
  | cons k ks ih =>
    obtain ⟨hk, hks⟩ := List.forall_mem_cons.1 h
    rw [rowCompare_cons]
    exact (keyCompare_orderOn hk).lex (ih hks)

/-- Without keys there is nothing to sort by. -/
theorem sortBy_rowCompare_nil (columns : List QualifiedName) (rows : List Row) :
    sortBy (rowCompare columns []) rows = rows := by
  refine sortBy_of_pairwise (rowCompare_orderOn fun k hk => absurd hk List.not_mem_nil) ?_
  exact List.pairwise_of_forall fun _ _ => rfl

/-! ### Projecting -/

/-- Columns under an alias. -/
def projectedColumns (q : String) (cs : List Column) : List QualifiedName :=
  cs.map fun c => (q, c.name)

/-- The values of columns on a row. -/
def projectedRow (columns : List QualifiedName) (cs : List Column) (row : Row) : Row :=
  cs.map fun c => valueOn columns c.expr row

/-- A column is looked up from left to right. -/
theorem rowEnv_column_cons (c : QualifiedName) (columns : List QualifiedName) (v : Value)
    (row : Row) (q n : String) :
    (rowEnv (c :: columns) (v :: row)).column q n =
      if c.1 == q && c.2 == n then some v else (rowEnv columns row).column q n := by
  simp only [rowEnv, index?, List.findIdx?_cons]
  split
  · rfl
  · rw [Option.bind_map]
    rfl

/-- A projection without grouping and aggregates maps each row to the values of the columns. It has
a result just in case every column has a value on every row. -/
theorem projectRows_eq_ok_iff {r : Relation} {cs : List Column} {rows' : List Row}
    (hcs : cs.any (fun c => c.expr.hasAggregate) = false) :
    r.projectRows cs [] = .ok rows' ↔
      (∀ c ∈ cs, Defined r.columns c.expr r.rows) ∧
        rows' = r.rows.map (projectedRow r.columns cs) := by
  simp only [projectRows, hcs, List.isEmpty_nil, Bool.not_true, Bool.or_self, Bool.false_eq_true,
    if_false, liftEval_eq_ok_iff]
  constructor
  · intro h
    have hdef : ∀ row ∈ r.rows, ∀ c ∈ cs,
        c.expr.evaluate (rowEnv r.columns row) = .ok (valueOn r.columns c.expr row) := by
      intro row hrow
      obtain ⟨vs, _, hvs⟩ := exists_of_mem_of_mapM_eq_ok h hrow
      exact List.forall_mem_map.1 (evaluateList_eq_ok_iff.1 hvs).1
    refine ⟨fun c hc row hrow => hdef row hrow c hc, ?_⟩
    rw [mapM_eq_ok_map fun row hrow =>
      evaluateList_eq_ok_iff.2 ⟨List.forall_mem_map.2 (hdef row hrow), rfl⟩] at h
    simp only [List.map_map] at h
    exact (Except.ok.inj h).symm
  · rintro ⟨hdef, rfl⟩
    rw [mapM_eq_ok_map fun row hrow => evaluateList_eq_ok_iff.2
      ⟨List.forall_mem_map.2 fun c hc => hdef c hc row hrow, rfl⟩]
    simp only [List.map_map]
    rfl

/-- Each row of a projection has one cell for each column. -/
theorem length_of_mem_projectRows {r : Relation} {cs : List Column} {gs : List Expr}
    {rows' : List Row} (h : r.projectRows cs gs = .ok rows') :
    ∀ row ∈ rows', row.length = cs.length := by
  intro row hrow
  rw [projectRows] at h
  split at h
  · obtain ⟨groups, _, h⟩ := bind_eq_ok_iff.1 h
    obtain ⟨group, _, hgroup⟩ := exists_of_mem_result_of_mapM_eq_ok h hrow
    exact length_eq_of_mapM_eq_ok hgroup
  · rw [liftEval_eq_ok_iff] at h
    obtain ⟨source, _, hsource⟩ := exists_of_mem_result_of_mapM_eq_ok h hrow
    rw [Expr.evaluateList_eq] at hsource
    rw [length_eq_of_mapM_eq_ok hsource, List.length_map]

/-! ### Rows of the other operations -/

/-- Deduplication adds nothing. -/
theorem mem_of_mem_dedup {α : Type} [BEq α] {xs : List α} {x : α} (h : x ∈ dedup xs) : x ∈ xs := by
  have hfold : ∀ (ys out : List α),
      x ∈ ys.foldl (fun out y => if out.contains y then out else out ++ [y]) out →
        x ∈ ys ∨ x ∈ out := by
    intro ys
    induction ys with
    | nil => exact fun out h => .inr h
    | cons y ys ih =>
      intro out h
      rw [List.foldl_cons] at h
      rcases ih _ h with h | h
      · exact .inl (List.mem_cons_of_mem _ h)
      · split at h
        · exact .inr h
        · rcases List.mem_append.1 h with h | h
          · exact .inr h
          · exact .inl (List.mem_singleton.1 h ▸ List.mem_cons_self)
  rcases hfold xs [] h with h | h
  · exact h
  · cases h

/-- Nor does a projection, whether it is DISTINCT or not. -/
theorem mem_of_mem_distinct {distinct : Bool} {rows : List Row} {row : Row}
    (h : row ∈ if distinct then dedup rows else rows) : row ∈ rows := by
  cases distinct with
  | true => exact mem_of_mem_dedup h
  | false => exact h

/-- A row of a set operation is one of a side. -/
theorem mem_of_mem_combine {op : SetOperator} {left right : List Row} {row : Row}
    (h : row ∈ combine op left right) : row ∈ left ∨ row ∈ right := by
  cases op with
  | union => exact List.mem_append.1 h
  | intersect => exact .inl (List.mem_filter.1 h).1
  | except => exact .inl (List.mem_filter.1 h).1

/-- A match of a left row is that row with a right one after it. -/
theorem exists_of_mem_matching {on : Option Expr} {left row : Row} {right found : List Row}
    (h : matching columns on left right = .ok found) (hrow : row ∈ found) :
    ∃ other ∈ right, row = left ++ other := by
  have hmem : row ∈ right.map (left ++ ·) := by
    cases on with
    | none => exact Except.ok.inj h ▸ hrow
    | some p =>
      obtain ⟨_, rfl⟩ := filterRows_eq_ok_iff.1 h
      exact (List.mem_filter.1 hrow).1
  obtain ⟨other, hother, rfl⟩ := List.mem_map.1 hmem
  exact ⟨other, hother, rfl⟩

/-- The rows of a join that begin with one left row. -/
def joinRow (kind : JoinKind) (columns : List QualifiedName) (condition : Option Expr) (width : Nat)
    (right : List Row) (l : Row) : Except EvalError (List Row) := do
  let found ← matching columns condition l right
  if kind = .left && found.isEmpty then return [l ++ List.replicate width .null]
  else return found

/-- A join is computed one left row after the other. Right and full joins are refused, and a cross
join does not look at its condition. -/
theorem join_eq_ok_iff {kind : JoinKind} {left right r : Relation} {on : Option Expr} :
    join kind left right on = .ok r ↔
      (kind ≠ .right ∧ kind ≠ .full) ∧ ∃ rows,
        left.rows.mapM (joinRow kind (left.columns ++ right.columns)
          (if kind = .cross then none else on) right.columns.length right.rows) = .ok rows ∧
        r = ⟨left.columns ++ right.columns, rows.flatten⟩ := by
  have hjoin : kind ≠ .right → kind ≠ .full → join kind left right on = (do
      let rows ← liftEval (left.rows.mapM (joinRow kind (left.columns ++ right.columns)
        (if kind = .cross then none else on) right.columns.length right.rows))
      return ⟨left.columns ++ right.columns, rows.flatten⟩) := by
    intro hright hfull
    cases kind with
    | right => exact absurd rfl hright
    | full => exact absurd rfl hfull
    | inner | left | cross => rfl
  constructor
  · intro h
    have hright : kind ≠ .right := by rintro rfl; cases h
    have hfull : kind ≠ .full := by rintro rfl; cases h
    rw [hjoin hright hfull, bind_eq_ok_iff] at h
    obtain ⟨rows, hrows, h⟩ := h
    exact ⟨⟨hright, hfull⟩, rows, liftEval_eq_ok_iff.1 hrows, (pure_eq_ok_iff.1 h).symm⟩
  · rintro ⟨⟨hright, hfull⟩, rows, hrows, rfl⟩
    rw [hjoin hright hfull, bind_eq_ok_iff]
    exact ⟨rows, liftEval_eq_ok_iff.2 hrows, rfl⟩

/-- A joined row is a left row with a right one or with NULLs after it. -/
theorem join_rectangular {kind : JoinKind} {left right r : Relation} {on : Option Expr}
    (hl : left.Rectangular) (hr : right.Rectangular) (h : join kind left right on = .ok r) :
    r.Rectangular := by
  obtain ⟨_, rows, hrows, rfl⟩ := join_eq_ok_iff.1 h
  intro row hrow
  obtain ⟨group, hgroup, hrow⟩ := List.mem_flatten.1 hrow
  obtain ⟨l, hmem, hjoin⟩ := exists_of_mem_result_of_mapM_eq_ok hrows hgroup
  obtain ⟨found, hfound, hjoin⟩ := bind_eq_ok_iff.1 hjoin
  rw [List.length_append]
  split at hjoin
  · obtain rfl := pure_eq_ok_iff.1 hjoin
    obtain rfl := List.mem_singleton.1 hrow
    rw [List.length_append, List.length_replicate, hl l hmem]
  · obtain rfl := pure_eq_ok_iff.1 hjoin
    obtain ⟨other, hother, rfl⟩ := exists_of_mem_matching hfound hrow
    rw [List.length_append, hl l hmem, hr other hother]

/-- The rows of a set operation are as long as those of its left side. -/
theorem setOperation_rectangular {op : SetOperator} {all : Bool} {qualifier : String}
    {left right r : Relation} (hl : left.Rectangular) (hr : right.Rectangular)
    (h : setOperation op all qualifier left right = .ok r) : r.Rectangular := by
  rw [setOperation] at h
  split at h
  · cases h
  next hlength =>
    obtain rfl := Except.ok.inj h
    intro row hrow
    have hmem : row ∈ combine op left.rows right.rows := by
      cases all with
      | true => exact hrow
      | false => exact mem_of_mem_dedup hrow
    rw [List.length_map]
    rcases mem_of_mem_combine hmem with hrow | hrow
    · exact hl row hrow
    · rw [hr row hrow]
      exact (not_not.1 hlength).symm

end Relation

/-! ### The nodes of a tree -/

/-- Every table is rectangular. -/
def Tables.Rectangular (tables : Tables) : Prop := ∀ entry ∈ tables, entry.2.Rectangular

instance (tables : Tables) : Decidable tables.Rectangular :=
  inferInstanceAs (Decidable (∀ entry ∈ tables, ∀ row ∈ entry.2.rows,
    row.length = entry.2.columns.length))

namespace Expr

open QueryTree.Relation

variable {tables : Tables} {s : Relation}

/-- A scan gives the rows of a table, under its alias. -/
theorem relation_scan_eq_ok {source : Expr} {qualifier : String} {t : LogicalType}
    (h : relation tables (.scan source qualifier t) = .ok s) :
    ∃ set name, (name, set) ∈ tables ∧ s = ⟨set.columns.map fun c => (qualifier, c), set.rows⟩ := by
  cases source with
  | const v type =>
    cases v with
    | source src =>
      change scanTable tables src.table qualifier = .ok s at h
      rw [scanTable] at h
      split at h
      next set hset =>
        obtain ⟨before, after, rfl, _⟩ := List.lookup_eq_some_iff.1 hset
        exact ⟨set, src.table, by simp, (Except.ok.inj h).symm⟩
      next => cases h
    | _ => cases h
  | _ => cases h

/-- A filter gives rows if the predicate has a value on each row. -/
theorem relation_filter_eq_ok_iff {input p : Expr} :
    relation tables (.filter input p) = .ok s ↔
      ∃ r, relation tables input = .ok r ∧ Defined r.columns p r.rows ∧
        s = ⟨r.columns, r.rows.filter (holdsOn r.columns p)⟩ := by
  refine bind_eq_ok_iff.trans ?_
  simp only [bind_eq_ok_iff, liftEval_eq_ok_iff, filterRows_eq_ok_iff, pure_eq_ok_iff]
  constructor
  · rintro ⟨r, hr, rows, ⟨hdef, rfl⟩, rfl⟩
    exact ⟨r, hr, hdef, rfl⟩
  · rintro ⟨r, hr, hdef, rfl⟩
    exact ⟨r, hr, _, ⟨hdef, rfl⟩, rfl⟩

/-- An ordering gives rows if each key has a value on each row. -/
theorem relation_order_eq_ok_iff {input : Expr} {ks : List OrderKey} :
    relation tables (.order input ks) = .ok s ↔
      ∃ r, relation tables input = .ok r ∧ (∀ k ∈ ks, Defined r.columns k.expr r.rows) ∧
        s = ⟨r.columns, sortBy (rowCompare r.columns ks) r.rows⟩ := by
  refine bind_eq_ok_iff.trans ?_
  simp only [liftEval_eq_ok_iff, sort_eq_ok_iff]

/-- A limit gives rows if its counts are numbers. -/
theorem relation_limit_eq_ok_iff {input : Expr} {take skip : Option Expr} :
    relation tables (.limit input take skip) = .ok s ↔
      ∃ r skipped taken, relation tables input = .ok r ∧ rowCount skip = .ok skipped ∧
        rowCount take = .ok taken ∧ s = ⟨r.columns, window skipped taken r.rows⟩ := by
  refine bind_eq_ok_iff.trans ?_
  simp only [bind_eq_ok_iff, pure_eq_ok_iff]
  constructor
  · rintro ⟨r, hr, skipped, hskip, taken, htake, rfl⟩
    exact ⟨r, skipped, taken, hr, hskip, htake, rfl⟩
  · rintro ⟨r, skipped, taken, hr, hskip, htake, rfl⟩
    exact ⟨r, hr, skipped, hskip, taken, htake, rfl⟩

/-- A projection gives the rows of its columns, or of its groups. -/
theorem relation_project_eq_ok_iff {qualifier : String} {input : Expr} {cs : List Column}
    {distinct : Bool} {gs : List Expr} :
    relation tables (.project qualifier input cs distinct gs) = .ok s ↔
      ∃ r rows, relation tables input = .ok r ∧ r.projectRows cs gs = .ok rows ∧
        s = ⟨projectedColumns qualifier cs, if distinct then dedup rows else rows⟩ := by
  refine bind_eq_ok_iff.trans ?_
  simp only [Relation.project, bind_eq_ok_iff, pure_eq_ok_iff]
  constructor
  · rintro ⟨r, hr, rows, hrows, rfl⟩
    exact ⟨r, rows, hr, hrows, rfl⟩
  · rintro ⟨r, rows, hr, hrows, rfl⟩
    exact ⟨r, hr, rows, hrows, rfl⟩

/-- A join gives rows if both sides do and the condition has a value on each pair. -/
theorem relation_join_eq_ok_iff {kind : JoinKind} {left right : Expr} {on : Option Expr} :
    relation tables (.join kind left right on) = .ok s ↔
      ∃ l r, relation tables left = .ok l ∧ relation tables right = .ok r ∧
        Relation.join kind l r on = .ok s := by
  refine bind_eq_ok_iff.trans ?_
  simp only [bind_eq_ok_iff]
  constructor
  · rintro ⟨l, hl, r, hr, h⟩
    exact ⟨l, r, hl, hr, h⟩
  · rintro ⟨l, r, hl, hr, h⟩
    exact ⟨l, hl, r, hr, h⟩

/-- A set operation gives rows if both sides do and have as many columns. -/
theorem relation_setOp_eq_ok_iff {op : SetOperator} {all : Bool} {left right : Expr}
    {qualifier : String} :
    relation tables (.setOp op all left right qualifier) = .ok s ↔
      ∃ l r, relation tables left = .ok l ∧ relation tables right = .ok r ∧
        setOperation op all qualifier l r = .ok s := by
  refine bind_eq_ok_iff.trans ?_
  simp only [bind_eq_ok_iff]
  constructor
  · rintro ⟨l, hl, r, hr, h⟩
    exact ⟨l, r, hl, hr, h⟩
  · rintro ⟨l, r, hl, hr, h⟩
    exact ⟨l, hl, r, hr, h⟩

/-- A relational tree runs to the row set of its relation. -/
theorem run_eq_ok_iff {e : Expr} (he : e.isRelational = true) {v : Value} :
    run tables e = .ok v ↔ ∃ r, relation tables e = .ok r ∧ .rows r.toRowSet = v := by
  rw [run, if_pos he, bind_eq_ok_iff]
  simp only [pure_eq_ok_iff]

/-- Only relational trees have a relation. -/
theorem isRelational_of_relation_eq_ok {e : Expr} (h : relation tables e = .ok s) :
    e.isRelational = true := by
  cases e <;> first | rfl | cases h

/-- A window drops rows and moves none. -/
theorem window_sublist (skip take : Option Nat) (rows : List Row) :
    (window skip take rows).Sublist rows := by
  cases take with
  | none => exact List.drop_sublist _ _
  | some n => exact (List.take_sublist _ _).trans (List.drop_sublist _ _)

/-- A window does not look at the rows. -/
theorem window_map (skip take : Option Nat) (f : Row → Row) (rows : List Row) :
    window skip take (rows.map f) = (window skip take rows).map f := by
  cases take <;> simp [window]

end Expr

end QueryTree
