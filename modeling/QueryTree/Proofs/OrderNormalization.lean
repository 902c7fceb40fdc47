import QueryTree.Proofs.KeyExposure
import QueryTree.Proofs.SortContract

/-!
# Ordering normalization keeps the row sequence

Lifting takes a tree apart into a tree without the orderings and a list of keys. What ties the two
to the original is `Represents`: the rows of the lifted tree, sorted by the keys and cut to the
original columns, are the original rows. Lifting may add columns on the right, where a projection
exposes a key that it does not show.

One lemma for each node says that the node keeps `Represents`: a filter selects before or after
sorting (`Represents.filter`), an ordering sorts what is already sorted (`Represents.order`), a
limit cuts a sorted list (`Represents.window`), and a projection maps rows together with their keys
(`Represents.project`). The induction over the tree joins them (`lift_represents`).

A key can hold an aggregate. It never has a value on a row, so an ordering by it is computed only
over no rows; but once it is exposed as a column, its projection is one over groups, and there is a
group even of no rows. Normalization keeps the rows exactly as long as this does not happen.
-/

namespace QueryTree.OrderLifting

open QueryTree.Relation QueryTree.Expr

/-! ### Rows with columns added on the right -/

/-- The rows of `s` are rows of `r` with cells added on the right, for the columns `hidden`. -/
structure Widens (s : Relation) (hidden : List QualifiedName) (r : Relation) : Prop where
  columns : s.columns = r.columns ++ hidden
  take_mem : ∀ row ∈ s.rows, row.take r.columns.length ∈ r.rows

section Widens

variable {s r : Relation} {hidden : List QualifiedName}

/-- What an expression is on the rows of a relation, it is on the wider rows. -/
theorem Widens.evaluate (h : Widens s hidden r) {e : Expr} (he : Defined r.columns e r.rows)
    {row : Row} (hrow : row ∈ s.rows) :
    e.evaluate (rowEnv s.columns row) =
      .ok (valueOn r.columns e (row.take r.columns.length)) := by
  rw [h.columns]
  exact evaluate_mono (rowEnv_take_below r.columns hidden row) e _ (he _ (h.take_mem row hrow))

/-- An expression that has its values on the narrow rows has them on the wide ones. -/
theorem Widens.valueOn (h : Widens s hidden r) {e : Expr} (he : Defined r.columns e r.rows)
    {row : Row} (hrow : row ∈ s.rows) :
    valueOn s.columns e row = Relation.valueOn r.columns e (row.take r.columns.length) :=
  valueOn_eq (h.evaluate he hrow)

/-- What is defined on the narrow rows is defined on the wide ones. -/
theorem Widens.defined (h : Widens s hidden r) {e : Expr} (he : Defined r.columns e r.rows) :
    Defined s.columns e s.rows :=
  fun _ hrow => evaluate_valueOn (h.evaluate he hrow)

/-- Values of one kind stay of one kind on the wider rows. -/
theorem Widens.uniform (h : Widens s hidden r) {e : Expr} (he : Defined r.columns e r.rows)
    (hu : Uniform r.columns e r.rows) : Uniform s.columns e s.rows := by
  obtain ⟨kind, hkind⟩ := hu
  refine ⟨kind, fun row hrow => ?_⟩
  rw [h.valueOn he hrow]
  exact hkind _ (h.take_mem row hrow)

end Widens

/-- Rows that fit their columns lose nothing when they are cut to their number. -/
theorem map_take_of_rectangular {r : Relation} (hr : r.Rectangular) :
    r.rows.map (List.take r.columns.length) = r.rows := by
  have htake : ∀ row ∈ r.rows, row.take r.columns.length = id row :=
    fun row hrow => List.take_of_length_le (Nat.le_of_eq (hr row hrow))
  rw [List.map_congr_left htake, List.map_id]

/-! ### The invariant of lifting -/

/-- The rows of `s`, sorted by the keys and cut to the columns of `r`, are the rows of `r`. -/
structure Represents (s : Relation) (ks : List OrderKey) (hidden : List QualifiedName)
    (r : Relation) : Prop where
  columns : s.columns = r.columns ++ hidden
  defined : ∀ k ∈ ks, Defined s.columns k.expr s.rows
  uniform : ∀ k ∈ ks, Uniform s.columns k.expr s.rows
  rows : (sortBy (rowCompare s.columns ks) s.rows).map (List.take r.columns.length) = r.rows

section Represents

variable {s r : Relation} {ks : List OrderKey} {hidden : List QualifiedName}

/-- Representation by sorting is more than having the rows with cells added. -/
theorem Represents.widens (h : Represents s ks hidden r) : Widens s hidden r where
  columns := h.columns
  take_mem row hrow := by
    rw [← h.rows]
    exact List.mem_map_of_mem (mem_sortBy.2 hrow)

/-- The sorting of a representation is by an order on its rows. -/
theorem Represents.orderOn (h : Represents s ks hidden r) :
    OrderOn (rowCompare s.columns ks) s.rows :=
  rowCompare_orderOn h.uniform

/-- A relation that differs by its right columns only represents the other without keys. -/
theorem Represents.ofColumns (hcolumns : s.columns = r.columns ++ hidden)
    (hrows : s.rows.map (List.take r.columns.length) = r.rows) : Represents s [] hidden r where
  columns := hcolumns
  defined _ hk := absurd hk List.not_mem_nil
  uniform _ hk := absurd hk List.not_mem_nil
  rows := by rw [sortBy_rowCompare_nil, hrows]

/-- A relation represents itself, without keys and without hidden columns. -/
theorem Represents.refl (hr : r.Rectangular) : Represents r [] [] r :=
  .ofColumns (List.append_nil _).symm (map_take_of_rectangular hr)

/-- With no columns added, the sorted relation is the one represented. -/
theorem Represents.sorted_eq (h : Represents s ks [] r) (hs : s.Rectangular) :
    ⟨s.columns, sortBy (rowCompare s.columns ks) s.rows⟩ = r := by
  have hcolumns : s.columns = r.columns := by rw [h.columns, List.append_nil]
  have hsorted : Rectangular ⟨s.columns, sortBy (rowCompare s.columns ks) s.rows⟩ :=
    fun row hrow => hs row (mem_sortBy.1 hrow)
  have hrows := h.rows
  rw [← hcolumns] at hrows
  have hrows' : sortBy (rowCompare s.columns ks) s.rows = r.rows :=
    (map_take_of_rectangular hsorted).symm.trans hrows
  rw [hrows', hcolumns]

/-- Rows can be selected before they are sorted. -/
theorem Represents.filter (h : Represents s ks hidden r) {p : Expr}
    (hp : Defined r.columns p r.rows) :
    Represents ⟨s.columns, s.rows.filter (holdsOn s.columns p)⟩ ks hidden
      ⟨r.columns, r.rows.filter (holdsOn r.columns p)⟩ where
  columns := h.columns
  defined k hk := (h.defined k hk).mono fun _ hrow => (List.mem_filter.1 hrow).1
  uniform k hk := (h.uniform k hk).mono fun _ hrow => (List.mem_filter.1 hrow).1
  rows := by
    have hholds : ∀ row ∈ sortBy (rowCompare s.columns ks) s.rows,
        holdsOn s.columns p row = (holdsOn r.columns p ∘ List.take r.columns.length) row := by
      intro row hrow
      rw [holdsOn, h.widens.valueOn hp (mem_sortBy.1 hrow)]
      rfl
    rw [sortBy_filter h.orderOn, List.filter_congr hholds, ← List.filter_map, h.rows]

/-- Sorting by further keys, which come first, needs one sort by all of them. Sorting is stable, so
a sort by the outer keys after one by the inner keys is a sort by the outer keys in which the inner
ones break ties. The hidden columns have no part in it. -/
theorem Represents.order (h : Represents s ks hidden r) {outer : List OrderKey}
    (hdef : ∀ k ∈ outer, Defined r.columns k.expr r.rows)
    (huni : ∀ k ∈ outer, Uniform r.columns k.expr r.rows)
    (hfloat : ∀ k ∈ outer ++ ks, k.expr.holdsFloat = false) :
    Represents s (mergeKeys outer ks) hidden
      ⟨r.columns, sortBy (rowCompare r.columns outer) r.rows⟩ := by
  have hdef' : ∀ k ∈ outer, Defined s.columns k.expr s.rows :=
    fun k hk => h.widens.defined (hdef k hk)
  have huni' : ∀ k ∈ outer, Uniform s.columns k.expr s.rows :=
    fun k hk => h.widens.uniform (hdef k hk) (huni k hk)
  refine ⟨h.columns, fun k hk => ?_, fun k hk => ?_, ?_⟩
  · exact (mem_of_mem_mergeKeys hk).elim (hdef' k) (h.defined k)
  · exact (mem_of_mem_mergeKeys hk).elim (huni' k) (h.uniform k)
  · have hmerge : sortBy (rowCompare s.columns (mergeKeys outer ks)) s.rows =
        sortBy (rowCompare s.columns outer) (sortBy (rowCompare s.columns ks) s.rows) := by
      rw [sortBy_sortBy (rowCompare_orderOn huni') h.orderOn]
      refine sortBy_congr fun a ha b hb => rowCompare_mergeKeys (fun k hk => ?_) hfloat ha hb
      exact (List.mem_append.1 hk).elim (huni' k) (h.uniform k)
    rw [hmerge, ← h.rows]
    refine (sortBy_map _ fun a ha b hb => ?_).symm
    refine rowCompare_congr (fun k hk => ?_) fun k hk => ?_
    · exact (h.widens.valueOn (hdef k hk) (mem_sortBy.1 ha)).symm
    · exact (h.widens.valueOn (hdef k hk) (mem_sortBy.1 hb)).symm

/-- A limit cuts what has been sorted, and the rest is still sorted. -/
theorem Represents.window (h : Represents s ks hidden r) (skip take : Option Nat) :
    Represents ⟨s.columns, Expr.window skip take (sortBy (rowCompare s.columns ks) s.rows)⟩ ks hidden
      ⟨r.columns, Expr.window skip take r.rows⟩ := by
  have hsub := window_sublist skip take (sortBy (rowCompare s.columns ks) s.rows)
  have hmem : ∀ row ∈ Expr.window skip take (sortBy (rowCompare s.columns ks) s.rows),
      row ∈ s.rows := fun row hrow => mem_sortBy.1 (hsub.subset hrow)
  refine ⟨h.columns, fun k hk => (h.defined k hk).mono hmem,
    fun k hk => (h.uniform k hk).mono hmem, ?_⟩
  rw [sortBy_of_pairwise (h.orderOn.mono hmem) ((sortBy_pairwise h.orderOn).sublist hsub),
    ← window_map, h.rows]

end Represents

/-! ### Projections -/

/-- A column of a projection is found under its name, if names are different. -/
theorem rowEnv_column_of_mem {q : String} {cs : List Column} (hnodup : (cs.map (·.name)).Nodup)
    (g : Column → Value) {c : Column} (hc : c ∈ cs) :
    (rowEnv (projectedColumns q cs) (cs.map g)).column q c.name = some (g c) := by
  induction cs with
  | nil => cases hc
  | cons d cs ih =>
    obtain ⟨hd, hnodup⟩ := List.nodup_cons.1 hnodup
    rw [projectedColumns, List.map_cons, List.map_cons, rowEnv_column_cons]
    rcases List.mem_cons.1 hc with rfl | hc
    · simp
    · have hne : d.name ≠ c.name := fun h => hd (List.mem_map.2 ⟨c, hc, h.symm⟩)
      have hbeq : (q == q && d.name == c.name) = false := by simp [hne]
      rw [hbeq]
      exact ih hnodup hc

section Project

variable {s r : Relation} {ks : List OrderKey} {hidden : List QualifiedName} {cs : List Column}

/-- A projection of wider rows has the same values. -/
theorem Widens.projectedRow (h : Widens s hidden r) (hdef : ∀ c ∈ cs, Defined r.columns c.expr r.rows)
    {row : Row} (hrow : row ∈ s.rows) :
    projectedRow s.columns cs row =
      Relation.projectedRow r.columns cs (row.take r.columns.length) :=
  List.map_congr_left fun c hc => h.valueOn (hdef c hc) hrow

/-- Keys in the same directions that have the same values on two pairs of rows compare them
alike. -/
theorem rowCompare_of_forall₂ {columns columns' : List QualifiedName} {ks' : List OrderKey}
    {a b a' b' : Row}
    (h : List.Forall₂ (fun k k' => k'.direction = k.direction ∧
      valueOn columns' k'.expr a' = valueOn columns k.expr a ∧
      valueOn columns' k'.expr b' = valueOn columns k.expr b) ks ks') :
    rowCompare columns' ks' a' b' = rowCompare columns ks a b := by
  induction h with
  | nil => rfl
  | cons hk _ ih => rw [rowCompare, rowCompare, ih, keyCompare, keyCompare, hk.1, hk.2.1, hk.2.2]

/-- The keys of an exposing projection have their old values on the projected rows. Since the names
are distinct a reference finds its column, and without doubles a column that is equal to the key has
its value. -/
theorem exposeKeys_evaluate {q : String} (hnodup : (cs.map (·.name)).Nodup)
    (hcs : ∀ c ∈ cs, c.expr.holdsFloat = false) (hks : ∀ k ∈ ks, k.expr.holdsFloat = false)
    (columns : List QualifiedName) :
    List.Forall₂ (fun k k' => k'.direction = k.direction ∧ ∀ row,
      k'.expr.evaluate (rowEnv (projectedColumns q (exposeKeys q (· == ·) id cs ks).1)
        (projectedRow columns (exposeKeys q (· == ·) id cs ks).1 row)) =
          .ok (valueOn columns k.expr row)) ks (exposeKeys q (· == ·) id cs ks).2 := by
  have hnodup' := exposeKeys_nodup q (· == ·) id hnodup ks
  obtain ⟨added, hadded, hshown⟩ := exposeKeys_columns q (· == ·) id cs ks
  have hfloat : ∀ c ∈ (exposeKeys q (· == ·) id cs ks).1, c.expr.holdsFloat = false := by
    intro c hc
    rw [hadded] at hc
    rcases List.mem_append.1 hc with hc | hc
    · exact hcs c hc
    · obtain ⟨k, hk, hexpr⟩ := hshown c hc
      rw [hexpr]
      exact hks k hk
  refine (exposeKeys_keys q (· == ·) id cs ks).imp fun k k' hk => ?_
  obtain ⟨hdirection, c, hc, hcolumn, hexpr⟩ := hk
  have hexpr' : c.expr = k.expr := by
    rcases hexpr with hbeq | hexpr
    · exact eq_of_beq_eq_true (hfloat c hc) hbeq
    · exact hexpr
  refine ⟨hdirection, fun row => ?_⟩
  rw [hcolumn, Expr.evaluate, projectedRow, rowEnv_column_of_mem hnodup' _ hc, hexpr']
  rfl

/-- A projection that exposes the keys maps each row together with its keys. The columns that are
added hold the keys, and they become the hidden columns of the new relation. -/
theorem Represents.project (h : Represents s ks hidden r) {q : String}
    (hnodup : (cs.map (·.name)).Nodup) (hdef : ∀ c ∈ cs, Defined r.columns c.expr r.rows)
    (hcs : ∀ c ∈ cs, c.expr.holdsFloat = false) (hks : ∀ k ∈ ks, k.expr.holdsFloat = false)
    {cs' : List Column} {ks' : List OrderKey}
    (hexpose : exposeKeys q (· == ·) id cs ks = (cs', ks')) :
    (∀ c ∈ cs', Defined s.columns c.expr s.rows) ∧ ∃ hidden',
      Represents ⟨projectedColumns q cs', s.rows.map (Relation.projectedRow s.columns cs')⟩ ks'
        hidden' ⟨projectedColumns q cs, r.rows.map (Relation.projectedRow r.columns cs)⟩ := by
  have hkeys := exposeKeys_evaluate (q := q) hnodup hcs hks s.columns
  obtain ⟨added, hadded, hshown⟩ := exposeKeys_columns q (· == ·) id cs ks
  rw [hexpose] at hkeys hadded
  obtain rfl : cs' = cs ++ added := hadded
  constructor
  · intro c hc
    rcases List.mem_append.1 hc with hc | hc
    · exact h.widens.defined (hdef c hc)
    · obtain ⟨k, hk, hexpr⟩ := hshown c hc
      rw [hexpr]
      exact h.defined k hk
  · have hvalue : ∀ k' ∈ ks', ∃ k ∈ ks, ∀ row,
        k'.expr.evaluate (rowEnv (projectedColumns q (cs ++ added))
          (Relation.projectedRow s.columns (cs ++ added) row)) =
            .ok (Relation.valueOn s.columns k.expr row) := by
      intro k' hk'
      obtain ⟨k, hk, hboth⟩ := Attempt.exists_rel_of_mem_right hkeys hk'
      exact ⟨k, hk, hboth.2⟩
    refine ⟨projectedColumns q added, List.map_append, fun k' hk' => ?_, fun k' hk' => ?_, ?_⟩
    · obtain ⟨k, _, hk⟩ := hvalue k' hk'
      intro row' hrow'
      obtain ⟨row, _, rfl⟩ := List.mem_map.1 hrow'
      exact evaluate_valueOn (hk row)
    · obtain ⟨k, hmem, hk⟩ := hvalue k' hk'
      obtain ⟨kind, hkind⟩ := h.uniform k hmem
      refine ⟨kind, fun row' hrow' => ?_⟩
      obtain ⟨row, hrow, rfl⟩ := List.mem_map.1 hrow'
      rw [valueOn_eq (hk row)]
      exact hkind row hrow
    · have hsort : sortBy (rowCompare (projectedColumns q (cs ++ added)) ks')
            (s.rows.map (Relation.projectedRow s.columns (cs ++ added))) =
          (sortBy (rowCompare s.columns ks) s.rows).map
            (Relation.projectedRow s.columns (cs ++ added)) := by
        refine sortBy_map _ fun a _ b _ => rowCompare_of_forall₂ (hkeys.imp fun k k' hk => ?_)
        exact ⟨hk.1, valueOn_eq (hk.2 a), valueOn_eq (hk.2 b)⟩
      have hcut : ∀ row ∈ sortBy (rowCompare s.columns ks) s.rows,
          (List.take (projectedColumns q cs).length ∘
              Relation.projectedRow s.columns (cs ++ added)) row =
            (Relation.projectedRow r.columns cs ∘ List.take r.columns.length) row := by
        intro row hrow
        rw [Function.comp_apply, Function.comp_apply,
          ← h.widens.projectedRow hdef (mem_sortBy.1 hrow)]
        simp [Relation.projectedRow, projectedColumns]
      rw [hsort, List.map_map, List.map_congr_left hcut, ← List.map_map, h.rows]

end Project

/-! ### Trees -/

/-- The tree is made of scans, filters, orderings, limits, and projections that are neither distinct
nor grouped and give their columns different names. -/
def IsPlain : Expr → Prop
  | .scan .. => True
  | .filter input _ | .order input _ | .limit input _ _ => IsPlain input
  | .project _ input cs distinct groupBy =>
    distinct = false ∧ groupBy = [] ∧ (cs.map (·.name)).Nodup ∧ IsPlain input
  | _ => False

theorem IsPlain.isRelational {e : Expr} (h : IsPlain e) : e.isRelational = true := by
  cases e <;> first | rfl | exact h.elim

/-- No projection of the tree has an aggregate in its columns. -/
def AggregateFree : Expr → Prop
  | .filter input _ | .order input _ | .limit input _ _ => AggregateFree input
  | .project _ input cs _ _ => cs.any (fun c => c.expr.hasAggregate) = false ∧ AggregateFree input
  | _ => True

/-- The values of each ordering key, on the rows that it orders, are NULL or of one kind. -/
def KeysUniform (tables : Tables) : Expr → Prop
  | .filter input _ | .limit input _ _ | .project _ input _ _ _ => KeysUniform tables input
  | .order input ks => KeysUniform tables input ∧
      ∀ r, relation tables input = .ok r → ∀ k ∈ ks, Uniform r.columns k.expr r.rows
  | _ => True

/-- No ordering key has an aggregate in it. -/
def KeysAggregateFree : Expr → Prop
  | .filter input _ | .limit input _ _ | .project _ input _ _ _ => KeysAggregateFree input
  | .order input ks => KeysAggregateFree input ∧ ∀ k ∈ ks, k.expr.hasAggregate = false
  | _ => True

/-- A lifted tree is no ordering, and a limit over an ordering has its rows in that order. -/
def SortedIfLimited (e : Expr) (s : Relation) : Prop :=
  match e with
  | .order .. => False
  | .limit (.order _ ks) _ _ => (∀ k ∈ ks, k.expr.holdsFloat = false) ∧
      s.rows.Pairwise fun a b => (rowCompare s.columns ks a b).isLE
  | _ => True

/-- Key lists that compare as equal are equal, doubles apart, where a zero equals the other. -/
theorem eq_of_keys_beq {ks ks' : List OrderKey} (hf : ∀ k ∈ ks, k.expr.holdsFloat = false)
    (h : (ks == ks') = true) : ks = ks' := by
  induction ks generalizing ks' with
  | nil => cases ks' with
    | nil => rfl
    | cons _ _ => cases h
  | cons k ks ih =>
    cases ks' with
    | nil => cases h
    | cons k' ks' =>
      obtain ⟨hk, hks⟩ := List.forall_mem_cons.1 hf
      obtain ⟨h, hrest⟩ := Bool.and_eq_true_iff.1 h
      obtain ⟨hexpr, hdirection⟩ := Bool.and_eq_true_iff.1 h
      obtain ⟨e, d⟩ := k
      obtain ⟨e', d'⟩ := k'
      obtain rfl : e = e' := eq_of_beq_eq_true hk hexpr
      obtain rfl : d = d' := eq_of_beq hdirection
      rw [ih hks hrest]

section Lift

variable {tables : Tables} {s : Relation} {ks : List OrderKey}

/-- The rows of an ordered tree are those of the tree, sorted by its keys. -/
theorem relation_orderedBy {e : Expr} (hs : relation tables e = .ok s)
    (hdef : ∀ k ∈ ks, Defined s.columns k.expr s.rows) :
    relation tables (orderedBy ks e) =
      .ok ⟨s.columns, sortBy (rowCompare s.columns ks) s.rows⟩ := by
  rw [orderedBy]
  cases ks with
  | nil => rw [List.isEmpty_nil, if_pos rfl, hs, sortBy_rowCompare_nil]
  | cons k ks => exact relation_order_eq_ok_iff.2 ⟨s, hs, hdef, rfl⟩

/-- Ordering a lifted tree by its keys, or leaving it when it is in that order already, sorts its
rows. -/
theorem relation_ordered {e : Expr} (hs : relation tables e = .ok s)
    (hdef : ∀ k ∈ ks, Defined s.columns k.expr s.rows)
    (huni : ∀ k ∈ ks, Uniform s.columns k.expr s.rows) (hsorted : SortedIfLimited e s) :
    relation tables (if isLimitedBy ks e then e else orderedBy ks e) =
      .ok ⟨s.columns, sortBy (rowCompare s.columns ks) s.rows⟩ := by
  split
  next hlimited =>
    unfold isLimitedBy at hlimited
    split at hlimited
    next =>
      obtain ⟨hfloat, hpairwise⟩ := hsorted
      obtain rfl := eq_of_keys_beq hfloat hlimited
      rw [hs, sortBy_of_pairwise (rowCompare_orderOn huni) hpairwise]
    next => cases hlimited
  next => exact relation_orderedBy hs hdef

/-- A projection of rows that widen the original ones, with the columns that it had. -/
theorem relation_project_widens {e : Expr} {q : String} {cs : List Column} {r : Relation}
    {hidden : List QualifiedName} (hs : relation tables e = .ok s) (hw : Widens s hidden r)
    (hrows : s.rows.map (List.take r.columns.length) = r.rows)
    (hcs : cs.any (fun c => c.expr.hasAggregate) = false)
    (hdef : ∀ c ∈ cs, Defined r.columns c.expr r.rows) :
    relation tables (.project q e cs false []) =
      .ok ⟨projectedColumns q cs, r.rows.map (projectedRow r.columns cs)⟩ := by
  refine relation_project_eq_ok_iff.2 ⟨s, _, hs, (projectRows_eq_ok_iff hcs).2
    ⟨fun c hc => hw.defined (hdef c hc), rfl⟩, ?_⟩
  rw [← hrows, List.map_map]
  exact congrArg _ (List.map_congr_left fun row hrow => (hw.projectedRow hdef hrow).symm)

/-- What lifting makes of a tree over the tables: a tree and keys that represent its relation,
unless an exposed key has turned a projection into an aggregation. -/
structure LiftsTo (tables : Tables) (mode : Mode) (r : Relation) (e : Expr) (ks : List OrderKey) :
    Prop where
  keysFloatFree : ∀ k ∈ ks, k.expr.holdsFloat = false
  represents : AggregateFree e → ∃ s hidden, relation tables e = .ok s ∧ Represents s ks hidden r ∧
    SortedIfLimited e s ∧ (mode = .place → hidden = [])

/-- A filter keeps rows by what it sees of them, which the hidden columns do not change, so the keys
pass through it. -/
theorem LiftsTo.filter {mode : Mode} {r : Relation} {e p : Expr} (h : LiftsTo tables mode r e ks)
    (hp : Defined r.columns p r.rows) :
    LiftsTo tables mode ⟨r.columns, r.rows.filter (holdsOn r.columns p)⟩ (.filter e p) ks where
  keysFloatFree := h.keysFloatFree
  represents hfree := by
    obtain ⟨s, hidden, hs, hrep, _, hplace⟩ := h.represents hfree
    refine ⟨_, hidden, ?_, hrep.filter hp, trivial, hplace⟩
    exact relation_filter_eq_ok_iff.2 ⟨s, hs, hrep.widens.defined hp, rfl⟩

/-- An ordering over lifted keys: the outer keys come first, and the lifted ones decide among
equals, as a stable sort does. -/
theorem LiftsTo.order {mode : Mode} {r : Relation} {e : Expr} {outer : List OrderKey}
    (h : LiftsTo tables mode r e ks) (hdef : ∀ k ∈ outer, Defined r.columns k.expr r.rows)
    (huni : ∀ k ∈ outer, Uniform r.columns k.expr r.rows)
    (hfloat : ∀ k ∈ outer, k.expr.holdsFloat = false) :
    LiftsTo tables mode ⟨r.columns, sortBy (rowCompare r.columns outer) r.rows⟩ e
      (mergeKeys outer ks) where
  keysFloatFree k hk := (mem_of_mem_mergeKeys hk).elim (hfloat k) (h.keysFloatFree k)
  represents hfree := by
    obtain ⟨s, hidden, hs, hrep, hsorted, hplace⟩ := h.represents hfree
    refine ⟨s, hidden, hs, hrep.order hdef huni fun k hk => ?_, hsorted, hplace⟩
    exact (List.mem_append.1 hk).elim (hfloat k) (h.keysFloatFree k)

/-- An ordering adds no projection. -/
theorem aggregateFree_orderedBy {e : Expr} (ks : List OrderKey) :
    AggregateFree (orderedBy ks e) ↔ AggregateFree e := by
  rw [orderedBy]
  split
  · exact Iff.rfl
  · exact Iff.rfl

/-- The first rows in the order of the keys are the first rows of the relation, so a limit keeps its
keys below it and passes them on. -/
theorem LiftsTo.limit {mode : Mode} {r : Relation} {e : Expr} {take skip : Option Expr}
    {taken skipped : Option Nat} (h : LiftsTo tables mode r e ks)
    (htake : rowCount take = .ok taken) (hskip : rowCount skip = .ok skipped) :
    LiftsTo tables mode ⟨r.columns, window skipped taken r.rows⟩
      (.limit (orderedBy ks e) take skip) ks where
  keysFloatFree := h.keysFloatFree
  represents hfree := by
    obtain ⟨s, hidden, hs, hrep, hsorted, hplace⟩ :=
      h.represents ((aggregateFree_orderedBy ks).1 hfree)
    refine ⟨_, hidden, relation_limit_eq_ok_iff.2
      ⟨_, skipped, taken, relation_orderedBy hs hrep.defined, hskip, htake, rfl⟩,
      hrep.window skipped taken, ?_, hplace⟩
    rw [orderedBy]
    cases ks with
    | nil =>
      cases e with
      | order _ _ => exact hsorted.elim
      | _ => trivial
    | cons k ks =>
      exact ⟨h.keysFloatFree, (sortBy_pairwise hrep.orderOn).sublist (window_sublist _ _ _)⟩

section Projection

variable {mode : Mode} {r : Relation} {e : Expr} {q : String} {cs : List Column}

/-- A projection with the columns that it had, over rows that widen the original ones. -/
theorem liftsTo_project_of_widens (hcs : cs.any (fun c => c.expr.hasAggregate) = false)
    (hdef : ∀ c ∈ cs, Defined r.columns c.expr r.rows)
    (he : AggregateFree e → ∃ s hidden, relation tables e = .ok s ∧ Widens s hidden r ∧
      s.rows.map (List.take r.columns.length) = r.rows) :
    LiftsTo tables mode ⟨projectedColumns q cs, r.rows.map (projectedRow r.columns cs)⟩
      (.project q e cs false []) [] where
  keysFloatFree k hk := absurd hk List.not_mem_nil
  represents hfree := by
    obtain ⟨s, hidden, hs, hw, hrows⟩ := he hfree.2
    refine ⟨_, [], relation_project_widens hs hw hrows hcs hdef, .refl ?_, trivial, fun _ => rfl⟩
    intro row hrow
    obtain ⟨source, _, rfl⟩ := List.mem_map.1 hrow
    rw [projectedRow, projectedColumns, List.length_map, List.length_map]

/-- The outermost projection keeps the ordering below it. -/
theorem LiftsTo.projectPlaced (h : LiftsTo tables .expose r e ks)
    (hcs : cs.any (fun c => c.expr.hasAggregate) = false)
    (hdef : ∀ c ∈ cs, Defined r.columns c.expr r.rows) :
    LiftsTo tables mode ⟨projectedColumns q cs, r.rows.map (projectedRow r.columns cs)⟩
      (.project q (if isLimitedBy ks e then e else orderedBy ks e) cs false []) [] := by
  refine liftsTo_project_of_widens hcs hdef fun hfree => ?_
  have hfree' : AggregateFree e := by
    split at hfree
    · exact hfree
    · exact (aggregateFree_orderedBy ks).1 hfree
  obtain ⟨s, hidden, hs, hrep, hsorted, _⟩ := h.represents hfree'
  refine ⟨_, hidden, relation_ordered hs hrep.defined hrep.uniform hsorted, ⟨hrep.columns, ?_⟩,
    hrep.rows⟩
  exact fun row hrow => hrep.widens.take_mem row (mem_sortBy.1 hrow)

/-- A projection further inside shows the keys as columns. -/
theorem LiftsTo.projectExposed (h : LiftsTo tables .expose r e ks)
    (hmode : mode ≠ .place) (hnodup : (cs.map (·.name)).Nodup)
    (hdef : ∀ c ∈ cs, Defined r.columns c.expr r.rows)
    (hfloat : ∀ c ∈ cs, c.expr.holdsFloat = false) {cs' : List Column} {ks' : List OrderKey}
    (hexpose : exposeKeys q (· == ·) id cs ks = (cs', ks')) :
    LiftsTo tables mode ⟨projectedColumns q cs, r.rows.map (projectedRow r.columns cs)⟩
      (.project q e cs' false []) ks' where
  keysFloatFree k' hk' := by
    have hkeys := exposeKeys_keys q (· == ·) id cs ks
    rw [hexpose] at hkeys
    obtain ⟨k, _, _, c, _, hcolumn, _⟩ := Attempt.exists_rel_of_mem_right hkeys hk'
    rw [hcolumn]
    rfl
  represents hfree := by
    obtain ⟨hcs', hfree⟩ := hfree
    obtain ⟨s, hidden, hs, hrep, _, _⟩ := h.represents hfree
    obtain ⟨hdef', hidden', hrep'⟩ := hrep.project hnodup hdef hfloat h.keysFloatFree hexpose
    refine ⟨_, hidden', ?_, hrep', trivial, fun hplace => absurd hplace hmode⟩
    exact relation_project_eq_ok_iff.2
      ⟨s, _, hs, (projectRows_eq_ok_iff hcs').2 ⟨hdef', rfl⟩, rfl⟩

/-- A projection over an input whose orderings have been lifted. Without keys the projection stays
as it is; with keys they are placed below it or exposed by it, as the mode says. -/
theorem LiftsTo.project (hmode : mode ≠ .discard) (distinctInAggregates : Bool)
    (h : LiftsTo tables .expose r e ks) (hnodup : (cs.map (·.name)).Nodup)
    (hcs : cs.any (fun c => c.expr.hasAggregate) = false)
    (hdef : ∀ c ∈ cs, Defined r.columns c.expr r.rows)
    (hfloat : ∀ c ∈ cs, c.expr.holdsFloat = false) :
    LiftsTo tables mode ⟨projectedColumns q cs, r.rows.map (projectedRow r.columns cs)⟩
      (liftProjection distinctInAggregates mode q cs false [] e ks).1
      (liftProjection distinctInAggregates mode q cs false [] e ks).2 := by
  unfold liftProjection
  cases ks with
  | nil =>
    refine liftsTo_project_of_widens hcs hdef fun hfree => ?_
    obtain ⟨s, hidden, hs, hrep, _, _⟩ := h.represents hfree
    have hrows := hrep.rows
    rw [sortBy_rowCompare_nil] at hrows
    exact ⟨s, hidden, hs, hrep.widens, hrows⟩
  | cons k ks =>
    cases mode with
    | discard => exact absurd rfl hmode
    | place =>
      simp only [hcs]
      exact h.projectPlaced hcs hdef
    | expose =>
      simp only [hcs]
      exact h.projectExposed (by decide) hnodup hdef hfloat rfl

end Projection

/-- Lifting succeeds on a plain tree that has a relation, and what it returns represents the
relation. By induction on the tree, with a lemma for each kind of node on what it does to the
representation: `LiftsTo.filter`, `LiftsTo.order`, `LiftsTo.limit` and `LiftsTo.project`. -/
theorem lift_liftsTo (ht : tables.Rectangular) (distinctInAggregates : Bool) {mode : Mode}
    (hmode : mode ≠ .discard) {e : Expr} (hplain : IsPlain e) (hfree : AggregateFree e)
    (hfloat : e.holdsFloat = false) (hkeys : KeysUniform tables e) {r : Relation}
    (hr : relation tables e = .ok r) :
    ∃ e' ks, lift distinctInAggregates mode e = .ok (e', ks) ∧ LiftsTo tables mode r e' ks := by
  induction e using treeInduction generalizing mode r with
  | scan source qualifier t _ =>
    refine ⟨_, [], rfl, fun k hk => absurd hk List.not_mem_nil, fun _ => ?_⟩
    exact ⟨r, [], hr, .refl (relation_rectangular ht hr), trivial, fun _ => rfl⟩
  | filter input p ih _ =>
    obtain ⟨r, hinput, hdef, rfl⟩ := relation_filter_eq_ok_iff.1 hr
    have hfloat' := holdsFloat_of_mem_children hfloat List.mem_cons_self
    obtain ⟨e', ks, hlift, h⟩ := ih hmode hplain hfree hfloat' hkeys hinput
    refine ⟨.filter e' p, ks, ?_, h.filter hdef⟩
    rw [lift, hlift]
    rfl
  | order input outer ih _ =>
    obtain ⟨r, hinput, hdef, rfl⟩ := relation_order_eq_ok_iff.1 hr
    have hfloat' := holdsFloat_of_mem_children hfloat List.mem_cons_self
    obtain ⟨e', ks, hlift, h⟩ := ih hmode hplain hfree hfloat' hkeys.1 hinput
    refine ⟨e', mergeKeys outer ks, ?_, h.order hdef (hkeys.2 r hinput) fun k hk => ?_⟩
    · rw [lift, hlift]
      rfl
    · exact holdsFloat_of_mem_children hfloat (List.mem_cons_of_mem _ (List.mem_map_of_mem hk))
  | limit input take skip ih _ _ =>
    obtain ⟨r, skipped, taken, hinput, hskip, htake, rfl⟩ := relation_limit_eq_ok_iff.1 hr
    have hfloat' := holdsFloat_of_mem_children hfloat List.mem_cons_self
    obtain ⟨e', ks, hlift, h⟩ := ih hmode hplain hfree hfloat' hkeys hinput
    refine ⟨.limit (orderedBy ks e') take skip, ks, ?_, h.limit htake hskip⟩
    rw [lift, hlift]
    rfl
  | project q input cs distinct groupBy ih _ _ =>
    obtain ⟨rfl, rfl, hnodup, hplain⟩ := hplain
    obtain ⟨hcs, hfree⟩ := hfree
    obtain ⟨r, rows, hinput, hrows, rfl⟩ := relation_project_eq_ok_iff.1 hr
    obtain ⟨hdef, rfl⟩ := (projectRows_eq_ok_iff hcs).1 hrows
    have hfloat' := holdsFloat_of_mem_children hfloat List.mem_cons_self
    have hcsFloat : ∀ c ∈ cs, c.expr.holdsFloat = false := by
      intro c hc
      have hmem : c.expr ∈ cs.map (·.expr) := List.mem_map_of_mem hc
      exact holdsFloat_of_mem_children hfloat
        (List.mem_cons_of_mem _ (List.mem_append_left _ hmem))
    have hexpose : Mode.expose ≠ .discard := by decide
    obtain ⟨e', ks, hlift, h⟩ := ih hexpose hplain hfree hfloat' hkeys hinput
    refine ⟨_, _, ?_, h.project hmode distinctInAggregates hnodup hcs hdef hcsFloat⟩
    rw [lift, hlift]
    rfl
  | _ => exact hplain.elim

/-! ### Trees without aggregates in their keys -/

/-- Exposed keys without aggregates add only columns without them. -/
theorem exposeKeys_any_hasAggregate {q : String} {isShown : Expr → Expr → Bool} {cs : List Column}
    (hcs : cs.any (fun c => c.expr.hasAggregate) = false)
    (hks : ∀ k ∈ ks, k.expr.hasAggregate = false) :
    (exposeKeys q isShown id cs ks).1.any (fun c => c.expr.hasAggregate) = false := by
  obtain ⟨added, hadded, hshown⟩ := exposeKeys_columns q isShown id cs ks
  rw [hadded, List.any_append, hcs, Bool.false_or, List.any_eq_false]
  intro c hc
  obtain ⟨k, hk, hexpr⟩ := hshown c hc
  rw [hexpr]
  exact Bool.eq_false_iff.1 (hks k hk)

/-- Showing keys without aggregates gives a projection without aggregates. -/
theorem liftProjection_aggregateFree {mode : Mode} (hmode : mode ≠ .discard)
    (distinctInAggregates : Bool) (q : String) {cs : List Column} {e : Expr}
    (hcs : cs.any (fun c => c.expr.hasAggregate) = false) (he : AggregateFree e)
    (hks : ∀ k ∈ ks, k.expr.hasAggregate = false) :
    AggregateFree (liftProjection distinctInAggregates mode q cs false [] e ks).1 ∧
      ∀ k ∈ (liftProjection distinctInAggregates mode q cs false [] e ks).2,
        k.expr.hasAggregate = false := by
  unfold liftProjection
  cases ks with
  | nil => exact ⟨⟨hcs, he⟩, fun k hk => absurd hk List.not_mem_nil⟩
  | cons k ks =>
    cases mode with
    | discard => exact absurd rfl hmode
    | place =>
      simp only [hcs]
      refine ⟨⟨hcs, ?_⟩, fun k hk => absurd hk List.not_mem_nil⟩
      split
      · exact he
      · exact he
    | expose =>
      simp only [hcs]
      refine ⟨⟨exposeKeys_any_hasAggregate hcs hks, he⟩, fun k' hk' => ?_⟩
      obtain ⟨_, _, _, c, _, hcolumn, _⟩ :=
        Attempt.exists_rel_of_mem_right (exposeKeys_keys q (· == ·) id cs (k :: ks)) hk'
      rw [hcolumn]
      rfl

/-- Keys without aggregates leave every projection as it was in this respect. By induction on the
tree: the keys of an ordering have no aggregates by hypothesis, and those of a projection are
references to its columns. -/
theorem lift_aggregateFree (distinctInAggregates : Bool) {mode : Mode} (hmode : mode ≠ .discard)
    {e : Expr} (hplain : IsPlain e) (hfree : AggregateFree e) (hkeys : KeysAggregateFree e)
    {e' : Expr} (h : lift distinctInAggregates mode e = .ok (e', ks)) :
    AggregateFree e' ∧ ∀ k ∈ ks, k.expr.hasAggregate = false := by
  induction e using treeInduction generalizing mode e' ks with
  | scan source qualifier t _ =>
    cases h
    exact ⟨trivial, fun k hk => absurd hk List.not_mem_nil⟩
  | filter input p ih _ =>
    obtain ⟨⟨e', ks⟩, hlift, h⟩ := Attempt.bind_eq_ok_iff.1 h
    cases h
    obtain ⟨hfree', hks⟩ := ih hmode hplain hfree hkeys hlift
    exact ⟨hfree', hks⟩
  | order input outer ih _ =>
    obtain ⟨⟨e', ks⟩, hlift, h⟩ := Attempt.bind_eq_ok_iff.1 h
    cases h
    obtain ⟨hfree', hks⟩ := ih hmode hplain hfree hkeys.1 hlift
    exact ⟨hfree', fun k hk => (mem_of_mem_mergeKeys hk).elim (hkeys.2 k) (hks k)⟩
  | limit input take skip ih _ _ =>
    obtain ⟨⟨e', ks⟩, hlift, h⟩ := Attempt.bind_eq_ok_iff.1 h
    cases h
    obtain ⟨hfree', hks⟩ := ih hmode hplain hfree hkeys hlift
    exact ⟨(aggregateFree_orderedBy ks).2 hfree', hks⟩
  | project q input cs distinct groupBy ih _ _ =>
    obtain ⟨rfl, rfl, _, hplain⟩ := hplain
    obtain ⟨hcs, hfree⟩ := hfree
    obtain ⟨⟨e', ks⟩, hlift, h⟩ := Attempt.bind_eq_ok_iff.1 h
    have hexpose : Mode.expose ≠ .discard := by decide
    obtain ⟨hfree', hks⟩ := ih hexpose hplain hfree hkeys hlift
    have hprojection := liftProjection_aggregateFree hmode distinctInAggregates q hcs hfree' hks
    rw [Except.ok.inj h] at hprojection
    exact hprojection
  | _ => exact hplain.elim

end Lift

/-! ### Normalization -/

/-- Normalization succeeds on a plain tree that has a relation. Its result has the same columns and
the same rows in the same order, unless a key with an aggregate in it has become a column of a
projection; and no key does when none has an aggregate. -/
theorem run_normalize (distinctInAggregates : Bool) {tables : Tables} (ht : tables.Rectangular)
    {e : Expr} (hplain : IsPlain e) (hfree : AggregateFree e) (hfloat : e.holdsFloat = false)
    (hkeys : KeysUniform tables e) {set : RowSet} (hrun : run tables e = .ok (.rows set)) :
    ∃ e', normalize distinctInAggregates e = .ok e' ∧
      (AggregateFree e' → run tables e' = .ok (.rows set)) ∧
      (KeysAggregateFree e → AggregateFree e') := by
  have hplace : Mode.place ≠ .discard := by decide
  obtain ⟨r, hr, hset⟩ := (run_eq_ok_iff hplain.isRelational).1 hrun
  obtain ⟨e', ks, hlift, h⟩ := lift_liftsTo ht distinctInAggregates hplace hplain hfree hfloat hkeys hr
  refine ⟨_, by rw [normalize, hlift]; rfl, fun hfree' => ?_, fun hkeys' => ?_⟩
  · have hfree'' : AggregateFree e' := by
      split at hfree'
      · exact hfree'
      · exact (aggregateFree_orderedBy ks).1 hfree'
    obtain ⟨s, hidden, hs, hrep, hsorted, hhidden⟩ := h.represents hfree''
    obtain rfl := hhidden rfl
    have hordered := relation_ordered hs hrep.defined hrep.uniform hsorted
    rw [hrep.sorted_eq (relation_rectangular ht hs)] at hordered
    exact (run_eq_ok_iff (isRelational_of_relation_eq_ok hordered)).2 ⟨r, hordered, hset⟩
  · have hfree' := (lift_aggregateFree distinctInAggregates hplace hplain hfree hkeys' hlift).1
    show AggregateFree (if isLimitedBy ks e' then e' else orderedBy ks e')
    split
    · exact hfree'
    · exact (aggregateFree_orderedBy ks).2 hfree'

/-- Tasks with a number and a label. -/
def tasks : Tables :=
  [("task", ⟨["id", "label"],
    [[.int 3, .text "b"], [.int 1, .text "a"], [.int 2, .text "b"], [.int 4, .null]]⟩)]

/-- All tasks. -/
def taskScan : Expr := mkScan (source ⟨"task", none⟩) "t"

/-- The first two identifiers by label, through two projections of which neither shows the label. -/
def firstByLabel : Expr :=
  .project "q"
    (.limit
      (.project "p"
        (.order (.filter taskScan (mkBinary .gt (.column "t" "id" .int64) (.int 1)))
          [⟨.column "t" "label" .string, .ascending⟩])
        [⟨"id", .column "t" "id" .int64⟩] false [])
      (some (.int 2)) none)
    [⟨"id", .column "p" "id" .int64⟩] false []

/-- The label decides which two rows are kept, although neither projection shows it. -/
theorem run_normalize_firstByLabel :
    run tasks firstByLabel = .ok (.rows ⟨["id"], [[.int 4], [.int 3]]⟩) ∧
      ∃ e', normalize false firstByLabel = .ok e' ∧
        (AggregateFree e' → run tasks e' = .ok (.rows ⟨["id"], [[.int 4], [.int 3]]⟩)) ∧
        (KeysAggregateFree firstByLabel → AggregateFree e') := by
  have ht : tasks.Rectangular := by decide
  have hkeys : KeysUniform tasks firstByLabel := by
    refine ⟨trivial, fun r hr => ?_⟩
    cases hr
    refine List.forall_mem_singleton.2 ⟨.text, ?_⟩
    refine List.forall_mem_cons.2 ⟨⟨some "b", rfl⟩, List.forall_mem_cons.2 ⟨⟨some "b", rfl⟩, ?_⟩⟩
    exact List.forall_mem_singleton.2 ⟨none, rfl⟩
  have hplain : IsPlain firstByLabel := ⟨rfl, rfl, by decide, rfl, rfl, by decide, trivial⟩
  have hfree : AggregateFree firstByLabel := ⟨rfl, rfl, trivial⟩
  exact ⟨rfl, run_normalize false ht hplain hfree rfl hkeys rfl⟩

/-- No tasks. -/
def noTasks : Tables := [("task", ⟨["id", "label"], []⟩)]

/-- Identifiers ordered by the number of tasks, through two projections. -/
def idsByCount : Expr :=
  .project "q"
    (.project "p" (.order taskScan [⟨mkAggregate .count none false, .ascending⟩])
      [⟨"id", .column "t" "id" .int64⟩] false [])
    [⟨"id", .column "p" "id" .int64⟩] false []

/-- A plain tree without aggregates in its projections that gives no rows. Its key becomes a column
of the inner projection, which then has a row for the group of no rows. -/
theorem run_normalize_idsByCount :
    noTasks.Rectangular ∧ IsPlain idsByCount ∧ AggregateFree idsByCount ∧
      idsByCount.holdsFloat = false ∧ KeysUniform noTasks idsByCount ∧
      run noTasks idsByCount = .ok (.rows ⟨["id"], []⟩) ∧
      ∀ distinctInAggregates, ∃ e', normalize distinctInAggregates idsByCount = .ok e' ∧
        run noTasks e' = .ok (.rows ⟨["id"], [[.null]]⟩) := by
  refine ⟨by decide, ⟨rfl, rfl, by decide, rfl, rfl, by decide, trivial⟩, ⟨rfl, rfl, trivial⟩, rfl,
    ?_, rfl, fun distinctInAggregates => ?_⟩
  · refine ⟨trivial, fun r hr => ?_⟩
    cases hr
    exact List.forall_mem_singleton.2 ⟨.int, fun row hrow => absurd hrow List.not_mem_nil⟩
  · cases distinctInAggregates with
    | false => exact ⟨_, rfl, rfl⟩
    | true => exact ⟨_, rfl, rfl⟩

end QueryTree.OrderLifting
