import QueryTree.Proofs.FloatFree
import QueryTree.Proofs.Folding
import QueryTree.Proofs.Improvement

/-!
# Groups of rows

What grouping leaves of the rows, one row for each combination of values, is what dropping repeated
rows leaves of them. Both are the projected rows, each once (`EachOnce`), which does not depend on
the order of the rows (`EachOnce.perm`).

* The keys of the groups are the keys of the rows without repetitions, and the rows of a group have
  its key (`grouped_spec`). So the columns that the rows are grouped by have on each group the value
  that they have on each of its rows.
* Further columns on the right, with aggregates perhaps, do not change this
  (`take_of_mapM_groupValue`).

Where a column has no aggregates in it and is not among the grouping keys, its value on a group is
the one on the first row, and nothing is said of it here.
-/

namespace QueryTree

open Attempt

namespace Relation

/-! ### Each row once -/

/-- The rows of the second list, each of them once. -/
def EachOnce (once rows : List Row) : Prop := once.Nodup ∧ ∀ row, row ∈ once ↔ row ∈ rows

/-- Two lists that have the same rows once each are permutations of one another. -/
theorem EachOnce.perm {once once' rows rows' : List Row} (h : EachOnce once rows)
    (h' : EachOnce once' rows') (hrows : ∀ row, row ∈ rows ↔ row ∈ rows') : once.Perm once' := by
  rw [List.perm_ext_iff_of_nodup h.1 h'.1]
  intro row
  rw [h.2, h'.2, hrows]

/-- The order in which the rows stand does not matter. -/
theorem EachOnce.of_perm {once once' rows : List Row} (h : EachOnce once rows)
    (hperm : once'.Perm once) : EachOnce once' rows :=
  ⟨hperm.nodup_iff.2 h.1, fun row => hperm.mem_iff.trans (h.2 row)⟩

/-! ### Groups -/

section Group

variable {columns : List QualifiedName} {gs : List Expr} {key : Row → List Value}
  {groups : List (List Value × List Row)} {k : List Value} {row : Row} {rows : List Row}

/-- The values of the grouping keys on a row. -/
def groupKey (columns : List QualifiedName) (gs : List Expr) (row : Row) : List Value :=
  gs.map (valueOn columns · row)

/-- Rows in groups of equal keys, with the keys. -/
def grouped (key : Row → List Value) (rows : List Row) : List (List Value × List Row) :=
  rows.foldl (fun groups row => addToGroup (key row) row groups) []

/-- Grouping along the rows succeeds exactly when the grouping keys have values on all of them. -/
theorem foldlM_addToGroup_eq_ok_iff {groups' : List (List Value × List Row)} :
    (rows.foldlM (fun groups row => do
        return addToGroup (← Expr.evaluateList (rowEnv columns row) gs) row groups) groups) =
        .ok groups' ↔
      (∀ g ∈ gs, Defined columns g rows) ∧
        groups' = rows.foldl (fun groups row => addToGroup (groupKey columns gs row) row groups)
          groups := by
  induction rows generalizing groups with
  | nil =>
    rw [List.foldlM_nil, pure_eq_ok_iff, List.foldl_nil, eq_comm]
    exact (and_iff_right fun g _ row hrow => nomatch hrow).symm
  | cons row rows ih =>
    rw [List.foldlM_cons, bind_eq_ok_iff, List.foldl_cons]
    simp only [bind_eq_ok_iff, evaluateList_eq_ok_iff, pure_eq_ok_iff, ih]
    constructor
    · rintro ⟨_, ⟨_, ⟨hrow, rfl⟩, rfl⟩, hrest, rfl⟩
      exact ⟨fun g hg => List.forall_mem_cons.2 ⟨hrow g hg, hrest g hg⟩, rfl⟩
    · rintro ⟨hdef, rfl⟩
      refine ⟨_, ⟨_, ⟨fun g hg => ?_, rfl⟩, rfl⟩, fun g hg => ?_, rfl⟩
      · exact hdef g hg row List.mem_cons_self
      · exact (hdef g hg).mono fun _ => List.mem_cons_of_mem _

/-- Rows can be grouped when all grouping keys have values on them. -/
theorem groupRows_eq_ok_iff {r : Relation} (hgs : gs ≠ []) {members : List (List Row)} :
    r.groupRows gs = .ok members ↔
      (∀ g ∈ gs, Defined r.columns g r.rows) ∧
        members = (grouped (groupKey r.columns gs) r.rows).map (·.2) := by
  have hempty : gs.isEmpty = false := by simpa using hgs
  rw [groupRows, hempty, if_neg Bool.false_ne_true]
  simp only [bind_eq_ok_iff, foldlM_addToGroup_eq_ok_iff, pure_eq_ok_iff]
  constructor
  · rintro ⟨_, ⟨hdef, rfl⟩, rfl⟩
    exact ⟨hdef, rfl⟩
  · rintro ⟨hdef, rfl⟩
    exact ⟨_, ⟨hdef, rfl⟩, rfl⟩

/-- A row joins the group of its key, or opens it after the others. -/
theorem addToGroup_keys (hgroups : ∀ g ∈ groups, Row.FloatFree g.1) (hk : Row.FloatFree k)
    (row : Row) :
    (addToGroup k row groups).map (·.1) =
      if (groups.map (·.1)).contains k then groups.map (·.1) else groups.map (·.1) ++ [k] := by
  induction groups with
  | nil => rfl
  | cons g groups ih =>
    obtain ⟨k', members⟩ := g
    obtain ⟨hk', hgroups⟩ := List.forall_mem_cons.1 hgroups
    have hbeq : (k' == k) = (k == k') := by
      rw [Bool.eq_iff_iff, row_beq_iff hk', row_beq_iff hk, eq_comm]
    rw [addToGroup, List.map_cons, List.contains_cons, hbeq]
    cases k == k' with
    | true => rfl
    | false =>
      rw [if_neg Bool.false_ne_true, Bool.false_or, List.map_cons, ih hgroups]
      split <;> rfl

/-- A group of some of the rows: there is one in it, and all of them have its key. -/
structure IsGroupOf (key : Row → List Value) (rows : List Row) (g : List Value × List Row) :
    Prop where
  ne_nil : g.2 ≠ []
  mem : ∀ row ∈ g.2, row ∈ rows
  key_eq : ∀ row ∈ g.2, key row = g.1

/-- The key of a group is the key of a row, so it holds no doubles either. -/
theorem IsGroupOf.floatFree {g : List Value × List Row} (h : IsGroupOf key rows g)
    (hfree : ∀ row ∈ rows, Row.FloatFree (key row)) : Row.FloatFree g.1 := by
  obtain ⟨row, hrow⟩ := List.exists_mem_of_ne_nil _ h.ne_nil
  rw [← h.key_eq row hrow]
  exact hfree row (h.mem row hrow)

/-- A group is as before, or has the row added to it. -/
theorem mem_addToGroup (hgroups : ∀ g ∈ groups, Row.FloatFree g.1) {g : List Value × List Row}
    (hg : g ∈ addToGroup k row groups) :
    g ∈ groups ∨ ∃ members, g = (k, members ++ [row]) ∧ (members = [] ∨ (k, members) ∈ groups) := by
  induction groups with
  | nil => exact .inr ⟨[], List.mem_singleton.1 hg, .inl rfl⟩
  | cons first groups ih =>
    obtain ⟨k', members⟩ := first
    obtain ⟨hk', hgroups⟩ := List.forall_mem_cons.1 hgroups
    rw [addToGroup] at hg
    split at hg
    next hbeq =>
      obtain rfl : k' = k := (row_beq_iff hk').1 hbeq
      rcases List.mem_cons.1 hg with rfl | hg
      · exact .inr ⟨members, rfl, .inr List.mem_cons_self⟩
      · exact .inl (List.mem_cons_of_mem _ hg)
    next =>
      rcases List.mem_cons.1 hg with rfl | hg
      · exact .inl List.mem_cons_self
      · rcases ih hgroups hg with hg | ⟨members, heq, hmem⟩
        · exact .inl (List.mem_cons_of_mem _ hg)
        · exact .inr ⟨members, heq, hmem.imp_right (List.mem_cons_of_mem _)⟩

/-- Adding a row keeps each group one of rows with its key. -/
theorem isGroupOf_of_mem_addToGroup (hfree : ∀ row ∈ rows, Row.FloatFree (key row))
    (hgroups : ∀ g ∈ groups, IsGroupOf key rows g) (hrow : row ∈ rows) :
    ∀ g ∈ addToGroup (key row) row groups, IsGroupOf key rows g := by
  intro g hg
  rcases mem_addToGroup (fun g hg => (hgroups g hg).floatFree hfree) hg with
    hg | ⟨members, rfl, hmembers⟩
  · exact hgroups g hg
  · have hold : ∀ other ∈ members, other ∈ rows ∧ key other = key row := by
      rcases hmembers with rfl | hmem
      · exact fun other hother => nomatch hother
      · exact fun other hother => ⟨(hgroups _ hmem).mem other hother,
          (hgroups _ hmem).key_eq other hother⟩
    have hall : ∀ other ∈ members ++ [row], other ∈ rows ∧ key other = key row :=
      List.forall_mem_append.2 ⟨hold, List.forall_mem_singleton.2 ⟨hrow, rfl⟩⟩
    exact ⟨List.append_ne_nil_of_right_ne_nil _ (List.cons_ne_nil _ _),
      fun other hother => (hall other hother).1, fun other hother => (hall other hother).2⟩

/-- Adding rows to groups in turn adds their keys in turn, each unless it is there. -/
theorem foldl_addToGroup (hfree : ∀ row ∈ rows, Row.FloatFree (key row)) {rest : List Row}
    (hsub : ∀ row ∈ rest, row ∈ rows) (hgroups : ∀ g ∈ groups, IsGroupOf key rows g) :
    (∀ g ∈ rest.foldl (fun groups row => addToGroup (key row) row groups) groups,
        IsGroupOf key rows g) ∧
      (rest.foldl (fun groups row => addToGroup (key row) row groups) groups).map (·.1) =
        (rest.map key).foldl (fun out k => if out.contains k then out else out ++ [k])
          (groups.map (·.1)) := by
  induction rest generalizing groups with
  | nil => exact ⟨hgroups, rfl⟩
  | cons row rest ih =>
    obtain ⟨hrow, hsub⟩ := List.forall_mem_cons.1 hsub
    have hkeys := addToGroup_keys (fun g hg => (hgroups g hg).floatFree hfree) (hfree row hrow) row
    rw [List.foldl_cons, List.map_cons, List.foldl_cons, ← hkeys]
    exact ih hsub (isGroupOf_of_mem_addToGroup hfree hgroups hrow)

/-- The groups have the keys of the rows, each once, in the order of their first rows. -/
theorem grouped_spec (hfree : ∀ row ∈ rows, Row.FloatFree (key row)) :
    (∀ g ∈ grouped key rows, IsGroupOf key rows g) ∧
      (grouped key rows).map (·.1) = dedup (rows.map key) :=
  foldl_addToGroup hfree (fun _ hrow => hrow) fun _ hg => nomatch hg

end Group

/-! ### Columns over groups -/

section Columns

variable {columns : List QualifiedName} {cs added : List Column} {first : Row} {rest : List Row}

/-- A column without aggregates has on a group the value that it has on its first row. -/
theorem groupValue_of_hasAggregate_eq_false {e : Expr} (he : e.hasAggregate = false) :
    groupValue columns (first :: rest) e = liftEval (e.evaluate (rowEnv columns first)) := by
  rw [groupValue, Expr.transformUpM_of_hasAggregate_eq_false
    (Expr.reducesMonotonically_aggregateNode columns (first :: rest)) he]
  rfl

/-- The least value of an expression in a group, when the expression has a value on each row. -/
theorem groupValue_min {e : Expr} (he : e.hasAggregate = false) {group : List Row}
    (hdef : Defined columns e group) :
    groupValue columns group (Expr.mkAggregate .min (some e) false) =
      .ok (extreme .lt ((group.map (valueOn columns e)).filter fun v => !v.isNull)) := by
  have hinner := Expr.transformUpM_of_hasAggregate_eq_false
    (Expr.reducesMonotonically_aggregateNode columns group) he
  have hmin : aggregate columns group .min (some e) false =
      .ok (extreme .lt ((group.map (valueOn columns e)).filter fun v => !v.isNull)) :=
    bind_eq_ok_iff.2 ⟨_, liftEval_eq_ok_iff.2 (mapM_eq_ok_map hdef), rfl⟩
  refine bind_eq_ok_iff.2 ⟨.const _ (Expr.mkAggregate .min (some e) false).type, ?_, rfl⟩
  refine Expr.transformUpM_eq_ok_iff.2 ⟨_, .aggregate .min false _ (.some hinner), ?_⟩
  exact bind_eq_ok_iff.2 ⟨_, hmin, rfl⟩

/-- The extreme of some values is one of them, or NULL if there are none. -/
theorem extreme_eq_null_or_mem (wanted : Ordering) (values : List Value) :
    extreme wanted values = .null ∨ extreme wanted values ∈ values := by
  have hfold : ∀ (vs : List Value) (best : Value), (best = .null ∨ best ∈ values) →
      (∀ v ∈ vs, v ∈ values) →
      let last := vs.foldl
        (fun best v => if best.isNull || v.sqlCompare? best == some wanted then v else best) best
      last = .null ∨ last ∈ values := by
    intro vs
    induction vs with
    | nil => exact fun best hbest _ => hbest
    | cons v vs ih =>
      intro best hbest hvs
      obtain ⟨hv, hvs⟩ := List.forall_mem_cons.1 hvs
      rw [List.foldl_cons]
      refine ih _ ?_ hvs
      split
      · exact .inr hv
      · exact hbest
  exact hfold values .null (.inl rfl) fun _ hv => hv

/-- Values of one kind have their least among that kind. -/
theorem fitsKind_of_groupValue_min {e : Expr} (he : e.hasAggregate = false) {group : List Row}
    (hdef : Defined columns e group) {k : Value.Kind}
    (hkind : ∀ row ∈ group, (valueOn columns e row).FitsKind k) {v : Value}
    (h : groupValue columns group (Expr.mkAggregate .min (some e) false) = .ok v) :
    v.FitsKind k := by
  rw [groupValue_min he hdef] at h
  obtain rfl := Except.ok.inj h
  rcases extreme_eq_null_or_mem .lt ((group.map (valueOn columns e)).filter fun v => !v.isNull)
    with hnull | hmem
  · rw [hnull]
    exact ⟨none, by cases k <;> rfl⟩
  · obtain ⟨row, hrow, heq⟩ := List.mem_map.1 (List.mem_filter.1 hmem).1
    rw [← heq]
    exact hkind row hrow

/-- Further columns on the right leave the cells of the columns without aggregates. -/
theorem take_of_mapM_groupValue (hcs : ∀ c ∈ cs, c.expr.hasAggregate = false) {row : Row}
    (h : (cs ++ added).mapM (fun c => groupValue columns (first :: rest) c.expr) = .ok row) :
    row.take cs.length = projectedRow columns cs first := by
  obtain ⟨hcells, rfl⟩ := (mapM_eq_ok_iff_map Value.null).1 h
  rw [List.map_append, List.take_left' (by rw [List.length_map])]
  refine List.map_congr_left fun c hc => ?_
  have hcell := hcells c (List.mem_append_left _ hc)
  rw [groupValue_of_hasAggregate_eq_false (hcs c hc), liftEval_eq_ok_iff] at hcell
  rw [groupValue_of_hasAggregate_eq_false (hcs c hc)]
  exact (valueOn_eq hcell).symm

end Columns

/-! ### Projections of groups -/

section Project

variable {r : Relation} {cs added : List Column} {gs : List Expr} {rows : List Row}

/-- Rows of the right length are not cut. -/
theorem map_take_of_length {n : Nat} (h : ∀ row ∈ rows, row.length = n) :
    rows.map (List.take n) = rows := by
  have htake : ∀ row ∈ rows, row.take n = id row :=
    fun row hrow => List.take_of_length_le (Nat.le_of_eq (h row hrow))
  rw [List.map_congr_left htake, List.map_id]

/-- Without doubles in the expression and the row there is none in the value. -/
theorem valueOn_floatFree {columns : List QualifiedName} {e : Expr} {row : Row}
    (he : e.holdsFloat = false) (hrow : Row.FloatFree row) :
    (valueOn columns e row).holdsFloat = false := by
  rw [valueOn]
  cases hv : e.evaluate (rowEnv columns row) with
  | error error => rfl
  | ok v => exact Expr.evaluate_floatFree (rowEnv_floatFree columns hrow) he hv

/-- A projected row has no doubles if the columns and the row have none. -/
theorem projectedRow_floatFree {columns : List QualifiedName} {row : Row}
    (hcs : ∀ c ∈ cs, c.expr.holdsFloat = false) (hrow : Row.FloatFree row) :
    Row.FloatFree (projectedRow columns cs row) :=
  List.forall_mem_map.2 fun c hc => valueOn_floatFree (hcs c hc) hrow

/-- Grouping keys without doubles have values without doubles. -/
theorem groupKey_floatFree (hrows : ∀ row ∈ r.rows, Row.FloatFree row)
    (hgs : ∀ g ∈ gs, g.holdsFloat = false) :
    ∀ row ∈ r.rows, Row.FloatFree (groupKey r.columns gs row) :=
  fun row hrow => List.forall_mem_map.2 fun g hg => valueOn_floatFree (hgs g hg) (hrows row hrow)

/-- Columns among the grouping keys are alike on rows of one group. -/
theorem projectedRow_congr {columns : List QualifiedName} (hdet : ∀ c ∈ cs, c.expr ∈ gs)
    {row row' : Row} (h : groupKey columns gs row = groupKey columns gs row') :
    projectedRow columns cs row = projectedRow columns cs row' :=
  List.map_congr_left fun c hc => List.map_inj_left.1 h c.expr (hdet c hc)

/-- A grouped projection computes its columns on each group, the groups in the order of their first
rows. -/
theorem projectRows_grouped_eq_ok_iff (hgs : gs ≠ []) :
    r.projectRows cs gs = .ok rows ↔
      (∀ g ∈ gs, Defined r.columns g r.rows) ∧
        ((grouped (groupKey r.columns gs) r.rows).map (·.2)).mapM
          (fun group => cs.mapM fun c => groupValue r.columns group c.expr) = .ok rows := by
  have hempty : gs.isEmpty = false := by simpa using hgs
  rw [projectRows, hempty, Bool.not_false, Bool.or_true, if_pos rfl, bind_eq_ok_iff]
  simp only [liftEval_eq_ok_iff, groupRows_eq_ok_iff hgs]
  constructor
  · rintro ⟨_, ⟨hdef, rfl⟩, hrows⟩
    exact ⟨hdef, hrows⟩
  · rintro ⟨hdef, hrows⟩
    exact ⟨_, ⟨hdef, rfl⟩, hrows⟩

section Grouped

variable (hrows : ∀ row ∈ r.rows, Row.FloatFree row) (hgsFree : ∀ g ∈ gs, g.holdsFloat = false)
  (hcsPlain : ∀ c ∈ cs, c.expr.hasAggregate = false) (hdet : ∀ c ∈ cs, c.expr ∈ gs)

include hrows hgsFree hcsPlain hdet

/-- Each group gives a row that starts with the columns, as they are on every row of the group. -/
theorem forall₂_grouped (hgs : gs ≠ []) (h : r.projectRows (cs ++ added) gs = .ok rows) :
    List.Forall₂ (fun g row => IsGroupOf (groupKey r.columns gs) r.rows g ∧
        ∀ member ∈ g.2, row.take cs.length = projectedRow r.columns cs member)
      (grouped (groupKey r.columns gs) r.rows) rows := by
  obtain ⟨_, hmapM⟩ := (projectRows_grouped_eq_ok_iff hgs).1 h
  rw [mapM_eq_ok_iff, List.forall₂_map_left_iff] at hmapM
  have hgroups := (grouped_spec (groupKey_floatFree hrows hgsFree)).1
  refine (forall₂_and_mem hmapM).imp fun g row hboth => ?_
  obtain ⟨hrow, hg, _⟩ := hboth
  have hgroup := hgroups g hg
  refine ⟨hgroup, fun member hmember => ?_⟩
  cases hmembers : g.2 with
  | nil => exact absurd hmembers hgroup.ne_nil
  | cons first rest =>
    rw [hmembers] at hrow
    have hfirst : first ∈ g.2 := hmembers ▸ List.mem_cons_self
    rw [take_of_mapM_groupValue hcsPlain hrow]
    refine projectedRow_congr hdet ?_
    rw [hgroup.key_eq first hfirst, hgroup.key_eq member hmember]

/-- The rows of a grouping, cut to columns among the grouping keys, are the projected rows. Each
group stands for its rows, which agree on the columns that the keys determine, and each row has a
group with its key. -/
theorem mem_take_iff_of_grouped (hgs : gs ≠ []) (h : r.projectRows (cs ++ added) gs = .ok rows)
    (row : Row) :
    row ∈ rows.map (List.take cs.length) ↔ row ∈ r.rows.map (projectedRow r.columns cs) := by
  have hrel := forall₂_grouped hrows hgsFree hcsPlain hdet hgs h
  constructor
  · intro hrow
    obtain ⟨wide, hwide, rfl⟩ := List.mem_map.1 hrow
    obtain ⟨g, _, hgroup, hcut⟩ := exists_rel_of_mem_right hrel hwide
    obtain ⟨member, hmember⟩ := List.exists_mem_of_ne_nil _ hgroup.ne_nil
    exact List.mem_map.2 ⟨member, hgroup.mem member hmember, (hcut member hmember).symm⟩
  · intro hrow
    obtain ⟨source, hsource, rfl⟩ := List.mem_map.1 hrow
    have hkeysFree := groupKey_floatFree hrows hgsFree
    -- any group with the key of the row will do, whether or not the row is found in it
    have hkey : groupKey r.columns gs source ∈
        (grouped (groupKey r.columns gs) r.rows).map (·.1) := by
      rw [(grouped_spec hkeysFree).2, (dedup_spec (List.forall_mem_map.2 hkeysFree)).2]
      exact List.mem_map_of_mem hsource
    obtain ⟨g, hg, hkey⟩ := List.mem_map.1 hkey
    obtain ⟨wide, hwide, hgroup, hcut⟩ := exists_rel_of_mem_left hrel hg
    obtain ⟨member, hmember⟩ := List.exists_mem_of_ne_nil _ hgroup.ne_nil
    refine List.mem_map.2 ⟨wide, hwide, ?_⟩
    rw [hcut member hmember]
    exact projectedRow_congr hdet ((hgroup.key_eq member hmember).trans hkey)

end Grouped

section Distinct

variable (hrows : ∀ row ∈ r.rows, Row.FloatFree row)
  (hcsFree : ∀ c ∈ cs, c.expr.holdsFloat = false)
  (hcsPlain : ∀ c ∈ cs, c.expr.hasAggregate = false)

include hrows hcsFree hcsPlain

/-- A grouping by the columns leaves each projected row once. -/
theorem eachOnce_of_grouped (hcs : cs ≠ [])
    (h : r.projectRows (cs ++ added) (cs.map (·.expr)) = .ok rows) :
    EachOnce (rows.map (List.take cs.length)) (r.rows.map (projectedRow r.columns cs)) := by
  have hgs : cs.map (·.expr) ≠ [] := by simpa using hcs
  have hgsFree : ∀ g ∈ cs.map (·.expr), g.holdsFloat = false := List.forall_mem_map.2 hcsFree
  have hdet : ∀ c ∈ cs, c.expr ∈ cs.map (·.expr) := fun c hc => List.mem_map_of_mem hc
  refine ⟨?_, mem_take_iff_of_grouped hrows hgsFree hcsPlain hdet hgs h⟩
  -- cut to the columns, the row of a group is the key of the group
  have hkeys : List.Forall₂ (· = ·)
      ((grouped (groupKey r.columns (cs.map (·.expr))) r.rows).map (·.1))
      (rows.map (List.take cs.length)) := by
    rw [List.forall₂_map_left_iff, List.forall₂_map_right_iff]
    refine (forall₂_grouped hrows hgsFree hcsPlain hdet hgs h).imp fun g row hboth => ?_
    obtain ⟨hgroup, hcut⟩ := hboth
    obtain ⟨member, hmember⟩ := List.exists_mem_of_ne_nil _ hgroup.ne_nil
    rw [hcut member hmember, ← hgroup.key_eq member hmember, groupKey, List.map_map]
    rfl
  rw [List.forall₂_eq_eq_eq] at hkeys
  have hkeysFree := groupKey_floatFree hrows hgsFree
  rw [← hkeys, (grouped_spec hkeysFree).2]
  exact (dedup_spec (List.forall_mem_map.2 hkeysFree)).1

/-- DISTINCT leaves each projected row once, also over groups if the columns are among their keys.
-/
theorem eachOnce_dedup (hgsFree : ∀ g ∈ gs, g.holdsFloat = false)
    (hdet : gs = [] ∨ ∀ c ∈ cs, c.expr ∈ gs) (h : r.projectRows cs gs = .ok rows) :
    EachOnce (dedup rows) (r.rows.map (projectedRow r.columns cs)) := by
  have hmem : ∀ row, row ∈ rows ↔ row ∈ r.rows.map (projectedRow r.columns cs) := by
    by_cases hgs : gs = []
    · subst hgs
      have hplain : cs.any (fun c => c.expr.hasAggregate) = false := by simpa using hcsPlain
      obtain ⟨_, rfl⟩ := (projectRows_eq_ok_iff hplain).1 h
      exact fun row => .rfl
    · have hcut := map_take_of_length (length_of_mem_projectRows h)
      rw [← List.append_nil cs] at h
      have hmem := mem_take_iff_of_grouped hrows hgsFree hcsPlain (hdet.resolve_left hgs) hgs h
      rwa [hcut] at hmem
  have hfree : ∀ row ∈ rows, Row.FloatFree row := by
    intro row hrow
    obtain ⟨source, hsource, rfl⟩ := List.mem_map.1 ((hmem row).1 hrow)
    exact projectedRow_floatFree hcsFree (hrows source hsource)
  obtain ⟨hnodup, hdedup⟩ := dedup_spec hfree
  exact ⟨hnodup, fun row => (hdedup row).trans (hmem row)⟩

end Distinct

/-! ### When a grouping can be computed -/

/-- A projection of groups is computed when the grouping keys have values on the rows and the
columns on the groups. -/
theorem exists_projectRows_of_grouped (hgs : gs ≠ []) (hrows : ∀ row ∈ r.rows, Row.FloatFree row)
    (hgsFree : ∀ g ∈ gs, g.holdsFloat = false) (hdef : ∀ g ∈ gs, Defined r.columns g r.rows)
    (hcs : ∀ c ∈ cs, ∀ first rest, (∀ row ∈ first :: rest, row ∈ r.rows) →
      ∃ v, groupValue r.columns (first :: rest) c.expr = .ok v) :
    ∃ rows, r.projectRows cs gs = .ok rows := by
  have hgroups := (grouped_spec (groupKey_floatFree hrows hgsFree)).1
  have hgroup : ∀ group ∈ (grouped (groupKey r.columns gs) r.rows).map (·.2),
      ∃ row, (cs.mapM fun c => groupValue r.columns group c.expr) = .ok row := by
    rw [List.forall_mem_map]
    intro g hg
    obtain ⟨first, rest, hmembers⟩ := List.exists_cons_of_ne_nil (hgroups g hg).ne_nil
    rw [hmembers]
    exact exists_mapM_eq_ok fun c hc => hcs c hc first rest (hmembers ▸ (hgroups g hg).mem)
  obtain ⟨rows, hmapM⟩ := exists_mapM_eq_ok hgroup
  exact ⟨rows, (projectRows_grouped_eq_ok_iff hgs).2 ⟨hdef, hmapM⟩⟩

/-- A column without aggregates has a value on a group if it has values on the rows. -/
theorem exists_groupValue_of_defined {e : Expr} (he : e.hasAggregate = false)
    (hdef : Defined r.columns e r.rows) {first : Row} {rest : List Row}
    (hmem : ∀ row ∈ first :: rest, row ∈ r.rows) :
    ∃ v, groupValue r.columns (first :: rest) e = .ok v := by
  have hfirst := hdef first (hmem first List.mem_cons_self)
  exact ⟨_, (groupValue_of_hasAggregate_eq_false he).trans (liftEval_eq_ok_iff.2 hfirst)⟩

/-- Each row of a projection is computed on some rows of the input: on one, or on those of a
group. -/
theorem exists_group_of_mem_projectRows (hrows : ∀ row ∈ r.rows, Row.FloatFree row)
    (hgsFree : ∀ g ∈ gs, g.holdsFloat = false)
    (hcs : gs = [] → cs.any (fun c => c.expr.hasAggregate) = false)
    (h : r.projectRows cs gs = .ok rows) {row : Row} (hrow : row ∈ rows) :
    ∃ first rest, (∀ member ∈ first :: rest, member ∈ r.rows) ∧
      cs.mapM (fun c => groupValue r.columns (first :: rest) c.expr) = .ok row := by
  by_cases hgs : gs = []
  · subst hgs
    obtain ⟨hdef, rfl⟩ := (projectRows_eq_ok_iff (hcs rfl)).1 h
    obtain ⟨source, hsource, rfl⟩ := List.mem_map.1 hrow
    refine ⟨source, [], List.forall_mem_singleton.2 hsource, mapM_eq_ok_map fun c hc => ?_⟩
    have hplain : c.expr.hasAggregate = false := by simpa using List.any_eq_false.1 (hcs rfl) c hc
    rw [groupValue_of_hasAggregate_eq_false hplain]
    exact liftEval_eq_ok_iff.2 (hdef c hc source hsource)
  · obtain ⟨_, hmapM⟩ := (projectRows_grouped_eq_ok_iff hgs).1 h
    obtain ⟨group, hgroup, hcells⟩ := exists_of_mem_result_of_mapM_eq_ok hmapM hrow
    obtain ⟨g, hg, rfl⟩ := List.mem_map.1 hgroup
    have hspec := (grouped_spec (groupKey_floatFree hrows hgsFree)).1 g hg
    obtain ⟨first, rest, hmembers⟩ := List.exists_cons_of_ne_nil hspec.ne_nil
    rw [hmembers] at hcells
    exact ⟨first, rest, hmembers ▸ hspec.mem, hcells⟩

/-- A projection that is computed on rows is computed on some of them, also over groups if the
columns are among their keys. -/
theorem exists_projectRows_of_mem {r' : Relation} (hcolumns : r'.columns = r.columns)
    (hmem : ∀ row ∈ r.rows, row ∈ r'.rows) (hrows : ∀ row ∈ r.rows, Row.FloatFree row)
    (hgsFree : ∀ g ∈ gs, g.holdsFloat = false) (hcsPlain : ∀ c ∈ cs, c.expr.hasAggregate = false)
    (hdet : gs = [] ∨ ∀ c ∈ cs, c.expr ∈ gs) (h : r'.projectRows cs gs = .ok rows) :
    ∃ rows, r.projectRows cs gs = .ok rows := by
  by_cases hgs : gs = []
  · subst hgs
    have hplain : cs.any (fun c => c.expr.hasAggregate) = false := by simpa using hcsPlain
    obtain ⟨hdef, _⟩ := (projectRows_eq_ok_iff hplain).1 h
    rw [hcolumns] at hdef
    exact ⟨_, (projectRows_eq_ok_iff hplain).2 ⟨fun c hc => (hdef c hc).mono hmem, rfl⟩⟩
  · obtain ⟨hdef, _⟩ := (projectRows_grouped_eq_ok_iff hgs).1 h
    rw [hcolumns] at hdef
    have hdef' : ∀ g ∈ gs, Defined r.columns g r.rows := fun g hg => (hdef g hg).mono hmem
    refine exists_projectRows_of_grouped hgs hrows hgsFree hdef' fun c hc first rest => ?_
    exact exists_groupValue_of_defined (hcsPlain c hc) (hdef' c.expr (hdet.resolve_left hgs c hc))

end Project

end Relation

end QueryTree
