import QueryTree.Proofs.Grouping
import QueryTree.Proofs.RepeatedNormalization
import QueryTree.Proofs.SetBranches

/-!
# DISTINCT as a grouping

A DISTINCT projection of ordered rows that does not show all the keys becomes a grouping by its
columns, with the least value of each other key in a further column (`Regrouped`). It keeps the
distinct rows (`run_normalize_distinct`).

The result is sorted by the columns that show the keys. If the values of each key are of one kind,
so are those of its column (`Regrouped.uniform`), and the rows can be sorted whatever the sort is.

Where a projection is grouped already, normalization drops the keys. Its columns are computed on the
first row of each group, so this keeps the rows only if the columns are among the grouping keys
(`run_normalize_distinct_dayOfGuest`).
-/

namespace QueryTree

open Attempt

namespace OrderLifting

open QueryTree.Relation QueryTree.Expr

/-! ### Rows below a DISTINCT projection -/

/-- A tree of scans, filters and joins. -/
def IsJoined : Expr → Prop
  | .scan .. => True
  | .filter input _ => IsJoined input
  | .join _ left right _ => IsJoined left ∧ IsJoined right
  | _ => False

/-- Such a tree has no order to lift. -/
theorem IsJoined.lift_eq {x : Expr} (hx : IsJoined x) (flag : Bool) (mode : Mode) :
    lift flag mode x = .ok (x, []) := by
  induction x using treeInduction generalizing mode with
  | scan source qualifier t _ => rfl
  | filter input p ih _ =>
    rw [lift, ih hx]
    rfl
  | join kind left right on ihl ihr _ =>
    rw [lift, ihl hx.1, ihr hx.2]
    rfl
  | _ => exact hx.elim

section Joined

variable {tables : Tables}

/-- It has no ordering, so nothing is asked of its keys. -/
theorem IsJoined.keysOrdered {x : Expr} (hx : IsJoined x) : Sorter.KeysOrdered tables x := by
  induction x using treeInduction with
  | scan source qualifier t _ => trivial
  | filter input p ih _ => exact ih hx
  | join kind left right on ihl ihr _ => exact ⟨ihl hx.1, ihr hx.2⟩
  | _ => exact hx.elim


/-- A joined row has cells of both sides, or NULL. -/
theorem joinRow_floatFree {kind : JoinKind} {columns : List QualifiedName} {condition : Option Expr}
    {width : Nat} {right found : List Row} {l : Row} (hl : Row.FloatFree l)
    (hr : ∀ row ∈ right, Row.FloatFree row)
    (h : joinRow kind columns condition width right l = .ok found) :
    ∀ row ∈ found, Row.FloatFree row := by
  intro row hrow
  obtain ⟨matched, hmatched, h⟩ := bind_eq_ok_iff.1 h
  split at h
  · obtain rfl := pure_eq_ok_iff.1 h
    obtain rfl := List.mem_singleton.1 hrow
    refine List.forall_mem_append.2 ⟨hl, fun v hv => ?_⟩
    rw [List.eq_of_mem_replicate hv]
    rfl
  · obtain rfl := pure_eq_ok_iff.1 h
    obtain ⟨other, hother, rfl⟩ := exists_of_mem_matching hmatched hrow
    exact List.forall_mem_append.2 ⟨hl, hr other hother⟩

/-- Over tables without doubles its rows have none: a join adds NULLs only. -/
theorem IsJoined.relation_floatFree (ht : tables.FloatFree) {x : Expr} (hx : IsJoined x)
    {r : Relation} (hr : relation tables x = .ok r) : ∀ row ∈ r.rows, Row.FloatFree row := by
  induction x using treeInduction generalizing r with
  | scan source qualifier t _ =>
    obtain ⟨set, name, hset, rfl⟩ := relation_scan_eq_ok hr
    exact ht _ hset
  | filter input p ih _ =>
    obtain ⟨r, hinput, _, rfl⟩ := relation_filter_eq_ok_iff.1 hr
    exact fun row hrow => ih hx hinput row (List.mem_filter.1 hrow).1
  | join kind left right on ihl ihr _ =>
    obtain ⟨l, r, hleft, hright, hjoin⟩ := relation_join_eq_ok_iff.1 hr
    obtain ⟨_, rows, hrows, rfl⟩ := join_eq_ok_iff.1 hjoin
    intro row hrow
    obtain ⟨found, hfound, hrow⟩ := List.mem_flatten.1 hrow
    obtain ⟨source, hsource, hjoinRow⟩ := exists_of_mem_result_of_mapM_eq_ok hrows hfound
    exact joinRow_floatFree (ihl hx.1 hleft source hsource) (ihr hx.2 hright) hjoinRow row hrow
  | _ => exact hx.elim

end Joined

/-! ### What normalization makes of a DISTINCT projection -/

/-- A DISTINCT projection of the ordered rows of scans, filters and joins. It has columns, of
different names and without aggregates; if it is grouped, they are among the grouping keys. There
are no doubles in it. -/
structure OrderedDistinct (q : String) (x : Expr) (ks : List OrderKey) (cs : List Column)
    (gs : List Expr) : Prop where
  joined : IsJoined x
  ne_nil : cs ≠ []
  names : (cs.map (·.name)).Nodup
  plain : ∀ c ∈ cs, c.expr.hasAggregate = false
  determined : gs = [] ∨ ∀ c ∈ cs, c.expr ∈ gs
  floatFree : (project q (.order x ks) cs true gs).holdsFloat = false

section Distinct

variable {tables : Tables} {q : String} {x : Expr} {ks : List OrderKey} {cs : List Column}
  {gs : List Expr}

/-- The columns of the projection hold no doubles. -/
theorem OrderedDistinct.columnsFloatFree (h : OrderedDistinct q x ks cs gs) :
    ∀ c ∈ cs, c.expr.holdsFloat = false := by
  intro c hc
  have hmem : c.expr ∈ cs.map (·.expr) := List.mem_map_of_mem hc
  exact holdsFloat_of_mem_children h.floatFree
    (List.mem_cons_of_mem _ (List.mem_append_left _ hmem))

/-- The keys of the ordering hold no doubles. -/
theorem OrderedDistinct.keysFloatFree (h : OrderedDistinct q x ks cs gs) :
    ∀ k ∈ ks, k.expr.holdsFloat = false := by
  intro k hk
  have hinput : (order x ks).holdsFloat = false :=
    holdsFloat_of_mem_children h.floatFree List.mem_cons_self
  have hmem : k.expr ∈ ks.map (·.expr) := List.mem_map_of_mem hk
  exact holdsFloat_of_mem_children hinput (List.mem_cons_of_mem _ hmem)

/-- The grouping keys hold no doubles. -/
theorem OrderedDistinct.groupsFloatFree (h : OrderedDistinct q x ks cs gs) :
    ∀ g ∈ gs, g.holdsFloat = false := fun _ hg =>
  holdsFloat_of_mem_children h.floatFree (List.mem_cons_of_mem _ (List.mem_append_right _ hg))

/-- What is left of a DISTINCT projection: its columns, perhaps with some on the right. Either it is
as it was, over rows without an order, or it is a grouping by its columns with least keys on the
right. -/
structure Regrouped (q : String) (ks : List OrderKey) (cs : List Column) (gs : List Expr)
    (added : List Column) (d : Bool) (gs' : List Expr) (ks' : List OrderKey) : Prop where
  names : ((cs ++ added).map (·.name)).Nodup
  keys : ∀ k' ∈ ks', ∃ c ∈ cs ++ added, ∃ k ∈ ks, ∃ t, k'.expr = .column q c.name t ∧
    (c.expr = k.expr ∨ c.expr = minOf k.expr)
  kind : (added = [] ∧ d = true ∧ gs' = gs) ∨
    (gs = [] ∧ d = false ∧ gs' = cs.map (·.expr) ∧ ∀ c ∈ added, ∃ k ∈ ks, c.expr = minOf k.expr)

/-- The keys above an exposing projection are references to the columns that show the keys. -/
theorem OrderedDistinct.exists_column (h : OrderedDistinct q x ks cs gs) {shown : Expr → Expr}
    (hshown : ∀ k ∈ ks, shown k.expr = k.expr ∨ shown k.expr = minOf k.expr) {k' : OrderKey}
    (hk' : k' ∈ (exposeKeys q showsKey shown cs (mergeKeys ks [])).2) :
    ∃ c ∈ (exposeKeys q showsKey shown cs (mergeKeys ks [])).1, ∃ k ∈ ks, ∃ t,
      k'.expr = .column q c.name t ∧ (c.expr = k.expr ∨ c.expr = minOf k.expr) := by
  have hmerged : ∀ k ∈ mergeKeys ks [], k ∈ ks :=
    fun k hk => (mem_of_mem_mergeKeys hk).resolve_right List.not_mem_nil
  have hfree : ∀ k ∈ mergeKeys ks [], (shown k.expr).holdsFloat = false := by
    intro k hk
    have hkey := h.keysFloatFree k (hmerged k hk)
    rcases hshown k (hmerged k hk) with heq | heq
    · rw [heq, hkey]
    · rw [heq, holdsFloat_minOf, hkey]
  obtain ⟨k, hk, _, c, hc, heq, hshows⟩ :=
    exists_rel_of_mem_right (exposeKeys_keys q showsKey shown cs (mergeKeys ks [])) hk'
  refine ⟨c, hc, k, hmerged k hk, k.expr.type, heq, ?_⟩
  rcases hshows with hshows | hexpr
  · exact (showsKey_iff (exposeKeys_floatFree h.columnsFloatFree hfree c hc)).1 hshows
  · rw [hexpr]
    exact hshown k (hmerged k hk)

/-- Keys that are all among the columns add none. -/
theorem exposeKeys_of_not_isGrouped {shown : Expr → Expr} (h : isGrouped true cs ks = false) :
    (exposeKeys q showsKey shown cs ks).1 = cs := by
  refine exposeKeys_of_shown q showsKey shown fun k hk => ?_
  rw [isGrouped, Bool.and_true, List.any_eq_false] at h
  have hmatched : cs.any (fun c => c.expr == k.expr) = true := by simpa using h k hk
  obtain ⟨c, hc, heq⟩ := List.any_eq_true.1 hmatched
  exact List.any_eq_true.2 ⟨c, hc, Bool.or_eq_true_iff.2 (.inl heq)⟩

/-- What lifting makes of the projection, in its two cases. It stays distinct when no key has to be
added; else it becomes a grouping by its columns, with the least value of each further key. -/
theorem OrderedDistinct.exists_liftProjection (h : OrderedDistinct q x ks cs gs) :
    ∃ added d gs' ks', Regrouped q ks cs gs added d gs' ks' ∧
      liftProjection true .place q cs true gs x (mergeKeys ks []) =
        (.project q x (cs ++ added) d gs', ks') := by
  by_cases hdrops : DropsKeys .place cs gs (mergeKeys ks [])
  · refine ⟨[], true, gs, [], ⟨?_, fun k hk => ?_, .inl ⟨rfl, rfl, rfl⟩⟩, ?_⟩
    · rw [List.append_nil]
      exact h.names
    · cases hk
    · rw [List.append_nil, liftProjection_of_dropsKeys hdrops]
  · obtain rfl : gs = [] := by
      by_contra hgs
      exact hdrops (.inr (.inr (.inl hgs)))
    rw [liftProjection_of_not_dropsKeys hdrops, if_pos rfl]
    cases hgrouped : isGrouped true cs (mergeKeys ks []) with
    | false =>
      rw [exposeDistinct_of_not_isGrouped hgrouped, exposeKeys_of_not_isGrouped hgrouped]
      refine ⟨[], true, [], (exposeKeys q showsKey id cs (mergeKeys ks [])).2,
        ⟨?_, fun k hk => ?_, .inl ⟨rfl, rfl, rfl⟩⟩, ?_⟩
      · rw [List.append_nil]
        exact h.names
      · have hcolumn := h.exists_column (fun _ _ => .inl rfl) hk
        rwa [exposeKeys_of_not_isGrouped hgrouped, ← List.append_nil cs] at hcolumn
      · rw [List.append_nil]
    | true =>
      obtain ⟨added, hadded, hshown⟩ := exposeKeys_columns q showsKey minOf cs (mergeKeys ks [])
      rw [exposeDistinct_of_isGrouped h.ne_nil hgrouped]
      refine ⟨added, false, cs.map (·.expr), (exposeKeys q showsKey minOf cs (mergeKeys ks [])).2,
        ⟨?_, fun k hk => ?_, .inr ⟨rfl, rfl, rfl, ?_⟩⟩, ?_⟩
      · rw [← hadded]
        exact exposeKeys_nodup q showsKey minOf h.names _
      · rw [← hadded]
        exact h.exists_column (fun _ _ => .inr rfl) hk
      · intro c hc
        obtain ⟨k, hk, heq⟩ := hshown c hc
        exact ⟨k, (mem_of_mem_mergeKeys hk).resolve_right List.not_mem_nil, heq⟩
      · rw [hadded]

/-- What normalization makes of it: no ordering is left below, and the keys that are shown order the
result. -/
theorem OrderedDistinct.exists_normalize (h : OrderedDistinct q x ks cs gs) :
    ∃ added d gs' ks', Regrouped q ks cs gs added d gs' ks' ∧
      normalize true (.project q (.order x ks) cs true gs) =
        .ok (orderedBy ks' (.project q x (cs ++ added) d gs')) := by
  obtain ⟨added, d, gs', ks', hregrouped, hlifted⟩ := h.exists_liftProjection
  refine ⟨added, d, gs', ks', hregrouped, ?_⟩
  have hlift : lift true .place (.project q (.order x ks) cs true gs) =
      .ok (.project q x (cs ++ added) d gs', ks') := by
    rw [lift, lift, h.joined.lift_eq]
    exact congrArg Except.ok hlifted
  rw [normalize, hlift]
  rfl

/-! ### The rows of the result -/

/-- A column that is there has a value on every row. -/
theorem defined_column {r : Relation} (hr : r.Rectangular) {name : String}
    (hmem : (q, name) ∈ r.columns) (t : LogicalType) :
    Defined r.columns (.column q name t) r.rows := by
  intro row hrow
  have hfound : (index? r.columns q name).isSome = true := by
    rw [index?, List.findIdx?_isSome, List.any_eq_true]
    exact ⟨(q, name), hmem, by simp⟩
  obtain ⟨i, hi⟩ := Option.isSome_iff_exists.1 hfound
  have hlt : i < row.length := by
    rw [hr row hrow]
    exact (List.findIdx?_eq_some_iff_getElem.1 hi).1
  have hcell : (rowEnv r.columns row).column q name = some row[i] := by
    simp only [rowEnv, hi, Option.bind_some, List.getElem?_eq_getElem hlt]
  refine evaluate_valueOn (v := row[i]) ?_
  rw [Expr.evaluate, hcell]
  rfl

/-- Whatever the sort, an ordered relation has the rows that it had. -/
theorem exists_of_relation_orderedBy {S : Sorter} {e : Expr} {s : Relation}
    (h : S.relation tables (orderedBy ks e) = .ok s) :
    ∃ r, S.relation tables e = .ok r ∧ s.columns = r.columns ∧ s.rows.Perm r.rows := by
  unfold orderedBy at h
  split at h
  · exact ⟨s, h, rfl, .refl _⟩
  · obtain ⟨r, hr, h⟩ := bind_eq_ok_iff.1 h
    exact ⟨r, hr, (Sorter.of_sortRows_eq_ok h).2⟩

section Regrouped

variable {added : List Column} {d : Bool} {gs' : List Expr} {ks' : List OrderKey} {r s : Relation}

/-- The result shows the columns on the left, and cut to these its rows are the projected rows, each
once. -/
theorem Regrouped.eachOnce (hreg : Regrouped q ks cs gs added d gs' ks')
    (h : OrderedDistinct q x ks cs gs) (hr : relation tables x = .ok r)
    (hrows : ∀ row ∈ r.rows, Row.FloatFree row)
    (hs : relation tables (.project q x (cs ++ added) d gs') = .ok s) :
    EachOnce (s.rows.map (List.take cs.length)) (r.rows.map (projectedRow r.columns cs)) := by
  obtain ⟨_, rows, hinput, hproject, rfl⟩ := relation_project_eq_ok_iff.1 hs
  obtain rfl := Except.ok.inj (hr.symm.trans hinput)
  rcases hreg.kind with ⟨rfl, rfl, rfl⟩ | ⟨rfl, rfl, rfl, _⟩
  · rw [List.append_nil] at hproject
    have hlength : ∀ row ∈ dedup rows, row.length = cs.length :=
      fun row hrow => length_of_mem_projectRows hproject row (mem_of_mem_dedup hrow)
    rw [if_pos rfl, map_take_of_length hlength]
    exact eachOnce_dedup hrows h.columnsFloatFree h.plain h.groupsFloatFree h.determined hproject
  · exact eachOnce_of_grouped hrows h.columnsFloatFree h.plain h.ne_nil hproject

/-- Where the projection could be computed on the sorted rows, what has become of it can be computed
on the rows, if the keys have no aggregates in them. -/
theorem Regrouped.exists_projectRows (hreg : Regrouped q ks cs gs added d gs' ks')
    (h : OrderedDistinct q x ks cs gs) (hrows : ∀ row ∈ r.rows, Row.FloatFree row)
    (hkeys : ∀ k ∈ ks, k.expr.hasAggregate = false)
    (hdef : ∀ k ∈ ks, Defined r.columns k.expr r.rows) {sorted : Relation} {rows : List Row}
    (hproject : sorted.projectRows cs gs = .ok rows) (hcolumns : sorted.columns = r.columns)
    (hmem : ∀ row ∈ r.rows, row ∈ sorted.rows) :
    ∃ rows, r.projectRows (cs ++ added) gs' = .ok rows := by
  rcases hreg.kind with ⟨rfl, _, rfl⟩ | ⟨rfl, _, rfl, hadded⟩
  · rw [List.append_nil]
    exact exists_projectRows_of_mem hcolumns hmem hrows h.groupsFloatFree h.plain h.determined
      hproject
  · have hplain : cs.any (fun c => c.expr.hasAggregate) = false := by simpa using h.plain
    have hcs : ∀ c ∈ cs, Defined r.columns c.expr r.rows := by
      intro c hc
      have hdefined := ((projectRows_eq_ok_iff hplain).1 hproject).1 c hc
      rw [hcolumns] at hdefined
      exact hdefined.mono hmem
    have hgs : cs.map (·.expr) ≠ [] := by simpa using h.ne_nil
    refine exists_projectRows_of_grouped hgs hrows (List.forall_mem_map.2 h.columnsFloatFree)
      (List.forall_mem_map.2 hcs) fun c hc first rest hgroup => ?_
    rcases List.mem_append.1 hc with hc | hc
    · exact exists_groupValue_of_defined (h.plain c hc) (hcs c hc) hgroup
    · obtain ⟨k, hk, heq⟩ := hadded c hc
      rw [heq]
      exact ⟨_, groupValue_min (hkeys k hk) ((hdef k hk).mono hgroup)⟩

/-- The keys above the result are columns of it, so its rows can be sorted. -/
theorem Regrouped.exists_relation (hreg : Regrouped q ks cs gs added d gs' ks')
    (ht : tables.Rectangular) (hr : relation tables x = .ok r) {rows : List Row}
    (hrows : r.projectRows (cs ++ added) gs' = .ok rows) :
    ∃ s, relation tables (orderedBy ks' (.project q x (cs ++ added) d gs')) = .ok s := by
  have hs : relation tables (.project q x (cs ++ added) d gs') =
      .ok ⟨projectedColumns q (cs ++ added), if d then dedup rows else rows⟩ :=
    relation_project_eq_ok_iff.2 ⟨r, rows, hr, hrows, rfl⟩
  refine ⟨_, relation_orderedBy hs fun k hk => ?_⟩
  obtain ⟨c, hc, _, _, t, heq, _⟩ := hreg.keys k hk
  rw [heq]
  exact defined_column (relation_rectangular ht hs) (List.mem_map.2 ⟨c, hc, rfl⟩) t

/-- A column that shows a key has values of the kind of the key: one of its values on the rows, or
the least of those in a group. -/
theorem fitsKind_of_groupValue {columns : List QualifiedName} {first : Row} {rest : List Row}
    {e key : Expr} (hkey : key.hasAggregate = false) (hdef : Defined columns key (first :: rest))
    {kind : Value.Kind} (hkind : ∀ row ∈ first :: rest, (valueOn columns key row).FitsKind kind)
    (he : e = key ∨ e = minOf key) {v : Value}
    (h : groupValue columns (first :: rest) e = .ok v) : v.FitsKind kind := by
  rcases he with rfl | rfl
  · rw [groupValue_of_hasAggregate_eq_false hkey, liftEval_eq_ok_iff] at h
    rw [← valueOn_eq h]
    exact hkind first List.mem_cons_self
  · exact fitsKind_of_groupValue_min hkey hdef hkind h

/-- Keys of one kind each are columns of one kind each in the result. Each cell of the result comes
from a group: it is the value of a key on the rows of the group or the least of these values, and
both are of the kind of the key. -/
theorem Regrouped.uniform (hreg : Regrouped q ks cs gs added d gs' ks')
    (h : OrderedDistinct q x ks cs gs) (hfree : ∀ row ∈ r.rows, Row.FloatFree row)
    (hkeys : ∀ k ∈ ks, k.expr.hasAggregate = false)
    (hdef : ∀ k ∈ ks, Defined r.columns k.expr r.rows)
    (huniform : ∀ k ∈ ks, Uniform r.columns k.expr r.rows) {rows : List Row}
    (hrows : r.projectRows (cs ++ added) gs' = .ok rows) :
    ∀ k' ∈ ks', Uniform (projectedColumns q (cs ++ added)) k'.expr rows := by
  have hgroups : (∀ g ∈ gs', g.holdsFloat = false) ∧
      (gs' = [] → (cs ++ added).any (fun c => c.expr.hasAggregate) = false) := by
    rcases hreg.kind with ⟨rfl, _, rfl⟩ | ⟨_, _, rfl, _⟩
    · rw [List.append_nil]
      exact ⟨h.groupsFloatFree, fun _ => by simpa using h.plain⟩
    · exact ⟨List.forall_mem_map.2 h.columnsFloatFree,
        fun hnil => absurd (List.map_eq_nil_iff.1 hnil) h.ne_nil⟩
  intro k' hk'
  obtain ⟨c, hc, k, hk, t, heq, hshown⟩ := hreg.keys k' hk'
  obtain ⟨kind, hkind⟩ := huniform k hk
  refine ⟨kind, fun row hrow => ?_⟩
  obtain ⟨first, rest, hmem, hcells⟩ :=
    exists_group_of_mem_projectRows hfree hgroups.1 hgroups.2 hrows hrow
  obtain ⟨hvalues, rfl⟩ := (mapM_eq_ok_iff_map Value.null).1 hcells
  have hcell : k'.expr.evaluate (rowEnv (projectedColumns q (cs ++ added))
      ((cs ++ added).map fun c => valueOr .null (groupValue r.columns (first :: rest) c.expr))) =
        .ok (valueOr .null (groupValue r.columns (first :: rest) c.expr)) := by
    rw [heq, Expr.evaluate, rowEnv_column_of_mem hreg.names _ hc]
    rfl
  rw [valueOn_eq hcell]
  exact fitsKind_of_groupValue (hkeys k hk) ((hdef k hk).mono hmem)
    (fun member hmember => hkind member (hmem member hmember)) hshown (hvalues c hc)

/-- The result is ordered by an order if its keys are of one kind each. -/
theorem keysOrdered_orderedBy (hr : relation tables x = .ok r) (hx : IsJoined x) {rows : List Row}
    (hrows : r.projectRows (cs ++ added) gs' = .ok rows)
    (huniform : ∀ k ∈ ks', Uniform (projectedColumns q (cs ++ added)) k.expr rows) :
    Sorter.KeysOrdered tables (orderedBy ks' (.project q x (cs ++ added) d gs')) := by
  have hinput : Sorter.KeysOrdered tables (.project q x (cs ++ added) d gs') := hx.keysOrdered
  unfold orderedBy
  split
  · exact hinput
  · refine ⟨hinput, fun s hs => rowCompare_orderOn fun k hk => ?_⟩
    obtain ⟨_, _, hr', hrows', rfl⟩ := relation_project_eq_ok_iff.1 hs
    obtain rfl := Except.ok.inj (hr.symm.trans hr')
    obtain rfl := Except.ok.inj (hrows.symm.trans hrows')
    exact (huniform k hk).mono fun row => mem_of_mem_distinct

end Regrouped

/-- Normalization keeps the distinct rows of a DISTINCT projection of ordered rows, if the values of
each key are of one kind. Its result shows the columns of the projection on the left, and cut to
these its rows are the distinct rows, each once. It has rows at least when the keys have no
aggregates in them. All this holds with any sort. -/
theorem run_normalize_distinct (S : Sorter) (ht : tables.Rectangular) (hfloat : tables.FloatFree)
    (h : OrderedDistinct q x ks cs gs)
    (huniform : ∀ r, relation tables x = .ok r → ∀ k ∈ ks, Uniform r.columns k.expr r.rows)
    {set : RowSet} (hrun : S.run tables (.project q (.order x ks) cs true gs) = .ok (.rows set)) :
    ∃ e', normalize true (.project q (.order x ks) cs true gs) = .ok e' ∧
      ((∀ k ∈ ks, k.expr.hasAggregate = false) → ∃ set', S.run tables e' = .ok (.rows set')) ∧
      ∀ set', S.run tables e' = .ok (.rows set') →
        set'.columns.Nodup ∧ set'.columns.take cs.length = set.columns ∧
          (set'.rows.map (List.take cs.length)).Nodup ∧
          (set'.rows.map (List.take cs.length)).Perm set.rows := by
  have hordered : Sorter.KeysOrdered tables (.project q (.order x ks) cs true gs) :=
    ⟨h.joined.keysOrdered, fun r hr => rowCompare_orderOn (huniform r hr)⟩
  rw [Sorter.run_of_keysOrdered hordered, mapError_eq_ok_iff] at hrun
  obtain ⟨_, hrelation, hset⟩ := (run_eq_ok_iff rfl).1 hrun
  obtain rfl := Value.rows.inj hset
  obtain ⟨_, rows, hinput, hproject, rfl⟩ := relation_project_eq_ok_iff.1 hrelation
  obtain ⟨r, hr, hdef, rfl⟩ := relation_order_eq_ok_iff.1 hinput
  have hrows := h.joined.relation_floatFree hfloat hr
  obtain ⟨added, d, gs', ks', hreg, hnormalize⟩ := h.exists_normalize
  have hrel : (orderedBy ks' (.project q x (cs ++ added) d gs')).isRelational = true := by
    unfold orderedBy
    split <;> rfl
  refine ⟨_, hnormalize, fun hkeys => ?_, fun set' hset' => ?_⟩
  · obtain ⟨rows', hrows'⟩ :=
      hreg.exists_projectRows h hrows hkeys hdef hproject rfl fun _ => mem_sortBy.2
    obtain ⟨s, hs⟩ := hreg.exists_relation ht hr hrows'
    have hresult := keysOrdered_orderedBy (d := d) hr h.joined hrows'
      (hreg.uniform h hrows hkeys hdef (huniform r hr) hrows')
    refine ⟨s.toRowSet, ?_⟩
    rw [Sorter.run_of_keysOrdered hresult, mapError_eq_ok_iff]
    exact (run_eq_ok_iff hrel).2 ⟨s, hs, rfl⟩
  · obtain ⟨s', hs', hset'⟩ := (Sorter.run_eq_ok_iff hrel).1 hset'
    obtain rfl := Value.rows.inj hset'
    obtain ⟨s, hs, hcolumns, hperm⟩ := exists_of_relation_orderedBy hs'
    -- below the ordering nothing is sorted
    have hunordered : Sorter.KeysOrdered tables (.project q x (cs ++ added) d gs') :=
      h.joined.keysOrdered
    rw [Sorter.relation_of_keysOrdered hunordered, mapError_eq_ok_iff] at hs
    have hresult := (hreg.eachOnce h hr hrows hs).of_perm (hperm.map (List.take cs.length))
    have hdistinct := eachOnce_dedup (fun row hrow => hrows row (mem_sortBy.1 hrow))
      h.columnsFloatFree h.plain h.groupsFloatFree h.determined hproject
    obtain ⟨_, _, _, _, rfl⟩ := relation_project_eq_ok_iff.1 hs
    have hnames : s'.toRowSet.columns = (cs ++ added).map (·.name) := by
      rw [toRowSet, hcolumns, projectedColumns, List.map_map]
      rfl
    refine ⟨?_, ?_, hresult.1, hresult.perm hdistinct fun row => ?_⟩
    · rw [hnames]
      exact hreg.names
    · rw [hnames, List.map_append, List.take_left' (by rw [List.length_map]), toRowSet,
        projectedColumns, List.map_map]
      rfl
    · exact ((stableSort_perm _ _).map _).symm.mem_iff

end Distinct

/-! ### Guests and their last days -/

/-- Days on which guests came, one of them unknown, and the floors of rooms. -/
def visits : Tables :=
  [("visit", ⟨["guest", "day"],
    [[.int 1, .int 4], [.int 2, .int 3], [.int 1, .int 5], [.null, .int 7]]⟩),
   ("room", ⟨["guest", "floor"], [[.int 1, .int 9]]⟩)]

/-- The visits. -/
def visitScan : Expr := mkScan (source ⟨"visit", none⟩) "v"

/-- The last day first. -/
def byLastDay : OrderKey := ⟨.column "v" "day" .int64, .descending⟩

/-- The guest of a visit. -/
def guest : Expr := .column "v" "guest" .int64

/-- The visits with the rooms of the guests. -/
def roomedVisits : Expr :=
  .join .left visitScan (mkScan (source ⟨"room", none⟩) "r")
    (some (mkBinary .eq guest (.column "r" "guest" .int64)))

/-- The guests, by a key that the projection shows and one that it does not. -/
theorem orderedDistinct_guests :
    OrderedDistinct "q" roomedVisits [⟨guest, .ascending⟩, byLastDay] [⟨"guest", guest⟩] [] where
  joined := ⟨trivial, trivial⟩
  ne_nil := List.cons_ne_nil _ _
  names := List.nodup_singleton _
  plain := List.forall_mem_singleton.2 rfl
  determined := .inl rfl
  floatFree := rfl

/-- The guests and the days are numbers, and a guest may be unknown. -/
theorem roomedVisits_uniform {r : Relation} (hr : relation visits roomedVisits = .ok r) :
    ∀ k ∈ [⟨guest, .ascending⟩, byLastDay], Uniform r.columns k.expr r.rows := by
  obtain rfl := Except.ok.inj hr
  refine List.forall_mem_cons.2 ⟨⟨.int, ?_⟩, List.forall_mem_singleton.2 ⟨.int, ?_⟩⟩
  · refine List.forall_mem_cons.2 ⟨⟨some 1, rfl⟩, List.forall_mem_cons.2 ⟨⟨some 2, rfl⟩, ?_⟩⟩
    exact List.forall_mem_cons.2 ⟨⟨some 1, rfl⟩, List.forall_mem_singleton.2 ⟨none, rfl⟩⟩
  · refine List.forall_mem_cons.2 ⟨⟨some 4, rfl⟩, List.forall_mem_cons.2 ⟨⟨some 3, rfl⟩, ?_⟩⟩
    exact List.forall_mem_cons.2 ⟨⟨some 5, rfl⟩, List.forall_mem_singleton.2 ⟨some 7, rfl⟩⟩

/-- A sort that looks for an order finds one, in the query and in what it is normalized to. -/
theorem run_normalize_distinct_guests :
    let guests : Expr := .project "q" (.order roomedVisits [⟨guest, .ascending⟩, byLastDay])
      [⟨"guest", guest⟩] true []
    visits.Rectangular ∧ visits.FloatFree ∧
      OrderedDistinct "q" roomedVisits [⟨guest, .ascending⟩, byLastDay] [⟨"guest", guest⟩] [] ∧
      Sorter.strict.run visits guests = .ok (.rows ⟨["guest"], [[.null], [.int 1], [.int 2]]⟩) ∧
      ∃ e' set', normalize true guests = .ok e' ∧ Sorter.strict.run visits e' = .ok (.rows set') ∧
        (set'.rows.map (List.take 1)).Perm [[.null], [.int 1], [.int 2]] := by
  intro guests
  have hrect : visits.Rectangular := by decide
  have hfloat : visits.FloatFree := by
    unfold Tables.FloatFree Row.FloatFree
    decide
  have hrun : Sorter.strict.run visits guests =
      .ok (.rows ⟨["guest"], [[.null], [.int 1], [.int 2]]⟩) := rfl
  obtain ⟨e', he', hreturns, hrows⟩ := run_normalize_distinct Sorter.strict hrect hfloat
    orderedDistinct_guests (fun _ => roomedVisits_uniform) hrun
  obtain ⟨set', hset'⟩ := hreturns (by decide)
  exact ⟨hrect, hfloat, orderedDistinct_guests, hrun, e', set', he', hset', (hrows set' hset').2.2.2⟩

/-- For each guest, the day of the first visit in the input. -/
def dayOfGuest (input : Expr) : Expr :=
  .project "q" input [⟨"day", .column "v" "day" .int64⟩] true [guest]

/-- A grouped projection loses the order that its columns depend on. -/
theorem run_normalize_distinct_dayOfGuest :
    let tables : Tables := [("visit", ⟨["guest", "day"], [[.int 1, .int 4], [.int 1, .int 5]]⟩)]
    run tables (dayOfGuest (.order visitScan [byLastDay])) = .ok (.rows ⟨["day"], [[.int 5]]⟩) ∧
      normalize true (dayOfGuest (.order visitScan [byLastDay])) = .ok (dayOfGuest visitScan) ∧
      run tables (dayOfGuest visitScan) = .ok (.rows ⟨["day"], [[.int 4]]⟩) :=
  ⟨rfl, rfl, rfl⟩

end OrderLifting

end QueryTree
