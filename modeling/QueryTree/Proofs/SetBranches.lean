import QueryTree.Proofs.FloatFree
import QueryTree.Proofs.OrderNormalization

/-!
# Orderings in the branches of a set operation

A set operation does not look at the order of the rows of its branches, so lifting drops the keys
that it finds there. Most of what stands in a branch has the same rows after this, in some order
(`SameRows`): a filter selects row by row, an ordering moves rows only, and a projection maps each
row by itself.

A limit is different, since it selects by position. It keeps the ordering that lifting brings up to
it. But a projection in a branch brings up nothing: it is lifted for an enclosing node to which the
order makes no difference, and a limit further up is not asked. So the rows stay the same as long as
no limit stands over a projection of ordered rows (`LimitsKeepOrder`), and where one does, a limit
may select others.
-/

namespace QueryTree

namespace Relation

/-! ### Set operations on rows in another order -/

/-- The order of the branches does not change which rows are combined. -/
theorem combine_perm (op : SetOperator) {left left' right right' : List Row}
    (hl : left'.Perm left) (hr : right'.Perm right) :
    (combine op left' right').Perm (combine op left right) := by
  have hcontains : ∀ row, right'.contains row = right.contains row := fun row => hr.contains_eq
  cases op with
  | union => exact hl.append hr
  | intersect =>
    unfold combine
    simp only [hcontains]
    exact hl.filter _
  | except =>
    unfold combine
    simp only [hcontains]
    exact hl.filter _

/-- A set operation on the same rows in another order. Which of several equal rows is left makes no
difference, since equal rows without doubles are the same. -/
theorem setOperation_perm {op : SetOperator} {all : Bool} {q : String} {l l' r r' s : Relation}
    (hlcolumns : l'.columns = l.columns) (hrcolumns : r'.columns = r.columns)
    (hl : l'.rows.Perm l.rows) (hr : r'.rows.Perm r.rows)
    (hlfree : ∀ row ∈ l.rows, Row.FloatFree row) (hrfree : ∀ row ∈ r.rows, Row.FloatFree row)
    (h : setOperation op all q l r = .ok s) :
    ∃ s', setOperation op all q l' r' = .ok s' ∧ s'.columns = s.columns ∧ s'.rows.Perm s.rows := by
  have hcombine := combine_perm op hl hr
  have hfree : ∀ row ∈ combine op l'.rows r'.rows, Row.FloatFree row := by
    intro row hrow
    rcases mem_of_mem_combine (hcombine.mem_iff.1 hrow) with hrow | hrow
    · exact hlfree row hrow
    · exact hrfree row hrow
  unfold setOperation at h ⊢
  rw [hlcolumns, hrcolumns]
  by_cases hlength : l.columns.length ≠ r.columns.length
  · rw [if_pos hlength] at h
    cases h
  · rw [if_neg hlength] at h ⊢
    obtain rfl := Except.ok.inj h
    refine ⟨_, rfl, rfl, ?_⟩
    cases all with
    | true => exact hcombine
    | false => exact dedup_perm hfree hcombine

end Relation

/-- No cell of the tables has a double in it. -/
def Tables.FloatFree (tables : Tables) : Prop :=
  ∀ entry ∈ tables, ∀ row ∈ entry.2.rows, Row.FloatFree row

namespace OrderLifting

open QueryTree.Relation QueryTree.Expr

variable {tables : Tables} {flag : Bool}

/-- Over tables without doubles, a plain tree without them has rows without them. -/
theorem relation_floatFree (ht : tables.FloatFree) {e : Expr} (hplain : IsPlain e)
    (hfree : AggregateFree e) (hfloat : e.holdsFloat = false) {r : Relation}
    (hr : relation tables e = .ok r) : ∀ row ∈ r.rows, Row.FloatFree row := by
  induction e using treeInduction generalizing r with
  | scan source qualifier t _ =>
    obtain ⟨set, name, hset, rfl⟩ := relation_scan_eq_ok hr
    exact ht _ hset
  | filter input p ih _ =>
    obtain ⟨r, hinput, _, rfl⟩ := relation_filter_eq_ok_iff.1 hr
    have hfloat' := holdsFloat_of_mem_children hfloat List.mem_cons_self
    intro row hrow
    exact ih hplain hfree hfloat' hinput row (List.mem_filter.1 hrow).1
  | order input ks ih _ =>
    obtain ⟨r, hinput, _, rfl⟩ := relation_order_eq_ok_iff.1 hr
    have hfloat' := holdsFloat_of_mem_children hfloat List.mem_cons_self
    intro row hrow
    exact ih hplain hfree hfloat' hinput row (mem_sortBy.1 hrow)
  | limit input take skip ih _ _ =>
    obtain ⟨r, _, _, hinput, _, _, rfl⟩ := relation_limit_eq_ok_iff.1 hr
    have hfloat' := holdsFloat_of_mem_children hfloat List.mem_cons_self
    intro row hrow
    exact ih hplain hfree hfloat' hinput row ((window_sublist _ _ _).subset hrow)
  | project q input cs distinct groupBy ih _ _ =>
    obtain ⟨rfl, rfl, _, hplain⟩ := hplain
    obtain ⟨hcs, hfree⟩ := hfree
    obtain ⟨r, rows, hinput, hrows, rfl⟩ := relation_project_eq_ok_iff.1 hr
    obtain ⟨hdef, rfl⟩ := (projectRows_eq_ok_iff hcs).1 hrows
    have hfloat' := holdsFloat_of_mem_children hfloat List.mem_cons_self
    intro row hrow v hv
    obtain ⟨source, hsource, rfl⟩ := List.mem_map.1 hrow
    obtain ⟨c, hc, rfl⟩ := List.mem_map.1 hv
    have hmem : c.expr ∈ cs.map (·.expr) := List.mem_map_of_mem hc
    have hcfloat := holdsFloat_of_mem_children hfloat
      (List.mem_cons_of_mem _ (List.mem_append_left _ hmem))
    have hsourceFree := ih hplain hfree hfloat' hinput source hsource
    exact evaluate_floatFree (rowEnv_floatFree _ hsourceFree) hcfloat (hdef c hc source hsource)
  | _ => exact hplain.elim

/-! ### Where an order is lost -/

/-- The rows come in the order of some key. -/
def isOrdered : Expr → Bool
  | .order input ks => !ks.isEmpty || isOrdered input
  | .filter input _ | .limit input _ _ | .project _ input _ _ _ => isOrdered input
  | _ => false

/-- Below filters, orderings and limits there is a projection of ordered rows. -/
def losesOrder : Expr → Bool
  | .filter input _ | .order input _ | .limit input _ _ => losesOrder input
  | .project _ input _ _ _ => isOrdered input
  | _ => false

/-- No limit of a branch selects from rows whose order is lost. -/
def LimitsKeepOrder : Expr → Prop
  | .filter input _ | .order input _ => LimitsKeepOrder input
  | .limit input _ _ => losesOrder input = false
  | _ => True

/-- Unordered rows bring no keys up. By induction on the tree: an ordering without keys brings up
none, and no other node has keys of its own. -/
theorem lift_keys_eq_nil {mode : Mode} {e e' : Expr} {ks : List OrderKey} (hplain : IsPlain e)
    (h : isOrdered e = false) (hlift : lift flag mode e = .ok (e', ks)) : ks = [] := by
  induction e using treeInduction generalizing mode e' ks with
  | scan source qualifier t _ => cases hlift; rfl
  | filter input p ih _ =>
    obtain ⟨⟨input', ks'⟩, hinput, hlift⟩ := Attempt.bind_eq_ok_iff.1 hlift
    cases hlift
    exact ih hplain h hinput
  | order input outer ih _ =>
    obtain ⟨⟨input', ks'⟩, hinput, hlift⟩ := Attempt.bind_eq_ok_iff.1 hlift
    cases hlift
    obtain ⟨houter, hinner⟩ := Bool.or_eq_false_iff.1 h
    have houter' : outer = [] := by simpa using houter
    rw [ih hplain hinner hinput, houter']
    rfl
  | limit input take skip ih _ _ =>
    obtain ⟨⟨input', ks'⟩, hinput, hlift⟩ := Attempt.bind_eq_ok_iff.1 hlift
    cases hlift
    exact ih hplain h hinput
  | project q input cs d gs ih _ _ =>
    obtain ⟨⟨input', ks'⟩, hinput, hlift⟩ := Attempt.bind_eq_ok_iff.1 hlift
    obtain rfl := ih hplain.2.2.2 h hinput
    cases hlift
    rfl
  | _ => exact hplain.elim

/-- Where no order is lost, a branch is lifted like an outermost block. -/
theorem lift_discard_eq_place {e : Expr} (hplain : IsPlain e) (h : losesOrder e = false) :
    lift flag .discard e = lift flag .place e := by
  induction e using treeInduction with
  | scan source qualifier t _ => rfl
  | filter input p ih _ => rw [lift, lift, ih hplain h]
  | order input outer ih _ => rw [lift, lift, ih hplain h]
  | limit input take skip ih _ _ => rw [lift, lift, ih hplain h]
  | project q input cs d gs _ _ _ =>
    rw [lift, lift]
    cases hinput : lift flag .expose input with
    | error err => rfl
    | ok lifted =>
      obtain ⟨input', ks⟩ := lifted
      obtain rfl := lift_keys_eq_nil hplain.2.2.2 h hinput
      rfl
  | _ => exact hplain.elim

/-! ### The rows of a branch -/

/-- The tree has the columns of the relation and its rows, in some order. -/
def SameRows (tables : Tables) (e : Expr) (r : Relation) : Prop :=
  ∃ s, relation tables e = .ok s ∧ s.columns = r.columns ∧ s.rows.Perm r.rows

/-- A filter keeps the same rows of the same rows. -/
theorem SameRows.filter {e p : Expr} {r : Relation} (h : SameRows tables e r)
    (hp : Defined r.columns p r.rows) :
    SameRows tables (.filter e p) ⟨r.columns, r.rows.filter (holdsOn r.columns p)⟩ := by
  obtain ⟨s, hs, hcolumns, hperm⟩ := h
  refine ⟨⟨s.columns, s.rows.filter (holdsOn s.columns p)⟩, ?_, hcolumns, ?_⟩
  · refine relation_filter_eq_ok_iff.2 ⟨s, hs, ?_, rfl⟩
    rw [hcolumns]
    exact hp.mono fun row hrow => hperm.mem_iff.1 hrow
  · rw [hcolumns]
    exact hperm.filter _

/-- Sorted rows are the same rows. -/
theorem SameRows.sorted {e : Expr} {r : Relation} (h : SameRows tables e r)
    (compare : Row → Row → Ordering) : SameRows tables e ⟨r.columns, sortBy compare r.rows⟩ := by
  obtain ⟨s, hs, hcolumns, hperm⟩ := h
  exact ⟨s, hs, hcolumns, hperm.trans (stableSort_perm _ _).symm⟩

/-- A projection over rows that are no longer sorted. -/
theorem Represents.sameRows_project {e : Expr} {q : String} {cs : List Column}
    {hidden : List QualifiedName} {ks : List OrderKey} {s r : Relation}
    (hs : relation tables e = .ok s) (h : Represents s ks hidden r)
    (hcs : cs.any (fun c => c.expr.hasAggregate) = false)
    (hdef : ∀ c ∈ cs, Defined r.columns c.expr r.rows) :
    SameRows tables (.project q e cs false [])
      ⟨projectedColumns q cs, r.rows.map (projectedRow r.columns cs)⟩ := by
  have hprojected : s.rows.map (projectedRow s.columns cs) =
      (s.rows.map (List.take r.columns.length)).map (projectedRow r.columns cs) := by
    rw [List.map_map]
    exact List.map_congr_left fun row hrow => h.widens.projectedRow hdef hrow
  have hperm : (s.rows.map (List.take r.columns.length)).Perm r.rows := by
    rw [← h.rows]
    exact ((stableSort_perm _ _).symm).map _
  refine ⟨⟨projectedColumns q cs, s.rows.map (projectedRow s.columns cs)⟩, ?_, rfl, ?_⟩
  · exact relation_project_eq_ok_iff.2 ⟨s, _, hs,
      (projectRows_eq_ok_iff hcs).2 ⟨fun c hc => h.widens.defined (hdef c hc), rfl⟩, rfl⟩
  · rw [hprojected]
    exact hperm.map _

/-- What a plain tree without aggregates represents after lifting, where its order counts. -/
theorem exists_represents (ht : tables.Rectangular) (flag : Bool) {mode : Mode}
    (hmode : mode ≠ .discard) {e : Expr} (hplain : IsPlain e) (hfree : AggregateFree e)
    (hfloat : e.holdsFloat = false) (hkeys : KeysUniform tables e) (hkeysFree : KeysAggregateFree e)
    {r : Relation} (hr : relation tables e = .ok r) :
    ∃ e' ks s hidden, lift flag mode e = .ok (e', ks) ∧ relation tables e' = .ok s ∧
      Represents s ks hidden r ∧ (mode = .place → hidden = []) := by
  obtain ⟨e', ks, hlift, hlifts⟩ := lift_liftsTo ht flag hmode hplain hfree hfloat hkeys hr
  obtain ⟨hfree', _⟩ := lift_aggregateFree flag hmode hplain hfree hkeysFree hlift
  obtain ⟨s, hidden, hs, hrep, _, hplace⟩ := hlifts.represents hfree'
  exact ⟨e', ks, s, hidden, hlift, hs, hrep, hplace⟩

/-- Lifting a branch keeps its rows. By induction on the tree. The order of the rows may change, but
not below a limit, so the limit selects from the same list. -/
theorem lift_sameRows (ht : tables.Rectangular) (flag : Bool) {e : Expr} (hplain : IsPlain e)
    (hfree : AggregateFree e) (hfloat : e.holdsFloat = false) (hkeys : KeysUniform tables e)
    (hkeysFree : KeysAggregateFree e) (hlimits : LimitsKeepOrder e) {r : Relation}
    (hr : relation tables e = .ok r) :
    ∃ e' ks, lift flag .discard e = .ok (e', ks) ∧ SameRows tables e' r := by
  induction e using treeInduction generalizing r with
  | scan source qualifier t _ => exact ⟨_, [], rfl, r, hr, rfl, .refl _⟩
  | filter input p ih _ =>
    obtain ⟨r, hinput, hdef, rfl⟩ := relation_filter_eq_ok_iff.1 hr
    have hfloat' := holdsFloat_of_mem_children hfloat List.mem_cons_self
    obtain ⟨input', ks, hlift, hsame⟩ := ih hplain hfree hfloat' hkeys hkeysFree hlimits hinput
    refine ⟨.filter input' p, ks, ?_, hsame.filter hdef⟩
    rw [lift, hlift]
    rfl
  | order input outer ih _ =>
    obtain ⟨r, hinput, _, rfl⟩ := relation_order_eq_ok_iff.1 hr
    have hfloat' := holdsFloat_of_mem_children hfloat List.mem_cons_self
    obtain ⟨input', ks, hlift, hsame⟩ := ih hplain hfree hfloat' hkeys.1 hkeysFree.1 hlimits hinput
    refine ⟨input', mergeKeys outer ks, ?_, hsame.sorted _⟩
    rw [lift, hlift]
    rfl
  | limit input take skip _ _ _ =>
    -- no order is lost, so the rows that the limit selects from are the same, in their order
    obtain ⟨r, skipped, taken, hinput, hskip, htake, rfl⟩ := relation_limit_eq_ok_iff.1 hr
    have hfloat' := holdsFloat_of_mem_children hfloat List.mem_cons_self
    have hplace : Mode.place ≠ .discard := by decide
    obtain ⟨input', ks, s, hidden, hlift, hs, hrep, hhidden⟩ :=
      exists_represents (e := input) ht flag hplace hplain hfree hfloat' hkeys hkeysFree hinput
    obtain rfl := hhidden rfl
    have hordered := relation_orderedBy hs hrep.defined
    rw [hrep.sorted_eq (relation_rectangular ht hs)] at hordered
    refine ⟨.limit (orderedBy ks input') take skip, ks, ?_, _,
      relation_limit_eq_ok_iff.2 ⟨r, skipped, taken, hordered, hskip, htake, rfl⟩, rfl, .refl _⟩
    rw [lift, lift_discard_eq_place (e := input) hplain hlimits, hlift]
    rfl
  | project q input cs distinct groupBy _ _ _ =>
    obtain ⟨rfl, rfl, _, hplain⟩ := hplain
    obtain ⟨hcs, hfree⟩ := hfree
    obtain ⟨r, rows, hinput, hrows, rfl⟩ := relation_project_eq_ok_iff.1 hr
    obtain ⟨hdef, rfl⟩ := (projectRows_eq_ok_iff hcs).1 hrows
    have hfloat' := holdsFloat_of_mem_children hfloat List.mem_cons_self
    have hexpose : Mode.expose ≠ .discard := by decide
    obtain ⟨input', ks, s, hidden, hlift, hs, hrep, _⟩ :=
      exists_represents ht flag hexpose hplain hfree hfloat' hkeys hkeysFree hinput
    refine ⟨.project q input' cs false [], [], ?_, hrep.sameRows_project hs hcs hdef⟩
    rw [lift, hlift]
    cases ks with
    | nil => rfl
    | cons k ks => rfl
  | _ => exact hplain.elim

/-! ### Set operations -/

/-- A branch of scans, filters, orderings, limits and plain projections, without doubles, whose keys
have values of one kind each and no aggregates. -/
structure PlainBranch (tables : Tables) (e : Expr) : Prop where
  plain : IsPlain e
  aggregateFree : AggregateFree e
  floatFree : e.holdsFloat = false
  keysUniform : KeysUniform tables e
  keysAggregateFree : KeysAggregateFree e

/-- Lifting with the keys discarded keeps the rows of a branch, if no limit selects by an order that
is lost. -/
theorem PlainBranch.lift_sameRows {e : Expr} (h : PlainBranch tables e) (ht : tables.Rectangular)
    (flag : Bool) (hlimits : LimitsKeepOrder e) {r : Relation} (hr : relation tables e = .ok r) :
    ∃ e' ks, lift flag .discard e = .ok (e', ks) ∧ SameRows tables e' r :=
  OrderLifting.lift_sameRows ht flag h.plain h.aggregateFree h.floatFree h.keysUniform
    h.keysAggregateFree hlimits hr

/-- A branch over tables without doubles has rows without doubles. -/
theorem PlainBranch.relation_floatFree {e : Expr} (h : PlainBranch tables e)
    (ht : tables.FloatFree) {r : Relation} (hr : relation tables e = .ok r) :
    ∀ row ∈ r.rows, Row.FloatFree row :=
  OrderLifting.relation_floatFree ht h.plain h.aggregateFree h.floatFree hr

/-- Normalization succeeds on a set operation that has a relation. Its result has the same columns
and the same rows, in some order, as long as no limit selects from rows whose order is lost. -/
theorem run_normalize_setOp (ht : tables.Rectangular) (hfloat : tables.FloatFree) (flag : Bool)
    {op : SetOperator} {all : Bool} {left right : Expr} {q : String}
    (hl : PlainBranch tables left) (hr : PlainBranch tables right)
    (hllimits : LimitsKeepOrder left) (hrlimits : LimitsKeepOrder right) {set : RowSet}
    (hrun : run tables (.setOp op all left right q) = .ok (.rows set)) :
    ∃ e' rows, normalize flag (.setOp op all left right q) = .ok e' ∧
      run tables e' = .ok (.rows ⟨set.columns, rows⟩) ∧ rows.Perm set.rows := by
  obtain ⟨s, hs, hset⟩ := (run_eq_ok_iff rfl).1 hrun
  obtain rfl := Value.rows.inj hset
  obtain ⟨l, r, hleft, hright, hop⟩ := relation_setOp_eq_ok_iff.1 hs
  obtain ⟨left', ls, hliftl, l', hl', hlcolumns, hlperm⟩ := hl.lift_sameRows ht flag hllimits hleft
  obtain ⟨right', rs, hliftr, r', hr', hrcolumns, hrperm⟩ :=
    hr.lift_sameRows ht flag hrlimits hright
  obtain ⟨s', hs', hcolumns, hperm⟩ := setOperation_perm hlcolumns hrcolumns hlperm hrperm
    (hl.relation_floatFree hfloat hleft) (hr.relation_floatFree hfloat hright) hop
  have hlift : lift flag .place (.setOp op all left right q) =
      .ok (.setOp op all left' right' q, []) := by
    rw [lift, hliftl]
    simp only [Attempt.bind_eq_ok_iff]
    exact ⟨_, rfl, _, hliftr, rfl⟩
  refine ⟨.setOp op all left' right' q, s'.rows, ?_, ?_, hperm⟩
  · rw [normalize, hlift]
    rfl
  · refine (run_eq_ok_iff rfl).2 ⟨s', relation_setOp_eq_ok_iff.2 ⟨l', r', hl', hr', hs'⟩, ?_⟩
    unfold Relation.toRowSet
    rw [hcolumns]

/-- The identifiers of the tasks, by label. -/
def taskIds (q : String) (direction : Direction) : Expr :=
  .project q (.order taskScan [⟨.column "t" "label" .string, direction⟩])
    [⟨"id", .column "t" "id" .int64⟩] false []

/-- The identifiers of the first two tasks by label. -/
def firstTaskIds : Expr :=
  .project "l"
    (.limit (.order taskScan [⟨.column "t" "label" .string, .ascending⟩]) (some (.int 2)) none)
    [⟨"id", .column "t" "id" .int64⟩] false []

/-- There are no doubles in the tasks. -/
theorem tasks_floatFree : tasks.FloatFree := by
  unfold Tables.FloatFree Row.FloatFree
  decide

/-- The labels of the tasks are all text. -/
theorem tasks_labels_uniform {r : Relation} (hr : relation tasks taskScan = .ok r) :
    Uniform r.columns (.column "t" "label" .string) r.rows := by
  obtain rfl := Except.ok.inj hr
  refine ⟨.text, ?_⟩
  refine List.forall_mem_cons.2 ⟨⟨some "b", rfl⟩, List.forall_mem_cons.2 ⟨⟨some "a", rfl⟩, ?_⟩⟩
  exact List.forall_mem_cons.2 ⟨⟨some "b", rfl⟩, List.forall_mem_singleton.2 ⟨none, rfl⟩⟩

theorem plainBranch_taskIds (q : String) (direction : Direction) :
    PlainBranch tasks (taskIds q direction) where
  plain := ⟨rfl, rfl, by decide, trivial⟩
  aggregateFree := ⟨rfl, trivial⟩
  floatFree := rfl
  keysUniform := ⟨trivial, fun _ hr => List.forall_mem_singleton.2 (tasks_labels_uniform hr)⟩
  keysAggregateFree := ⟨trivial, List.forall_mem_singleton.2 rfl⟩

theorem plainBranch_firstTaskIds : PlainBranch tasks firstTaskIds where
  plain := ⟨rfl, rfl, by decide, trivial⟩
  aggregateFree := ⟨rfl, trivial⟩
  floatFree := rfl
  keysUniform := ⟨trivial, fun _ hr => List.forall_mem_singleton.2 (tasks_labels_uniform hr)⟩
  keysAggregateFree := ⟨trivial, List.forall_mem_singleton.2 rfl⟩

/-- The limit keeps its ordering below the projection, and the right branch loses its own. -/
theorem run_normalize_setOp_firstTaskIds :
    run tasks (.setOp .union false firstTaskIds (taskIds "r" .descending) "s") =
        .ok (.rows ⟨["id"], [[.int 4], [.int 1], [.int 3], [.int 2]]⟩) ∧
      ∃ e' rows,
        normalize false (.setOp .union false firstTaskIds (taskIds "r" .descending) "s") = .ok e' ∧
        run tasks e' = .ok (.rows ⟨["id"], rows⟩) ∧
        rows.Perm [[.int 4], [.int 1], [.int 3], [.int 2]] := by
  have ht : tasks.Rectangular := by decide
  exact ⟨rfl, run_normalize_setOp ht tasks_floatFree false plainBranch_firstTaskIds
    (plainBranch_taskIds "r" .descending) trivial trivial rfl⟩

/-- The identifier of the first task by label, with the limit above the projection. -/
def firstTaskId : Expr := .limit (taskIds "l" .ascending) (some (.int 1)) none

/-- A number that is no identifier, for every task. -/
def noTaskId : Expr := .project "r" taskScan [⟨"id", .int 9⟩] false []

/-- The limit selects the first task by label. Its branch loses the ordering, and then the limit
selects the first task of the table, which is another one. -/
theorem run_normalize_setOp_firstTaskId :
    tasks.Rectangular ∧ tasks.FloatFree ∧ PlainBranch tasks firstTaskId ∧
      PlainBranch tasks noTaskId ∧
      run tasks (.setOp .union false firstTaskId noTaskId "s") =
        .ok (.rows ⟨["id"], [[.int 4], [.int 9]]⟩) ∧
      ∀ flag, ∃ e', normalize flag (.setOp .union false firstTaskId noTaskId "s") = .ok e' ∧
        run tasks e' = .ok (.rows ⟨["id"], [[.int 3], [.int 9]]⟩) := by
  have hids := plainBranch_taskIds "l" .ascending
  refine ⟨by decide, tasks_floatFree, ?_, ?_, rfl, ?_⟩
  · exact ⟨hids.plain, hids.aggregateFree, rfl, hids.keysUniform, hids.keysAggregateFree⟩
  · exact ⟨⟨rfl, rfl, by decide, trivial⟩, ⟨rfl, trivial⟩, rfl, trivial, trivial⟩
  · intro flag
    cases flag with
    | false => exact ⟨_, rfl, rfl⟩
    | true => exact ⟨_, rfl, rfl⟩

end OrderLifting

end QueryTree
