import QueryTree.Proofs.Scope

/-!
# What normalization shows

A query is read by the positions of its columns, and so is a branch of a set operation. Lifting an
ordering out of a projection may give the projection one more column, on its right, so that the
nodes above can order by it. Whether that column can be seen is a matter of what stands between the
projection and the reader: the outermost projection, and one in a branch of a set operation, take
none; the others hide theirs below a projection, unless only joins stand above them.

`widens` says where a hidden column shows through. Exactly elsewhere a relation shows after
normalization the names that it showed before, and nowhere does it lose one (`lift_shows`). The
branches of the set operations of a tree are lifted one by one, so the same holds of each of them.

In a branch the keys are of no use to anyone, and a projection that stands for the branch takes no
column. A join in a branch still asks its sides to show their keys, so one branch may become wider
than the other and the set operation fail (`outputNames_normalize_unionWithTeam`).
-/

namespace QueryTree

namespace Expr

/-! ### Names and branches -/

/-- The names of the columns that a relation shows, from left to right. -/
def outputNames (schema : Schema) (e : Expr) : List String := (visible schema e).map (·.name)

/-- They are the names of the columns that are computed. -/
theorem outputNames_eq_columns {tables : Tables} {e : Expr} {r : Relation}
    (h : relation tables e = .ok r) :
    outputNames (.ofTables tables) e = r.columns.map (·.2) := by
  unfold outputNames
  rw [visible_eq_columns h, List.map_map]
  rfl

/-- The two branches of each set operation that rows come from. -/
def branches : Expr → List (Expr × Expr)
  | filter input _ | project _ input _ _ _ | order input _ | limit input _ _ => branches input
  | join _ left right _ => branches left ++ branches right
  | setOp _ _ left right _ => (left, right) :: (branches left ++ branches right)
  | _ => []

/-- Rows come from relational nodes only, and no projection on their way drops repeated ones. -/
def DistinctFree : Expr → Prop
  | scan .. => True
  | filter input _ | order input _ | limit input _ _ => DistinctFree input
  | project _ input _ distinct _ => distinct = false ∧ DistinctFree input
  | join _ left right _ | setOp _ _ left right _ => DistinctFree left ∧ DistinctFree right
  | _ => False

section Names

variable (schema : Schema) (input left right : Expr)

theorem outputNames_project (q : String) (cs : List Column) (d : Bool) (gs : List Expr) :
    outputNames schema (.project q input cs d gs) = cs.map (·.name) := by
  unfold outputNames
  rw [visible, List.map_map]
  rfl

theorem outputNames_join (k : JoinKind) (on : Option Expr) :
    outputNames schema (.join k left right on) =
      outputNames schema left ++ outputNames schema right := by
  unfold outputNames
  rw [visible, List.map_append]

theorem outputNames_setOp (op : SetOperator) (all : Bool) (q : String) :
    outputNames schema (.setOp op all left right q) = outputNames schema left := by
  unfold outputNames
  rw [visible, List.map_map]
  rfl

end Names

end Expr

namespace OrderLifting

open QueryTree.Expr

/-! ### Where a hidden column shows -/

/-- The keys that lifting brings up through a relation. -/
def liftedKeys (distinctInAggregates : Bool) (e : Expr) : List OrderKey :=
  Attempt.valueOr [] ((lift distinctInAggregates .expose e).map (·.2))

/-- A projection over ordered rows that does not show a key of theirs, and that could: it has no
groups, in which the order of the rows is lost. -/
def hidesKey (distinctInAggregates : Bool) (input : Expr) (columns : List Column)
    (groupBy : List Expr) : Bool :=
  groupBy.isEmpty && !columns.any (fun c => c.expr.hasAggregate) &&
    (liftedKeys distinctInAggregates input).any fun k => !columns.any fun c => c.expr == k.expr

/-- A relation that lifting gives a column more. -/
def widens (distinctInAggregates : Bool) : Mode → Expr → Bool
  | mode, .filter input _ | mode, .order input _ | mode, .limit input _ _ =>
    widens distinctInAggregates mode input
  | mode, .project _ input columns _ groupBy =>
    mode = .expose && hidesKey distinctInAggregates input columns groupBy
  | _, .join _ left right _ =>
    widens distinctInAggregates .expose left || widens distinctInAggregates .expose right
  | _, .setOp _ _ left _ _ => widens distinctInAggregates .discard left
  | _, _ => false

/-- What lifting keeps of the names that a relation shows: they stay, in their order, and others
are added exactly if the relation is widened. -/
structure KeepsNames (schema : Schema) (distinctInAggregates : Bool) (mode : Mode) (e e' : Expr) :
    Prop where
  sublist : (outputNames schema e).Sublist (outputNames schema e')
  same_iff : outputNames schema e' = outputNames schema e ↔
    widens distinctInAggregates mode e = false

/-- What lifting keeps of the branches of a set operation: the names of either, and the agreement of
the two in number unless one of them is widened. -/
structure KeepsBranches (schema : Schema) (distinctInAggregates : Bool)
    (sides sides' : Expr × Expr) : Prop where
  left : KeepsNames schema distinctInAggregates .discard sides.1 sides'.1
  right : KeepsNames schema distinctInAggregates .discard sides.2 sides'.2
  even : widens distinctInAggregates .discard sides.1 = false →
    widens distinctInAggregates .discard sides.2 = false →
    (outputNames schema sides.1).length = (outputNames schema sides.2).length →
    (outputNames schema sides'.1).length = (outputNames schema sides'.2).length

/-- What lifting keeps of a tree: its names, and those of the branches of its set operations. -/
structure Shows (schema : Schema) (distinctInAggregates : Bool) (mode : Mode) (e e' : Expr) :
    Prop where
  names : KeepsNames schema distinctInAggregates mode e e'
  branches : List.Forall₂ (KeepsBranches schema distinctInAggregates) e.branches e'.branches

section Shows

variable {schema : Schema} {flag : Bool} {mode : Mode} {e e' left left' right right' : Expr}

/-- Branches of which neither is widened agree in number if they did. -/
theorem KeepsNames.keepsBranches (hl : KeepsNames schema flag .discard left left')
    (hr : KeepsNames schema flag .discard right right') :
    KeepsBranches schema flag (left, right) (left', right') := by
  refine ⟨hl, hr, fun hleft hright heven => ?_⟩
  change (outputNames schema left').length = (outputNames schema right').length
  rw [hl.same_iff.2 hleft, hr.same_iff.2 hright]
  exact heven

/-- An ordering shows the columns that it orders. -/
theorem outputNames_orderedBy (ks : List OrderKey) (e : Expr) :
    outputNames schema (orderedBy ks e) = outputNames schema e := by
  unfold orderedBy
  by_cases h : ks.isEmpty = true
  · simp [h]
  · simp only [h, Bool.false_eq_true, if_false]
    rfl

/-- The branches of an ordered tree are those of the tree. -/
theorem branches_orderedBy (ks : List OrderKey) (e : Expr) :
    (orderedBy ks e).branches = e.branches := by
  unfold orderedBy
  by_cases h : ks.isEmpty = true
  · simp [h]
  · simp only [h, Bool.false_eq_true, if_false]
    rfl

/-- An ordering above the lifted tree shows what the tree shows. -/
theorem Shows.orderedBy (h : Shows schema flag mode e e') (ks : List OrderKey) :
    Shows schema flag mode e (OrderLifting.orderedBy ks e') := by
  refine ⟨⟨?_, ?_⟩, ?_⟩
  · rw [outputNames_orderedBy]
    exact h.names.sublist
  · rw [outputNames_orderedBy]
    exact h.names.same_iff
  · rw [branches_orderedBy]
    exact h.branches

/-- Lists that were only added to make up the old one exactly if neither was. -/
theorem append_eq_append_iff_of_sublist {xs xs' ys ys' : List String} (hx : xs.Sublist xs')
    (hy : ys.Sublist ys') : xs' ++ ys' = xs ++ ys ↔ xs' = xs ∧ ys' = ys := by
  refine ⟨fun h => ?_, fun h => by rw [h.1, h.2]⟩
  have hlength := congrArg List.length h
  rw [List.length_append, List.length_append] at hlength
  have hxs := hx.length_le
  have hys := hy.length_le
  exact ⟨(hx.eq_of_length (by omega)).symm, (hy.eq_of_length (by omega)).symm⟩

/-- A join shows what its sides show, the hidden columns included. -/
theorem Shows.join (hl : Shows schema flag .expose left left')
    (hr : Shows schema flag .expose right right') (k : JoinKind) (on : Option Expr) :
    Shows schema flag mode (.join k left right on) (.join k left' right' on) := by
  refine ⟨⟨?_, ?_⟩, ?_⟩
  · rw [outputNames_join, outputNames_join]
    exact hl.names.sublist.append hr.names.sublist
  · rw [outputNames_join, outputNames_join, widens, Bool.or_eq_false_iff, ← hl.names.same_iff,
      ← hr.names.same_iff]
    exact append_eq_append_iff_of_sublist hl.names.sublist hr.names.sublist
  · exact List.rel_append hl.branches hr.branches

/-- A set operation shows what its left branch shows. -/
theorem Shows.setOp (hl : Shows schema flag .discard left left')
    (hr : Shows schema flag .discard right right') (op : SetOperator) (all : Bool) (q : String) :
    Shows schema flag mode (.setOp op all left right q) (.setOp op all left' right' q) := by
  refine ⟨⟨?_, ?_⟩, ?_⟩
  · rw [outputNames_setOp, outputNames_setOp]
    exact hl.names.sublist
  · rw [outputNames_setOp, outputNames_setOp, widens]
    exact hl.names.same_iff
  · exact .cons (hl.names.keepsBranches hr.names) (List.rel_append hl.branches hr.branches)

/-- A projection that has taken columns on its right, and none exactly if it is not widened. -/
theorem Shows.project {input input' : Expr} {q : String} {cs added : List Column} {d : Bool}
    {gs : List Expr}
    (h : List.Forall₂ (KeepsBranches schema flag) input.branches input'.branches)
    (hadded : added = [] ↔ widens flag mode (.project q input cs d gs) = false) :
    Shows schema flag mode (.project q input cs d gs) (.project q input' (cs ++ added) d gs) := by
  refine ⟨⟨?_, ?_⟩, h⟩
  · rw [outputNames_project, outputNames_project, List.map_append]
    exact List.sublist_append_left _ _
  · rw [outputNames_project, outputNames_project, List.map_append, List.append_right_eq_self,
      List.map_eq_nil_iff]
    exact hadded

/-- A projection that drops the keys of its input is not widened. -/
theorem widens_project_of_dropped {input : Expr} {ks : List OrderKey} {q : String}
    {cs : List Column} {d : Bool} {gs : List Expr} (hkeys : liftedKeys flag input = ks)
    (hdropped : (ks.isEmpty || mode = .discard || !gs.isEmpty ||
      cs.any (fun c => c.expr.hasAggregate)) = true) :
    widens flag mode (.project q input cs d gs) = false := by
  simp only [Bool.or_eq_true, decide_eq_true_eq] at hdropped
  rw [widens, hidesKey, hkeys]
  rcases hdropped with ((hempty | hmode) | hgrouped) | haggregate
  · rw [List.isEmpty_iff.1 hempty]
    simp
  · simp [hmode]
  · simp [show gs.isEmpty = false by simpa using hgrouped]
  · simp [haggregate]

/-- One that keeps them for the nodes above is widened unless it shows all of them. -/
theorem widens_project_iff {input : Expr} {ks : List OrderKey} {q : String}
    {cs : List Column} {d : Bool} {gs : List Expr} (hkeys : liftedKeys flag input = ks)
    (hplace : mode ≠ .place)
    (hkept : ¬(ks.isEmpty || mode = .discard || !gs.isEmpty ||
      cs.any (fun c => c.expr.hasAggregate)) = true) :
    widens flag mode (.project q input cs d gs) = false ↔
      ∀ k ∈ ks, cs.any (fun c => c.expr == k.expr) = true := by
  simp only [Bool.or_eq_true, decide_eq_true_eq, not_or] at hkept
  obtain ⟨⟨⟨_, hdiscard⟩, hgrouped⟩, haggregate⟩ := hkept
  have hexpose : mode = .expose := by cases mode <;> simp_all
  rw [widens, hidesKey, hkeys]
  simp_all

/-- A projection over a lifted input. Only where its keys have to be seen from above does it take
columns, and then only for the keys that it does not show. -/
theorem Shows.liftProjection {input input' : Expr} {ks : List OrderKey}
    (hlift : lift flag .expose input = .ok (input', ks))
    (h : Shows schema flag .expose input input')
    (mode : Mode) (q : String) (cs : List Column) (gs : List Expr) :
    Shows schema flag mode (.project q input cs false gs)
      (OrderLifting.liftProjection flag mode q cs false gs input' ks).1 := by
  have hkeys : liftedKeys flag input = ks := by
    unfold liftedKeys
    rw [hlift]
    rfl
  -- the columns stay as they are wherever the projection is not widened
  have hsame : widens flag mode (.project q input cs false gs) = false →
      Shows schema flag mode (.project q input cs false gs) (.project q input' cs false gs) := by
    intro hnarrow
    have hproject : Shows schema flag mode (.project q input cs false gs)
        (.project q input' (cs ++ []) false gs) :=
      .project h.branches ⟨fun _ => hnarrow, fun _ => rfl⟩
    rwa [List.append_nil] at hproject
  unfold OrderLifting.liftProjection
  by_cases hdropped : (ks.isEmpty || mode = .discard || !gs.isEmpty ||
      cs.any (fun c => c.expr.hasAggregate)) = true
  · rw [if_pos hdropped]
    exact hsame (widens_project_of_dropped hkeys hdropped)
  · rw [if_neg hdropped, if_neg Bool.false_ne_true]
    by_cases hplace : mode = .place
    · -- the keys order the input, which shows nothing of them
      have hshows := hsame (by simp [widens, hplace])
      rw [if_pos hplace]
      dsimp only
      by_cases hlimited : isLimitedBy ks input' = true
      · rw [if_pos hlimited]
        exact hshows
      · rw [if_neg hlimited]
        exact ⟨⟨hshows.names.sublist, hshows.names.same_iff⟩, hshows.branches⟩
    · rw [if_neg hplace]
      dsimp only
      obtain ⟨added, hcolumns, _⟩ := exposeKeys_columns q (fun c k => c == k) id cs ks
      rw [hcolumns]
      refine .project h.branches ?_
      rw [widens_project_iff hkeys hplace hdropped,
        ← exposeKeys_eq_self_iff q (fun c k => c == k) id, hcolumns, List.append_right_eq_self]

end Shows

/-- Lifting succeeds on a tree without distinct projections, and keeps the names that the tree and
the branches of its set operations show. -/
theorem lift_shows (schema : Schema) (flag : Bool) (mode : Mode) {e : Expr} (h : DistinctFree e) :
    ∃ e' ks, lift flag mode e = .ok (e', ks) ∧ Shows schema flag mode e e' := by
  induction e using treeInduction generalizing mode with
  | scan source qualifier t _ =>
    exact ⟨_, [], rfl, ⟨.refl _, fun _ => rfl, fun _ => rfl⟩, .nil⟩
  | filter input p ih _ =>
    obtain ⟨input', ks, hlift, hshows⟩ := ih mode h
    refine ⟨.filter input' p, ks, ?_, ⟨hshows.names.sublist, hshows.names.same_iff⟩, hshows.branches⟩
    rw [lift, hlift]
    rfl
  | order input outer ih _ =>
    obtain ⟨input', ks, hlift, hshows⟩ := ih mode h
    refine ⟨input', mergeKeys outer ks, ?_, ⟨hshows.names.sublist, hshows.names.same_iff⟩,
      hshows.branches⟩
    rw [lift, hlift]
    rfl
  | limit input take skip ih _ _ =>
    obtain ⟨input', ks, hlift, hshows⟩ := ih mode h
    have hordered := hshows.orderedBy ks
    refine ⟨.limit (orderedBy ks input') take skip, ks, ?_,
      ⟨hordered.names.sublist, hordered.names.same_iff⟩, hordered.branches⟩
    rw [lift, hlift]
    rfl
  | project q input cs d gs ih _ _ =>
    obtain ⟨rfl, hinput⟩ := h
    obtain ⟨input', ks, hlift, hshows⟩ := ih .expose hinput
    have hproject := hshows.liftProjection hlift mode q cs gs
    refine ⟨_, (liftProjection flag mode q cs false gs input' ks).2, ?_, hproject⟩
    rw [lift, hlift]
    rfl
  | join k left right on ihl ihr _ =>
    obtain ⟨left', ls, hleft, hl⟩ := ihl .expose h.1
    obtain ⟨right', rs, hright, hr⟩ := ihr .expose h.2
    refine ⟨.join k left' right' on, mergeKeys ls rs, ?_, hl.join hr k on⟩
    rw [lift, hleft]
    simp only [Attempt.bind_eq_ok_iff]
    exact ⟨_, rfl, _, hright, rfl⟩
  | setOp op all left right q ihl ihr =>
    obtain ⟨left', ls, hleft, hl⟩ := ihl .discard h.1
    obtain ⟨right', rs, hright, hr⟩ := ihr .discard h.2
    refine ⟨.setOp op all left' right' q, [], ?_, hl.setOp hr op all q⟩
    rw [lift, hleft]
    simp only [Attempt.bind_eq_ok_iff]
    exact ⟨_, rfl, _, hright, rfl⟩
  | _ => exact h.elim

/-- Normalization succeeds on a tree without distinct projections. Of the names that the tree shows,
and of those that each branch of a set operation shows, it loses none, and it adds some exactly
where a hidden column shows through. Branches that show equally many, and no hidden column, show
equally many afterwards. -/
theorem outputNames_normalize (schema : Schema) (flag : Bool) {e : Expr} (h : DistinctFree e) :
    ∃ e', normalize flag e = .ok e' ∧ KeepsNames schema flag .place e e' ∧
      List.Forall₂ (KeepsBranches schema flag) e.branches e'.branches := by
  obtain ⟨lifted, ks, hlift, hshows⟩ := lift_shows schema flag .place h
  refine ⟨if isLimitedBy ks lifted then lifted else orderedBy ks lifted, ?_, ?_⟩
  · rw [normalize, hlift]
    rfl
  · by_cases hlimited : isLimitedBy ks lifted = true
    · rw [if_pos hlimited]
      exact ⟨hshows.names, hshows.branches⟩
    · rw [if_neg hlimited]
      have hordered := hshows.orderedBy ks
      exact ⟨hordered.names, hordered.branches⟩

/-- Two tasks, and a team. -/
def taskAndTeam : Tables :=
  [("task", ⟨["id", "label"], [[.int 1, .text "b"], [.int 2, .text "a"]]⟩),
    ("team", ⟨["name"], [[.text "x"]]⟩)]

/-- The identifiers of the tasks, by label. -/
def idsByLabel (q : String) : Expr :=
  .project q
    (.order (mkScan (source ⟨"task", none⟩) "t") [⟨.column "t" "label" .string, .ascending⟩])
    [⟨"id", .column "t" "id" .int64⟩] false []

/-- The identifiers by label, each with the team. -/
def idsWithTeam : Expr :=
  .join .cross (idsByLabel "p") (mkScan (source ⟨"team", none⟩) "u") none

/-- The identifiers of tasks with a team, and of tasks. The label is exposed in the join of the left
branch, where a projection hides it again. -/
def idsOfBoth : Expr :=
  .setOp .union true (.project "l" idsWithTeam [⟨"id", .column "p" "id" .int64⟩] false [])
    (idsByLabel "r") "s"

/-- Neither the names of the result nor those of a branch change, although the label is exposed
within the left branch. -/
theorem outputNames_normalize_idsOfBoth :
    DistinctFree idsOfBoth ∧ ∃ e', normalize false idsOfBoth = .ok e' ∧
      outputNames (.ofTables taskAndTeam) e' = ["id"] ∧
      ∃ left right, e'.branches = [(left, right)] ∧
        outputNames (.ofTables taskAndTeam) left = ["id"] ∧
        outputNames (.ofTables taskAndTeam) right = ["id"] := by
  have hfree : DistinctFree idsOfBoth := ⟨⟨rfl, ⟨rfl, trivial⟩, trivial⟩, rfl, trivial⟩
  obtain ⟨e', he', hnames, hbranches⟩ := outputNames_normalize (.ofTables taskAndTeam) false hfree
  refine ⟨hfree, e', he', hnames.same_iff.2 rfl, ?_⟩
  obtain ⟨⟨left, right⟩, inner, hsides, hinner, hcons⟩ := List.forall₂_cons_left_iff.1 hbranches
  obtain rfl := List.forall₂_nil_left_iff.1 hinner
  exact ⟨left, right, hcons, hsides.left.same_iff.2 rfl, hsides.right.same_iff.2 rfl⟩

/-- The identifiers with the team, and the tasks as they are. -/
def unionWithTeam : Expr :=
  .setOp .union true idsWithTeam
    (.project "r" (mkScan (source ⟨"task", none⟩) "t")
      [⟨"id", .column "t" "id" .int64⟩, ⟨"label", .column "t" "label" .string⟩] false []) "s"

/-- At a join nothing hides the column that a side of it exposes. In a branch the join asks for it
all the same: the branches showed two columns each, the left one shows three after normalization,
and the union of the two fails. -/
theorem outputNames_normalize_unionWithTeam :
    DistinctFree unionWithTeam ∧
      unionWithTeam.branches.map (fun sides => (outputNames (.ofTables taskAndTeam) sides.1,
        outputNames (.ofTables taskAndTeam) sides.2)) = [(["id", "name"], ["id", "label"])] ∧
      run taskAndTeam unionWithTeam = .ok (.rows ⟨["id", "name"],
        [[.int 2, .text "x"], [.int 1, .text "x"], [.int 1, .text "b"], [.int 2, .text "a"]]⟩) ∧
      ∀ flag, ∃ e', normalize flag unionWithTeam = .ok e' ∧
        e'.branches.map (fun sides => (outputNames (.ofTables taskAndTeam) sides.1,
          outputNames (.ofTables taskAndTeam) sides.2)) =
            [(["id", "label", "name"], ["id", "label"])] ∧
        run taskAndTeam e' = .error (.other "set operation branches have 3 and 2 columns") := by
  refine ⟨⟨⟨⟨rfl, trivial⟩, trivial⟩, rfl, trivial⟩, rfl, rfl, ?_⟩
  intro flag
  cases flag with
  | false => exact ⟨_, rfl, rfl, rfl⟩
  | true => exact ⟨_, rfl, rfl, rfl⟩

end OrderLifting

end QueryTree
