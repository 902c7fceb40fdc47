import QueryTree.Proofs.Rows

/-!
# What joins compute

An inner join walks over pairs of rows and tests its condition on each as it goes. A filter over a
cross join makes all the pairs first. The two have the same rows in the same order, and where the
condition has no value on some pair they stop at the same one (`join_inner_eq_filter_cross`).

A left join is computed like the inner join, one left row after the other, but a left row without a
partner stays, with NULL in the columns on the right. So the rows of the left join fall into one
stretch for each left row (`outerRows`), none of them is empty, and without the padded rows they are
the inner join (`relation_joins`). Rows are marked for this by whether they are padded, since
the cells do not show it: a right row may have nothing but NULL in it.
-/

namespace QueryTree

namespace Attempt

variable {ε α β γ : Type}

/-- A walk that goes on from the result of each step takes the same steps, and fails where they
fail. -/
theorem mapM_bind_pure (f : α → Except ε β) (g : α → β → γ) (l : List α) :
    (l.mapM fun a => f a >>= fun b => pure (g a b)) =
      l.mapM f >>= fun bs => pure (l.zipWith g bs) := by
  induction l with
  | nil => rfl
  | cons a l ih =>
    rw [List.mapM_cons, List.mapM_cons, ih]
    cases f a with
    | error e => rfl
    | ok b =>
      cases l.mapM f with
      | error e => rfl
      | ok bs => rfl

/-- What is computed from the result of `x` alone fails where `x` fails. -/
theorem bind_pure_eq_error_iff {x : Except ε α} {f : α → β} {error : ε} :
    (x >>= fun a => pure (f a)) = .error error ↔ x = .error error := by
  cases x with
  | error e =>
    exact ⟨fun h => congrArg _ (Except.error.inj h), fun h => congrArg _ (Except.error.inj h)⟩
  | ok a => exact ⟨fun h => (nomatch h), fun h => (nomatch h)⟩

end Attempt

open Attempt

namespace Relation

variable {l r : Relation} {on : Option Expr}

/-! ### Filters of pairs -/

/-- A filter goes along the rows, so it can be made in two parts. If both parts fail, the failure is
that of the first. -/
theorem filterRows_append (columns : List QualifiedName) (p : Expr) (rows rows' : List Row) :
    filterRows columns p (rows ++ rows') = do
      let kept ← filterRows columns p rows
      let kept' ← filterRows columns p rows'
      return kept ++ kept' := by
  induction rows with
  | nil =>
    rw [List.nil_append]
    cases filterRows columns p rows' with
    | error e => rfl
    | ok kept => rfl
  | cons row rows ih =>
    rw [List.cons_append, filterRows, filterRows, ih]
    cases p.evaluate (rowEnv columns row) with
    | error e => rfl
    | ok v =>
      cases filterRows columns p rows with
      | error e => rfl
      | ok kept =>
        cases filterRows columns p rows' with
        | error e => rfl
        | ok kept' =>
          cases v with
          | bool b => cases b <;> rfl
          | _ => rfl

/-- A filter goes through stretches of rows one after the other. -/
theorem filterRows_flatten (columns : List QualifiedName) (p : Expr) (stretches : List (List Row)) :
    filterRows columns p stretches.flatten = do
      let kept ← stretches.mapM (filterRows columns p)
      return kept.flatten := by
  induction stretches with
  | nil => rfl
  | cons rows stretches ih =>
    rw [List.flatten_cons, filterRows_append, ih, List.mapM_cons]
    cases filterRows columns p rows with
    | error e => rfl
    | ok kept =>
      cases stretches.mapM (filterRows columns p) with
      | error e => rfl
      | ok rest => rfl

/-! ### One left row after the other -/

/-- For each left row, the rows that it makes with its partners on the right. -/
def partners (on : Option Expr) (l r : Relation) : Except Fault (List (List Row)) :=
  liftEval (l.rows.mapM fun row => matching (l.columns ++ r.columns) on row r.rows)

/-- An inner join has the rows with partners, one left row after the other. -/
theorem join_inner_eq (on : Option Expr) (l r : Relation) :
    join .inner l r on =
      partners on l r >>= fun found => pure ⟨l.columns ++ r.columns, found.flatten⟩ := by
  have hrow : ∀ row, joinRow .inner (l.columns ++ r.columns) on r.columns.length r.rows row =
      matching (l.columns ++ r.columns) on row r.rows := by
    intro row
    rw [joinRow]
    cases matching (l.columns ++ r.columns) on row r.rows <;> rfl
  have hjoin : join .inner l r on = liftEval (l.rows.mapM (joinRow .inner (l.columns ++ r.columns)
      on r.columns.length r.rows)) >>= fun found => pure ⟨l.columns ++ r.columns, found.flatten⟩ :=
    rfl
  rw [hjoin, funext hrow, partners]

/-- A cross join has every pair, and looks at no condition. -/
theorem join_cross_eq (on : Option Expr) (l r : Relation) :
    join .cross l r on =
      .ok ⟨l.columns ++ r.columns, (l.rows.map fun row => r.rows.map (row ++ ·)).flatten⟩ := by
  refine join_eq_ok_iff.2 ⟨⟨nofun, nofun⟩, _, mapM_eq_ok_map fun row _ => ?_, rfl⟩
  rfl

/-- The rows of a left join that begin with a left row, each with the mark whether it is padded:
those that the inner join has for it, or one with NULL on the right. -/
def outerRows (width : Nat) (row : Row) (found : List Row) : List (Row × Bool) :=
  if found.isEmpty then [(row ++ List.replicate width .null, true)] else found.map (·, false)

/-- A left join has the rows of the inner one, and a padded row for each left row without a partner.
-/
theorem join_left_eq (on : Option Expr) (l r : Relation) :
    join .left l r on = partners on l r >>= fun found => pure ⟨l.columns ++ r.columns,
      (l.rows.zipWith (outerRows r.columns.length) found).flatten.map (·.1)⟩ := by
  have hrow : ∀ row, joinRow .left (l.columns ++ r.columns) on r.columns.length r.rows row =
      matching (l.columns ++ r.columns) on row r.rows >>= fun found =>
        pure ((outerRows r.columns.length row found).map (·.1)) := by
    intro row
    rw [joinRow]
    cases matching (l.columns ++ r.columns) on row r.rows with
    | error e => rfl
    | ok found =>
      cases found with
      | nil => rfl
      | cons first rest =>
        have hmarked : ((first :: rest).map (·, false)).map Prod.fst = first :: rest := by
          rw [List.map_map]
          exact List.map_id _
        exact congrArg Except.ok hmarked.symm
  have hjoin : join .left l r on = liftEval (l.rows.mapM (joinRow .left (l.columns ++ r.columns)
      on r.columns.length r.rows)) >>= fun found => pure ⟨l.columns ++ r.columns, found.flatten⟩ :=
    rfl
  rw [hjoin, funext hrow, mapM_bind_pure, partners]
  cases l.rows.mapM fun row => matching (l.columns ++ r.columns) on row r.rows with
  | error e => rfl
  | ok found =>
    have hmap : (l.rows.zipWith (fun row found => (outerRows r.columns.length row found).map (·.1))
        found).flatten = (l.rows.zipWith (outerRows r.columns.length) found).flatten.map (·.1) := by
      rw [List.map_flatten, List.map_zipWith]
    exact congrArg (fun rows => Except.ok (Relation.mk (l.columns ++ r.columns) rows)) hmap

/-- The condition of an inner join can be tested when all pairs are there. -/
theorem join_inner_eq_filter_cross (p : Expr) (l r : Relation) :
    join .inner l r (some p) = do
      let pairs ← join .cross l r none
      let rows ← liftEval (filterRows pairs.columns p pairs.rows)
      return ⟨pairs.columns, rows⟩ := by
  have hpartners : partners (some p) l r = liftEval
      (l.rows.mapM (filterRows (l.columns ++ r.columns) p ∘ fun row => r.rows.map (row ++ ·))) := rfl
  have hfilter := filterRows_flatten (l.columns ++ r.columns) p
    (l.rows.map fun row => r.rows.map (row ++ ·))
  rw [List.mapM_map] at hfilter
  rw [join_inner_eq, join_cross_eq, hpartners]
  show _ = liftEval (filterRows (l.columns ++ r.columns) p
    (l.rows.map fun row => r.rows.map (row ++ ·)).flatten) >>= _
  rw [hfilter]
  cases l.rows.mapM (filterRows (l.columns ++ r.columns) p ∘ fun row => r.rows.map (row ++ ·)) with
  | error e => rfl
  | ok found => rfl

/-! ### Padded rows -/

/-- Every left row is in a left join at least once. -/
theorem outerRows_ne_nil (width : Nat) (row : Row) (found : List Row) :
    outerRows width row found ≠ [] := by
  cases found <;> simp [outerRows]

/-- Without the row that is padded, if it is there, what is left is what was found. -/
theorem outerRows_filter (width : Nat) (row : Row) (found : List Row) :
    ((outerRows width row found).filter fun out => !out.2).map (·.1) = found := by
  cases found with
  | nil => rfl
  | cons first rest => simp [outerRows, List.filter_map, Function.comp_def]

/-- The rows of a left join begin with their left row. -/
theorem prefix_of_mem_outerRows {width : Nat} {row : Row} {found : List Row}
    (h : ∀ out ∈ found, row <+: out) {out : Row × Bool} (hout : out ∈ outerRows width row found) :
    row <+: out.1 := by
  unfold outerRows at hout
  split at hout
  · obtain rfl := List.mem_singleton.1 hout
    exact List.prefix_append _ _
  · obtain ⟨out, hmem, rfl⟩ := List.mem_map.1 hout
    exact h out hmem

/-- All rows of a left join, with their marks, where `found` are the rows of the inner join that
begin with a left row. -/
def outerJoin (l r : Relation) (found : Row → List Row) : List (Row × Bool) :=
  l.rows.flatMap fun row => outerRows r.columns.length row (found row)

/-- How a left join completes an inner join. -/
structure Completes (p : Expr) (l r : Relation) (found : Row → List Row) (joined completed : Relation) :
    Prop where
  columns : joined.columns = l.columns ++ r.columns ∧ completed.columns = l.columns ++ r.columns
  /-- The rows found for a left row are those of its own inner join. -/
  own : ∀ row ∈ l.rows,
    join .inner ⟨l.columns, [row]⟩ r (some p) = .ok ⟨l.columns ++ r.columns, found row⟩
  joined_rows : joined.rows = l.rows.flatMap found
  completed_rows : completed.rows = (outerJoin l r found).map (·.1)
  /-- Each left row begins the rows of its stretch, and there is at least one. -/
  kept : ∀ row ∈ l.rows, outerRows r.columns.length row (found row) ≠ [] ∧
    ∀ out ∈ outerRows r.columns.length row (found row), row <+: out.1
  unpadded : ((outerJoin l r found).filter fun out => !out.2).map (·.1) = joined.rows

/-- An inner join that has a result is completed by the left join. Both joins try the same pairs of
rows on the same condition, so what the inner join found for a left row is what the left join finds
for it. -/
theorem exists_completes {p : Expr} {joined : Relation}
    (h : join .inner l r (some p) = .ok joined) :
    ∃ completed found, join .left l r (some p) = .ok completed ∧
      Completes p l r found joined completed := by
  rw [join_inner_eq] at h
  obtain ⟨rows, hrows, h⟩ := bind_eq_ok_iff.1 h
  obtain rfl := pure_eq_ok_iff.1 h
  obtain ⟨hfound, rfl⟩ := (mapM_eq_ok_iff_map []).1 (liftEval_eq_ok_iff.1 hrows)
  -- the walk succeeded, so this is what it found for each left row
  let found (row : Row) := valueOr [] (matching (l.columns ++ r.columns) (some p) row r.rows)
  have hjoined : (l.rows.map found).flatten = l.rows.flatMap found := List.flatMap_def.symm
  refine ⟨⟨l.columns ++ r.columns, (outerJoin l r found).map (·.1)⟩, found, ?_, ?_⟩
  · rw [join_left_eq, hrows]
    refine congrArg (fun rows => Except.ok (Relation.mk (l.columns ++ r.columns) rows)) ?_
    rw [List.zipWith_map_right, List.zipWith_self, outerJoin, List.flatMap_def]
  · refine ⟨⟨rfl, rfl⟩, fun row hrow => ?_, hjoined, rfl, fun row hrow => ?_, ?_⟩
    · have hone : partners (some p) ⟨l.columns, [row]⟩ r = .ok [found row] :=
        liftEval_eq_ok_iff.2 (mapM_eq_ok_map (List.forall_mem_singleton.2 (hfound row hrow)))
      rw [join_inner_eq, hone]
      exact congrArg (fun rows => Except.ok (Relation.mk _ rows)) List.flatten_singleton
    · refine ⟨outerRows_ne_nil _ _ _, fun out hout => prefix_of_mem_outerRows ?_ hout⟩
      intro out hout
      obtain ⟨other, _, rfl⟩ := exists_of_mem_matching (hfound row hrow) hout
      exact List.prefix_append _ _
    · rw [outerJoin, List.filter_flatMap, List.map_flatMap]
      simp only [outerRows_filter]
      exact hjoined.symm

end Relation

namespace Expr

open QueryTree.Relation

/-- Joins over all tables. An inner join and a filter over the cross join are the same, faults
included. A left join fails where the inner join fails; and else it has, for each left row in order,
the rows that the inner join has for it, or if there are none the row with one NULL for each right
column. -/
theorem relation_joins (tables : Tables) (left right p : Expr) :
    relation tables (.join .inner left right (some p)) =
        relation tables (.filter (.join .cross left right none) p) ∧
      run tables (.join .inner left right (some p)) =
        run tables (.filter (.join .cross left right none) p) ∧
      (∀ fault, relation tables (.join .left left right (some p)) = .error fault ↔
        relation tables (.join .inner left right (some p)) = .error fault) ∧
      ∀ joined, relation tables (.join .inner left right (some p)) = .ok joined →
        ∃ l r found completed, relation tables left = .ok l ∧ relation tables right = .ok r ∧
          relation tables (.join .left left right (some p)) = .ok completed ∧
          Completes p l r found joined completed := by
  have hjoin (kind : JoinKind) (on : Option Expr) : relation tables (.join kind left right on) =
      relation tables left >>= fun l => relation tables right >>= fun r => Relation.join kind l r on := rfl
  have hinner : relation tables (.join .inner left right (some p)) =
      relation tables (.filter (.join .cross left right none) p) := by
    have hfilter : relation tables (.filter (.join .cross left right none) p) =
        relation tables (.join .cross left right none) >>= fun s =>
          liftEval (filterRows s.columns p s.rows) >>= fun rows => pure ⟨s.columns, rows⟩ := rfl
    rw [hfilter, hjoin, hjoin]
    cases relation tables left with
    | error fault => rfl
    | ok l =>
      cases relation tables right with
      | error fault => rfl
      | ok r => exact join_inner_eq_filter_cross p l r
  refine ⟨hinner, ?_, fun fault => ?_, fun joined h => ?_⟩
  · have hrun (e : Expr) (he : e.isRelational = true) :
        run tables e = relation tables e >>= fun s => pure (.rows s.toRowSet) := if_pos he
    rw [hrun _ rfl, hrun _ rfl, hinner]
  · rw [hjoin, hjoin]
    cases relation tables left with
    | error fault' => exact Iff.rfl
    | ok l =>
      cases relation tables right with
      | error fault' => exact Iff.rfl
      | ok r =>
        have hfails : Relation.join .left l r (some p) = .error fault ↔
            Relation.join .inner l r (some p) = .error fault := by
          rw [join_left_eq, join_inner_eq, bind_pure_eq_error_iff, bind_pure_eq_error_iff]
        exact hfails
  · obtain ⟨l, r, hl, hr, hjoined⟩ := relation_join_eq_ok_iff.1 h
    obtain ⟨completed, found, hcompleted, hcompletes⟩ := exists_completes hjoined
    exact ⟨l, r, found, completed, hl, hr,
      relation_join_eq_ok_iff.2 ⟨l, r, hl, hr, hcompleted⟩, hcompletes⟩

/-- People with the numbers of their crews: Bob has none, and Ann is there twice. -/
def staffRows : List Row :=
  [[.text "ann", .int 1], [.text "bob", .null], [.text "cyd", .int 3], [.text "ann", .int 1]]

/-- Crews, one without a number, and one number twice. -/
def crewRows : List Row := [[.int 1, .null], [.null, .null], [.int 1, .text "eve"]]

/-- People with the numbers of their crews, and crews with their leaders. -/
def crews : Tables :=
  [("staff", ⟨["name", "crew"], staffRows⟩), ("crew", ⟨["id", "leader"], crewRows⟩)]

/-- The people. -/
def staffScan : Expr := mkScan (source ⟨"staff", none⟩) "s"

/-- The crews. -/
def crewScan : Expr := mkScan (source ⟨"crew", none⟩) "c"

/-- The crew of the person. -/
def sameCrew : Expr := mkBinary .eq (.column "s" "crew" .int64) (.column "c" "id" .int64)

/-- Ann with the two entries of crew 1, one of them without a leader. -/
def annRows : List Row :=
  [[.text "ann", .int 1, .int 1, .null], [.text "ann", .int 1, .int 1, .text "eve"]]

/-- Bob's crew is unknown and that of Cyd has no entry. -/
theorem relation_joins_crews :
    ∃ joined completed l r found,
      relation crews (.join .inner staffScan crewScan (some sameCrew)) = .ok joined ∧
      relation crews (.join .left staffScan crewScan (some sameCrew)) = .ok completed ∧
      Completes sameCrew l r found joined completed ∧ joined.rows = annRows ++ annRows ∧
      completed.rows = annRows ++ [[.text "bob", .null, .null, .null],
        [.text "cyd", .int 3, .null, .null]] ++ annRows := by
  let columns : List QualifiedName :=
    [("s", "name"), ("s", "crew"), ("c", "id"), ("c", "leader")]
  have hjoined : relation crews (.join .inner staffScan crewScan (some sameCrew)) =
      .ok ⟨columns, annRows ++ annRows⟩ := rfl
  obtain ⟨l, r, found, completed, _, _, hcompleted, hcompletes⟩ :=
    (relation_joins crews staffScan crewScan sameCrew).2.2.2 _ hjoined
  refine ⟨_, completed, l, r, found, hjoined, hcompleted, hcompletes, rfl, ?_⟩
  exact congrArg Relation.rows (Except.ok.inj (hcompleted.symm.trans rfl))

end Expr

end QueryTree
