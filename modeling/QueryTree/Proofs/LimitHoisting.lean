import QueryTree.Proofs.Rendering
import QueryTree.Proofs.Rows

/-!
# A limit below a projection

A block that takes up a limit directly below its projection has the text of the limit over the
projection (`query_hoisted`). It takes one up only below a projection that is neither distinct nor
grouped, with nothing above it (`innerLimit_split_eq_some_iff`).

Such a projection maps rows one to one unless one of its columns is an aggregate: then it makes one
row of all rows, and it matters whether the limit comes first. Without aggregates the two trees
differ in one respect. The limit over the projection computes the columns on all rows, also on those
that it leaves out. If they have values there, the two trees have the same result (`run_hoisted`);
if not, the limit over the projection fails (`definedOutside_of_run_hoisted`).
-/

namespace QueryTree

open Attempt

/-- A projection over a limit. -/
def asWritten (q : String) (cs : List Column) (w : Window) (x : Expr) : Expr :=
  .project q (.limit x w.take w.skip) cs false []

/-- The limit over the projection. -/
def hoisted (q : String) (cs : List Column) (w : Window) (x : Expr) : Expr :=
  .limit (.project q x cs false []) w.take w.skip

/-! ### Blocks with an inner limit -/

namespace Block

variable {stage : Nat} {b b' : Block} {e x : Expr} {w : Window} {q : String} {cs : List Column}

/-- An inner limit is taken up below a projection that maps rows, with nothing on top. -/
theorem allowsInnerLimit_iff :
    b.allowsInnerLimit = true ↔ b.outerLimit = none ∧ b.outerOrder = [] ∧
      ∀ p ∈ b.projection, p.distinct = false ∧ p.groupBy = [] := by
  cases hp : b.projection <;> simp [allowsInnerLimit, hp, and_assoc]

/-- Past the projection, or below a limit, no inner limit is taken up. By induction on the tree: a
limit that has been taken up stays, and the stage only grows, so one of the two conditions holds at
every later step. -/
theorem innerLimit_absorb (h : b.outerLimit ≠ none ∨ 4 ≤ stage) (e : Expr) :
    (absorb stage b e).innerLimit = b.innerLimit := by
  induction e using Expr.treeInduction generalizing stage b with
  | limit input take skip ih _ _ =>
    simp only [absorb]
    split_ifs with h0 h3
    · exact ih (.inl (Option.some_ne_none _))
    · obtain ⟨rfl, hallows⟩ := h3
      rcases h with houter | hstage
      · exact absurd (allowsInnerLimit_iff.1 hallows).1 houter
      · omega
    · rfl
  | order input keys ih _ =>
    simp only [absorb]
    split_ifs with h1 h3
    · exact ih (h.imp_right (by omega))
    · exact ih (.inr (by omega))
    · rfl
  | project q input columns distinct groupBy ih _ _ =>
    simp only [absorb]
    split_ifs with h2
    · exact ih (h.imp_right (by omega))
    · rfl
  | filter input predicate ih _ => exact ih (.inr (by omega))
  | _ => rfl

/-- A limit below the projection is taken up exactly if the block allows it. -/
theorem absorb_three_limit (b : Block) (x : Expr) (take skip : Option Expr) :
    absorb 3 b (.limit x take skip) =
      if b.allowsInnerLimit then absorb 4 { b with innerLimit := some ⟨take, skip⟩ } x
      else { b with source := .limit x take skip } := by
  simp [absorb]

/-- Below the projection a block takes up only a limit that comes first. -/
theorem eq_limit_of_innerLimit_absorb (h : (absorb 3 b e).innerLimit = some w)
    (hb : b.innerLimit = none) :
    b.allowsInnerLimit = true ∧ ∃ x, e = .limit x w.take w.skip := by
  have hlast : ∀ {b' : Block} {input}, b'.innerLimit = none →
      (absorb 5 b' input).innerLimit ≠ some w := by
    intro b' input hb' h
    rw [innerLimit_absorb (.inr (by omega)), hb'] at h
    cases h
  cases e with
  | limit x take skip =>
    rw [absorb_three_limit] at h
    split_ifs at h with hallows
    · rw [innerLimit_absorb (.inr (by omega))] at h
      obtain rfl := Option.some.inj h
      exact ⟨hallows, x, rfl⟩
    · cases hb.symm.trans h
  | order input keys => exact absurd h (hlast hb)
  | filter input predicate => exact absurd h (hlast hb)
  | _ => cases hb.symm.trans h

/-- Where a block takes up an inner limit, it has no keys above the projection, and this is neither
distinct nor grouped and lies directly over the limit. -/
theorem eq_asWritten_of_innerLimit_absorb (h : (absorb 2 b e).innerLimit = some w)
    (hb : b.innerLimit = none) : b.outerOrder = [] ∧ ∃ q cs x, e = asWritten q cs w x := by
  cases e with
  | project q input cs d gs =>
    have h3 : (absorb 3 { b with projection := some ⟨q, cs, d, gs⟩ } input).innerLimit = some w := h
    obtain ⟨hallows, x, rfl⟩ := eq_limit_of_innerLimit_absorb h3 hb
    obtain ⟨_, horder, hproject⟩ := allowsInnerLimit_iff.1 hallows
    obtain ⟨rfl, rfl⟩ := hproject _ rfl
    exact ⟨horder, q, cs, x, rfl⟩
  | filter input predicate =>
    have h5 : (absorb 5 { b with filters := b.filters ++ [predicate] } input).innerLimit =
      some w := h
    rw [innerLimit_absorb (.inr (by omega))] at h5
    cases hb.symm.trans h5
  | _ => cases hb.symm.trans h

/-- A projection over a limit is taken up whole, limit included, by a block with nothing on top. -/
theorem absorb_asWritten (hb : b.outerLimit = none ∧ b.outerOrder = []) (hstage : stage ≤ 2) :
    absorb stage b (asWritten q cs w x) =
      absorb 4 { b with projection := some ⟨q, cs, false, []⟩, innerLimit := some w } x := by
  have hallows :
      ({ b with projection := some ⟨q, cs, false, []⟩ } : Block).allowsInnerLimit = true :=
    allowsInnerLimit_iff.2 ⟨hb.1, hb.2, by simp⟩
  rw [asWritten, absorb, if_pos hstage, absorb_three_limit, if_pos hallows]

/-- A block takes up a limit below its projection exactly when the projection is neither distinct
nor grouped, lies directly over the limit, and has at most an ordering without keys above it. -/
theorem innerLimit_split_eq_some_iff :
    (split e).innerLimit = some w ↔
      ∃ q cs x, e = asWritten q cs w x ∨ e = .order (asWritten q cs w x) [] := by
  constructor
  · intro h
    cases e with
    | project q input cs d gs =>
      have h2 : (absorb 2 { source := .project q input cs d gs }
        (.project q input cs d gs)).innerLimit = some w := h
      obtain ⟨_, q, cs, x, heq⟩ := eq_asWritten_of_innerLimit_absorb h2 rfl
      exact ⟨q, cs, x, .inl heq⟩
    | order input keys =>
      have h2 : (absorb 2 { source := .order input keys, outerOrder := keys } input).innerLimit =
        some w := h
      obtain ⟨rfl, q, cs, x, rfl⟩ := eq_asWritten_of_innerLimit_absorb h2 rfl
      exact ⟨q, cs, x, .inr rfl⟩
    | limit input take skip =>
      have h1 : (absorb 1 { source := .limit input take skip, outerLimit := some ⟨take, skip⟩ }
        input).innerLimit = some w := h
      rw [innerLimit_absorb (.inl (Option.some_ne_none _))] at h1
      cases h1
    | filter input predicate =>
      have h5 : (absorb 5 { source := .filter input predicate, filters := [predicate] }
        input).innerLimit = some w := h
      rw [innerLimit_absorb (.inr (by omega))] at h5
      cases h5
    | _ => cases h
  · rintro ⟨q, cs, x, rfl | rfl⟩
    · rw [split, absorb_asWritten ⟨rfl, rfl⟩ (by omega), innerLimit_absorb (.inr (by omega))]
    · rw [split, absorb, if_pos (by omega), absorb_asWritten ⟨rfl, rfl⟩ (by omega),
        innerLimit_absorb (.inr (by omega))]

/-- Two blocks have the same clauses, apart from which of the two limits they have. -/
structure SameClauses (b b' : Block) : Prop where
  outerOrder : b.outerOrder = b'.outerOrder
  projection : b.projection = b'.projection
  limit : b.outerLimit.or b.innerLimit = b'.outerLimit.or b'.innerLimit
  innerOrder : b.innerOrder = b'.innerOrder
  filters : b.filters = b'.filters

/-- The source has no part in the comparison of clauses. -/
theorem SameClauses.withSource (h : SameClauses b b') (s : Expr) :
    SameClauses { b with source := s } { b' with source := s } where
  outerOrder := h.outerOrder
  projection := h.projection
  limit := h.limit
  innerOrder := h.innerOrder
  filters := h.filters

/-- Past the projection blocks with the same clauses take up the same nodes. Only orderings and
filters are taken up from stage 4 on, and neither depends on the other clauses. -/
theorem SameClauses.absorb (h : SameClauses b b') (hstage : 4 ≤ stage) (e : Expr) :
    SameClauses (absorb stage b e) (absorb stage b' e) ∧
      (Block.absorb stage b e).source = (Block.absorb stage b' e).source := by
  induction e using Expr.treeInduction generalizing stage b b' with
  | limit input take skip _ _ _ =>
    have h0 : stage ≠ 0 := by omega
    have h3 : stage ≠ 3 := by omega
    simp only [Block.absorb, h0, h3, false_and, if_false]
    exact ⟨h.withSource _, trivial⟩
  | order input keys ih _ =>
    simp only [Block.absorb]
    split_ifs
    · omega
    · exact ih { h with innerOrder := rfl } (by omega)
    · exact ⟨h.withSource _, rfl⟩
  | project q input columns distinct groupBy _ _ _ =>
    simp only [Block.absorb]
    split_ifs
    · omega
    · exact ⟨h.withSource _, rfl⟩
  | filter input predicate ih _ =>
    exact ih { h with filters := congrArg (· ++ [predicate]) h.filters } (by omega)
  | _ => exact ⟨h.withSource _, rfl⟩

/-- Bare is a matter of the clauses. -/
theorem SameClauses.isBare_eq (h : SameClauses b b') : b.isBare = b'.isBare := by
  have hlimits : ∀ b : Block, (b.outerLimit.isNone && b.innerLimit.isNone) =
      (b.outerLimit.or b.innerLimit).isNone := by
    intro b
    cases b.outerLimit <;> simp
  have hbare : ∀ b : Block, b.isBare = ((b.outerLimit.or b.innerLimit).isNone &&
      b.outerOrder.isEmpty && b.projection.isNone && b.innerOrder.isEmpty &&
        b.filters.isEmpty) := by
    intro b
    rw [isBare, ← hlimits b]
    ac_rfl
  rw [hbare, hbare, h.limit, h.outerOrder, h.projection, h.innerOrder, h.filters]

/-- A set operation is found by the clauses and the source. -/
theorem SameClauses.setParts?_eq (h : SameClauses b b') (hsource : b.source = b'.source) :
    b.setParts? = b'.setParts? := by
  rw [setParts?, setParts?, h.isBare_eq, hsource]

/-- A block that may take up no inner limit goes on past the place for it. -/
theorem absorb_three_of_not_allowsInnerLimit (h : b.allowsInnerLimit = false) (e : Expr) :
    absorb 3 b e = absorb 4 b e := by
  cases e with
  | limit x take skip =>
    rw [absorb_three_limit, if_neg (by simp [h])]
    rfl
  | _ => rfl

/-- The block of a limit over a projection has the same clauses as that of the projection over the
limit. -/
theorem sameClauses_hoisted (h : e = asWritten q cs w x ∨ e = .order (asWritten q cs w x) []) :
    SameClauses (split (hoisted q cs w x)) (split e) ∧
      (split (hoisted q cs w x)).source = (split e).source := by
  have hhoisted : split (hoisted q cs w x) = Block.absorb 4
      { source := hoisted q cs w x, outerLimit := some w, projection := some ⟨q, cs, false, []⟩ }
      x :=
    absorb_three_of_not_allowsInnerLimit rfl x
  have hasWritten : split e = Block.absorb 4
      { source := e, projection := some ⟨q, cs, false, []⟩, innerLimit := some w } x := by
    rcases h with rfl | rfl
    · rw [split, absorb_asWritten ⟨rfl, rfl⟩ (by omega)]
    · rw [split, Block.absorb, if_pos (by omega), absorb_asWritten ⟨rfl, rfl⟩ (by omega)]
  rw [hhoisted, hasWritten]
  refine SameClauses.absorb ?_ (Nat.le_refl 4) x
  exact ⟨rfl, rfl, rfl, rfl, rfl⟩

end Block

/-! ### The text of a block with an inner limit -/

namespace Sql

variable {d : Dialect} {e e' x : Expr} {w : Window} {q : String} {cs : List Column}

/-- Blocks with the same clauses are rendered alike. -/
theorem select_eq {b b' : Block} (h : b.SameClauses b') (source : Except QueryError Sql) :
    select d b source = select d b' source := by
  simp only [select, orderClause, limitClause, h.outerOrder, h.projection, h.limit, h.innerOrder,
    h.filters]

/-- Trees whose blocks have the same clauses and from-items have the same text. -/
theorem query_eq (h : (Block.split e).SameClauses (Block.split e'))
    (hsource : (Block.split e).source = (Block.split e').source) : query d e = query d e' := by
  have hparts := h.setParts?_eq hsource
  cases hs : (Block.split e').setParts? with
  | some s => rw [query_of_setParts (hparts.trans hs), query_of_setParts hs]
  | none => rw [query_of_block (hparts.trans hs), query_of_block hs, hsource, select_eq h]

/-- A block with an inner limit has the text of the limit over the projection. -/
theorem query_hoisted (h : e = asWritten q cs w x ∨ e = .order (asWritten q cs w x) []) :
    query d (hoisted q cs w x) = query d e := by
  obtain ⟨hclauses, hsource⟩ := Block.sameClauses_hoisted h
  exact query_eq hclauses hsource

end Sql

/-! ### Rows -/

namespace Expr

open QueryTree.Relation

variable {tables : Tables} {e x : Expr} {w : Window} {q : String} {cs : List Column}

/-- The rows that a window leaves out. -/
def outside (skip take : Option Nat) (rows : List Row) : List Row :=
  rows.take (skip.getD 0) ++ take.elim [] fun n => (rows.drop (skip.getD 0)).drop n

/-- The rows that a window leaves out are those before it and those after it. -/
theorem exists_eq_append_window (skip take : Option Nat) (rows : List Row) :
    ∃ before after, rows = before ++ window skip take rows ++ after ∧
      outside skip take rows = before ++ after := by
  refine ⟨rows.take (skip.getD 0), take.elim [] fun n => (rows.drop (skip.getD 0)).drop n, ?_, rfl⟩
  cases take with
  | none => simp [window]
  | some n =>
    simp only [window, Option.elim_some]
    rw [List.append_assoc, List.take_append_drop, List.take_append_drop]

/-- Where a step returns on the rows that a window leaves out, one may walk along all rows and then
take the window. -/
theorem mapM_window {ε : Type} {f : Row → Except ε Row} {skip take : Option Nat} {rows : List Row}
    (h : ∀ row ∈ outside skip take rows, f row = .ok (valueOr [] (f row))) :
    window skip take <$> rows.mapM f = (window skip take rows).mapM f := by
  obtain ⟨before, after, hrows, houtside⟩ := exists_eq_append_window skip take rows
  rw [houtside, List.forall_mem_append] at h
  cases hwindow : (window skip take rows).mapM f with
  | ok outs =>
    obtain ⟨hinside, rfl⟩ := (mapM_eq_ok_iff_map []).1 hwindow
    have hall : ∀ row ∈ rows, f row = .ok (valueOr [] (f row)) := by
      rw [hrows, List.forall_mem_append, List.forall_mem_append]
      exact ⟨⟨h.1, hinside⟩, h.2⟩
    rw [mapM_eq_ok_map hall]
    exact congrArg Except.ok (window_map skip take _ rows)
  | error fault =>
    -- no row before the window stops the walk, so the first one that does is in it
    have hfail : rows.mapM f = .error fault := by
      rw [hrows, List.mapM_append, List.mapM_append, mapM_eq_ok_map h.1, hwindow]
      rfl
    rw [hfail]
    rfl

/-- The rows that a limit leaves out, which are all rows if a bound of it has no value. -/
def leftOut (w : Window) (rows : List Row) : List Row :=
  match rowCount w.skip, rowCount w.take with
  | .ok skipped, .ok taken => outside skipped taken rows
  | _, _ => rows

/-- The columns have values on the rows of the input that the limit leaves out. -/
def DefinedOutside (tables : Tables) (w : Window) (cs : List Column) (x : Expr) : Prop :=
  ∀ r, relation tables x = .ok r → ∀ c ∈ cs, Defined r.columns c.expr (leftOut w r.rows)

/-- Walking along all rows before the bounds of a limit are computed, or after that along its
window. The rows that are left out of the window have values. If a bound fails all rows are left
out, so that the walk cannot fail before the bound does. -/
theorem walk_window {f : Row → Except EvalError Row} {rows : List Row}
    (h : ∀ row ∈ leftOut w rows, f row = .ok (valueOr [] (f row))) :
    (do
      let outs ← liftEval (rows.mapM f)
      let skipped ← rowCount w.skip
      let taken ← rowCount w.take
      pure (window skipped taken outs)) =
    (do
      let skipped ← rowCount w.skip
      let taken ← rowCount w.take
      liftEval ((window skipped taken rows).mapM f)) := by
  unfold leftOut at h
  cases hskip : rowCount w.skip with
  | error fault =>
    rw [hskip] at h
    have hwalk : rows.mapM f = .ok _ := mapM_eq_ok_map h
    rw [hwalk]
    rfl
  | ok skipped =>
    cases htake : rowCount w.take with
    | error fault =>
      rw [hskip, htake] at h
      have hwalk : rows.mapM f = .ok _ := mapM_eq_ok_map h
      rw [hwalk]
      rfl
    | ok taken =>
      rw [hskip, htake] at h
      have hwindow := mapM_window h
      cases hwalk : rows.mapM f with
      | error fault =>
        rw [hwalk] at hwindow
        exact congrArg liftEval hwindow
      | ok outs =>
        rw [hwalk] at hwindow
        exact congrArg liftEval hwindow

/-- The columns on the rows of a relation, in turn. -/
theorem projectRows_eq_mapM {r : Relation} (hcs : cs.any (fun c => c.expr.hasAggregate) = false) :
    r.projectRows cs [] =
      liftEval (r.rows.mapM fun row => evaluateList (rowEnv r.columns row) (cs.map (·.expr))) := by
  simp [projectRows, hcs]

/-- Projecting all rows before the window of a limit is taken, or only those of the window. -/
theorem projectRows_window {r : Relation} (hcs : cs.any (fun c => c.expr.hasAggregate) = false)
    (h : ∀ c ∈ cs, Defined r.columns c.expr (leftOut w r.rows)) :
    (do
      let rows ← r.projectRows cs []
      let skipped ← rowCount w.skip
      let taken ← rowCount w.take
      pure (window skipped taken rows)) =
    (do
      let skipped ← rowCount w.skip
      let taken ← rowCount w.take
      Relation.projectRows ⟨r.columns, window skipped taken r.rows⟩ cs []) := by
  simp only [projectRows_eq_mapM hcs]
  refine walk_window fun row hrow => ?_
  have hlist := evaluateList_eq_ok_iff.2 ⟨List.forall_mem_map.2 fun c hc => h c hc row hrow, rfl⟩
  exact eq_ok_valueOr hlist []

/-- Where the columns have values on the rows left out, the two trees have the same relation. Each
side is brought into the form of a walk over the rows and a window, and then `walk_window` exchanges
the two. -/
theorem relation_hoisted (hcs : cs.any (fun c => c.expr.hasAggregate) = false)
    (h : DefinedOutside tables w cs x) :
    relation tables (hoisted q cs w x) = relation tables (asWritten q cs w x) := by
  have hhoisted : relation tables (hoisted q cs w x) =
      relation tables x >>= fun r =>
        (do
          let rows ← r.projectRows cs []
          let skipped ← rowCount w.skip
          let taken ← rowCount w.take
          pure (window skipped taken rows)) >>= fun rows => pure ⟨projectedColumns q cs, rows⟩ := by
    simp only [hoisted, relation, Relation.project, bind_assoc, pure_bind]
    rfl
  have hasWritten : relation tables (asWritten q cs w x) =
      relation tables x >>= fun r =>
        (do
          let skipped ← rowCount w.skip
          let taken ← rowCount w.take
          Relation.projectRows ⟨r.columns, window skipped taken r.rows⟩ cs []) >>= fun rows =>
          pure ⟨projectedColumns q cs, rows⟩ := by
    simp only [asWritten, relation, Relation.project, bind_assoc, pure_bind]
    rfl
  rw [hhoisted, hasWritten]
  cases hr : relation tables x with
  | error fault => rfl
  | ok r =>
    exact congrArg
      (fun walk => walk >>= fun rows => pure (Relation.mk (projectedColumns q cs) rows))
      (projectRows_window hcs (h r hr))

/-- An ordering without keys changes nothing. -/
theorem relation_order_nil (tables : Tables) (e : Expr) :
    relation tables (.order e []) = relation tables e := by
  cases hr : relation tables e with
  | error fault =>
    have horder : relation tables (.order e []) =
      relation tables e >>= fun r => liftEval (r.sort []) := rfl
    rw [horder, hr]
    rfl
  | ok r =>
    refine relation_order_eq_ok_iff.2 ⟨r, hr, fun k hk => absurd hk List.not_mem_nil, ?_⟩
    rw [sortBy_rowCompare_nil]

/-- The result of the limit over the projection is that of the projection over the limit, if the
columns have values on the rows that the limit leaves out. -/
theorem run_hoisted (h : e = asWritten q cs w x ∨ e = .order (asWritten q cs w x) [])
    (hcs : cs.any (fun c => c.expr.hasAggregate) = false) (hdef : DefinedOutside tables w cs x) :
    run tables (hoisted q cs w x) = run tables e := by
  have hrelation : relation tables e = relation tables (hoisted q cs w x) := by
    rw [relation_hoisted hcs hdef]
    rcases h with rfl | rfl
    · rfl
    · exact relation_order_nil tables _
  have hrel : e.isRelational = true := by
    rcases h with rfl | rfl
    · rfl
    · rfl
  rw [run, run, if_pos hrel, hrelation]
  rfl

/-- What is left out was there. -/
theorem mem_of_mem_leftOut {rows : List Row} {row : Row} (h : row ∈ leftOut w rows) :
    row ∈ rows := by
  unfold leftOut at h
  split at h
  next skipped taken _ _ =>
    obtain ⟨before, after, hrows, houtside⟩ := exists_eq_append_window skipped taken rows
    rw [houtside, List.mem_append] at h
    rw [hrows, List.mem_append, List.mem_append]
    exact h.imp_left .inl
  next => exact h

/-- If the hoisted tree has a result, the columns have values on the rows left out too. -/
theorem definedOutside_of_run_hoisted {v : Value}
    (hcs : cs.any (fun c => c.expr.hasAggregate) = false)
    (h : run tables (hoisted q cs w x) = .ok v) : DefinedOutside tables w cs x := by
  obtain ⟨s, hs, _⟩ := (run_eq_ok_iff rfl).1 h
  obtain ⟨_, _, _, hproject, _⟩ := relation_limit_eq_ok_iff.1 hs
  obtain ⟨r, rows, hr, hrows, _⟩ := relation_project_eq_ok_iff.1 hproject
  obtain ⟨hdef, _⟩ := (projectRows_eq_ok_iff hcs).1 hrows
  intro r' hr' c hc
  obtain rfl : r = r' := Except.ok.inj (hr.symm.trans hr')
  exact (hdef c hc).mono fun row hrow => mem_of_mem_leftOut hrow

/-- A tree whose block takes up a limit below its projection has the text of the limit over the
projection. Without aggregates in the columns the two have the same result, if the columns have
values on the rows that the limit leaves out, and otherwise the limit over the projection fails. -/
theorem exists_hoisted_of_innerLimit {e : Expr} {w : Window}
    (h : (Block.split e).innerLimit = some w) :
    ∃ q cs x, (e = asWritten q cs w x ∨ e = .order (asWritten q cs w x) []) ∧
      (∀ d, Sql.query d (hoisted q cs w x) = Sql.query d e) ∧
      (cs.any (fun c => c.expr.hasAggregate) = false → ∀ tables,
        (DefinedOutside tables w cs x → run tables (hoisted q cs w x) = run tables e) ∧
        ∀ v, run tables (hoisted q cs w x) = .ok v ↔
          run tables e = .ok v ∧ DefinedOutside tables w cs x) := by
  obtain ⟨q, cs, x, hshape⟩ := Block.innerLimit_split_eq_some_iff.1 h
  refine ⟨q, cs, x, hshape, fun d => Sql.query_hoisted hshape, fun hcs tables => ?_⟩
  refine ⟨run_hoisted hshape hcs, fun v => ?_⟩
  constructor
  · intro hv
    have hdef := definedOutside_of_run_hoisted hcs hv
    exact ⟨(run_hoisted hshape hcs hdef).symm.trans hv, hdef⟩
  · rintro ⟨hv, hdef⟩
    exact (run_hoisted hshape hcs hdef).trans hv

/-- Two readings, of which the second is zero. -/
def readings : Tables := [("t", ⟨["a"], [[.int 4], [.int 0]]⟩)]

/-- The readings. -/
def readingScan : Expr := mkScan (source ⟨"t", none⟩) "t"

/-- The reading and one more. -/
def oneMore : List Column := [⟨"n", mkBinary .plus (.column "t" "a" .int64) (.int 1)⟩]

/-- The second row only. -/
def secondOnly : Window := ⟨some (.int 1), some (.int 1)⟩

/-- An ordering without keys does not stand in the way: the limit is taken up, and the rows agree.
-/
theorem exists_hoisted_of_innerLimit_secondOnly :
    (Block.split (.order (asWritten "x" oneMore secondOnly readingScan) [])).innerLimit =
        some secondOnly ∧
      (∀ d, Sql.query d (hoisted "x" oneMore secondOnly readingScan) =
        Sql.query d (.order (asWritten "x" oneMore secondOnly readingScan) [])) ∧
      run readings (hoisted "x" oneMore secondOnly readingScan) =
        run readings (.order (asWritten "x" oneMore secondOnly readingScan) []) := by
  have hlimit :
      (Block.split (.order (asWritten "x" oneMore secondOnly readingScan) [])).innerLimit =
        some secondOnly := rfl
  obtain ⟨q, cs, x, heq | heq, hquery, hrun⟩ := exists_hoisted_of_innerLimit hlimit
  · cases heq
  · cases heq
    refine ⟨hlimit, hquery, (hrun rfl readings).1 fun r hr => ?_⟩
    cases hr
    exact List.forall_mem_singleton.2 (List.forall_mem_singleton.2 rfl)

/-- The first row only. -/
def firstOnly : Window := ⟨some (.int 1), none⟩

/-- The number of rows. -/
def number : List Column := [⟨"n", mkAggregate .count none false⟩]

/-- Twelve divided by the reading, which is no number for a reading of zero. -/
def twelveParts : List Column := [⟨"n", mkBinary .divide (.int 12) (.column "t" "a" .int64)⟩]

/-- The number of the readings that the limit keeps is one, while the limit keeps the number of all
readings, which is two. The other projection has no aggregate, but no value on the reading that the
limit leaves out. -/
theorem run_hoisted_ne_run_asWritten :
    ((Block.split (asWritten "x" number firstOnly readingScan)).innerLimit = some firstOnly ∧
      run readings (asWritten "x" number firstOnly readingScan) =
        .ok (.rows ⟨["n"], [[.int 1]]⟩) ∧
      run readings (hoisted "x" number firstOnly readingScan) =
        .ok (.rows ⟨["n"], [[.int 2]]⟩)) ∧
    ((Block.split (asWritten "x" twelveParts firstOnly readingScan)).innerLimit = some firstOnly ∧
      run readings (asWritten "x" twelveParts firstOnly readingScan) =
        .ok (.rows ⟨["n"], [[.int 3]]⟩) ∧
      run readings (hoisted "x" twelveParts firstOnly readingScan) =
        .error (.eval .divisionByZero)) :=
  ⟨⟨rfl, rfl, rfl⟩, rfl, rfl, rfl⟩

end Expr

end QueryTree
