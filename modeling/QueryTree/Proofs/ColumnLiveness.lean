import QueryTree.Proofs.Scope

/-!
# Which columns elimination leaves

A column of a projection is live when an expression above reads it: a clause of a filter, an
ordering, a limit or a join on the way up to the next projection, or a column or grouping key of
that projection. Elimination leaves the live columns and no others, apart from the columns of an
output and of DISTINCT, and from the one column that a projection must have (`deadColumns_exact`).
Live is meant in the tree that is left: what only a dropped column reads is dropped with it. So a
second elimination finds nothing to do.

The walk carries two things down: the columns that are read above, and whether the columns here are
an output. `Demand` says what these are in terms of the nodes above, each step down keeps it
(`Demand.step`), and so it holds at the end of every path (`follow_prune`).

Only the relations that relations read are walked through. A query inside a scalar has a scope of
its own and is left as it is (`deadColumns_whereFirstExists`).
-/

namespace QueryTree

namespace Expr

/-! ### Live columns -/

/-- The scalar refers to the column, outside of the queries that it contains. -/
inductive Refers (q name : String) : Expr → Prop
  | column (t : LogicalType) : Refers q name (.column q name t)
  | inside {e c : Expr} (hscalar : e.isRelational = false) (hc : c ∈ e.children)
    (h : Refers q name c) : Refers q name e

/-- The references that the pass collects are those that stand outside of inner queries. One
direction is by induction on the tree, the other on the derivation of `Refers`. At an inner query
the collection stops, and no rule of `Refers` leads into it. -/
theorem mem_columnRefs_iff {q name : String} {e : Expr} :
    (⟨q, name⟩ : ColumnRef) ∈ e.columnRefs ↔ Refers q name e := by
  constructor
  · intro h
    induction e using childInduction with
    | h e ih =>
      cases hrel : e.isRelational with
      | true =>
        rw [columnRefs_of_isRelational hrel] at h
        cases h
      | false =>
        by_cases hcol : ∃ a n t, e = .column a n t
        · obtain ⟨a, n, t, rfl⟩ := hcol
          obtain ⟨rfl, rfl⟩ := ColumnRef.mk.inj (List.mem_singleton.1 h)
          exact .column t
        · rw [columnRefs_eq_flatMap hrel fun a n t heq => hcol ⟨a, n, t, heq⟩] at h
          obtain ⟨c, hc, h⟩ := List.mem_flatMap.1 h
          exact .inside hrel hc (ih c hc h)
  · intro h
    induction h with
    | column t => exact List.mem_singleton.2 rfl
    | @inside e c hscalar hc _ ih =>
      have hcol : ∀ a n t, e ≠ .column a n t := by
        rintro a n t rfl
        cases hc
      rw [columnRefs_eq_flatMap hscalar hcol]
      exact List.mem_flatMap.2 ⟨c, hc, ih⟩

/-- The expressions of a relational node. -/
def clauses : Expr → List Expr
  | limit _ take skip => take.toList ++ skip.toList
  | e => e.rowScalars

/-- Nodes above this one do not refer to columns from below it. -/
def endsScope : Expr → Bool
  | project .. | setOp .. => true
  | _ => false

/-- The expressions in whose scope the columns of a node are, from the nodes above it. -/
def readers : List Expr → List Expr
  | [] => []
  | n :: above => n.clauses ++ if n.endsScope then [] else readers above

/-- The columns of a node are an output, of the whole tree or of a branch of a set operation. -/
def isOutput : List Expr → Bool
  | [] => true
  | project .. :: _ => false
  | setOp .. :: _ => true
  | _ :: above => isOutput above

/-- An expression above refers to the column. -/
def Live (above : List Expr) (q : String) (c : Column) : Prop :=
  ∃ x ∈ readers above, Refers q c.name x

/-- The columns `cs'` are what is left of the columns `cs` of a projection: all of an output and of
DISTINCT, else the live ones, or the first if none is live. -/
structure LiveColumns (above : List Expr) (q : String) (distinct : Bool) (cs cs' : List Column) :
    Prop where
  sublist : cs'.Sublist cs
  fixed : isOutput above = true ∨ distinct = true → cs' = cs
  live_kept : ∀ c ∈ cs, Live above q c → c ∈ cs'
  kept_live : isOutput above = false → distinct = false →
    ∀ c ∈ cs', Live above q c ∨ cs' = [c] ∧ cs.head? = some c
  first_kept : isOutput above = false → distinct = false → (∀ c ∈ cs, ¬ Live above q c) →
    cs' = cs.take 1

/-! ### Paths -/

/-- The node that a path of input numbers leads to, and the nodes on the way, the nearest first. -/
def follow : List Nat → List Expr → Expr → Option (List Expr × Expr)
  | [], above, n => some (above, n)
  | i :: path, above, n => n.inputs[i]?.bind (follow path (n :: above))

/-- The columns that are carried down are those that the expressions above refer to. -/
structure Demand (needed : List ColumnRef) (output : Bool) (above : List Expr) : Prop where
  needed_iff : ∀ ref, ref ∈ needed ↔ ∃ x ∈ readers above, ref ∈ x.columnRefs
  output_eq : isOutput above = output

variable {needed : List ColumnRef} {output : Bool} {above : List Expr}

/-- At the root nothing is read from above, and the columns are the output. -/
theorem Demand.root : Demand [] true [] :=
  ⟨fun ref => by simp [readers], rfl⟩

/-- A node that ends no scope adds the columns of its clauses. -/
theorem Demand.clauses (h : Demand needed output above) {n : Expr} (hscope : n.endsScope = false)
    {refs : List ColumnRef} (hrefs : refs = n.clauses.flatMap columnRefs) :
    Demand (needed ++ refs) output (n :: above) where
  needed_iff ref := by
    rw [readers, hscope, hrefs]
    simp only [List.mem_append, h.needed_iff, List.mem_flatMap, Bool.false_eq_true, if_false,
      or_and_right, exists_or]
    exact or_comm
  output_eq := by
    cases n <;> first | exact h.output_eq | cases hscope

/-- Below a projection its columns and grouping keys are all that is read. -/
theorem Demand.project (above : List Expr) (q : String) (input : Expr) (cs : List Column) (d : Bool)
    (gs : List Expr) : Demand (columnsRead cs gs) false (.project q input cs d gs :: above) where
  needed_iff ref := by
    rw [columnsRead, columnRefsList_eq, columnRefsList_eq, ← List.flatMap_append, List.mem_flatMap]
    simp [readers, Expr.clauses, rowScalars, endsScope]
  output_eq := rfl

/-- Below a set operation nothing is read by name, and the columns are an output. -/
theorem Demand.setOp (above : List Expr) (op : SetOperator) (all : Bool) (l r : Expr) (q : String) :
    Demand [] true (.setOp op all l r q :: above) where
  needed_iff ref := by simp [readers, Expr.clauses, rowScalars, endsScope]
  output_eq := rfl

/-- One step down: the inputs of a pruned node are pruned for what is read above them. -/
theorem Demand.step (h : Demand needed output above) (e : Expr) :
    ∃ needed' output', Demand needed' output' (e.prune needed output :: above) ∧
      (e.prune needed output).inputs = e.inputs.map (prune needed' output') := by
  have hclauses {n : Expr} (hscope : n.endsScope = false) {refs : List ColumnRef}
      (hrefs : refs = n.clauses.flatMap columnRefs) := h.clauses hscope hrefs
  cases e with
  | project q input cs d gs => exact ⟨_, _, .project .., rfl⟩
  | setOp op all l r q => exact ⟨_, _, .setOp .., rfl⟩
  | filter input p =>
    exact ⟨_, _, hclauses rfl (List.append_nil _).symm, rfl⟩
  | order input ks =>
    exact ⟨_, _, hclauses rfl (by rw [columnRefsList_eq]; rfl), rfl⟩
  | limit input take skip =>
    refine ⟨needed ++ (columnRefsOption take ++ columnRefsOption skip), output, hclauses rfl ?_, ?_⟩
    · rw [columnRefsOption_eq, columnRefsOption_eq, ← List.flatMap_append]
      rfl
    · rw [prune, List.append_assoc]
      rfl
  | join kind l r on =>
    exact ⟨_, _, hclauses rfl (by rw [columnRefsOption_eq]; rfl), rfl⟩
  | _ => exact ⟨needed ++ [], output, hclauses rfl rfl, rfl⟩

/-- A whole path: the same path leads to a node and to what is left of it, pruned for what is read
above. -/
theorem follow_prune (path : List Nat) {e : Expr} (before : List Expr)
    (h : Demand needed output above) :
    Option.Rel (fun p p' => ∃ needed' output', Demand needed' output' p'.1 ∧
        p'.2 = p.2.prune needed' output')
      (follow path before e) (follow path above (e.prune needed output)) := by
  induction path generalizing e before above needed output with
  | nil => exact .some ⟨needed, output, h, rfl⟩
  | cons i path ih =>
    obtain ⟨needed', output', h', hinputs⟩ := h.step e
    rw [follow, follow, hinputs, List.getElem?_map]
    cases e.inputs[i]? with
    | none => exact .none
    | some input => exact ih (e :: before) h'

/-! ### What is left of a projection -/

section Columns

variable (needed : List ColumnRef) (q : String) (cs : List Column)

/-- The columns that are read are kept; if there are none, the first is. -/
theorem keptColumns_cases :
    (keptColumns needed q cs = (cs.filter fun c => needed.contains ⟨q, c.name⟩) ∧
        ∃ c ∈ cs, (⟨q, c.name⟩ : ColumnRef) ∈ needed) ∨
      keptColumns needed q cs = cs.take 1 ∧ ∀ c ∈ cs, (⟨q, c.name⟩ : ColumnRef) ∉ needed := by
  unfold keptColumns
  simp only [List.isEmpty_iff, List.filter_eq_nil_iff, List.contains_iff_mem]
  split
  next hunread => exact .inr ⟨rfl, hunread⟩
  next hread =>
    push Not at hread
    exact .inl ⟨rfl, hread⟩

/-- Columns keep their order. -/
theorem keptColumns_sublist : (keptColumns needed q cs).Sublist cs := by
  rcases keptColumns_cases needed q cs with ⟨h, _⟩ | ⟨h, _⟩
  · rw [h]
    exact List.filter_sublist
  · rw [h]
    exact List.take_sublist 1 cs

/-- Keeping twice is keeping once. -/
theorem keptColumns_keptColumns :
    keptColumns needed q (keptColumns needed q cs) = keptColumns needed q cs := by
  rcases keptColumns_cases needed q cs with ⟨h, c, hc, hneeded⟩ | ⟨h, hunread⟩
  · have hkept : c ∈ cs.filter fun c => needed.contains ⟨q, c.name⟩ :=
      List.mem_filter.2 ⟨hc, List.contains_iff_mem.2 hneeded⟩
    rw [h]
    rcases keptColumns_cases needed q (cs.filter fun c => needed.contains ⟨q, c.name⟩) with
      ⟨h', _⟩ | ⟨_, hunread⟩
    · rw [h', List.filter_filter]
      simp only [Bool.and_self]
    · exact absurd hneeded (hunread c hkept)
  · rw [h]
    rcases keptColumns_cases needed q (cs.take 1) with ⟨_, c, hc, hneeded⟩ | ⟨h', _⟩
    · exact absurd hneeded (hunread c (List.mem_of_mem_take hc))
    · rw [h', List.take_take, Nat.min_self]

end Columns

/-- A column is asked for exactly if it is live. -/
theorem Demand.needed_iff_live (h : Demand needed output above) {q : String} {c : Column} :
    (⟨q, c.name⟩ : ColumnRef) ∈ needed ↔ Live above q c := by
  simp only [h.needed_iff, mem_columnRefs_iff, Live]

/-- What is among the first one element of a list is that element. -/
theorem eq_of_mem_take_one {α : Type} {l : List α} {a : α} (h : a ∈ l.take 1) :
    l.take 1 = [a] ∧ l.head? = some a := by
  cases l with
  | nil => cases h
  | cons b l =>
    obtain rfl := List.mem_singleton.1 h
    exact ⟨rfl, rfl⟩

/-- A projection is left with its live columns, when the walk has come down with what is read above.
-/
theorem Demand.liveColumns (h : Demand needed output above) (q : String) (d : Bool)
    (cs : List Column) : LiveColumns above q d cs (survivingColumns needed output d q cs) := by
  unfold survivingColumns
  split
  next hfixed =>
    have hpruned : isOutput above = false → d = false → False := by
      intro houtput hdistinct
      rw [← h.output_eq, houtput, hdistinct] at hfixed
      cases hfixed
    exact ⟨.refl cs, fun _ => rfl, fun c hc _ => hc,
      fun houtput hdistinct => (hpruned houtput hdistinct).elim,
      fun houtput hdistinct => (hpruned houtput hdistinct).elim⟩
  next hpruned =>
    rw [Bool.not_eq_true, Bool.or_eq_false_iff, ← h.output_eq] at hpruned
    refine ⟨keptColumns_sublist needed q cs, fun hfixed => ?_, fun c hc hlive => ?_,
      fun _ _ c hc => ?_, fun _ _ hdead => ?_⟩
    · rcases hfixed with hfixed | hfixed
      · cases hpruned.1.symm.trans hfixed
      · cases hpruned.2.symm.trans hfixed
    · rw [← h.needed_iff_live] at hlive
      rcases keptColumns_cases needed q cs with ⟨hkept, _⟩ | ⟨_, hunread⟩
      · rw [hkept]
        exact List.mem_filter.2 ⟨hc, List.contains_iff_mem.2 hlive⟩
      · exact absurd hlive (hunread c hc)
    · rcases keptColumns_cases needed q cs with ⟨hkept, _⟩ | ⟨hkept, _⟩
      · rw [hkept] at hc
        exact .inl (h.needed_iff_live.1 (List.contains_iff_mem.1 (List.mem_filter.1 hc).2))
      · rw [hkept] at hc ⊢
        exact .inr (eq_of_mem_take_one hc)
    · rcases keptColumns_cases needed q cs with ⟨_, c, hc, hneeded⟩ | ⟨hkept, _⟩
      · exact absurd (h.needed_iff_live.1 hneeded) (hdead c hc)
      · exact hkept

/-! ### A second elimination -/

/-- The columns that are left are all left by a second elimination. -/
theorem survivingColumns_survivingColumns (needed : List ColumnRef) (output d : Bool) (q : String)
    (cs : List Column) :
    survivingColumns needed output d q (survivingColumns needed output d q cs) =
      survivingColumns needed output d q cs := by
  unfold survivingColumns
  split
  · rfl
  · exact keptColumns_keptColumns needed q cs

/-- A projection is pruned from its surviving columns down. -/
theorem prune_project (needed : List ColumnRef) (output : Bool) (q : String) (input : Expr)
    (cs : List Column) (d : Bool) (gs : List Expr) :
    (project q input cs d gs).prune needed output =
      .project q (input.prune (columnsRead (survivingColumns needed output d q cs) gs) false)
        (survivingColumns needed output d q cs) d gs := rfl

/-- Both sides of a join are pruned for the same readers. -/
theorem prune_join (needed : List ColumnRef) (output : Bool) (kind : JoinKind) (l r : Expr)
    (on : Option Expr) :
    (join kind l r on).prune needed output =
      .join kind (l.prune (needed ++ columnRefsOption on) output)
        (r.prune (needed ++ columnRefsOption on) output) on := rfl

/-- What is left is all that is read, so pruning it again for the same readers changes nothing. -/
theorem prune_prune (e : Expr) (needed : List ColumnRef) (output : Bool) :
    (e.prune needed output).prune needed output = e.prune needed output := by
  induction e using treeInduction generalizing needed output with
  | project q input cs d gs ih _ _ =>
    rw [prune_project, prune_project, survivingColumns_survivingColumns, ih]
  | filter input p ih _ => rw [prune, prune, ih]
  | order input ks ih _ => rw [prune, prune, ih]
  | limit input take skip ih _ _ => rw [prune, prune, ih]
  | join kind l r on ihl ihr _ =>
    rw [prune_join, prune_join, ihl, ihr]
  | setOp op all l r q ihl ihr => rw [prune, prune, ihl, ihr]
  | _ => rfl

/-- What is left of a tree is a projection only where the tree was one. -/
theorem exists_of_prune_eq_project {e input' : Expr} {q : String} {cs' : List Column} {d : Bool}
    {gs : List Expr} (h : e.prune needed output = .project q input' cs' d gs) :
    ∃ input cs, e = .project q input cs d gs ∧ cs' = survivingColumns needed output d q cs := by
  cases e with
  | project q₀ input cs d₀ gs₀ =>
    rw [prune_project] at h
    injection h with hq _ hcs hd hgs
    subst hq hd hgs
    exact ⟨input, cs, rfl, hcs.symm⟩
  | _ => cases h

/-- The columns that elimination leaves of each projection that relations lead to are the live ones
in the tree that is left, and the same path leads to a projection before and after. A second
elimination changes nothing. -/
theorem deadColumns_exact (e : Expr) :
    ∃ e', Pass.deadColumns.run e = .ok e' ∧
      (∀ path above' q input' cs' d gs,
        follow path [] e' = some (above', .project q input' cs' d gs) →
          ∃ above input cs, follow path [] e = some (above, .project q input cs d gs) ∧
            LiveColumns above' q d cs cs') ∧
      (∀ path above q input cs d gs, follow path [] e = some (above, .project q input cs d gs) →
        ∃ above' input' cs', follow path [] e' = some (above', .project q input' cs' d gs)) ∧
      Pass.deadColumns.run e' = .ok e' := by
  have hpaths path := follow_prune path (e := e) [] Demand.root
  refine ⟨e.prune [] true, rfl, fun path above' q input' cs' d gs h => ?_,
    fun path above q input cs d gs h => ?_, congrArg Except.ok (prune_prune e [] true)⟩
  · have hpath := hpaths path
    rw [h] at hpath
    generalize follow path [] e = found at hpath
    cases hpath with
    | @some p _ hp =>
      obtain ⟨needed, output, hdemand, hpruned⟩ := hp
      obtain ⟨input, cs, heq, rfl⟩ := exists_of_prune_eq_project hpruned.symm
      exact ⟨p.1, input, cs, by rw [← heq], hdemand.liveColumns q d cs⟩
  · have hpath := hpaths path
    rw [h] at hpath
    generalize follow path [] (e.prune [] true) = found at hpath
    cases hpath with
    | @some _ p' hp =>
      obtain ⟨needed, output, _, hpruned⟩ := hp
      exact ⟨p'.1, _, _, congrArg (fun n => some (p'.1, n)) hpruned⟩

-- The column `b` of `p` is read by `q.b` only, which nothing reads. The filter reads `c`.
example :
    let rows := mkScan (source ⟨"t", none⟩) "t"
    let column (q n : String) : Expr := .column q n .int64
    let inner (cs : List Column) : Expr :=
      .filter (.project "p" rows cs false []) (mkBinary .gt (column "p" "c") (.int 0))
    let outer (cs : List Column) (input : Expr) : Expr :=
      .project "o" (.project "q" input cs false []) [⟨"x", column "q" "a"⟩] false []
    let a : Column := ⟨"a", column "t" "a"⟩
    let b : Column := ⟨"b", column "t" "b"⟩
    let c : Column := ⟨"c", column "t" "c"⟩
    Pass.deadColumns.run
        (outer [⟨"a", column "p" "a"⟩, ⟨"b", column "p" "b"⟩] (inner [a, b, c])) =
      .ok (outer [⟨"a", column "p" "a"⟩] (inner [a, c])) := rfl

/-- A projection of two columns. -/
def pairs : Expr :=
  .project "p" (mkScan (source ⟨"s", none⟩) "s")
    [⟨"a", .column "s" "a" .int64⟩, ⟨"b", .column "s" "b" .int64⟩] false []

/-- A predicate with a query in it, which reads the first column of the pairs. -/
def whereFirstExists : Expr :=
  .filter (mkScan (source ⟨"t", none⟩) "t")
    (.call "exists" [.project "q" pairs [⟨"a", .column "p" "a" .int64⟩] false []] .bool)

/-- This column, of whatever type. -/
def isReference (q name : String) : Expr → Bool
  | .column q' name' _ => q' == q && name' == name
  | _ => false

/-- Inside a scalar nothing is dropped, although nothing refers to the second column of the pairs.
-/
theorem deadColumns_whereFirstExists :
    Pass.deadColumns.run whereFirstExists = .ok whereFirstExists ∧ pairs ∈ whereFirstExists.nodes ∧
      ∀ t, column "p" "b" t ∉ whereFirstExists.nodes := by
  have hunread : whereFirstExists.nodes.any (isReference "p" "b") = false := rfl
  refine ⟨rfl, List.mem_of_getElem? (i := 5) rfl, fun t ht => ?_⟩
  exact List.any_eq_false.1 hunread _ ht rfl

end Expr

end QueryTree
