import QueryTree.Pipeline
import QueryTree.Proofs.DeadColumns
import QueryTree.Proofs.KeyExposure
import QueryTree.Proofs.LoweredAnswers

/-!
# Scoping

A scalar of a relational node may refer to the columns that the inputs of the node show: a scan
shows the columns of its table under its alias, a projection and a set operation show theirs under
their own, filters, orderings and limits show what their input shows, and a join shows both sides.
A tree is well scoped when no reference in it dangles.

Each pass of a pipeline keeps this, for a reason of its own. Lifting an ordering carries keys up and
may only add columns to what a node shows (`lift_lifted`); lowering drops references and merges
nodes that show the same columns (`keeps_lower`); elimination of dead columns drops columns that
nothing above refers to (`scopedRelation_prune`). Hence a pipeline that has no other passes keeps
it.
-/

namespace QueryTree

/-- The columns of the tables at hand: of those that have a name, and of those that are handed in as
parameters. -/
structure Schema where
  table : String → List String
  parameter : String → List String

namespace Schema

variable (schema : Schema)

/-- The columns of the table that the source of a scan stands for. -/
def columnsOf (source : Expr) : List String :=
  match source.fold with
  | .const (.source s) _ => schema.table s.table
  | .param name _ => schema.parameter name
  | _ => []

/-- The columns of tables. -/
def ofTables (tables : Tables) : Schema where
  table name := ((tables.find? name).map (·.columns)).getD []
  parameter _ := []

end Schema

namespace Expr

open Attempt

/-! ### Well-scoped trees -/

/-- The relations that a relational node reads. -/
def inputs : Expr → List Expr
  | filter input _ | project _ input _ _ _ | order input _ | limit input _ _ => [input]
  | join _ left right _ | setOp _ _ left right _ => [left, right]
  | _ => []

/-- The scalars that a relational node computes on the rows of its inputs. -/
def rowScalars : Expr → List Expr
  | filter _ predicate => [predicate]
  | project _ _ columns _ groupBy => columns.map (·.expr) ++ groupBy
  | order _ keys => keys.map (·.expr)
  | join _ _ _ on => on.toList
  | _ => []

/-- The columns that a relation shows to the node above it. -/
def visible (schema : Schema) : Expr → List ColumnRef
  | scan source qualifier _ => (schema.columnsOf source).map fun name => ⟨qualifier, name⟩
  | filter input _ | order input _ | limit input _ _ => visible schema input
  | project qualifier _ columns _ _ => columns.map fun c => ⟨qualifier, c.name⟩
  | join _ left right _ => visible schema left ++ visible schema right
  | setOp _ _ left _ qualifier => (visible schema left).map fun ref => ⟨qualifier, ref.name⟩
  | _ => []

/-- The inputs of a node are relations, and its scalars refer to columns that these show. -/
def ScopedNode (schema : Schema) (e : Expr) : Prop :=
  (∀ input ∈ e.inputs, input.isRelational = true) ∧
    ∀ s ∈ e.rowScalars, ∀ ref ∈ s.columnRefs, ref ∈ e.inputs.flatMap (visible schema)

/-- No reference of the tree dangles, also inside the queries that its scalars contain. -/
def WellScoped (schema : Schema) (e : Expr) : Prop := ∀ n ∈ e.nodes, ScopedNode schema n

instance (schema : Schema) (e : Expr) : Decidable (WellScoped schema e) :=
  inferInstanceAs (Decidable (∀ n ∈ e.nodes, (∀ input ∈ n.inputs, input.isRelational = true) ∧
    ∀ s ∈ n.rowScalars, ∀ ref ∈ s.columnRefs, ref ∈ n.inputs.flatMap (visible schema)))

/-- A well-scoped relation. -/
def ScopedRelation (schema : Schema) (e : Expr) : Prop :=
  e.isRelational = true ∧ WellScoped schema e

/-- A scalar on rows with the given columns. -/
def Reads (schema : Schema) (columns : List ColumnRef) (s : Expr) : Prop :=
  (∀ ref ∈ s.columnRefs, ref ∈ columns) ∧ WellScoped schema s

theorem append_subset_append {ls ls' rs rs' : List ColumnRef} (hl : ∀ ref ∈ ls, ref ∈ ls')
    (hr : ∀ ref ∈ rs, ref ∈ rs') : ∀ ref ∈ ls ++ rs, ref ∈ ls' ++ rs' := by
  intro ref href
  rcases List.mem_append.1 href with href | href
  · exact List.mem_append_left _ (hl ref href)
  · exact List.mem_append_right _ (hr ref href)

section WellScoped

variable {schema : Schema} {e i l r s p : Expr}

/-- A scalar can be read where there are more columns. -/
theorem Reads.mono {columns columns' : List ColumnRef} (h : Reads schema columns s)
    (hsub : ∀ ref ∈ columns, ref ∈ columns') : Reads schema columns' s :=
  ⟨fun ref href => hsub ref (h.1 ref href), h.2⟩

/-- A tree is well scoped if its root is and its subtrees are. -/
theorem wellScoped_iff :
    WellScoped schema e ↔ ScopedNode schema e ∧ ∀ c ∈ e.children, WellScoped schema c :=
  forall_mem_nodes_iff

/-- A scalar node has no scope of its own. -/
theorem wellScoped_of_scalar (h : e.isRelational = false) :
    WellScoped schema e ↔ ∀ c ∈ e.children, WellScoped schema c := by
  have hinputs : e.inputs = [] := by cases e <;> first | rfl | cases h
  have hscalars : e.rowScalars = [] := by cases e <;> first | rfl | cases h
  rw [wellScoped_iff]
  simp [ScopedNode, hinputs, hscalars]

/-- What a node reads and computes is named in full here, so that the lemmas on the single nodes do
not unfold the definitions over all of them. -/
theorem wellScoped_node (e : Expr) (inputs scalars children : List Expr) (hinputs : e.inputs = inputs)
    (hscalars : e.rowScalars = scalars) (hchildren : e.children = children) :
    WellScoped schema e ↔
      ((∀ input ∈ inputs, input.isRelational = true) ∧
        ∀ s ∈ scalars, ∀ ref ∈ s.columnRefs, ref ∈ inputs.flatMap (visible schema)) ∧
      ∀ c ∈ children, WellScoped schema c := by
  subst hinputs hscalars hchildren
  exact wellScoped_iff

theorem wellScoped_scan {a : String} {t : LogicalType} :
    WellScoped schema (.scan s a t) ↔ WellScoped schema s := by
  rw [wellScoped_node (.scan s a t) [] [] [s] rfl rfl rfl]
  simp

/-- A filter is well scoped if its predicate reads columns of its input. -/
theorem wellScoped_filter :
    WellScoped schema (.filter i p) ↔
      ScopedRelation schema i ∧ Reads schema (visible schema i) p := by
  rw [wellScoped_node (.filter i p) [i] [p] [i, p] rfl rfl rfl]
  simp [ScopedRelation, Reads]
  tauto

/-- A projection is well scoped if its columns and groups read columns of its input. -/
theorem wellScoped_project {q : String} {cs : List Column} {d : Bool} {gs : List Expr} :
    WellScoped schema (.project q i cs d gs) ↔
      ScopedRelation schema i ∧ (∀ c ∈ cs, Reads schema (visible schema i) c.expr) ∧
        ∀ g ∈ gs, Reads schema (visible schema i) g := by
  rw [wellScoped_node (.project q i cs d gs) [i] (cs.map (·.expr) ++ gs)
    (i :: cs.map (·.expr) ++ gs) rfl rfl rfl]
  simp [ScopedRelation, Reads, or_imp, forall_and]
  tauto

/-- An ordering is well scoped if its keys read columns of its input. -/
theorem wellScoped_order {ks : List OrderKey} :
    WellScoped schema (.order i ks) ↔
      ScopedRelation schema i ∧ ∀ k ∈ ks, Reads schema (visible schema i) k.expr := by
  rw [wellScoped_node (.order i ks) [i] (ks.map (·.expr)) (i :: ks.map (·.expr)) rfl rfl rfl]
  simp [ScopedRelation, Reads, forall_and]
  tauto

/-- A limit reads no columns. -/
theorem wellScoped_limit {take skip : Option Expr} :
    WellScoped schema (.limit i take skip) ↔
      ScopedRelation schema i ∧ (∀ c ∈ take, WellScoped schema c) ∧
        ∀ c ∈ skip, WellScoped schema c := by
  rw [wellScoped_node (.limit i take skip) [i] [] (i :: take.toList ++ skip.toList) rfl rfl rfl]
  simp [ScopedRelation, or_imp, forall_and]
  tauto

/-- A join is well scoped if its condition reads columns of the two sides. -/
theorem wellScoped_join {k : JoinKind} {on : Option Expr} :
    WellScoped schema (.join k l r on) ↔
      ScopedRelation schema l ∧ ScopedRelation schema r ∧
        ∀ c ∈ on, Reads schema (visible schema l ++ visible schema r) c := by
  rw [wellScoped_node (.join k l r on) [l, r] on.toList (l :: r :: on.toList) rfl rfl rfl]
  simp [ScopedRelation, Reads, forall_and]
  tauto

/-- A set operation reads no columns. -/
theorem wellScoped_setOp {op : SetOperator} {all : Bool} {a : String} :
    WellScoped schema (.setOp op all l r a) ↔
      ScopedRelation schema l ∧ ScopedRelation schema r := by
  rw [wellScoped_node (.setOp op all l r a) [l, r] [] [l, r] rfl rfl rfl]
  simp [ScopedRelation]
  tauto

end WellScoped

/-- What a tree shows are the columns of the relation that it denotes. The schema is read off the
tables, so this ties the static notion of scope to the rows that are computed. -/
theorem visible_eq_columns {tables : Tables} {e : Expr} {r : Relation}
    (h : relation tables e = .ok r) :
    visible (.ofTables tables) e = r.columns.map fun c => ⟨c.1, c.2⟩ := by
  induction e using treeInduction generalizing r with
  | scan source qualifier t _ =>
    obtain ⟨v, t', rfl⟩ := exists_const_of_relation_scan h
    cases v with
    | source s =>
      rw [relation, scanTable] at h
      split at h
      next set hset =>
        obtain rfl := Except.ok.inj h
        have hcolumns :
            (Schema.ofTables tables).columnsOf (.const (.source s) t') = set.columns := by
          change ((tables.find? s.table).map (·.columns)).getD [] = set.columns
          rw [hset]
          rfl
        simp [visible, hcolumns]
      next => cases h
    | _ => cases h
  | filter input p ih _ =>
    obtain ⟨s, hs, _, rfl⟩ := relation_filter_eq_ok_iff.1 h
    exact ih (r := s) hs
  | project q input cs d gs _ _ _ =>
    obtain ⟨s, rows, _, _, rfl⟩ := relation_project_eq_ok_iff.1 h
    simp [visible, Relation.projectedColumns]
  | order input ks ih _ =>
    obtain ⟨s, hs, _, rfl⟩ := relation_order_eq_ok_iff.1 h
    exact ih (r := s) hs
  | limit input take skip ih _ _ =>
    obtain ⟨s, _, _, hs, _, _, rfl⟩ := relation_limit_eq_ok_iff.1 h
    exact ih (r := s) hs
  | join k left right on ihl ihr _ =>
    obtain ⟨l, r, hl, hr, h⟩ := relation_join_eq_ok_iff.1 h
    obtain ⟨_, rows, _, rfl⟩ := Relation.join_eq_ok_iff.1 h
    simp [visible, ihl hl, ihr hr]
  | setOp op all left right a ihl _ =>
    obtain ⟨l, r, hl, _, h⟩ := relation_setOp_eq_ok_iff.1 h
    rw [Relation.setOperation] at h
    split at h
    · cases h
    · obtain rfl := Except.ok.inj h
      simp [visible, ihl hl]
  | _ => cases h

end Expr

/-! ### Lifting orderings -/

namespace OrderLifting

open QueryTree.Expr

/-- What lifting makes of a relation: a well-scoped one that shows at least the same columns, and
keys that it can be ordered by. -/
structure Lifted (schema : Schema) (e e' : Expr) (ks : List OrderKey) : Prop where
  relation : ScopedRelation schema e'
  shows : ∀ ref ∈ visible schema e, ref ∈ visible schema e'
  keys : ∀ k ∈ ks, Reads schema (visible schema e') k.expr

section Lifted

variable {schema : Schema} {e e' input input' : Expr} {ks : List OrderKey}

/-- Ordering by keys that can be read keeps the scope and shows the same columns. -/
theorem scopedRelation_orderedBy (h : ScopedRelation schema e)
    (hks : ∀ k ∈ ks, Reads schema (visible schema e) k.expr) :
    ScopedRelation schema (orderedBy ks e) ∧
      visible schema (orderedBy ks e) = visible schema e := by
  unfold orderedBy
  split
  · exact ⟨h, rfl⟩
  · exact ⟨⟨rfl, wellScoped_order.2 ⟨h, hks⟩⟩, rfl⟩

/-- A filter passes lifted keys on, and its predicate reads what it did. -/
theorem Lifted.filter {p : Expr} (h : Lifted schema input input' ks)
    (hp : Reads schema (visible schema input) p) :
    Lifted schema (.filter input p) (.filter input' p) ks where
  relation := ⟨rfl, wellScoped_filter.2 ⟨h.relation, hp.mono h.shows⟩⟩
  shows := h.shows
  keys := h.keys

/-- An ordering adds its keys to the lifted ones. -/
theorem Lifted.order {outer : List OrderKey} (h : Lifted schema input input' ks)
    (houter : ∀ k ∈ outer, Reads schema (visible schema input) k.expr) :
    Lifted schema (.order input outer) input' (mergeKeys outer ks) where
  relation := h.relation
  shows := h.shows
  keys := by
    intro k hk
    rcases mem_of_mem_mergeKeys hk with hk | hk
    · exact (houter k hk).mono h.shows
    · exact h.keys k hk

/-- A limit is put over the lifted keys, and passes them on. -/
theorem Lifted.limit {take skip : Option Expr} (h : Lifted schema input input' ks)
    (htake : ∀ c ∈ take, WellScoped schema c) (hskip : ∀ c ∈ skip, WellScoped schema c) :
    Lifted schema (.limit input take skip) (.limit (orderedBy ks input') take skip) ks := by
  obtain ⟨hrelation, hvisible⟩ := scopedRelation_orderedBy h.relation h.keys
  have hshown : visible schema (.limit (orderedBy ks input') take skip) = visible schema input' :=
    hvisible
  refine ⟨⟨rfl, wellScoped_limit.2 ⟨hrelation, htake, hskip⟩⟩, ?_, ?_⟩
  · rw [hshown]
    exact h.shows
  · rw [hshown]
    exact h.keys

/-- A join passes on the keys of both sides. -/
theorem Lifted.join {left left' right right' : Expr} {ls rs : List OrderKey} {k : JoinKind}
    {on : Option Expr} (hl : Lifted schema left left' ls) (hr : Lifted schema right right' rs)
    (hon : ∀ c ∈ on, Reads schema (visible schema left ++ visible schema right) c) :
    Lifted schema (.join k left right on) (.join k left' right' on) (mergeKeys ls rs) := by
  have hshows : ∀ ref ∈ visible schema left ++ visible schema right,
      ref ∈ visible schema left' ++ visible schema right' :=
    append_subset_append hl.shows hr.shows
  refine ⟨⟨rfl, wellScoped_join.2 ⟨hl.relation, hr.relation, ?_⟩⟩, hshows, ?_⟩
  · intro c hc
    exact (hon c hc).mono hshows
  · intro key hkey
    rcases mem_of_mem_mergeKeys hkey with hkey | hkey
    · exact (hl.keys key hkey).mono fun ref href => List.mem_append_left _ href
    · exact (hr.keys key hkey).mono fun ref href => List.mem_append_right _ href

/-- A set operation passes on no keys. -/
theorem Lifted.setOp {left left' right right' : Expr} {ls rs : List OrderKey} {op : SetOperator}
    {all : Bool} {a : String} (hl : Lifted schema left left' ls)
    (hr : Lifted schema right right' rs) :
    Lifted schema (.setOp op all left right a) (.setOp op all left' right' a) [] where
  relation := ⟨rfl, wellScoped_setOp.2 ⟨hl.relation, hr.relation⟩⟩
  shows := by
    intro ref href
    obtain ⟨inner, hinner, rfl⟩ := List.mem_map.1 href
    exact List.mem_map.2 ⟨inner, hl.shows inner hinner, rfl⟩
  keys := fun k hk => absurd hk List.not_mem_nil

/-! ### Projections over a lifted input -/

variable {q : String} {cs : List Column} {gs : List Expr}

/-- A projection as it was, over the lifted input. -/
theorem Lifted.project (h : Lifted schema input input' ks) (d : Bool)
    (hcs : ∀ c ∈ cs, Reads schema (visible schema input) c.expr)
    (hgs : ∀ g ∈ gs, Reads schema (visible schema input) g) :
    Lifted schema (.project q input cs d gs) (.project q input' cs d gs) [] where
  relation := by
    refine ⟨rfl, wellScoped_project.2 ⟨h.relation, fun c hc => ?_, fun g hg => ?_⟩⟩
    · exact (hcs c hc).mono h.shows
    · exact (hgs g hg).mono h.shows
  shows := fun ref href => href
  keys := fun k hk => absurd hk List.not_mem_nil

/-- A projection that exposes the keys of its input. The keys become columns of the projection, so
what they read is visible in the input, and above they are references to those columns. -/
theorem Lifted.expose {isShown : Expr → Expr → Bool} {shown : Expr → Expr} {gs' : List Expr}
    (h : Lifted schema input input' ks) (d d' : Bool)
    (hshown : ∀ s, Reads schema (visible schema input') s →
      Reads schema (visible schema input') (shown s))
    (hcs : ∀ c ∈ cs, Reads schema (visible schema input) c.expr)
    (hgs : ∀ g ∈ gs', Reads schema (visible schema input) g) :
    Lifted schema (.project q input cs d gs)
      (.project q input' (exposeKeys q isShown shown cs ks).1 d' gs')
      (exposeKeys q isShown shown cs ks).2 := by
  obtain ⟨added, hcolumns, hadded⟩ := exposeKeys_columns q isShown shown cs ks
  refine ⟨⟨rfl, wellScoped_project.2 ⟨h.relation, ?_, fun g hg => (hgs g hg).mono h.shows⟩⟩, ?_, ?_⟩
  · rw [hcolumns]
    intro c hc
    rcases List.mem_append.1 hc with hc | hc
    · exact (hcs c hc).mono h.shows
    · obtain ⟨k, hk, heq⟩ := hadded c hc
      rw [heq]
      exact hshown k.expr (h.keys k hk)
  · intro ref href
    obtain ⟨c, hc, rfl⟩ := List.mem_map.1 href
    rw [hcolumns]
    exact List.mem_map.2 ⟨c, List.mem_append_left _ hc, rfl⟩
  · intro k' hk'
    obtain ⟨k, _, _, c, hc, hexpr, _⟩ :=
      Attempt.exists_rel_of_mem_right (exposeKeys_keys q isShown shown cs ks) hk'
    rw [hexpr]
    refine ⟨?_, (wellScoped_of_scalar rfl).2 fun c hc => absurd hc List.not_mem_nil⟩
    rw [columnRefs, List.forall_mem_singleton]
    exact List.mem_map.2 ⟨c, hc, rfl⟩

/-- The least value of a key reads what the key does. -/
theorem reads_minOf {columns : List ColumnRef} {s : Expr} (h : Reads schema columns s) :
    Reads schema columns (minOf s) :=
  ⟨h.1, (wellScoped_of_scalar rfl).2 (List.forall_mem_singleton.2 h.2)⟩

/-- A DISTINCT projection shows its keys by columns of the input, and passes on references to them.
-/
theorem Lifted.exposeDistinct (h : Lifted schema input input' ks) (flag d : Bool)
    (hcs : ∀ c ∈ cs, Reads schema (visible schema input) c.expr) :
    Lifted schema (.project q input cs d gs) (exposeDistinct flag q input' cs ks).1
      (exposeDistinct flag q input' cs ks).2 := by
  -- a key is exposed as it is, or as its minimum over a group
  have hshown : ∀ (groupBy : List Expr) (s : Expr), Reads schema (visible schema input') s →
      Reads schema (visible schema input') (if groupBy.isEmpty then s else minOf s) := by
    intro groupBy s hs
    split
    · exact hs
    · exact reads_minOf hs
  unfold OrderLifting.exposeDistinct
  refine h.expose d _ (hshown _) hcs fun g hg => ?_
  -- the grouping keys are the columns themselves
  split at hg
  · obtain ⟨c, hc, rfl⟩ := List.mem_map.1 hg
    exact hcs c hc
  · cases hg

/-- So does a projection in each of its four cases. -/
theorem Lifted.liftProjection (h : Lifted schema input input' ks) (flag : Bool) (mode : Mode)
    (d : Bool) (hcs : ∀ c ∈ cs, Reads schema (visible schema input) c.expr)
    (hgs : ∀ g ∈ gs, Reads schema (visible schema input) g) :
    Lifted schema (.project q input cs d gs) (liftProjection flag mode q cs d gs input' ks).1
      (liftProjection flag mode q cs d gs input' ks).2 := by
  unfold OrderLifting.liftProjection
  split
  · exact h.project d hcs hgs
  · split
    · exact h.exposeDistinct flag d hcs
    · split
      · dsimp only
        split
        · exact h.project d hcs hgs
        · -- the keys order the input below the projection
          have hordered : Lifted schema input (.order input' ks) ks :=
            ⟨⟨rfl, wellScoped_order.2 ⟨h.relation, h.keys⟩⟩, h.shows, h.keys⟩
          exact hordered.project d hcs hgs
      · exact h.expose d d (fun s hs => hs) hcs hgs

end Lifted

variable {schema : Schema} {e e' : Expr}

/-- Lifting keeps a tree well scoped, and the lifted keys refer to what the new tree shows. By
induction on the tree, with a lemma on `Lifted` for each kind of node. -/
theorem lift_lifted {flag : Bool} {mode : Mode} {ks : List OrderKey}
    (he : WellScoped schema e) (h : lift flag mode e = .ok (e', ks)) : Lifted schema e e' ks := by
  induction e using treeInduction generalizing mode e' ks with
  | scan source qualifier t _ =>
    cases h
    exact ⟨⟨rfl, he⟩, fun ref href => href, fun k hk => absurd hk List.not_mem_nil⟩
  | filter input p ih _ =>
    obtain ⟨⟨input', ks⟩, hlift, h⟩ := Attempt.bind_eq_ok_iff.1 h
    cases h
    obtain ⟨hinput, hp⟩ := wellScoped_filter.1 he
    exact (ih hinput.2 hlift).filter hp
  | order input outer ih _ =>
    obtain ⟨⟨input', ks⟩, hlift, h⟩ := Attempt.bind_eq_ok_iff.1 h
    cases h
    obtain ⟨hinput, houter⟩ := wellScoped_order.1 he
    exact (ih hinput.2 hlift).order houter
  | limit input take skip ih _ _ =>
    obtain ⟨⟨input', ks⟩, hlift, h⟩ := Attempt.bind_eq_ok_iff.1 h
    cases h
    obtain ⟨hinput, htake, hskip⟩ := wellScoped_limit.1 he
    exact (ih hinput.2 hlift).limit htake hskip
  | project q input cs d gs ih _ _ =>
    obtain ⟨⟨input', ks⟩, hlift, h⟩ := Attempt.bind_eq_ok_iff.1 h
    obtain ⟨hinput, hcs, hgs⟩ := wellScoped_project.1 he
    have hprojection := (ih hinput.2 hlift).liftProjection (q := q) flag mode d hcs hgs
    rw [Except.ok.inj h] at hprojection
    exact hprojection
  | join k left right on ihl ihr _ =>
    obtain ⟨⟨left', ls⟩, hleft, h⟩ := Attempt.bind_eq_ok_iff.1 h
    obtain ⟨⟨right', rs⟩, hright, h⟩ := Attempt.bind_eq_ok_iff.1 h
    cases h
    obtain ⟨hl, hr, hon⟩ := wellScoped_join.1 he
    exact (ihl hl.2 hleft).join (ihr hr.2 hright) hon
  | setOp op all left right a ihl ihr =>
    obtain ⟨⟨left', ls⟩, hleft, h⟩ := Attempt.bind_eq_ok_iff.1 h
    obtain ⟨⟨right', rs⟩, hright, h⟩ := Attempt.bind_eq_ok_iff.1 h
    cases h
    obtain ⟨hl, hr⟩ := wellScoped_setOp.1 he
    exact (ihl hl.2 hleft).setOp (ihr hr.2 hright)
  | _ => cases h

/-- Normalization keeps the scope. -/
theorem scopedRelation_normalize {flag : Bool} (he : WellScoped schema e)
    (h : normalize flag e = .ok e') : ScopedRelation schema e' := by
  obtain ⟨⟨lifted, ks⟩, hlift, h⟩ := Attempt.bind_eq_ok_iff.1 h
  have hlifted := lift_lifted he hlift
  obtain rfl := Except.ok.inj h
  split
  · exact hlifted.relation
  · exact (scopedRelation_orderedBy hlifted.relation hlifted.keys).1

end OrderLifting

namespace Expr

open Attempt

variable {schema : Schema}

/-! ### Lowering -/

/-- A rewriting that keeps scopes: it refers to no more columns, and a relation stays one that shows
at least the same columns. -/
def Keeps (schema : Schema) (e e' : Expr) : Prop :=
  WellScoped schema e → WellScoped schema e' ∧ (∀ ref ∈ e'.columnRefs, ref ∈ e.columnRefs) ∧
    (e.isRelational = true →
      e'.isRelational = true ∧ ∀ ref ∈ visible schema e, ref ∈ visible schema e')

section Keeps

variable {e e' e'' : Expr}

theorem Keeps.refl (e : Expr) : Keeps schema e e :=
  fun h => ⟨h, fun _ href => href, fun hrel => ⟨hrel, fun _ href => href⟩⟩

theorem Keeps.trans (h : Keeps schema e e') (h' : Keeps schema e' e'') : Keeps schema e e'' := by
  intro he
  obtain ⟨he', hrefs, hrel⟩ := h he
  obtain ⟨he'', hrefs', hrel'⟩ := h' he'
  refine ⟨he'', fun ref href => hrefs ref (hrefs' ref href), fun hr => ?_⟩
  obtain ⟨hr', hshows⟩ := hrel hr
  obtain ⟨hr'', hshows'⟩ := hrel' hr'
  exact ⟨hr'', fun ref href => hshows' ref (hshows ref href)⟩

theorem Keeps.relation (h : Keeps schema e e') (he : ScopedRelation schema e) :
    ScopedRelation schema e' ∧ ∀ ref ∈ visible schema e, ref ∈ visible schema e' := by
  obtain ⟨he', _, hrel⟩ := h he.2
  obtain ⟨hr, hshows⟩ := hrel he.1
  exact ⟨⟨hr, he'⟩, hshows⟩

theorem Keeps.reads {columns columns' : List ColumnRef} (h : Keeps schema e e')
    (he : Reads schema columns e) (hsub : ∀ ref ∈ columns, ref ∈ columns') :
    Reads schema columns' e' := by
  obtain ⟨he', hrefs, _⟩ := h he.2
  exact ⟨fun ref href => hsub ref (he.1 ref (hrefs ref href)), he'⟩

/-- A relation may change into another that shows at least as much. -/
theorem Keeps.of_relation (hrel' : e'.isRelational = true)
    (h : WellScoped schema e →
      WellScoped schema e' ∧ ∀ ref ∈ visible schema e, ref ∈ visible schema e') :
    Keeps schema e e' := by
  intro he
  obtain ⟨he', hshows⟩ := h he
  refine ⟨he', ?_, fun _ => ⟨hrel', hshows⟩⟩
  rw [columnRefs_of_isRelational hrel']
  exact fun ref href => absurd href List.not_mem_nil

/-- A scalar owes nothing but its references. -/
theorem Keeps.of_scalar (hrel : e.isRelational = false)
    (h : WellScoped schema e → WellScoped schema e' ∧ ∀ ref ∈ e'.columnRefs, ref ∈ e.columnRefs) :
    Keeps schema e e' := by
  intro he
  obtain ⟨he', hrefs⟩ := h he
  refine ⟨he', hrefs, fun hr => ?_⟩
  rw [hrel] at hr
  cases hr

/-- What a change of its direct subtrees has to keep so that a node keeps its scope. -/
def KeepsSource (schema : Schema) (c c' : Expr) : Prop :=
  Keeps schema c c' ∧ ∀ name ∈ schema.columnsOf c, name ∈ schema.columnsOf c'

/-- A scalar keeps its scope if its subtrees do. -/
theorem Rebuilt.keeps_of_scalar (h : Rebuilt (KeepsSource schema) e e')
    (hrel : e.isRelational = false) : Keeps schema e e' := by
  refine Keeps.of_scalar hrel fun he => ?_
  have hchildren := (wellScoped_of_scalar hrel).1 he
  refine ⟨(wellScoped_of_scalar (h.isRelational_eq.trans hrel)).2 fun c' hc' => ?_, ?_⟩
  · obtain ⟨c, hc, hkeeps⟩ := exists_rel_of_mem_right h.children hc'
    exact (hkeeps.1 (hchildren c hc)).1
  · exact h.columnRefs_subset fun c hc c' hkeeps => (hkeeps.1 (hchildren c hc)).2.1

theorem optionRel_keeps {o o' : Option Expr} (h : Option.Rel (KeepsSource schema) o o')
    (ho : ∀ c ∈ o, WellScoped schema c) : ∀ c ∈ o', WellScoped schema c := by
  intro c' hc'
  obtain ⟨c, hc, hkeeps⟩ := exists_rel_of_mem_right (forall₂_toList h) (Option.mem_toList.2 hc')
  exact (hkeeps.1 (ho c (Option.mem_toList.1 hc))).1

/-- A node keeps its scope when its direct subtrees keep theirs. Scalars refer to no more than
before. For the others, what their expressions refer to must be shown by the changed input, which it
is since it shows no less than the input. -/
theorem Rebuilt.keeps (h : Rebuilt (KeepsSource schema) e e') : Keeps schema e e' := by
  cases h with
  | const v t | param n t | column a n t => exact .refl _
  | member n t he => exact (Rebuilt.member n t he).keeps_of_scalar rfl
  | binary op t hl hr => exact (Rebuilt.binary op t hl hr).keeps_of_scalar rfl
  | unary op t he => exact (Rebuilt.unary op t he).keeps_of_scalar rfl
  | call n t hes => exact (Rebuilt.call n t hes).keeps_of_scalar rfl
  | aggregate f d t ha => exact (Rebuilt.aggregate f d t ha).keeps_of_scalar rfl
  | lambda ps hb => exact (Rebuilt.lambda ps hb).keeps_of_scalar rfl
  | scan a t hs =>
    refine .of_relation rfl fun he => ⟨wellScoped_scan.2 (hs.1 (wellScoped_scan.1 he)).1, ?_⟩
    intro ref href
    obtain ⟨name, hname, rfl⟩ := List.mem_map.1 href
    exact List.mem_map.2 ⟨name, hs.2 name hname, rfl⟩
  | filter hi hp =>
    refine .of_relation rfl fun he => ?_
    obtain ⟨hinput, hpredicate⟩ := wellScoped_filter.1 he
    obtain ⟨hinput', hshows⟩ := hi.1.relation hinput
    exact ⟨wellScoped_filter.2 ⟨hinput', hp.1.reads hpredicate hshows⟩, hshows⟩
  | project a d hi hcs hgs =>
    refine .of_relation rfl fun he => ?_
    obtain ⟨hinput, hcolumns, hgroups⟩ := wellScoped_project.1 he
    obtain ⟨hinput', hshows⟩ := hi.1.relation hinput
    refine ⟨wellScoped_project.2 ⟨hinput', fun c' hc' => ?_, fun g' hg' => ?_⟩, fun ref href => ?_⟩
    · obtain ⟨c, hc, _, hkeeps⟩ := exists_rel_of_mem_right hcs hc'
      exact hkeeps.1.reads (hcolumns c hc) hshows
    · obtain ⟨g, hg, hkeeps⟩ := exists_rel_of_mem_right hgs hg'
      exact hkeeps.1.reads (hgroups g hg) hshows
    · obtain ⟨c, hc, rfl⟩ := List.mem_map.1 href
      obtain ⟨c', hc', hname, _⟩ := exists_rel_of_mem_left hcs hc
      exact List.mem_map.2 ⟨c', hc', by rw [hname]⟩
  | order hi hks =>
    refine .of_relation rfl fun he => ?_
    obtain ⟨hinput, hkeys⟩ := wellScoped_order.1 he
    obtain ⟨hinput', hshows⟩ := hi.1.relation hinput
    refine ⟨wellScoped_order.2 ⟨hinput', fun k' hk' => ?_⟩, hshows⟩
    obtain ⟨k, hk, _, hkeeps⟩ := exists_rel_of_mem_right hks hk'
    exact hkeeps.1.reads (hkeys k hk) hshows
  | limit hi ht hs =>
    refine .of_relation rfl fun he => ?_
    obtain ⟨hinput, htake, hskip⟩ := wellScoped_limit.1 he
    obtain ⟨hinput', hshows⟩ := hi.1.relation hinput
    exact ⟨wellScoped_limit.2 ⟨hinput', optionRel_keeps ht htake, optionRel_keeps hs hskip⟩, hshows⟩
  | join k hl hr ho =>
    refine .of_relation rfl fun he => ?_
    obtain ⟨hleft, hright, hon⟩ := wellScoped_join.1 he
    obtain ⟨hleft', hshowsl⟩ := hl.1.relation hleft
    obtain ⟨hright', hshowsr⟩ := hr.1.relation hright
    have hshows := append_subset_append hshowsl hshowsr
    refine ⟨wellScoped_join.2 ⟨hleft', hright', fun c' hc' => ?_⟩, hshows⟩
    obtain ⟨c, hc, hkeeps⟩ := exists_rel_of_mem_right (forall₂_toList ho) (Option.mem_toList.2 hc')
    exact hkeeps.1.reads (hon c (Option.mem_toList.1 hc)) hshows
  | setOp op all a hl hr =>
    refine .of_relation rfl fun he => ?_
    obtain ⟨hleft, hright⟩ := wellScoped_setOp.1 he
    obtain ⟨hleft', hshows⟩ := hl.1.relation hleft
    refine ⟨wellScoped_setOp.2 ⟨hleft', (hr.1.relation hright).1⟩, fun ref href => ?_⟩
    obtain ⟨inner, hinner, rfl⟩ := List.mem_map.1 href
    exact List.mem_map.2 ⟨inner, hshows inner hinner, rfl⟩

end Keeps

theorem wellScoped_binary {op : BinaryOperator} {l r : Expr} {t : LogicalType} :
    WellScoped schema (.binary op l r t) ↔ WellScoped schema l ∧ WellScoped schema r := by
  rw [wellScoped_of_scalar rfl]
  simp [children]

theorem wellScoped_unary {op : UnaryOperator} {e : Expr} {t : LogicalType} :
    WellScoped schema (.unary op e t) ↔ WellScoped schema e := by
  rw [wellScoped_of_scalar rfl]
  simp [children]

/-- Lowering a filter keeps the scope. -/
theorem keeps_lowerFilter (i p : Expr) : Keeps schema (.filter i p) (lowerFilter i p) := by
  intro he
  obtain ⟨hinput, hp⟩ := wellScoped_filter.1 he
  unfold lowerFilter
  split
  · exact Keeps.of_relation hinput.1 (fun _ => ⟨hinput.2, fun _ href => href⟩) he
  · split
    next inner first =>
      obtain ⟨hinner, hfirst⟩ := wellScoped_filter.1 hinput.2
      have hboth : Reads schema (visible schema inner) (mkBinary .and first p) := by
        refine ⟨fun ref href => ?_, wellScoped_binary.2 ⟨hfirst.2, hp.2⟩⟩
        rcases List.mem_append.1 href with href | href
        · exact hfirst.1 ref href
        · exact hp.1 ref href
      have hmerged := wellScoped_filter.2 ⟨hinner, hboth⟩
      exact Keeps.of_relation rfl (fun _ => ⟨hmerged, fun _ href => href⟩) he
    next => exact Keeps.refl _ he

/-- Lowering a conjunction keeps the scope. -/
theorem keeps_lowerAnd (l r : Expr) (t : LogicalType) :
    Keeps schema (.binary .and l r t) (lowerAnd l r t) := by
  refine .of_scalar rfl fun he => ?_
  obtain ⟨hl, hr⟩ := wellScoped_binary.1 he
  unfold lowerAnd
  split
  · exact ⟨hr, fun ref href => List.mem_append_right _ href⟩
  · split
    · exact ⟨hl, fun ref href => List.mem_append_left _ href⟩
    · exact ⟨he, fun ref href => href⟩

/-- Putting a comparison in order keeps the scope. -/
theorem keeps_lowerOrdered (op : BinaryOperator) (l r : Expr) (t : LogicalType) :
    Keeps schema (.binary op l r t) (lowerOrdered op l r t) := by
  have hnull : ∀ test, Keeps schema (.binary op l r t) (mkUnary test l) := by
    intro test
    refine .of_scalar rfl fun he => ?_
    obtain ⟨hl, _⟩ := wellScoped_binary.1 he
    exact ⟨wellScoped_unary.2 hl, fun ref href => List.mem_append_left _ href⟩
  unfold lowerOrdered
  split
  · split
    · exact hnull .isNull
    · exact .refl _
  · split
    · exact hnull .isNotNull
    · exact .refl _
  · exact .refl _

/-- Lowering a comparison keeps the scope. -/
theorem keeps_lowerComparison (op : BinaryOperator) (l r : Expr) (t : LogicalType) :
    Keeps schema (.binary op l r t) (lowerComparison op l r t) := by
  have hswap : ∀ op', Keeps schema (.binary op l r t) (.binary op' r l t) := by
    intro op'
    refine .of_scalar rfl fun he => ?_
    obtain ⟨hl, hr⟩ := wellScoped_binary.1 he
    refine ⟨wellScoped_binary.2 ⟨hr, hl⟩, fun ref href => ?_⟩
    exact List.mem_append.2 (List.mem_append.1 href).symm
  unfold lowerComparison
  split
  next flipped _ =>
    split
    · exact (hswap flipped).trans (keeps_lowerOrdered flipped r l t)
    · exact keeps_lowerOrdered op l r t
  next => exact keeps_lowerOrdered op l r t

/-- Lowering a negation keeps the scope. -/
theorem keeps_lowerNot (e : Expr) (t : LogicalType) :
    Keeps schema (.unary .not e t) (lowerNot e t) := by
  refine .of_scalar rfl fun he => ?_
  unfold lowerNot
  split
  next inner t' => exact ⟨wellScoped_unary.1 (wellScoped_unary.1 he), fun ref href => href⟩
  next => exact ⟨he, fun ref href => href⟩

/-- The plain form of a node keeps its scope. -/
theorem keeps_lowerNode (e : Expr) : Keeps schema e e.lowerNode := by
  unfold lowerNode
  split
  next i p => exact keeps_lowerFilter i p
  next i =>
    intro he
    obtain ⟨hi, _⟩ := wellScoped_order.1 he
    exact Keeps.of_relation hi.1 (fun _ => ⟨hi.2, fun _ href => href⟩) he
  next op l r t =>
    split
    next hop =>
      subst hop
      exact keeps_lowerAnd l r t
    next =>
      split
      · exact keeps_lowerComparison op l r t
      · exact .refl _
  next e t => exact keeps_lowerNot e t
  next => exact .refl _

/-- A lowered tree is a constant, or the plain form of the node over its lowered subtrees. -/
theorem lower_cases (e : Expr) :
    (e.isRelational = false ∧ ∃ v t, e.lower = .const v t) ∨
      e.lower = (e.mapChildren lower).lowerNode := by
  cases hrel : e.isRelational with
  | true => exact .inr (lower_of_isRelational hrel)
  | false =>
    rcases fold_cases e with ⟨v, hfold, _⟩ | ⟨hfold, _⟩
    · refine .inl ⟨rfl, v, foldedType e.type v, ?_⟩
      rw [lower, hfold]
      rfl
    · refine .inr ?_
      rw [lower, hfold, transformUp_eq, mapChildren_mapChildren]
      rfl

/-- A lowered source stands for the same table. -/
theorem mem_columnsOf_lower {source : Expr} {name : String} (h : name ∈ schema.columnsOf source) :
    name ∈ schema.columnsOf source.lower := by
  have hlower : source.lower = source.fold.transformUp lowerNode := rfl
  rw [Schema.columnsOf] at h
  split at h
  next s t hfold =>
    rw [hlower, hfold]
    exact h
  next n t hfold =>
    rw [hlower, hfold]
    exact h
  next => cases h

/-- Lowering a node keeps the scope. -/
theorem keeps_lower (e : Expr) : Keeps schema e e.lower := by
  induction e using childInduction with
  | h e ih =>
    rcases lower_cases e with ⟨hrel, v, t, hconst⟩ | heq
    · rw [hconst]
      refine .of_scalar hrel fun _ => ⟨(wellScoped_of_scalar rfl).2 ?_, ?_⟩
      · exact fun c hc => absurd hc List.not_mem_nil
      · exact fun ref href => absurd href List.not_mem_nil
    · rw [heq]
      have hrebuilt : Rebuilt (KeepsSource schema) e (e.mapChildren lower) :=
        rebuilt_mapChildren fun c hc => ⟨ih c hc, fun _ => mem_columnsOf_lower⟩
      exact hrebuilt.keeps.trans (keeps_lowerNode _)

/-! ### Dead columns -/

/-- A column that is needed survives, and so does each one of the output. -/
theorem mem_survivingColumns {needed : List ColumnRef} {output d : Bool} {q : String}
    {cs : List Column} {c : Column} (hc : c ∈ cs)
    (hneeded : output = true ∨ (⟨q, c.name⟩ : ColumnRef) ∈ needed) :
    c ∈ survivingColumns needed output d q cs := by
  unfold survivingColumns
  split
  · exact hc
  next hkeep =>
    have href : (⟨q, c.name⟩ : ColumnRef) ∈ needed := by
      rcases hneeded with rfl | href
      · exact absurd rfl hkeep
      · exact href
    have hkept : c ∈ cs.filter fun c => needed.contains ⟨q, c.name⟩ :=
      List.mem_filter.2 ⟨hc, List.contains_iff_mem.2 href⟩
    unfold keptColumns
    rw [if_neg]
    · exact hkept
    · rw [List.isEmpty_iff]
      exact List.ne_nil_of_mem hkept

/-- Dropping the columns that nothing reads leaves a relation well scoped, and it still shows the
columns that are needed above. -/
theorem scopedRelation_prune {e : Expr} (he : ScopedRelation schema e) (needed : List ColumnRef)
    (output : Bool) :
    ScopedRelation schema (e.prune needed output) ∧
      ∀ ref ∈ visible schema e, output = true ∨ ref ∈ needed →
        ref ∈ visible schema (e.prune needed output) := by
  induction e using treeInduction generalizing needed output with
  | scan source qualifier t _ => exact ⟨he, fun ref href _ => href⟩
  | project q input cs d gs ih _ _ =>
    obtain ⟨hinput, hcs, hgs⟩ := wellScoped_project.1 he.2
    let kept := survivingColumns needed output d q cs
    obtain ⟨hpruned, hshows⟩ := ih hinput (columnsRead kept gs) false
    have hreads : ∀ s, Reads schema (visible schema input) s →
        (∀ ref ∈ s.columnRefs, ref ∈ columnsRead kept gs) →
        Reads schema (visible schema (input.prune (columnsRead kept gs) false)) s := by
      intro s hs hread
      exact ⟨fun ref href => hshows ref (hs.1 ref href) (.inr (hread ref href)), hs.2⟩
    refine ⟨⟨rfl, wellScoped_project.2 ⟨hpruned, fun c hc => ?_, fun g hg => ?_⟩⟩, ?_⟩
    · refine hreads c.expr (hcs c (mem_of_mem_survivingColumns hc)) fun ref href => ?_
      exact List.mem_append_left _ (mem_columnRefsList (List.mem_map_of_mem hc) href)
    · refine hreads g (hgs g hg) fun ref href => ?_
      exact List.mem_append_right _ (mem_columnRefsList hg href)
    · intro ref href hneeded
      obtain ⟨c, hc, rfl⟩ := List.mem_map.1 href
      exact List.mem_map.2 ⟨c, mem_survivingColumns hc hneeded, rfl⟩
  | filter input p ih _ =>
    obtain ⟨hinput, hp⟩ := wellScoped_filter.1 he.2
    obtain ⟨hpruned, hshows⟩ := ih hinput (needed ++ columnRefs p) output
    refine ⟨⟨rfl, wellScoped_filter.2 ⟨hpruned, ?_, hp.2⟩⟩, ?_⟩
    · intro ref href
      exact hshows ref (hp.1 ref href) (.inr (List.mem_append_right _ href))
    · intro ref href hneeded
      exact hshows ref href (hneeded.imp_right (List.mem_append_left _))
  | order input ks ih _ =>
    obtain ⟨hinput, hks⟩ := wellScoped_order.1 he.2
    obtain ⟨hpruned, hshows⟩ := ih hinput (needed ++ columnRefsList (ks.map (·.expr))) output
    refine ⟨⟨rfl, wellScoped_order.2 ⟨hpruned, fun k hk => ⟨?_, (hks k hk).2⟩⟩⟩, ?_⟩
    · intro ref href
      have hmem : k.expr ∈ ks.map (·.expr) := List.mem_map_of_mem hk
      exact hshows ref ((hks k hk).1 ref href)
        (.inr (List.mem_append_right _ (mem_columnRefsList hmem href)))
    · intro ref href hneeded
      exact hshows ref href (hneeded.imp_right (List.mem_append_left _))
  | limit input take skip ih _ _ =>
    obtain ⟨hinput, htake, hskip⟩ := wellScoped_limit.1 he.2
    obtain ⟨hpruned, hshows⟩ :=
      ih hinput (needed ++ columnRefsOption take ++ columnRefsOption skip) output
    refine ⟨⟨rfl, wellScoped_limit.2 ⟨hpruned, htake, hskip⟩⟩, ?_⟩
    intro ref href hneeded
    refine hshows ref href (hneeded.imp_right fun hmem => ?_)
    exact List.mem_append_left _ (List.mem_append_left _ hmem)
  | join k left right on ihl ihr _ =>
    obtain ⟨hleft, hright, hon⟩ := wellScoped_join.1 he.2
    obtain ⟨hprunedl, hshowsl⟩ := ihl hleft (needed ++ columnRefsOption on) output
    obtain ⟨hprunedr, hshowsr⟩ := ihr hright (needed ++ columnRefsOption on) output
    have hshows : ∀ ref ∈ visible schema left ++ visible schema right,
        output = true ∨ ref ∈ needed ++ columnRefsOption on →
          ref ∈ visible schema (left.prune (needed ++ columnRefsOption on) output) ++
            visible schema (right.prune (needed ++ columnRefsOption on) output) := by
      intro ref href hread
      rcases List.mem_append.1 href with href | href
      · exact List.mem_append_left _ (hshowsl ref href hread)
      · exact List.mem_append_right _ (hshowsr ref href hread)
    refine ⟨⟨rfl, wellScoped_join.2 ⟨hprunedl, hprunedr, fun c hc => ⟨?_, (hon c hc).2⟩⟩⟩, ?_⟩
    · intro ref href
      exact hshows ref ((hon c hc).1 ref href)
        (.inr (List.mem_append_right _ (mem_columnRefsOption hc href)))
    · intro ref href hneeded
      exact hshows ref href (hneeded.imp_right (List.mem_append_left _))
  | setOp op all left right a ihl ihr =>
    obtain ⟨hleft, hright⟩ := wellScoped_setOp.1 he.2
    obtain ⟨hprunedl, hshowsl⟩ := ihl hleft [] true
    obtain ⟨hprunedr, _⟩ := ihr hright [] true
    refine ⟨⟨rfl, wellScoped_setOp.2 ⟨hprunedl, hprunedr⟩⟩, ?_⟩
    intro ref href _
    obtain ⟨inner, hinner, rfl⟩ := List.mem_map.1 href
    exact List.mem_map.2 ⟨inner, hshowsl inner hinner (.inl rfl), rfl⟩
  | _ => cases he.1

end Expr

/-! ### The pipeline -/

namespace Pipeline

open QueryTree.Expr

variable {schema : Schema} {e e' : Expr}

/-- The passes of a pipeline keep the scope, one after the other. -/
theorem runAll_wellScoped (p : Pipeline) (hextra : p.extra = []) (he : WellScoped schema e)
    (h : Pass.runAll p.passes e = .ok e') : WellScoped schema e' := by
  rw [passes, hextra] at h
  obtain ⟨ordered, hordered, h⟩ := Attempt.bind_eq_ok_iff.1 h
  obtain ⟨lowered, hlowered, h⟩ := Attempt.bind_eq_ok_iff.1 h
  obtain ⟨pruned, hpruned, h⟩ := Attempt.bind_eq_ok_iff.1 h
  obtain rfl := Attempt.pure_eq_ok_iff.1 h
  obtain rfl := Except.ok.inj hpruned
  have hlower : lowered = ordered.lower := by
    change lowerBody ordered = .ok lowered at hlowered
    unfold lowerBody at hlowered
    split at hlowered
    · cases hlowered
    · exact (Except.ok.inj hlowered).symm
  have hscoped := OrderLifting.scopedRelation_normalize he hordered
  have hscoped' := ((keeps_lower ordered).relation hscoped).1
  rw [hlower]
  exact (scopedRelation_prune hscoped' [] true).1.2

/-- A pipeline without passes of plug-ins leaves no column reference dangling: what it makes of a
well-scoped query, with parameters or without, is well scoped for the same tables. -/
theorem prepare_wellScoped (p : Pipeline) (hextra : p.extra = []) (he : WellScoped schema e)
    (h : p.prepare e = .ok e') : WellScoped schema e' := by
  by_cases hlambda : ∃ ps body, e = .lambda ps body
  · obtain ⟨ps, body, rfl⟩ := hlambda
    obtain ⟨body', hbody, h⟩ := Attempt.bind_eq_ok_iff.1 h
    obtain rfl := Attempt.pure_eq_ok_iff.1 h
    have hscoped := List.forall_mem_singleton.1 ((wellScoped_of_scalar rfl).1 he)
    have hscoped' := runAll_wellScoped p hextra hscoped hbody
    exact (wellScoped_of_scalar rfl).2 (List.forall_mem_singleton.2 hscoped')
  · have hprepare : p.prepare e = Pass.runAll p.passes e := by
      cases e with
      | lambda ps body => exact absurd ⟨ps, body, rfl⟩ hlambda
      | _ => rfl
    exact runAll_wellScoped p hextra he (hprepare.symm.trans h)

/-- Tasks have an owner, and people have a name. -/
def taskSchema : Schema where
  table name :=
    if name = "task" then ["id", "owner"] else if name = "person" then ["id", "name"] else []
  parameter _ := []

/-- Tasks with their owners. -/
def ownedTasks : Expr :=
  .join .inner (.mkScan (.source ⟨"task", none⟩) "t") (.mkScan (.source ⟨"person", none⟩) "o")
    (some (mkBinary .eq (.column "t" "owner" .int64) (.column "o" "id" .int64)))

/-- The identifiers of the first tasks by the names of their owners, each once. The names are read
below a projection that does not show them. -/
def firstByOwner : Expr :=
  .lambda [⟨"n", .int64⟩] <| .project "q"
    (.limit
      (.project "p" (.order ownedTasks [⟨.column "o" "name" .string, .ascending⟩])
        [⟨"id", .column "t" "id" .int64⟩] true [])
      (some (.param "n" .int64)) none)
    [⟨"id", .column "p" "id" .int64⟩] false []

/-- The same, with the least name of each group as a column to order by. -/
def firstByLeastOwner : Expr :=
  .lambda [⟨"n", .int64⟩] <| .project "q"
    (.limit
      (.order
        (.project "p" ownedTasks
          [⟨"id", .column "t" "id" .int64⟩,
            ⟨"name", mkAggregate .min (some (.column "o" "name" .string)) false⟩]
          false [.column "t" "id" .int64])
        [⟨.column "p" "name" .string, .ascending⟩])
      (some (.param "n" .int64)) none)
    [⟨"id", .column "p" "id" .int64⟩] false []

/-- The owner's name is read above the projection only after it has been made a column of it. -/
theorem prepare_wellScoped_firstByOwner :
    WellScoped taskSchema firstByOwner ∧
      (Pipeline.mk .postgres []).prepare firstByOwner = .ok firstByLeastOwner ∧
      WellScoped taskSchema firstByLeastOwner := by
  have he : WellScoped taskSchema firstByOwner := by decide
  have h : (Pipeline.mk .postgres []).prepare firstByOwner = .ok firstByLeastOwner := rfl
  exact ⟨he, h, prepare_wellScoped _ rfl he h⟩

end Pipeline

end QueryTree
