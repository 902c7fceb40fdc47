import QueryTree.Proofs.Assembly
import QueryTree.Proofs.OrderPlacement

/-!
# Fresh column names

A key that no column of a projection shows becomes a column of its own. It takes the name that it
would like or, if that is taken, the first free one of its numbered variants (`IsFirstFree`). Only
finitely many names are taken and the variants are all different, so there is a free one, at the
latest after as many variants as there are columns (`freshName_isFirstFree`).

So exposing keys never makes two columns of one name. A projection whose columns have different
names keeps that when keys are lifted through it (`exists_liftProjection`), and by the rules of
lifting so does every projection of a tree (`Lifts.hasDistinctNames`).
-/

namespace QueryTree

namespace Expr

/-- A projection has no two columns of the same name. -/
def HasDistinctNames : Expr → Prop
  | .project _ _ cs _ _ => (cs.map (·.name)).Nodup
  | _ => True

/-- What holds at the root and in the subtrees holds everywhere. -/
theorem All.of_children {Q : Expr → Prop} {e : Expr} (hroot : Q e)
    (h : ∀ c ∈ e.children, c.All Q) : e.All Q :=
  forall_mem_nodes_iff.2 ⟨hroot, h⟩

end Expr

namespace OrderLifting

open QueryTree.Expr

/-! ### The search -/

/-- The name at which a search through `base`, `base1`, `base2`, … without end stops: none before it
is free. -/
structure IsFirstFree (taken : List String) (base name : String) : Prop where
  free : name ∉ taken
  atOnce : base ∉ taken → name = base
  numbered : base ∈ taken → ∃ n < taken.length, name = base ++ toString (n + 1) ∧
    ∀ m < n, base ++ toString (m + 1) ∈ taken

/-- The name that is taken is the first free one: the base, or the base with the least number. -/
theorem freshName_isFirstFree (taken : List String) (base : String) :
    IsFirstFree taken base (freshName taken base) := by
  have hfree := freshName_notMem taken base
  refine ⟨hfree, fun hbase => ?_, fun hbase => ?_⟩
  · rw [freshName, if_neg (by simpa using hbase)]
  · rw [freshName, if_pos (List.contains_iff_mem.2 hbase), List.find?_map] at hfree ⊢
    cases hfind : (List.range taken.length).find?
      ((fun name => !taken.contains name) ∘ fun i => base ++ toString (i + 1)) with
    | none =>
      -- the search would give back `base`, which is taken
      rw [hfind] at hfree
      exact absurd hbase hfree
    | some n =>
      obtain ⟨_, hn, hbefore⟩ := List.find?_range_eq_some.1 hfind
      refine ⟨n, List.mem_range.1 hn, rfl, fun m hm => ?_⟩
      simpa using hbefore m hm

/-! ### One projection -/

section Projection

variable {flag : Bool} {mode : Mode} {q : String} {cs : List Column} {d : Bool} {gs : List Expr}
  {input : Expr} {ks : List OrderKey}

/-- A DISTINCT projection exposes its keys as they are or as their minimum, and groups at most by
its columns. -/
theorem exists_exposeDistinct (flag : Bool) (q : String) (input : Expr) (cs : List Column)
    (ks : List OrderKey) :
    ∃ isShown shown d gs, exposeDistinct flag q input cs ks =
      (.project q input (exposeKeys q isShown shown cs ks).1 d gs,
        (exposeKeys q isShown shown cs ks).2) ∧
      (∀ e, shown e = e ∨ shown e = minOf e) ∧ gs ⊆ cs.map (·.expr) := by
  refine ⟨_, _, _, _, rfl, fun e => ite_eq_or_eq _ _ _, ?_⟩
  split
  · exact List.Subset.refl _
  · exact List.nil_subset _

/-- Lifting keys through a projection only adds columns, and under names of their own. -/
theorem exists_liftProjection (hnames : (cs.map (·.name)).Nodup) :
    ∃ input' cs' d' gs',
      (liftProjection flag mode q cs d gs input ks).1 = .project q input' cs' d' gs' ∧
        cs <+: cs' ∧ (cs'.map (·.name)).Nodup := by
  have hexpose : ∀ isShown shown, cs <+: (exposeKeys q isShown shown cs ks).1 := by
    intro isShown shown
    obtain ⟨added, hadded, _⟩ := exposeKeys_columns q isShown shown cs ks
    exact ⟨added, hadded.symm⟩
  by_cases hdrops : DropsKeys mode cs gs ks
  · rw [liftProjection_of_dropsKeys hdrops]
    exact ⟨_, _, _, _, rfl, ⟨[], List.append_nil cs⟩, hnames⟩
  · rw [liftProjection_of_not_dropsKeys hdrops]
    split
    · obtain ⟨isShown, shown, d', gs', heq, _⟩ := exists_exposeDistinct flag q input cs ks
      rw [heq]
      exact ⟨_, _, _, _, rfl, hexpose isShown shown, exposeKeys_nodup q isShown shown hnames ks⟩
    · split
      · exact ⟨_, _, _, _, rfl, ⟨[], List.append_nil cs⟩, hnames⟩
      · exact ⟨_, _, _, _, rfl, hexpose _ _, exposeKeys_nodup q _ _ hnames ks⟩

end Projection

/-! ### Whole trees -/

section Trees

variable {flag : Bool} {mode : Mode} {e e' input : Expr} {q : String} {cs : List Column}
  {ks : List OrderKey}

/-- An ordering on top brings its keys, and no columns. -/
theorem orderedBy_hasDistinctNames (he : e.All HasDistinctNames)
    (hks : ∀ k ∈ ks, k.expr.All HasDistinctNames) : (orderedBy ks e).All HasDistinctNames := by
  unfold orderedBy
  split
  · exact he
  · refine All.of_children trivial (List.forall_mem_cons.2 ⟨he, ?_⟩)
    exact List.forall_mem_map.2 hks

/-- So does an ordering that is put on only once. -/
theorem orderedOnce_hasDistinctNames (he : e.All HasDistinctNames)
    (hks : ∀ k ∈ ks, k.expr.All HasDistinctNames) : (orderedOnce ks e).All HasDistinctNames := by
  unfold orderedOnce
  split
  · exact he
  · exact orderedBy_hasDistinctNames he hks

/-- Merged keys are among those that are merged. -/
theorem mergeKeys_hasDistinctNames {outer inner : List OrderKey}
    (houter : ∀ k ∈ outer, k.expr.All HasDistinctNames)
    (hinner : ∀ k ∈ inner, k.expr.All HasDistinctNames) :
    ∀ k ∈ mergeKeys outer inner, k.expr.All HasDistinctNames :=
  fun k hk => (mem_of_mem_mergeKeys hk).elim (houter k) (hinner k)

/-- A projection that exposes keys has columns of different names, and so have all projections below
it. Its keys are references, with nothing below them. -/
theorem exposeKeys_hasDistinctNames {isShown : Expr → Expr → Bool} {shown : Expr → Expr}
    {d d' : Bool} {gs gs' : List Expr} {input' : Expr} (hshown : ∀ e, shown e = e ∨ shown e = minOf e)
    (hgs : gs' ⊆ cs.map (·.expr)) (he : (project q input cs d gs).All HasDistinctNames)
    (hinput : input'.All HasDistinctNames) (hks : ∀ k ∈ ks, k.expr.All HasDistinctNames) :
    (project q input' (exposeKeys q isShown shown cs ks).1 d' gs').All HasDistinctNames ∧
      ∀ k ∈ (exposeKeys q isShown shown cs ks).2, k.expr.All HasDistinctNames := by
  have hcolumns : ∀ x ∈ cs.map (·.expr), x.All HasDistinctNames :=
    fun x hx => he.child (List.mem_cons_of_mem _ (List.mem_append_left _ hx))
  constructor
  · refine All.of_children (exposeKeys_nodup q isShown shown he.root ks)
      (List.forall_mem_cons.2 ⟨hinput, List.forall_mem_append.2 ⟨?_, fun g hg => ?_⟩⟩)
    · obtain ⟨added, hadded, hfrom⟩ := exposeKeys_columns q isShown shown cs ks
      rw [hadded, List.map_append]
      refine List.forall_mem_append.2 ⟨hcolumns, List.forall_mem_map.2 fun c hc => ?_⟩
      obtain ⟨k, hk, hexpr⟩ := hfrom c hc
      rw [hexpr]
      rcases hshown k.expr with heq | heq
      · rw [heq]
        exact hks k hk
      · rw [heq]
        exact All.of_children trivial (List.forall_mem_singleton.2 (hks k hk))
    · exact hcolumns g (hgs hg)
  · intro k hk
    obtain ⟨_, _, _, c, _, hexpr, _⟩ :=
      Attempt.exists_rel_of_mem_right (exposeKeys_keys q isShown shown cs ks) hk
    rw [hexpr]
    exact All.of_children trivial fun c hc => by cases hc

/-- Lifting keeps the columns of every projection apart. By induction on the derivation: the columns
that a projection gets in addition have fresh names, and no other rule adds a column. -/
theorem Lifts.hasDistinctNames (h : Lifts flag mode e e' ks) (he : e.All HasDistinctNames) :
    e'.All HasDistinctNames ∧ ∀ k ∈ ks, k.expr.All HasDistinctNames := by
  have hnone : ∀ k ∈ ([] : List OrderKey), k.expr.All HasDistinctNames := fun k hk => by cases hk
  induction h with
  | scan source q t => exact ⟨he, hnone⟩
  | filter p _ ih =>
    obtain ⟨hinput, hks⟩ := ih (he.child List.mem_cons_self)
    have hp : p.All HasDistinctNames := he.child (by simp [children])
    refine ⟨All.of_children trivial (List.forall_mem_cons.2 ⟨hinput, ?_⟩), hks⟩
    exact List.forall_mem_singleton.2 hp
  | order outer _ ih =>
    obtain ⟨hinput, hks⟩ := ih (he.child List.mem_cons_self)
    refine ⟨hinput, mergeKeys_hasDistinctNames (fun k hk => ?_) hks⟩
    exact he.child (List.mem_cons_of_mem _ (List.mem_map_of_mem hk))
  | limit take skip _ ih =>
    obtain ⟨hinput, hks⟩ := ih (he.child List.mem_cons_self)
    refine ⟨All.of_children trivial (List.forall_mem_cons.2
      ⟨orderedBy_hasDistinctNames hinput hks, fun c hc => ?_⟩), hks⟩
    exact he.child (List.mem_cons_of_mem _ hc)
  | dropped q d _ _ ih =>
    obtain ⟨hinput, _⟩ := ih (he.child List.mem_cons_self)
    refine ⟨All.of_children he.root (List.forall_mem_cons.2 ⟨hinput, fun c hc => ?_⟩), hnone⟩
    exact he.child (List.mem_cons_of_mem _ hc)
  | @distinct _ _ input' _ ks _ q cs _ _ hexpose ih =>
    obtain ⟨hinput, hks⟩ := ih (he.child List.mem_cons_self)
    obtain ⟨isShown, shown, d', gs', heq, hshown, hgs⟩ := exists_exposeDistinct flag q input' cs ks
    cases heq.symm.trans hexpose
    exact exposeKeys_hasDistinctNames hshown hgs he hinput hks
  | placed q _ _ ih =>
    obtain ⟨hinput, hks⟩ := ih (he.child List.mem_cons_self)
    refine ⟨All.of_children he.root (List.forall_mem_cons.2
      ⟨orderedOnce_hasDistinctNames hinput hks, fun c hc => ?_⟩), hnone⟩
    exact he.child (List.mem_cons_of_mem _ hc)
  | exposed _ _ hexpose ih =>
    obtain ⟨hinput, hks⟩ := ih (he.child List.mem_cons_self)
    obtain rfl := congrArg Prod.fst hexpose
    obtain rfl := congrArg Prod.snd hexpose
    exact exposeKeys_hasDistinctNames (fun _ => .inl rfl) (List.nil_subset _) he hinput hks
  | join kind on _ _ ihl ihr =>
    obtain ⟨hleft, hls⟩ := ihl (he.child List.mem_cons_self)
    obtain ⟨hright, hrs⟩ := ihr (he.child (List.mem_cons_of_mem _ List.mem_cons_self))
    refine ⟨All.of_children trivial (List.forall_mem_cons.2 ⟨hleft, List.forall_mem_cons.2
      ⟨hright, fun c hc => ?_⟩⟩), mergeKeys_hasDistinctNames hls hrs⟩
    exact he.child (List.mem_cons_of_mem _ (List.mem_cons_of_mem _ hc))
  | setOp op all q _ _ ihl ihr =>
    obtain ⟨hleft, _⟩ := ihl (he.child List.mem_cons_self)
    obtain ⟨hright, _⟩ := ihr (he.child (List.mem_cons_of_mem _ List.mem_cons_self))
    refine ⟨All.of_children trivial (List.forall_mem_cons.2 ⟨hleft, ?_⟩), hnone⟩
    exact List.forall_mem_singleton.2 hright

end Trees

/-- The name of a new column is the first free one of its variants, so lifting keys through a
projection keeps the names of its columns apart, and normalization does so in a whole tree. -/
theorem columns_stay_apart (flag : Bool) (cs : List Column) (key : Expr) :
    IsFirstFree (cs.map (·.name)) (keyName key) (freshName (cs.map (·.name)) (keyName key)) ∧
      ((cs.map (·.name)).Nodup → ∀ mode q d gs input ks, ∃ input' cs' d' gs',
        (liftProjection flag mode q cs d gs input ks).1 = .project q input' cs' d' gs' ∧
          cs <+: cs' ∧ (cs'.map (·.name)).Nodup) ∧
      ∀ e e', normalize flag e = .ok e' → e.All HasDistinctNames → e'.All HasDistinctNames := by
  refine ⟨freshName_isFirstFree _ _, fun hnames mode q d gs input ks => ?_, fun e e' h he => ?_⟩
  · exact exists_liftProjection hnames
  · obtain ⟨lifted, ks, hlifts, rfl⟩ := normalize_eq_ok_iff.1 h
    obtain ⟨htree, hks⟩ := hlifts.hasDistinctNames he
    exact orderedOnce_hasDistinctNames htree hks

/-- Two columns that have the names at which the search for a column `c` begins. -/
def crowdedColumns : List Column :=
  [⟨"c", .column "t" "a" .int64⟩, ⟨"c1", .column "t" "b" .int64⟩]

/-- Two keys that would both like the name `c`. -/
def crowdedKeys : List OrderKey :=
  [⟨.column "t" "c" .int64, .ascending⟩,
    ⟨.unary .negate (.column "t" "a" .int64) .int64, .descending⟩]

/-- Two names are taken, so the key gets the third, and the columns are still apart. -/
theorem columns_stay_apart_crowded :
    freshName (crowdedColumns.map (·.name)) "c" = "c2" ∧ (crowdedColumns.map (·.name)).Nodup ∧
      ∃ input' cs' d' gs',
        (liftProjection true .expose "p" crowdedColumns true []
          (.scan (.source ⟨"t", none⟩) "t" (.sequenceOf "t")) crowdedKeys).1 =
            .project "p" input' cs' d' gs' ∧
          crowdedColumns <+: cs' ∧ (cs'.map (·.name)).Nodup := by
  have hnames : (crowdedColumns.map (·.name)).Nodup := by decide
  obtain ⟨_, happart, _⟩ := columns_stay_apart true crowdedColumns (.int 0)
  exact ⟨by decide, hnames, happart hnames _ _ _ _ _ _⟩

end OrderLifting

end QueryTree
