import QueryTree.Proofs.PluginLoading
import QueryTree.Settings

/-!
# What a registry is after any calls

A registry is changed by registering a dialect or a pass and by loading a plug-in, which registers
several of them. However the calls are mixed, they tell what the registry is after them
(`Registry.Recalls`). Each name that was registered is listed once, by the last time it was
registered, and under it is the dialect of that time. The pipeline into it runs all passes that were
registered, in their order, between lowering and dead-column elimination.

Loading a plug-in registers what the plug-in has, and besides only lists the plug-in as loaded
(`perform_eq`). So a run of calls is a run of registrations (`performAll_eq`), of which the last one
under each name stays (`latest`). The registry that settings describe comes about by such calls too
(`Settings.registry_eq_after`).
-/

namespace QueryTree

/-- Work on the body of a query with parameters, and on any other tree as it is. -/
def Expr.onBody {ε : Type} (f : Expr → Except ε Expr) : Expr → Except ε Expr
  | .lambda params body => (f body).map (.lambda params)
  | e => f e

/-- Ordering normalization, generic lowering, the passes in their order, and dead-column
elimination; the first that fails ends the run. -/
def Pipeline.stages (distinctInAggregates : Bool) (passes : List Pass) (e : Expr) :
    Except QueryError Expr := do
  let normalized ← OrderLifting.normalize distinctInAggregates e
  let lowered ← Pass.lowering.run normalized
  let passed ← passes.foldlM (fun tree pass => pass.run tree) lowered
  Pass.deadColumns.run passed

/-- A pipeline runs its stages on the body of a query. -/
theorem Pipeline.prepare_eq (p : Pipeline) (e : Expr) :
    p.prepare e = e.onBody (stages p.dialect.distinctInAggregates p.extra) := by
  have hstages : Pass.runAll p.passes = stages p.dialect.distinctInAggregates p.extra := by
    funext e
    unfold Pass.runAll passes stages
    simp only [List.cons_append, List.foldlM_cons, List.foldlM_append, List.foldlM_nil, bind_pure]
    rfl
  cases e
  case lambda params body =>
    rw [prepare, hstages, Expr.onBody]
    cases stages p.dialect.distinctInAggregates p.extra body <;> rfl
  all_goals exact congrFun hstages _

namespace Registry

/-! ### Calls -/

/-- A call that changes a registry. -/
inductive Call where
  | register (x : Registration)
  | load (p : Plugin)

namespace Call

/-- The registry after the call. -/
def perform (r : Registry) : Call → Registry
  | register x => r.register x
  | load p => (r.load p).2

/-- What the call registers, in order. -/
def registrations : Call → List Registration
  | register x => [x]
  | load p => p.registrations

/-- The plug-in that is loaded by the call. -/
def loaded? : Call → Option PluginInfo
  | register _ => none
  | load p =>
    match p.outcome with
    | .ok () => some p.info
    | .error _ => none

end Call

/-- The dialects that calls register, in order. -/
def registeredDialects (calls : List Call) : List Dialect :=
  (calls.flatMap Call.registrations).filterMap Registration.dialect?

/-- The passes that calls register, in order. -/
def registeredPasses (calls : List Call) : List Pass :=
  (calls.flatMap Call.registrations).filterMap Registration.pass?

/-- The registry after calls in order, from the empty one. -/
def after (calls : List Call) : Registry := calls.foldl Call.perform empty

/-- Registrations do not look at the list of plug-ins. -/
theorem registerAll_plugins (rs : List Registration) (r : Registry) (infos : List PluginInfo) :
    rs.foldl register { r with plugins := infos } =
      { rs.foldl register r with plugins := infos } := by
  induction rs generalizing r with
  | nil => rfl
  | cons x rs ih =>
    have hx : register { r with plugins := infos } x = { r.register x with plugins := infos } := by
      cases x <;> rfl
    rw [List.foldl_cons, List.foldl_cons, hx, ih]

/-- A call registers what it has to register, and lists a plug-in that is loaded. -/
theorem perform_eq (r : Registry) (c : Call) :
    c.perform r = { c.registrations.foldl register r with
      plugins := r.plugins ++ c.loaded?.toList } := by
  cases c with
  | register x => cases x <;> simp [Call.perform, Call.registrations, Call.loaded?, register,
      addDialect, addPass]
  | load p =>
    rw [← plugins_registerAll p.registrations]
    cases h : p.outcome with
    | ok u =>
      have hload : (r.load p).2 = { p.registrations.foldl register r with
          plugins := (p.registrations.foldl register r).plugins ++ [p.info] } := by
        rw [load, h]
      rw [Call.perform, hload, Call.loaded?, h]
      rfl
    | error fault =>
      have hload : (r.load p).2 = p.registrations.foldl register r := by rw [load, h]
      rw [Call.perform, hload, Call.loaded?, h, Option.toList_none, List.append_nil]
      rfl

/-- Calls register what each of them registers, one after the other. -/
theorem performAll_eq (calls : List Call) (r : Registry) :
    calls.foldl Call.perform r = { (calls.flatMap Call.registrations).foldl register r with
      plugins := r.plugins ++ calls.filterMap Call.loaded? } := by
  induction calls generalizing r with
  | nil => simp
  | cons c calls ih =>
    rw [List.foldl_cons, ih, perform_eq, registerAll_plugins, List.flatMap_cons, List.foldl_append]
    cases h : c.loaded? with
    | none => rw [List.filterMap_cons_none h, Option.toList_none, List.append_nil]
    | some info =>
      rw [List.filterMap_cons_some h, Option.toList_some, List.append_assoc, List.singleton_append]

/-- The dialects after calls are the last ones registered under each name. -/
theorem dialects_after (calls : List Call) :
    (after calls).dialects = latest (registeredDialects calls) := by
  rw [after, performAll_eq]
  exact dialects_registerAll _

/-- The passes after calls are all that were registered. -/
theorem passes_after (calls : List Call) : (after calls).passes = registeredPasses calls := by
  rw [after, performAll_eq]
  exact passes_registerAll _

/-- The plug-ins after calls are those that did not fail. -/
theorem plugins_after (calls : List Call) :
    (after calls).plugins = calls.filterMap Call.loaded? := by
  rw [after, performAll_eq]
  rfl

/-! ### The last dialect of each name -/

/-- The dialect is listed, and none of its name after it. -/
def IsLast (ds : List Dialect) (d : Dialect) : Prop :=
  ∃ earlier later, ds = earlier ++ d :: later ∧ ∀ d' ∈ later, d'.name ≠ d.name

/-- In a list of names, `b` comes again when `a` does not come any more. -/
def LastBefore (names : List String) (a b : String) : Prop :=
  ∃ earlier later, names = earlier ++ b :: later ∧ a ∉ b :: later

/-- A name before the list changes nothing behind it. -/
theorem LastBefore.cons {names : List String} {a b : String} (h : LastBefore names a b)
    (name : String) : LastBefore (name :: names) a b := by
  obtain ⟨earlier, later, rfl, ha⟩ := h
  exact ⟨name :: earlier, later, rfl, ha⟩

/-- A name that does not come at all is before one that does. -/
theorem lastBefore_of_notMem {names : List String} {a b : String} (ha : a ∉ names)
    (hb : b ∈ names) : LastBefore names a b := by
  obtain ⟨earlier, later, rfl⟩ := List.append_of_mem hb
  exact ⟨earlier, later, rfl, fun hmem => ha (List.mem_append_right _ hmem)⟩

theorem any_name_iff {ds : List Dialect} {name : String} :
    ds.any (·.name == name) = true ↔ name ∈ ds.map (·.name) := by
  simp

/-- No name is lost. -/
theorem mem_names_latest (ds : List Dialect) (name : String) :
    name ∈ (latest ds).map (·.name) ↔ name ∈ ds.map (·.name) := by
  induction ds with
  | nil => rfl
  | cons d ds ih =>
    rw [latest]
    split
    next h =>
      rw [ih, List.map_cons, List.mem_cons]
      refine ⟨.inr, ?_⟩
      rintro (rfl | hmem)
      · exact any_name_iff.1 h
      · exact hmem
    next => rw [List.map_cons, List.map_cons, List.mem_cons, List.mem_cons, ih]

/-- The names stand in the order of their last registrations. -/
theorem pairwise_names_latest (ds : List Dialect) :
    ((latest ds).map (·.name)).Pairwise (LastBefore (ds.map (·.name))) := by
  induction ds with
  | nil => exact .nil
  | cons d ds ih =>
    have hrest : ((latest ds).map (·.name)).Pairwise (LastBefore ((d :: ds).map (·.name))) :=
      ih.imp fun h => h.cons d.name
    rw [latest]
    split
    next => exact hrest
    next h =>
      -- the name of `d` does not come again, and all that are left do
      refine List.pairwise_cons.2 ⟨fun name hname => ?_, hrest⟩
      have hd : d.name ∉ ds.map (·.name) := fun hmem => h (any_name_iff.2 hmem)
      exact (lastBefore_of_notMem hd ((mem_names_latest ds name).1 hname)).cons d.name

/-- No name is before itself. -/
theorem LastBefore.ne {names : List String} {a b : String} (h : LastBefore names a b) : a ≠ b := by
  obtain ⟨earlier, later, -, ha⟩ := h
  rintro rfl
  exact ha List.mem_cons_self

/-- The last dialect of a name is found from the end. -/
theorem find?_reverse_eq_some_iff {ds : List Dialect} {name : String} {d : Dialect} :
    ds.reverse.find? (·.name == name) = some d ↔ IsLast ds d ∧ d.name = name := by
  rw [List.find?_eq_some_iff_append]
  constructor
  · rintro ⟨hname, later, earlier, hds, hlater⟩
    obtain rfl : d.name = name := beq_iff_eq.1 hname
    refine ⟨⟨earlier.reverse, later.reverse, ?_, fun d' hd' => ?_⟩, rfl⟩
    · rw [← List.reverse_reverse ds, hds]
      simp
    · simpa using hlater d' (List.mem_reverse.1 hd')
  · rintro ⟨⟨earlier, later, rfl, hlater⟩, rfl⟩
    refine ⟨beq_self_eq_true _, later.reverse, earlier.reverse, by simp, fun d' hd' => ?_⟩
    simpa using hlater d' (List.mem_reverse.1 hd')

/-- A name stands for the last dialect that was registered under it. -/
theorem dialect?_after (calls : List Call) (name : String) :
    (after calls).dialect? name = (registeredDialects calls).reverse.find? (·.name == name) := by
  rw [after, performAll_eq]
  exact (dialect?_registerAll _ name).trans (Option.or_none)

/-! ### What calls leave -/

/-- The registry is as the calls have made it. -/
structure Recalls (r : Registry) (calls : List Call) : Prop where
  /-- No name is listed twice. -/
  nodup : r.dialectNames.Nodup
  mem_names : ∀ name, name ∈ r.dialectNames ↔ ∃ d ∈ registeredDialects calls, d.name = name
  /-- Names are listed by the last time they were registered. -/
  ordered : r.dialectNames.Pairwise (LastBefore ((registeredDialects calls).map (·.name)))
  /-- A name stands for the dialect that was registered last under it. -/
  dialect : ∀ name d, r.dialect? name = some d ↔ IsLast (registeredDialects calls) d ∧ d.name = name
  plugins : r.plugins = calls.filterMap Call.loaded?
  /-- There is no pipeline into a dialect that was not registered. -/
  unknown : ∀ name, r.pipeline name = .error (.configuration s!"unknown dialect '{name}'") ↔
    ∀ d ∈ registeredDialects calls, d.name ≠ name
  /-- The pipeline into any other goes by the flag of its dialect and runs all registered passes. -/
  pipeline : ∀ name, (∃ d ∈ registeredDialects calls, d.name = name) →
    ∃ p, r.pipeline name = .ok p ∧ r.dialect? name = some p.dialect ∧
      ∀ e, p.prepare e =
        e.onBody (Pipeline.stages p.dialect.distinctInAggregates (registeredPasses calls))

/-- The pipeline into a dialect has the passes of the registry. -/
theorem pipeline_of_some {r : Registry} {name : String} {d : Dialect}
    (h : r.dialect? name = some d) : r.pipeline name = .ok ⟨d, r.passes⟩ := by
  rw [pipeline, h]

/-- There is no pipeline exactly if there is no dialect. -/
theorem pipeline_eq_error_iff {r : Registry} {name : String} :
    r.pipeline name = .error (.configuration s!"unknown dialect '{name}'") ↔
      r.dialect? name = none := by
  rw [pipeline]
  cases r.dialect? name with
  | none => exact iff_of_true rfl rfl
  | some d => exact iff_of_false nofun nofun

/-- A name that was never registered stands for nothing. -/
theorem dialect?_after_eq_none_iff {calls : List Call} {name : String} :
    (after calls).dialect? name = none ↔ ∀ d ∈ registeredDialects calls, d.name ≠ name := by
  simp [dialect?_after]

/-- The pipeline into a registered dialect runs all registered passes in their order. -/
theorem exists_pipeline_after {calls : List Call} {name : String}
    (h : ∃ d ∈ registeredDialects calls, d.name = name) :
    ∃ p, (after calls).pipeline name = .ok p ∧ (after calls).dialect? name = some p.dialect ∧
      ∀ e, p.prepare e =
        e.onBody (Pipeline.stages p.dialect.distinctInAggregates (registeredPasses calls)) := by
  cases hd : (after calls).dialect? name with
  | none =>
    obtain ⟨d, hmem, hname⟩ := h
    exact absurd hname (dialect?_after_eq_none_iff.1 hd d hmem)
  | some d =>
    refine ⟨⟨d, (after calls).passes⟩, pipeline_of_some hd, rfl, fun e => ?_⟩
    rw [Pipeline.prepare_eq, passes_after]

end Registry

/-! ### Settings -/

namespace Settings

/-- The calls that settings stand for. -/
def calls (s : Settings) : List Registry.Call :=
  .load .postgres :: s.dialects.map fun d => .register (.dialect d)

/-- Dialects are registered one after the other, unless one of them has no name. -/
theorem addDialects_eq_ok_iff {ds : List Dialect} {r r' : Registry} :
    addDialects ds r = .ok r' ↔ (∀ d ∈ ds, d.name ≠ "") ∧
      r' = (ds.map fun d => Registry.Call.register (.dialect d)).foldl Registry.Call.perform r := by
  induction ds generalizing r with
  | nil =>
    rw [addDialects, List.map_nil, List.foldl_nil, Except.ok.injEq, eq_comm]
    exact ⟨fun h => ⟨nofun, h⟩, And.right⟩
  | cons d ds ih =>
    rw [addDialects]
    split
    next h => exact iff_of_false nofun fun hall => hall.1 d List.mem_cons_self h
    next h =>
      rw [ih, List.forall_mem_cons]
      exact and_congr_left' (and_iff_right h).symm

/-- The registry of settings is made by their calls, if each of their dialects has a name. -/
theorem registry_eq_after {s : Settings} {r : Registry} :
    s.registry = .ok r ↔ (∀ d ∈ s.dialects, d.name ≠ "") ∧ r = Registry.after s.calls := by
  have hregistry :
      s.registry = addDialects s.dialects (Registry.Call.perform .empty (.load .postgres)) := rfl
  rw [hregistry, addDialects_eq_ok_iff]
  rfl

end Settings

namespace Registry

/-- After any calls, from the empty registry, the registry is as the calls have made it: it keeps
the latest dialect of each name, and its pipelines run all passes. So is the registry of settings,
after the call for the built-in plug-in and one for each dialect. -/
theorem recalls_after (calls : List Call) :
    (after calls).Recalls calls ∧
      ∀ (s : Settings) (r : Registry),
        s.registry = .ok r ↔ (∀ d ∈ s.dialects, d.name ≠ "") ∧ r = after s.calls := by
  have hnames : (after calls).dialectNames =
      (latest (registeredDialects calls)).map (·.name) := by rw [dialectNames, dialects_after]
  have hordered := pairwise_names_latest (registeredDialects calls)
  refine ⟨⟨?_, fun name => ?_, hnames ▸ hordered, fun name d => ?_, plugins_after calls,
    fun name => pipeline_eq_error_iff.trans dialect?_after_eq_none_iff,
    fun name => exists_pipeline_after⟩, fun s r => Settings.registry_eq_after⟩
  · rw [hnames]
    exact hordered.imp LastBefore.ne
  · rw [hnames, mem_names_latest, List.mem_map]
  · rw [dialect?_after, find?_reverse_eq_some_iff]

-- a plug-in registers a dialect again, which moves behind the other
example :
    (after [.register (.dialect { name := "lite" }), .register (.dialect .postgres),
      .load ⟨⟨"lite", "0.1.0", ""⟩, [.pass .lowering, .dialect { name := "lite" }],
        .ok ()⟩]).dialectNames = ["postgres", "lite"] := by decide

end Registry

end QueryTree
