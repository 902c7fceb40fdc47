import QueryTree.Registry

/-!
# What loading a plug-in leaves behind

A plug-in registers its dialects and passes one after the other, and then succeeds or fails. What it
registers takes effect at once, so that a plug-in which fails leaves it behind (`load_of_error`);
only the list of loaded plug-ins is then as it was. Nothing else changes: passes are added at the
end (`passes_registerAll`), and an earlier dialect goes only if one of its name was registered
(`dialects_registerAll`).
-/

namespace QueryTree

namespace Registration

/-- The dialect that is registered. -/
def dialect? : Registration → Option Dialect
  | dialect d => some d
  | pass _ => none

/-- The pass that is registered. -/
def pass? : Registration → Option Pass
  | dialect _ => none
  | pass p => some p

end Registration

namespace Plugin

/-- The dialects that a plug-in registers, in order. -/
def dialects (p : Plugin) : List Dialect := p.registrations.filterMap Registration.dialect?

/-- The passes that a plug-in registers, in order. -/
def passes (p : Plugin) : List Pass := p.registrations.filterMap Registration.pass?

/-- The last dialect that a plug-in registers under a name. -/
def dialect? (p : Plugin) (name : String) : Option Dialect :=
  p.dialects.reverse.find? (·.name == name)

end Plugin

namespace Registry

/-- Of dialects registered one after the other, the last one of each name. -/
def latest : List Dialect → List Dialect
  | [] => []
  | d :: rest => if rest.any (·.name == d.name) then latest rest else d :: latest rest

variable {r : Registry}

/-- Registrations add no plug-in to the list. -/
theorem plugins_registerAll (rs : List Registration) :
    (rs.foldl register r).plugins = r.plugins := by
  induction rs generalizing r with
  | nil => rfl
  | cons x rs ih =>
    rw [List.foldl_cons, ih]
    cases x <;> rfl

/-- Passes are appended in the order of their registrations. -/
theorem passes_registerAll (rs : List Registration) :
    (rs.foldl register r).passes = r.passes ++ rs.filterMap Registration.pass? := by
  induction rs generalizing r with
  | nil => simp
  | cons x rs ih =>
    rw [List.foldl_cons, ih]
    cases x with
    | dialect d => simp [register, addDialect, Registration.pass?, List.filterMap_cons]
    | pass p => simp [register, addPass, Registration.pass?]

/-- Registering dialects takes away those of the same names and adds the last one of each name. By
induction on the registrations, of which the passes leave the dialects as they are. -/
theorem dialects_registerAll (rs : List Registration) :
    (rs.foldl register r).dialects =
      r.dialects.filter (fun d => !(rs.filterMap Registration.dialect?).any (·.name == d.name)) ++
        latest (rs.filterMap Registration.dialect?) := by
  induction rs generalizing r with
  | nil =>
    rw [List.foldl_nil, List.filterMap_nil, latest, List.append_nil, List.filter_eq_self.2]
    intro d _
    rfl
  | cons x rs ih =>
    rw [List.foldl_cons, ih]
    cases x with
    | pass p => simp [register, addPass, Registration.dialect?, List.filterMap_cons]
    | dialect d =>
      -- An earlier dialect stays if it has neither the name of `d` nor one of those that follow;
      -- `d` itself stays if its name does not come again.
      have hold : ∀ old : Dialect, (!(d :: rs.filterMap Registration.dialect?).any
          (·.name == old.name)) = (!(rs.filterMap Registration.dialect?).any (·.name == old.name) &&
            old.name != d.name) := by
        intro old
        rw [List.any_cons, Bool.not_or, Bool.and_comm, bne, BEq.comm]
      simp only [register, addDialect, Registration.dialect?, List.filterMap_cons, hold, latest,
        List.filter_append, List.filter_filter, List.append_assoc]
      cases h : (rs.filterMap Registration.dialect?).any (·.name == d.name) with
      | true => simp only [List.filter_cons, h]; simp
      | false => simp only [List.filter_cons, h]; simp

/-- A dialect takes the place of the one that had its name. -/
theorem dialect?_addDialect (d : Dialect) (name : String) :
    (r.addDialect d).dialect? name = if d.name == name then some d else r.dialect? name := by
  unfold dialect? addDialect
  rw [List.find?_append, List.find?_singleton]
  by_cases h : d.name = name
  · have hgone : (r.dialects.filter (·.name != d.name)).find? (·.name == name) = none := by
      simp [List.find?_eq_none, h]
    rw [hgone, Option.none_or, if_pos (beq_iff_eq.2 h), if_pos (beq_iff_eq.2 h)]
  · have hkept : (r.dialects.filter (·.name != d.name)).find? (·.name == name) =
        r.dialects.find? (·.name == name) := by
      rw [List.find?_filter]
      congr 1
      funext old
      by_cases hold : old.name = name
      · simp [hold, Ne.symm h]
      · simp [hold]
    rw [hkept, if_neg (mt beq_iff_eq.1 h), if_neg (mt beq_iff_eq.1 h), Option.or_none]

/-- A name stands for the last dialect registered under it, and for what it stood for before if
there is none. -/
theorem dialect?_registerAll (rs : List Registration) (name : String) :
    (rs.foldl register r).dialect? name =
      ((rs.filterMap Registration.dialect?).reverse.find? (·.name == name)).or
        (r.dialect? name) := by
  induction rs generalizing r with
  | nil => simp
  | cons x rs ih =>
    rw [List.foldl_cons, ih]
    cases x with
    | pass p => rfl
    | dialect d =>
      have hstep : (r.register (.dialect d)).dialect? name =
          ([d].find? (·.name == name)).or (r.dialect? name) := by
        rw [register, dialect?_addDialect, List.find?_singleton]
        split <;> rfl
      simp only [hstep, List.filterMap_cons, Registration.dialect?, List.reverse_cons,
        List.find?_append, Option.or_assoc]

/-- The registrations that were made before loading failed remain. -/
theorem load_of_error {p : Plugin} {fault : Fault} (h : (r.load p).1 = .error fault) :
    (r.load p).2 = p.registrations.foldl register r := by
  unfold load at h ⊢
  cases ho : p.outcome with
  | ok u => simp [ho] at h
  | error f => rfl

/-- A plug-in that fails is not listed as loaded, and leaves behind exactly what it registered: its
passes follow the earlier ones, and the last dialect of each name that it registered stands in place
of the earlier dialect of that name. If it registered nothing, the registry is as it was. -/
theorem registered_of_load_error {p : Plugin} {fault : Fault}
    (h : (r.load p).1 = .error fault) :
    (r.load p).2.plugins = r.plugins ∧
    (r.load p).2.passes = r.passes ++ p.passes ∧
    (r.load p).2.dialects =
      r.dialects.filter (fun d => !p.dialects.any (·.name == d.name)) ++ latest p.dialects ∧
    (∀ name, (r.load p).2.dialect? name = (p.dialect? name).or (r.dialect? name)) ∧
    (p.registrations = [] → (r.load p).2 = r) := by
  rw [load_of_error h]
  refine ⟨plugins_registerAll _, passes_registerAll _, dialects_registerAll _,
    dialect?_registerAll _, ?_⟩
  intro hnone
  rw [hnone, List.foldl_nil]

/-- A registry with two dialects. -/
def genericAndPostgres : Registry := { dialects := [{ name := "generic" }, .postgres] }

/-- A plug-in that registers a dialect under a name that is taken, a pass, a new dialect and the
first one again, and then fails. -/
def missingDriver : Plugin where
  info := ⟨"driver", "0.1.0", ""⟩
  registrations :=
    [.dialect { name := "generic", multipleStatements := true }, .pass .lowering,
      .dialect { name := "lite" }, .dialect { name := "generic", quoteStyle := .double }]
  outcome := .error (.other "missing driver")

/-- After the failure there is no plug-in in the list, but its pass and its dialects are registered,
the last one of each name. -/
theorem registered_of_load_error_missingDriver :
    (genericAndPostgres.load missingDriver).1 = .error (.other "missing driver") ∧
    (genericAndPostgres.load missingDriver).2.plugins = [] ∧
    (genericAndPostgres.load missingDriver).2.passes = [.lowering] ∧
    (genericAndPostgres.load missingDriver).2.dialects =
      [.postgres, { name := "lite" }, { name := "generic", quoteStyle := .double }] := by
  have hfail : (genericAndPostgres.load missingDriver).1 = .error (.other "missing driver") := rfl
  obtain ⟨hplugins, hpasses, hdialects, -⟩ := registered_of_load_error hfail
  exact ⟨hfail, hplugins, hpasses, hdialects.trans (by decide)⟩

/-- The failed plug-in has replaced a dialect, and added a dialect and a pass. -/
theorem load_missingDriver_ne :
    (genericAndPostgres.load missingDriver).1 = .error (.other "missing driver") ∧
    (genericAndPostgres.load missingDriver).2.dialects ≠ genericAndPostgres.dialects ∧
    (genericAndPostgres.load missingDriver).2.passes ≠ genericAndPostgres.passes := by
  refine ⟨rfl, by decide, ?_⟩
  intro h
  exact absurd (congrArg List.length h) (by decide)

end Registry

end QueryTree
