import QueryTree.Proofs.Rebuild

/-!
# Substitution is evaluation under bindings

Arguments can reach the parameters of an expression in two ways: they are put into the tree, or the
tree stays as it is and the environment answers for them. Both give the same outcome, value or
failure (`evaluate_substitute`).

Which parameters a substituted tree still refers to is said for every reference of the tree, in the
order in which they stand there. `references` lists them, each with the mark whether a lambda inside
the tree declares its name. Substitution takes away the references that are free and have an
argument, and no other (`references_substitute`). It meets a lambda by dropping the bindings of the
names that the lambda declares; these are the names whose references the lambda marks as bound, so
the two stay in step under any number of nested lambdas.
-/

namespace QueryTree

/-- The environment in which the listed parameters are bound, and everything else is as before; of
two parameters with one name the later counts. -/
def Env.extend (env : Env) (bindings : List (String × Value)) : Env where
  parameter name := (bindings.reverse.lookup name).or (env.parameter name)
  column := env.column

/-- The declared names with the arguments that are paired with them. What is left over on either
side has no partner. -/
def argumentPairs (params : List Parameter) (args : List Value) : List (String × Value) :=
  (params.map (·.name)).zip args

/-! ### Bindings -/

namespace Bindings

/-- Of the bindings of a name the last one is found. -/
theorem find?_eq_lookup (bs : Bindings) (name : String) :
    (bs.find? name).map (·.value) =
      (bs.map fun b => (b.param.name, b.value)).reverse.lookup name := by
  unfold find?
  rw [← List.map_reverse]
  generalize bs.reverse = bs
  induction bs with
  | nil => rfl
  | cons b bs ih =>
    rw [List.find?_cons, List.map_cons, List.lookup_cons]
    by_cases hb : b.param.name = name
    · simp [hb]
    · rw [beq_false_of_ne hb, beq_false_of_ne (Ne.symm hb)]
      exact ih

/-- Arguments are bound to the names that they are paired with. -/
theorem map_ofArguments (params : List Parameter) (args : List Value) :
    (ofArguments params args).map (fun b => (b.param.name, b.value)) =
      argumentPairs params args := by
  rw [ofArguments, argumentPairs, List.map_zipWith, List.zip, List.zipWith_map_left]

/-- A name has a binding exactly when it is paired with an argument. -/
theorem find?_eq_none_iff {params : List Parameter} {args : List Value} {name : String} :
    (ofArguments params args).find? name = none ↔
      name ∉ (argumentPairs params args).map (·.1) := by
  rw [← map_ofArguments, List.map_map]
  simp [find?]

/-- A lambda hides the bindings of the names that it declares. -/
theorem find?_shadow (bs : Bindings) (params : List Parameter) (name : String) :
    (bs.shadow params).find? name =
      if params.any (·.name == name) then none else bs.find? name := by
  unfold find? shadow
  rw [← List.filter_reverse, List.find?_filter]
  generalize bs.reverse = bs
  split
  next hdeclared =>
    rw [List.find?_eq_none]
    intro b _ hb
    obtain ⟨hkept, rfl⟩ : (params.any fun p => p.name == b.param.name) = false ∧
        b.param.name = name := by simpa using hb
    exact Bool.false_ne_true (hkept.symm.trans hdeclared)
  next hfree =>
    apply congrArg (List.find? · bs)
    funext b
    by_cases hb : b.param.name = name
    · simp [hb, Bool.eq_false_iff.2 hfree]
    · simp [hb]

end Bindings

namespace Expr

/-! ### Evaluation -/

/-- Putting bound values into an expression is evaluating it where they are bound. By induction on
the expression. The last binding of a name counts on both sides, and a lambda, below which names are
shadowed, has no value on either. -/
theorem evaluate_substitute (bs : Bindings) (env : Env) (e : Expr) :
    (e.substitute bs).evaluate env =
      e.evaluate (env.extend (bs.map fun b => (b.param.name, b.value))) := by
  induction e using treeInduction with
  | const v t => rfl
  | param n t =>
    have hanswer : (env.extend (bs.map fun b => (b.param.name, b.value))).parameter n =
        ((bs.find? n).map (·.value)).or (env.parameter n) := by
      rw [Bindings.find?_eq_lookup]
      rfl
    rw [substitute, evaluate, hanswer]
    cases bs.find? n with
    | none => rfl
    | some b => rfl
  | column a n t => rfl
  | member e n t ih => rw [substitute, evaluate, evaluate, ih]
  | binary op l r t ihl ihr => rw [substitute, evaluate, evaluate, ihl, ihr]
  | unary op e t ih => rw [substitute, evaluate, evaluate, ih]
  | call n es t ih =>
    rw [substitute, evaluate, evaluate, evaluateList_eq, evaluateList_eq, substituteList_eq,
      List.mapM_map]
    have hargs : es.mapM (evaluate env ∘ substitute bs) =
        es.mapM (evaluate (env.extend (bs.map fun b => (b.param.name, b.value)))) :=
      Attempt.mapM_congr ih
    rw [hargs]
  -- no other node is a scalar, and the failure names its kind, which stays
  | aggregate | lambda | scan | filter | project | order | limit | join | setOp => rfl

/-! ### References -/

/-- A reference to a parameter, and whether a lambda of the tree binds it. -/
structure Reference where
  param : Parameter
  bound : Bool
deriving DecidableEq, Repr

/-- A reference seen from outside a lambda. -/
def Reference.under (params : List Parameter) (r : Reference) : Reference :=
  if params.any (·.name == r.param.name) then { r with bound := true } else r

mutual

/-- The references of a tree to parameters, from left to right. -/
def references : Expr → List Reference
  | param name t => [⟨⟨name, t⟩, false⟩]
  | lambda params body => (references body).map (·.under params)
  | const .. | column .. => []
  | member target _ _ => references target
  | binary _ left right _ => references left ++ references right
  | unary _ operand _ => references operand
  | call _ args _ => referencesList args
  | aggregate _ arg _ _ => referencesOption arg
  | scan source _ _ => references source
  | filter input predicate => references input ++ references predicate
  | project _ input columns _ groupBy =>
    references input ++ referencesColumns columns ++ referencesList groupBy
  | order input keys => references input ++ referencesKeys keys
  | limit input take skip => references input ++ referencesOption take ++ referencesOption skip
  | join _ left right on => references left ++ references right ++ referencesOption on
  | setOp _ _ left right _ => references left ++ references right

/-- The references of several trees. -/
def referencesList : List Expr → List Reference
  | [] => []
  | e :: rest => references e ++ referencesList rest

/-- The references of an optional tree. -/
def referencesOption : Option Expr → List Reference
  | none => []
  | some e => references e

/-- The references of columns. -/
def referencesColumns : List (ColumnOf Expr) → List Reference
  | [] => []
  | ⟨_, e⟩ :: rest => references e ++ referencesColumns rest

/-- The references of ordering keys. -/
def referencesKeys : List (KeyOf Expr) → List Reference
  | [] => []
  | ⟨e, _⟩ :: rest => references e ++ referencesKeys rest

end

/-- The parameters that a tree refers to and leaves to its surroundings. -/
def freeReferences (e : Expr) : List Parameter :=
  (e.references.filter fun r => !r.bound).map (·.param)

/-- The parameters that a tree refers to below a lambda that declares them. -/
def boundReferences (e : Expr) : List Parameter :=
  (e.references.filter fun r => r.bound).map (·.param)

theorem referencesList_eq (es : List Expr) : referencesList es = es.flatMap references := by
  induction es with
  | nil => rfl
  | cons e es ih => rw [referencesList, ih, List.flatMap_cons]

theorem referencesOption_eq (o : Option Expr) :
    referencesOption o = o.toList.flatMap references := by
  cases o with
  | none => rfl
  | some e => simp [referencesOption]

theorem referencesColumns_eq (cs : List Column) :
    referencesColumns cs = (cs.map (·.expr)).flatMap references := by
  induction cs with
  | nil => rfl
  | cons c cs ih => rw [referencesColumns, ih, List.map_cons, List.flatMap_cons]

theorem referencesKeys_eq (ks : List OrderKey) :
    referencesKeys ks = (ks.map (·.expr)).flatMap references := by
  induction ks with
  | nil => rfl
  | cons k ks ih => rw [referencesKeys, ih, List.map_cons, List.flatMap_cons]

/-- Except at a parameter and at a lambda, the references of a node are those of its subtrees,
before and after substitution. -/
theorem references_cases (bs : Bindings) (e : Expr) :
    (∃ n t, e = .param n t) ∨ (∃ ps b, e = .lambda ps b) ∨
      (e.references = e.children.flatMap references ∧
        (e.substitute bs).references =
          e.children.flatMap fun c => (c.substitute bs).references) := by
  cases e with
  | param n t => exact .inl ⟨n, t, rfl⟩
  | lambda ps b => exact .inr (.inl ⟨ps, b, rfl⟩)
  | _ =>
    refine .inr (.inr ⟨?_, ?_⟩)
    all_goals
      simp [substitute, references, children, referencesList_eq, referencesOption_eq,
        referencesColumns_eq, referencesKeys_eq, List.flatMap_map, Option.toList_map]

/-- The reference stays: a lambda binds it, or its name has no binding. -/
def Reference.stays (bs : Bindings) (r : Reference) : Bool :=
  r.bound || (bs.find? r.param.name).isNone

/-- What stays below a lambda is what stays of the references seen from outside. -/
theorem Reference.stays_under (bs : Bindings) (params : List Parameter) (r : Reference) :
    (r.under params).stays bs = r.stays (bs.shadow params) := by
  unfold Reference.under Reference.stays
  rw [Bindings.find?_shadow]
  split
  · simp
  · rfl

/-- Substitution takes away the references that are free and have a binding. -/
theorem references_substitute (bs : Bindings) (e : Expr) :
    (e.substitute bs).references = e.references.filter (·.stays bs) := by
  induction e using childInduction generalizing bs with
  | h e ih =>
    rcases references_cases bs e with ⟨n, t, rfl⟩ | ⟨ps, b, rfl⟩ | ⟨hbefore, hafter⟩
    · rw [substitute]
      cases hn : bs.find? n with
      | none => simp [references, Reference.stays, hn]
      | some b => simp [references, Reference.stays, hn]
    · have hbody := ih b (List.mem_singleton.2 rfl) (bs.shadow ps)
      rw [substitute, references, references, hbody, List.filter_map]
      refine congrArg (List.map _) (List.filter_congr fun r _ => ?_)
      exact (Reference.stays_under bs ps r).symm
    · rw [hbefore, hafter, List.filter_flatMap]
      exact List.flatMap_congr fun c hc => ih c hc bs

/-- Arguments that are put into a tree are seen as if the environment answered for them: by name, of
two arguments for one name the last. The tree then refers to the parameters that it referred to
before, but for the free ones that have an argument. -/
theorem substitute_arguments (params : List Parameter) (args : List Value) (e : Expr) :
    (∀ env : Env, (e.substitute (.ofArguments params args)).evaluate env =
        e.evaluate (env.extend (argumentPairs params args))) ∧
      (e.substitute (.ofArguments params args)).freeReferences =
        e.freeReferences.filter (fun p => p.name ∉ (argumentPairs params args).map (·.1)) ∧
      (e.substitute (.ofArguments params args)).boundReferences = e.boundReferences := by
  have hstays (r : Reference) : r.stays (.ofArguments params args) =
      (r.bound || decide (r.param.name ∉ (argumentPairs params args).map (·.1))) := by
    apply congrArg (r.bound || ·)
    rw [Bool.eq_iff_iff, Option.isNone_iff_eq_none, Bindings.find?_eq_none_iff, decide_eq_true_iff]
  refine ⟨fun env => ?_, ?_, ?_⟩
  · rw [evaluate_substitute, Bindings.map_ofArguments]
  · unfold freeReferences
    rw [references_substitute, List.filter_filter, List.filter_map, List.filter_filter]
    refine congrArg (List.map _) (List.filter_congr fun r _ => ?_)
    rw [hstays]
    cases r.bound <;> simp
  · unfold boundReferences
    rw [references_substitute, List.filter_filter]
    refine congrArg (List.map _) (List.filter_congr fun r _ => ?_)
    rw [hstays]
    cases r.bound <;> simp

/-- Of two arguments for one name the last is put in, and a lambda that declares the name again
keeps its own reference. -/
example :
    (call "f" [.param "x" .int64, .lambda [⟨"x", .int64⟩] (.param "x" .int64)] .int64).substitute
        (.ofArguments [⟨"x", .int64⟩, ⟨"x", .int64⟩] [.int 1, .int 2]) =
      .call "f" [.const (.int 2) .int64, .lambda [⟨"x", .int64⟩] (.param "x" .int64)] .int64 := rfl

end Expr

end QueryTree
