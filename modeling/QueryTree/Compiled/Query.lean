import QueryTree.Compiled.Step

/-!
# Compiled queries

A call by itself runs its stages to the end. Calls at once are interleaved; in a race all of them
compile before the first one publishes.
-/

namespace QueryTree

/-- Run a call until it is done or about to publish. -/
def Stage.untilPublish (bs : Backends) (q : Query) (c : Call) (s : Stage) (shared : Shared) :
    Stage × Shared :=
  if s.isPublishing then (s, shared)
  else
    match h : s.outcome? with
    | some _ => (s, shared)
    | none =>
      have := Stage.rank_next_lt bs q c s shared h
      untilPublish bs q c (s.next bs q c shared).1 (s.next bs q c shared).2
termination_by s.rank

/-- Run a call to its end. -/
def Stage.finish (bs : Backends) (q : Query) (c : Call) (s : Stage) (shared : Shared) :
    Outcome × Shared :=
  match h : s.outcome? with
  | some o => (o, shared)
  | none =>
    have := Stage.rank_next_lt bs q c s shared h
    finish bs q c (s.next bs q c shared).1 (s.next bs q c shared).2
termination_by s.rank

/-- A query with the slot for its plan. -/
structure CompiledQuery where
  query : Query
  plan? : Option Plan := none

namespace CompiledQuery

/-- A query that has not been compiled. -/
def ofQuery (q : Query) : CompiledQuery := ⟨q, none⟩

/-- The number of arguments that it takes. -/
def arity (q : CompiledQuery) : Nat := q.query.arity

/-- There is a plan in its slot. -/
def isCompiled (q : CompiledQuery) : Bool := q.plan?.isSome

/-- Carry out one call. -/
def perform (bs : Backends) (c : Call) (q : CompiledQuery) (activity : Activity) :
    Outcome × CompiledQuery × Activity :=
  let (outcome, shared) := (Stage.first c).finish bs q.query c ⟨q.plan?, activity⟩
  (outcome, { q with plan? := shared.slot }, shared.activity)

/-! ## Racing calls -/

/-- Bring every call to where it publishes, one after the other. -/
def lineUp (bs : Backends) (q : Query) : List Call → Shared → List (Call × Stage) × Shared
  | [], shared => ([], shared)
  | c :: rest, shared =>
    let (s, shared) := (Stage.first c).untilPublish bs q c shared
    let (lined, shared) := lineUp bs q rest shared
    ((c, s) :: lined, shared)

/-- Finish every call, one after the other. -/
def finishAll (bs : Backends) (q : Query) : List (Call × Stage) → Shared → List Outcome × Shared
  | [], shared => ([], shared)
  | (c, s) :: rest, shared =>
    let (o, shared) := s.finish bs q c shared
    let (outcomes, shared) := finishAll bs q rest shared
    (o :: outcomes, shared)

/-- Carry out calls at once: all of them compile before the first one publishes. -/
def race (bs : Backends) (calls : List Call) (q : CompiledQuery) (activity : Activity) :
    List Outcome × CompiledQuery × Activity :=
  let (lined, shared) := lineUp bs q.query calls ⟨q.plan?, activity⟩
  let (outcomes, shared) := finishAll bs q.query lined shared
  (outcomes, { q with plan? := shared.slot }, shared.activity)

/-! ## In words -/

/-- A plan in its structural form. -/
def planText (p : Plan) : String :=
  fieldList "CompiledPlan"
    [("callable", p.callable.text), ("provider", Quoted.text p.provider),
      ("resolution", p.resolution.label)]

/-- A compiled query in its structural form. -/
def text (q : CompiledQuery) : String :=
  fieldList "CompiledQuery"
    [("arity", toString q.arity), ("plan", optional (q.plan?.map planText))]

end CompiledQuery

end QueryTree
