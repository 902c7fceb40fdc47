import QueryTree.Provider.Callable
import QueryTree.Provider.Resolve

/-!
# Steps of a call

A compiled query is a query with a slot for its plan. The slot is empty at first; the first plan
that is published fills it for good. Several callers may share the slot, so a call is given as a
sequence of stages, and `Stage.next` takes one step: everything between two steps of a call may
belong to others.

A call that finds the slot empty resolves a backend, has it compile the query, checks the callable,
and publishes its plan. Whoever was first, all go on with the plan that they then read from the
slot.
-/

namespace QueryTree

/-- A published callable, with the backend it came from and how that was found. -/
structure Plan where
  callable : Callable
  provider : String
  resolution : Resolution

/-- What can be asked of a compiled query. -/
inductive Call where
  /-- Compile now, for a given backend or for the one that the query names. -/
  | compile (provider : Option ProviderId)
  | invoke (args : List Value)
  | invoke0
  | invoke1 (a : Value)
  | invoke2 (a b : Value)
  | invoke3 (a b c : Value)
  | invoke4 (a b c d : Value)

namespace Call

/-- The invocation with exactly these arguments, when there is one for their number. -/
def fixed? : List Value → Option Call
  | [] => some invoke0
  | [a] => some (invoke1 a)
  | [a, b] => some (invoke2 a b)
  | [a, b, c] => some (invoke3 a b c)
  | [a, b, c, d] => some (invoke4 a b c d)
  | _ => none

/-- The arguments of an invocation; a compilation has none. -/
def args : Call → List Value
  | compile _ => []
  | invoke args => args
  | invoke0 => []
  | invoke1 a => [a]
  | invoke2 a b => [a, b]
  | invoke3 a b c => [a, b, c]
  | invoke4 a b c d => [a, b, c, d]

/-- The call only compiles. -/
def isCompile : Call → Bool
  | compile _ => true
  | _ => false

/-- How often an invocation looks again at an empty slot before it compiles. -/
def extraLookups : Call → Nat
  | invoke1 .. | invoke2 .. | invoke3 .. | invoke4 .. => 1
  | _ => 0

/-- Call a callable with the arguments of the invocation, directly where their shapes agree. -/
def dispatch (c : Call) (callable : Callable) : Action Value :=
  match c, callable with
  | invoke0, .nullary f => f
  | invoke1 a, .unary f => f a
  | invoke2 a b, .binary f => f a b
  | invoke3 a b c, .ternary f => f a b c
  | invoke4 a b c d, .quaternary f => f a b c d
  | c, callable => callable.call c.args

end Call

/-- What a call comes to. -/
inductive Outcome where
  | plan (p : Plan)
  | value (v : Value)
  | failure (e : QueryError)

/-- Where a call stands. -/
inductive Stage where
  /-- The number of arguments is to be checked. -/
  | arity
  /-- The slot is to be read; on finding it empty, that many more times. -/
  | lookup (again : Nat)
  | resolve
  /-- A backend is to compile the query. -/
  | execute (r : Resolved)
  /-- The number of arguments that the callable takes is to be checked. -/
  | check (r : Resolved) (c : Callable)
  /-- The plan is to be put into the slot, if that is still empty. -/
  | publish (p : Plan)
  /-- The slot is to be read again. -/
  | reread (p : Plan)
  | dispatch (p : Plan)
  | done (o : Outcome)

/-- What the callers of one compiled query share: the slot, and the world of the backends. -/
structure Shared where
  slot : Option Plan := none
  activity : Activity := {}

/-- A fault of a callable as the caller sees it. A query's own error is passed on as it is. -/
def QueryError.ofDispatch : Fault → QueryError
  | .query e => e
  | fault => .dispatch fault

namespace Stage

/-- The first stage of a call. Compiling takes no arguments to check. -/
def first (c : Call) : Stage := if c.isCompile then lookup 0 else arity

/-- A call with a plan in hand: compiling ends, an invocation goes on to dispatch. -/
def withPlan (c : Call) (p : Plan) : Stage := if c.isCompile then done (.plan p) else dispatch p

/-- The end of a call that fails. -/
def fail (e : QueryError) : Stage := done (.failure e)

/-- The stage after the number of arguments was checked. -/
def afterArity (q : Query) (c : Call) : Stage :=
  if c.args.length = q.arity then lookup c.extraLookups else fail (.arity q.arity c.args.length)

/-- The stage after the slot was read. -/
def afterLookup (c : Call) (again : Nat) : Option Plan → Stage
  | some p => withPlan c p
  | none =>
    match again with
    | 0 => resolve
    | n + 1 => lookup n

/-- The stage after the backend was looked for. -/
def afterResolve (q : Query) : Call → Stage
  | .compile (some p) => execute ⟨p, .explicit⟩
  | c =>
    match q.resolve c.args with
    | .ok r => execute r
    | .error e => fail e

/-- The stage after the backend compiled the query, or failed to. -/
def afterExecute (r : Resolved) : Except Fault Callable → Stage
  | .ok c => check r c
  | .error fault => fail (.backend fault)

/-- The fault of a backend whose callable takes another number of arguments than the query. -/
def wrongArity (provider : String) (taken expected : Nat) : Fault :=
  .other <| s!"provider {provider} returned a callable of arity {taken} " ++
    s!"for a query of arity {expected}"

/-- The stage after the callable was checked. -/
def afterCheck (q : Query) (r : Resolved) (c : Callable) : Stage :=
  let plan : Stage := publish ⟨c, r.provider.name, r.resolution⟩
  match c.arity? with
  | none => plan
  | some n => if n = q.arity then plan else fail (.backend (wrongArity r.provider.name n q.arity))

/-- The outcome of a dispatch. -/
def afterDispatch : Except Fault Value → Stage
  | .ok v => done (.value v)
  | .error fault => fail (.ofDispatch fault)

/-- One step of a call. -/
def next (bs : Backends) (q : Query) (c : Call) (s : Stage) (shared : Shared) : Stage × Shared :=
  match s with
  | arity => (afterArity q c, shared)
  | lookup again => (afterLookup c again shared.slot, shared)
  | resolve => (afterResolve q c, shared)
  | execute r =>
    let ran := (bs r.provider q).run shared.activity
    (afterExecute r ran.1, { shared with activity := ran.2 })
  | check r callable => (afterCheck q r callable, shared)
  | publish p => (reread p, { shared with slot := shared.slot.or (some p) })
  | reread p => (withPlan c (shared.slot.getD p), shared)
  | dispatch p =>
    let ran := (c.dispatch p.callable).run shared.activity
    (afterDispatch ran.1, { shared with activity := ran.2 })
  | done o => (done o, shared)

/-! ## Every call ends -/

/-- What the call came to, if it has ended. -/
def outcome? : Stage → Option Outcome
  | done o => some o
  | _ => none

/-- The call is about to publish a plan. -/
def isPublishing : Stage → Bool
  | publish _ => true
  | _ => false

/-- An upper bound on the steps left. -/
def rank : Stage → Nat
  | arity => 9
  | lookup again => 7 + again
  | resolve => 6
  | execute _ => 5
  | check .. => 4
  | publish _ => 3
  | reread _ => 2
  | dispatch _ => 1
  | done _ => 0

/-- With a plan at most the dispatch is left. -/
theorem rank_withPlan_le (c : Call) (p : Plan) : (withPlan c p).rank ≤ 1 := by
  unfold withPlan; split <;> simp [rank]

/-- Checking the arity is a step on. -/
theorem rank_afterArity_lt (q : Query) (c : Call) : (afterArity q c).rank < 9 := by
  unfold afterArity fail
  split
  · cases c <;> simp [Call.extraLookups, rank]
  · simp [rank]

/-- Looking at the slot is a step on. -/
theorem rank_afterLookup_lt (c : Call) (again : Nat) (slot : Option Plan) :
    (afterLookup c again slot).rank < 7 + again := by
  have h := rank_withPlan_le c
  unfold afterLookup
  split
  · exact Nat.lt_of_le_of_lt (h _) (by omega)
  · split <;> simp only [rank] <;> omega

/-- Resolving is a step on. -/
theorem rank_afterResolve_lt (q : Query) (c : Call) : (afterResolve q c).rank < 6 := by
  unfold afterResolve fail
  split
  · simp [rank]
  · split <;> simp [rank]

/-- Executing is a step on. -/
theorem rank_afterExecute_lt (r : Resolved) (compiled : Except Fault Callable) :
    (afterExecute r compiled).rank < 5 := by
  cases compiled <;> simp [afterExecute, fail, rank]

/-- Dispatching is the last step. -/
theorem rank_afterDispatch_lt (result : Except Fault Value) : (afterDispatch result).rank < 1 := by
  cases result <;> simp [afterDispatch, fail, rank]

/-- Checking the shape is a step on. -/
theorem rank_afterCheck_lt (q : Query) (r : Resolved) (c : Callable) :
    (afterCheck q r c).rank < 4 := by
  unfold afterCheck fail
  split
  · simp [rank]
  · split <;> simp [rank]

/-- Every step brings a call nearer to its end. -/
theorem rank_next_lt (bs : Backends) (q : Query) (c : Call) (s : Stage) (shared : Shared)
    (h : s.outcome? = none) : (s.next bs q c shared).1.rank < s.rank := by
  cases s with
  | arity => exact rank_afterArity_lt q c
  | lookup again => exact rank_afterLookup_lt c again shared.slot
  | resolve => exact rank_afterResolve_lt q c
  | execute r => exact rank_afterExecute_lt r _
  | check r callable => exact rank_afterCheck_lt q r callable
  | publish p => simp [next, rank]
  | reread p => exact Nat.lt_of_le_of_lt (rank_withPlan_le c _) (by simp [rank])
  | dispatch p => exact rank_afterDispatch_lt _
  | done o => simp [outcome?] at h

end Stage

end QueryTree
