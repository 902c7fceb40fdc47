import Mathlib.Data.List.Basic
import Mathlib.Data.List.Induction
import QueryTree.Compiled.Query

/-!
# The plan of a compiled query is compiled once

Any number of calls share one compiled query. They arrive when they like, and each step of each call
may be followed by a step of any other (`System.step`). Backends are arbitrary, and may answer
otherwise at every step; so may the callables that they return.

What one step does to the slot is said once (`Stage.next_slot`): it fills an empty slot, in the step
that publishes, or leaves the slot as it is. From it follow, for every sequence of moves:

* a plan in the slot stays there (`System.slot_run`);
* a call that holds a plan to return or to dispatch holds the one in the slot (`System.run_settled`);
* a call that fails before it dispatches has never touched the slot (`System.run_quiet`).

An error that a callable raises while it is dispatched is passed on as it is, whatever its kind. So
from the error alone a caller cannot tell that the call failed before publishing: the callable may
have run another query with the wrong number of arguments (`compile_once_nested`). The last part of
`compile_once` names that case.
-/

namespace QueryTree

/-! ### Steps and moves -/

/-- Calls that share a compiled query, each with the stage it has reached. -/
structure System where
  shared : Shared
  calls : List (Call × Stage)

/-- What can happen next: a call begins, or the `i`-th one takes a step. -/
inductive Move where
  | arrive (c : Call)
  | advance (i : Nat) (bs : Backends)

namespace System

/-- No calls yet, and an empty slot. -/
def fresh (activity : Activity) : System := ⟨⟨none, activity⟩, []⟩

/-- One move of the system: a call arrives, or one that is there takes its next step. -/
def step (q : Query) (s : System) : Move → System
  | .arrive c => { s with calls := s.calls ++ [(c, Stage.first c)] }
  | .advance i bs =>
    match s.calls[i]? with
    | none => s
    | some (c, stage) =>
      let after := stage.next bs q c s.shared
      ⟨after.2, s.calls.set i (c, after.1)⟩

/-- The system after some moves. -/
def run (q : Query) (s : System) (moves : List Move) : System := moves.foldl (step q) s

section Step

variable {q : Query} {s : System} {i : Nat} {bs : Backends}

/-- A call that is not there takes no step. -/
theorem step_advance_none (h : s.calls[i]? = none) : step q s (.advance i bs) = s := by
  simp only [step, h]

/-- A step changes the shared slot and the stage of its own call, and nothing else. -/
theorem step_advance_some {c : Call} {stage : Stage} (h : s.calls[i]? = some (c, stage)) :
    step q s (.advance i bs) =
      ⟨(stage.next bs q c s.shared).2, s.calls.set i (c, (stage.next bs q c s.shared).1)⟩ := by
  simp only [step, h]

end Step

/-- Moves can be made in two parts. -/
theorem run_append (q : Query) (s : System) (moves more : List Move) :
    run q s (moves ++ more) = run q (run q s moves) more := List.foldl_append

/-- The last move is made after the others. -/
theorem run_concat (q : Query) (s : System) (moves : List Move) (m : Move) :
    run q s (moves ++ [m]) = step q (run q s moves) m := by
  rw [run_append]
  rfl

end System

/-! ### One step -/

namespace Stage

variable (bs : Backends) (q : Query) (c : Call) (stage : Stage) (shared : Shared)

/-- A step fills the slot when it publishes and finds it empty; any other leaves it as it is. -/
theorem next_slot :
    (stage.next bs q c shared).2.slot = shared.slot ∨
      shared.slot = none ∧ ∃ p, stage = .publish p ∧
        (stage.next bs q c shared).2.slot = some p := by
  cases stage with
  | publish p =>
    cases hslot : shared.slot with
    | none => exact .inr ⟨rfl, p, rfl, by simp [next, hslot]⟩
    | some p' => exact .inl (by simp [next, hslot])
  | _ => exact .inl rfl

/-- What is in the slot stays there. -/
theorem next_slot_of_some {p : Plan} (h : shared.slot = some p) :
    (stage.next bs q c shared).2.slot = some p := by
  rcases next_slot bs q c stage shared with heq | ⟨hnone, _⟩
  · rw [heq, h]
  · rw [h] at hnone
    cases hnone

/-- A plan in the hands of a call, to be dispatched or returned, is the one in the slot; and a call
that rereads the slot will find it filled. -/
def Settled (slot : Option Plan) : Stage → Prop
  | .reread _ => slot.isSome
  | .dispatch p | .done (.plan p) => slot = some p
  | _ => True

/-- A call that goes on with a plan has the one in the slot. -/
theorem settled_withPlan {p : Plan} : Settled (some p) (withPlan c p) := by
  unfold withPlan
  split
  · rfl
  · rfl

/-- A settled call stays settled while the slot only gets filled. -/
theorem Settled.mono {slot slot' : Option Plan} {stage : Stage} (h : Settled slot stage)
    (hslot : ∀ p, slot = some p → slot' = some p) : Settled slot' stage := by
  cases stage with
  | reread p =>
    obtain ⟨p', hp'⟩ := Option.isSome_iff_exists.1 h
    exact Option.isSome_iff_exists.2 ⟨p', hslot p' hp'⟩
  | dispatch p => exact hslot p h
  | done o =>
    cases o with
    | plan p => exact hslot p h
    | _ => trivial
  | _ => trivial

/-- A call that has just arrived has seen no plan. -/
theorem settled_first : Settled shared.slot (first c) := by
  unfold first
  split
  · trivial
  · trivial

/-- A step keeps the call that takes it settled. There is one case for each stage. Publishing fills
the slot if it is empty, and a call goes on only with a plan that it has read from the slot. -/
theorem settled_next (h : Settled shared.slot stage) :
    Settled (stage.next bs q c shared).2.slot (stage.next bs q c shared).1 := by
  cases stage with
  | arity =>
    simp only [next, afterArity]
    split <;> trivial
  | lookup again =>
    simp only [next, afterLookup]
    split
    next p hp => rw [hp]; exact settled_withPlan c
    next => cases again <;> trivial
  | resolve =>
    simp only [next]
    unfold afterResolve
    split
    · trivial
    · split <;> trivial
  | execute r =>
    simp only [next, afterExecute]
    split <;> trivial
  | check r callable =>
    simp only [next, afterCheck]
    split
    · trivial
    · split <;> trivial
  | publish p =>
    simp only [next]
    cases shared.slot with
    | none => rfl
    | some p' => rfl
  | reread p =>
    obtain ⟨p', hp'⟩ := Option.isSome_iff_exists.1 h
    simp only [next, hp', Option.getD_some]
    exact settled_withPlan c
  | dispatch p =>
    simp only [next, afterDispatch]
    split <;> trivial
  | done o => exact h

/-- The call has not yet come to the step that publishes, or is about to take it. -/
def Early : Stage → Prop
  | .arity | .lookup _ | .resolve | .execute _ | .check .. | .publish _ => True
  | .reread _ | .dispatch _ | .done _ => False

/-- With a plan in hand the checks of the call are behind it. -/
theorem not_early_withPlan (p : Plan) : ¬ (withPlan c p).Early := by
  unfold withPlan
  split
  · exact id
  · exact id

/-- With a plan in hand a call has not failed. -/
theorem withPlan_ne_failure (p : Plan) (e : QueryError) : withPlan c p ≠ .done (.failure e) := by
  unfold withPlan
  split
  · exact fun h => nomatch h
  · exact fun h => nomatch h

/-- A call that is still early was early before its last step, and that step left the slot as it
was. -/
theorem early_of_early_next (h : (stage.next bs q c shared).1.Early) :
    stage.Early ∧ (stage.next bs q c shared).2.slot = shared.slot := by
  cases stage with
  | publish p => exact h.elim
  | reread p => exact absurd h (not_early_withPlan c _)
  | dispatch p =>
    simp only [next, afterDispatch] at h
    split at h
    · exact h.elim
    · exact h.elim
  | done o => exact h.elim
  | _ => exact ⟨trivial, rfl⟩

/-- A call fails by a step that leaves the slot as it was, from an early stage or by having failed
before, or because the callable that it dispatches fails. -/
theorem next_eq_failure {e : QueryError}
    (h : (stage.next bs q c shared).1 = .done (.failure e)) :
    ((stage.Early ∨ stage = .done (.failure e)) ∧
        (stage.next bs q c shared).2.slot = shared.slot) ∨
      ∃ p fault, stage = .dispatch p ∧
        ((c.dispatch p.callable).run shared.activity).1 = .error fault ∧ e = .ofDispatch fault := by
  cases stage with
  | publish p => cases h
  | reread p => exact absurd h (withPlan_ne_failure c _ e)
  | dispatch p =>
    simp only [next, afterDispatch] at h
    split at h
    next => cases h
    next fault hfault =>
      cases h
      exact .inr ⟨p, fault, rfl, hfault, rfl⟩
  | done o => exact .inl ⟨.inr h, rfl⟩
  | _ => exact .inl ⟨.inl trivial, rfl⟩

end Stage

/-! ### Every sequence of moves -/

namespace System

variable {q : Query}

/-- A move never empties or changes a filled slot. -/
theorem slot_step {s : System} {p : Plan} (h : s.shared.slot = some p) (m : Move) :
    (step q s m).shared.slot = some p := by
  cases m with
  | arrive c => exact h
  | advance i bs =>
    cases hi : s.calls[i]? with
    | none =>
      rw [step_advance_none hi]
      exact h
    | some call =>
      obtain ⟨c, stage⟩ := call
      rw [step_advance_some hi]
      exact Stage.next_slot_of_some bs q c stage s.shared h

/-- A plan in the slot stays there. -/
theorem slot_run {s : System} {p : Plan} (h : s.shared.slot = some p) (moves : List Move) :
    (run q s moves).shared.slot = some p := by
  induction moves generalizing s with
  | nil => exact h
  | cons m moves ih => exact ih (slot_step h m)

/-- Each call is settled. -/
def Settled (s : System) : Prop := ∀ call ∈ s.calls, call.2.Settled s.shared.slot

/-- No move takes the plan in the slot from those who hold it. -/
theorem settled_step {s : System} (h : s.Settled) (m : Move) : (step q s m).Settled := by
  cases m with
  | arrive c =>
    intro call hcall
    rcases List.mem_append.1 hcall with hcall | hcall
    · exact h call hcall
    · obtain rfl := List.mem_singleton.1 hcall
      exact Stage.settled_first c s.shared
  | advance i bs =>
    cases hi : s.calls[i]? with
    | none =>
      rw [step_advance_none hi]
      exact h
    | some call =>
      obtain ⟨c, stage⟩ := call
      rw [step_advance_some hi]
      intro call hcall
      rcases List.mem_or_eq_of_mem_set hcall with hcall | rfl
      · exact (h call hcall).mono fun p hp => Stage.next_slot_of_some bs q c stage s.shared hp
      · exact Stage.settled_next bs q c stage s.shared (h _ (List.mem_of_getElem? hi))

/-- Whatever has happened, each call is settled. -/
theorem run_settled (activity : Activity) (moves : List Move) :
    (run q (fresh activity) moves).Settled := by
  induction moves using List.reverseRecOn with
  | nil => exact fun call hcall => absurd hcall List.not_mem_nil
  | append_singleton moves m ih =>
    rw [run_concat]
    exact settled_step ih m

/-! ### Calls that fail early -/

/-- No step of the `i`-th call has changed the slot. -/
def Quiet (q : Query) (start : System) (moves : List Move) (i : Nat) : Prop :=
  ∀ before bs after, moves = before ++ .advance i bs :: after →
    (run q start (before ++ [.advance i bs])).shared.slot = (run q start before).shared.slot

/-- The `i`-th call, which is `c`, came to dispatch a plan, and the callable failed. -/
def DispatchFailed (q : Query) (start : System) (moves : List Move) (i : Nat) (c : Call)
    (fault : Fault) : Prop :=
  ∃ before bs after p, moves = before ++ .advance i bs :: after ∧
    (run q start before).calls[i]? = some (c, .dispatch p) ∧
    ((c.dispatch p.callable).run (run q start before).shared.activity).1 = .error fault

variable {start : System} {moves : List Move} {i : Nat}

/-- A call stays quiet when its next step, if it is its turn, leaves the slot as it is. -/
theorem Quiet.concat (h : Quiet q start moves i) {m : Move}
    (hm : ∀ bs, m = .advance i bs →
      (step q (run q start moves) m).shared.slot = (run q start moves).shared.slot) :
    Quiet q start (moves ++ [m]) i := by
  intro before bs after heq
  rcases List.eq_nil_or_concat after with rfl | ⟨after, last, rfl⟩
  · obtain ⟨rfl, hlast⟩ := List.append_inj' heq rfl
    obtain rfl := List.singleton_inj.1 hlast
    rw [run_concat]
    exact hm bs rfl
  · rw [List.concat_eq_append, ← List.cons_append, ← List.append_assoc] at heq
    obtain ⟨hmoves, _⟩ := List.append_inj' heq rfl
    exact h before bs after hmoves

/-- What was dispatched stays dispatched after further moves. -/
theorem DispatchFailed.concat {c : Call} {fault : Fault}
    (h : DispatchFailed q start moves i c fault) (m : Move) :
    DispatchFailed q start (moves ++ [m]) i c fault := by
  obtain ⟨before, bs, after, p, rfl, hcall, hfault⟩ := h
  exact ⟨before, bs, after ++ [m], p, by simp, hcall, hfault⟩

/-- The slot has not been touched by a call that has not begun, is early, or has failed, unless it
failed while it was dispatched. -/
structure Trail (q : Query) (start : System) (moves : List Move) (i : Nat) : Prop where
  absent : (run q start moves).calls[i]? = none → Quiet q start moves i
  early : ∀ c stage, (run q start moves).calls[i]? = some (c, stage) → stage.Early →
    Quiet q start moves i
  failed : ∀ c e, (run q start moves).calls[i]? = some (c, .done (.failure e)) →
    Quiet q start moves i ∨ ∃ fault, e = .ofDispatch fault ∧
      DispatchFailed q start moves i c fault

/-- A move that leaves the `i`-th call and the slot alone keeps its trail. -/
theorem Trail.of_calls_eq (h : Trail q start moves i) {m : Move}
    (hcalls : (step q (run q start moves) m).calls[i]? = (run q start moves).calls[i]?)
    (hslot : ∀ bs, m = .advance i bs →
      (step q (run q start moves) m).shared.slot = (run q start moves).shared.slot) :
    Trail q start (moves ++ [m]) i := by
  rw [← run_concat] at hcalls
  refine ⟨fun hnone => ?_, fun c stage hcall hearly => ?_, fun c e hcall => ?_⟩
  · exact (h.absent (hcalls ▸ hnone)).concat hslot
  · exact (h.early c stage (hcalls ▸ hcall) hearly).concat hslot
  · rcases h.failed c e (hcalls ▸ hcall) with hquiet | ⟨fault, he, hfault⟩
    · exact .inl (hquiet.concat hslot)
    · exact .inr ⟨fault, he, hfault.concat m⟩

/-- The step of a call that is at hand keeps its trail. No other place in the list of calls changes.
Before publishing a step leaves the slot as it is, and a call that fails does so before publishing
or at dispatch. -/
theorem Trail.advance (h : Trail q start moves i) {bs : Backends} {c : Call} {stage : Stage}
    (hi : (run q start moves).calls[i]? = some (c, stage)) :
    Trail q start (moves ++ [.advance i bs]) i := by
  have hstep : step q (run q start moves) (.advance i bs) =
      ⟨(stage.next bs q c (run q start moves).shared).2, (run q start moves).calls.set i
        (c, (stage.next bs q c (run q start moves).shared).1)⟩ := step_advance_some hi
  have hslot : (step q (run q start moves) (.advance i bs)).shared.slot =
      (stage.next bs q c (run q start moves).shared).2.slot := by rw [hstep]
  have hcalls : (run q start (moves ++ [.advance i bs])).calls[i]? =
      some (c, (stage.next bs q c (run q start moves).shared).1) := by
    rw [run_concat, hstep, List.getElem?_set_self]
    exact (List.getElem?_eq_some_iff.1 hi).1
  refine ⟨fun hnone => ?_, fun c' stage' hcall hearly => ?_, fun c' e hcall => ?_⟩
  · rw [hcalls] at hnone
    cases hnone
  · rw [hcalls] at hcall
    cases hcall
    obtain ⟨hearly, hsame⟩ := Stage.early_of_early_next bs q c stage _ hearly
    exact (h.early c stage hi hearly).concat fun _ _ => hslot.trans hsame
  · rw [hcalls] at hcall
    obtain ⟨rfl, hfailure⟩ := Prod.mk.inj (Option.some.inj hcall)
    rcases Stage.next_eq_failure bs q c stage _ hfailure with
      ⟨hbefore, hsame⟩ | ⟨p, fault, rfl, hfault, he⟩
    · rcases hbefore with hearly | rfl
      · exact .inl ((h.early c stage hi hearly).concat fun _ _ => hslot.trans hsame)
      · rcases h.failed c e hi with hquiet | ⟨fault, he, hfault⟩
        · exact .inl (hquiet.concat fun _ _ => hslot.trans hsame)
        · exact .inr ⟨fault, he, hfault.concat _⟩
    · exact .inr ⟨fault, he, moves, bs, [], p, rfl, hi, hfault⟩

/-- A call that begins has touched nothing, and the others go on as they were. -/
theorem Trail.arrive (h : Trail q start moves i) (c : Call) :
    Trail q start (moves ++ [.arrive c]) i := by
  have hslot : ∀ bs, Move.arrive c = .advance i bs →
      (step q (run q start moves) (.arrive c)).shared.slot = (run q start moves).shared.slot :=
    fun bs heq => nomatch heq
  cases hi : (run q start moves).calls[i]? with
  | some call =>
    refine h.of_calls_eq ?_ hslot
    have hlt := (List.getElem?_eq_some_iff.1 hi).1
    exact List.getElem?_append_left hlt
  | none =>
    -- a call in this place, if there is one now, is the new one at its first stage
    have hquiet := (h.absent hi).concat hslot
    refine ⟨fun _ => hquiet, fun _ _ _ _ => hquiet, fun _ _ _ => .inl hquiet⟩

/-- Every call has a trail, after any sequence of moves. By induction on the moves, the last one
first: an arriving call is added at the end, the step of another call leaves this one alone, and its
own step is `Trail.advance`. -/
theorem run_trail (activity : Activity) (moves : List Move) (i : Nat) :
    Trail q (fresh activity) moves i := by
  induction moves using List.reverseRecOn with
  | nil =>
    refine ⟨fun _ before bs after h => ?_, fun c stage h => (nomatch h), fun c e h => (nomatch h)⟩
    simp at h
  | append_singleton moves m ih =>
    cases m with
    | arrive c => exact ih.arrive c
    | advance j bs =>
      cases hj : (run q (fresh activity) moves).calls[j]? with
      | none =>
        refine ih.of_calls_eq ?_ fun bs' _ => ?_
        · rw [step_advance_none hj]
        · rw [step_advance_none hj]
      | some call =>
        obtain ⟨c, stage⟩ := call
        by_cases hij : j = i
        · subst hij
          exact ih.advance hj
        · refine ih.of_calls_eq ?_ fun bs' hbs' => ?_
          · rw [step_advance_some hj, List.getElem?_set_ne hij]
          · cases hbs'
            exact absurd rfl hij

end System

/-! ### Compiling once -/

/-- The errors of a call that did not come to publish a plan: a wrong number of arguments, no
backend, a backend that failed to compile. -/
def QueryError.isBeforePublishing : QueryError → Bool
  | .arity .. | .unresolved _ | .backend _ => true
  | .unsupported .. | .dispatch _ | .configuration _ => false

/-- However the steps of any number of calls interleave: once a plan is in the slot, that plan stays
there; each plan that is returned or dispatched is the one in the slot; and of a call that has
failed with an error from before publishing, no step changed the slot, unless it is the dispatched
callable that raised the error. -/
theorem compile_once (q : Query) (activity : Activity) (moves : List Move) :
    (∀ p, (System.run q (.fresh activity) moves).shared.slot = some p →
      ∀ more, (System.run q (.fresh activity) (moves ++ more)).shared.slot = some p) ∧
    (∀ c p, (c, Stage.dispatch p) ∈ (System.run q (.fresh activity) moves).calls ∨
        (c, Stage.done (.plan p)) ∈ (System.run q (.fresh activity) moves).calls →
      (System.run q (.fresh activity) moves).shared.slot = some p) ∧
    (∀ i c e,
      (System.run q (.fresh activity) moves).calls[i]? = some (c, .done (.failure e)) →
      e.isBeforePublishing = true →
        System.Quiet q (.fresh activity) moves i ∨
          System.DispatchFailed q (.fresh activity) moves i c (.query e)) := by
  refine ⟨fun p hp more => ?_, fun c p hcall => ?_, fun i c e hcall he => ?_⟩
  · rw [System.run_append]
    exact System.slot_run hp more
  · rcases hcall with hcall | hcall
    · exact System.run_settled activity moves _ hcall
    · exact System.run_settled activity moves _ hcall
  · rcases (System.run_trail activity moves i).failed c e hcall with hquiet | ⟨fault, rfl, hfault⟩
    · exact .inl hquiet
    · cases fault with
      | query e => exact .inr hfault
      | eval e => cases he
      | other text => cases he

/-- A query without parameters. -/
def constantQuery : Query := ⟨[], .int 7⟩

/-- Each backend compiles to a callable that answers with the backend's name. -/
def namingBackends : Backends := fun p _ => pure (.nullary (pure (.text p.name)))

/-- Two compilations for different backends that both come to publish before either does; the second
publishes first. Meanwhile a call has the wrong number of arguments, and in the end another one is
about to dispatch. -/
def racingMoves : List Move :=
  let step (i : Nat) : Move := .advance i namingBackends
  [.arrive (.compile (some ⟨"a", "first"⟩)), .arrive (.compile (some ⟨"b", "second"⟩)),
    .arrive (.invoke1 .null), .arrive .invoke0,
    step 0, step 1, step 0, step 1, step 0, step 1, step 0, step 1, step 2,
    step 1, step 0, step 0, step 1, step 3, step 3]

/-- The plan that was published first is the one that every caller has. -/
theorem compile_once_race :
    ∃ p : Plan, p.provider = "second" ∧
      (System.run constantQuery (.fresh {}) racingMoves).shared.slot = some p ∧
      (System.run constantQuery (.fresh {}) racingMoves).calls =
        [(.compile (some ⟨"a", "first"⟩), .done (.plan p)),
          (.compile (some ⟨"b", "second"⟩), .done (.plan p)),
          (.invoke1 .null, .done (.failure (.arity 0 1))), (.invoke0, .dispatch p)] ∧
      (∀ more, (System.run constantQuery (.fresh {}) (racingMoves ++ more)).shared.slot = some p) ∧
      (System.Quiet constantQuery (.fresh {}) racingMoves 2 ∨
        System.DispatchFailed constantQuery (.fresh {}) racingMoves 2 (.invoke1 .null)
          (.query (.arity 0 1))) := by
  obtain ⟨hslot, _, hfailed⟩ := compile_once constantQuery {} racingMoves
  exact ⟨_, rfl, rfl, rfl, hslot _ rfl, hfailed 2 _ _ rfl rfl⟩

/-- A query over a table of a given backend. -/
def boundQuery : Query := ⟨[], Expr.mkScan (.source ⟨"t", some ⟨"a", "first"⟩⟩) "t"⟩

/-- Each backend compiles to a callable that asks another query, which takes one argument, for an
answer without giving it any. -/
def nestingBackends : Backends := fun _ _ => pure (.nullary (throw (.query (.arity 1 0))))

/-- One invocation from its first step to its last. -/
def nestedMoves : List Move := .arrive .invoke0 :: List.replicate 8 (.advance 0 nestingBackends)

/-- The invocation has the right number of arguments, publishes a plan and dispatches it. Yet it
fails with an error about the number of arguments, that of the query inside the callable, after one
of its own steps has filled the slot. -/
theorem compile_once_nested :
    (QueryError.arity 1 0).isBeforePublishing = true ∧
      (System.run boundQuery (.fresh {}) nestedMoves).calls =
        [(.invoke0, .done (.failure (.arity 1 0)))] ∧
      (System.run boundQuery (.fresh {}) nestedMoves).shared.slot.isSome = true ∧
      ¬ System.Quiet boundQuery (.fresh {}) nestedMoves 0 := by
  refine ⟨rfl, rfl, rfl, ?_⟩
  intro hquiet
  -- the sixth step of the call is the one that publishes
  have hslot := hquiet (nestedMoves.take 6) nestingBackends (nestedMoves.drop 7) rfl
  have hfilled := congrArg Option.isSome hslot
  exact Bool.false_ne_true hfilled.symm

end QueryTree
