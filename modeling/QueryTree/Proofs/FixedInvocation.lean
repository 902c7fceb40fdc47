import QueryTree.Proofs.CompileOnce

/-!
# Invocations with a fixed number of arguments

For up to four arguments an invocation need not build a list of them. It reads the slot by itself,
and calls the callable directly where the shapes agree. None of this shows: whatever the slot holds
and the backends do, it comes to what the invocation with the list comes to (`perform_eq_invoke`).

That a callable is never called with a wrong number of arguments rests on two checks made at
different times: an invocation checks its arguments before it does anything, and a plan is checked
before it is published. `Stage.Sound` says what each stage of a call may rely on, `Stage.sound_next`
that a step keeps it, and `System.sound_run` that all calls keep it, however their steps interleave.
-/

namespace QueryTree

/-! ### Callables -/

namespace Callable

/-- The callable applied to arguments, if it takes that many. -/
def applied? : Callable → List Value → Option (Action Value)
  | nullary f, [] => some f
  | unary f, [a] => some (f a)
  | binary f, [a, b] => some (f a b)
  | ternary f, [a, b, c] => some (f a b c)
  | quaternary f, [a, b, c, d] => some (f a b c d)
  | variadic f, args => some (f args)
  | _, _ => none

/-- The failure of a callable that is called with a wrong number of arguments. -/
def miscounted (c : Callable) (args : List Value) : Action Value :=
  throw (.other s!"callable takes {c.arity?.getD 0} argument(s), got {args.length}")

/-- A call applies the callable, or fails on the number of arguments. -/
theorem call_eq (c : Callable) (args : List Value) :
    c.call args = (c.applied? args).getD (c.miscounted args) := by
  unfold call applied?
  split <;> simp [miscounted]

/-- The callable can be called with that many arguments. -/
def Takes (c : Callable) (n : Nat) : Prop := ∀ taken, c.arity? = some taken → taken = n

/-- A callable can be applied to as many arguments as it takes. -/
theorem applied?_isSome_iff (c : Callable) (args : List Value) :
    (c.applied? args).isSome = true ↔ c.Takes args.length := by
  cases c with
  | nullary f => rcases args with _ | ⟨a, rest⟩ <;> simp [applied?, Takes, arity?]
  | unary f => rcases args with _ | ⟨a, _ | ⟨b, rest⟩⟩ <;> simp [applied?, Takes, arity?]
  | binary f => rcases args with _ | ⟨a, _ | ⟨b, _ | ⟨c, rest⟩⟩⟩ <;> simp [applied?, Takes, arity?]
  | ternary f =>
    rcases args with _ | ⟨a, _ | ⟨b, _ | ⟨c, _ | ⟨d, rest⟩⟩⟩⟩ <;> simp [applied?, Takes, arity?]
  | quaternary f =>
    rcases args with _ | ⟨a, _ | ⟨b, _ | ⟨c, _ | ⟨d, _ | ⟨e, rest⟩⟩⟩⟩⟩ <;>
      simp [applied?, Takes, arity?]
  | variadic f => simp [applied?, Takes, arity?]

end Callable

/-! ### What a call alone comes to -/

namespace Call

/-- Whichever way an invocation takes, it calls the callable with its arguments. -/
theorem dispatch_eq_call (c : Call) (callable : Callable) :
    c.dispatch callable = callable.call c.args := by
  cases c <;> cases callable <;> rfl

/-- The invocation for a list of arguments has these arguments. -/
theorem args_of_fixed? {args : List Value} {c : Call} (h : fixed? args = some c) :
    c.args = args ∧ c.isCompile = false := by
  unfold fixed? at h
  split at h <;> cases h <;> exact ⟨rfl, rfl⟩

end Call

namespace Stage

variable {bs : Backends} {q : Query} {c g : Call} {stage : Stage} {shared : Shared}

/-- A call that has ended stays as it ended. -/
theorem finish_of_outcome {o : Outcome} (h : stage.outcome? = some o) :
    stage.finish bs q c shared = (o, shared) := by
  rw [finish.eq_def]
  split
  next o' h' =>
    obtain rfl : o' = o := Option.some.inj (h'.symm.trans h)
    rfl
  next h' =>
    rw [h] at h'
    cases h'

/-- A call that has not ended goes on from its next stage. -/
theorem finish_of_not_done (h : stage.outcome? = none) :
    stage.finish bs q c shared =
      (stage.next bs q c shared).1.finish bs q c (stage.next bs q c shared).2 := by
  rw [finish.eq_def]
  split
  next o h' =>
    rw [h] at h'
    cases h'
  next => rfl

/-- No step leads back to the check of the arguments. -/
theorem next_ne_arity : (stage.next bs q c shared).1 ≠ .arity := by
  intro h
  have hlt : stage.outcome? = none → (stage.next bs q c shared).1.rank < stage.rank :=
    rank_next_lt bs q c stage shared
  cases stage with
  | lookup again =>
    simp only [next, afterLookup, withPlan] at h
    cases hslot : shared.slot with
    | none => cases again <;> simp [hslot] at h
    | some p => by_cases hc : c.isCompile = true <;> simp [hslot, hc] at h
  | done o => cases h
  | _ =>
    -- a step brings the call nearer to its end, and the check is farthest from it
    have hrank := hlt rfl
    rw [h] at hrank
    simp [rank] at hrank

/-- An invocation looks for a backend with its arguments. -/
theorem afterResolve_eq (hc : c.isCompile = false) :
    afterResolve q c = match q.resolve c.args with
      | .ok r => execute r
      | .error e => fail e := by
  cases c with
  | compile p => cases hc
  | _ => rfl

/-- After its arguments were checked, an invocation goes on as any other with these arguments. -/
theorem next_congr (hargs : g.args = c.args) (hc : c.isCompile = false) (hg : g.isCompile = false)
    (hstage : stage ≠ .arity) : stage.next bs q g shared = stage.next bs q c shared := by
  cases stage with
  | arity => exact absurd rfl hstage
  | lookup again => simp only [next, afterLookup, withPlan, hc, hg]
  | resolve => simp only [next, afterResolve_eq hc, afterResolve_eq hg, hargs]
  | reread p => simp only [next, withPlan, hc, hg]
  | dispatch p => simp only [next, Call.dispatch_eq_call, hargs]
  | _ => rfl

/-- Two calls with the same arguments end alike, once the arity has been checked. -/
theorem finish_congr (hargs : g.args = c.args) (hc : c.isCompile = false)
    (hg : g.isCompile = false) (hstage : stage ≠ .arity) :
    stage.finish bs q g shared = stage.finish bs q c shared := by
  fun_induction finish bs q g stage shared with
  | case1 stage shared o h => rw [finish_of_outcome h]
  | case2 stage shared h _ ih =>
    rw [ih next_ne_arity, next_congr hargs hc hg hstage, finish_of_not_done h]

/-- To look at the slot once more changes nothing, when no other call has come between. -/
theorem finish_lookup (again : Nat) :
    (lookup again).finish bs q c shared = (lookup 0).finish bs q c shared := by
  induction again with
  | zero => rfl
  | succ again ih =>
    have hnext (n : Nat) : (lookup n).finish bs q c shared =
        (afterLookup c n shared.slot).finish bs q c shared := finish_of_not_done rfl
    rw [hnext]
    cases hslot : shared.slot with
    | none => exact ih
    | some p =>
      rw [hnext, hslot]
      rfl

/-- An invocation alone fails on the number of its arguments, or goes on from the slot. -/
theorem finish_arity :
    arity.finish bs q c shared =
      if c.args.length = q.arity then (lookup 0).finish bs q c shared
      else (.failure (.arity q.arity c.args.length), shared) := by
  rw [finish_of_not_done rfl]
  by_cases h : c.args.length = q.arity
  · simp only [next, afterArity, if_pos h]
    exact finish_lookup c.extraLookups
  · simp only [next, afterArity, if_neg h]
    exact finish_of_outcome rfl

end Stage

namespace CompiledQuery

/-- An invocation with a fixed number of arguments comes to what the one with the list comes to, and
leaves the same behind. -/
theorem perform_eq_invoke {args : List Value} {c : Call} (h : Call.fixed? args = some c)
    (bs : Backends) (compiled : CompiledQuery) (activity : Activity) :
    compiled.perform bs c activity = compiled.perform bs (.invoke args) activity := by
  obtain ⟨rfl, hc⟩ := Call.args_of_fixed? h
  have hfirst : Stage.first c = .arity := by simp [Stage.first, hc]
  have hinvoke : Stage.first (.invoke c.args) = .arity := rfl
  have hfinish : Stage.arity.finish bs compiled.query c ⟨compiled.plan?, activity⟩ =
      Stage.arity.finish bs compiled.query (.invoke c.args) ⟨compiled.plan?, activity⟩ := by
    rw [Stage.finish_arity, Stage.finish_arity]
    rw [Stage.finish_congr (c := .invoke c.args) (g := c) rfl rfl hc (by simp)]
    rfl
  simp only [perform, hfirst, hinvoke, hfinish]

end CompiledQuery

/-! ### Arguments and callables fit -/

/-- The call has as many arguments as the query has parameters; a compilation has none to check. -/
def Call.Fits (c : Call) (q : Query) : Prop := c.isCompile = false → c.args.length = q.arity

/-- A plan in the slot, if there is one, takes the arguments of the query. -/
def Shared.Sound (shared : Shared) (q : Query) : Prop :=
  ∀ p, shared.slot = some p → p.callable.Takes q.arity

namespace Stage

/-- What a stage relies on: the arguments once they are checked, a plan once it is checked. Only an
invocation comes to dispatch. -/
def Sound (q : Query) (c : Call) : Stage → Prop
  | .arity | .done _ => True
  | .lookup _ | .resolve | .execute _ | .check .. => c.Fits q
  | .publish p | .reread p => c.Fits q ∧ p.callable.Takes q.arity
  | .dispatch p => c.isCompile = false ∧ c.Fits q ∧ p.callable.Takes q.arity

variable {bs : Backends} {q : Query} {c : Call} {stage : Stage} {shared : Shared}

/-- A call that has just arrived has promised nothing. -/
theorem sound_first : (first c).Sound q c := by
  unfold first
  by_cases hc : c.isCompile = true
  · rw [if_pos hc]
    intro hfalse
    rw [hc] at hfalse
    cases hfalse
  · rw [if_neg hc]
    trivial

/-- A plan that takes the arguments of the query takes those of the call. -/
theorem sound_withPlan {p : Plan} (hc : c.Fits q) (hp : p.callable.Takes q.arity) :
    (withPlan c p).Sound q c := by
  unfold withPlan
  by_cases hcompile : c.isCompile = true
  · rw [if_pos hcompile]
    trivial
  · rw [if_neg hcompile]
    exact ⟨by simpa using hcompile, hc, hp⟩

/-- A backend's callable is published only if it takes the arguments of the query. -/
theorem sound_afterCheck (hc : c.Fits q) (r : Resolved) (callable : Callable) :
    (afterCheck q r callable).Sound q c := by
  unfold afterCheck
  cases harity : callable.arity? with
  | none => exact ⟨hc, by simp [Callable.Takes, harity]⟩
  | some n =>
    by_cases hn : n = q.arity
    · simp only [if_pos hn]
      exact ⟨hc, by simp [Callable.Takes, harity, hn]⟩
    · simp only [if_neg hn]
      trivial

/-- A step keeps the call that takes it sound. There is one case for each stage. The number of
arguments has been checked at the first, and a plan comes from the slot, which is sound, or from the
check before it is published. -/
theorem sound_next (hshared : shared.Sound q) (hstage : stage.Sound q c) :
    (stage.next bs q c shared).1.Sound q c := by
  cases stage with
  | arity =>
    simp only [next, afterArity]
    by_cases hargs : c.args.length = q.arity
    · rw [if_pos hargs]
      exact fun _ => hargs
    · rw [if_neg hargs]
      trivial
  | lookup again =>
    simp only [next, afterLookup]
    cases hslot : shared.slot with
    | none => cases again <;> exact hstage
    | some p => exact sound_withPlan hstage (hshared p hslot)
  | resolve =>
    simp only [next]
    unfold afterResolve
    split
    · exact hstage
    · split
      · exact hstage
      · trivial
  | execute r =>
    simp only [next, afterExecute]
    split
    · exact hstage
    · trivial
  | check r callable => exact sound_afterCheck hstage r callable
  | publish p => exact hstage
  | reread p =>
    simp only [next]
    cases hslot : shared.slot with
    | none => exact sound_withPlan hstage.1 hstage.2
    | some p' => exact sound_withPlan hstage.1 (hshared p' hslot)
  | dispatch p =>
    simp only [next, afterDispatch]
    split <;> trivial
  | done o => trivial

/-- A step keeps the slot sound. -/
theorem sound_next_shared (hshared : shared.Sound q) (hstage : stage.Sound q c) :
    (stage.next bs q c shared).2.Sound q := by
  intro p hp
  rcases next_slot bs q c stage shared with heq | ⟨-, p', rfl, hslot⟩
  · exact hshared p (heq ▸ hp)
  · obtain rfl : p' = p := Option.some.inj (hslot.symm.trans hp)
    exact hstage.2

end Stage

namespace System

variable {q : Query}

/-- The slot and all calls are sound. -/
structure Sound (q : Query) (s : System) : Prop where
  shared : s.shared.Sound q
  calls : ∀ call ∈ s.calls, call.2.Sound q call.1

/-- No move breaks what the stages promise. An arriving call has promised nothing yet. A step
changes the slot and the call that takes it, and what the other calls promise does not depend on the
slot. -/
theorem sound_step {s : System} (h : s.Sound q) (m : Move) : (step q s m).Sound q := by
  cases m with
  | arrive c =>
    refine ⟨h.shared, ?_⟩
    intro call hcall
    rcases List.mem_append.1 hcall with hcall | hcall
    · exact h.calls call hcall
    · obtain rfl := List.mem_singleton.1 hcall
      exact Stage.sound_first
  | advance i bs =>
    cases hi : s.calls[i]? with
    | none =>
      rw [step_advance_none hi]
      exact h
    | some call =>
      obtain ⟨c, stage⟩ := call
      have hstage : stage.Sound q c := h.calls _ (List.mem_of_getElem? hi)
      rw [step_advance_some hi]
      refine ⟨Stage.sound_next_shared h.shared hstage, ?_⟩
      intro call hcall
      rcases List.mem_or_eq_of_mem_set hcall with hcall | rfl
      · exact h.calls call hcall
      · exact Stage.sound_next h.shared hstage

/-- Whatever has happened, the slot and all calls are sound. -/
theorem sound_run {s : System} (h : s.Sound q) (moves : List Move) : (run q s moves).Sound q := by
  induction moves generalizing s with
  | nil => exact h
  | cons m moves ih => exact ih (sound_step h m)

/-- Before the first call nothing is promised. -/
theorem sound_fresh (activity : Activity) : (fresh activity).Sound q := by
  constructor
  · intro p hp
    cases hp
  · intro call hcall
    exact absurd hcall List.not_mem_nil

/-! ### Calls carried out alone -/

/-- A call that takes all steps by itself comes to its end. By induction along `Stage.finish`: the
call is at its end, or the next move is a step of this call. -/
theorem exists_run_finish (bs : Backends) {c : Call} {stage : Stage} (shared : Shared)
    {calls : List (Call × Stage)} {i : Nat} (hi : calls[i]? = some (c, stage)) :
    ∃ n, run q ⟨shared, calls⟩ (List.replicate n (.advance i bs)) =
      ⟨(stage.finish bs q c shared).2, calls.set i (c, .done (stage.finish bs q c shared).1)⟩ := by
  fun_induction Stage.finish bs q c stage shared generalizing calls with
  | case1 stage shared o h =>
    refine ⟨0, ?_⟩
    cases stage with
    | done o' =>
      cases h
      obtain ⟨hlt, hget⟩ := List.getElem?_eq_some_iff.1 hi
      have hset : calls.set i (c, .done o) = calls := by rw [← hget, List.set_getElem_self]
      rw [hset]
      rfl
    | _ => cases h
  | case2 stage shared h _ ih =>
    have hnext : (calls.set i (c, (stage.next bs q c shared).1))[i]? =
        some (c, (stage.next bs q c shared).1) := by
      rw [List.getElem?_set_self]
      exact (List.getElem?_eq_some_iff.1 hi).1
    obtain ⟨n, hn⟩ := ih hnext
    refine ⟨n + 1, ?_⟩
    rw [List.replicate_succ]
    change run q (step q ⟨shared, calls⟩ (.advance i bs)) _ = _
    rw [step_advance_some hi, hn, List.set_set]

/-- To carry out a call is to let it arrive and take all its steps. -/
theorem exists_run_perform (bs : Backends) (c : Call) (s : System) :
    ∃ moves, run q s moves =
      let (outcome, compiled, activity) :=
        CompiledQuery.perform bs c ⟨q, s.shared.slot⟩ s.shared.activity
      ⟨⟨compiled.plan?, activity⟩, s.calls ++ [(c, .done outcome)]⟩ := by
  have hlast : (s.calls ++ [(c, Stage.first c)])[s.calls.length]? = some (c, Stage.first c) := by
    simp
  obtain ⟨n, hn⟩ := exists_run_finish (q := q) bs s.shared hlast
  refine ⟨.arrive c :: List.replicate n (.advance s.calls.length bs), ?_⟩
  change run q ⟨s.shared, s.calls ++ [(c, Stage.first c)]⟩ _ = _
  rw [hn]
  simp [CompiledQuery.perform]

end System

/-! ### Fixed and listed arguments -/

/-- Whatever a compiled query holds and the backends do, an invocation with a fixed number of
arguments comes to what the invocation with their list comes to, and leaves the same plan and the
same record of activity. In any system of calls that started from an empty slot, an invocation that
is about to dispatch applies a callable to as many arguments as it takes; calls that are carried out
one after the other are among the runs of such a system. -/
theorem fixed_invocations (q : Query) (activity : Activity) (moves : List Move) :
    (∀ args c, Call.fixed? args = some c → ∀ bs compiled world,
      CompiledQuery.perform bs c compiled world =
        CompiledQuery.perform bs (.invoke args) compiled world) ∧
    (∀ c p, (c, Stage.dispatch p) ∈ (System.run q (.fresh activity) moves).calls →
      ∃ answer, p.callable.applied? c.args = some answer ∧ c.dispatch p.callable = answer) ∧
    (∀ bs c, ∃ more, System.run q (.fresh activity) (moves ++ more) =
      let s := System.run q (.fresh activity) moves
      let (outcome, compiled, world) :=
        CompiledQuery.perform bs c ⟨q, s.shared.slot⟩ s.shared.activity
      ⟨⟨compiled.plan?, world⟩, s.calls ++ [(c, .done outcome)]⟩) := by
  refine ⟨fun args c h => CompiledQuery.perform_eq_invoke h, fun c p hcall => ?_, fun bs c => ?_⟩
  · have hsound : (System.run q (.fresh activity) moves).Sound q :=
      System.sound_run (System.sound_fresh activity) moves
    obtain ⟨hinvocation, hargs, htakes⟩ := hsound.calls _ hcall
    rw [← hargs hinvocation, ← Callable.applied?_isSome_iff, Option.isSome_iff_exists] at htakes
    obtain ⟨answer, hanswer⟩ := htakes
    refine ⟨answer, hanswer, ?_⟩
    rw [Call.dispatch_eq_call, Callable.call_eq, hanswer, Option.getD_some]
  · obtain ⟨more, hmore⟩ :=
      System.exists_run_perform (q := q) bs c (System.run q (.fresh activity) moves)
    refine ⟨more, ?_⟩
    rw [System.run_append]
    exact hmore

/-- A query of two parameters. -/
def pairQuery : Query := ⟨[⟨"a", .int64⟩, ⟨"b", .int64⟩], .int 7⟩

/-- A backend that answers with the list of the arguments. -/
def listingBackends : Backends := fun _ _ => pure (.binary fun a b => pure (.list [a, b]))

/-- The query is compiled; then an invocation checks its arguments and reads the slot. -/
def pairMoves : List Move :=
  .arrive (.compile (some ⟨"a", "first"⟩)) :: List.replicate 6 (.advance 0 listingBackends) ++
    .arrive (.invoke2 (.int 1) (.int 2)) :: List.replicate 2 (.advance 1 listingBackends)

/-- The invocation is about to dispatch a callable that takes its two arguments. -/
theorem fixed_invocations_pair :
    Call.fixed? [.int 1, .int 2] = some (.invoke2 (.int 1) (.int 2)) ∧
    ∃ p : Plan, (System.run pairQuery (.fresh {}) pairMoves).shared.slot = some p ∧
      (.invoke2 (.int 1) (.int 2), .dispatch p) ∈
        (System.run pairQuery (.fresh {}) pairMoves).calls ∧
      (∃ answer, p.callable.applied? [.int 1, .int 2] = some answer ∧
        (Call.invoke2 (.int 1) (.int 2)).dispatch p.callable = answer) ∧
      CompiledQuery.perform listingBackends (.invoke2 (.int 1) (.int 2)) ⟨pairQuery, some p⟩ {} =
        CompiledQuery.perform listingBackends (.invoke [.int 1, .int 2])
          ⟨pairQuery, some p⟩ {} := by
  obtain ⟨hperform, hdispatch, -⟩ := fixed_invocations pairQuery {} pairMoves
  have hcall : (.invoke2 (.int 1) (.int 2),
      .dispatch ⟨.binary fun a b => pure (.list [a, b]), "first", .explicit⟩) ∈
      (System.run pairQuery (.fresh {}) pairMoves).calls := List.mem_of_getElem? (i := 1) rfl
  exact ⟨rfl, _, rfl, hcall, hdispatch _ _ hcall, hperform _ _ rfl _ _ _⟩

end QueryTree
