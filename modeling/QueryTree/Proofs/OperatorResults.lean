import QueryTree.Proofs.Evaluation

/-!
# What operators give

An operator makes its value anew: nothing of its operands is in it, except that a double comes only
of a double (`Value.Computed`). Built-in functions do the same or hand on an argument
(`Builtin.computed_or_mem_of_apply`), and a member is taken out of a record
(`Scalar.null_or_mem_of_member`). This is all that can be said of a value without a look at the
operator, and what values are made of is proved from it.
-/

namespace QueryTree

open Attempt

namespace Value

/-- What can be computed from operands: no part of an operand, and a double only of a double. -/
inductive Computed (args : List Value) : Value → Prop
  | null : Computed args .null
  | bool (b : Bool) : Computed args (.bool b)
  | int (n : Int64) : Computed args (.int n)
  | text (s : String) : Computed args (.text s)
  | float (x : Float) {y : Float} : .float y ∈ args → Computed args (.float x)

/-- A field that is found is one of the record. -/
theorem mem_of_field? {fields : List (String × Value)} {name : String} {v : Value}
    (h : field? fields name = some v) : (name, v) ∈ fields := by
  obtain ⟨before, after, rfl, -⟩ := List.lookup_eq_some_iff.1 h
  exact List.mem_append_right _ List.mem_cons_self

/-- What is read as a double is an integer or a double. -/
theorem int_or_float_of_asFloat? {v : Value} {x : Float} (h : v.asFloat? = some x) :
    (∃ n, v = .int n) ∨ ∃ y, v = .float y := by
  cases v with
  | int n => exact .inl ⟨n, rfl⟩
  | float y => exact .inr ⟨y, rfl⟩
  | _ => cases h

end Value

namespace Builtin

variable {args : List Value} {v : Value}

/-- A text function gives nothing but what it computes from the text, or NULL for a NULL. -/
theorem computed_of_onText {b : Builtin} {f : String → Value} (hf : ∀ s, (f s).Computed args)
    {a : Value} (h : b.onText f a = .ok v) : v.Computed args := by
  cases a with
  | null => cases h; exact .null
  | text s => cases h; exact hf s
  | _ => cases h

/-- An absolute value is computed from its operand. -/
theorem computed_of_absolute {a : Value} (h : absolute a = .ok v) : v.Computed [a] := by
  cases a with
  | null => cases h; exact .null
  | int n =>
    obtain ⟨m, _, h⟩ := elim_eq_ok_iff.1 h
    cases h; exact .int m
  | float x => cases h; exact .float _ List.mem_cons_self
  | _ => cases h

/-- A function of one argument has a result only when it is given one. -/
theorem exists_of_unary {b : Builtin} {f : Value → Except EvalError Value}
    (h : b.unary f args = .ok v) : ∃ a, args = [a] ∧ f a = .ok v := by
  unfold unary at h
  split at h
  next a => exact ⟨a, rfl, h⟩
  next => cases h

/-- A built-in function computes its value, or it hands on one of its arguments. -/
theorem computed_or_mem_of_apply {b : Builtin} (h : b.apply args = .ok v) :
    v.Computed args ∨ v ∈ args := by
  cases b with
  | lower | upper =>
    obtain ⟨a, rfl, h⟩ := exists_of_unary h
    exact .inl (computed_of_onText (fun _ => .text _) h)
  | length =>
    obtain ⟨a, rfl, h⟩ := exists_of_unary h
    exact .inl (computed_of_onText (fun _ => .int _) h)
  | abs =>
    obtain ⟨a, rfl, h⟩ := exists_of_unary h
    exact .inl (computed_of_absolute h)
  | concat => cases h; exact .inl (.text _)
  | coalesce =>
    obtain rfl := Except.ok.inj h
    cases hfind : args.find? fun v => !v.isNull with
    | none => exact .inl .null
    | some w => exact .inr (List.mem_of_find?_eq_some hfind)

end Builtin

namespace Scalar

variable {args : List Value} {l r v : Value}

/-- A conjunction is a truth value or unknown. -/
theorem computed_of_conjunction (h : conjunction l r = .ok v) : v.Computed args := by
  unfold conjunction at h
  split at h
  · cases h; exact .bool _
  · cases h; exact .bool _
  · cases h; exact .bool _
  · split at h
    · cases h; exact .null
    · cases h

/-- A disjunction is a truth value or unknown. -/
theorem computed_of_disjunction (h : disjunction l r = .ok v) : v.Computed args := by
  unfold disjunction at h
  split at h
  · cases h; exact .bool _
  · cases h; exact .bool _
  · cases h; exact .bool _
  · split at h
    · cases h; exact .null
    · cases h

/-- A comparison is a truth value or unknown. -/
theorem computed_of_comparison {op : BinaryOperator} (h : comparison op l r = .ok v) :
    v.Computed args := by
  unfold comparison at h
  split at h
  · cases h; exact .bool _
  · cases h

/-- Integers give an integer, and there is no other pair of numbers without a double. -/
theorem computed_of_arithmetic {op : BinaryOperator} (h : arithmetic op l r = .ok v) :
    v.Computed [l, r] := by
  unfold arithmetic at h
  split at h
  next a b =>
    split at h
    · cases h
    · obtain ⟨n, _, h⟩ := elim_eq_ok_iff.1 h
      cases h; exact .int n
  next hints =>
    split at h
    next a b ha hb =>
      split at h
      · cases h
      · cases h
        rcases Value.int_or_float_of_asFloat? ha with ⟨m, rfl⟩ | ⟨x, rfl⟩
        · rcases Value.int_or_float_of_asFloat? hb with ⟨n, rfl⟩ | ⟨y, rfl⟩
          · exact (hints m n rfl rfl).elim
          · exact .float _ (List.mem_cons_of_mem _ List.mem_cons_self)
        · exact .float _ List.mem_cons_self
    next => cases h

/-- Every binary operator computes its result from its operands. -/
theorem computed_of_binary {op : BinaryOperator} (h : binary op l r = .ok v) :
    v.Computed [l, r] := by
  cases op with
  | and => exact computed_of_conjunction h
  | or => exact computed_of_disjunction h
  | plus | minus | multiply | divide | modulo =>
    simp only [binary] at h
    split at h
    · cases h; exact .null
    · exact computed_of_arithmetic h
  | concat =>
    simp only [binary] at h
    split at h
    · cases h; exact .null
    · cases h; exact .text _
  | like =>
    simp only [binary] at h
    split at h
    · cases h; exact .null
    · split at h
      · cases h; exact .bool _
      · cases h
  | eq | notEq | lt | ltEq | gt | gtEq =>
    simp only [binary] at h
    split at h
    · cases h; exact .null
    · exact computed_of_comparison h

/-- What the left operand alone decides is a truth value. -/
theorem computed_of_decided? {op : BinaryOperator} (h : decided? op l = some v) :
    v.Computed args := by
  unfold decided? at h
  split at h
  · cases h; exact .bool _
  · cases h; exact .bool _
  · cases h

/-- Every unary operator computes its result from its operand. -/
theorem computed_of_unary {op : UnaryOperator} (h : unary op l = .ok v) : v.Computed [l] := by
  cases op with
  | isNull => cases h; exact .bool _
  | isNotNull => cases h; exact .bool _
  | not =>
    cases l with
    | null => cases h; exact .null
    | bool b => cases h; exact .bool _
    | _ => cases h
  | negate =>
    cases l with
    | null => cases h; exact .null
    | int n =>
      obtain ⟨m, _, h⟩ := elim_eq_ok_iff.1 h
      cases h; exact .int m
    | float x => cases h; exact .float _ List.mem_cons_self
    | _ => cases h

/-- A member is a field of the record, or NULL. -/
theorem null_or_mem_of_member {name : String} (h : member name l = .ok v) :
    v = .null ∨ ∃ fields, l = .record fields ∧ (name, v) ∈ fields := by
  cases l with
  | null => cases h; exact .inl rfl
  | record fields =>
    obtain ⟨w, hw, h⟩ := elim_eq_ok_iff.1 h
    obtain rfl := Except.ok.inj h
    exact .inr ⟨fields, rfl, Value.mem_of_field? hw⟩
  | _ => cases h

/-- A call gives what it computes from its arguments, or one of them, as a coalesce does. -/
theorem computed_or_mem_of_call {function : String} (h : call function args = .ok v) :
    v.Computed args ∨ v ∈ args := by
  unfold call at h
  cases hb : Builtin.ofName? function with
  | none => rw [hb] at h; cases h
  | some b =>
    rw [hb] at h
    exact Builtin.computed_or_mem_of_apply h

end Scalar

/-- A binary operator computes its value, from the left side alone if that decides. -/
theorem Expr.computed_of_evaluate_binary {env : Env} {op : BinaryOperator} {l r : Expr}
    {t : LogicalType} {v : Value} (h : (Expr.binary op l r t).evaluate env = .ok v) :
    ∃ args, v.Computed args ∧ ∀ a ∈ args, l.evaluate env = .ok a ∨ r.evaluate env = .ok a := by
  obtain ⟨a, ha, hdecided | ⟨-, b, hb, h⟩⟩ := evaluate_binary_eq_ok_iff.1 h
  · exact ⟨[], Scalar.computed_of_decided? hdecided, nofun⟩
  · refine ⟨[a, b], Scalar.computed_of_binary h, fun c hc => ?_⟩
    rcases List.mem_pair.1 hc with rfl | rfl
    · exact .inl ha
    · exact .inr hb

end QueryTree
