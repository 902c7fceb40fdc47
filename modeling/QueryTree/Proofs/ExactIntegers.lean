import QueryTree.Proofs.RunningSums
import QueryTree.Scalar.Eval

/-!
# Integer arithmetic is exact or fails

An `IntegerTerm` is an expression of integer constants, the five operators, negation and the
absolute value. Over the integers it has an exact value, and the operations that lead to it are
listed in the order of evaluation with their exact operands (`steps`). An operation offends if it
divides by zero or if its result does not fit into 64 bits (`failure?`), and what an evaluation has
to come to is then said without the evaluator: the exact value, or the failure of the first
operation that offends (`Demands`).

The evaluator does this with one exception. It refuses the remainder of the least integer by `-1`
as an overflow: the remainder is zero, but the quotient that goes with it does not fit
(`fits_tdiv_iff`). So the demands are met exactly by the terms whose evaluation does not come to
that operation (`demands_evaluate_iff`).
-/

namespace QueryTree

namespace Checked

instance decidableFits (n : Int) : Decidable (Fits n) :=
  inferInstanceAs (Decidable (Int64.minValue.toInt ≤ n ∧ n ≤ Int64.maxValue.toInt))

/-- An integer is one of 64 bits exactly if it is in their range. -/
theorem ofInt?_eq (n : Int) : ofInt? n = if Fits n then some (Int64.ofInt n) else none := rfl

/-- The range of 64 bits in numbers. -/
theorem fits_iff {n : Int} : Fits n ↔ -9223372036854775808 ≤ n ∧ n ≤ 9223372036854775807 := Iff.rfl

/-- A quotient fits, but for that of the least integer by `-1`. -/
theorem fits_tdiv_iff {a b : Int} (ha : Fits a) (hb : b ≠ 0) :
    Fits (a.tdiv b) ↔ ¬(a = Int64.minValue.toInt ∧ b = -1) := by
  have hmin : Int64.minValue.toInt = -9223372036854775808 := rfl
  rw [fits_iff] at ha ⊢
  rw [hmin]
  have hquotient : (a.tdiv b).natAbs = a.natAbs / b.natAbs := Int.natAbs_tdiv a b
  by_cases hone : b.natAbs = 1
  · rcases (by omega : b = 1 ∨ b = -1) with rfl | rfl
    · rw [Int.tdiv_one]
      omega
    · rw [Int.tdiv_neg, Int.tdiv_one]
      omega
  · have hhalf : a.natAbs / b.natAbs ≤ a.natAbs / 2 := Nat.div_le_div_left (by omega) (by decide)
    omega

/-- A remainder is smaller than its divisor, so it fits. -/
theorem fits_tmod {a b : Int} (hb : Fits b) (hne : b ≠ 0) : Fits (a.tmod b) := by
  rw [fits_iff] at hb ⊢
  have hremainder : (a.tmod b).natAbs = a.natAbs % b.natAbs := Int.natAbs_tmod a b
  have hsmall : a.natAbs % b.natAbs < b.natAbs := Nat.mod_lt _ (by omega)
  omega

end Checked

open Checked

/-! ### Operations -/

/-- The operations on integers. -/
inductive IntegerOperator where
  | plus | minus | multiply | divide | modulo
deriving DecidableEq, Repr

/-- The operator that an operation is written with. -/
def IntegerOperator.symbol : IntegerOperator → BinaryOperator
  | plus => .plus
  | minus => .minus
  | multiply => .multiply
  | divide => .divide
  | modulo => .modulo

/-- An operation on exact integers. -/
inductive IntegerStep where
  | binary (op : IntegerOperator) (left right : Int)
  | negate (operand : Int)
  | abs (operand : Int)
deriving DecidableEq, Repr

namespace IntegerStep

/-- The exact result. Quotients are rounded toward zero, and a remainder has the sign of the
dividend. -/
def result : IntegerStep → Int
  | binary .plus a b => a + b
  | binary .minus a b => a - b
  | binary .multiply a b => a * b
  | binary .divide a b => a.tdiv b
  | binary .modulo a b => a.tmod b
  | negate a => -a
  | abs a => a.natAbs

/-- The divisor of a division or remainder. -/
def divisor? : IntegerStep → Option Int
  | binary .divide _ b | binary .modulo _ b => some b
  | _ => none

/-- The name of the operation in error messages. -/
def name : IntegerStep → String
  | binary op _ _ => op.symbol.name
  | negate _ => "Negate"
  | abs _ => Builtin.abs.name

/-- How the operation fails, if it has to: by a divisor that is zero, or by an exact result that
does not fit. -/
def failure? (s : IntegerStep) : Option EvalError :=
  if s.divisor? = some 0 then some .divisionByZero
  else if Fits s.result then none
  else some (.overflow s.name)

/-- The remainder of the least integer by `-1`. -/
def leastRemainder : IntegerStep := .binary .modulo Int64.minValue.toInt (-1)

/-- How the operation fails when it is evaluated. -/
def reported? (s : IntegerStep) : Option EvalError :=
  if s = leastRemainder then some (.overflow s.name) else s.failure?

/-- The exact remainder of the least integer by -1 is 0. -/
theorem failure?_leastRemainder : leastRemainder.failure? = none := by decide

/-- It is reported as an overflow all the same. -/
theorem reported?_leastRemainder : leastRemainder.reported? = some (.overflow "Modulo") := by decide

/-- At every other step what is reported is what fails. -/
theorem reported?_of_ne {s : IntegerStep} (h : s ≠ leastRemainder) : s.reported? = s.failure? :=
  if_neg h

/-- Without a division by zero only the size of the result can fail. -/
theorem failure?_of_divisor {s : IntegerStep} (h : s.divisor? ≠ some 0) :
    s.failure? = if Fits s.result then none else some (.overflow s.name) := if_neg h

/-- The result of a step that does not fail fits. -/
theorem fits_result {s : IntegerStep} (h : s.failure? = none) : Fits s.result := by
  by_cases hzero : s.divisor? = some 0
  · rw [failure?, if_pos hzero] at h
    cases h
  · rw [failure?_of_divisor hzero] at h
    by_contra hfits
    rw [if_neg hfits] at h
    cases h

/-- A step with nothing to report does not fail. -/
theorem failure?_of_reported? {s : IntegerStep} (h : s.reported? = none) : s.failure? = none := by
  by_cases hleast : s = leastRemainder
  · rw [hleast]
    exact failure?_leastRemainder
  · rwa [reported?_of_ne hleast] at h

/-- An overflow is that of the operation. -/
theorem name_of_failure? {s : IntegerStep} {op : String} (h : s.failure? = some (.overflow op)) :
    op = s.name := by
  by_cases hzero : s.divisor? = some 0
  · rw [failure?, if_pos hzero] at h
    cases h
  · rw [failure?_of_divisor hzero] at h
    split at h
    next => cases h
    next => exact (EvalError.overflow.inj (Option.some.inj h)).symm

/-- An overflow under the name of remainders is one of a remainder. -/
theorem eq_modulo_of_failure? {s : IntegerStep} (h : s.failure? = some (.overflow "Modulo")) :
    ∃ a b, s = .binary .modulo a b := by
  have hname := name_of_failure? h
  cases s with
  | binary op a b =>
    cases op with
    | modulo => exact ⟨a, b, rfl⟩
    | plus | minus | multiply | divide =>
      exact absurd hname (by simp [name, IntegerOperator.symbol, BinaryOperator.name])
  | negate a => exact absurd hname (by simp [name])
  | abs a => exact absurd hname (by simp [name, Builtin.name])

/-- A remainder fails by a divisor that is zero and in no other way. -/
theorem failure?_modulo {b : Int} (hb : Fits b) (a : Int) :
    (binary .modulo a b).failure? = if b = 0 then some .divisionByZero else none := by
  by_cases hzero : b = 0
  · rw [if_pos hzero, hzero]
    rfl
  · rw [if_neg hzero, failure?_of_divisor (by simpa [divisor?] using hzero)]
    exact if_pos (fits_tmod hb hzero)

/-! ### What the evaluator makes of an operation -/

/-- The outcome with this failure, or this exact result if there is none. -/
def outcome (failure : Option EvalError) (n : Int) : Except EvalError Value :=
  failure.elim (.ok (.int (Int64.ofInt n))) .error

/-- A result that is brought back to 64 bits is kept or overflows. -/
theorem elim_ofInt? (n : Int) (op : String) :
    (ofInt? n).elim (.error (.overflow op)) (fun m => .ok (.int m)) =
      outcome (if Fits n then none else some (.overflow op)) n := by
  rw [ofInt?_eq]
  split <;> rfl

/-- A remainder is refused where its quotient does not fit: for the least integer by `-1`. -/
theorem elim_rem? {a b : Int64} (hb : b.toInt ≠ 0) :
    (rem? a b).elim (.error (.overflow "Modulo")) (fun m => .ok (.int m)) =
      outcome (binary .modulo a.toInt b.toInt).reported? (a.toInt.tmod b.toInt) := by
  have hquotient := fits_tdiv_iff (fits_toInt a) hb
  have hremainder : Fits (a.toInt.tmod b.toInt) := fits_tmod (fits_toInt b) hb
  have hleast : binary .modulo a.toInt b.toInt = leastRemainder ↔
      a.toInt = Int64.minValue.toInt ∧ b.toInt = -1 := by simp [leastRemainder]
  rw [rem?, div?, ofInt?_eq, ofInt?_eq, if_pos hremainder]
  by_cases hcase : binary .modulo a.toInt b.toInt = leastRemainder
  · rw [if_neg fun h => hquotient.1 h (hleast.1 hcase), hcase, reported?_leastRemainder]
    rfl
  · rw [if_pos (hquotient.2 fun h => hcase (hleast.2 h)), reported?_of_ne hcase,
      failure?_modulo (fits_toInt b), if_neg hb]
    rfl

/-- A 64-bit integer is zero exactly if its value is. -/
theorem toInt_eq_zero_iff {b : Int64} : b.toInt = 0 ↔ b = 0 := Int64.toInt_inj (y := 0)

/-- An operation on integers is a step: its exact result, or what is reported of it. -/
theorem binary_eq (op : IntegerOperator) (a b : Int64) :
    Scalar.binary op.symbol (.int a) (.int b) =
      outcome (binary op a.toInt b.toInt).reported? (binary op a.toInt b.toInt).result := by
  have harithmetic : Scalar.binary op.symbol (.int a) (.int b) =
      if Scalar.divides op.symbol && b == 0 then .error .divisionByZero
      else (Scalar.integer? op.symbol a b).elim (.error (.overflow op.symbol.name))
        fun n => .ok (.int n) := by
    cases op <;> rfl
  rw [harithmetic]
  cases op with
  | plus | minus | multiply =>
    rw [reported?_of_ne (by simp [leastRemainder]), failure?_of_divisor (by simp [divisor?])]
    exact elim_ofInt? _ _
  | divide =>
    rw [reported?_of_ne (by simp [leastRemainder])]
    by_cases hzero : b = 0
    · rw [hzero]
      rfl
    · have hne : b.toInt ≠ 0 := mt toInt_eq_zero_iff.1 hzero
      rw [failure?_of_divisor (by simpa [divisor?] using hne), beq_false_of_ne hzero,
        Bool.and_false, if_neg Bool.false_ne_true]
      exact elim_ofInt? _ _
  | modulo =>
    by_cases hzero : b = 0
    · rw [hzero, reported?_of_ne (by simp [leastRemainder])]
      rfl
    · rw [beq_false_of_ne hzero, Bool.and_false, if_neg Bool.false_ne_true]
      exact elim_rem? (mt toInt_eq_zero_iff.1 hzero)

/-- So is a negation. -/
theorem negate_eq (a : Int64) :
    Scalar.unary .negate (.int a) = outcome (negate a.toInt).reported? (negate a.toInt).result := by
  rw [reported?_of_ne (by simp [leastRemainder]), failure?_of_divisor (by simp [divisor?])]
  exact elim_ofInt? _ _

/-- So is an absolute value. -/
theorem abs_eq (a : Int64) :
    Builtin.apply .abs [.int a] = outcome (abs a.toInt).reported? (abs a.toInt).result := by
  rw [reported?_of_ne (by simp [leastRemainder]), failure?_of_divisor (by simp [divisor?])]
  exact elim_ofInt? _ _

end IntegerStep

/-! ### Terms -/

/-- An expression of integer arithmetic. The types that its nodes declare are of no account, and the
absolute value may be spelled in any way that is read as its name. -/
inductive IntegerTerm where
  | constant (n : Int64) (type : LogicalType)
  | binary (op : IntegerOperator) (left right : IntegerTerm) (type : LogicalType)
  | negate (operand : IntegerTerm) (type : LogicalType)
  | abs (function : { name : String // Builtin.ofName? name = some .abs }) (operand : IntegerTerm)
      (type : LogicalType)

namespace IntegerTerm

/-- The expression of a term. -/
def toExpr : IntegerTerm → Expr
  | constant n t => .const (.int n) t
  | binary op l r t => .binary op.symbol l.toExpr r.toExpr t
  | negate e t => .unary .negate e.toExpr t
  | abs f e t => .call f.1 [e.toExpr] t

/-- The exact value. Where a divisor is zero it has no meaning. -/
def exactValue : IntegerTerm → Int
  | constant n _ => n.toInt
  | binary op l r _ => (IntegerStep.binary op l.exactValue r.exactValue).result
  | negate e _ => (IntegerStep.negate e.exactValue).result
  | abs _ e _ => (IntegerStep.abs e.exactValue).result

/-- The operations on exact operands, in the order of evaluation. -/
def steps : IntegerTerm → List IntegerStep
  | constant .. => []
  | binary op l r _ => l.steps ++ (r.steps ++ [.binary op l.exactValue r.exactValue])
  | negate e _ => e.steps ++ [.negate e.exactValue]
  | abs _ e _ => e.steps ++ [.abs e.exactValue]

/-- The operations up to the first that has to fail. -/
def reached (t : IntegerTerm) : List IntegerStep := t.steps.takeWhile fun s => s.failure?.isNone

/-- What an evaluation has to come to: the exact value if no operation has to fail, and else the
failure of the first that has to. -/
inductive Demands (t : IntegerTerm) : Except EvalError Value → Prop
  | value (n : Int64) : (∀ s ∈ t.steps, s.failure? = none) → n.toInt = t.exactValue →
      Demands t (.ok (.int n))
  | failure (before : List IntegerStep) (s : IntegerStep) (after : List IntegerStep)
      (error : EvalError) : t.steps = before ++ s :: after → (∀ b ∈ before, b.failure? = none) →
      s.failure? = some error → Demands t (.error error)

/-- A term whose operations all succeed has a value that fits. -/
theorem fits_exactValue {t : IntegerTerm} (h : ∀ s ∈ t.steps, s.failure? = none) :
    Fits t.exactValue := by
  cases t with
  | constant n _ => exact fits_toInt n
  | binary op l r _ => exact IntegerStep.fits_result (h _ (by simp [steps]))
  | negate e _ => exact IntegerStep.fits_result (h _ (by simp [steps]))
  | abs f e _ => exact IntegerStep.fits_result (h _ (by simp [steps]))

/-- The value of a term whose operations are all carried out. -/
theorem toInt_ofInt_exactValue {t : IntegerTerm}
    (h : t.steps.findSome? IntegerStep.reported? = none) :
    (Int64.ofInt t.exactValue).toInt = t.exactValue := by
  refine toInt_ofInt (fits_exactValue fun s hs => ?_)
  exact IntegerStep.failure?_of_reported? (List.findSome?_eq_none_iff.1 h s hs)

/-- A term is evaluated operation by operation: to the failure that is reported first, or to the
exact value. -/
theorem evaluate_toExpr (t : IntegerTerm) (env : Env) :
    t.toExpr.evaluate env =
      IntegerStep.outcome (t.steps.findSome? IntegerStep.reported?) t.exactValue := by
  induction t with
  | constant n _ => exact congrArg (fun m => Except.ok (Value.int m)) (Int64.ofInt_toInt n).symm
  | binary op l r _ ihl ihr =>
    rw [toExpr, Expr.evaluate, ihl, ihr, steps, List.findSome?_append, List.findSome?_append]
    cases hl : l.steps.findSome? IntegerStep.reported? with
    | some error => rfl
    | none =>
      cases hr : r.steps.findSome? IntegerStep.reported? with
      | some error => cases op <;> rfl
      | none =>
        have hop := IntegerStep.binary_eq op (Int64.ofInt l.exactValue) (Int64.ofInt r.exactValue)
        rw [toInt_ofInt_exactValue hl, toInt_ofInt_exactValue hr] at hop
        rw [List.findSome?_singleton]
        refine Eq.trans ?_ hop
        cases op <;> rfl
  | negate e _ ih =>
    rw [toExpr, Expr.evaluate, ih, steps, List.findSome?_append]
    cases he : e.steps.findSome? IntegerStep.reported? with
    | some error => rfl
    | none =>
      have hop := IntegerStep.negate_eq (Int64.ofInt e.exactValue)
      rw [toInt_ofInt_exactValue he] at hop
      rw [List.findSome?_singleton]
      exact hop
  | abs f e _ ih =>
    rw [toExpr, Expr.evaluate, Expr.evaluateList, Expr.evaluateList, ih, steps,
      List.findSome?_append]
    cases he : e.steps.findSome? IntegerStep.reported? with
    | some error => rfl
    | none =>
      have hop := IntegerStep.abs_eq (Int64.ofInt e.exactValue)
      rw [toInt_ofInt_exactValue he] at hop
      rw [List.findSome?_singleton]
      refine Eq.trans ?_ hop
      have hcall : Scalar.call f.1 [.int (Int64.ofInt e.exactValue)] =
          Builtin.apply .abs [.int (Int64.ofInt e.exactValue)] := by
        rw [Scalar.call, f.2]
      exact hcall

/-- Before the least remainder is reached, what is reported is what has to fail. -/
theorem findSome?_reported? {l : List IntegerStep}
    (h : IntegerStep.leastRemainder ∉ l.takeWhile fun s => s.failure?.isNone) :
    l.findSome? IntegerStep.reported? = l.findSome? IntegerStep.failure? := by
  induction l with
  | nil => rfl
  | cons s l ih =>
    rw [List.findSome?_cons, List.findSome?_cons]
    rw [List.takeWhile_cons] at h
    cases hs : s.failure? with
    | none =>
      rw [hs] at h
      obtain ⟨hne, hl⟩ := List.ne_and_not_mem_of_not_mem_cons h
      rw [IntegerStep.reported?_of_ne (Ne.symm hne), hs]
      exact ih hl
    | some error =>
      have hne : s ≠ IntegerStep.leastRemainder := by
        rintro rfl
        rw [IntegerStep.failure?_leastRemainder] at hs
        cases hs
      rw [IntegerStep.reported?_of_ne hne, hs]

/-- A term that reaches the least remainder is evaluated to an overflow. The steps before it need
not fail, so it is the first step of which something is reported. -/
theorem evaluate_of_leastRemainder {t : IntegerTerm} (h : IntegerStep.leastRemainder ∈ t.reached)
    (env : Env) : t.toExpr.evaluate env = .error (.overflow "Modulo") := by
  have hsteps : t.steps = t.reached ++ t.steps.dropWhile fun s => s.failure?.isNone :=
    List.takeWhile_append_dropWhile.symm
  have hreported : t.reached.findSome? IntegerStep.reported? = some (.overflow "Modulo") := by
    cases hfirst : t.reached.findSome? IntegerStep.reported? with
    | none =>
      have hnone := List.findSome?_eq_none_iff.1 hfirst _ h
      rw [IntegerStep.reported?_leastRemainder] at hnone
      cases hnone
    | some error =>
      obtain ⟨before, s, after, hreached, hs, -⟩ := List.findSome?_eq_some_iff.1 hfirst
      have hmem : s ∈ t.reached := hreached ▸ List.mem_append_right _ List.mem_cons_self
      have hsucceeds : s.failure?.isNone = true := List.all_eq_true.1 List.all_takeWhile s hmem
      -- what is reported of a step that need not fail is the least remainder
      by_cases hleast : s = IntegerStep.leastRemainder
      · rw [hleast, IntegerStep.reported?_leastRemainder] at hs
        exact hs.symm
      · rw [IntegerStep.reported?_of_ne hleast] at hs
        rw [hs] at hsucceeds
        cases hsucceeds
  rw [evaluate_toExpr, hsteps, List.findSome?_append, hreported]
  rfl

/-- No first failure is the overflow of a remainder: its divisor has been computed, so it fits. -/
theorem findSome?_failure?_ne (t : IntegerTerm) :
    t.steps.findSome? IntegerStep.failure? ≠ some (.overflow "Modulo") := by
  intro h
  induction t with
  | constant => cases h
  | binary op l r _ ihl ihr =>
    rw [steps, List.findSome?_append, List.findSome?_append, List.findSome?_singleton,
      Option.or_eq_some_iff, Option.or_eq_some_iff] at h
    rcases h with h | ⟨-, h | ⟨hr, h⟩⟩
    · exact ihl h
    · exact ihr h
    · have hfits : Fits r.exactValue := fits_exactValue (List.findSome?_eq_none_iff.1 hr)
      obtain ⟨a, b, hstep⟩ := IntegerStep.eq_modulo_of_failure? h
      obtain ⟨rfl, rfl, rfl⟩ := IntegerStep.binary.inj hstep
      rw [IntegerStep.failure?_modulo hfits] at h
      split at h <;> cases h
  | negate e _ ih | abs f e _ ih =>
    rw [steps, List.findSome?_append, List.findSome?_singleton, Option.or_eq_some_iff] at h
    rcases h with h | ⟨-, h⟩
    · exact ih h
    · obtain ⟨a, b, hstep⟩ := IntegerStep.eq_modulo_of_failure? h
      cases hstep

/-- What the first failure decides is what is demanded. -/
theorem demands_outcome (t : IntegerTerm) :
    t.Demands (IntegerStep.outcome (t.steps.findSome? IntegerStep.failure?) t.exactValue) := by
  cases hfirst : t.steps.findSome? IntegerStep.failure? with
  | none =>
    have hsteps := List.findSome?_eq_none_iff.1 hfirst
    exact .value _ hsteps (toInt_ofInt (fits_exactValue hsteps))
  | some error =>
    obtain ⟨before, s, after, hsteps, hs, hbefore⟩ := List.findSome?_eq_some_iff.1 hfirst
    exact .failure before s after error hsteps hbefore hs

/-- A demanded failure is that of the first step that fails. -/
theorem Demands.findSome?_eq {t : IntegerTerm} {error : EvalError} (h : t.Demands (.error error)) :
    t.steps.findSome? IntegerStep.failure? = some error := by
  cases h with
  | failure before s after _ hsteps hbefore hs =>
    exact List.findSome?_eq_some_iff.2 ⟨before, s, after, hsteps, hs, hbefore⟩

/-- The evaluation of integer arithmetic comes to the exact value, or to the failure of the first
operation that has to fail, exactly if it does not come to the remainder of the least integer by
`-1`. That remainder is zero, and it is refused as an overflow. -/
theorem demands_evaluate_iff (t : IntegerTerm) (env : Env) :
    (t.Demands (t.toExpr.evaluate env) ↔ IntegerStep.leastRemainder ∉ t.reached) ∧
      (IntegerStep.leastRemainder ∈ t.reached →
        t.toExpr.evaluate env = .error (.overflow "Modulo")) := by
  refine ⟨⟨fun hdemands hleast => ?_, fun hleast => ?_⟩, fun hleast => ?_⟩
  · rw [evaluate_of_leastRemainder hleast] at hdemands
    exact findSome?_failure?_ne t hdemands.findSome?_eq
  · rw [evaluate_toExpr, findSome?_reported? hleast]
    exact demands_outcome t
  · exact evaluate_of_leastRemainder hleast env

/-- The remainder of the least integer by `-1`, as a term. -/
def leastByMinusOne : IntegerTerm :=
  .binary .modulo (.constant Int64.minValue .int64) (.constant (-1) .int64) .int64

/-- The exact remainder is zero and fits, and the evaluation fails with an overflow. -/
theorem evaluate_leastByMinusOne :
    leastByMinusOne.exactValue = 0 ∧ Fits leastByMinusOne.exactValue ∧
      leastByMinusOne.toExpr =
        .binary .modulo (.int Int64.minValue) (.int (-1)) .int64 ∧
      leastByMinusOne.toExpr.evaluate .empty = .error (.overflow "Modulo") ∧
      ¬leastByMinusOne.Demands (leastByMinusOne.toExpr.evaluate .empty) := by
  have hevaluate : leastByMinusOne.toExpr.evaluate .empty = .error (.overflow "Modulo") := rfl
  refine ⟨rfl, by decide, rfl, hevaluate, fun h => ?_⟩
  rw [hevaluate] at h
  exact findSome?_failure?_ne _ h.findSome?_eq

end IntegerTerm

end QueryTree
