import Mathlib
import QueryTree.Proofs.FoldedForm

/-!
# Closed expressions can be evaluated anywhere

Whether an expression is closed is judged without evaluating it. The judgement is right: a closed
expression has one outcome in every environment, and if it fails, then because an operator or a
function refuses its operands, never for something that is missing around it or for a function that
is not known (`evaluable_of_isClosed`).

The evaluator and the judgement have to agree on the names of functions, in any letter case. The
judgement looks for the name in a list, ignoring case; the evaluator looks for the function whose
name it is in capitals. They come to the same (`Builtin.isName_eq_isSome`). So a closed expression
stays closed and keeps its outcome when function names in it are written in another case.
-/

namespace QueryTree

/-! ### Letter case -/

namespace LetterCase

/-- Only the last change of case counts. -/
theorem asciiUpper_asciiLower (s : String) : asciiUpper (asciiLower s) = asciiUpper s := by
  have hchar : Char.toUpper ∘ Char.toLower = Char.toUpper := funext Char.toUpper_toLower_eq_toUpper
  rw [asciiUpper, asciiLower, String.toList_ofList, List.map_map, hchar, asciiUpper]

/-- Only the last change of case counts. -/
theorem asciiLower_asciiUpper (s : String) : asciiLower (asciiUpper s) = asciiLower s := by
  have hchar : Char.toLower ∘ Char.toUpper = Char.toLower := funext Char.toLower_toUpper_eq_toLower
  rw [asciiLower, asciiUpper, String.toList_ofList, List.map_map, hchar, asciiLower]

theorem asciiUpper_asciiUpper (s : String) : asciiUpper (asciiUpper s) = asciiUpper s := by
  rw [← asciiUpper_asciiLower (asciiUpper s), asciiLower_asciiUpper, asciiUpper_asciiLower]

/-- Texts are the same ignoring case if they are in capitals. -/
theorem sameIgnoringCase_iff {s t : String} :
    sameIgnoringCase s t = true ↔ asciiUpper s = asciiUpper t := by
  rw [sameIgnoringCase, beq_iff_eq]
  constructor
  · intro h
    rw [← asciiUpper_asciiLower, h, asciiUpper_asciiLower]
  · intro h
    rw [← asciiLower_asciiUpper, h, asciiLower_asciiUpper]

end LetterCase

namespace Builtin

open LetterCase

/-- The names of the built-in functions are in capitals. -/
theorem asciiUpper_name (b : Builtin) : asciiUpper b.name = b.name := by
  cases b <;> decide

/-- A function is found under a name if the name in capitals is its own. -/
theorem ofName?_eq_some_iff {name : String} {b : Builtin} :
    ofName? name = some b ↔ asciiUpper name = b.name := by
  unfold ofName?
  cases b <;> split <;> simp_all [Builtin.name]

/-- The list of names is that of the functions. -/
theorem mem_names_iff {name : String} : name ∈ names ↔ ∃ b : Builtin, b.name = name := by
  constructor
  · intro h
    simp only [names, List.mem_cons, List.not_mem_nil, or_false] at h
    rcases h with rfl | rfl | rfl | rfl | rfl | rfl
    exacts [⟨lower, rfl⟩, ⟨upper, rfl⟩, ⟨length, rfl⟩, ⟨abs, rfl⟩, ⟨coalesce, rfl⟩, ⟨concat, rfl⟩]
  · rintro ⟨b, rfl⟩
    cases b <;> decide

/-- The judgement on a name and the look-up of its function agree: a name is listed, up to letter
case, exactly if a function is found under it. -/
theorem isName_eq_isSome (name : String) : isName name = (ofName? name).isSome := by
  have hsame (b : Builtin) : sameIgnoringCase b.name name = true ↔ ofName? name = some b := by
    rw [sameIgnoringCase_iff, asciiUpper_name, ofName?_eq_some_iff, eq_comm]
  rw [Bool.eq_iff_iff, isName, List.any_eq_true, Option.isSome_iff_exists]
  constructor
  · rintro ⟨n, hn, hname⟩
    obtain ⟨b, rfl⟩ := mem_names_iff.1 hn
    exact ⟨b, (hsame b).1 hname⟩
  · rintro ⟨b, hb⟩
    exact ⟨b.name, mem_names_iff.2 ⟨b, rfl⟩, (hsame b).2 hb⟩

/-- The look-up does not depend on the case of the name. -/
theorem ofName?_asciiUpper (name : String) : ofName? (asciiUpper name) = ofName? name := by
  refine Option.ext fun b => ?_
  rw [ofName?_eq_some_iff, ofName?_eq_some_iff, asciiUpper_asciiUpper]

/-- Neither does the judgement. -/
theorem isName_asciiUpper (name : String) : isName (asciiUpper name) = isName name := by
  rw [isName_eq_isSome, ofName?_asciiUpper, isName_eq_isSome]

/-- A listed name has its function. -/
theorem isName_iff {name : String} : isName name = true ↔ ∃ b, ofName? name = some b := by
  rw [isName_eq_isSome, Option.isSome_iff_exists]

end Builtin

/-! ### Failures of operators and functions -/

/-- An operator or a function has refused its operands. -/
inductive EvalError.Refusal : EvalError → Prop
  | missingMember (name : String) : Refusal (.missingMember name)
  | typeMismatch (operation detail : String) : Refusal (.typeMismatch operation detail)
  | divisionByZero : Refusal .divisionByZero
  | overflow (operation : String) : Refusal (.overflow operation)

/-- The computation returns, or operands were refused. -/
def Computes {α : Type} (x : Except EvalError α) : Prop := ∀ error, x = .error error → error.Refusal

namespace Computes

variable {α β : Type}

/-- What returns has not been refused. -/
theorem ok (a : α) : Computes (.ok a : Except EvalError α) := nofun

theorem error {e : EvalError} (h : e.Refusal) : Computes (.error e : Except EvalError α) := by
  intro error herror
  cases herror
  exact h

/-- Steps in sequence refuse only what one of them refuses. -/
theorem bind {x : Except EvalError α} {f : α → Except EvalError β} (hx : Computes x)
    (hf : ∀ a, Computes (f a)) : Computes (x >>= f) := by
  cases x with
  | error e => exact error (hx e rfl)
  | ok a => exact hf a

/-- A partial operation whose absence is a refusal. -/
theorem elim {o : Option α} {e : EvalError} {f : α → Except EvalError β} (he : e.Refusal)
    (hf : ∀ a, Computes (f a)) : Computes (o.elim (.error e) f) := by
  cases o with
  | none => exact error he
  | some a => exact hf a

/-- A loop refuses only what one of its steps refuses. -/
theorem mapM {f : α → Except EvalError β} {l : List α} (h : ∀ a ∈ l, Computes (f a)) :
    Computes (l.mapM f) := by
  induction l with
  | nil => exact ok []
  | cons a l ih =>
    obtain ⟨ha, hl⟩ := List.forall_mem_cons.1 h
    rw [List.mapM_cons]
    exact ha.bind fun b => (ih hl).bind fun bs => ok (b :: bs)

end Computes

namespace Builtin

/-- A function of text refuses anything but text and NULL. -/
theorem computes_onText (b : Builtin) (f : String → Value) (v : Value) :
    Computes (b.onText f v) := by
  cases v with
  | null | text => exact .ok _
  | _ => exact .error (.typeMismatch _ _)

/-- The absolute value refuses what is no number, and the integer that has none. -/
theorem computes_absolute (v : Value) : Computes (absolute v) := by
  cases v with
  | null | float => exact .ok _
  | int n => exact .elim (.overflow _) fun _ => .ok _
  | _ => exact .error (.typeMismatch _ _)

/-- A function of one argument refuses any other number of arguments. -/
theorem computes_unary (b : Builtin) {f : Value → Except EvalError Value}
    (hf : ∀ v, Computes (f v)) (args : List Value) : Computes (b.unary f args) := by
  unfold unary
  split
  · exact hf _
  · exact .error (.typeMismatch _ _)

/-- No built-in function fails but by refusing its arguments. -/
theorem computes_apply (b : Builtin) (args : List Value) : Computes (b.apply args) := by
  cases b with
  | lower | upper | length => exact computes_unary _ (computes_onText _ _) args
  | abs => exact computes_unary _ computes_absolute args
  | coalesce | concat => exact .ok _

end Builtin

namespace Scalar

/-- A mismatch of types is a refusal. -/
theorem computes_mismatch {α : Type} (op : BinaryOperator) (l r : Value) :
    Computes (.error (mismatch op l r) : Except EvalError α) := .error (.typeMismatch _ _)

/-- A conjunction refuses what is no truth value. -/
theorem computes_conjunction (l r : Value) : Computes (conjunction l r) := by
  unfold conjunction
  split
  · exact .ok _
  · exact .ok _
  · exact .ok _
  · split
    · exact .ok _
    · exact computes_mismatch .and l r

/-- A disjunction refuses what is no truth value. -/
theorem computes_disjunction (l r : Value) : Computes (disjunction l r) := by
  unfold disjunction
  split
  · exact .ok _
  · exact .ok _
  · exact .ok _
  · split
    · exact .ok _
    · exact computes_mismatch .or l r

/-- A comparison refuses values that cannot be compared. -/
theorem computes_comparison (op : BinaryOperator) (l r : Value) : Computes (comparison op l r) := by
  unfold comparison
  split
  · exact .ok _
  · exact computes_mismatch op l r

/-- An arithmetical operation refuses what is no number, a division by zero, and an overflow. -/
theorem computes_arithmetic (op : BinaryOperator) (l r : Value) : Computes (arithmetic op l r) := by
  unfold arithmetic
  split
  · split
    · exact .error .divisionByZero
    · exact .elim (.overflow _) fun _ => .ok _
  · split
    · split
      · exact .error .divisionByZero
      · exact .ok _
    · exact computes_mismatch op l r

/-- No binary operator fails but by refusing its operands. -/
theorem computes_binary (op : BinaryOperator) (l r : Value) : Computes (binary op l r) := by
  cases op with
  | and => exact computes_conjunction l r
  | or => exact computes_disjunction l r
  | plus | minus | multiply | divide | modulo =>
    simp only [binary]
    split
    · exact .ok _
    · exact computes_arithmetic _ l r
  | concat =>
    simp only [binary]
    split
    · exact .ok _
    · exact .ok _
  | like =>
    simp only [binary]
    split
    · exact .ok _
    · split
      · exact .ok _
      · exact computes_mismatch .like _ _
  | eq | notEq | lt | ltEq | gt | gtEq =>
    simp only [binary]
    split
    · exact .ok _
    · exact computes_comparison _ l r

/-- No unary operator fails but by refusing its operand. -/
theorem computes_unary (op : UnaryOperator) (v : Value) : Computes (unary op v) := by
  cases op with
  | isNull | isNotNull => exact .ok _
  | not =>
    cases v with
    | null | bool => exact .ok _
    | _ => exact .error (.typeMismatch _ _)
  | negate =>
    cases v with
    | null | float => exact .ok _
    | int n => exact .elim (.overflow _) fun _ => .ok _
    | _ => exact .error (.typeMismatch _ _)

/-- A member is refused where there is none. -/
theorem computes_member (name : String) (v : Value) : Computes (member name v) := by
  cases v with
  | null => exact .ok _
  | record fields => exact .elim (.missingMember _) fun _ => .ok _
  | _ => exact .error (.typeMismatch _ _)

/-- A call is that of the function whose name it has in capitals. -/
theorem call_eq_apply {function : String} {b : Builtin}
    (h : LetterCase.asciiUpper function = b.name) (args : List Value) :
    call function args = b.apply args := by
  rw [call, Builtin.ofName?_eq_some_iff.2 h]

/-- A call of a listed name never ends with an unknown function. -/
theorem computes_call {function : String} (h : Builtin.isName function = true)
    (args : List Value) : Computes (call function args) := by
  obtain ⟨b, hb⟩ := Builtin.isName_iff.1 h
  rw [call_eq_apply (Builtin.ofName?_eq_some_iff.1 hb)]
  exact Builtin.computes_apply b args

end Scalar

namespace Expr

/-! ### Closed expressions -/

/-- A closed expression asks its environment for nothing, so it fails only by refusal. By induction
on the expression, whose parts are closed as well; what operators and functions do with the values
of the parts is in the lemmas above. -/
theorem computes_evaluate {e : Expr} (h : e.isClosed = true) (env : Env) :
    Computes (e.evaluate env) := by
  induction e using treeInduction with
  | const v t => exact .ok v
  | member e n t ih =>
    rw [evaluate]
    exact (ih h).bind (Scalar.computes_member n)
  | binary op l r t ihl ihr =>
    rw [isClosed, Bool.and_eq_true] at h
    rw [evaluate]
    refine (ihl h.1).bind fun a => ?_
    cases Scalar.decided? op a with
    | some v => exact .ok v
    | none => exact (ihr h.2).bind (Scalar.computes_binary op a)
  | unary op e t ih =>
    rw [evaluate]
    exact (ih h).bind (Scalar.computes_unary op)
  | call n es t ih =>
    rw [isClosed, Bool.and_eq_true, areClosed_iff] at h
    rw [evaluate, evaluateList_eq]
    exact (Computes.mapM fun e he => ih e he (h.2 e he)).bind (Scalar.computes_call h.1)
  | param | column | aggregate | lambda | scan | filter | project | order | limit | join | setOp =>
    cases h

/-- The parts of a closed expression are closed. -/
theorem isClosed_of_mem_nodes {e n : Expr} (h : e.isClosed = true) (hn : n ∈ e.nodes) :
    n.isClosed = true := by
  induction e using childInduction with
  | h e ih =>
    rw [nodes_eq_cons] at hn
    rcases List.mem_cons.1 hn with rfl | hn
    · exact h
    · obtain ⟨c, hc, hn⟩ := List.mem_flatMap.1 hn
      exact ih c hc (isClosed_of_mem_children h hc) hn

/-- A function that a closed expression calls is a built-in one by its name in capitals. -/
theorem exists_builtin_of_isClosed {e : Expr} (h : e.isClosed = true) {function : String}
    {args : List Expr} {t : LogicalType} (hcall : call function args t ∈ e.nodes) :
    ∃ b : Builtin, LetterCase.asciiUpper function = b.name ∧
      ∀ values, Scalar.call function values = b.apply values := by
  have hclosed := isClosed_of_mem_nodes h hcall
  rw [isClosed, Bool.and_eq_true] at hclosed
  obtain ⟨b, hb⟩ := Builtin.isName_iff.1 hclosed.1
  have hname := Builtin.ofName?_eq_some_iff.1 hb
  exact ⟨b, hname, Scalar.call_eq_apply hname⟩

/-! ### Function names in another case -/

/-- A call with the name of its function in capitals. -/
def capitalizeCall : Expr → Expr
  | call function args t => call (LetterCase.asciiUpper function) args t
  | e => e

/-- The tree with all function names in capitals. -/
def capitalized (e : Expr) : Expr := e.transformUp capitalizeCall

/-- The root is written in capitals after its children. -/
theorem capitalized_eq (e : Expr) :
    e.capitalized = capitalizeCall (e.mapChildren capitalized) := transformUp_eq capitalizeCall e

/-- The judgement does not look at the case of function names. -/
theorem isClosed_capitalizeCall (e : Expr) : e.capitalizeCall.isClosed = e.isClosed := by
  cases e
  case call function args t =>
    rw [capitalizeCall, isClosed, isClosed, Builtin.isName_asciiUpper]
  all_goals rfl

/-- Closed expressions stay closed when function names change their case. -/
theorem isClosed_capitalized (e : Expr) : e.capitalized.isClosed = e.isClosed := by
  induction e using childInduction with
  | h e ih =>
    rw [capitalized_eq, isClosed_capitalizeCall]
    exact (rebuilt_mapChildren ih).isClosed_eq

/-- Writing the functions of a closed expression in capitals keeps its outcome. By induction on the
expression: functions are looked up without regard to case, and no other node has a name that is
changed. -/
theorem evaluate_capitalized {e : Expr} (h : e.isClosed = true) (env : Env) :
    e.capitalized.evaluate env = e.evaluate env := by
  induction e using treeInduction with
  | const v t => rfl
  | member e n t ih =>
    have heq : (member e n t).capitalized = member e.capitalized n t := capitalized_eq _
    rw [heq, evaluate, evaluate, ih h]
  | binary op l r t ihl ihr =>
    rw [isClosed, Bool.and_eq_true] at h
    have heq : (binary op l r t).capitalized = binary op l.capitalized r.capitalized t :=
      capitalized_eq _
    rw [heq, evaluate, evaluate, ihl h.1, ihr h.2]
  | unary op e t ih =>
    have heq : (unary op e t).capitalized = unary op e.capitalized t := capitalized_eq _
    rw [heq, evaluate, evaluate, ih h]
  | call n es t ih =>
    rw [isClosed, Bool.and_eq_true, areClosed_iff] at h
    have heq : (call n es t).capitalized =
        call (LetterCase.asciiUpper n) (es.map capitalized) t := by
      rw [capitalized_eq, mapChildren_call]
      rfl
    obtain ⟨b, hb⟩ := Builtin.isName_iff.1 h.1
    have hcall : Scalar.call (LetterCase.asciiUpper n) = Scalar.call n := by
      funext args
      rw [Scalar.call, Scalar.call, Builtin.ofName?_asciiUpper, hb]
    have hargs : es.mapM (evaluate env ∘ capitalized) = es.mapM (evaluate env) :=
      Attempt.mapM_congr fun e he => ih e he (h.2 e he)
    rw [heq, evaluate, evaluate, evaluateList_eq, evaluateList_eq, List.mapM_map, hcall, hargs]
  | param | column | aggregate | lambda | scan | filter | project | order | limit | join | setOp =>
    cases h

/-- A closed expression has the same outcome in every environment, and it does not fail for want of
a parameter, a column, a function or a scalar. Each function that it calls is known by its name in
capitals. With the names in another letter case the expression is closed too, with this outcome. -/
theorem evaluable_of_isClosed {e : Expr} (h : e.isClosed = true) :
    (∀ env, e.evaluate env = e.evaluate .empty) ∧
    (∀ env,
      (∀ name, e.evaluate env ≠ .error (.unboundParameter name)) ∧
      (∀ qualifier name, e.evaluate env ≠ .error (.unknownColumn qualifier name)) ∧
      (∀ name, e.evaluate env ≠ .error (.unknownFunction name)) ∧
      ∀ kind, e.evaluate env ≠ .error (.notScalar kind)) ∧
    (∀ function args t, call function args t ∈ e.nodes →
      ∃ b : Builtin, LetterCase.asciiUpper function = b.name ∧
        ∀ values, Scalar.call function values = b.apply values) ∧
    ∀ e' : Expr, e'.capitalized = e.capitalized →
      e'.isClosed = true ∧ ∀ env, e'.evaluate env = e.evaluate .empty := by
  have hrefusal : ∀ {env error}, e.evaluate env = .error error → error.Refusal :=
    fun {env error} => computes_evaluate h env error
  refine ⟨evaluate_of_isClosed h, fun env => ⟨?_, ?_, ?_, ?_⟩,
    fun function args t => exists_builtin_of_isClosed h, fun e' he' => ?_⟩
  · intro name herror
    cases hrefusal herror
  · intro qualifier name herror
    cases hrefusal herror
  · intro name herror
    cases hrefusal herror
  · intro kind herror
    cases hrefusal herror
  · have hclosed : e'.isClosed = true := by
      rw [← isClosed_capitalized, he', isClosed_capitalized, h]
    refine ⟨hclosed, fun env => ?_⟩
    rw [← evaluate_capitalized hclosed, he', evaluate_capitalized h, evaluate_of_isClosed h]

/-- The first of two texts that is not NULL, under the given names of the functions. -/
def firstText (coalesce lower concat : String) : Expr :=
  .call coalesce
    [.call lower [.const .null .string] .string,
      .call concat [.const (.text "no. ") .string, mkBinary .plus (int 1) (int 2)] .string] .string

/-- The same call in three spellings: closed, and with one value everywhere. -/
theorem evaluable_of_isClosed_firstText :
    (firstText "COALESCE" "Lower" "concat").isClosed = true ∧
      (firstText "COALESCE" "Lower" "concat").evaluate .empty = .ok (.text "no. 3") ∧
      (firstText "cOALESCE" "LOWER" "ConCat").isClosed = true ∧
      ∀ env, (firstText "cOALESCE" "LOWER" "ConCat").evaluate env =
        (firstText "COALESCE" "Lower" "concat").evaluate .empty := by
  have hclosed : (firstText "COALESCE" "Lower" "concat").isClosed = true := by decide
  have hnames : (firstText "cOALESCE" "LOWER" "ConCat").capitalized =
      (firstText "COALESCE" "Lower" "concat").capitalized := by cbv
  exact ⟨hclosed, rfl, (evaluable_of_isClosed hclosed).2.2.2 _ hnames⟩

end Expr

end QueryTree
