import QueryTree.Scalar.Builtin
import QueryTree.Scalar.Like

/-!
# Evaluating scalar expressions

`Expr.evaluate` computes a scalar expression where an environment answers for its parameters and
columns. Operands are evaluated from left to right and the first failure ends the evaluation; `AND`
and `OR` stop early only when their left side decides. Logic is three-valued, comparison and
arithmetic with NULL give NULL, and integers are computed exactly or fail.
-/

namespace QueryTree

/-- What the parameters and columns of an expression stand for. -/
structure Env where
  parameter : String → Option Value
  column : String → String → Option Value

namespace Env

/-- Nothing is bound. -/
def empty : Env := ⟨fun _ => none, fun _ _ => none⟩

/-- The listed parameters are bound; of two with one name the later counts. -/
def ofParameters (bindings : List (String × Value)) : Env where
  parameter name := bindings.reverse.lookup name
  column _ _ := none

end Env

namespace Scalar

/-- The error for operands that the operator does not take. -/
def mismatch (op : BinaryOperator) (l r : Value) : EvalError :=
  .typeMismatch op.name s!"{l.display} and {r.display}"

/-- NULL or a truth value. -/
def isLogical (v : Value) : Bool := v.isNull || v.asBool?.isSome

/-- Three-valued AND: a false side decides, else a NULL side leaves it open. -/
def conjunction (l r : Value) : Except EvalError Value :=
  match l.asBool?, r.asBool? with
  | some false, _ | _, some false => .ok (.bool false)
  | some true, some true => .ok (.bool true)
  | _, _ => if isLogical l && isLogical r then .ok .null else .error (mismatch .and l r)

/-- Three-valued OR: a true side decides, else a NULL side leaves it open. -/
def disjunction (l r : Value) : Except EvalError Value :=
  match l.asBool?, r.asBool? with
  | some true, _ | _, some true => .ok (.bool true)
  | some false, some false => .ok (.bool false)
  | _, _ => if isLogical l && isLogical r then .ok .null else .error (mismatch .or l r)

/-- What a comparison operator makes of an order. -/
def holds (op : BinaryOperator) (o : Ordering) : Bool :=
  match op with
  | .eq => o.isEq
  | .notEq => o.isNe
  | .lt => o.isLT
  | .ltEq => o.isLE
  | .gt => o.isGT
  | _ => o.isGE

/-- The truth value of a comparison, for operands that can be compared. -/
def comparison (op : BinaryOperator) (l r : Value) : Except EvalError Value :=
  match l.sqlCompare? r with
  | some o => .ok (.bool (holds op o))
  | none => .error (mismatch op l r)

/-- Integer arithmetic; `none` is an overflow. -/
def integer? (op : BinaryOperator) (a b : Int64) : Option Int64 :=
  match op with
  | .plus => Checked.add? a b
  | .minus => Checked.sub? a b
  | .multiply => Checked.mul? a b
  | .divide => Checked.div? a b
  | _ => Checked.rem? a b

/-- Arithmetic on doubles. -/
def floating (op : BinaryOperator) (a b : Float) : Float :=
  match op with
  | .plus => a + b
  | .minus => a - b
  | .multiply => a * b
  | .divide => a / b
  | _ => Binary64.remainder a b

/-- The operator divides by its right operand. -/
def divides : BinaryOperator → Bool
  | .divide | .modulo => true
  | _ => false

/-- Two integers give an integer; any other pair of numbers is computed in doubles. -/
def arithmetic (op : BinaryOperator) (l r : Value) : Except EvalError Value :=
  match l, r with
  | .int a, .int b =>
    if divides op && b == 0 then .error .divisionByZero
    else (integer? op a b).elim (.error (.overflow op.name)) fun n => .ok (.int n)
  | l, r =>
    match l.asFloat?, r.asFloat? with
    | some a, some b =>
      if divides op && b == 0.0 then .error .divisionByZero else .ok (.float (floating op a b))
    | _, _ => .error (mismatch op l r)

/-- The value of a binary operator on two values. -/
def binary (op : BinaryOperator) (l r : Value) : Except EvalError Value :=
  match op with
  | .and => conjunction l r
  | .or => disjunction l r
  | op =>
    if l.isNull || r.isNull then .ok .null
    else
      match op with
      | .plus | .minus | .multiply | .divide | .modulo => arithmetic op l r
      | .concat => .ok (.text (l.display ++ r.display))
      | .like =>
        match l, r with
        | .text s, .text p => .ok (.bool (like s p))
        | l, r => .error (mismatch op l r)
      | op => comparison op l r

/-- A left operand that decides the result by itself. -/
def decided? (op : BinaryOperator) (l : Value) : Option Value :=
  match op, l with
  | .and, .bool false => some (.bool false)
  | .or, .bool true => some (.bool true)
  | _, _ => none

/-- The value of a unary operator. -/
def unary (op : UnaryOperator) (v : Value) : Except EvalError Value :=
  match op with
  | .isNull => .ok (.bool v.isNull)
  | .isNotNull => .ok (.bool !v.isNull)
  | .not =>
    match v with
    | .null => .ok .null
    | .bool b => .ok (.bool !b)
    | other => .error (.typeMismatch "NOT" other.display)
  | .negate =>
    match v with
    | .null => .ok .null
    | .int n => (Checked.neg? n).elim (.error (.overflow "Negate")) fun m => .ok (.int m)
    | .float x => .ok (.float (-x))
    | other => .error (.typeMismatch "-" other.display)

/-- The member of a record; NULL has every member, and it is NULL. -/
def member (name : String) : Value → Except EvalError Value
  | .record fields => (Value.field? fields name).elim (.error (.missingMember name)) .ok
  | .null => .ok .null
  | other => .error (.typeMismatch ("." ++ name) ("cannot access a member of " ++ other.display))

/-- The value of a function call. -/
def call (function : String) (args : List Value) : Except EvalError Value :=
  match Builtin.ofName? function with
  | some b => b.apply args
  | none => .error (.unknownFunction function)

end Scalar

namespace Expr

mutual

/-- The value of a scalar expression in an environment. -/
def evaluate (env : Env) : Expr → Except EvalError Value
  | const value _ => .ok value
  | param name _ => (env.parameter name).elim (.error (.unboundParameter name)) .ok
  | column qualifier name _ =>
    (env.column qualifier name).elim (.error (.unknownColumn qualifier name)) .ok
  | member target name _ => do Scalar.member name (← evaluate env target)
  | binary op left right _ => do
    let l ← evaluate env left
    match Scalar.decided? op l with
    | some v => pure v
    | none => Scalar.binary op l (← evaluate env right)
  | unary op operand _ => do Scalar.unary op (← evaluate env operand)
  | call function args _ => do Scalar.call function (← evaluateList env args)
  | aggregate f a d t => .error (.notScalar (aggregate f a d t).kind)
  | lambda ps b => .error (.notScalar (lambda ps b).kind)
  | scan s a t => .error (.notScalar (scan s a t).kind)
  | filter i p => .error (.notScalar (filter i p).kind)
  | project a i cs d gs => .error (.notScalar (project a i cs d gs).kind)
  | order i ks => .error (.notScalar (order i ks).kind)
  | limit i t s => .error (.notScalar (limit i t s).kind)
  | join k l r o => .error (.notScalar (join k l r o).kind)
  | setOp op all l r a => .error (.notScalar (setOp op all l r a).kind)

/-- The values of several expressions, from left to right. -/
def evaluateList (env : Env) : List Expr → Except EvalError (List Value)
  | [] => .ok []
  | e :: rest => return (← evaluate env e) :: (← evaluateList env rest)

end

end Expr

end QueryTree
