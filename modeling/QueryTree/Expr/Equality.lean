import QueryTree.Expr.Basic

/-!
# Equality of trees

Two trees are equal when they have the same shape, names, types and flags and their constants are
equal as values. It is the equality of values at the leaves, so a tree that holds a NaN differs from
itself.
-/

namespace QueryTree.Expr

mutual

/-- Structural equality, with doubles compared as numbers. -/
def beq : Expr → Expr → Bool
  | const v t, const v' t' => v == v' && t == t'
  | param n t, param n' t' => n == n' && t == t'
  | member e n t, member e' n' t' => beq e e' && n == n' && t == t'
  | column a n t, column a' n' t' => a == a' && n == n' && t == t'
  | binary op l r t, binary op' l' r' t' => op == op' && beq l l' && beq r r' && t == t'
  | unary op e t, unary op' e' t' => op == op' && beq e e' && t == t'
  | call n as t, call n' as' t' => n == n' && beqList as as' && t == t'
  | aggregate f a d t, aggregate f' a' d' t' => f == f' && beqOption a a' && d == d' && t == t'
  | lambda ps b, lambda ps' b' => ps == ps' && beq b b'
  | scan s a t, scan s' a' t' => beq s s' && a == a' && t == t'
  | filter i p, filter i' p' => beq i i' && beq p p'
  | project a i cs d gs, project a' i' cs' d' gs' =>
    a == a' && beq i i' && beqColumns cs cs' && d == d' && beqList gs gs'
  | order i ks, order i' ks' => beq i i' && beqKeys ks ks'
  | limit i t s, limit i' t' s' => beq i i' && beqOption t t' && beqOption s s'
  | join k l r o, join k' l' r' o' => k == k' && beq l l' && beq r r' && beqOption o o'
  | setOp op all l r a, setOp op' all' l' r' a' =>
    op == op' && all == all' && beq l l' && beq r r' && a == a'
  | _, _ => false
termination_by structural e => e

/-- Equality of lists of trees. -/
def beqList : List Expr → List Expr → Bool
  | [], [] => true
  | e :: es, e' :: es' => beq e e' && beqList es es'
  | _, _ => false
termination_by structural es => es

/-- Equality of optional trees. -/
def beqOption : Option Expr → Option Expr → Bool
  | none, none => true
  | some e, some e' => beq e e'
  | _, _ => false
termination_by structural e => e

/-- Equality of columns, names included. -/
def beqColumns : List (ColumnOf Expr) → List (ColumnOf Expr) → Bool
  | [], [] => true
  | ⟨n, e⟩ :: cs, ⟨n', e'⟩ :: cs' => n == n' && beq e e' && beqColumns cs cs'
  | _, _ => false
termination_by structural cs => cs

/-- Equality of ordering keys, directions included. -/
def beqKeys : List (KeyOf Expr) → List (KeyOf Expr) → Bool
  | [], [] => true
  | ⟨e, d⟩ :: ks, ⟨e', d'⟩ :: ks' => beq e e' && d == d' && beqKeys ks ks'
  | _, _ => false
termination_by structural ks => ks

end

instance : BEq Expr := ⟨beq⟩

/-- The same keys in the same directions. -/
instance : BEq OrderKey := ⟨fun a b => a.expr == b.expr && a.direction == b.direction⟩

end QueryTree.Expr
