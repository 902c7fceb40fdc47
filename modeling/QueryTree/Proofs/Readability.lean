import QueryTree.Proofs.ScalarSpelling

/-!
# Unique readability

What does the text of a scalar tell about the tree? Operators are told apart by the spaces around
them, binary operands by their parentheses, names by the dots, parentheses and quotes behind them.
Only one thing is lost: an operator before its operand and one behind it can have been applied in
either order, `NOT a IS NULL` is the negated test and the test of the negation. `aligned` is the
tree with every test for NULL moved below the prefix operators that it is applied to, and the text
determines it (`aligned_eq_of_spell_eq`).

The text of an operand is read from the left: prefix operators, then a core that is not unary, then
postfix operators. Behind an operand stands a closing parenthesis, a comma, a binary operator or
nothing, and so it is known where it ends.
-/

namespace QueryTree

namespace Expr

/-! ### Trees up to types and alignment -/

/-- A node without its declared type. -/
def untypeNode : Expr → Expr
  | const v _ => const v .bool
  | param n _ => param n .bool
  | member e n _ => member e n .bool
  | column q n _ => column q n .bool
  | binary op l r _ => binary op l r .bool
  | unary op e _ => unary op e .bool
  | call f args _ => call f args .bool
  | aggregate f a d _ => aggregate f a d .bool
  | scan s q _ => scan s q .bool
  | e => e

/-- The tree without declared types. -/
def untyped (e : Expr) : Expr := e.transformUp untypeNode

/-- Apply a postfix operator below the prefix operators of a tree. -/
def applyPostfix (op : UnaryOperator) : Expr → Expr
  | unary other e t =>
    if other.isPostfix then unary op (unary other e t) .bool else unary other (applyPostfix op e) t
  | e => unary op e .bool

/-- A node without its type, aligned if its subtrees are. -/
def alignNode (e : Expr) : Expr :=
  match e.untypeNode with
  | unary op operand t => if op.isPostfix then applyPostfix op operand else unary op operand t
  | node => node

/-- The tree without declared types, with every postfix operator below the prefix operators that it
is applied to. -/
def aligned (e : Expr) : Expr := e.transformUp alignNode

/-- A prefix operator is applied to a postfix operator, or a postfix operator to a prefix one. -/
def mixesUnary : Expr → Bool
  | unary op (unary other _ _) _ => op.isPostfix != other.isPostfix
  | _ => false

/-- No prefix operator is applied to a postfix operator, nor the other way round. -/
def Unmixed (e : Expr) : Prop := e.any mixesUnary = false

instance (e : Expr) : Decidable e.Unmixed := inferInstanceAs (Decidable (_ = _))

theorem untyped_eq (e : Expr) : e.untyped = (e.mapChildren untyped).untypeNode := transformUp_eq _ e

theorem aligned_eq (e : Expr) : e.aligned = (e.mapChildren aligned).alignNode := transformUp_eq _ e

/-- Alignment goes through binary operators. -/
theorem aligned_binary (op : BinaryOperator) (l r : Expr) (t : LogicalType) :
    (binary op l r t).aligned = binary op l.aligned r.aligned .bool :=
  aligned_eq _

/-- Alignment goes through calls. -/
theorem aligned_call (f : String) (args : List Expr) (t : LogicalType) :
    (call f args t).aligned = call f (args.map aligned) .bool := by
  rw [aligned_eq, mapChildren_call]
  rfl

/-- A postfix operator goes below the prefix operators of its aligned operand. -/
theorem aligned_unary (op : UnaryOperator) (e : Expr) (t : LogicalType) :
    (unary op e t).aligned =
      if op.isPostfix then applyPostfix op e.aligned else unary op e.aligned .bool :=
  aligned_eq _

/-- On a tree without prefix operators at its root, a postfix operator stays at the root. -/
theorem applyPostfix_eq {op : UnaryOperator} {e : Expr}
    (h : ∀ other x t, e = unary other x t → other.isPostfix = true) :
    applyPostfix op e = unary op e .bool := by
  cases e with
  | unary other x t => rw [applyPostfix, if_pos (h other x t rfl)]
  | _ => rfl

/-- Where operators of the two kinds are not applied to each other, there is nothing to align. By
induction on the tree: a postfix operator is moved only when the operator directly below it is
written in front. -/
theorem aligned_of_unmixed {e : Expr} (h : e.Unmixed) : e.aligned = e.untyped := by
  induction e using childInduction with
  | h e ih =>
    rw [Unmixed, any_eq, Bool.or_eq_false_iff, List.any_eq_false] at h
    have hchildren : e.mapChildren aligned = e.mapChildren untyped :=
      mapChildren_congr fun c hc => ih c hc (Bool.eq_false_iff.2 (h.2 c hc))
    rw [aligned_eq, untyped_eq, hchildren]
    cases e with
    | unary op operand t =>
      change (if op.isPostfix then applyPostfix op operand.untyped else
        unary op operand.untyped .bool) = unary op operand.untyped .bool
      split
      next hop =>
        refine applyPostfix_eq fun other x t heq => ?_
        cases operand with
        | unary other' x' t' =>
          rw [untyped_eq] at heq
          cases heq
          have hkind := h.1
          rw [mixesUnary, hop, bne_eq_false_iff_eq] at hkind
          exact hkind.symm
        | _ =>
          rw [untyped_eq] at heq
          cases heq
      next => rfl
    | _ => rfl

/-! ### Chains of unary operators -/

/-- The node is a unary operator. -/
def isUnary : Expr → Bool
  | unary .. => true
  | _ => false

/-- What the unary operators at the root are applied to. -/
def core : Expr → Expr
  | unary _ e _ => core e
  | e => e

/-- The prefix operators at the root, the outermost first. -/
def prefixes : Expr → List UnaryOperator
  | unary op e _ => if op.isPostfix then prefixes e else op :: prefixes e
  | _ => []

/-- The postfix operators at the root, the innermost first. -/
def postfixes : Expr → List UnaryOperator
  | unary op e _ => if op.isPostfix then postfixes e ++ [op] else postfixes e
  | _ => []

/-- Prefix operators applied to a tree, the outermost first. -/
def prefixed (ops : List UnaryOperator) (e : Expr) : Expr :=
  ops.foldr (fun op x => unary op x .bool) e

/-- Postfix operators applied to a tree, the innermost first. -/
def postfixed (ops : List UnaryOperator) (e : Expr) : Expr :=
  ops.foldl (fun x op => unary op x .bool) e

theorem isPostfix_of_mem_prefixes {e : Expr} {op : UnaryOperator} (h : op ∈ e.prefixes) :
    op.isPostfix = false := by
  induction e using treeInduction with
  | unary other x t ih =>
    rw [prefixes] at h
    split at h
    · exact ih h
    next hop =>
      rcases List.mem_cons.1 h with rfl | h
      · exact Bool.eq_false_iff.2 hop
      · exact ih h
  | _ => cases h

theorem isPostfix_of_mem_postfixes {e : Expr} {op : UnaryOperator} (h : op ∈ e.postfixes) :
    op.isPostfix = true := by
  induction e using treeInduction with
  | unary other x t ih =>
    rw [postfixes] at h
    split at h
    next hop =>
      rcases List.mem_append.1 h with h | h
      · exact ih h
      · rwa [List.mem_singleton.1 h]
    · exact ih h
  | _ => cases h

/-- The core is below all unary operators at the root. -/
theorem isUnary_core (e : Expr) : e.core.isUnary = false := by
  induction e using treeInduction with
  | unary op x t ih => exact ih
  | _ => rfl

theorem HasPlainNames.core {e : Expr} (h : e.HasPlainNames) : e.core.HasPlainNames := by
  induction h with
  | unary op t he ih => exact ih
  | column t hq hn => exact .column t hq hn
  | param t hn => exact .param t hn
  | binary op t hl hr => exact .binary op t hl hr
  | call t hf hargs => exact .call t hf hargs

/-- A postfix operator goes below any number of prefix operators. -/
theorem applyPostfix_prefixed {ops : List UnaryOperator} (hops : ∀ op ∈ ops, op.isPostfix = false)
    (op : UnaryOperator) (e : Expr) :
    applyPostfix op (prefixed ops e) = prefixed ops (applyPostfix op e) := by
  induction ops with
  | nil => rfl
  | cons first ops ih =>
    rw [List.forall_mem_cons] at hops
    have hfirst : ¬ first.isPostfix = true := Bool.eq_false_iff.1 hops.1
    change applyPostfix op (unary first (prefixed ops e) .bool) = _
    rw [applyPostfix, if_neg hfirst, ih hops.2]
    rfl

theorem postfixed_concat (ops : List UnaryOperator) (op : UnaryOperator) (e : Expr) :
    postfixed (ops ++ [op]) e = unary op (postfixed ops e) .bool :=
  List.foldl_append ..

/-- And it goes on top of the postfix operators there. -/
theorem applyPostfix_postfixed {ops : List UnaryOperator} (hops : ∀ op ∈ ops, op.isPostfix = true)
    {e : Expr} (he : e.isUnary = false) (op : UnaryOperator) :
    applyPostfix op (postfixed ops e) = postfixed (ops ++ [op]) e := by
  rw [postfixed_concat]
  refine applyPostfix_eq fun other x t heq => ?_
  rcases List.eq_nil_or_concat ops with rfl | ⟨init, last, rfl⟩
  · have hroot : e = unary other x t := heq
    rw [hroot] at he
    cases he
  · rw [List.concat_eq_append, postfixed_concat] at heq
    cases heq
    exact hops other (by simp)

/-- An aligned tree is its core, its postfix operators and then its prefix operators. -/
theorem aligned_eq_chain (e : Expr) :
    e.aligned = prefixed e.prefixes (postfixed e.postfixes e.core.aligned) := by
  induction e using treeInduction with
  | unary op x t ih =>
    have hcore : x.core.aligned.isUnary = false := by
      have hunary := isUnary_core x
      rw [aligned_eq]
      generalize x.core = c at hunary
      cases c with
      | unary op x t => cases hunary
      | _ => rfl
    rw [aligned_unary, ih, prefixes, postfixes, core]
    split
    · rw [applyPostfix_prefixed (fun _ => isPostfix_of_mem_prefixes),
        applyPostfix_postfixed (fun _ => isPostfix_of_mem_postfixes) hcore]
    · rfl
  | _ => rfl

end Expr

/-! ### What follows -/

namespace Sql

open QueryTree.Expr

/-- The text of a scalar ends here. -/
def Closes : List Symbol → Prop
  | [] => True
  | s :: _ => s = .char ')' ∨ s = .char ','

/-- The text of an operand ends here: the scalar ends, or a binary operator follows. -/
def EndsOperand (r : List Symbol) : Prop :=
  Closes r ∨ ∃ s rest, r = .char ' ' :: s :: rest ∧ s ≠ .char 'I'

theorem closes_parenthesis (r : List Symbol) : Closes (.char ')' :: r) := .inl rfl

theorem Closes.not_space {r rest : List Symbol} (h : Closes r) : r ≠ .char ' ' :: rest := by
  rintro rfl
  rcases h with h | h <;> cases h

theorem EndsOperand.boundary {r : List Symbol} (h : EndsOperand r) : Boundary r := by
  rcases h with h | ⟨s, rest, rfl, _⟩
  · cases r with
    | nil => exact fun s hs => (nomatch hs)
    | cons s r =>
      rcases h with rfl | rfl
      · exact boundary_cons rfl r
      · exact boundary_cons rfl r
  · exact boundary_cons rfl _

/-- A binary operator begins with a space, and is not taken for a test of NULL. -/
theorem between_eq (op : BinaryOperator) :
    ∃ s rest, between op = .char ' ' :: s :: rest ∧ s ≠ .char 'I' := by
  cases op <;> exact ⟨_, _, rfl, by decide⟩

/-- So an operand ends before it. -/
theorem endsOperand_between (op : BinaryOperator) (r : List Symbol) :
    EndsOperand (between op ++ r) := by
  obtain ⟨s, rest, heq, hs⟩ := between_eq op
  rw [heq]
  exact .inr ⟨s, rest ++ r, rfl, hs⟩

/-- No two binary operators have the same text. -/
theorem operatorText_injective : Function.Injective operatorText := by
  have hfind : ∀ op, BinaryOperator.all.find? (operatorText · == operatorText op) = some op := by
    intro op
    cases op <;> decide
  intro op op' h
  exact Option.some.inj ((hfind op).symm.trans (h ▸ hfind op'))

/-- A binary operator is known from its text. -/
theorem between_inj {op op' : BinaryOperator} {r r' : List Symbol}
    (h : between op ++ r = between op' ++ r') : op = op' ∧ r = r' := by
  have hspaces : ∀ op, ∀ s ∈ spelled (operatorText op), (s != .char ' ') = true := by
    intro op
    cases op <;> decide
  have hstop : ∀ r : List Symbol, ∀ s ∈ (spelled " " ++ r).head?, (s != .char ' ') = false := by
    intro r s hs
    obtain rfl := Option.mem_some.1 hs
    rfl
  simp only [between, spelled_append, List.append_assoc] at h
  have hrest := List.append_cancel_left h
  obtain ⟨htext, hrest⟩ := run_unique (hspaces op) (hspaces op') (hstop r) (hstop r') hrest
  exact ⟨operatorText_injective (spelled_injective htext), List.append_cancel_left hrest⟩

/-- A postfix operator is known from its text. -/
theorem sign_inj {op op' : UnaryOperator} {r r' : List Symbol} (h : sign op ++ r = sign op' ++ r') :
    op = op' ∧ r = r' := by
  have hop : op = op' := by
    cases op <;> cases op' <;> first | rfl | simp [sign, spelled] at h
  subst hop
  exact ⟨rfl, List.append_cancel_left h⟩

/-- Unary operators are known from their text when what follows is none of them. By induction on the
operators, the text of none of which begins with that of another. -/
theorem signs_inj {ops ops' : List UnaryOperator} {r r' : List Symbol}
    (hr : ∀ op ∈ ops', ∀ x, r ≠ sign op ++ x) (hr' : ∀ op ∈ ops, ∀ x, r' ≠ sign op ++ x)
    (h : ops.flatMap sign ++ r = ops'.flatMap sign ++ r') : ops = ops' ∧ r = r' := by
  induction ops generalizing ops' with
  | nil =>
    cases ops' with
    | nil => exact ⟨rfl, h⟩
    | cons op' ops' =>
      rw [List.flatMap_cons, List.append_assoc] at h
      exact absurd h (hr op' List.mem_cons_self _)
  | cons op ops ih =>
    rw [List.forall_mem_cons] at hr'
    cases ops' with
    | nil =>
      rw [List.flatMap_cons, List.append_assoc] at h
      exact absurd h.symm (hr'.1 _)
    | cons op' ops' =>
      rw [List.forall_mem_cons] at hr
      rw [List.flatMap_cons, List.flatMap_cons, List.append_assoc, List.append_assoc] at h
      obtain ⟨rfl, hops⟩ := sign_inj h
      obtain ⟨rfl, hrest⟩ := ih hr.2 hr'.2 hops
      exact ⟨rfl, hrest⟩

/-- What follows an operand is no postfix operator. -/
theorem EndsOperand.ne_sign {r : List Symbol} (h : EndsOperand r) {op : UnaryOperator}
    (hop : op.isPostfix = true) (x : List Symbol) : r ≠ sign op ++ x := by
  have hsign : ∃ rest, sign op ++ x = .char ' ' :: .char 'I' :: rest := by
    cases op with
    | isNull | isNotNull => exact ⟨_, rfl⟩
    | not | negate => cases hop
  obtain ⟨rest, hrest⟩ := hsign
  rw [hrest]
  rcases h with h | ⟨s, rest', rfl, hs⟩
  · exact h.not_space
  · intro heq
    cases heq
    exact hs rfl

/-! ### Cores -/

/-- The name that the text of a core begins with. -/
def header : Expr → String
  | .column q _ _ => q
  | .call f _ _ => f
  | _ => ""

/-- The text of a core behind its name. -/
def body (d : Dialect) : Expr → List Symbol
  | .column _ n _ => spelled "." ++ spelled (d.quote n)
  | .param n _ => [.named n]
  | .call _ args _ => spelled "(" ++ (listed (args.map (spell d)) ++ spelled ")")
  | e => spelled "(" ++ (spell d e ++ spelled ")")

section Core

variable {d : Dialect} {e e' : Expr}

/-- An operand that is no unary operator is its name and the rest. -/
theorem spellOperand_core (he : e.HasPlainNames) (hunary : e.isUnary = false) :
    spellOperand d e = spelled (header e) ++ body d e := by
  cases he with
  | column t hq hn => exact spell_column _ _
  | param t hn => rfl
  | binary op t hl hr => exact spellOperand_binary op
  | unary op t he => cases hunary
  | call t hf hargs => exact spell_call _ hargs

theorem isName_of_mem_header (he : e.HasPlainNames) :
    ∀ s ∈ spelled (header e), s.isName = true := by
  cases he with
  | column t hq hn => exact isName_of_mem_spelled hq
  | call t hf hargs => exact isName_of_mem_spelled hf
  | param | binary | unary => exact fun s hs => (nomatch hs)

/-- Behind its name a core goes on with a dot, a parenthesis or a placeholder. -/
theorem body_eq (d : Dialect) (e : Expr) :
    ∃ s rest, body d e = s :: rest ∧ s.isName = false ∧
      s ∉ [.char ' ', .char '-', .char ')'] := by
  cases e with
  | column q n t => exact ⟨.char '.', _, rfl, rfl, by decide⟩
  | param n t => exact ⟨.named n, _, rfl, rfl, by simp⟩
  | _ => exact ⟨.char '(', _, rfl, rfl, by decide⟩

/-- Behind the name stands nothing that could be a part of it. -/
theorem boundary_body (d : Dialect) (e : Expr) (r : List Symbol) : Boundary (body d e ++ r) := by
  obtain ⟨s, rest, heq, hs, _⟩ := body_eq d e
  rw [heq]
  intro s' hs'
  obtain rfl := Option.mem_some.1 hs'
  exact hs

/-- The name of a core is known from the text. -/
theorem header_eq_of_spellOperand_eq (he : e.HasPlainNames) (hunary : e.isUnary = false)
    (he' : e'.HasPlainNames) (hunary' : e'.isUnary = false) {r r' : List Symbol}
    (h : spellOperand d e ++ r = spellOperand d e' ++ r') :
    header e = header e' ∧ body d e ++ r = body d e' ++ r' := by
  rw [spellOperand_core he hunary, spellOperand_core he' hunary', List.append_assoc,
    List.append_assoc] at h
  obtain ⟨hheader, hbody⟩ := run_unique (isName_of_mem_header he) (isName_of_mem_header he')
    (boundary_body d e r) (boundary_body d e' r') h
  exact ⟨spelled_injective hheader, hbody⟩

/-- No word with a space, a minus sign or a closing parenthesis behind it begins a core. -/
theorem spellOperand_ne (he : e.HasPlainNames) (hunary : e.isUnary = false) {w : String} {c : Char}
    (hw : ∀ s ∈ spelled w, s.isName = true)
    (hc : Symbol.char c ∈ [.char ' ', .char '-', .char ')']) (r x : List Symbol) :
    spellOperand d e ++ r ≠ spelled w ++ .char c :: x := by
  have hname : isNameChar c = false := by
    simp only [List.mem_cons, Symbol.char.injEq, List.not_mem_nil, or_false] at hc
    rcases hc with rfl | rfl | rfl <;> rfl
  intro h
  rw [spellOperand_core he hunary, List.append_assoc] at h
  obtain ⟨_, hrest⟩ := run_unique (isName_of_mem_header he) hw (boundary_body d e r)
    (boundary_cons hname x) h
  obtain ⟨s, rest, hbody, _, hs⟩ := body_eq d e
  rw [hbody] at hrest
  rw [(List.cons.inj hrest).1] at hs
  exact hs hc

/-- A core does not begin like a prefix operator. -/
theorem spellOperand_ne_sign (he : e.HasPlainNames) (hunary : e.isUnary = false)
    {op : UnaryOperator} (hop : op.isPostfix = false) (r x : List Symbol) :
    spellOperand d e ++ r ≠ sign op ++ x := by
  cases op with
  | not => exact spellOperand_ne he hunary (w := "NOT") (by decide) (by decide) r x
  | negate => exact spellOperand_ne he hunary (w := "") (by decide) (by decide) r x
  | isNull | isNotNull => cases hop

end Core

/-! ### Reading -/

/-- A tree is known from its text among other trees, whatever may follow them. -/
def Reads (text : Expr → List Symbol) (among : Expr → Prop) (follows : List Symbol → Prop)
    (e : Expr) : Prop :=
  ∀ e' r r', among e' → follows r → follows r' → text e ++ r = text e' ++ r' →
    e.aligned = e'.aligned ∧ r = r'

/-- A scalar is known from its text, up to a closing parenthesis or a comma. -/
abbrev ReadsScalar (d : Dialect) : Expr → Prop := Reads (spell d) HasPlainNames Closes

/-- An operand is known from its text, up to the end of the scalar or an operator. -/
abbrev ReadsOperand (d : Dialect) : Expr → Prop := Reads (spellOperand d) HasPlainNames EndsOperand

/-- A core is known from its text, up to the end of a name. -/
abbrev ReadsCore (d : Dialect) : Expr → Prop :=
  Reads (spellOperand d) (fun e => e.HasPlainNames ∧ e.isUnary = false) Boundary

section Reads

variable {d : Dialect} {e : Expr}

/-- An operand is its prefix operators, its core and its postfix operators. -/
theorem spellOperand_chain (he : e.HasPlainNames) :
    spellOperand d e =
      e.prefixes.flatMap sign ++ (spellOperand d e.core ++ e.postfixes.flatMap sign) := by
  induction he with
  | unary op t he ih =>
    rw [spellOperand_unary op he, ih, prefixes, postfixes, core]
    split <;> simp
  | column | param | binary | call => simp [prefixes, postfixes, core]

/-- The postfix operators behind an operand begin with a space. -/
theorem boundary_postfixes (e : Expr) {r : List Symbol} (hr : EndsOperand r) :
    Boundary (e.postfixes.flatMap sign ++ r) := by
  cases hops : e.postfixes with
  | nil => exact hr.boundary
  | cons op ops =>
    have hop : op ∈ e.postfixes := hops ▸ List.mem_cons_self
    rw [List.flatMap_cons, List.append_assoc]
    exact boundary_sign (isPostfix_of_mem_postfixes hop)

/-- An operand is known if its core is: the signs before and behind it can be read off one by one.
-/
theorem readsOperand (he : e.HasPlainNames) (h : ReadsCore d e.core) : ReadsOperand d e := by
  intro e' r r' he' hr hr' htext
  rw [spellOperand_chain he, spellOperand_chain he'] at htext
  simp only [List.append_assoc] at htext
  obtain ⟨hprefixes, htext⟩ := signs_inj
    (fun op hop x =>
      spellOperand_ne_sign he.core (isUnary_core e) (isPostfix_of_mem_prefixes hop) _ x)
    (fun op hop x =>
      spellOperand_ne_sign he'.core (isUnary_core e') (isPostfix_of_mem_prefixes hop) _ x) htext
  obtain ⟨hcore, htext⟩ := h e'.core _ _ ⟨he'.core, isUnary_core e'⟩ (boundary_postfixes e hr)
    (boundary_postfixes e' hr') htext
  obtain ⟨hpostfixes, hrest⟩ := signs_inj
    (fun op hop x => hr.ne_sign (isPostfix_of_mem_postfixes hop) x)
    (fun op hop x => hr'.ne_sign (isPostfix_of_mem_postfixes hop) x) htext
  rw [aligned_eq_chain e, aligned_eq_chain e', hprefixes, hcore, hpostfixes]
  exact ⟨rfl, hrest⟩

/-- A scalar that is not binary reads like an operand. Were the other one binary, its operator would
have to be what closes this one. -/
theorem readsScalar_of_operand (h : ReadsOperand d e) (hspell : spellOperand d e = spell d e) :
    ReadsScalar d e := by
  intro e' r r' he' hr hr' htext
  rw [← hspell] at htext
  rcases spellOperand_cases d e' with ⟨op, left, right, t, rfl⟩ | hspell'
  · cases he' with
    | binary op t hleft hright =>
      rw [spell_binary op hleft hright, List.append_assoc, List.append_assoc] at htext
      obtain ⟨_, hrest⟩ := h left _ _ hleft (.inl hr) (endsOperand_between op _) htext
      obtain ⟨s, rest, hbetween, _⟩ := between_eq op
      rw [hbetween] at hrest
      exact absurd hrest hr.not_space
  · rw [← hspell'] at htext
    exact h e' r r' he' (.inl hr) (.inl hr') htext

/-- A binary operation is known if its operands are, since the text of one ends where the operator
begins. -/
theorem readsScalar_binary {left right : Expr} (op : BinaryOperator) (t : LogicalType)
    (hleft : left.HasPlainNames) (hright : right.HasPlainNames) (hl : ReadsOperand d left)
    (hr : ReadsOperand d right) : ReadsScalar d (.binary op left right t) := by
  intro e' r r' he' hclose hclose' htext
  rw [spell_binary op hleft hright, List.append_assoc, List.append_assoc] at htext
  rcases spellOperand_cases d e' with ⟨op', left', right', t', rfl⟩ | hspell'
  · cases he' with
    | binary op' t' hleft' hright' =>
      rw [spell_binary op' hleft' hright', List.append_assoc, List.append_assoc] at htext
      obtain ⟨hleft, hbetween⟩ :=
        hl left' _ _ hleft' (endsOperand_between op _) (endsOperand_between op' _) htext
      obtain ⟨rfl, hoperand⟩ := between_inj hbetween
      obtain ⟨hright, hrest⟩ := hr right' _ _ hright' (.inl hclose) (.inl hclose') hoperand
      rw [aligned_binary, aligned_binary, hleft, hright]
      exact ⟨rfl, hrest⟩
  · rw [← hspell'] at htext
    obtain ⟨_, hrest⟩ := hl e' _ _ he' (endsOperand_between op _) (.inl hclose') htext
    obtain ⟨s, rest, hbetween, _⟩ := between_eq op
    rw [hbetween] at hrest
    exact absurd hrest.symm hclose'.not_space

/-- No operand begins with a closing parenthesis, so a list without arguments is known too. -/
theorem spellOperand_ne_close (he : e.HasPlainNames) (r x : List Symbol) :
    spellOperand d e ++ r ≠ .char ')' :: x := by
  rw [spellOperand_chain he]
  simp only [List.append_assoc]
  cases hops : e.prefixes with
  | nil => exact spellOperand_ne he.core (isUnary_core e) (w := "") (by decide) (by decide) _ x
  | cons op ops =>
    have hop : op ∈ e.prefixes := hops ▸ List.mem_cons_self
    have hprefix := isPostfix_of_mem_prefixes hop
    rw [List.flatMap_cons, List.append_assoc]
    cases op with
    | not | negate =>
      intro h
      cases (List.cons.inj h).1
    | isNull | isNotNull => cases hprefix

/-- No scalar begins with a closing parenthesis. -/
theorem spell_ne_close (he : e.HasPlainNames) (r x : List Symbol) :
    spell d e ++ r ≠ .char ')' :: x := by
  rcases spellOperand_cases d e with ⟨op, left, right, t, rfl⟩ | hspell
  · cases he with
    | binary op t hleft hright =>
      rw [spell_binary op hleft hright, List.append_assoc]
      exact spellOperand_ne_close hleft _ x
  · rw [← hspell]
    exact spellOperand_ne_close he r x

/-- What stands behind the first of several parts. -/
def listedRest : List (List Symbol) → List Symbol
  | [] => []
  | parts => spelled ", " ++ listed parts

theorem listedRest_cons (part : List Symbol) (parts : List (List Symbol)) :
    listedRest (part :: parts) = spelled ", " ++ listed (part :: parts) := rfl

theorem listed_cons (part : List Symbol) (parts : List (List Symbol)) :
    listed (part :: parts) = part ++ listedRest parts := by
  cases parts with
  | nil => exact (List.append_nil part).symm
  | cons next rest => exact listed_cons_cons part next rest

/-- An argument ends at the comma or the parenthesis behind it. -/
theorem closes_listedRest (parts : List (List Symbol)) (r : List Symbol) :
    Closes (listedRest parts ++ .char ')' :: r) := by
  cases parts with
  | nil => exact closes_parenthesis r
  | cons part parts => exact .inr rfl

/-- The arguments of a call are known from the text up to the closing parenthesis. By induction on
the arguments: each is known from the text up to the comma or the parenthesis behind it, and that
character tells whether there is another one. -/
theorem listed_inj {args args' : List Expr} (hargs : ∀ a ∈ args, a.HasPlainNames)
    (hargs' : ∀ a ∈ args', a.HasPlainNames) (h : ∀ a ∈ args, ReadsScalar d a) {r r' : List Symbol}
    (htext : listed (args.map (spell d)) ++ .char ')' :: r =
      listed (args'.map (spell d)) ++ .char ')' :: r') :
    args.map aligned = args'.map aligned ∧ r = r' := by
  induction args generalizing args' with
  | nil =>
    cases args' with
    | nil => exact ⟨rfl, (List.cons.inj htext).2⟩
    | cons a' as' =>
      rw [List.map_cons, listed_cons, List.append_assoc] at htext
      exact absurd htext.symm (spell_ne_close (hargs' a' List.mem_cons_self) _ r)
  | cons a as ih =>
    rw [List.forall_mem_cons] at h hargs
    cases args' with
    | nil =>
      rw [List.map_cons, listed_cons, List.append_assoc] at htext
      exact absurd htext (spell_ne_close hargs.1 _ r')
    | cons a' as' =>
      rw [List.forall_mem_cons] at hargs'
      simp only [List.map_cons, listed_cons, List.append_assoc] at htext
      obtain ⟨ha, hrest⟩ :=
        h.1 a' _ _ hargs'.1 (closes_listedRest _ r) (closes_listedRest _ r') htext
      rw [List.map_cons, List.map_cons, ha]
      -- the rests begin alike, so both lists end here or both go on
      cases as with
      | nil =>
        cases as' with
        | nil => exact ⟨rfl, (List.cons.inj hrest).2⟩
        | cons b' bs' => cases (List.cons.inj hrest).1
      | cons b bs =>
        cases as' with
        | nil => cases (List.cons.inj hrest).1
        | cons b' bs' =>
          simp only [List.map_cons, listedRest_cons, List.append_assoc] at hrest
          obtain ⟨has, hr⟩ := ih hargs.2 hargs'.2 h.2 (List.append_cancel_left hrest)
          rw [has]
          exact ⟨rfl, hr⟩

/-- A quoted name is known from its text. -/
theorem quote_inj {n n' : String} (hn : isName n = true) (hn' : isName n' = true)
    {r r' : List Symbol} (hr : Boundary r) (hr' : Boundary r')
    (h : spelled (d.quote n) ++ r = spelled (d.quote n') ++ r') : n = n' ∧ r = r' := by
  obtain ⟨opening, close, _, _, hchars, hquote⟩ := quote_eq d.quoteStyle
  have hclose : ∀ {r : List Symbol}, Boundary r → Boundary (spelled close ++ r) := by
    intro r hr
    cases hlist : close.toList with
    | nil => rwa [spelled, hlist]
    | cons c cs =>
      rw [hlist, List.any_cons, Bool.or_eq_false_iff] at hchars
      rw [spelled, hlist]
      exact boundary_cons hchars.1 _
  rw [Dialect.quote, Dialect.quote, hquote n hn, hquote n' hn'] at h
  simp only [spelled_append, List.append_assoc] at h
  obtain ⟨htext, hrest⟩ := run_unique (isName_of_mem_spelled hn) (isName_of_mem_spelled hn')
    (hclose hr) (hclose hr') (List.append_cancel_left h)
  exact ⟨spelled_injective htext, List.append_cancel_left hrest⟩

/-! ### Cores and trees -/

/-- A parameter is known by its name. -/
theorem readsCore_param {n : String} (t : LogicalType) (hn : isName n = true) :
    ReadsCore d (.param n t) := by
  rintro e' r r' ⟨he', hunary'⟩ hr hr' htext
  obtain ⟨_, hbody⟩ := header_eq_of_spellOperand_eq (.param t hn) rfl he' hunary' htext
  cases he' with
  | param t' hn' =>
    cases hbody
    exact ⟨rfl, rfl⟩
  | column | binary | call => cases (List.cons.inj hbody).1
  | unary => cases hunary'

/-- A column is known by its alias and its name. -/
theorem readsCore_column {q n : String} (t : LogicalType) (hq : isName q = true)
    (hn : isName n = true) : ReadsCore d (.column q n t) := by
  rintro e' r r' ⟨he', hunary'⟩ hr hr' htext
  obtain ⟨hheader, hbody⟩ := header_eq_of_spellOperand_eq (.column t hq hn) rfl he' hunary' htext
  cases he' with
  | column t' hq' hn' =>
    obtain ⟨rfl, hrest⟩ := quote_inj hn hn' hr hr' (List.cons.inj hbody).2
    cases hheader
    exact ⟨rfl, hrest⟩
  | param | binary | call => cases (List.cons.inj hbody).1
  | unary => cases hunary'

/-- A call is known by its name and its arguments, one after the other. -/
theorem readsCore_call {f : String} {args : List Expr} (t : LogicalType) (hf : isName f = true)
    (hargs : ∀ a ∈ args, a.HasPlainNames) (h : ∀ a ∈ args, ReadsScalar d a) :
    ReadsCore d (.call f args t) := by
  rintro e' r r' ⟨he', hunary'⟩ hr hr' htext
  obtain ⟨hheader, hbody⟩ := header_eq_of_spellOperand_eq (.call t hf hargs) rfl he' hunary' htext
  cases he' with
  | call t' hf' hargs' =>
    simp only [body, List.append_assoc] at hbody
    obtain ⟨haligned, hrest⟩ := listed_inj hargs hargs' h (List.append_cancel_left hbody)
    cases hheader
    rw [aligned_call, aligned_call, haligned]
    exact ⟨rfl, hrest⟩
  | binary =>
    -- a call has a name before its parenthesis
    cases hheader
    cases hf
  | column | param => cases (List.cons.inj hbody).1
  | unary => cases hunary'

/-- A binary operation in parentheses is known if it is without them. -/
theorem readsCore_binary {left right : Expr} {op : BinaryOperator} (t : LogicalType)
    (hleft : left.HasPlainNames) (hright : right.HasPlainNames)
    (h : ReadsScalar d (.binary op left right t)) : ReadsCore d (.binary op left right t) := by
  rintro e' r r' ⟨he', hunary'⟩ hr hr' htext
  obtain ⟨hheader, hbody⟩ :=
    header_eq_of_spellOperand_eq (.binary op t hleft hright) rfl he' hunary' htext
  cases he' with
  | binary op' t' hleft' hright' =>
    simp only [body, List.append_assoc] at hbody
    obtain ⟨haligned, hrest⟩ := h _ _ _ (.binary op' t' hleft' hright') (closes_parenthesis r)
      (closes_parenthesis r') (List.append_cancel_left hbody)
    exact ⟨haligned, (List.cons.inj hrest).2⟩
  | call t' hf' hargs' =>
    cases hheader
    cases hf'
  | column | param => cases (List.cons.inj hbody).1
  | unary => cases hunary'

/-- A scalar is known from its text, and so is the core of an operand. -/
theorem reads (he : e.HasPlainNames) : ReadsCore d e.core ∧ ReadsScalar d e := by
  induction he with
  | column t hq hn =>
    have hcore := readsCore_column (d := d) t hq hn
    exact ⟨hcore, readsScalar_of_operand (readsOperand (.column t hq hn) hcore) rfl⟩
  | param t hn =>
    have hcore := readsCore_param (d := d) t hn
    exact ⟨hcore, readsScalar_of_operand (readsOperand (.param t hn) hcore) rfl⟩
  | binary op t hl hr ihl ihr =>
    have hscalar := readsScalar_binary op t hl hr (readsOperand hl ihl.1) (readsOperand hr ihr.1)
    exact ⟨readsCore_binary t hl hr hscalar, hscalar⟩
  | unary op t he ih =>
    exact ⟨ih.1, readsScalar_of_operand (readsOperand (.unary op t he) ih.1) rfl⟩
  | call t hf hargs ih =>
    have hcore := readsCore_call (d := d) t hf hargs fun a ha => (ih a ha).2
    exact ⟨hcore, readsScalar_of_operand (readsOperand (.call t hf hargs) hcore) rfl⟩

end Reads

/-- Scalars that are spelled alike are alike up to types and alignment. -/
theorem aligned_eq_of_spell_eq {d : Dialect} {e e' : Expr} (he : e.HasPlainNames)
    (he' : e'.HasPlainNames) (h : spell d e = spell d e') : e.aligned = e'.aligned :=
  ((reads he).2 e' [] [] he' trivial trivial (by rw [h])).1

/-- The text and the parameters of a scalar determine it up to its declared types and the alignment
of its unary operators, and up to its types alone if it nowhere applies prefix and postfix operators
to each other. Where placeholders are question marks, each parameter is to be used once or only one
is to be used. -/
theorem aligned_eq_of_ofTokens_eq {d : Dialect} {e e' : Expr} {ts ts' : Sql}
    (he : e.HasPlainNames) (he' : e'.HasPlainNames) (hts : scalar d none e = .ok ts)
    (hts' : scalar d none e' = .ok ts')
    (hknown : d.placeholderStyle = .question → Known e.paramNames)
    (h : Command.ofTokens d ts = Command.ofTokens d ts') :
    e.aligned = e'.aligned ∧ (e.Unmixed → e'.Unmixed → e.untyped = e'.untyped) := by
  obtain rfl : tokens d e = ts := Except.ok.inj ((scalar_eq_ok_tokens d he).symm.trans hts)
  obtain rfl : tokens d e' = ts' := Except.ok.inj ((scalar_eq_ok_tokens d he').symm.trans hts')
  have hseparated : ∀ {e : Expr}, e.HasPlainNames → Separated (spell d e) := by
    intro e he
    simpa using standsApart_spell (d := d) he [] trivial fun s hs => (nomatch hs)
  rw [← uses_spell d he] at hknown
  have hspell : spell d e = spell d e' :=
    symbols_eq_of_ofTokens_eq (hseparated he) (hseparated he') hknown h
  have haligned := aligned_eq_of_spell_eq he he' hspell
  refine ⟨haligned, fun hunmixed hunmixed' => ?_⟩
  rw [← aligned_of_unmixed hunmixed, ← aligned_of_unmixed hunmixed', haligned]

/-- Quoted names and question marks. -/
def quoting : Dialect where
  quoteStyle := .double
  placeholderStyle := .question

/-- The negated price after a reduction, or whether there is a rate, with the declared types as
given. -/
def reduction (t : LogicalType) : Expr :=
  .call "coalesce"
    [.unary .negate (.binary .minus (.column "o" "price" t) (.param "cut" .int64) t) t,
      .unary .isNull (.param "rate" .int64) t] t

theorem hasPlainNames_reduction (t : LogicalType) : (reduction t).HasPlainNames := by
  refine .call t (by decide) (List.forall_mem_cons.2 ⟨?_, List.forall_mem_singleton.2 ?_⟩)
  · exact .unary _ t (.binary _ t (.column t (by decide) (by decide)) (.param _ (by decide)))
  · exact .unary _ t (.param _ (by decide))

/-- The declared types are all that the text leaves open, although it has a sign, a test and two
question marks. -/
theorem aligned_eq_of_ofTokens_eq_reduction :
    (reduction .int64).HasPlainNames ∧ (reduction .float64).HasPlainNames ∧
      Known (reduction .int64).paramNames ∧
      scalar quoting none (reduction .int64) = .ok (tokens quoting (reduction .int64)) ∧
      scalar quoting none (reduction .float64) = .ok (tokens quoting (reduction .float64)) ∧
      (Command.ofTokens quoting (tokens quoting (reduction .int64))).sql =
        "coalesce(-(o.\"price\" - ?), ? IS NULL)" ∧
      (reduction .int64).aligned = (reduction .float64).aligned ∧
      (reduction .int64).untyped = (reduction .float64).untyped := by
  have hint := hasPlainNames_reduction .int64
  have hfloat := hasPlainNames_reduction .float64
  have hknown : Known (reduction .int64).paramNames := .inl (by decide)
  obtain ⟨haligned, huntyped⟩ := aligned_eq_of_ofTokens_eq hint hfloat
    (scalar_eq_ok_tokens quoting hint) (scalar_eq_ok_tokens quoting hfloat) (fun _ => hknown) rfl
  exact ⟨hint, hfloat, hknown, scalar_eq_ok_tokens quoting hint,
    scalar_eq_ok_tokens quoting hfloat, by decide, haligned, huntyped (by decide) (by decide)⟩

/-- The test of a negation. -/
def testOfNegation : Expr :=
  .unary .isNull (.unary .not (.column "t" "a" .bool) .bool) .bool

/-- The negation of a test. -/
def negationOfTest : Expr :=
  .unary .not (.unary .isNull (.column "t" "a" .bool) .bool) .bool

/-- A call with two parameters and then one of them again. -/
def usedAgain (again : String) : Expr :=
  .call "f" [.param "p" .int64, .param "q" .int64, .param again .int64] .int64

/-- Neither condition can be left out: a test of a negation and a negation of a test have one text,
and of two question marks for one parameter nothing tells which parameter it is. -/
theorem ofTokens_eq_of_untyped_ne :
    (testOfNegation.HasPlainNames ∧ negationOfTest.HasPlainNames ∧
      (scalar .postgres none testOfNegation).map (Command.ofTokens .postgres) =
        .ok ⟨"NOT t.a IS NULL", []⟩ ∧
      (scalar .postgres none negationOfTest).map (Command.ofTokens .postgres) =
        .ok ⟨"NOT t.a IS NULL", []⟩ ∧
      testOfNegation.untyped ≠ negationOfTest.untyped) ∧
    (usedAgain "p").HasPlainNames ∧ (usedAgain "q").HasPlainNames ∧
      (scalar quoting none (usedAgain "p")).map (Command.ofTokens quoting) =
        .ok ⟨"f(?, ?, ?)", [⟨"p", .int64, none⟩, ⟨"q", .int64, none⟩]⟩ ∧
      (scalar quoting none (usedAgain "q")).map (Command.ofTokens quoting) =
        .ok ⟨"f(?, ?, ?)", [⟨"p", .int64, none⟩, ⟨"q", .int64, none⟩]⟩ ∧
      (usedAgain "p").untyped ≠ (usedAgain "q").untyped := by
  have hcolumn : (Expr.column "t" "a" .bool).HasPlainNames :=
    .column .bool (by decide) (by decide)
  have hcall : ∀ again, isName again = true → (usedAgain again).HasPlainNames := by
    intro again hagain
    refine .call .int64 (by decide) ?_
    simp only [List.forall_mem_cons]
    exact ⟨.param _ (by decide), .param _ (by decide), .param _ hagain, nofun⟩
  refine ⟨⟨.unary _ _ (.unary _ _ hcolumn), .unary _ _ (.unary _ _ hcolumn), rfl, rfl, ?_⟩,
    hcall "p" (by decide), hcall "q" (by decide), rfl, rfl, ?_⟩
  · intro h
    cases h
  · intro h
    have hnames : (usedAgain "p").untyped.paramNames ≠ (usedAgain "q").untyped.paramNames := by
      decide
    exact hnames (congrArg paramNames h)

end Sql

end QueryTree
