import QueryTree.Proofs.Placeholders
import QueryTree.Proofs.Rebuild
import QueryTree.Proofs.Rendering

/-!
# The spelling of scalars

A scalar of columns, parameters, operators and calls whose names are plain identifiers is always
rendered. `spell` is its rendering in symbols, and `spellOperand` its rendering where it is an
operand; there is one equation for each kind of node. The parameters of a spelling are those of the
tree from left to right (`uses_spell`), and its placeholders stand apart from the rest of the text
(`separated_spell`).
-/

namespace QueryTree

open Attempt

/-- The operator is written behind its operand. -/
def UnaryOperator.isPostfix : UnaryOperator → Bool
  | isNull | isNotNull => true
  | not | negate => false

namespace Expr

/-- The tree has only columns, parameters, operators and calls, under plain names. -/
inductive HasPlainNames : Expr → Prop
  | column {q n} (t) : isName q = true → isName n = true → HasPlainNames (.column q n t)
  | param {n} (t) : isName n = true → HasPlainNames (.param n t)
  | binary {l r} (op t) : HasPlainNames l → HasPlainNames r → HasPlainNames (.binary op l r t)
  | unary {e} (op t) : HasPlainNames e → HasPlainNames (.unary op e t)
  | call {f args} (t) : isName f = true → (∀ a ∈ args, HasPlainNames a) →
      HasPlainNames (.call f args t)

/-- The name that a node has as a parameter. -/
def paramName? : Expr → Option String
  | param name _ => some name
  | _ => none

/-- The names of the parameters of a tree, from left to right. -/
def paramNames (e : Expr) : List String := e.nodes.filterMap paramName?

/-- The names of a node are its own and those of its subtrees. -/
theorem paramNames_eq (e : Expr) :
    e.paramNames = e.paramName?.toList ++ e.children.flatMap paramNames := by
  rw [paramNames, nodes_eq_cons, List.filterMap_cons, List.filterMap_flatMap]
  cases e.paramName? <;> rfl

end Expr

/-! ### Rendering in symbols -/

namespace Sql

open QueryTree.Expr

variable (d : Dialect)

/-- The rendering of a scalar. -/
def tokens (e : Expr) : Sql := valueOr [] (scalar d none e)

/-- A scalar with plain names is always formatted. -/
theorem scalar_eq_ok_tokens {e : Expr} (h : e.HasPlainNames) :
    scalar d none e = .ok (tokens d e) := by
  suffices hok : ∃ ts, scalar d none e = .ok ts by
    obtain ⟨ts, hts⟩ := hok
    exact eq_ok_valueOr hts []
  induction h with
  | column t _ _ => exact ⟨_, rfl⟩
  | param t _ => exact ⟨_, rfl⟩
  | binary op t _ _ ihl ihr =>
    obtain ⟨ls, hls⟩ := ihl
    obtain ⟨rs, hrs⟩ := ihr
    exact ⟨_, by rw [scalar, hls, hrs]; rfl⟩
  | unary op t _ ih =>
    obtain ⟨ts, hts⟩ := ih
    exact ⟨_, by rw [scalar, hts]; rfl⟩
  | @call f args t _ _ ih =>
    have hargs : args.mapM (scalar d none) = .ok (args.map (tokens d)) := by
      refine mapM_eq_ok_map fun a ha => ?_
      obtain ⟨ts, hts⟩ := ih a ha
      exact eq_ok_valueOr hts []
    exact ⟨_, by rw [scalar, scalars_eq, hargs]; rfl⟩

/-- A scalar in symbols. -/
def spell (e : Expr) : List Symbol := symbols (tokens d e)

/-- A scalar in symbols where it is an operand. -/
def spellOperand (e : Expr) : List Symbol := symbols (operand e (tokens d e))

/-- Parts with a comma between them. -/
def listed : List (List Symbol) → List Symbol
  | [] => []
  | [part] => part
  | part :: rest => part ++ spelled ", " ++ listed rest

theorem listed_cons_cons (part next : List Symbol) (rest : List (List Symbol)) :
    listed (part :: next :: rest) = part ++ (spelled ", " ++ listed (next :: rest)) :=
  List.append_assoc ..

/-- A list of texts is written with commas between its parts. -/
theorem symbols_separated (parts : List Sql) :
    symbols (separated ", " parts) = listed (parts.map symbols) := by
  induction parts with
  | nil => rfl
  | cons part parts ih =>
    cases parts with
    | nil => rfl
    | cons next rest =>
      have hseparated : separated ", " (part :: next :: rest) =
          part ++ word ", " ++ separated ", " (next :: rest) := rfl
      rw [hseparated, symbols_append, symbols_append, symbols_word, ih]
      rfl

/-- The symbols of a unary operator. -/
def sign : UnaryOperator → List Symbol
  | .not => spelled "NOT "
  | .negate => spelled "-"
  | .isNull => spelled " IS NULL"
  | .isNotNull => spelled " IS NOT NULL"

/-- The symbols of a binary operator, with the spaces around it. -/
def between (op : BinaryOperator) : List Symbol := spelled (" " ++ operatorText op ++ " ")

section Equations

variable {d} {l r e : Expr} {t : LogicalType}

theorem spell_column (q n : String) :
    spell d (.column q n t) = spelled q ++ (spelled "." ++ spelled (d.quote n)) := by
  have htokens : tokens d (.column q n t) = word (q ++ "." ++ d.quote n) := rfl
  rw [spell, htokens, symbols_word, spelled_append, spelled_append, List.append_assoc]

theorem spell_param (n : String) : spell d (.param n t) = [.named n] := rfl

theorem spellOperand_binary (op : BinaryOperator) :
    spellOperand d (.binary op l r t) =
      spelled "(" ++ (spell d (.binary op l r t) ++ spelled ")") := by
  have hoperand : operand (.binary op l r t) (tokens d (.binary op l r t)) =
      word "(" ++ tokens d (.binary op l r t) ++ word ")" := rfl
  rw [spellOperand, hoperand, symbols_append, symbols_append, List.append_assoc]
  rfl

/-- Only a binary expression is put in parentheses. -/
theorem spellOperand_cases (d : Dialect) (e : Expr) :
    (∃ op l r t, e = .binary op l r t) ∨ spellOperand d e = spell d e := by
  cases e with
  | binary op l r t => exact .inl ⟨op, l, r, t, rfl⟩
  | _ => exact .inr rfl

/-- A binary operation is its operands with the operator between them. -/
theorem spell_binary (op : BinaryOperator) (hl : l.HasPlainNames) (hr : r.HasPlainNames) :
    spell d (.binary op l r t) = spellOperand d l ++ (between op ++ spellOperand d r) := by
  have htokens : tokens d (.binary op l r t) =
      operand l (tokens d l) ++ word (" " ++ operatorText op ++ " ") ++ operand r (tokens d r) := by
    rw [tokens, scalar, scalar_eq_ok_tokens d hl, scalar_eq_ok_tokens d hr]
    rfl
  rw [spell, htokens, symbols_append, symbols_append, symbols_word, List.append_assoc]
  rfl

/-- A unary operation has its sign on one side of the operand, without parentheses of its own. -/
theorem spellOperand_unary (op : UnaryOperator) (he : e.HasPlainNames) :
    spellOperand d (.unary op e t) =
      if op.isPostfix then spellOperand d e ++ sign op else sign op ++ spellOperand d e := by
  have htokens : tokens d (.unary op e t) = unaryText op (operand e (tokens d e)) := by
    rw [tokens, scalar, scalar_eq_ok_tokens d he]
    rfl
  have hoperand : spellOperand d (.unary op e t) = symbols (tokens d (.unary op e t)) := rfl
  rw [hoperand, htokens]
  cases op <;> exact symbols_append _ _

/-- A call is its name and its arguments in parentheses. -/
theorem spell_call {args : List Expr} (f : String) (h : ∀ a ∈ args, a.HasPlainNames) :
    spell d (.call f args t) =
      spelled f ++ (spelled "(" ++ (listed (args.map (spell d)) ++ spelled ")")) := by
  have hargs : args.mapM (scalar d none) = .ok (args.map (tokens d)) :=
    mapM_eq_ok_map fun a ha => scalar_eq_ok_tokens d (h a ha)
  have htokens : tokens d (.call f args t) =
      word (f ++ "(") ++ separated ", " (args.map (tokens d)) ++ word ")" := by
    rw [tokens, scalar, scalars_eq, hargs]
    rfl
  have hparts : (args.map (tokens d)).map symbols = args.map (spell d) := by
    rw [List.map_map]
    rfl
  rw [spell, htokens, symbols_append, symbols_append, symbols_separated, hparts, symbols_word,
    symbols_word, spelled_append, List.append_assoc, List.append_assoc]

end Equations

/-! ### Quoted names -/

/-- There is nothing to double where the delimiter does not occur. -/
theorem doubled_eq_self {close : Char} {s : List Char} (h : close ∉ s) :
    QuoteStyle.doubled close s = s := by
  unfold QuoteStyle.doubled
  induction s with
  | nil => rfl
  | cons c s ih =>
    rw [List.mem_cons, not_or] at h
    rw [List.flatMap_cons, if_neg (Ne.symm h.1), ih h.2]
    rfl

/-- A name without the delimiter is quoted as it is. -/
theorem quote_of_delimiters {style : QuoteStyle} {opening close : Char}
    (h : style.delimiters? = some (opening, close)) {n : String} (hclose : close ∉ n.toList) :
    style.quote n = String.ofList [opening] ++ n ++ String.ofList [close] := by
  unfold QuoteStyle.quote
  rw [h]
  apply String.toList_injective
  simp [doubled_eq_self hclose]

/-- A plain name is quoted by characters that are no part of it. -/
theorem quote_eq (style : QuoteStyle) :
    ∃ opening close : String, opening.toList.any isMark = false ∧ close.toList.any isMark = false ∧
      close.toList.any isNameChar = false ∧
        ∀ n, isName n = true → style.quote n = opening ++ n ++ close := by
  have hclose : ∀ {c : Char} {n : String}, isNameChar c = false → isName n = true →
      c ∉ n.toList := by
    intro c n hc hn hmem
    cases (isNameChar_of_mem hn hmem).symm.trans hc
  cases style with
  | none =>
    refine ⟨"", "", rfl, rfl, rfl, fun n _ => ?_⟩
    simp [QuoteStyle.quote, QuoteStyle.delimiters?]
  | double | backtick | bracket =>
    exact ⟨_, _, rfl, rfl, rfl, fun n hn => quote_of_delimiters rfl (hclose rfl hn)⟩

/-! ### Parameters of a spelling -/

/-- The uses of a list are those of its parts. -/
theorem uses_listed (parts : List (List Symbol)) : uses (listed parts) = parts.flatMap uses := by
  induction parts with
  | nil => rfl
  | cons part parts ih =>
    cases parts with
    | nil => simp [listed]
    | cons next rest =>
      rw [listed_cons_cons, uses_append, uses_append, uses_spelled, ih]
      rfl

theorem uses_sign (op : UnaryOperator) : uses (sign op) = [] := by
  cases op <;> exact uses_spelled _

/-- Parentheses use no parameter. -/
theorem uses_spellOperand (d : Dialect) (e : Expr) :
    uses (spellOperand d e) = uses (spell d e) := by
  rcases spellOperand_cases d e with ⟨op, l, r, t, rfl⟩ | h
  · rw [spellOperand_binary]
    simp
  · rw [h]

/-- A unary operation looks the same as an operand. -/
theorem spellOperand_eq_of_unary (op : UnaryOperator) (e : Expr) (t : LogicalType) :
    spell d (.unary op e t) = spellOperand d (.unary op e t) := rfl

/-- The parameters of a spelling are those of the tree. -/
theorem uses_spell {e : Expr} (h : e.HasPlainNames) : uses (spell d e) = e.paramNames := by
  induction h with
  | column t _ _ => rw [spell_column]; simp [paramNames_eq, paramName?, children]
  | param t _ => rw [spell_param]; simp [paramNames_eq, paramName?, children, uses, Symbol.name?]
  | binary op t hl hr ihl ihr =>
    rw [spell_binary op hl hr, paramNames_eq]
    simp [uses_spellOperand, between, ihl, ihr, paramName?, children]
  | unary op t he ih =>
    rw [spellOperand_eq_of_unary, spellOperand_unary op he, paramNames_eq]
    split <;> simp [uses_spellOperand, uses_sign, ih, paramName?, children]
  | @call f args t _ hargs ih =>
    have hlisted : (args.map (spell d)).flatMap uses = args.flatMap paramNames := by
      rw [List.flatMap_map]
      exact List.flatMap_congr ih
    rw [spell_call f hargs, paramNames_eq]
    simp [uses_listed, hlisted, paramName?, children]

/-! ### Separation -/

section Separated

variable {d : Dialect} {rest : List Symbol}

theorem separated_name {n : String} (hn : isName n = true) (h : Separated rest) :
    Separated (spelled n ++ rest) :=
  h.append_spelled (any_isMark_of_isName hn)

/-- Something is spelled with its placeholders apart from what follows. -/
def StandsApart (s : List Symbol) : Prop :=
  ∀ rest, Separated rest → Boundary rest → Separated (s ++ rest)

/-- Parentheses keep the placeholders apart from what follows. -/
theorem standsApart_spellOperand {e : Expr} (h : StandsApart (spell d e)) :
    StandsApart (spellOperand d e) := by
  rcases spellOperand_cases d e with ⟨op, l, r, t, rfl⟩ | heq
  · intro rest hrest _
    have hclosed : Separated (spelled ")" ++ rest) := hrest.append_spelled rfl
    rw [spellOperand_binary, List.append_assoc, List.append_assoc]
    exact (h _ hclosed (boundary_cons rfl _)).append_spelled rfl
  · rwa [heq]

/-- Commas keep the parts of a list apart. -/
theorem standsApart_listed {parts : List (List Symbol)} (h : ∀ part ∈ parts, StandsApart part) :
    StandsApart (listed parts) := by
  induction parts with
  | nil => exact fun rest hrest _ => hrest
  | cons part parts ih =>
    rw [List.forall_mem_cons] at h
    cases parts with
    | nil => exact h.1
    | cons next more =>
      intro rest hrest hboundary
      have hcomma : Separated (spelled ", " ++ (listed (next :: more) ++ rest)) :=
        (ih h.2 rest hrest hboundary).append_spelled rfl
      rw [listed_cons_cons, List.append_assoc, List.append_assoc]
      exact h.1 _ hcomma (boundary_cons rfl _)

/-- A binary operator keeps its operands apart. -/
theorem separated_between (op : BinaryOperator) (h : Separated rest) :
    Separated (between op ++ rest) ∧ Boundary (between op ++ rest) := by
  have hbetween : (" " ++ operatorText op ++ " ").toList.any isMark = false := by
    cases op <;> rfl
  refine ⟨h.append_spelled hbetween, ?_⟩
  rw [between, spelled_append, spelled_append, List.append_assoc, List.append_assoc]
  exact boundary_cons rfl _

/-- So does a sign. -/
theorem separated_sign {op : UnaryOperator} (h : Separated rest) : Separated (sign op ++ rest) := by
  cases op <;> exact h.append_spelled rfl

/-- A postfix operator begins with a space. -/
theorem boundary_sign {op : UnaryOperator} (h : op.isPostfix = true) :
    Boundary (sign op ++ rest) := by
  cases op with
  | isNull | isNotNull => exact boundary_cons rfl _
  | not | negate => cases h

/-- The placeholders of a scalar stand apart from the rest of its text. -/
theorem standsApart_spell {e : Expr} (h : e.HasPlainNames) : StandsApart (spell d e) := by
  induction h with
  | @column q n t hq hn =>
    intro rest hrest _
    obtain ⟨opening, close, hopening, hclose, _, hquote⟩ := quote_eq d.quoteStyle
    rw [spell_column, Dialect.quote, hquote n hn, spelled_append, spelled_append]
    simp only [List.append_assoc]
    have hname := separated_name hn (hrest.append_spelled hclose)
    exact separated_name hq (.append_spelled rfl (hname.append_spelled hopening))
  | param t hn =>
    intro rest hrest hboundary
    exact ⟨hn, hboundary, hrest⟩
  | binary op t hl hr ihl ihr =>
    intro rest hrest hboundary
    rw [spell_binary op hl hr, List.append_assoc, List.append_assoc]
    obtain ⟨hbetween, hspace⟩ :=
      separated_between op (standsApart_spellOperand ihr rest hrest hboundary)
    exact standsApart_spellOperand ihl _ hbetween hspace
  | unary op t he ih =>
    intro rest hrest hboundary
    rw [spellOperand_eq_of_unary, spellOperand_unary op he]
    split
    next hop =>
      rw [List.append_assoc]
      exact standsApart_spellOperand ih _ (separated_sign hrest) (boundary_sign hop)
    next =>
      rw [List.append_assoc]
      exact separated_sign (standsApart_spellOperand ih rest hrest hboundary)
  | @call f args t hf hargs ih =>
    intro rest hrest _
    have hclosed : Separated (spelled ")" ++ rest) := hrest.append_spelled rfl
    have hlisted := standsApart_listed (List.forall_mem_map.2 ih) _ hclosed (boundary_cons rfl _)
    rw [spell_call f hargs]
    simp only [List.append_assoc]
    exact separated_name hf (hlisted.append_spelled rfl)

end Separated

end Sql

end QueryTree
