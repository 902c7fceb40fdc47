import QueryTree.Proofs.Assembly
import QueryTree.Proofs.NumberText
import QueryTree.Proofs.SlotNumbers
import QueryTree.Proofs.SortKeys

/-!
# Ordinals

A bare integer in an ORDER BY or GROUP BY clause is read as the position of a column, whereas a key
that is a constant leaves the rows as they are. The renderer writes a key as it writes any scalar,
so an integer constant among the keys comes out as a position.

Which keys come out as integers can be told from the keys themselves (`SortKey.isOrdinal`): integer
constants, negations of such, and columns named without their alias whose name is a number. Every
other scalar has a character in its text that is neither a digit nor a minus sign
(`marked_of_scalar`), a double in particular, since it has a point or an exponent.

The keys are those of the tree that is rendered. Where that tree comes out of a pipeline, lowering
has folded the constant expressions in its keys, so `1 + 1` becomes a position too.
-/

namespace QueryTree

/-! ### Integer literals -/

/-- There are characters, and all of them are digits. -/
def isDigits (cs : List Char) : Bool := !cs.isEmpty && cs.all Char.isDigit

/-- The text is an integer literal: digits, and a minus sign before them or not. -/
def isInteger (cs : List Char) : Bool := isDigits cs || cs.head? == some '-' && isDigits cs.tail

/-- A character of an integer literal. -/
def isNumeral (c : Char) : Bool := c.isDigit || c == '-'

section Integer

variable {c : Char} {cs : List Char}

/-- One character that is no digit is enough. -/
theorem isDigits_eq_false (hc : c ∈ cs) (h : c.isDigit = false) : isDigits cs = false := by
  rw [isDigits, Bool.and_eq_false_iff]
  refine .inr (List.all_eq_false.2 ⟨c, hc, ?_⟩)
  rw [h]
  exact Bool.false_ne_true

theorem isDigits_of_all (hne : cs ≠ []) (h : ∀ c ∈ cs, c.isDigit = true) : isDigits cs = true := by
  rw [isDigits, Bool.and_eq_true, List.all_eq_true]
  exact ⟨by simpa using hne, h⟩

theorem isInteger_minus (cs : List Char) : isInteger ('-' :: cs) = isDigits cs := by
  have hminus : isDigits ('-' :: cs) = false := isDigits_eq_false List.mem_cons_self rfl
  rw [isInteger, hminus]
  rfl

/-- A character that is neither a digit nor a minus sign makes a text no integer. -/
theorem isInteger_eq_false (hc : c ∈ cs) (h : isNumeral c = false) : isInteger cs = false := by
  rw [isNumeral, Bool.or_eq_false_iff] at h
  obtain ⟨hdigit, hminus⟩ := h
  rw [isInteger, isDigits_eq_false hc hdigit, Bool.false_or, Bool.and_eq_false_iff]
  cases cs with
  | nil => cases hc
  | cons first rest =>
    rcases List.mem_cons.1 hc with rfl | hrest
    · refine .inl (beq_eq_false_iff_ne.2 fun heq => ?_)
      exact beq_eq_false_iff_ne.1 hminus (Option.some.inj heq)
    · exact .inr (isDigits_eq_false hrest hdigit)

/-- The decimal notation of an integer is an integer literal. -/
theorem isInteger_toString (n : Int) : isInteger (toString n).toList = true := by
  obtain ⟨digits, hne, hdigits, htext⟩ := toString_int_cases n
  have hall := isDigits_of_all hne hdigits
  rw [htext]
  split
  · rw [isInteger_minus, hall]
  · rw [isInteger, hall, Bool.true_or]

/-- It is digits alone exactly if it has no sign. -/
theorem isDigits_toString (n : Int) : isDigits (toString n).toList = decide (0 ≤ n) := by
  obtain ⟨digits, hne, hdigits, htext⟩ := toString_int_cases n
  rw [htext]
  split
  next hneg =>
    rw [isDigits_eq_false List.mem_cons_self rfl, decide_eq_false (by omega)]
  next hnonneg =>
    rw [isDigits_of_all hne hdigits, decide_eq_true (by omega)]

end Integer

/-! ### Doubles -/

namespace FloatStyle

/-- The text has a point or the letter of an exponent. -/
def HasPoint (s : String) : Prop := ∃ c ∈ s.toList, isNumeral c = false

/-- A text that goes on still has its point. -/
theorem HasPoint.append_right {s : String} (h : HasPoint s) (t : String) : HasPoint (s ++ t) := by
  obtain ⟨c, hc, hmark⟩ := h
  exact ⟨c, by rw [String.toList_append]; exact List.mem_append_left _ hc, hmark⟩

/-- So does one with something before it. -/
theorem HasPoint.append_left {s : String} (h : HasPoint s) (t : String) : HasPoint (t ++ s) := by
  obtain ⟨c, hc, hmark⟩ := h
  exact ⟨c, by rw [String.toList_append]; exact List.mem_append_right _ hc, hmark⟩

/-- Every decimal is laid out with a point or an exponent, so that no double reads as an integer. -/
theorem hasPoint_layout (d : Decimal) : HasPoint (statement.layout d) := by
  have hzero : HasPoint "0." := ⟨'.', by decide, rfl⟩
  have hpoint : HasPoint "." := ⟨'.', by decide, rfl⟩
  have hsuffix : HasPoint statement.wholeSuffix := ⟨'.', by decide, rfl⟩
  have hletter : HasPoint "e" := ⟨'e', by decide, rfl⟩
  unfold layout
  split
  · split
    · exact (hzero.append_right _).append_right _
    · dsimp only
      split
      · exact hsuffix.append_left _
      · exact (hpoint.append_left _).append_right _
  · exact ((hletter.append_left _).append_right _).append_right _

/-- A finite double is not written like an integer. -/
theorem hasPoint_statement {x : Float} (hx : x.isFinite = true) : HasPoint (statement.text x) := by
  rw [text_of_isFinite statement hx]
  refine HasPoint.append_left ?_ _
  unfold unsigned
  split
  · exact ⟨'.', by decide, rfl⟩
  · exact hasPoint_layout _

end FloatStyle

/-! ### Scalars that are no integers -/

/-- The scalar may come out without any character but digits and minus signs. -/
def Expr.mayBeNumeral (bare : Option String) : Expr → Bool
  | .const (.int _) _ => true
  | .column q _ _ => bare == some q
  | .unary .negate _ _ => true
  | _ => false

namespace Sql

open Attempt

variable {d : Dialect} {bare : Option String}

theorem chars_word (d : Dialect) (ps : List CommandParameter) (w : String) :
    chars d ps (word w) = w.toList := List.append_nil _

/-- A character of a piece of text is one of the statement. -/
theorem mem_chars_of_text {s : String} {c : Char} {ts : Sql} (hs : Token.text s ∈ ts)
    (hc : c ∈ s.toList) (ps : List CommandParameter) : c ∈ chars d ps ts := by
  induction ts generalizing ps with
  | nil => cases hs
  | cons token ts ih =>
    rcases List.mem_cons.1 hs with rfl | hrest
    · exact List.mem_append_left _ hc
    · cases token with
      | text s => exact List.mem_append_right _ (ih hrest ps)
      | slot slot => exact List.mem_append_right _ (ih hrest _)

/-- Whatever parameters come before, the text has a character that no integer has. -/
def Marked (d : Dialect) (ts : Sql) : Prop :=
  ∀ ps, ∃ c ∈ chars d ps ts, isNumeral c = false

/-- One piece of text with a character that no integer has is enough. -/
theorem marked_of_text {s : String} {ts : Sql} (hs : Token.text s ∈ ts) (c : Char)
    (hc : c ∈ s.toList) (hmark : isNumeral c = false) : Marked d ts :=
  fun ps => ⟨c, mem_chars_of_text hs hc ps, hmark⟩

/-- A placeholder is no number, in any style. -/
theorem marked_slot (s : Slot) : Marked d [.slot s] := by
  intro ps
  have hstyle (style : PlaceholderStyle) (n : Nat) (name : String) :
      ∃ c ∈ (style.text n name).toList, isNumeral c = false := by
    cases style with
    | dollar =>
      refine ⟨'$', ?_, rfl⟩
      rw [PlaceholderStyle.text, String.toList_append]
      exact List.mem_cons_self
    | question => exact ⟨'?', (by rw [PlaceholderStyle.text]; decide), rfl⟩
    | named =>
      refine ⟨'@', ?_, rfl⟩
      rw [PlaceholderStyle.text, String.toList_append]
      exact List.mem_cons_self
  obtain ⟨c, hc, hmark⟩ :=
    hstyle d.placeholderStyle (Command.enter ps s).2 (Command.slotName ps s)
  exact ⟨c, List.mem_append_left _ hc, hmark⟩

/-- A literal that is not an integer has a character that no integer has. -/
theorem marked_literal {v : Value} {t : LogicalType} {ts : Sql} (h : literal v t = .ok ts)
    (hv : (Expr.const v t).mayBeNumeral bare = false) : Marked d ts := by
  rcases literal_cases h with ⟨w, hinline, rfl, _⟩ | ⟨rfl, _⟩
  · cases hinline with
    | null => exact marked_of_text List.mem_cons_self 'N' (by decide) rfl
    | bool b =>
      cases b with
      | true => exact marked_of_text List.mem_cons_self 'T' (by decide) rfl
      | false => exact marked_of_text List.mem_cons_self 'F' (by decide) rfl
    | int n => cases hv
    | float hx =>
      obtain ⟨c, hc, hmark⟩ := FloatStyle.hasPoint_statement hx
      exact marked_of_text List.mem_cons_self c hc hmark
  · exact marked_slot _

/-- All scalars but integers, negations and columns without an alias have a character that no
integer has. A column has the point behind its alias, an operator has a blank or a letter, and a
call has its parenthesis. -/
theorem marked_of_scalar {e : Expr} {ts : Sql} (h : scalar d bare e = .ok ts)
    (he : e.mayBeNumeral bare = false) : Marked d ts := by
  cases e with
  | const v t => exact marked_literal h he
  | param name t =>
    obtain rfl := Except.ok.inj h
    exact marked_slot _
  | column q name t =>
    obtain rfl := Except.ok.inj h
    have hbare : ¬bare = some q := by simpa [Expr.mayBeNumeral] using he
    refine marked_of_text List.mem_cons_self '.' ?_ rfl
    rw [columnText, if_neg hbare, String.toList_append, String.toList_append]
    exact List.mem_append_left _ (List.mem_append_right _ List.mem_cons_self)
  | binary op l r t =>
    obtain ⟨left, _, h⟩ := bind_eq_ok_iff.1 h
    obtain ⟨right, _, h⟩ := bind_eq_ok_iff.1 h
    obtain rfl := pure_eq_ok_iff.1 h
    refine marked_of_text (s := " " ++ operatorText op ++ " ") ?_ ' ' ?_ rfl
    · exact List.mem_append_left _ (List.mem_append_right _ List.mem_cons_self)
    · rw [String.toList_append]
      exact List.mem_append_right _ List.mem_cons_self
  | unary op e t =>
    obtain ⟨inner, _, h⟩ := bind_eq_ok_iff.1 h
    obtain rfl := pure_eq_ok_iff.1 h
    cases op with
    | not => exact marked_of_text (s := "NOT ") List.mem_cons_self 'N' (by decide) rfl
    | negate => cases he
    | isNull =>
      refine marked_of_text (s := " IS NULL") ?_ 'N' (by decide) rfl
      exact List.mem_append_right _ List.mem_cons_self
    | isNotNull =>
      refine marked_of_text (s := " IS NOT NULL") ?_ 'N' (by decide) rfl
      exact List.mem_append_right _ List.mem_cons_self
  | call name args t =>
    obtain ⟨parts, _, h⟩ := bind_eq_ok_iff.1 h
    obtain rfl := pure_eq_ok_iff.1 h
    refine marked_of_text (s := ")") ?_ ')' (by decide) rfl
    exact List.mem_append_right _ List.mem_cons_self
  | aggregate f arg distinct t =>
    simp only [scalar] at h
    split at h
    · cases h
    obtain ⟨inner, _, h⟩ := bind_eq_ok_iff.1 h
    obtain rfl := pure_eq_ok_iff.1 h
    refine marked_of_text (s := ")") ?_ ')' (by decide) rfl
    exact List.mem_append_right _ List.mem_cons_self
  | _ => cases h

/-! ### Scalars that are integers -/

/-- The scalar comes out as digits: an integer that is not negative, or a column without an alias
whose name is digits. -/
def isDigitsScalar (d : Dialect) (bare : Option String) : Expr → Bool
  | .const (.int n) _ => decide (0 ≤ n.toInt)
  | .column q name _ => bare == some q && isDigits (d.quote name).toList
  | _ => false

/-- The scalar comes out as an integer literal. -/
def isIntegerScalar (d : Dialect) (bare : Option String) : Expr → Bool
  | .const (.int _) _ => true
  | .column q name _ => bare == some q && isInteger (d.quote name).toList
  | .unary .negate e _ => isDigitsScalar d bare e
  | _ => false

/-- What cannot be a numeral does not come out as digits. -/
theorem isDigitsScalar_eq_false {e : Expr} (he : e.mayBeNumeral bare = false) :
    isDigitsScalar d bare e = false := by
  cases e with
  | const v t => cases v <;> first | rfl | cases he
  | column q name t =>
    have hbare : (bare == some q) = false := he
    rw [isDigitsScalar, hbare, Bool.false_and]
  | _ => rfl

/-- Nor does it come out as an integer. -/
theorem isIntegerScalar_eq_false {e : Expr} (he : e.mayBeNumeral bare = false) :
    isIntegerScalar d bare e = false := by
  cases e with
  | const v t => cases v <;> first | rfl | cases he
  | column q name t =>
    have hbare : (bare == some q) = false := he
    rw [isIntegerScalar, hbare, Bool.false_and]
  | unary op e t => cases op <;> first | rfl | cases he
  | _ => rfl

/-- What the text of a scalar can be: an integer, the name of a column, a minus sign before an
operand, or a text with a character that no integer has. -/
inductive Spelled (d : Dialect) (bare : Option String) (ps : List CommandParameter) :
    Expr → List Char → Prop
  | int (n : Int64) (t : LogicalType) :
    Spelled d bare ps (.const (.int n) t) (toString n.toInt).toList
  | column {q : String} (name : String) (t : LogicalType) (hbare : bare = some q) :
    Spelled d bare ps (.column q name t) (d.quote name).toList
  | negate {e : Expr} {ts : Sql} (t : LogicalType) (h : scalar d bare e = .ok ts) :
    Spelled d bare ps (.unary .negate e t) ('-' :: chars d ps (operand e ts))
  | marked {e : Expr} {cs : List Char} {c : Char} (he : e.mayBeNumeral bare = false)
    (hc : c ∈ cs) (hmark : isNumeral c = false) : Spelled d bare ps e cs

/-- The text of every scalar that is formatted is one of the four. -/
theorem spelled_of_scalar {e : Expr} {ts : Sql} (h : scalar d bare e = .ok ts)
    (ps : List CommandParameter) : Spelled d bare ps e (chars d ps ts) := by
  cases he : e.mayBeNumeral bare with
  | false =>
    obtain ⟨c, hc, hmark⟩ := marked_of_scalar h he ps
    exact .marked he hc hmark
  | true =>
    cases e with
    | const v t =>
      cases v with
      | int n =>
        obtain rfl := Except.ok.inj h
        rw [chars_word]
        exact .int n t
      | _ => cases he
    | column q name t =>
      obtain rfl := Except.ok.inj h
      have hbare : bare = some q := by simpa [Expr.mayBeNumeral] using he
      rw [chars_word, columnText, if_pos hbare]
      exact .column name t hbare
    | unary op e t =>
      cases op with
      | negate =>
        obtain ⟨inner, hinner, h⟩ := bind_eq_ok_iff.1 h
        obtain rfl := pure_eq_ok_iff.1 h
        exact .negate t hinner
      | _ => cases he
    | _ => cases he

/-- Whether the text of a scalar is digits can be seen from the tree. -/
theorem isDigits_chars {e : Expr} {ts : Sql} (h : scalar d bare e = .ok ts)
    (ps : List CommandParameter) : isDigits (chars d ps ts) = isDigitsScalar d bare e := by
  have hspelled := spelled_of_scalar h ps
  generalize chars d ps ts = cs at hspelled ⊢
  cases hspelled with
  | int n t => exact isDigits_toString _
  | column name t hbare => simp [isDigitsScalar, hbare]
  | negate t _ => exact isDigits_eq_false List.mem_cons_self rfl
  | marked he hc hmark =>
    rw [isDigitsScalar_eq_false he]
    exact isDigits_eq_false hc (Bool.or_eq_false_iff.1 hmark).1

/-- A binary operand stands in parentheses, and is no number. -/
theorem isDigits_operand {e : Expr} {ts : Sql} (h : scalar d bare e = .ok ts)
    (ps : List CommandParameter) :
    isDigits (chars d ps (operand e ts)) = isDigitsScalar d bare e := by
  cases e with
  | binary op l r t =>
    exact isDigits_eq_false (c := '(') (mem_chars_of_text List.mem_cons_self (by decide) ps) rfl
  | _ => exact isDigits_chars h ps

/-- A scalar is written as an integer literal just in case it is one of these. -/
theorem isInteger_chars {e : Expr} {ts : Sql} (h : scalar d bare e = .ok ts)
    (ps : List CommandParameter) : isInteger (chars d ps ts) = isIntegerScalar d bare e := by
  have hspelled := spelled_of_scalar h ps
  generalize chars d ps ts = cs at hspelled ⊢
  cases hspelled with
  | int n t => exact isInteger_toString _
  | column name t hbare => simp [isIntegerScalar, hbare]
  | negate t hinner =>
    rw [isInteger_minus, isDigits_operand hinner]
    rfl
  | marked he hc hmark => rw [isIntegerScalar_eq_false he, isInteger_eq_false hc hmark]

end Sql

/-- The key comes out as an integer literal, which is read as the position of a column. -/
def SortKey.isOrdinal (d : Dialect) (k : SortKey) : Bool := Sql.isIntegerScalar d k.bare k.expr

/-! ### Commands -/

namespace Sql

open Attempt

variable {d : Dialect}

/-- The statements of trees are those of their outlines. -/
theorem outlines_of_statements {es : List Expr} {statements : List Sql}
    (h : es.mapM (statement d) = .ok statements) :
    ∃ outlines, es.mapM (statementOutline d) = .ok outlines ∧
      statements = outlines.map Outline.sql := by
  have hmap (es : List Expr) : es.mapM (statement d) =
      List.map Outline.sql <$> es.mapM (statementOutline d) := by
    induction es with
    | nil => rfl
    | cons e es ih =>
      rw [List.mapM_cons, List.mapM_cons, ih, statement_eq_outline]
      simp only [map_bind, bind_map_left, map_pure, List.map_cons]
  rw [hmap] at h
  cases houtlines : es.mapM (statementOutline d) with
  | error =>
    rw [houtlines] at h
    cases h
  | ok outlines =>
    rw [houtlines] at h
    exact ⟨outlines, rfl, (Except.ok.inj h).symm⟩

/-- The items of statements are those of their keys, in the same order. -/
theorem items_of_outlines {es : List Expr} {outlines : List Outline}
    (h : es.mapM (statementOutline d) = .ok outlines) :
    List.Forall₂ (SortKey.Renders d) (es.flatMap Expr.sortKeys)
      (outlines.flatMap Outline.items) := by
  have hall := mapM_eq_ok_iff.1 h
  clear h
  induction hall with
  | nil => exact .nil
  | cons he _ ih =>
    rw [List.flatMap_cons, List.flatMap_cons]
    exact List.rel_append (items_of_statementOutline he) ih

end Sql

namespace Command

open Attempt

variable {d : Dialect} {es : List Expr} {c : Command}

/-- Whether the item is an integer literal has this answer, whatever parameters come before it. -/
def IsInteger (d : Dialect) (item : Sql) (answer : Bool) : Prop :=
  ∀ ps, isInteger (Sql.chars d ps item) = answer

/-- The keys of prepared trees come from the original ones. -/
theorem sortKeys_of_prepared (p : Pipeline) (hextra : p.extra = []) {originals : List Expr}
    (h : originals.mapM p.prepare = .ok es) {k : SortKey} (hk : k ∈ es.flatMap Expr.sortKeys) :
    (∃ e ∈ originals, ∃ x ∈ e.keySources, k.expr = x.lower) ∨
      ∃ q name t, k.expr = .column q name t := by
  obtain ⟨prepared, hprepared, hk⟩ := List.mem_flatMap.1 hk
  obtain ⟨e, he, hprepare⟩ := exists_of_mem_result_of_mapM_eq_ok h hprepared
  have hexpr := Expr.mem_keyExprs_of_mem_sortKeys hk
  rcases p.keyExprs_of_prepare hextra hprepare k.expr hexpr with ⟨x, hx, hlower⟩ | hreference
  · exact .inl ⟨e, he, x, hx, hlower⟩
  · exact .inr hreference

/-- What stands in the GROUP BY and ORDER BY clauses of a command is the keys of its trees, and an
item is an integer just in case its key is an ordinal. Where the trees have been prepared by a
pipeline without passes of plug-ins, their keys are keys and DISTINCT columns of the original trees
after lowering, and references to columns. -/
theorem isInteger_items_iff (h : Formats d es c) :
    (∃ outlines, es.mapM (Sql.statementOutline d) = .ok outlines ∧
      c = ofTokens d (Sql.separated ";\n" (outlines.map Outline.sql)) ∧
      List.Forall₂ (fun k item => IsInteger d item (k.isOrdinal d)) (es.flatMap Expr.sortKeys)
        (outlines.flatMap Outline.items) ∧
      ((∀ item ∈ outlines.flatMap Outline.items, IsInteger d item false) ↔
        ∀ k ∈ es.flatMap Expr.sortKeys, k.isOrdinal d = false)) ∧
    ∀ p : Pipeline, p.extra = [] → ∀ originals : List Expr, originals.mapM p.prepare = .ok es →
      ∀ k ∈ es.flatMap Expr.sortKeys,
        (∃ e ∈ originals, ∃ x ∈ e.keySources, k.expr = x.lower) ∨
          ∃ q name t, k.expr = .column q name t := by
  obtain ⟨_, statements, hstatements, rfl⟩ := ofBatch_eq_ok_iff.1 (formats_iff.1 h)
  obtain ⟨outlines, houtlines, rfl⟩ := Sql.outlines_of_statements hstatements
  have hitems : List.Forall₂ (fun k item => IsInteger d item (k.isOrdinal d))
      (es.flatMap Expr.sortKeys) (outlines.flatMap Outline.items) :=
    (Sql.items_of_outlines houtlines).imp fun k item hitem => Sql.isInteger_chars hitem
  refine ⟨⟨outlines, houtlines, rfl, hitems, ?_, ?_⟩, ?_⟩
  · intro hfalse k hk
    obtain ⟨item, hmem, hitem⟩ := exists_rel_of_mem_left hitems hk
    exact (hitem []).symm.trans (hfalse item hmem [])
  · intro hfalse item hitem
    obtain ⟨k, hmem, hk⟩ := exists_rel_of_mem_right hitems hitem
    rwa [hfalse k hmem] at hk
  · intro p hextra originals horiginals k hk
    exact sortKeys_of_prepared p hextra horiginals hk

/-! ### Scores by position -/

/-- All scores. -/
def scores : Expr := Expr.mkScan (Expr.source ⟨"score", none⟩) "s"

/-- Scores in descending order of a key. -/
def ranking (key : Expr) : Expr := .order scores [⟨key, .descending⟩]

/-- The players, one for each group of scores. -/
def players (key : Expr) : Expr :=
  .project "g" scores [⟨"player", .column "s" "player" .string⟩] false [key]

/-- The integer one. -/
def one : Expr := .const (.int 1) .int64

theorem sortKeys_ranking (key : Expr) : (ranking key).sortKeys = [⟨none, key⟩] := by
  have hsource : (Block.split (ranking key)).source = scores := rfl
  rw [Expr.sortKeys_eq, hsource, scores, Expr.mkScan, Expr.sortKeys_scan]
  rfl

/-- The points with one more. -/
def nextPoints : Expr := Expr.mkBinary .plus (.column "s" "points" .int64) one

/-- A key that is computed from a column is no position. It is a key of the tree before the pipeline
as well. -/
theorem isInteger_items_iff_ranking :
    (Pipeline.mk .postgres []).command (ranking nextPoints) =
        .ok ⟨"SELECT * FROM score AS s ORDER BY s.points + 1 DESC", []⟩ ∧
      ∃ prepared, (Pipeline.mk .postgres []).prepare (ranking nextPoints) = .ok prepared ∧
        (∃ outlines, [prepared].mapM (Sql.statementOutline .postgres) = .ok outlines ∧
          ∀ item ∈ outlines.flatMap Outline.items, IsInteger .postgres item false) ∧
        ∀ k ∈ prepared.sortKeys,
          (∃ e ∈ [ranking nextPoints], ∃ x ∈ e.keySources, k.expr = x.lower) ∨
            ∃ q name t, k.expr = .column q name t := by
  have hprepare : (Pipeline.mk .postgres []).prepare (ranking nextPoints) =
      .ok (ranking nextPoints) := rfl
  have hstatement : ofStatement .postgres (ranking nextPoints) =
      .ok ⟨"SELECT * FROM score AS s ORDER BY s.points + 1 DESC", []⟩ :=
    (ofStatement_over_table rfl rfl rfl).trans rfl
  obtain ⟨⟨outlines, houtlines, _, _, hiff⟩, hkeys⟩ :=
    isInteger_items_iff (.inl ⟨_, rfl, hstatement⟩)
  rw [List.flatMap_singleton] at hiff hkeys
  refine ⟨bind_eq_ok_iff.2 ⟨_, hprepare, hstatement⟩, _, hprepare, ⟨outlines, houtlines, ?_⟩, ?_⟩
  · apply hiff.2
    rw [sortKeys_ranking]
    exact List.forall_mem_singleton.2 rfl
  · exact hkeys ⟨.postgres, []⟩ rfl [ranking nextPoints] rfl

/-- Two scores, not in the order of the players. -/
def scoreTable : Tables :=
  [("score", ⟨["player", "points"], [[.text "bob", .int 3], [.text "ann", .int 5]]⟩)]

/-- A key that is an integer is written as a position, and so is one that is folded to an integer on
the way; as a key it leaves the rows as they are. -/
theorem isInteger_item_one :
    (∃ c o, ofStatement .postgres (ranking one) = .ok c ∧
      c.sql = "SELECT * FROM score AS s ORDER BY 1 DESC" ∧
      Sql.statementOutline .postgres (ranking one) = .ok o ∧ o.items = [Sql.word "1"] ∧
      IsInteger .postgres (Sql.word "1") true) ∧
    (∃ c, ofStatement .postgres (players one) = .ok c ∧
      c.sql = "SELECT s.player FROM score AS s GROUP BY 1") ∧
    (∃ c, (Pipeline.mk .postgres []).command (ranking (Expr.mkBinary .plus one one)) = .ok c ∧
      c.sql = "SELECT * FROM score AS s ORDER BY 2 DESC") ∧
    Expr.run scoreTable (ranking (Expr.mkBinary .plus one one)) = Expr.run scoreTable scores := by
  have houtline := Sql.outline_over_table (d := .postgres) (e := ranking one) rfl rfl
  refine ⟨⟨⟨"SELECT * FROM score AS s ORDER BY 1 DESC", []⟩, _, ?_, rfl, houtline, rfl, ?_⟩,
    ⟨⟨"SELECT s.player FROM score AS s GROUP BY 1", []⟩, ?_, rfl⟩,
    ⟨⟨"SELECT * FROM score AS s ORDER BY 2 DESC", []⟩, ?_, rfl⟩, rfl⟩
  · exact (ofStatement_over_table rfl rfl rfl).trans rfl
  · exact fun ps => rfl
  · exact (ofStatement_over_table rfl rfl rfl).trans rfl
  · have hprepare : (Pipeline.mk .postgres []).prepare (ranking (Expr.mkBinary .plus one one)) =
        .ok (ranking (.const (.int 2) .int64)) := rfl
    exact bind_eq_ok_iff.2 ⟨_, hprepare, (ofStatement_over_table rfl rfl rfl).trans rfl⟩

end Command

end QueryTree
