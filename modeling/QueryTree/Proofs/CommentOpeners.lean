import Mathlib.Data.List.Infix
import QueryTree.Proofs.SlotRendering

/-!
# Comment openers

A comment begins with `--` or `/*`, and what follows it is no longer part of the statement. Such a
pair of characters can arise in the middle of a text, or where two texts meet. Where names are plain
identifiers, every word of a statement is free of both pairs and ends in neither `-` nor `/`
(`Plain`), so nothing arises where it meets the next one. The sign of a negation is the one
exception: it ends in `-`, and its operand begins with `-` if it is itself a negation or a negative
number, or a null test of one, since only binary operands are put in parentheses (`leadsMinus`).

So a statement has no `/*`, and it has a `--` exactly if it negates such an operand
(`opensComment_iff`).
-/

namespace QueryTree

/-! ### Pairs of characters -/

/-- A pair in two texts stands in one of them, or where they meet. -/
theorem pair_infix_append {x y : Char} {a b : List Char} :
    [x, y] <:+: a ++ b ↔
      [x, y] <:+: a ∨ [x, y] <:+: b ∨ (a.getLast? = some x ∧ b.head? = some y) := by
  induction a with
  | nil => simp
  | cons c a ih =>
    rw [List.cons_append, List.infix_cons_iff, List.infix_cons_iff, ih]
    cases a with
    | nil =>
      have hmeet : [x, y] <+: c :: b ↔ [c].getLast? = some x ∧ b.head? = some y := by
        cases b with
        | nil => simp
        | cons c' b => simp [eq_comm]
      have hshort : ¬([x, y] <+: [c] ∨ [x, y] <:+: []) := by simp
      rw [List.nil_append, hmeet, or_iff_right hshort]
      simp [or_comm]
    | cons c' a =>
      have hlast : (c :: c' :: a).getLast? = (c' :: a).getLast? := List.getLast?_cons_cons
      have hstart : [x, y] <+: c :: (c' :: a ++ b) ↔ [x, y] <+: c :: c' :: a := by simp
      rw [hlast, hstart, or_assoc]

/-- The text has no `/*`, it has a `--` just in case it is said to, and a text behind it adds
neither. -/
structure Plain (cs : List Char) (doubled : Bool) : Prop where
  slash : ¬['/', '*'] <:+: cs
  minus : ['-', '-'] <:+: cs ↔ doubled = true
  last : ∀ c ∈ cs.getLast?, c ≠ '-' ∧ c ≠ '/'

section Plain

variable {a b : List Char} {p q : Bool}

/-- The empty text has neither pair. -/
theorem plain_nil : Plain [] false := by
  constructor <;> simp

/-- Texts side by side have the pairs that either has: the first ends in no character that could
begin one. -/
theorem Plain.append (ha : Plain a p) (hb : Plain b q) : Plain (a ++ b) (p || q) where
  slash := by
    rw [pair_infix_append]
    rintro (h | h | ⟨h, _⟩)
    · exact ha.slash h
    · exact hb.slash h
    · exact (ha.last _ h).2 rfl
  minus := by
    have hlast : a.getLast? ≠ some '-' := fun h => (ha.last _ h).1 rfl
    rw [pair_infix_append, ha.minus, hb.minus, Bool.or_eq_true]
    simp [hlast]
  last c hc := by
    rw [List.getLast?_append] at hc
    cases hb' : b.getLast? with
    | none =>
      rw [hb'] at hc
      exact ha.last c hc
    | some c' =>
      rw [hb'] at hc
      exact hb.last c (hb' ▸ hc)

/-- A character that no comment begins with or is opened by. -/
def isSafe (c : Char) : Bool := c != '-' && c != '/' && c != '*'

/-- Characters that are in neither pair make neither. -/
theorem plain_of_safe {cs : List Char} (h : ∀ c ∈ cs, isSafe c = true) : Plain cs false where
  slash hpair := Bool.false_ne_true (h '/' (hpair.subset List.mem_cons_self))
  minus := by
    refine iff_of_false (fun hpair => ?_) Bool.false_ne_true
    exact Bool.false_ne_true (h '-' (hpair.subset List.mem_cons_self))
  last c hc := by
    have hsafe := h c (List.mem_of_getLast? hc)
    simp only [isSafe, Bool.and_eq_true, bne_iff_ne] at hsafe
    exact hsafe.1

/-- A sign doubles the one that its operand begins with. -/
theorem Plain.sign (h : Plain a p) {c : Char} {rest : List Char} (ha : a = c :: rest) :
    Plain ('-' :: a) (c == '-' || p) := by
  subst ha
  constructor
  · rw [List.infix_cons_iff]
    rintro (hstart | hpair)
    · simp at hstart
    · exact h.slash hpair
  · have hstart : ['-', '-'] <+: '-' :: c :: rest ↔ c = '-' := by
      simp only [List.cons_prefix_cons, List.nil_prefix, true_and, and_true]
      exact eq_comm
    rw [List.infix_cons_iff, h.minus, hstart, Bool.or_eq_true, beq_iff_eq]
  · intro c' hc'
    exact h.last c' hc'

/-- The text has a first character, which is a minus sign or not. -/
def Begins (cs : List Char) (minus : Bool) : Prop :=
  ∃ c rest, cs = c :: rest ∧ (c == '-') = minus

/-- What a text begins with is what its first part begins with. -/
theorem Begins.append {a : List Char} {minus : Bool} (h : Begins a minus) (b : List Char) :
    Begins (a ++ b) minus := by
  obtain ⟨c, rest, rfl, hc⟩ := h
  exact ⟨c, rest ++ b, rfl, hc⟩

/-- A text of safe characters does not begin with a minus sign. -/
theorem begins_of_safe {cs : List Char} (hne : cs ≠ []) (h : ∀ c ∈ cs, isSafe c = true) :
    Begins cs false := by
  obtain ⟨c, rest, rfl⟩ := List.exists_cons_of_ne_nil hne
  have hc := h c List.mem_cons_self
  simp only [isSafe, Bool.and_eq_true, bne_iff_ne] at hc
  exact ⟨c, rest, rfl, beq_false_of_ne hc.1.1⟩

/-- A check for words that are known. -/
def isPlain (cs : List Char) : Bool :=
  !decide (['/', '*'] <:+: cs) && !decide (['-', '-'] <:+: cs) &&
    cs.getLast?.all fun c => c != '-' && c != '/'

/-- A text that has been looked through has neither pair. -/
theorem plain_of_isPlain {cs : List Char} (h : isPlain cs = true) : Plain cs false := by
  simp only [isPlain, Bool.and_eq_true, Bool.not_eq_true', decide_eq_false_iff_not,
    Option.all_eq_true, bne_iff_ne] at h
  exact ⟨h.1.1, iff_of_false h.1.2 Bool.false_ne_true, h.2⟩

end Plain

/-! ### Names -/

namespace Expr

/-- The names at the root are plain identifiers, that of a parameter included. -/
def namesArePlain : Expr → Bool
  | param name _ => isName name
  | e => e.labels.all isName

/-- Every name in the tree is a plain identifier. -/
def isPlainlyNamed (e : Expr) : Bool := e.nodes.all namesArePlain

/-- The names of a tree are checked node by node. -/
theorem all_of_isPlainlyNamed {e : Expr} (h : e.isPlainlyNamed = true) :
    e.All fun n => n.namesArePlain = true := List.all_eq_true.1 h

/-- A label of a plainly named tree is a plain name. -/
theorem IsLabel.isName {name : String} (h : IsLabel (fun n => n.namesArePlain = true) name) :
    isName name = true := by
  obtain ⟨n, hn, hname⟩ := h
  cases n with
  | param => cases hname
  | _ => exact List.all_eq_true.1 hn name hname

end Expr

/-- All characters of the text are safe. -/
def AllSafe (s : String) : Prop := ∀ c ∈ s.toList, isSafe c = true

/-- Safe texts side by side are safe. -/
theorem AllSafe.append {s t : String} (hs : AllSafe s) (ht : AllSafe t) : AllSafe (s ++ t) := by
  intro c hc
  rw [String.toList_append, List.mem_append] at hc
  exact hc.elim (hs c) (ht c)

/-- A keyword is checked character by character. -/
theorem allSafe_word {s : String} (h : s.toList.all isSafe = true) : AllSafe s :=
  List.all_eq_true.1 h

/-- The characters of a name are safe. -/
theorem isSafe_of_isNameChar {c : Char} (h : isNameChar c = true) : isSafe c = true := by
  have hne {c' : Char} (hc' : isNameChar c' = false) : c ≠ c' := by
    rintro rfl
    cases h.symm.trans hc'
  have hminus : c ≠ '-' := hne rfl
  have hslash : c ≠ '/' := hne rfl
  have hstar : c ≠ '*' := hne rfl
  simp [isSafe, hminus, hslash, hstar]

/-- A plain name is safe. -/
theorem allSafe_of_isName {name : String} (h : isName name = true) : AllSafe name :=
  fun _ hc => isSafe_of_isNameChar (isNameChar_of_mem h hc)

/-- Quotes around a plain name are safe, in every style. -/
theorem allSafe_quote (d : Dialect) {name : String} (h : isName name = true) :
    AllSafe (d.quote name) := by
  intro c hc
  rcases mem_quote d hc with hc | hc
  · exact allSafe_of_isName h c hc
  · have hdelimiters : ['"', '\x60', '[', ']'].all isSafe = true := rfl
    exact List.all_eq_true.1 hdelimiters c hc

/-- A quoted name is not empty. -/
theorem quote_ne_nil (d : Dialect) {name : String} (h : isName name = true) :
    (d.quote name).toList ≠ [] := by
  unfold Dialect.quote QuoteStyle.quote
  cases d.quoteStyle with
  | none =>
    simp only [isName, Bool.and_eq_true, Bool.not_eq_true', List.isEmpty_eq_false_iff] at h
    exact h.1
  | double | backtick | bracket =>
    dsimp only [QuoteStyle.delimiters?]
    rw [String.toList_ofList]
    exact List.cons_ne_nil _ _

namespace Sql

variable {d : Dialect} {w : String}

/-- An opening that is no keyword is made of names. The names are plain by hypothesis, and the
delimiters around them are as safe as they are. -/
theorem Opening.safe (h : Opening d (fun n => n.namesArePlain = true) w) :
    w ∈ openings ∨ w.toList ≠ [] ∧ AllSafe w := by
  cases h with
  | keyword h => exact .inl h
  | column bare hq hn =>
    refine .inr ?_
    unfold columnText
    split_ifs
    · exact ⟨quote_ne_nil d hn.isName, allSafe_quote d hn.isName⟩
    · refine ⟨by simp [String.toList_append], ?_⟩
      exact ((allSafe_of_isName hq.isName).append (allSafe_word rfl)).append
        (allSafe_quote d hn.isName)
  | call hf =>
    refine .inr ⟨by simp [String.toList_append], ?_⟩
    exact (allSafe_of_isName hf.isName).append (allSafe_word rfl)
  | aggregate f distinct =>
    refine .inr ⟨?_, allSafe_word ?_⟩
    · cases f <;> cases distinct <;> decide
    · cases f <;> cases distinct <;> rfl
  | table ht hq =>
    refine .inr ⟨by simp [String.toList_append], ?_⟩
    exact ((allSafe_quote d ht.isName).append (allSafe_word rfl)).append
      (allSafe_of_isName hq.isName)

/-- The words that begin a piece are plain, and begin with no minus sign. -/
theorem Opening.plain (h : Opening d (fun n => n.namesArePlain = true) w) :
    Plain w.toList false ∧ Begins w.toList false := by
  rcases h.safe with h | ⟨hne, hsafe⟩
  · have hplain : openings.all (fun w => isPlain w.toList) = true := by decide
    have hbegins : openings.all (fun w => w.toList.head?.any (· != '-')) = true := rfl
    refine ⟨plain_of_isPlain (List.all_eq_true.1 hplain w h), ?_⟩
    obtain ⟨c, hc, hminus⟩ := (Option.any_eq_true _ _).1 (List.all_eq_true.1 hbegins w h)
    obtain ⟨rest, hrest⟩ := List.head?_eq_some_iff.1 hc
    exact ⟨c, rest, hrest, by simpa using hminus⟩
  · exact ⟨plain_of_safe hsafe, begins_of_safe hne hsafe⟩

/-- The words between pieces are plain. -/
theorem Divider.plain (h : Divider d (fun n => n.namesArePlain = true) w) :
    Plain w.toList false := by
  cases h with
  | keyword h =>
    have hwords : dividers.all (fun w => isPlain w.toList) = true := by decide
    exact plain_of_isPlain (List.all_eq_true.1 hwords w h)
  | operator op => cases op <;> exact plain_of_isPlain (by decide)
  | join kind => cases kind <;> exact plain_of_isPlain (by decide)
  | setOp op all => cases op <;> cases all <;> exact plain_of_isPlain (by decide)
  | column hn => exact plain_of_safe ((allSafe_word rfl).append (allSafe_quote d hn.isName))
  | relation hq => exact plain_of_safe ((allSafe_word rfl).append (allSafe_of_isName hq.isName))

end Sql

/-! ### Numbers and placeholders -/

/-- Digits are plain. -/
theorem plain_of_isDigit {cs : List Char} (h : ∀ c ∈ cs, c.isDigit = true) : Plain cs false := by
  apply plain_of_safe
  intro c hc
  apply isSafe_of_isNameChar
  simp [isNameChar, Char.isAlphanum, h c hc]

/-- An integer opens no comment, and begins with a minus sign exactly if it is negative. -/
theorem toString_int_plain (n : Int) :
    Plain (toString n).toList false ∧ Begins (toString n).toList (decide (n < 0)) := by
  obtain ⟨digits, hne, hdigits, htext⟩ := toString_int_cases n
  have hplain := plain_of_isDigit hdigits
  have hbegins : Begins digits false := begins_of_safe hne fun c hc =>
    isSafe_of_isNameChar (by simp [isNameChar, Char.isAlphanum, hdigits c hc])
  rw [htext]
  by_cases hn : n < 0
  · obtain ⟨c, rest, heq, hc⟩ := hbegins
    have hsigned := hplain.sign heq
    rw [hc] at hsigned
    rw [if_pos hn, decide_eq_true hn]
    exact ⟨hsigned, '-', digits, rfl, rfl⟩
  · rw [if_neg hn, decide_eq_false hn]
    exact ⟨hplain, hbegins⟩

/-- A double without its sign opens no comment, also in its exponent. -/
theorem unsigned_plain (x : Float) :
    Plain (FloatStyle.statement.unsigned x).toList false ∧
      Begins (FloatStyle.statement.unsigned x).toList false := by
  obtain ⟨mantissa, exponent, htext, hmantissa, hexponent⟩ := FloatStyle.unsigned_statement x
  have hsafe : AllSafe mantissa := by
    intro c hc
    have hchar := hmantissa.all c hc
    simp only [isMantissaChar, Bool.or_eq_true, beq_iff_eq] at hchar
    rcases hchar with (hdigit | rfl) | rfl
    · exact isSafe_of_isNameChar (by simp [isNameChar, Char.isAlphanum, hdigit])
    · rfl
    · rfl
  have hplain : Plain exponent.toList false := by
    rcases hexponent with rfl | ⟨n, rfl⟩
    · exact plain_nil
    · exact (toString_int_plain n).1
  rw [htext, String.toList_append]
  exact ⟨(plain_of_safe hsafe).append hplain, (begins_of_safe hmantissa.nonempty hsafe).append _⟩

namespace Expr

/-- The text of the expression begins with a minus sign where it is an operand. -/
def leadsMinus : Expr → Bool
  | const (.int n) _ => n.toInt < 0
  | const (.float x) _ => x.isFinite && (Scaled.ofFloat x).negative
  | unary .negate _ _ => true
  | unary .isNull e _ | unary .isNotNull e _ => leadsMinus e
  | _ => false

/-- The node is a negation, and its operand begins with a minus sign. -/
def negatesMinus : Expr → Bool
  | unary .negate e _ => leadsMinus e
  | _ => false

/-- A negation of a negative operand is written, so it counts. -/
theorem contributes_of_negatesMinus {e : Expr} (h : e.negatesMinus = true) :
    e.contributes = true := by
  cases e with
  | unary op e t => cases op <;> first | rfl | cases h
  | _ => cases h

/-- A constant that becomes a parameter is written as a placeholder, without a sign. -/
theorem leadsMinus_of_slot {v : Value} {t : LogicalType} {slot : Slot}
    (h : (const v t).slot? = some slot) : (const v t).leadsMinus = false := by
  cases v with
  | int => cases h
  | float x =>
    have hx : x.isFinite = false := by
      by_contra hx
      rw [Bool.not_eq_false] at hx
      cases (if_pos hx).symm.trans h
    rw [leadsMinus, hx]
    rfl
  | _ => rfl

/-- The conditions of cross joins have no part in how an expression begins. -/
theorem leadsMinus_uncrossed (e : Expr) : e.uncrossed.leadsMinus = e.leadsMinus := by
  induction e using treeInduction with
  | unary op e t ih =>
    cases op with
    | isNull | isNotNull => exact ih
    | not | negate => rfl
  | join kind => cases kind <;> rfl
  | _ => rfl

end Expr

namespace Sql

open Attempt

variable {d : Dialect} {bare : Option String}

/-- A constant that stands in the text begins with a minus sign exactly if it is a negative number.
-/
theorem Inline.plain {v : Value} {w : String} (h : Inline v w) (t : LogicalType) :
    Plain w.toList false ∧ Begins w.toList (Expr.const v t).leadsMinus := by
  cases h with
  | null => exact ⟨plain_of_isPlain (by decide), begins_of_safe (by decide) (allSafe_word rfl)⟩
  | bool b =>
    cases b with
    | false => exact ⟨plain_of_isPlain (by decide), begins_of_safe (by decide) (allSafe_word rfl)⟩
    | true => exact ⟨plain_of_isPlain (by decide), begins_of_safe (by decide) (allSafe_word rfl)⟩
  | int n => exact toString_int_plain n.toInt
  | @float x hx =>
    obtain ⟨hplain, hbegins⟩ := unsigned_plain x
    rw [FloatStyle.text_of_isFinite _ hx, String.toList_append, Expr.leadsMinus, hx, Bool.true_and]
    cases (Scaled.ofFloat x).negative with
    | false => exact ⟨hplain, hbegins⟩
    | true =>
      obtain ⟨c, rest, heq, hc⟩ := hbegins
      have hsigned := hplain.sign heq
      rw [hc] at hsigned
      exact ⟨hsigned, '-', _, rfl, rfl⟩

/-- The names made up for constants are plain. -/
theorem isName_constantName (ps : List CommandParameter) :
    isName (Command.constantName ps) = true := by
  have hall : ∀ c ∈ (Command.constantName ps).toList, isNameChar c = true := by
    intro c hc
    rw [Command.constantName, String.toList_append, List.mem_append] at hc
    rcases hc with hc | hc
    · exact List.all_eq_true.1 (rfl : "_c".toList.all isNameChar = true) c hc
    · simp [isNameChar, Char.isAlphanum, isDigit_of_mem_toString hc]
  have hne : (Command.constantName ps).toList.isEmpty = false := by
    rw [Command.constantName, String.toList_append]
    rfl
  rw [isName, hne, List.all_eq_true.2 hall]
  rfl

/-- A placeholder is free of comments and begins with its mark. -/
theorem slot_plain (d : Dialect) (ps : List CommandParameter) (slot : Slot)
    (h : isName (Command.slotName ps slot) = true) :
    Plain (chars d ps [.slot slot]) false ∧ Begins (chars d ps [.slot slot]) false := by
  obtain ⟨rest, htext, hrest⟩ :=
    d.placeholderStyle.text_toList (Command.enter ps slot).2 (Command.slotName ps slot)
  have hchars : chars d ps [.slot slot] = d.placeholderStyle.mark :: rest := by
    rw [chars, chars, List.append_nil]
    exact htext
  have hmark : isSafe d.placeholderStyle.mark = true := by
    cases d.placeholderStyle <;> rfl
  have hsafe : ∀ c ∈ d.placeholderStyle.mark :: rest, isSafe c = true :=
    List.forall_mem_cons.2 ⟨hmark, fun c hc => isSafe_of_isNameChar (hrest h c hc)⟩
  rw [hchars]
  exact ⟨plain_of_safe hsafe, begins_of_safe (List.cons_ne_nil _ _) hsafe⟩

/-- A literal, in the text or as a placeholder, opens no comment by itself. -/
theorem literal_plain {v : Value} {t : LogicalType} {ts : Sql} (h : literal v t = .ok ts)
    (ps : List CommandParameter) :
    Plain (chars d ps ts) false ∧ Begins (chars d ps ts) (Expr.const v t).leadsMinus := by
  rcases literal_cases h with ⟨w, hw, rfl, _⟩ | ⟨rfl, hslot⟩
  · have hchars : chars d ps (word w) = w.toList := List.append_nil _
    rw [hchars]
    exact hw.plain t
  · rw [Expr.leadsMinus_of_slot hslot]
    exact slot_plain d ps (.constant v t) (isName_constantName ps)

/-! ### Statements -/

/-- A part behind an opening begins with no minus sign. -/
theorem Opening.begins {w : String} (h : Opening d (fun n => n.namesArePlain = true) w)
    (ps : List CommandParameter) (ts : Sql) : Begins (chars d ps (word w ++ ts)) false :=
  h.plain.2.append _

/-- An operand begins with a minus sign just in case it is said to. Parentheses hide the sign in
front of a binary operation, and a test for NULL, which is written behind its operand, begins as the
operand does. -/
theorem scalar_begins {e : Expr} (he : e.All fun n => n.namesArePlain = true) {ts : Sql}
    (h : scalar d bare e = .ok ts) (ps : List CommandParameter) :
    Begins (chars d ps (operand e ts)) e.leadsMinus := by
  induction e using Expr.treeInduction generalizing ts with
  | const v t => exact (literal_plain h ps).2
  | param name t =>
    obtain rfl := Except.ok.inj h
    exact (slot_plain d ps (.named name t) he.root).2
  | column q name t =>
    obtain rfl := Except.ok.inj h
    exact Opening.begins (.column bare (he.label (by simp [Expr.labels]))
      (he.label (by simp [Expr.labels]))) ps []
  | binary op l r t => exact ⟨'(', _, rfl, rfl⟩
  | unary op e t ih =>
    simp only [scalar] at h
    obtain ⟨inner, hinner, h⟩ := bind_eq_ok_iff.1 h
    obtain rfl := pure_eq_ok_iff.1 h
    have hoperand := ih (he.child (by simp [Expr.children])) hinner
    have hbefore (w : String) : Begins (chars d ps (operand e inner ++ word w)) e.leadsMinus := by
      rw [chars_append]
      exact hoperand.append _
    cases op with
    | not => exact ⟨'N', _, rfl, rfl⟩
    | negate => exact ⟨'-', _, rfl, rfl⟩
    | isNull | isNotNull => exact hbefore _
  | call f args t ih =>
    simp only [scalar] at h
    obtain ⟨parts, _, h⟩ := bind_eq_ok_iff.1 h
    obtain rfl := pure_eq_ok_iff.1 h
    exact Opening.begins (.call (he.label (by simp [Expr.labels]))) ps _
  | aggregate f arg distinct t ih =>
    simp only [scalar] at h
    split at h
    · cases h
    obtain ⟨inner, _, h⟩ := bind_eq_ok_iff.1 h
    obtain rfl := pure_eq_ok_iff.1 h
    exact Opening.begins (.aggregate f distinct) ps _
  | _ => cases h

section Parts

variable {a b : Sql} {p q : Bool} {w : String}

/-- A plain word before a piece adds no pair. -/
theorem plain_after (hw : Plain w.toList false)
    (hb : ∀ ps : List CommandParameter, Plain (chars d ps b) q) (ps : List CommandParameter) :
    Plain (chars d ps (word w ++ b)) q := hw.append (hb ps)

/-- A plain word between two pieces adds no pair. -/
theorem plain_between (ha : ∀ ps : List CommandParameter, Plain (chars d ps a) p)
    (hw : Plain w.toList false) (hb : ∀ ps : List CommandParameter, Plain (chars d ps b) q)
    (ps : List CommandParameter) : Plain (chars d ps (a ++ word w ++ b)) (p || q) := by
  rw [List.append_assoc, chars_append]
  exact (ha ps).append (plain_after hw hb _)

/-- Parentheses around an operand add no pair. -/
theorem plain_operand (ha : ∀ ps : List CommandParameter, Plain (chars d ps a) p) (e : Expr)
    (ps : List CommandParameter) : Plain (chars d ps (operand e a)) p := by
  cases e with
  | binary =>
    have hopening : Plain "(".toList false := plain_of_safe (allSafe_word rfl)
    have hclosing : Plain ")".toList false := plain_of_safe (allSafe_word rfl)
    have h := plain_between (b := []) (plain_after hopening ha) hclosing (fun _ => plain_nil) ps
    rw [Bool.or_false, List.append_nil] at h
    exact h
  | _ => exact ha ps

end Parts

/-- The text has no `/*`, and it has a `--` just in case a listed node negates a minus sign. -/
theorem Assembled.plain {ts : Sql} {l : List Expr}
    (h : Assembled d (fun n => n.namesArePlain = true) ts l) (ps : List CommandParameter) :
    Plain (chars d ps ts) (l.any Expr.negatesMinus) := by
  induction h generalizing ps with
  | nil => exact plain_nil
  | literal h => exact (literal_plain h ps).1
  | param hn => exact (slot_plain d ps (.named _ _) hn).1
  | @sign _ e t inner l he h _ ih =>
    obtain ⟨c, rest, heq, hc⟩ := scalar_begins he h ps
    have hsigned := (plain_operand ih e ps).sign heq
    rw [hc, ← Expr.leadsMinus_uncrossed] at hsigned
    exact hsigned
  | opening hw _ ih => exact plain_after hw.plain.1 ih ps
  | divider hw _ _ iha ihb =>
    rw [List.any_append]
    exact plain_between iha hw.plain ihb ps

end Sql

namespace Command

variable {d : Dialect} {es : List Expr} {c : Command}

/-- What negates a minus sign in a statement is a node of its tree. -/
theorem any_reading (es : List Expr) :
    (es.flatMap Expr.reading).any Expr.negatesMinus =
      es.any fun e => e.uncrossed.any Expr.negatesMinus := by
  rw [List.any_flatMap]
  apply congrArg (List.any es)
  funext e
  have hcontributes : (fun n : Expr => n.contributes && n.negatesMinus) = Expr.negatesMinus := by
    funext n
    cases hn : n.negatesMinus with
    | false => exact Bool.and_false _
    | true => rw [Expr.contributes_of_negatesMinus hn]; rfl
  rw [e.reading_perm.any_eq, Expr.contributions, List.any_filter, hcontributes]
  rfl

/-- Where names are plain identifiers, the text of a command has no `/*`, and it has a `--` just in
case a negation in one of its trees has an operand that begins with a minus sign. -/
theorem opensComment_iff (hes : ∀ e ∈ es, e.isPlainlyNamed = true) (h : Formats d es c) :
    ¬['/', '*'] <:+: c.sql.toList ∧
      (['-', '-'] <:+: c.sql.toList ↔ ∃ e ∈ es, e.uncrossed.any Expr.negatesMinus = true) := by
  obtain ⟨ts, rfl, hassembled⟩ := h.assembled fun e he => Expr.all_of_isPlainlyNamed (hes e he)
  have hplain := hassembled.plain []
  rw [any_reading, ← (ofTokens_chars d ts).1] at hplain
  refine ⟨hplain.slash, hplain.minus.trans ?_⟩
  rw [List.any_eq_true]

/-- A sum and a product with negative numbers, and the negation of a quotient. -/
def signedAges : Expr :=
  .project "p" (Expr.mkScan (.source ⟨"users", none⟩) "u")
    [⟨"sum", Expr.mkBinary .minus (.column "u" "age" .int64) (.const (.int (-5)) .int64)⟩,
      ⟨"product", Expr.mkBinary .multiply (Expr.mkUnary .negate (.column "u" "age" .int64))
        (.const (.int (-2)) .int64)⟩,
      ⟨"part", Expr.mkUnary .negate
        (Expr.mkBinary .divide (.const (.int (-1)) .int64) (.column "u" "age" .int64))⟩] false []

/-- Their statement, in which no two signs are side by side. -/
def signedAgesText : String :=
  "SELECT u.age - -5 AS sum, -u.age * -2 AS product, -(-1 / u.age) AS part FROM users AS u"

/-- Negative numbers behind a minus sign, and a negation of one in parentheses, open no comment. -/
theorem opensComment_iff_signedAges :
    ofStatement .postgres signedAges = .ok ⟨signedAgesText, []⟩ ∧
      ¬['/', '*'] <:+: signedAgesText.toList ∧ ¬['-', '-'] <:+: signedAgesText.toList := by
  have hcommand : ofStatement .postgres signedAges = .ok ⟨signedAgesText, []⟩ :=
    (ofStatement_over_table rfl rfl rfl).trans rfl
  have hnames : ∀ e ∈ [signedAges], e.isPlainlyNamed = true := by
    intro e he
    obtain rfl := List.mem_singleton.1 he
    rfl
  obtain ⟨hslash, hminus⟩ := opensComment_iff hnames (.inl ⟨signedAges, rfl, hcommand⟩)
  refine ⟨hcommand, hslash, fun hpair => ?_⟩
  obtain ⟨e, he, hany⟩ := hminus.1 hpair
  obtain rfl := List.mem_singleton.1 he
  exact Bool.false_ne_true hany

/-- The negation of a negative number, and that of a negation. -/
def doubleSigns : Expr :=
  .project "p" (Expr.mkScan (.source ⟨"users", none⟩) "u")
    [⟨"five", Expr.mkUnary .negate (.const (.int (-5)) .int64)⟩,
      ⟨"years", Expr.mkUnary .negate (Expr.mkUnary .negate (.column "u" "age" .int64))⟩] false []

/-- Although its names are plain, the text opens a comment, and all that is left of the statement is
its first word. -/
theorem ofStatement_doubleSigns :
    doubleSigns.isPlainlyNamed = true ∧
      ofStatement .postgres doubleSigns =
        .ok ⟨"SELECT --5 AS five, --u.age AS years FROM users AS u", []⟩ ∧
      ['-', '-'] <:+: "SELECT --5 AS five, --u.age AS years FROM users AS u".toList := by
  refine ⟨rfl, ?_, ?_⟩
  · exact (ofStatement_over_table rfl rfl rfl).trans rfl
  · exact ⟨"SELECT ".toList, "5 AS five, --u.age AS years FROM users AS u".toList, rfl⟩

end Command

end QueryTree
