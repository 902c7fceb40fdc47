import Mathlib.Tactic.SplitIfs
import QueryTree.Proofs.Assembly
import QueryTree.Proofs.NumberText
import QueryTree.Proofs.Placeholders

/-!
# Text without the mark of a placeholder

A placeholder can be told from the text around it where no other part of a statement has its mark,
a dollar sign or a question mark. Keywords have none, and neither have numbers
(`not_mem_toString_int`, `not_mem_text`); quoting adds none (`not_mem_quote`). What is
left are the names that a tree gives to columns, tables, aliases and functions (`Expr.labels`).
`Expr.isFreeOf` asks for a tree without the mark in them; then no word of its statement has one
(`Opening.not_mem`, `Divider.not_mem`).
-/

namespace QueryTree

/-- A dollar sign in the text. -/
def hasDollar (s : String) : Bool := s.toList.contains '$'

/-- Looking for a dollar sign is looking for the character. -/
theorem hasDollar_eq_false_iff {s : String} : hasDollar s = false ↔ '$' ∉ s.toList := by
  simp [hasDollar]

section Mark

variable {mark : Char} (hmark : isMark mark = true)

/-! ### Words -/

include hmark in
/-- A text without marks is without this one. -/
theorem not_mem_of_any {s : String} (h : s.toList.any isMark = false) : mark ∉ s.toList := by
  intro hmem
  exact Bool.false_ne_true (h.symm.trans (List.any_eq_true.2 ⟨mark, hmem, hmark⟩))

/-- Texts without the mark, side by side, are without it. -/
theorem not_mem_append {s t : String} (hs : mark ∉ s.toList) (ht : mark ∉ t.toList) :
    mark ∉ (s ++ t).toList := by
  rw [String.toList_append, List.mem_append]
  exact not_or.2 ⟨hs, ht⟩

/-! ### Numbers -/

include hmark

/-- A mark is no part of a number. -/
theorem isMantissaChar_of_isMark : isMantissaChar mark = false := by
  simp only [isMark, Bool.or_eq_true, beq_iff_eq] at hmark
  rcases hmark with (rfl | rfl) | rfl <;> rfl

/-- An integer has no mark in it. -/
theorem not_mem_toString_int (n : Int) : mark ∉ (toString n).toList := by
  obtain ⟨digits, _, hdigits, htext⟩ := toString_int_cases n
  have hmantissa := isMantissaChar_of_isMark hmark
  intro hmem
  rw [htext] at hmem
  have hmem : mark = '-' ∨ mark ∈ digits := by
    split_ifs at hmem
    · exact List.mem_cons.1 hmem
    · exact .inr hmem
  rcases hmem with rfl | hmem
  · cases hmark
  · simp [isMantissaChar, hdigits mark hmem] at hmantissa

/-- A double has no mark in it. -/
theorem not_mem_text {x : Float} (hx : x.isFinite = true) :
    mark ∉ (FloatStyle.statement.text x).toList := by
  obtain ⟨mantissa, exponent, htext, hmantissa, hexponent⟩ := FloatStyle.unsigned_statement x
  rw [FloatStyle.text_of_isFinite _ hx, htext]
  refine not_mem_append (not_mem_of_any hmark ?_) (not_mem_append ?_ ?_)
  · split_ifs <;> rfl
  · intro hmem
    cases (hmantissa.all mark hmem).symm.trans (isMantissaChar_of_isMark hmark)
  · rcases hexponent with rfl | ⟨n, rfl⟩
    · exact List.not_mem_nil
    · exact not_mem_toString_int hmark n

/-- A constant that stands in the text brings no mark. -/
theorem Sql.Inline.not_mem {v : Value} {w : String} (h : Sql.Inline v w) : mark ∉ w.toList := by
  cases h with
  | null => exact not_mem_of_any hmark rfl
  | bool b => cases b <;> exact not_mem_of_any hmark rfl
  | int n => exact not_mem_toString_int hmark _
  | float hx => exact not_mem_text hmark hx

/-! ### Identifiers -/

omit hmark in
/-- Quoting adds delimiters to the characters of an identifier. A delimiter in the identifier is
doubled, which adds no character that was not there. -/
theorem mem_quote (d : Dialect) {identifier : String} {c : Char}
    (h : c ∈ (d.quote identifier).toList) :
    c ∈ identifier.toList ∨ c ∈ ['"', '\x60', '[', ']'] := by
  have hquoted {opening close : Char}
      (h : c ∈ opening :: QuoteStyle.doubled close identifier.toList ++ [close]) :
      c ∈ identifier.toList ∨ c ∈ [opening, close] := by
    rcases List.mem_append.1 h with h | h
    · rcases List.mem_cons.1 h with rfl | h
      · exact .inr List.mem_cons_self
      · obtain ⟨c', hc', h⟩ := List.mem_flatMap.1 h
        obtain rfl : c = c' := by
          split_ifs at h <;> simpa using h
        exact .inl hc'
    · exact .inr (List.mem_cons_of_mem _ h)
  unfold Dialect.quote QuoteStyle.quote at h
  cases hstyle : d.quoteStyle with
  | none => rw [hstyle] at h; exact .inl h
  | double | backtick | bracket =>
    rw [hstyle] at h
    dsimp only [QuoteStyle.delimiters?] at h
    rw [String.toList_ofList] at h
    refine (hquoted h).imp_right fun h => ?_
    simp only [List.mem_cons, List.not_mem_nil, or_false] at h ⊢
    tauto

/-- Quoting adds no mark to an identifier. -/
theorem not_mem_quote (d : Dialect) {identifier : String} (h : mark ∉ identifier.toList) :
    mark ∉ (d.quote identifier).toList := by
  intro hmem
  rcases mem_quote d hmem with hmem | hmem
  · exact h hmem
  · have hdelimiters : ['"', '\x60', '[', ']'].any isMark = false := rfl
    exact Bool.false_ne_true (hdelimiters.symm.trans (List.any_eq_true.2 ⟨mark, hmem, hmark⟩))

end Mark

/-! ### Trees -/

namespace Expr

/-- No name at the root has the mark. -/
def LabelsAvoid (mark : Char) (e : Expr) : Prop := ∀ s ∈ e.labels, mark ∉ s.toList

/-- No name in the tree has the mark. -/
def isFreeOf (mark : Char) (e : Expr) : Bool :=
  e.nodes.all fun n => n.labels.all fun s => !s.toList.contains mark

/-- No name in the tree has a dollar sign. -/
def isDollarFree (e : Expr) : Bool := e.nodes.all fun n => n.labels.all fun s => !hasDollar s

/-- Free of dollar signs is free of that mark. -/
theorem isFreeOf_dollar (e : Expr) : e.isFreeOf '$' = e.isDollarFree := rfl

variable {mark : Char}

/-- Free of a mark is a matter of each node. -/
theorem all_of_isFreeOf {e : Expr} (h : e.isFreeOf mark = true) : e.All (LabelsAvoid mark) := by
  simpa [isFreeOf, All, LabelsAvoid] using h

/-- A label of a tree that is free of a mark is free of it. -/
theorem IsLabel.not_mem {name : String} (h : IsLabel (LabelsAvoid mark) name) :
    mark ∉ name.toList := by
  obtain ⟨n, hn, hname⟩ := h
  exact hn name hname

end Expr

namespace Sql

variable {mark : Char} (hmark : isMark mark = true) {d : Dialect} {w : String}

include hmark

/-- The words that begin a piece have no mark. -/
theorem Opening.not_mem (h : Opening d (Expr.LabelsAvoid mark) w) : mark ∉ w.toList := by
  cases h with
  | keyword h =>
    have hwords : openings.all (fun w => !w.toList.any isMark) = true := rfl
    exact not_mem_of_any hmark (by simpa using List.all_eq_true.1 hwords w h)
  | column bare hq hn =>
    unfold columnText
    split_ifs
    · exact not_mem_quote hmark d hn.not_mem
    · exact not_mem_append (not_mem_append hq.not_mem (not_mem_of_any hmark rfl))
        (not_mem_quote hmark d hn.not_mem)
  | call hf => exact not_mem_append hf.not_mem (not_mem_of_any hmark rfl)
  | aggregate f distinct =>
    apply not_mem_of_any hmark
    cases f <;> cases distinct <;> rfl
  | table ht hq =>
    exact not_mem_append (not_mem_append (not_mem_quote hmark d ht.not_mem)
      (not_mem_of_any hmark rfl)) hq.not_mem

/-- The words between pieces have no mark. -/
theorem Divider.not_mem (h : Divider d (Expr.LabelsAvoid mark) w) : mark ∉ w.toList := by
  cases h with
  | keyword h =>
    have hwords : dividers.all (fun w => !w.toList.any isMark) = true := rfl
    exact not_mem_of_any hmark (by simpa using List.all_eq_true.1 hwords w h)
  | operator op => cases op <;> exact not_mem_of_any hmark rfl
  | join kind => cases kind <;> exact not_mem_of_any hmark rfl
  | setOp op all => cases op <;> cases all <;> exact not_mem_of_any hmark rfl
  | column hn =>
    exact not_mem_append (not_mem_of_any hmark rfl) (not_mem_quote hmark d hn.not_mem)
  | relation hq => exact not_mem_append (not_mem_of_any hmark rfl) hq.not_mem

end Sql

end QueryTree
