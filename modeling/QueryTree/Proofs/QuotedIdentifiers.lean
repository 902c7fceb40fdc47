import QueryTree.Sql.Dialect

/-!
# Quoted identifiers end where they were ended

An identifier may hold anything, also the delimiter that closes its quotes, alone or in runs, and
next to the delimiter that is put behind it. A reader takes two closing delimiters for one and stops
at the first that stands alone (`QuotedIdentifier.read`). It passes over the text of an identifier
to whatever follows (`read_doubled_append`), so it finds no end inside. Behind it the reader stops
at the delimiter of the quotes, unless another one follows, and it has read the identifier.

Only texts that quoting gives are read as an identifier (`read_eq_some_iff`). So a text tells which
identifier was quoted and what comes after it (`Dialect.quote_selfDelimiting`).
-/

namespace QueryTree

/-- The styles with quotes, and the delimiters that open and close them. -/
inductive QuoteStyle.Delimits : QuoteStyle → Char → Char → Prop
  | double : Delimits .double '"' '"'
  | backtick : Delimits .backtick '\x60' '\x60'
  | bracket : Delimits .bracket '[' ']'

namespace QuotedIdentifier

open QuoteStyle (doubled)

/-- Read an identifier from behind its opening delimiter: the identifier, and the text behind its
end. Without an end there is no identifier. -/
def read (close : Char) : List Char → Option (List Char × List Char)
  | [] => none
  | [c] => if c = close then some ([], []) else none
  | c :: d :: text =>
    if c = close then
      if d = close then (read close text).map fun r => (c :: r.1, r.2)
      else some ([], d :: text)
    else (read close (d :: text)).map fun r => (c :: r.1, r.2)

variable {close : Char}

/-! ### One step -/

/-- A doubled delimiter is read as one character. -/
theorem read_pair (text : List Char) :
    read close (close :: close :: text) = (read close text).map fun r => (close :: r.1, r.2) := by
  rw [read, if_pos rfl, if_pos rfl]

/-- Any other character is read as it is. -/
theorem read_cons {c : Char} (hc : c ≠ close) (text : List Char) :
    read close (c :: text) = (read close text).map fun r => (c :: r.1, r.2) := by
  cases text with
  | nil => exact if_neg hc
  | cons d text => exact if_neg hc

/-- A closing delimiter that stands alone is the end. -/
theorem read_close {rest : List Char} (h : rest.head? ≠ some close) :
    read close (close :: rest) = some ([], rest) := by
  cases rest with
  | nil => rw [read, if_pos rfl]
  | cons d rest =>
    have hd : d ≠ close := fun hd => h (congrArg some hd)
    rw [read, if_pos rfl, if_neg hd]

theorem doubled_cons (c : Char) (s : List Char) :
    doubled close (c :: s) = (if c = close then [c, c] else [c]) ++ doubled close s := rfl

/-! ### Whole identifiers -/

/-- The text of an identifier is read to its end and does not end the reading, whatever follows. -/
theorem read_doubled_append (s text : List Char) :
    read close (doubled close s ++ text) = (read close text).map fun r => (s ++ r.1, r.2) := by
  induction s with
  | nil => exact Option.map_id'.symm
  | cons c s ih =>
    rw [doubled_cons, List.append_assoc]
    by_cases hc : c = close
    · subst hc
      rw [if_pos rfl, List.cons_append, List.singleton_append, read_pair, ih, Option.map_map]
      rfl
    · rw [if_neg hc, List.singleton_append, read_cons hc, ih, Option.map_map]
      rfl

/-- What was read is the text of the identifier, and behind it stands a single delimiter. -/
theorem eq_of_read {text s rest : List Char} (h : read close text = some (s, rest)) :
    text = doubled close s ++ close :: rest ∧ rest.head? ≠ some close := by
  fun_induction read close text generalizing s rest with
  | case1 => cases h
  | case2 => cases h; exact ⟨rfl, nofun⟩
  | case3 => cases h
  | case4 text ih =>
    obtain ⟨⟨s, rest⟩, hread, heq⟩ := Option.map_eq_some_iff.1 h
    cases heq
    obtain ⟨rfl, hrest⟩ := ih hread
    exact ⟨by simp [doubled_cons], hrest⟩
  | case5 d text hd =>
    cases h
    exact ⟨rfl, fun hclose => hd (Option.some.inj hclose)⟩
  | case6 c d text hc ih =>
    obtain ⟨⟨s, rest⟩, hread, heq⟩ := Option.map_eq_some_iff.1 h
    cases heq
    obtain ⟨htext, hrest⟩ := ih hread
    exact ⟨by rw [htext, doubled_cons, if_neg hc]; rfl, hrest⟩

/-- Reading gives an identifier back from the text with its delimiters doubled, up to a delimiter
that is not, and from no other text. -/
theorem read_eq_some_iff {text s rest : List Char} :
    read close text = some (s, rest) ↔
      text = doubled close s ++ close :: rest ∧ rest.head? ≠ some close := by
  refine ⟨eq_of_read, ?_⟩
  rintro ⟨rfl, hrest⟩
  rw [read_doubled_append, read_close hrest, Option.map_some, List.append_nil]

example : read ']' "]]a]]]]].b".toList = some ("]a]]".toList, ".b".toList) := by decide

end QuotedIdentifier

namespace QuoteStyle

open QuotedIdentifier

variable {style : QuoteStyle} {opening close : Char}

/-- A quoted identifier stands between its delimiters, with the closing one doubled. -/
theorem Delimits.quote_eq (h : Delimits style opening close) (identifier : String) :
    (style.quote identifier).toList =
      opening :: (doubled close identifier.toList ++ [close]) := by
  cases h <;> exact String.toList_ofList

/-- Two quoted identifiers that begin one text are the same, and so is what follows them. -/
theorem Delimits.quote_append_inj (h : Delimits style opening close) {a b : String}
    {rest rest' : List Char} (hrest : rest.head? ≠ some close) (hrest' : rest'.head? ≠ some close)
    (heq : (style.quote a).toList ++ rest = (style.quote b).toList ++ rest') :
    a = b ∧ rest = rest' := by
  rw [h.quote_eq, h.quote_eq, List.cons_append, List.cons_append, List.append_assoc,
    List.append_assoc] at heq
  have ha : read close (doubled close a.toList ++ close :: rest) = some (a.toList, rest) :=
    read_eq_some_iff.2 ⟨rfl, hrest⟩
  have hb : read close (doubled close b.toList ++ close :: rest') = some (b.toList, rest') :=
    read_eq_some_iff.2 ⟨rfl, hrest'⟩
  have hsame : some (a.toList, rest) = some (b.toList, rest') := by
    rw [← ha, ← hb]
    exact congrArg (read close) (List.cons.inj heq).2
  obtain ⟨hab, hrests⟩ := Prod.mk.inj (Option.some.inj hsame)
  exact ⟨String.toList_inj.1 hab, hrests⟩

end QuoteStyle

namespace Dialect

open QuotedIdentifier

/-- Between quotes an identifier is self-delimiting. Whatever the identifier, reading from behind
the opening delimiter gives it back and stops right behind the closing one, if no other follows;
inside of the identifier the reading does not end, whatever comes after it. So quoting is injective,
and a text that begins with a quoted identifier begins with no other. -/
theorem quote_selfDelimiting {d : Dialect} {opening close : Char}
    (h : d.quoteStyle.Delimits opening close) :
    (∀ identifier : String, ∃ inner, (d.quote identifier).toList = opening :: (inner ++ [close]) ∧
      (∀ rest : List Char, rest.head? ≠ some close →
        read close (inner ++ close :: rest) = some (identifier.toList, rest)) ∧
      ∀ text, read close (inner ++ text) =
        (read close text).map fun r => (identifier.toList ++ r.1, r.2)) ∧
    (∀ a b, d.quote a = d.quote b → a = b) ∧
    ∀ (a b : String) (rest rest' : List Char), rest.head? ≠ some close → rest'.head? ≠ some close →
      (d.quote a).toList ++ rest = (d.quote b).toList ++ rest' → a = b ∧ rest = rest' := by
  refine ⟨fun identifier => ⟨_, h.quote_eq identifier, fun rest hrest => ?_, ?_⟩, ?_, ?_⟩
  · exact read_eq_some_iff.2 ⟨rfl, hrest⟩
  · exact read_doubled_append identifier.toList
  · intro a b hab
    have hnil : ([] : List Char).head? ≠ some close := nofun
    exact (h.quote_append_inj hnil hnil (by rw [← quote, ← quote, hab])).1
  · exact fun a b rest rest' hrest hrest' => h.quote_append_inj hrest hrest'

/-- Closing brackets at the start of an identifier and at its end, next to that of the quotes. -/
theorem quote_selfDelimiting_brackets :
    QuoteStyle.bracket.Delimits '[' ']' ∧
      ({ quoteStyle := .bracket } : Dialect).quote "]a]]" = "[]]a]]]]]" ∧
      ∃ inner, "[]]a]]]]]".toList = '[' :: (inner ++ [']']) ∧
        read ']' (inner ++ ']' :: ".b]".toList) = some ("]a]]".toList, ".b]".toList) := by
  have hquote : ({ quoteStyle := .bracket } : Dialect).quote "]a]]" = "[]]a]]]]]" := by decide
  obtain ⟨inner, hinner, hread, -⟩ :=
    (quote_selfDelimiting (d := { quoteStyle := .bracket }) .bracket).1 "]a]]"
  rw [hquote] at hinner
  exact ⟨.bracket, hquote, inner, hinner, hread _ (by decide)⟩

end Dialect

end QueryTree
