import QueryTree.Proofs.KeyExposure
import QueryTree.Sql.Command

/-!
# Placeholders

A command is written from tokens, and its text has lost where a slot was: what stood for a parameter
is a few characters among others. Between tokens and text stand `Symbol`s, the characters of the
text pieces with the slots still in place.

The text of a command that has named parameters only is its symbols one after another, where a slot
becomes the placeholder of its position in the final list of parameters (`ofTokens_text`). Where no
placeholder runs into the characters behind it, the symbols can be read back from the command
(`symbols_eq_of_ofTokens_eq`). Question marks show no position, so there the list of parameters
has to tell which parameter each of them stands for.
-/

namespace QueryTree

/-! ### Symbols -/

/-- A character of the text, or a value that stands in its place. -/
inductive Symbol where
  | char (c : Char)
  | named (name : String)
  | constant
deriving DecidableEq

/-- A letter, a digit or an underscore; characters beyond ASCII count as letters. -/
def isNameChar (c : Char) : Bool := c.isAlphanum || c == '_' || 128 ≤ c.toNat

/-- A plain identifier. -/
def isName (s : String) : Bool := !s.toList.isEmpty && s.toList.all isNameChar

/-- The first character of a placeholder. -/
def isMark (c : Char) : Bool := c == '$' || c == '?' || c == '@'

/-- No placeholder begins as a name goes on. -/
theorem isNameChar_of_isMark {c : Char} (h : isMark c = true) : isNameChar c = false := by
  simp only [isMark, Bool.or_eq_true, beq_iff_eq] at h
  rcases h with (rfl | rfl) | rfl <;> decide

theorem isNameChar_of_mem {s : String} (h : isName s = true) {c : Char} (hc : c ∈ s.toList) :
    isNameChar c = true := by
  simp only [isName, Bool.and_eq_true, List.all_eq_true] at h
  exact h.2 c hc

/-- There is no mark in a plain identifier. -/
theorem any_isMark_of_isName {s : String} (h : isName s = true) : s.toList.any isMark = false := by
  rw [List.any_eq_false]
  intro c hc hmark
  cases (isNameChar_of_mem h hc).symm.trans (isNameChar_of_isMark hmark)

namespace Symbol

/-- The symbol is a character of a name. -/
def isName : Symbol → Bool
  | char c => isNameChar c
  | _ => false

/-- The parameter that the symbol stands for. -/
def name? : Symbol → Option String
  | named name => some name
  | _ => none

end Symbol

/-- The parameters that symbols use, in the order of their uses. -/
def uses (symbols : List Symbol) : List String := symbols.filterMap Symbol.name?

/-- The symbols of a token: one for a value, and the characters of a text. -/
def Token.symbols : Token → List Symbol
  | .text s => s.toList.map .char
  | .slot (.named name _) => [.named name]
  | .slot (.constant ..) => [.constant]

/-- The characters of a text. -/
def spelled (s : String) : List Symbol := s.toList.map .char

@[simp] theorem spelled_append (s t : String) : spelled (s ++ t) = spelled s ++ spelled t := by
  rw [spelled, String.toList_append, List.map_append]
  rfl

/-- Every character of a name is one of a name. -/
theorem isName_of_mem_spelled {n : String} (hn : isName n = true) :
    ∀ s ∈ spelled n, s.isName = true := by
  intro s hs
  obtain ⟨c, hc, rfl⟩ := List.mem_map.1 hs
  exact isNameChar_of_mem hn hc

/-- Different texts have different characters. -/
theorem spelled_injective : Function.Injective spelled := by
  intro s t h
  have hchar : Function.Injective Symbol.char := fun _ _ h => Symbol.char.inj h
  exact String.toList_injective (hchar.list_map h)

@[simp] theorem uses_append (a b : List Symbol) : uses (a ++ b) = uses a ++ uses b :=
  List.filterMap_append

@[simp] theorem uses_spelled (s : String) : uses (spelled s) = [] := by
  rw [uses, spelled, List.filterMap_map]
  exact List.filterMap_eq_nil_iff.2 fun _ _ => rfl

namespace Sql

/-- The symbols of a text of tokens. -/
def symbols (s : Sql) : List Symbol := s.flatMap Token.symbols

@[simp] theorem symbols_nil : symbols [] = [] := rfl

@[simp] theorem symbols_append (a b : Sql) : symbols (a ++ b) = symbols a ++ symbols b :=
  List.flatMap_append

@[simp] theorem symbols_word (s : String) : symbols (word s) = spelled s :=
  List.flatMap_singleton ..

end Sql

/-! ### Numbering -/

/-- The names in `seen`, then the others in the order of their first use. -/
def firstUses (seen : List String) : List String → List String
  | [] => seen
  | name :: rest => firstUses (if name ∈ seen then seen else seen ++ [name]) rest

/-- Names that have been seen keep their places at the front. -/
theorem isPrefix_firstUses (seen names : List String) : seen <+: firstUses seen names := by
  induction names generalizing seen with
  | nil => exact List.prefix_rfl
  | cons name rest ih =>
    rw [firstUses]
    split
    · exact ih seen
    · exact (List.prefix_append seen [name]).trans (ih _)

/-- The names are those that were seen and those that are used. -/
theorem mem_firstUses_iff {seen names : List String} {name : String} :
    name ∈ firstUses seen names ↔ name ∈ seen ∨ name ∈ names := by
  induction names generalizing seen with
  | nil => simp [firstUses]
  | cons first rest ih =>
    rw [firstUses, ih]
    split
    next hfirst =>
      constructor
      · rintro (h | h)
        · exact .inl h
        · exact .inr (List.mem_cons_of_mem _ h)
      · rintro (h | h)
        · exact .inl h
        · rcases List.mem_cons.1 h with rfl | h
          · exact .inl hfirst
          · exact .inr h
    next => simp [or_assoc]

/-- A name keeps the position that it has. -/
theorem idxOf_firstUses {seen names : List String} {name : String} (h : name ∈ seen) :
    (firstUses seen names).idxOf name = seen.idxOf name := by
  obtain ⟨rest, hrest⟩ := isPrefix_firstUses seen names
  rw [← hrest, List.idxOf_append_of_mem h]

namespace Symbol

/-- The text of a symbol, when the parameters stand in the given order. -/
def text (d : Dialect) (names : List String) : Symbol → List Char
  | char c => [c]
  | named name => (d.placeholder (names.idxOf name + 1) name).toList
  | constant => []

/-- Plain text is written as it is. -/
theorem flatMap_text_spelled (d : Dialect) (names : List String) (s : String) :
    (spelled s).flatMap (text d names) = s.toList := by
  rw [spelled, List.flatMap_map]
  exact List.flatMap_singleton' s.toList

end Symbol

namespace Command

/-- Where no parameter has a value, a name is found at its first place among the names. -/
theorem position?_eq {ps : List CommandParameter} (h : ∀ p ∈ ps, p.value = none) (name : String) :
    position? ps name =
      if name ∈ ps.map (·.name) then some ((ps.map (·.name)).idxOf name) else none := by
  induction ps with
  | nil => rfl
  | cons p ps ih =>
    have hp : p.value = none := h p List.mem_cons_self
    have hps := ih fun q hq => h q (List.mem_cons_of_mem _ hq)
    rw [position?] at hps ⊢
    rw [List.findIdx?_cons, hp, hps]
    by_cases heq : p.name = name
    · simp [heq]
    · simp [heq, Ne.symm heq]

/-- Named tokens are written at the end of a command: each parameter that has no entry gets the next
one, and each use becomes the placeholder of its position in the final list. -/
theorem foldl_push (d : Dialect) {ts : Sql} (hts : Symbol.constant ∉ Sql.symbols ts) {c : Command}
    (hc : ∀ p ∈ c.parameters, p.value = none) :
    (ts.foldl (push d) c).parameters.map (·.name) =
        firstUses (c.parameters.map (·.name)) (uses (Sql.symbols ts)) ∧
      (ts.foldl (push d) c).sql.toList = c.sql.toList ++ (Sql.symbols ts).flatMap
        (Symbol.text d (firstUses (c.parameters.map (·.name)) (uses (Sql.symbols ts)))) := by
  induction ts generalizing c with
  | nil => simp [uses, firstUses]
  | cons token ts ih =>
    have hrest : Symbol.constant ∉ Sql.symbols ts := fun hmem => hts (List.mem_append_right _ hmem)
    cases token with
    | text s =>
      have hsymbols : Sql.symbols (.text s :: ts) = spelled s ++ Sql.symbols ts := rfl
      obtain ⟨hnames, hsql⟩ := ih hrest (c := push d c (.text s)) hc
      rw [List.foldl_cons, hsymbols, uses_append, uses_spelled, List.nil_append,
        List.flatMap_append, Symbol.flatMap_text_spelled]
      refine ⟨hnames, ?_⟩
      rw [hsql, push, String.toList_append, List.append_assoc]
    | slot slot =>
      cases slot with
      | constant value type => exact absurd List.mem_cons_self hts
      | named name type =>
        have hsymbols : Sql.symbols (.slot (.named name type) :: ts) =
            .named name :: Sql.symbols ts := rfl
        have huses : uses (.named name :: Sql.symbols ts) = name :: uses (Sql.symbols ts) := rfl
        rw [List.foldl_cons, hsymbols, huses, firstUses, List.flatMap_cons, Symbol.text]
        by_cases hmem : name ∈ c.parameters.map (·.name)
        · -- the parameter has an entry, which it keeps
          have hpush : push d c (.slot (.named name type)) =
              { c with sql := c.sql ++
                d.placeholder ((c.parameters.map (·.name)).idxOf name + 1) name } := by
            rw [push, position?_eq hc, if_pos hmem]
          obtain ⟨hnames, hsql⟩ := ih hrest (c := push d c (.slot (.named name type)))
            (by rw [hpush]; exact hc)
          rw [hpush] at hnames hsql ⊢
          rw [if_pos hmem, idxOf_firstUses hmem]
          refine ⟨hnames, ?_⟩
          rw [hsql, String.toList_append, List.append_assoc]
        · -- the parameter gets the next entry
          have hpush : push d c (.slot (.named name type)) =
              { sql := c.sql ++ d.placeholder (c.parameters.length + 1) name
                parameters := c.parameters ++ [⟨name, type, none⟩] } := by
            rw [push, position?_eq hc, if_neg hmem]
          have hvalues : ∀ p ∈ (push d c (.slot (.named name type))).parameters,
              p.value = none := by
            rw [hpush]
            exact List.forall_mem_append.2 ⟨hc, List.forall_mem_singleton.2 rfl⟩
          obtain ⟨hnames, hsql⟩ := ih hrest hvalues
          rw [hpush, List.map_append, List.map_singleton] at hnames hsql
          have hlast : name ∈ c.parameters.map (·.name) ++ [name] := by simp
          have hindex : (c.parameters.map (·.name) ++ [name]).idxOf name = c.parameters.length := by
            rw [List.idxOf_append_of_notMem hmem]
            simp
          rw [hpush, if_neg hmem, idxOf_firstUses hlast, hindex]
          refine ⟨hnames, ?_⟩
          rw [hsql, String.toList_append, List.append_assoc]

/-- Without constants, the parameters of a command are the names in the order of their first uses,
and its text puts the placeholder of that place for each use. -/
theorem ofTokens_text (d : Dialect) {ts : Sql} (hts : Symbol.constant ∉ Sql.symbols ts) :
    (ofTokens d ts).parameters.map (·.name) = firstUses [] (uses (Sql.symbols ts)) ∧
      (ofTokens d ts).sql.toList =
        (Sql.symbols ts).flatMap (Symbol.text d (firstUses [] (uses (Sql.symbols ts)))) :=
  foldl_push d hts (c := empty) fun _ hp => absurd hp List.not_mem_nil

end Command

/-! ### Reading placeholders back -/

/-- A run of elements with a property ends where the property does. -/
theorem run_unique {α : Type} {p : α → Bool} {a b r s : List α} (ha : ∀ x ∈ a, p x = true)
    (hb : ∀ x ∈ b, p x = true) (hr : ∀ x ∈ r.head?, p x = false) (hs : ∀ x ∈ s.head?, p x = false)
    (h : a ++ r = b ++ s) : a = b ∧ r = s := by
  have hstop : ∀ {l : List α}, (∀ x ∈ l.head?, p x = false) → l.takeWhile p = [] := by
    intro l hl
    cases l with
    | nil => rfl
    | cons x l => rw [List.takeWhile_cons, hl x rfl]; rfl
  have hruns := congrArg (List.takeWhile p) h
  rw [List.takeWhile_append_of_pos ha, List.takeWhile_append_of_pos hb, hstop hr, hstop hs,
    List.append_nil, List.append_nil] at hruns
  subst hruns
  exact ⟨rfl, List.append_cancel_left h⟩

/-- What follows is no part of a name. -/
def Boundary (r : List Symbol) : Prop := ∀ s ∈ r.head?, s.isName = false

/-- A character that is in no name ends one. -/
theorem boundary_cons {c : Char} (h : isNameChar c = false) (r : List Symbol) :
    Boundary (.char c :: r) := by
  intro s hs
  obtain rfl := Option.mem_some.1 hs
  exact h

/-- No character looks like the beginning of a placeholder, and no placeholder runs into what is
behind it. -/
def Separated : List Symbol → Prop
  | [] => True
  | .char c :: rest => isMark c = false ∧ Separated rest
  | .named name :: rest => isName name = true ∧ Boundary rest ∧ Separated rest
  | .constant :: _ => False

/-- There is no place for a constant in a text whose placeholders can be told apart. -/
theorem Separated.constant_notMem {a : List Symbol} (h : Separated a) : Symbol.constant ∉ a := by
  induction a with
  | nil => exact List.not_mem_nil
  | cons s a ih =>
    cases s with
    | char c => simpa using ih h.2
    | named name => simpa using ih h.2.2
    | constant => exact absurd h id

/-- Text without marks keeps the placeholders behind it apart. -/
theorem Separated.append_spelled {a : List Symbol} {s : String} (hs : s.toList.any isMark = false)
    (h : Separated a) : Separated (spelled s ++ a) := by
  unfold spelled
  generalize s.toList = cs at hs
  induction cs with
  | nil => exact h
  | cons c cs ih =>
    rw [List.any_cons, Bool.or_eq_false_iff] at hs
    exact ⟨hs.1, ih hs.2⟩

namespace PlaceholderStyle

/-- The character that placeholders of the style begin with. -/
def mark : PlaceholderStyle → Char
  | dollar => '$'
  | question => '?'
  | named => '@'

theorem isMark_mark (style : PlaceholderStyle) : isMark style.mark = true := by
  cases style <;> rfl

/-- The digits of a number are characters of a name. -/
theorem isNameChar_of_mem_toString {n : Nat} {c : Char} (h : c ∈ (toString n).toList) :
    isNameChar c = true := by
  have hdigits : (toString n).toList = Nat.toDigits 10 n := Nat.toList_repr
  rw [hdigits] at h
  have hdigit := Nat.isDigit_of_mem_toDigits (by decide) (by decide) h
  simp [isNameChar, Char.isAlphanum, hdigit]

/-- A placeholder is a mark, and then a number or a name. -/
theorem text_toList (style : PlaceholderStyle) (position : Nat) (name : String) :
    ∃ rest, (style.text position name).toList = style.mark :: rest ∧
      (isName name = true → ∀ c ∈ rest, isNameChar c = true) := by
  cases style with
  | dollar =>
    refine ⟨(toString position).toList, by simp [text, mark], fun _ c hc => ?_⟩
    exact isNameChar_of_mem_toString hc
  | question => exact ⟨[], by simp [text, mark], fun _ c hc => absurd hc List.not_mem_nil⟩
  | named =>
    exact ⟨name.toList, by simp [text, mark], fun hname c hc => isNameChar_of_mem hname hc⟩

end PlaceholderStyle

section Reading

variable {d : Dialect} {names : List String} {a b : List Symbol}

namespace Symbol

/-- A symbol with the placeholder in the place of the parameter. -/
def shown (d : Dialect) (names : List String) : Symbol → Symbol
  | named name => named (d.placeholder (names.idxOf name + 1) name)
  | s => s

end Symbol

/-- A placeholder is its mark and then characters of a name. -/
theorem text_named (d : Dialect) (names : List String) (name : String) :
    ∃ rest, (Symbol.named name).text d names = d.placeholderStyle.mark :: rest ∧
      (isName name = true → ∀ c ∈ rest, isNameChar c = true) :=
  d.placeholderStyle.text_toList (names.idxOf name + 1) name

/-- The first character tells whether it begins a placeholder. -/
theorem text_cons (d : Dialect) (names : List String) {s : Symbol} (h : Separated (s :: a)) :
    ∃ c rest, (s :: a).flatMap (Symbol.text d names) = c :: rest ∧ isMark c = s.name?.isSome ∧
      isNameChar c = s.isName := by
  cases s with
  | char c => exact ⟨c, _, rfl, h.1, rfl⟩
  | named name =>
    obtain ⟨rest, hrest, _⟩ := text_named d names name
    have hmark := d.placeholderStyle.isMark_mark
    refine ⟨_, _, by rw [List.flatMap_cons, hrest]; rfl, hmark, isNameChar_of_isMark hmark⟩
  | constant => exact absurd h id

/-- What follows a boundary in the symbols follows it in the text. -/
theorem isNameChar_head_text (ha : Separated a) (hboundary : Boundary a) :
    ∀ c ∈ (a.flatMap (Symbol.text d names)).head?, isNameChar c = false := by
  intro c hc
  cases a with
  | nil => cases hc
  | cons s a =>
    obtain ⟨c', rest, htext, _, hname⟩ := text_cons d names ha
    rw [htext] at hc
    obtain rfl := Option.mem_some.1 hc
    rw [hname]
    exact hboundary s rfl

/-- Symbols whose placeholders stand apart can be told from the text, but for parameters that have
the same placeholder. -/
theorem shown_eq_of_text_eq (ha : Separated a) (hb : Separated b)
    (h : a.flatMap (Symbol.text d names) = b.flatMap (Symbol.text d names)) :
    a.map (Symbol.shown d names) = b.map (Symbol.shown d names) := by
  induction a generalizing b with
  | nil =>
    cases b with
    | nil => rfl
    | cons s b =>
      obtain ⟨c, rest, htext, _⟩ := text_cons d names hb
      rw [htext] at h
      cases h
  | cons s a ih =>
    obtain ⟨c, rest, htext, hmark, _⟩ := text_cons d names ha
    cases b with
    | nil =>
      rw [htext] at h
      cases h
    | cons s' b =>
      obtain ⟨c', rest', htext', hmark', _⟩ := text_cons d names hb
      have hkind : s.name?.isSome = s'.name?.isSome := by
        rw [← hmark, ← hmark', (List.cons.inj (htext.symm.trans (h.trans htext'))).1]
      rw [List.flatMap_cons, List.flatMap_cons] at h
      cases s with
      | char c =>
        cases s' with
        | char c' =>
          obtain ⟨rfl, hrest⟩ := List.cons.inj h
          rw [List.map_cons, List.map_cons, ih ha.2 hb.2 hrest]
        | named name => cases hkind
        | constant => exact absurd hb id
      | named name =>
        cases s' with
        | char c => cases hkind
        | named name' =>
          obtain ⟨rest, hrest, hchars⟩ := text_named d names name
          obtain ⟨rest', hrest', hchars'⟩ := text_named d names name'
          rw [hrest, hrest'] at h
          -- both placeholders end where the characters of a name do
          obtain ⟨heq, h⟩ := run_unique (hchars ha.1) (hchars' hb.1)
            (isNameChar_head_text ha.2.2 ha.2.1) (isNameChar_head_text hb.2.2 hb.2.1)
            (List.cons.inj h).2
          have hshown : Symbol.shown d names (.named name) =
              Symbol.shown d names (.named name') := by
            have hplaceholder := hrest.trans ((congrArg _ heq).trans hrest'.symm)
            exact congrArg Symbol.named (String.toList_injective hplaceholder)
          rw [List.map_cons, List.map_cons, hshown, ih ha.2.2 hb.2.2 h]
        | constant => exact absurd hb id
      | constant => exact absurd ha id

/-- Symbols that show the same and use the same parameters are the same. The uses are needed where a
placeholder does not show which parameter it stands for. -/
theorem eq_of_shown_eq (h : a.map (Symbol.shown d names) = b.map (Symbol.shown d names))
    (huses : uses a = uses b) : a = b := by
  induction a generalizing b with
  | nil => exact (List.map_eq_nil_iff.1 h.symm).symm
  | cons s a ih =>
    cases b with
    | nil => cases h
    | cons s' b =>
      obtain ⟨hs, hrest⟩ := List.cons.inj h
      cases s with
      | char c =>
        cases s' with
        | char c' =>
          cases hs
          rw [ih hrest huses]
        | _ => cases hs
      | named name =>
        cases s' with
        | named name' =>
          obtain ⟨rfl, huses'⟩ := List.cons.inj huses
          rw [ih hrest huses']
        | _ => cases hs
      | constant =>
        cases s' with
        | constant => rw [ih hrest huses]
        | _ => cases hs

/-- The placeholders that a text shows are those of its uses, in order. -/
theorem uses_map_shown (a : List Symbol) :
    uses (a.map (Symbol.shown d names)) =
      (uses a).map fun name => d.placeholder (names.idxOf name + 1) name := by
  induction a with
  | nil => rfl
  | cons s a ih =>
    cases s with
    | named name => exact congrArg _ ih
    | _ => exact ih

end Reading

/-! ### Which parameter a placeholder stands for -/

/-- There are no more parameters than uses. -/
theorem length_firstUses_le (seen names : List String) :
    (firstUses seen names).length ≤ seen.length + names.length := by
  induction names generalizing seen with
  | nil => exact Nat.le_refl _
  | cons name rest ih =>
    rw [firstUses]
    split
    · have := ih seen
      simp only [List.length_cons]
      omega
    · have := ih (seen ++ [name])
      simp only [List.length_append, List.length_cons, List.length_nil] at this ⊢
      omega

/-- Where there are as many names as uses, no name is used twice. -/
theorem firstUses_eq_of_length {seen names : List String}
    (h : (firstUses seen names).length = seen.length + names.length) :
    firstUses seen names = seen ++ names := by
  induction names generalizing seen with
  | nil => exact (List.append_nil seen).symm
  | cons name rest ih =>
    rw [firstUses] at h ⊢
    split at h
    next hmem =>
      have := length_firstUses_le seen rest
      simp only [List.length_cons] at h
      omega
    next hmem =>
      rw [if_neg hmem, ih, List.append_assoc, List.singleton_append]
      rw [h]
      simp only [List.length_append, List.length_cons, List.length_nil]
      omega

/-- Where no name comes twice, the parameters are the uses. -/
theorem firstUses_of_nodup {seen names : List String} (h : (seen ++ names).Nodup) :
    firstUses seen names = seen ++ names := by
  induction names generalizing seen with
  | nil => exact (List.append_nil seen).symm
  | cons name rest ih =>
    have hmem : name ∉ seen := fun hmem =>
      List.disjoint_of_nodup_append h hmem List.mem_cons_self
    have hsplit : seen ++ name :: rest = seen ++ [name] ++ rest := by simp
    rw [firstUses, if_neg hmem, hsplit]
    exact ih (hsplit ▸ h)

/-- Which parameters a text with question marks uses is known when each is used once, or when there
is only one. -/
def Known (names : List String) : Prop := names.Nodup ∨ ∀ m ∈ names, ∀ n ∈ names, m = n

/-- Where the uses are known, they follow from their number and the parameters. -/
theorem eq_of_known {us vs : List String} (h : Known us) (hlength : us.length = vs.length)
    (hfirst : firstUses [] us = firstUses [] vs) : us = vs := by
  rcases h with hnodup | hsame
  · have hus : firstUses [] us = us := firstUses_of_nodup hnodup
    have hvs : firstUses [] vs = [] ++ vs := by
      refine firstUses_eq_of_length ?_
      rw [← hfirst, hus, hlength]
      simp
    rw [← hus, hfirst, hvs, List.nil_append]
  · cases us with
    | nil => exact (List.eq_nil_of_length_eq_zero hlength.symm).symm
    | cons u us =>
      have hus : ∀ m ∈ u :: us, m = u := fun m hm => hsame m hm u List.mem_cons_self
      have hvs : ∀ n ∈ vs, n = u := by
        intro n hn
        have hmem : n ∈ firstUses [] (u :: us) := by
          rw [hfirst]
          exact mem_firstUses_iff.2 (.inr hn)
        exact hus n ((mem_firstUses_iff.1 hmem).resolve_left List.not_mem_nil)
      rw [List.eq_replicate_iff.2 ⟨rfl, hus⟩, List.eq_replicate_iff.2 ⟨hlength.symm, hvs⟩]

/-- Uses that have the same placeholders and the same list of parameters are the same. A number is
the place of the parameter in the list, and a name is the parameter. Question marks show neither, so
the uses must be known from the list alone. -/
theorem eq_of_placeholders_eq {d : Dialect} {us vs : List String}
    (hknown : d.placeholderStyle = .question → Known us)
    (hfirst : firstUses [] us = firstUses [] vs)
    (h : (us.map fun name => d.placeholder ((firstUses [] us).idxOf name + 1) name) =
      vs.map fun name => d.placeholder ((firstUses [] us).idxOf name + 1) name) : us = vs := by
  have hpairs : List.Forall₂ (fun u v => d.placeholder ((firstUses [] us).idxOf u + 1) u =
      d.placeholder ((firstUses [] us).idxOf v + 1) v) us vs := by
    rw [← List.forall₂_eq_eq_eq, List.forall₂_map_left_iff, List.forall₂_map_right_iff] at h
    exact h
  cases hstyle : d.placeholderStyle with
  | question => exact eq_of_known (hknown hstyle) hpairs.length_eq hfirst
  | dollar =>
    rw [← List.forall₂_eq_eq_eq]
    refine (Attempt.forall₂_and_mem hpairs).imp fun u v huv => ?_
    obtain ⟨heq, hu, _⟩ := huv
    simp only [Dialect.placeholder, hstyle, PlaceholderStyle.text] at heq
    have hindex := OrderLifting.toString_injective ((String.append_right_inj _).1 heq)
    have hmem : u ∈ firstUses [] us := mem_firstUses_iff.2 (.inr hu)
    exact (List.idxOf_inj hmem).1 (Nat.succ.inj hindex)
  | named =>
    rw [← List.forall₂_eq_eq_eq]
    refine hpairs.imp fun u v heq => ?_
    simp only [Dialect.placeholder, hstyle, PlaceholderStyle.text] at heq
    exact (String.append_right_inj _).1 heq

/-- The symbols of a command whose parameters are named can be read back from its text and its list
of parameters. -/
theorem symbols_eq_of_ofTokens_eq {d : Dialect} {ts ts' : Sql} (hts : Separated (Sql.symbols ts))
    (hts' : Separated (Sql.symbols ts'))
    (hknown : d.placeholderStyle = .question → Known (uses (Sql.symbols ts)))
    (h : Command.ofTokens d ts = Command.ofTokens d ts') : Sql.symbols ts = Sql.symbols ts' := by
  obtain ⟨hnames, htext⟩ := Command.ofTokens_text d hts.constant_notMem
  obtain ⟨hnames', htext'⟩ := Command.ofTokens_text d hts'.constant_notMem
  have hfirst : firstUses [] (uses (Sql.symbols ts)) = firstUses [] (uses (Sql.symbols ts')) := by
    rw [← hnames, ← hnames', h]
  have hshown := shown_eq_of_text_eq hts hts' (htext.symm.trans (by rw [h, htext', hfirst]))
  refine eq_of_shown_eq hshown (eq_of_placeholders_eq hknown hfirst ?_)
  have huses := congrArg uses hshown
  rwa [uses_map_shown, uses_map_shown] at huses

end QueryTree
