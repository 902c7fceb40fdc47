import QueryTree.Proofs.LeafChange
import QueryTree.Proofs.SlotRendering

/-!
# Question marks and parameters

A question mark does not say which parameter it stands for. A driver goes by position: it sends the
first entry for the first mark, and so on. So two things have to fit.

The marks have to stand where the tree has its slots. To say where a mark stands, `Expr.fill` puts a
number in place of every slot of a tree; whatever the numbers are, the statement then has them in
place of the marks, one after another in reading order (`Marks.fills`). The renderer takes no notice
of the exchange, since it happens at the leaves (`leafChange_fill`).

And the entries have to be those of the marks. A constant has an entry of its own, but a parameter
has one for all its uses, at its first (`withEntry`). So the entries are one for each mark just in
case no parameter is used twice (`marks_of_formats`).
-/

namespace QueryTree

/-! ### Numbers for slots -/

namespace Expr

/-- A number in place of a slot; any other node stays. -/
def fillNode (g : Slot → Int64) (e : Expr) : Expr :=
  match e.slot? with
  | some slot => const (.int (g slot)) .int64
  | none => e

/-- The tree with a number in place of every slot. -/
def fill (g : Slot → Int64) (e : Expr) : Expr := e.transformUp (fillNode g)

section Fill

variable {g : Slot → Int64} {e : Expr}

theorem fill_of_isLeaf_eq_false (he : e.isLeaf = false) : e.fill g = e.mapChildren (fill g) := by
  rw [fill, transformUp_eq]
  cases e <;> first | rfl | cases he

theorem fill_of_isLeaf (he : e.isLeaf = true) : e.fill g = e.fillNode g := by
  cases e <;> first | rfl | cases he

theorem fill_of_slot (he : e.isLeaf = true) {slot : Slot} (h : e.slot? = some slot) :
    e.fill g = const (.int (g slot)) .int64 := by
  rw [fill_of_isLeaf he, fillNode, h]

theorem fill_of_not_slot (he : e.isLeaf = true) (h : e.slot? = none) : e.fill g = e := by
  rw [fill_of_isLeaf he, fillNode, h]

/-- A leaf stays a leaf. -/
theorem isLeaf_fill (he : e.isLeaf = true) : (e.fill g).isLeaf = true := by
  cases hslot : e.slot? with
  | some slot =>
    rw [fill_of_slot he hslot]
    rfl
  | none =>
    rw [fill_of_not_slot he hslot]
    exact he

end Fill

end Expr

/-- The text of the number for a slot. -/
def fillText (g : Slot → Int64) (slot : Slot) : String := toString (g slot).toInt

/-- The number for a slot, as text. -/
def Token.fill (g : Slot → Int64) : Token → Token
  | .text s => .text s
  | .slot s => .text (fillText g s)

namespace Sql

open Attempt

variable {d : Dialect}

/-- What cannot stand in a statement has no slot. -/
theorem slot?_of_literal_eq_error {v : Value} {t : LogicalType} {error : QueryError}
    (h : literal v t = .error error) : (Expr.const v t).slot? = none := by
  cases v with
  | float x =>
    dsimp only [literal] at h
    split_ifs at h
  | record | list | rows | source | provider => rfl
  | _ => cases h

/-- A literal is filled as its token is. -/
theorem literal_fill (g : Slot → Int64) (bare : Option String) (v : Value) (t : LogicalType) :
    Follows (fun _ _ => True) (List.map (Token.fill g)) (literal v t)
      (scalar d bare ((Expr.const v t).fill g)) := by
  cases h : literal v t with
  | ok ts =>
    rcases literal_cases h with ⟨w, _, rfl, hslot⟩ | ⟨rfl, hslot⟩
    · rw [Expr.fill_of_not_slot rfl hslot, scalar, h]
      exact .ok (word w)
    · rw [Expr.fill_of_slot rfl hslot]
      exact .ok [Token.slot (.constant v t)]
  | error error =>
    rw [Expr.fill_of_not_slot rfl (slot?_of_literal_eq_error h), scalar, h]
    exact .error trivial

/-- A slot is no table, and neither is a number. -/
theorem scanItem_fill (g : Slot → Int64) (qualifier : String) {e : Expr} (he : e.isLeaf = true) :
    Follows (fun _ _ => True) (List.map (Token.fill g)) (scanItem d e qualifier)
      (scanItem d (e.fill g) qualifier) := by
  cases hslot : e.slot? with
  | some slot =>
    rw [Expr.fill_of_slot he hslot]
    cases e with
    | const v t => cases v <;> first | exact .error trivial | cases hslot
    | param => exact .error trivial
    | _ => cases he
  | none =>
    rw [Expr.fill_of_not_slot he hslot]
    cases e with
    | const v t => cases v <;> first | exact .error trivial | exact .ok (word _)
    | param => cases hslot
    | _ => cases he

/-- Numbers for slots change a tree at its leaves. Where the renderer fails, it fails on both trees,
and says of a table that is none what it is instead. -/
theorem leafChange_fill (g : Slot → Int64) :
    LeafChange d (fun _ _ => True) (Expr.fill g) (Token.fill g) where
  text _ := rfl
  inner _ he := Expr.fill_of_isLeaf_eq_false he
  leaf _ he := Expr.isLeaf_fill he
  scalar e bare he := by
    cases e with
    | const v t => exact literal_fill g bare v t
    | param name t => exact .ok [Token.slot (.named name t)]
    | _ => cases he
  scanItem _ qualifier he := scanItem_fill g qualifier he
  same _ := trivial
  kind _ _ := trivial

end Sql

/-! ### The text -/

/-- The text with its question marks replaced, from left to right, by other texts. -/
def fillMarks : List String → List Char → List Char
  | _, [] => []
  | texts, c :: rest =>
    if c = '?' then (texts.headD "?").toList ++ fillMarks texts.tail rest
    else c :: fillMarks texts rest

/-- Text without question marks stays. -/
theorem fillMarks_append {cs : List Char} (h : '?' ∉ cs) (texts : List String) (rest : List Char) :
    fillMarks texts (cs ++ rest) = cs ++ fillMarks texts rest := by
  induction cs with
  | nil => rfl
  | cons c cs ih =>
    obtain ⟨hc, hcs⟩ := not_or.1 (fun hmem => h (List.mem_cons.2 hmem))
    rw [List.cons_append, fillMarks, if_neg (Ne.symm hc), ih hcs]
    rfl

namespace Sql

/-- No piece of text has the mark in it. -/
def TextAvoids (mark : Char) (ts : Sql) : Prop := ∀ s, Token.text s ∈ ts → mark ∉ s.toList

section TextAvoids

variable {mark : Char} {a b : Sql}

/-- Two texts without the mark have none together. -/
theorem TextAvoids.append (ha : TextAvoids mark a) (hb : TextAvoids mark b) :
    TextAvoids mark (a ++ b) := by
  intro s hs
  exact (List.mem_append.1 hs).elim (ha s) (hb s)

/-- A word avoids the mark if its characters do. -/
theorem textAvoids_word {w : String} (hw : mark ∉ w.toList) : TextAvoids mark (word w) := by
  intro s hs
  obtain rfl := Token.text.inj (List.mem_singleton.1 hs)
  exact hw

/-- A slot is no text, whatever its placeholder will be. -/
theorem textAvoids_slot (s : Slot) : TextAvoids mark [.slot s] := by
  intro w hw
  cases List.mem_singleton.1 hw

/-- Parentheses are no marks. -/
theorem TextAvoids.operand (hmark : isMark mark = true) (ha : TextAvoids mark a) (e : Expr) :
    TextAvoids mark (operand e a) := by
  cases e with
  | binary =>
    exact ((textAvoids_word (not_mem_of_any hmark rfl)).append ha).append
      (textAvoids_word (not_mem_of_any hmark rfl))
  | _ => exact ha

/-- Where no name has the mark, no text between the slots has it. -/
theorem Assembled.textAvoids (hmark : isMark mark = true) {d : Dialect} {ts : Sql} {l : List Expr}
    (h : Assembled d (Expr.LabelsAvoid mark) ts l) : TextAvoids mark ts := by
  induction h with
  | nil => exact fun _ hs => absurd hs List.not_mem_nil
  | literal h =>
    rcases literal_cases h with ⟨w, hw, rfl, _⟩ | ⟨rfl, _⟩
    · exact textAvoids_word (hw.not_mem hmark)
    · exact textAvoids_slot _
  | param => exact textAvoids_slot _
  | @sign _ e _ _ _ _ _ _ ih =>
    exact (textAvoids_word (not_mem_of_any hmark rfl)).append (ih.operand hmark e)
  | opening hw _ ih => exact (textAvoids_word (hw.not_mem hmark)).append ih
  | divider hw _ _ iha ihb =>
    exact (iha.append (textAvoids_word (hw.not_mem hmark))).append ihb

end TextAvoids

section Question

variable {d : Dialect} (hd : d.placeholderStyle = .question) {ts : Sql}

include hd

/-- A slot is one question mark, and enters its value if it has to. -/
theorem chars_slot_of_question (ps : List CommandParameter) (s : Slot) (ts : Sql) :
    chars d ps (.slot s :: ts) = '?' :: chars d (Command.enter ps s).1 ts := by
  rw [chars, Dialect.placeholder, hd]
  simp [PlaceholderStyle.text]

/-- The text has one mark for each slot. -/
theorem count_chars (h : TextAvoids '?' ts) (ps : List CommandParameter) :
    (chars d ps ts).count '?' = ts.slots.length := by
  induction ts generalizing ps with
  | nil => rfl
  | cons token ts ih =>
    have ih := ih fun s hs => h s (List.mem_cons_of_mem _ hs)
    cases token with
    | text s =>
      rw [chars, List.count_append, List.count_eq_zero_of_not_mem (h s List.mem_cons_self),
        Nat.zero_add, ih]
      rfl
    | slot s =>
      rw [chars_slot_of_question hd, List.count_cons_self, ih]
      rfl

/-- With numbers for its slots, the text has these in place of its marks. -/
theorem fillMarks_chars (h : TextAvoids '?' ts) (g : Slot → Int64)
    (ps ps' : List CommandParameter) :
    fillMarks (ts.slots.map (fillText g)) (chars d ps ts) =
      chars d ps' (ts.map (Token.fill g)) := by
  induction ts generalizing ps with
  | nil => rfl
  | cons token ts ih =>
    have ih := ih fun s hs => h s (List.mem_cons_of_mem _ hs)
    cases token with
    | text s =>
      have hslots : slots (.text s :: ts) = slots ts := rfl
      rw [hslots, chars, fillMarks_append (h s List.mem_cons_self), ih]
      rfl
    | slot s =>
      have hslots : slots (.slot s :: ts) = s :: slots ts := rfl
      rw [hslots, chars_slot_of_question hd, List.map_cons, fillMarks, if_pos rfl, List.tail_cons,
        ih]
      rfl

end Question

/-- No slot is left after filling. -/
theorem slots_map_fill (g : Slot → Int64) (ts : Sql) : slots (ts.map (Token.fill g)) = [] := by
  rw [slots, List.filterMap_map, List.filterMap_eq_nil_iff]
  intro token _
  cases token <;> rfl

end Sql

/-! ### The entries -/

/-- The name of a parameter. -/
def Slot.name? : Slot → Option String
  | .named name _ => some name
  | .constant .. => none

theorem filterMap_name?_named (name : String) (type : LogicalType) (rest : List Slot) :
    (Slot.named name type :: rest).filterMap Slot.name? = name :: rest.filterMap Slot.name? := rfl

/-- The slots with an entry of their own: every constant, and the first use of each parameter that
has not been seen. -/
def withEntry (seen : List String) : List Slot → List Slot
  | [] => []
  | .constant value type :: rest => .constant value type :: withEntry seen rest
  | .named name type :: rest =>
    if name ∈ seen then withEntry seen rest else .named name type :: withEntry (name :: seen) rest

/-- The slots with an entry keep their order. -/
theorem withEntry_sublist (seen : List String) (slots : List Slot) :
    (withEntry seen slots).Sublist slots := by
  fun_induction withEntry seen slots with
  | case1 => exact .slnil
  | case2 seen value type rest ih => exact ih.cons_cons _
  | case3 seen name type rest _ ih => exact ih.cons _
  | case4 seen name type rest _ ih => exact ih.cons_cons _

/-- Nothing is left out just in case all names are new and different. -/
theorem withEntry_eq_self_iff (seen : List String) (slots : List Slot) :
    withEntry seen slots = slots ↔
      (slots.filterMap Slot.name?).Nodup ∧ ∀ name ∈ slots.filterMap Slot.name?, name ∉ seen := by
  fun_induction withEntry seen slots with
  | case1 => simp
  | case2 seen value type rest ih =>
    rw [List.filterMap_cons_none rfl, ← ih, List.cons.injEq, and_iff_right rfl]
  | case3 seen name type rest hseen ih =>
    have hshort : withEntry seen rest ≠ .named name type :: rest := by
      intro heq
      have hlength := (withEntry_sublist seen rest).length_le
      rw [heq, List.length_cons] at hlength
      omega
    refine iff_of_false hshort fun h => ?_
    rw [filterMap_name?_named] at h
    exact h.2 name List.mem_cons_self hseen
  | case4 seen name type rest hseen ih =>
    rw [filterMap_name?_named, List.cons.injEq, and_iff_right rfl, ih, List.nodup_cons,
      List.forall_mem_cons]
    grind

namespace Command

open Attempt

/-- The names are those of the entries without a value. -/
def Awaits (ps : List CommandParameter) (seen : List String) : Prop :=
  ∀ name, name ∈ seen ↔ ∃ p ∈ ps, p.name = name ∧ p.value = none

theorem awaits_nil : Awaits [] [] := by
  intro name
  simp

section Awaits

variable {ps : List CommandParameter} {seen : List String} (h : Awaits ps seen) {name : String}
  (type : LogicalType)

include h

/-- A name is entered already exactly if it has been seen. -/
theorem Awaits.position?_eq_none_iff : position? ps name = none ↔ name ∉ seen := by
  rw [position?, List.findIdx?_eq_none_iff, h name]
  simp [Option.isSome_iff_ne_none]

/-- A parameter that has been seen is not entered again. -/
theorem Awaits.enter_of_mem (hseen : name ∈ seen) : (enter ps (.named name type)).1 = ps := by
  cases hposition : position? ps name with
  | some i => simp [enter, hposition]
  | none => exact absurd hseen (h.position?_eq_none_iff.1 hposition)

/-- A parameter is entered at its first use. -/
theorem Awaits.enter_of_not_mem (hseen : name ∉ seen) :
    (enter ps (.named name type)).1 = ps ++ [⟨name, type, none⟩] := by
  simp [enter, h.position?_eq_none_iff.2 hseen]

/-- An entry for a constant waits for no value. -/
theorem Awaits.append_constant (entry : CommandParameter) (hvalue : entry.value.isSome = true) :
    Awaits (ps ++ [entry]) seen := by
  intro name
  have hentry : entry.value ≠ none := Option.isSome_iff_ne_none.1 hvalue
  simp [h name, or_and_right, exists_or, hentry]

/-- A parameter that is entered waits for its value. -/
theorem Awaits.append_named : Awaits (ps ++ [⟨name, type, none⟩]) (name :: seen) := by
  intro name'
  simp [h name', or_and_right, exists_or, or_comm, eq_comm]

end Awaits

/-- A run over slots adds an entry for each that has one of its own. By induction on the slots.
`seen` are the names that have an entry already; constants and names that are not yet seen add one.
-/
theorem entries_eq_append {ps : List CommandParameter} {seen : List String} (h : Awaits ps seen)
    (slots : List Slot) :
    ∃ added, entries ps slots = ps ++ added ∧
      List.Forall₂ CommandParameter.Carries added (withEntry seen slots) := by
  induction slots generalizing ps seen with
  | nil => exact ⟨[], (List.append_nil ps).symm, .nil⟩
  | cons slot rest ih =>
    cases slot with
    | constant value type =>
      let entry : CommandParameter := ⟨constantName ps, type, some value⟩
      obtain ⟨added, hadded, hcarries⟩ := ih (h.append_constant entry rfl)
      refine ⟨entry :: added, ?_, .cons ⟨rfl, rfl⟩ hcarries⟩
      exact hadded.trans (List.append_assoc ..)
    | named name type =>
      by_cases hseen : name ∈ seen
      · have hsame := h.enter_of_mem type hseen
        obtain ⟨added, hadded, hcarries⟩ := ih h
        rw [withEntry, if_pos hseen]
        refine ⟨added, ?_, hcarries⟩
        rw [← hadded]
        exact congrArg (entries · rest) hsame
      · have hnew := h.enter_of_not_mem type hseen
        obtain ⟨added, hadded, hcarries⟩ := ih (h.append_named type)
        rw [withEntry, if_neg hseen]
        refine ⟨⟨name, type, none⟩ :: added, ?_, .cons ⟨rfl, rfl⟩ hcarries⟩
        rw [List.append_assoc, List.singleton_append] at hadded
        rw [← hadded]
        exact congrArg (entries · rest) hnew

/-! ### Commands -/

variable {d : Dialect} {es : List Expr} {c : Command}

/-- Every question mark in the text of the command stands for a slot of the trees, in reading order,
and every slot has one. Where numbers are put for the slots, they stand in the text in place of the
marks, and nothing else of it changes. -/
structure Marks (d : Dialect) (es : List Expr) (c : Command) : Prop where
  count : c.sql.toList.count '?' = (es.flatMap Expr.places).length
  perm : (es.flatMap Expr.places).Perm (es.flatMap Expr.slots)
  fills : ∀ g : Slot → Int64, ∃ filled, Formats d (es.map (Expr.fill g)) filled ∧
    filled.parameters = [] ∧
    filled.sql.toList = fillMarks ((es.flatMap Expr.places).map (fillText g)) c.sql.toList

/-- No parameter is used twice, in one tree or in two. -/
def EachOnce (es : List Expr) : Prop := ((es.flatMap Expr.slots).filterMap Slot.name?).Nodup

/-- In reading order there are the same slots as in the trees. -/
theorem flatMap_places_perm (es : List Expr) :
    (es.flatMap Expr.places).Perm (es.flatMap Expr.slots) :=
  List.Perm.flatMap (.refl es) fun e _ => e.places_perm

/-- Every place has an entry of its own exactly if no parameter is used twice. -/
theorem withEntry_places_iff (es : List Expr) :
    withEntry [] (es.flatMap Expr.places) = es.flatMap Expr.places ↔ EachOnce es := by
  rw [withEntry_eq_self_iff, EachOnce, ← ((flatMap_places_perm es).filterMap Slot.name?).nodup_iff]
  simp

/-- A command for the trees with numbers in place of slots is written from the same tokens, with
numbers in place of slots. -/
theorem formats_fill (g : Slot → Int64) {statements : List Sql}
    (hmany : es.length ≤ 1 ∨ d.multipleStatements = true)
    (h : es.mapM (Sql.statement d) = .ok statements) :
    Formats d (es.map (Expr.fill g))
      (ofTokens d ((Sql.separated ";\n" statements).map (Token.fill g))) := by
  have hchange := Sql.leafChange_fill (d := d) g
  have hfollows := Follows.mapM (l := es) fun e _ => hchange.statement_follows e
  refine formats_iff.2 (ofBatch_eq_ok_iff.2 ⟨?_, _, hfollows.eq_ok h, ?_⟩)
  · rw [List.length_map]
    exact hmany
  · rw [Sql.map_separated hchange.text]

/-- In a dialect with question marks, the marks stand for the slots of the trees in reading order.
The parameters are the entries of those slots that have one of their own, and so they are one for
each mark, in the same order, just in case no parameter is used twice. -/
theorem marks_of_formats (hd : d.placeholderStyle = .question)
    (hes : ∀ e ∈ es, e.isFreeOf '?' = true) (h : Formats d es c) :
    Marks d es c ∧
      List.Forall₂ CommandParameter.Carries c.parameters (withEntry [] (es.flatMap Expr.places)) ∧
      (List.Forall₂ CommandParameter.Carries c.parameters (es.flatMap Expr.places) ↔
        EachOnce es) ∧
      (c.parameters.length = c.sql.toList.count '?' ↔ EachOnce es) := by
  obtain ⟨hmany, statements, hstatements, rfl⟩ := ofBatch_eq_ok_iff.1 (formats_iff.1 h)
  have hassembled := statements_assembled (fun e he => Expr.all_of_isFreeOf (hes e he)) hstatements
  have hfills := fun g => formats_fill (d := d) g hmany hstatements
  generalize Sql.separated ";\n" statements = ts at hassembled hfills ⊢
  have hslots : ts.slots = es.flatMap Expr.places :=
    hassembled.slots_eq.trans (filterMap_reading es)
  have hfree := hassembled.textAvoids rfl
  obtain ⟨hsql, hparameters⟩ := ofTokens_chars d ts
  have hcount : (ofTokens d ts).sql.toList.count '?' = (es.flatMap Expr.places).length := by
    rw [hsql, Sql.count_chars hd hfree, hslots]
  have hentries : List.Forall₂ CommandParameter.Carries (ofTokens d ts).parameters
      (withEntry [] (es.flatMap Expr.places)) := by
    obtain ⟨added, hadded, hcarries⟩ := entries_eq_append awaits_nil ts.slots
    rw [hparameters, hadded, ← hslots]
    exact hcarries
  have hlength : (ofTokens d ts).parameters.length = (ofTokens d ts).sql.toList.count '?' ↔
      EachOnce es := by
    rw [hentries.length_eq, hcount, (withEntry_sublist _ _).length_eq, withEntry_places_iff]
  refine ⟨⟨hcount, flatMap_places_perm es, fun g => ?_⟩, hentries,
    ⟨fun hall => ?_, fun honce => ?_⟩, hlength⟩
  · obtain ⟨hfilled, hnone⟩ := ofTokens_chars d (ts.map (Token.fill g))
    refine ⟨_, hfills g, ?_, ?_⟩
    · rw [hnone, Sql.slots_map_fill]
      rfl
    · rw [hfilled, hsql, ← hslots, Sql.fillMarks_chars hd hfree g [] []]
  · exact hlength.1 (hall.length_eq.trans hcount.symm)
  · rw [← (withEntry_places_iff es).2 honce]
    exact hentries

/-- A dialect with question marks that takes several statements at once. -/
def questioning : Dialect := { placeholderStyle := .question, multipleStatements := true }

/-- The tasks of an owner. -/
def tasksOfOwner : Expr :=
  .filter (Expr.mkScan (.source ⟨"task", none⟩) "t")
    (Expr.mkBinary .eq (.column "t" "owner" .int64) (.param "owner" .int64))

/-- The command of two statements with a parameter each, and a constant between them. -/
def bobsAndTasks : Command where
  sql := "SELECT u.age + ? AS later FROM users AS u WHERE u.name = ?;\n" ++
    "SELECT * FROM task AS t WHERE t.owner = ?"
  parameters :=
    [⟨"years", .int64, none⟩, ⟨"_c0", .string, some (.text "bob")⟩, ⟨"owner", .int64, none⟩]

/-- The text and the entries of the two statements. -/
theorem ofBatch_bobsAndTasks :
    ofBatch questioning [agesOfBobs, tasksOfOwner] = .ok bobsAndTasks := by
  have hages := Sql.query_over_table (d := questioning) (e := agesOfBobs) rfl rfl
  have htasks := Sql.query_over_table (d := questioning) (e := tasksOfOwner) rfl rfl
  change ofStatements questioning [agesOfBobs, tasksOfOwner] = _
  rw [ofStatements_eq]
  change _ <$> [agesOfBobs, tasksOfOwner].mapM (Sql.query questioning) = _
  rw [List.mapM_cons, List.mapM_cons, hages, htasks]
  rfl

/-- There are three question marks for three entries, the constant between the parameters. -/
theorem marks_of_formats_bobsAndTasks :
    Marks questioning [agesOfBobs, tasksOfOwner] bobsAndTasks ∧
      List.Forall₂ CommandParameter.Carries bobsAndTasks.parameters
        ([agesOfBobs, tasksOfOwner].flatMap Expr.places) ∧
      bobsAndTasks.parameters.length = bobsAndTasks.sql.toList.count '?' := by
  have hfree : ∀ e ∈ [agesOfBobs, tasksOfOwner], e.isFreeOf '?' = true := by
    intro e he
    simp only [List.mem_cons, List.not_mem_nil, or_false] at he
    rcases he with rfl | rfl
    · rfl
    · rfl
  have hnames : ([agesOfBobs, tasksOfOwner].flatMap Expr.slots).filterMap Slot.name? =
      ["years", "owner"] := rfl
  have honce : EachOnce [agesOfBobs, tasksOfOwner] := by
    rw [EachOnce, hnames]
    decide
  obtain ⟨hmarks, _, hentries, hlength⟩ :=
    marks_of_formats rfl hfree (.inr ofBatch_bobsAndTasks)
  exact ⟨hmarks, hentries.2 honce, hlength.2 honce⟩

/-- Users that have a number as their age or as their score. -/
def usersWithNumber : Expr :=
  .filter (Expr.mkScan (.source ⟨"users", none⟩) "u")
    (Expr.mkBinary .or (Expr.mkBinary .eq (.column "u" "age" .int64) (.param "n" .int64))
      (Expr.mkBinary .eq (.column "u" "score" .int64) (.param "n" .int64)))

/-- The parameter is used twice and has one entry, so that nothing is left for the second mark. -/
theorem ofStatement_usersWithNumber :
    usersWithNumber.isFreeOf '?' = true ∧
      ∃ c, ofStatement questioning usersWithNumber = .ok c ∧
        c.sql = "SELECT * FROM users AS u WHERE (u.age = ?) OR (u.score = ?)" ∧
        c.sql.toList.count '?' = 2 ∧ c.parameters = [⟨"n", .int64, none⟩] := by
  refine ⟨rfl, ⟨_, _⟩, ?_, rfl, rfl, rfl⟩
  exact (ofStatement_over_table rfl rfl rfl).trans rfl

end Command

end QueryTree
