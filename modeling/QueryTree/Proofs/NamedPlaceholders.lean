import QueryTree.Proofs.KeyExposure
import QueryTree.Proofs.QuestionMarks

/-!
# Named placeholders

A dialect with names marks a slot by an at sign and the name of its entry. A reader of the statement
who looks the name up among the parameters should find one value, so the names of the entries ought
to be different.

The names have two origins. A parameter has its own name, and one entry for all its uses. A constant
gets a label, made from the number of constants before it (`constantLabel`), and an entry for each
use. While the text is written, the labels that have been given out stay 0, 1, 2, … in turn
(`Labelled.enter`, `labelled_entries`), and the entries without a value stay those of the parameters
so far (`Awaits.enter`, `awaits_entries`). Neither step looks at the names of the other origin. So
two entries share a name just in case some parameter is called like a label that is given out
(`nodup_names_iff`).
-/

namespace QueryTree

namespace Sql

/-! ### Text between the slots -/

/-- The text before, between and behind the slots. -/
def pieces : Sql → List (List Char)
  | [] => [[]]
  | .text s :: rest => (pieces rest).modifyHead (s.toList ++ ·)
  | .slot _ :: rest => [] :: pieces rest

/-- Pieces of text with marks between them. -/
def weave : List (List Char) → List String → List Char
  | piece :: pieces, mark :: marks => piece ++ mark.toList ++ weave pieces marks
  | pieces, _ => pieces.flatten

/-- There is a piece of text more than there are slots. -/
theorem length_pieces (ts : Sql) : (pieces ts).length = ts.slots.length + 1 := by
  induction ts with
  | nil => rfl
  | cons token ts ih =>
    cases token with
    | text s => rw [pieces, List.length_modifyHead, ih]; rfl
    | slot s => rw [pieces, List.length_cons, ih]; rfl

/-- Text before the first piece stands before everything. -/
theorem weave_modifyHead {parts : List (List Char)} (h : parts ≠ []) (cs : List Char)
    (marks : List String) :
    weave (parts.modifyHead (cs ++ ·)) marks = cs ++ weave parts marks := by
  obtain ⟨part, parts, rfl⟩ := List.exists_cons_of_ne_nil h
  cases marks with
  | nil => exact List.append_assoc ..
  | cons mark marks => simp [weave]

/-- Text in front of the tokens stands before what they weave. -/
theorem weave_pieces_text (s : String) (ts : Sql) (marks : List String) :
    weave (pieces (.text s :: ts)) marks = s.toList ++ weave (pieces ts) marks := by
  refine weave_modifyHead ?_ s.toList marks
  rw [← List.length_pos_iff_ne_nil, length_pieces]
  exact Nat.succ_pos _

end Sql

namespace Command

/-! ### Names that are given out -/

/-- The name of the constant with a number, counted from 0. -/
def constantLabel (k : Nat) : String := "_c" ++ toString k

/-- Different constants have different labels. -/
theorem constantLabel_injective : Function.Injective constantLabel := by
  intro i j h
  have h : toString i = toString j := by
    simpa [constantLabel] using h
  exact OrderLifting.toString_injective h

/-- The names that mark slots which are written one after another. -/
def slotNames (ps : List CommandParameter) : List Slot → List String
  | [] => []
  | slot :: rest => slotName ps slot :: slotNames (enter ps slot).1 rest

/-- A slot is marked by the name of an entry that carries it. The entry is new, or it is there and
nothing is added. -/
theorem enter_slotName (ps : List CommandParameter) (slot : Slot) :
    ∃ entry, entry.name = slotName ps slot ∧ entry.Carries slot ∧
      ((enter ps slot).1 = ps ++ [entry] ∨ (enter ps slot).1 = ps ∧ entry ∈ ps) := by
  cases slot with
  | constant value type =>
    exact ⟨⟨constantName ps, type, some value⟩, rfl, ⟨rfl, rfl⟩, .inl rfl⟩
  | named name type =>
    rcases enter_cases ps (.named name type) with
      ⟨entry, hnew, hcarries, _⟩ | ⟨i, entry, hsame, hentry, _, hcarries⟩
    · refine ⟨entry, hcarries.2, hcarries, .inl ?_⟩
      rw [hnew]
    · refine ⟨entry, hcarries.2, hcarries, .inr ⟨?_, List.mem_of_getElem? hentry⟩⟩
      rw [hsame]

/-- The entry of that name carries the slot. -/
def Names (ps : List CommandParameter) (slot : Slot) (name : String) : Prop :=
  ∃ entry ∈ ps, entry.name = name ∧ entry.Carries slot

/-- In a run over slots, each is marked by the name of an entry that carries it. -/
theorem names_slotNames (ps : List CommandParameter) (slots : List Slot) :
    List.Forall₂ (Names (entries ps slots)) slots (slotNames ps slots) := by
  induction slots generalizing ps with
  | nil => exact .nil
  | cons slot rest ih =>
    refine .cons ?_ (ih (enter ps slot).1)
    obtain ⟨entry, hname, hcarries, hcases⟩ := enter_slotName ps slot
    have hentry : entry ∈ (enter ps slot).1 := by
      rcases hcases with hnew | ⟨hsame, hmem⟩
      · rw [hnew]
        exact List.mem_append_right _ List.mem_cons_self
      · rwa [hsame]
    exact ⟨entry, (isPrefix_entries _ rest).subset hentry, hname, hcarries⟩

/-- In a run over slots, each entry that is added has the name that marks one of them. -/
theorem mem_or_name_mem (ps : List CommandParameter) {slots : List Slot}
    {entry : CommandParameter} (h : entry ∈ entries ps slots) :
    entry ∈ ps ∨ entry.name ∈ slotNames ps slots := by
  induction slots generalizing ps with
  | nil => exact .inl h
  | cons slot rest ih =>
    rcases ih (enter ps slot).1 h with hmem | hname
    · obtain ⟨new, hnew, _, hcases⟩ := enter_slotName ps slot
      rcases hcases with happend | ⟨hsame, _⟩
      · rw [happend, List.mem_append, List.mem_singleton] at hmem
        refine hmem.imp_right fun heq => ?_
        rw [heq, hnew]
        exact List.mem_cons_self
      · rw [hsame] at hmem
        exact .inl hmem
    · exact .inr (List.mem_cons_of_mem _ hname)

/-! ### Labels of constants -/

/-- The entries with a value have the labels 0, 1, 2, … in turn. -/
def Labelled (ps : List CommandParameter) : Prop :=
  (ps.filter (·.value.isSome)).map (·.name) =
    (List.range (ps.countP (·.value.isSome))).map constantLabel

section Labelled

variable {ps : List CommandParameter}

theorem labelled_nil : Labelled [] := rfl

/-- A constant has one more label, and a parameter has none. The entry of a parameter has no value,
if it is not there already, so the constants and their labels stay as they are. -/
theorem Labelled.enter (h : Labelled ps) (slot : Slot) : Labelled (enter ps slot).1 := by
  cases slot with
  | constant value type =>
    let entry : CommandParameter := ⟨constantName ps, type, some value⟩
    have hfilter : (ps ++ [entry]).filter (·.value.isSome) =
        ps.filter (·.value.isSome) ++ [entry] := List.filter_append ..
    have hcount : (ps ++ [entry]).countP (·.value.isSome) = ps.countP (·.value.isSome) + 1 :=
      List.countP_append
    have henter : (Command.enter ps (.constant value type)).1 = ps ++ [entry] := rfl
    unfold Labelled
    rw [henter, hfilter, hcount, List.map_append, h, List.range_succ, List.map_append]
    rfl
  | named name type =>
    rcases enter_cases ps (.named name type) with ⟨entry, hnew, hcarries, _⟩ | ⟨i, _, hsame, _⟩
    · have hvalue : entry.value.isSome = false := by
        rw [hcarries.1]
        rfl
      have hfilter : (ps ++ [entry]).filter (·.value.isSome) = ps.filter (·.value.isSome) := by
        simp [List.filter_append, hvalue]
      have hcount : (ps ++ [entry]).countP (·.value.isSome) = ps.countP (·.value.isSome) := by
        simp [List.countP_append, hvalue]
      unfold Labelled
      rw [hnew, hfilter, hcount, h]
    · rw [hsame]
      exact h

/-- Entering slots gives constants the next labels in turn. -/
theorem labelled_entries (h : Labelled ps) (slots : List Slot) : Labelled (entries ps slots) := by
  induction slots generalizing ps with
  | nil => exact h
  | cons slot rest ih => exact ih (h.enter slot)

end Labelled

/-- There are as many entries with a value as constants have been written. -/
theorem countP_enter (ps : List CommandParameter) (slot : Slot) :
    (enter ps slot).1.countP (·.value.isSome) =
      ps.countP (·.value.isSome) + [slot].countP (·.name?.isNone) := by
  cases slot with
  | constant value type =>
    rw [enter, List.countP_append]
    rfl
  | named name type =>
    rcases enter_cases ps (.named name type) with ⟨entry, hnew, hcarries, _⟩ | ⟨i, _, hsame, _⟩
    · rw [hnew, List.countP_append, List.countP_singleton, hcarries.1]
      rfl
    · rw [hsame]
      rfl

/-- The constants among the slots are those that are entered with a value. -/
theorem countP_entries (ps : List CommandParameter) (slots : List Slot) :
    (entries ps slots).countP (·.value.isSome) =
      ps.countP (·.value.isSome) + slots.countP (·.name?.isNone) := by
  induction slots generalizing ps with
  | nil => rfl
  | cons slot rest ih =>
    have hrun : entries ps (slot :: rest) = entries (enter ps slot).1 rest := rfl
    have hsplit : ([slot] ++ rest).countP (·.name?.isNone) =
        [slot].countP (·.name?.isNone) + rest.countP (·.name?.isNone) := List.countP_append
    rw [hrun, ih, countP_enter, Nat.add_assoc, ← hsplit]
    rfl

/-! ### Names of parameters -/

/-- A parameter is awaited once it has been entered. -/
theorem Awaits.enter {ps : List CommandParameter} {seen : List String} (h : Awaits ps seen)
    (slot : Slot) : Awaits (enter ps slot).1 (slot.name?.toList ++ seen) := by
  cases slot with
  | constant value type => exact h.append_constant _ rfl
  | named name type =>
    by_cases hseen : name ∈ seen
    · rw [h.enter_of_mem type hseen]
      intro name'
      rw [← h name']
      exact ⟨fun hmem => (List.mem_cons.1 hmem).elim (fun heq => heq ▸ hseen) id,
        List.mem_cons_of_mem name⟩
    · rw [h.enter_of_not_mem type hseen]
      exact h.append_named type

/-- The entries without a value are those of the parameters that have been written. -/
theorem awaits_entries {ps : List CommandParameter} {seen : List String} (h : Awaits ps seen)
    (slots : List Slot) : Awaits (entries ps slots) (seen ++ slots.filterMap Slot.name?) := by
  induction slots generalizing ps seen with
  | nil =>
    rw [List.filterMap_nil, List.append_nil]
    exact h
  | cons slot rest ih =>
    intro name
    refine Iff.trans ?_ (ih (h.enter slot) name)
    cases slot with
    | constant value type => rfl
    | named name' type =>
      rw [filterMap_name?_named]
      simp [Slot.name?, or_left_comm]

/-! ### Entries with different names -/

/-- Entries with and without a value are each told apart by their names. -/
theorem names_perm (ps : List CommandParameter) :
    (ps.map (·.name)).Perm
      ((ps.filter (·.value.isSome)).map (·.name) ++ (ps.filter (·.value.isNone)).map (·.name)) := by
  have hperm := (List.filter_append_perm (fun p : CommandParameter => p.value.isSome) ps).map
    (·.name)
  simp only [Option.not_isSome, List.map_append] at hperm
  exact hperm.symm

/-- After a run the names of the entries are different just in case no parameter is called like one
of the labels that were given out. -/
theorem nodup_names_iff (slots : List Slot) :
    ((entries [] slots).map (·.name)).Nodup ↔
      ∀ k < slots.countP (·.name?.isNone), constantLabel k ∉ slots.filterMap Slot.name? := by
  have hlabels : Labelled (entries [] slots) := labelled_entries labelled_nil slots
  have hcount : (entries [] slots).countP (·.value.isSome) = slots.countP (·.name?.isNone) := by
    rw [countP_entries]
    exact Nat.zero_add _
  have hparameters := (numbered_run numbered_nil slots).1.names
  have hawaited (name : String) :
      name ∈ ((entries [] slots).filter (·.value.isNone)).map (·.name) ↔
        name ∈ slots.filterMap Slot.name? := by
    refine Iff.trans ?_ (awaits_entries awaits_nil slots name).symm
    simp [and_assoc, and_comm]
  unfold Labelled at hlabels
  rw [(names_perm _).nodup_iff, hlabels, hcount, List.nodup_append]
  constructor
  · rintro ⟨_, _, hdisjoint⟩ k hk hmem
    refine hdisjoint (constantLabel k) ?_ _ ((hawaited _).2 hmem) rfl
    exact List.mem_map_of_mem (List.mem_range.2 hk)
  · intro hfree
    refine ⟨List.nodup_range.map constantLabel_injective, hparameters, ?_⟩
    rintro label hlabel _ hname rfl
    obtain ⟨k, hk, rfl⟩ := List.mem_map.1 hlabel
    exact hfree k (List.mem_range.1 hk) ((hawaited _).1 hname)

end Command

/-! ### Commands -/

namespace Sql

variable {d : Dialect}

/-- In a dialect with names, the text has the names that mark the slots between its pieces. -/
theorem chars_of_named (hd : d.placeholderStyle = .named) (ps : List CommandParameter) (ts : Sql) :
    chars d ps ts = weave (pieces ts) ((Command.slotNames ps ts.slots).map ("@" ++ ·)) := by
  induction ts generalizing ps with
  | nil => rfl
  | cons token ts ih =>
    cases token with
    | text s => rw [chars, ih, weave_pieces_text]; rfl
    | slot s =>
      rw [chars, ih, Dialect.placeholder, hd]
      rfl

/-- With numbers for its slots, the text has these between the same pieces. -/
theorem chars_fill (g : Slot → Int64) (ps : List CommandParameter) (ts : Sql) :
    chars d ps (ts.map (Token.fill g)) = weave (pieces ts) (ts.slots.map (fillText g)) := by
  induction ts with
  | nil => rfl
  | cons token ts ih =>
    have hstep (s : String) : chars d ps (.text s :: ts.map (Token.fill g)) =
        s.toList ++ weave (pieces ts) ((slots ts).map (fillText g)) := by
      rw [chars, ih]
    cases token with
    | text s => exact (hstep s).trans (weave_pieces_text ..).symm
    | slot s => exact hstep (fillText g s)

end Sql

namespace Command

variable {d : Dialect} {es : List Expr} {c : Command}

/-- The slots of the trees, in reading order, are marked by names: the text of the command has an at
sign and the name where, with numbers put for the slots, it has the number. -/
structure NameMarks (d : Dialect) (es : List Expr) (c : Command) (names : List String) : Prop where
  perm : (es.flatMap Expr.places).Perm (es.flatMap Expr.slots)
  carried : List.Forall₂ (Names c.parameters) (es.flatMap Expr.places) names
  used : ∀ entry ∈ c.parameters, entry.name ∈ names
  fills : ∃ pieces : List (List Char), pieces.length = names.length + 1 ∧
    c.sql.toList = Sql.weave pieces (names.map ("@" ++ ·)) ∧
    ∀ g : Slot → Int64, ∃ filled, Formats d (es.map (Expr.fill g)) filled ∧
      filled.parameters = [] ∧
      filled.sql.toList = Sql.weave pieces ((es.flatMap Expr.places).map (fillText g))

/-- The trees use a parameter with the label of a constant of theirs. -/
def UsesLabel (es : List Expr) : Prop :=
  ∃ k < (es.flatMap Expr.slots).countP (·.name?.isNone),
    constantLabel k ∈ (es.flatMap Expr.slots).filterMap Slot.name?

/-- Without such a parameter, no label of a constant is the name of a parameter, in reading order.
-/
theorem not_usesLabel_iff (es : List Expr) :
    ¬UsesLabel es ↔ ∀ k < (es.flatMap Expr.places).countP (·.name?.isNone),
      constantLabel k ∉ (es.flatMap Expr.places).filterMap Slot.name? := by
  have hperm := flatMap_places_perm es
  unfold UsesLabel
  rw [hperm.countP_eq, not_exists]
  refine forall_congr' fun k => ?_
  rw [not_and, (hperm.filterMap Slot.name?).mem_iff]

/-- Names that are all used, and that are all those of entries, belong to one entry each just in
case the entries have different names. -/
theorem nodup_iff_count_eq_one {ps : List CommandParameter} {slots : List Slot}
    {names : List String} (hnames : List.Forall₂ (Names ps) slots names)
    (hused : ∀ entry ∈ ps, entry.name ∈ names) :
    (ps.map (·.name)).Nodup ↔ ∀ name ∈ names, (ps.map (·.name)).count name = 1 := by
  rw [List.nodup_iff_count_eq_one]
  refine forall_congr' fun name => ⟨fun h hname => ?_, fun h hname => ?_⟩
  · obtain ⟨slot, _, entry, hentry, rfl, _⟩ := Attempt.exists_rel_of_mem_right hnames hname
    exact h (List.mem_map_of_mem hentry)
  · obtain ⟨entry, hentry, rfl⟩ := List.mem_map.1 hname
    exact h (hused entry hentry)

/-- In a dialect with names, every slot is marked by the name of an entry that carries it. The
entries have different names, and every name in the text is that of one entry, just in case the
trees use no parameter with the label of a constant. -/
theorem nodup_names_of_formats (hd : d.placeholderStyle = .named) (h : Formats d es c) :
    ∃ names, NameMarks d es c names ∧
      ((c.parameters.map (·.name)).Nodup ↔
        ∀ name ∈ names, (c.parameters.map (·.name)).count name = 1) ∧
      ((c.parameters.map (·.name)).Nodup ↔ ¬UsesLabel es) := by
  obtain ⟨hmany, statements, hstatements, rfl⟩ := ofBatch_eq_ok_iff.1 (formats_iff.1 h)
  have hassembled := statements_assembled (Q := fun _ => True) (fun e _ n _ => trivial) hstatements
  have hfills := fun g => formats_fill (d := d) g hmany hstatements
  generalize Sql.separated ";\n" statements = ts at hassembled hfills ⊢
  have hslots : ts.slots = es.flatMap Expr.places :=
    hassembled.slots_eq.trans (filterMap_reading es)
  obtain ⟨hsql, hparameters⟩ := ofTokens_chars d ts
  have hnames := names_slotNames [] ts.slots
  have hused : ∀ entry ∈ entries [] ts.slots, entry.name ∈ slotNames [] ts.slots :=
    fun entry hentry => (mem_or_name_mem [] hentry).resolve_left List.not_mem_nil
  refine ⟨slotNames [] ts.slots, ⟨flatMap_places_perm es, ?_, ?_, Sql.pieces ts, ?_, ?_, ?_⟩, ?_⟩
  · rw [hparameters, ← hslots]
    exact hnames
  · rw [hparameters]
    exact hused
  · rw [Sql.length_pieces, hnames.length_eq]
  · rw [hsql, Sql.chars_of_named hd]
  · intro g
    obtain ⟨hfilled, hnone⟩ := ofTokens_chars d (ts.map (Token.fill g))
    refine ⟨_, hfills g, ?_, ?_⟩
    · rw [hnone, Sql.slots_map_fill]
      rfl
    · rw [hfilled, Sql.chars_fill, hslots]
  · rw [hparameters, not_usesLabel_iff, ← hslots]
    exact ⟨nodup_iff_count_eq_one hnames hused, nodup_names_iff ts.slots⟩

/-! ### A parameter with the label of a constant -/

/-- A dialect with names. -/
def naming : Dialect := { placeholderStyle := .named }

/-- The users called bob in a city that a parameter names. -/
def bobsOf (city : String) : Expr :=
  .filter (Expr.mkScan (.source ⟨"users", none⟩) "u")
    (Expr.mkBinary .and
      (Expr.mkBinary .eq (.column "u" "name" .string) (.const (.text "bob") .string))
      (Expr.mkBinary .eq (.column "u" "city" .string) (.param city .string)))

/-- The command for the users called bob. -/
def bobsCommand (city : String) : Command where
  sql := "SELECT * FROM users AS u WHERE (u.name = @_c0) AND (u.city = @" ++ city ++ ")"
  parameters := [⟨"_c0", .string, some (.text "bob")⟩, ⟨city, .string, none⟩]

/-- The parameter has a label, but one that no constant gets. -/
theorem nodup_names_of_formats_bobs :
    Formats naming [bobsOf "_c1"] (bobsCommand "_c1") ∧
      ∃ names, NameMarks naming [bobsOf "_c1"] (bobsCommand "_c1") names ∧
        ∀ name ∈ names, ((bobsCommand "_c1").parameters.map (·.name)).count name = 1 := by
  have hformats : Formats naming [bobsOf "_c1"] (bobsCommand "_c1") :=
    .inl ⟨_, rfl, (ofStatement_over_table rfl rfl rfl).trans rfl⟩
  have hslots : [bobsOf "_c1"].flatMap Expr.slots =
    [.constant (.text "bob") .string, .named "_c1" .string] := rfl
  have hfree : ¬UsesLabel [bobsOf "_c1"] := by
    unfold UsesLabel
    rw [hslots]
    decide
  obtain ⟨names, hmarks, hcount, hnodup⟩ := nodup_names_of_formats rfl hformats
  exact ⟨hformats, names, hmarks, hcount.1 (hnodup.2 hfree)⟩

/-- The parameter has the label of the constant, and nothing in the text tells them apart. -/
theorem ofStatement_bobsOf_label :
    ∃ c, ofStatement naming (bobsOf "_c0") = .ok c ∧
      c.sql = "SELECT * FROM users AS u WHERE (u.name = @_c0) AND (u.city = @_c0)" ∧
      c.parameters = [⟨"_c0", .string, some (.text "bob")⟩, ⟨"_c0", .string, none⟩] ∧
      ¬(c.parameters.map (·.name)).Nodup :=
  ⟨bobsCommand "_c0", (ofStatement_over_table rfl rfl rfl).trans rfl, rfl, rfl, by decide⟩

end Command

end QueryTree
