import QueryTree.Proofs.MarkFree
import QueryTree.Proofs.SlotNumbers

/-!
# Placeholders and parameters

The slots of what the renderer returns for a tree are those of the tree in the order in which its
statement is read (`Assembled.slots_eq`). Where no name has a dollar sign, every part of a statement
can stand before any text that begins with something other than a digit (`Renders`), and between two
parts there is always such a text, a break (`isBreak`).

From this and the numbering of slots follows what a driver relies on that sends a command in a
dialect with dollar signs (`Corresponds`). The placeholders in the text, from left to right, stand
for the slots of the trees in reading order, and each has the number of the entry for its slot.
-/

namespace QueryTree.Sql

variable {d : Dialect}

/-! ### Slots -/

theorem slots_append (a b : Sql) : slots (a ++ b) = slots a ++ slots b := List.filterMap_append

/-- Parentheses add no slots. -/
theorem slots_operand (e : Expr) (ts : Sql) : slots (operand e ts) = slots ts := by
  cases e with
  | binary =>
    change slots (word "(" ++ ts ++ word ")") = slots ts
    rw [slots_append, slots_append]
    exact List.append_nil _
  | _ => rfl

/-- The slots are those of the listed nodes, in their order. -/
theorem Assembled.slots_eq {Q : Expr → Prop} {ts : Sql} {l : List Expr} (h : Assembled d Q ts l) :
    ts.slots = l.filterMap Expr.slot? := by
  induction h with
  | nil => rfl
  | literal h =>
    rcases literal_cases h with ⟨w, _, rfl, hslot⟩ | ⟨rfl, hslot⟩
    · rw [List.filterMap_cons, hslot]
      rfl
    · rw [List.filterMap_cons, hslot]
      rfl
  | param => rfl
  | @sign _ e t inner l _ _ _ ih =>
    rw [slots_append, slots_operand, ih]
    rfl
  | opening _ _ ih =>
    rw [slots_append, ih]
    rfl
  | divider _ _ _ iha ihb =>
    rw [slots_append, slots_append, iha, ihb, List.filterMap_append]
    exact congrArg (· ++ _) (List.append_nil _)

/-! ### Parts of a statement -/

/-- The text has no dollar sign and does not begin with a digit. -/
def isBreak (s : String) : Bool := !hasDollar s && s.toList.head?.any (!·.isDigit)

/-- The tokens have these slots, and whatever may follow a slot may follow them. -/
structure Renders (ts : Sql) (slots : List Slot) : Prop where
  slots_eq : ts.slots = slots
  apart : ∀ rest, EndsNumber rest → Apart rest → Apart (ts ++ rest)

section Renders

variable {a b : Sql} {s t : List Slot} {w : String}

theorem hasDollar_of_isBreak (h : isBreak w = true) : hasDollar w = false := by
  simp only [isBreak, Bool.and_eq_true, Bool.not_eq_true'] at h
  exact h.1

theorem endsNumber_word (h : isBreak w = true) (rest : Sql) : EndsNumber (word w ++ rest) := by
  simp only [isBreak, Bool.and_eq_true, Option.any_eq_true, Bool.not_eq_true'] at h
  obtain ⟨c, hc, hdigit⟩ := h.2
  obtain ⟨cs, hcs⟩ := List.head?_eq_some_iff.1 hc
  exact ⟨c, cs, hcs, hdigit⟩

theorem renders_nil : Renders [] [] where
  slots_eq := rfl
  apart _ _ h := h

theorem renders_slot (slot : Slot) : Renders [.slot slot] [slot] where
  slots_eq := rfl
  apart _ hends h := ⟨hends, h⟩

/-- Two parts can stand side by side if the second may follow a slot. -/
theorem Renders.append (ha : Renders a s) (hb : Renders b t)
    (hends : ∀ rest, EndsNumber rest → EndsNumber (b ++ rest)) : Renders (a ++ b) (s ++ t) where
  slots_eq := by rw [slots_append, ha.slots_eq, hb.slots_eq]
  apart rest hrest h := by
    rw [List.append_assoc]
    exact ha.apart _ (hends rest hrest) (hb.apart rest hrest h)

/-- Text may come before slots. -/
theorem Renders.after (hw : hasDollar w = false) (hb : Renders b t) : Renders (word w ++ b) t where
  slots_eq := by rw [slots_append, hb.slots_eq]; rfl
  apart rest hrest h := ⟨hasDollar_eq_false_iff.1 hw, hb.apart rest hrest h⟩

/-- Text has no slots. -/
theorem renders_word (hw : hasDollar w = false) : Renders (word w) [] := renders_nil.after hw

/-- Two parts with a break between them have the slots of both. -/
theorem Renders.between (ha : Renders a s) (hw : isBreak w = true) (hb : Renders b t) :
    Renders (a ++ word w ++ b) (s ++ t) := by
  rw [List.append_assoc]
  refine ha.append (hb.after (hasDollar_of_isBreak hw)) ?_
  intro rest _
  rw [List.append_assoc]
  exact endsNumber_word hw _

/-- Parentheses keep the slots. -/
theorem Renders.operand (ha : Renders a s) (e : Expr) : Renders (operand e a) s := by
  cases e with
  | binary =>
    have h := Renders.between (ha.after (w := "(") rfl) (w := ")") rfl renders_nil
    rw [List.append_nil, List.append_nil] at h
    exact h
  | _ => exact ha

end Renders

/-- What stands between two parts is a break. -/
theorem Divider.isBreak {w : String} (h : Divider d (Expr.LabelsAvoid '$') w) :
    isBreak w = true := by
  have hdollar : hasDollar w = false := hasDollar_eq_false_iff.2 (h.not_mem rfl)
  have hhead : w.toList.head?.any (!·.isDigit) = true := by
    cases h with
    | keyword h =>
      have hwords : dividers.all (fun w => w.toList.head?.any (!·.isDigit)) = true := rfl
      exact List.all_eq_true.1 hwords w h
    | operator op => rw [String.toList_append, String.toList_append]; rfl
    | join kind => rw [String.toList_append, String.toList_append]; rfl
    | setOp op all => cases op <;> cases all <;> rfl
    | column hn => rw [String.toList_append]; rfl
    | relation hq => rw [String.toList_append]; rfl
  rw [Sql.isBreak, hdollar, hhead]
  rfl

/-- Where no name has a dollar sign, tokens that are put together can stand before a break. -/
theorem Assembled.renders {ts : Sql} {l : List Expr}
    (h : Assembled d (Expr.LabelsAvoid '$') ts l) : Renders ts (l.filterMap Expr.slot?) := by
  induction h with
  | nil => exact renders_nil
  | literal h =>
    rcases literal_cases h with ⟨w, hw, rfl, hslot⟩ | ⟨rfl, hslot⟩
    · rw [List.filterMap_cons, hslot]
      exact renders_word (hasDollar_eq_false_iff.2 (hw.not_mem rfl))
    · rw [List.filterMap_cons, hslot]
      exact renders_slot _
  | param => exact renders_slot _
  | @sign _ e _ _ _ _ _ _ ih => exact (ih.operand e).after rfl
  | opening hw _ ih => exact ih.after (hasDollar_eq_false_iff.2 (hw.not_mem rfl))
  | divider hw _ _ iha ihb =>
    rw [List.filterMap_append]
    exact iha.between hw.isBreak ihb

end QueryTree.Sql

/-! ### Commands -/

namespace QueryTree.Command

variable {d : Dialect} {es : List Expr} {c : Command}

/-- The slots among what trees contribute are their places. -/
theorem filterMap_reading (es : List Expr) :
    (es.flatMap Expr.reading).filterMap Expr.slot? = es.flatMap Expr.places := by
  rw [List.filterMap_flatMap]
  exact List.flatMap_congr fun e _ => e.places_eq_filterMap.symm

/-- A command is written from tokens with the slots of its trees in reading order. -/
theorem Formats.tokens (h : Formats d es c) (hes : ∀ e ∈ es, e.isDollarFree = true) :
    ∃ ts, c = ofTokens d ts ∧ Sql.Renders ts (es.flatMap Expr.places) := by
  have hall : ∀ e ∈ es, e.All (Expr.LabelsAvoid '$') := by
    intro e he
    apply Expr.all_of_isFreeOf
    rw [Expr.isFreeOf_dollar, hes e he]
  obtain ⟨ts, hc, hassembled⟩ := h.assembled hall
  refine ⟨ts, hc, ?_⟩
  rw [← filterMap_reading]
  exact hassembled.renders

/-- The placeholders in the text of a command fit its parameters and the slots of the trees that it
was written from. -/
structure Corresponds (es : List Expr) (c : Command) : Prop where
  numbered : Numbered c.parameters (placeholders c.sql.toList)
  stands : List.Forall₂ (StandsFor c.parameters) (es.flatMap Expr.places)
    (placeholders c.sql.toList)

/-- In a dialect with dollar signs, the placeholders of a command count its parameters through, and
each stands for the slot of the tree at its place: all slots of the trees, in reading order. -/
theorem corresponds_of_formats (hd : d.placeholderStyle = .dollar)
    (hes : ∀ e ∈ es, e.isDollarFree = true) (h : Formats d es c) :
    Corresponds es c ∧ (es.flatMap Expr.places).Perm (es.flatMap Expr.slots) := by
  obtain ⟨ts, rfl, hrenders⟩ := h.tokens hes
  have hapart : Sql.Apart ts := by
    have hend := hrenders.apart [] trivial trivial
    rw [List.append_nil] at hend
    exact hend
  obtain ⟨hnumbered, hstands⟩ := placeholders_ofTokens hd hapart
  rw [hrenders.slots_eq] at hstands
  refine ⟨⟨hnumbered, hstands⟩, ?_⟩
  exact List.Perm.flatMap (.refl es) fun e _ => e.places_perm

/-- The ages of the users called bob, some years from now. The parameter stands above the constant
in the tree. -/
def agesOfBobs : Expr :=
  .project "p"
    (.filter (Expr.mkScan (.source ⟨"users", none⟩) "u")
      (Expr.mkBinary .eq (.column "u" "name" .string) (.const (.text "bob") .string)))
    [⟨"later", Expr.mkBinary .plus (.column "u" "age" .int64) (.param "years" .int64)⟩] false []

/-- Users above an age. -/
def olderUsers : Expr :=
  .filter (Expr.mkScan (.source ⟨"users", none⟩) "u")
    (Expr.mkBinary .gt (.column "u" "age" .int64) (.param "years" .int64))

/-- The command of both in one batch. -/
def bobsAndOlder : Command where
  sql := "SELECT u.age + $1 AS later FROM users AS u WHERE u.name = $2;\n" ++
    "SELECT * FROM users AS u WHERE u.age > $1"
  parameters := [⟨"years", .int64, none⟩, ⟨"_c0", .string, some (.text "bob")⟩]

/-- A dialect that takes several statements at once. -/
def batching : Dialect := { multipleStatements := true }

/-- The text and the entries of the two statements. -/
theorem ofBatch_bobsAndOlder :
    ofBatch batching [agesOfBobs, olderUsers] = .ok bobsAndOlder := by
  have hages := Sql.query_over_table (d := batching) (e := agesOfBobs) rfl rfl
  have holder := Sql.query_over_table (d := batching) (e := olderUsers) rfl rfl
  change ofStatements batching [agesOfBobs, olderUsers] = _
  rw [ofStatements_eq]
  change _ <$> [agesOfBobs, olderUsers].mapM (Sql.query batching) = _
  rw [List.mapM_cons, List.mapM_cons, hages, holder]
  rfl

/-- The parameter keeps its number in the second statement, although the constant has come between.
-/
theorem corresponds_of_formats_bobsAndOlder :
    placeholders bobsAndOlder.sql.toList = [1, 2, 1] ∧
      Corresponds [agesOfBobs, olderUsers] bobsAndOlder ∧
      ([agesOfBobs, olderUsers].flatMap Expr.places).Perm
        ([agesOfBobs, olderUsers].flatMap Expr.slots) := by
  have hfree : ∀ e ∈ [agesOfBobs, olderUsers], e.isDollarFree = true := by
    intro e he
    simp only [List.mem_cons, List.not_mem_nil, or_false] at he
    rcases he with rfl | rfl
    · rfl
    · rfl
  exact ⟨rfl, corresponds_of_formats rfl hfree (.inr ofBatch_bobsAndOlder)⟩

/-- A user beside every task, with a condition that a cross join does not have. -/
def userBesideTasks : Expr :=
  .filter
    (.join .cross (Expr.mkScan (.source ⟨"users", none⟩) "u")
      (Expr.mkScan (.source ⟨"task", none⟩) "t")
      (some (Expr.mkBinary .eq (.column "t" "owner" .int64) (.param "id" .int64))))
    (Expr.mkBinary .eq (.column "u" "id" .int64) (.param "id" .int64))

/-- The parameter is used twice in the tree and has an entry, but only the use outside the condition
of the cross join has a placeholder. -/
theorem placeholders_userBesideTasks :
    ∃ c, ofStatement .postgres userBesideTasks = .ok c ∧
      c.sql = "SELECT * FROM users AS u CROSS JOIN task AS t WHERE u.id = $1" ∧
      c.parameters = [⟨"id", .int64, none⟩] ∧ placeholders c.sql.toList = [1] ∧
      userBesideTasks.isDollarFree = true ∧
      userBesideTasks.nodes.filterMap Expr.slot? = [.named "id" .int64, .named "id" .int64] := by
  have hquery := Sql.query_of_block (d := .postgres) (e := userBesideTasks) rfl
  have hsource : (Block.split userBesideTasks).source =
      .join .cross (Expr.mkScan (.source ⟨"users", none⟩) "u")
        (Expr.mkScan (.source ⟨"task", none⟩) "t")
        (some (Expr.mkBinary .eq (.column "t" "owner" .int64) (.param "id" .int64))) := rfl
  refine ⟨⟨_, _⟩, ?_, rfl, rfl, rfl, rfl, rfl⟩
  rw [ofStatement_eq]
  change ofTokens .postgres <$> Sql.query .postgres userBesideTasks = _
  rw [hquery, hsource, Sql.fromItem_join, Expr.mkScan, Expr.mkScan, Sql.fromItem_scan,
    Sql.fromItem_scan]
  rfl

end QueryTree.Command
