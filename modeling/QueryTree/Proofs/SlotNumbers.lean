import Mathlib.Data.List.Nodup
import QueryTree.Sql.Command

/-!
# Slots and their numbers

A dialect with dollar signs marks a slot by the number of its entry in the list of parameters, and
the numbers are given out while the text is written. Writing a slot either adds an entry or finds
one (`enter_cases`); after it the numbers used so far, without repeats, are still 1, 2, … up to the
length of the list (`Numbered.enter`). A run over many slots keeps this, and gives every slot the
number of an entry that carries it (`numbered_run`).

The numbers can be read back from the text: a placeholder is a dollar sign and the digits behind it
(`placeholders`). That finds the numbers that were given out, as long as no piece of text has a
dollar sign in it and no digit follows a slot (`Apart`, `placeholders_ofTokens`).
-/

namespace QueryTree

/-! ### Entries -/

/-- The entry is for the slot: it carries the constant, or it waits for the parameter. -/
def CommandParameter.Carries (entry : CommandParameter) : Slot → Prop
  | .constant value type => entry.value = some value ∧ entry.type = type
  | .named name _ => entry.value = none ∧ entry.name = name

/-- The number is that of an entry for the slot, counted from 1. -/
def StandsFor (ps : List CommandParameter) (slot : Slot) (n : Nat) : Prop :=
  ∃ i entry, n = i + 1 ∧ ps[i]? = some entry ∧ entry.Carries slot

/-- An entry keeps its number when others follow. -/
theorem StandsFor.mono {ps ps' : List CommandParameter} {slot : Slot} {n : Nat}
    (h : StandsFor ps slot n) (hstart : ps <+: ps') : StandsFor ps' slot n := by
  obtain ⟨i, entry, hn, hentry, hcarries⟩ := h
  obtain ⟨rest, rfl⟩ := hstart
  refine ⟨i, entry, hn, ?_, hcarries⟩
  have hi : i < ps.length := (List.getElem?_eq_some_iff.1 hentry).1
  rw [List.getElem?_append_left hi]
  exact hentry

namespace Command

/-- The parameters after a slot has been written, and the number of the slot. -/
def enter (ps : List CommandParameter) : Slot → List CommandParameter × Nat
  | .constant value type => (ps ++ [⟨constantName ps, type, some value⟩], ps.length + 1)
  | .named name type =>
    match position? ps name with
    | some i => (ps, i + 1)
    | none => (ps ++ [⟨name, type, none⟩], ps.length + 1)

/-- The name with which a slot is marked. -/
def slotName (ps : List CommandParameter) : Slot → String
  | .constant .. => constantName ps
  | .named name _ => name

/-- A slot gets an entry of its own, which is the only one without a value of its name, or it shares
the entry of its parameter. -/
theorem enter_cases (ps : List CommandParameter) (slot : Slot) :
    (∃ entry, enter ps slot = (ps ++ [entry], ps.length + 1) ∧ entry.Carries slot ∧
        (entry.value = none → ∀ p ∈ ps, p.value = none → p.name ≠ entry.name)) ∨
      ∃ i entry, enter ps slot = (ps, i + 1) ∧ ps[i]? = some entry ∧ entry.value = none ∧
        entry.Carries slot := by
  cases slot with
  | constant value type =>
    refine .inl ⟨⟨constantName ps, type, some value⟩, rfl, ⟨rfl, rfl⟩, ?_⟩
    intro hvalue
    cases hvalue
  | named name type =>
    cases hposition : position? ps name with
    | some i =>
      have henter : enter ps (.named name type) = (ps, i + 1) := by
        simp only [enter, hposition]
      obtain ⟨hi, hentry, _⟩ := List.findIdx?_eq_some_iff_getElem.1 hposition
      simp only [Bool.and_eq_true, beq_iff_eq, Option.isNone_iff_eq_none] at hentry
      obtain ⟨hname, hvalue⟩ := hentry
      exact .inr ⟨i, ps[i], henter, List.getElem?_eq_getElem hi, hvalue, hvalue, hname⟩
    | none =>
      have henter : enter ps (.named name type) =
          (ps ++ [⟨name, type, none⟩], ps.length + 1) := by
        simp only [enter, hposition]
      refine .inl ⟨⟨name, type, none⟩, henter, ⟨rfl, rfl⟩, ?_⟩
      intro _ p hp hvalue hname
      have hfree := List.findIdx?_eq_none_iff.1 hposition p hp
      simp [hvalue, hname] at hfree

/-! ### What a slot keeps -/

/-- The numbers that have been used fit the list of parameters: without repeats they count it
through, an entry with a value has been used once, and the entries without a value have different
names. -/
structure Numbered (ps : List CommandParameter) (used : List Nat) : Prop where
  numbers : used.eraseDups = List.range' 1 ps.length
  once : ∀ i entry, ps[i]? = some entry → entry.value.isSome = true → used.count (i + 1) = 1
  names : ((ps.filter (·.value.isNone)).map (·.name)).Nodup

section Numbered

variable {ps : List CommandParameter} {used : List Nat}

theorem numbered_nil : Numbered [] [] where
  numbers := rfl
  once i entry h := by simp at h
  names := List.nodup_nil

/-- The numbers that have been used are those of the entries. -/
theorem Numbered.mem_iff (h : Numbered ps used) {n : Nat} :
    n ∈ used ↔ 1 ≤ n ∧ n ≤ ps.length := by
  rw [← List.mem_eraseDups, h.numbers, List.mem_range'_1]
  omega

/-- A slot with a new entry gets the next number. The number has not been used before, so it is the
last to be met for the first time. Names stay distinct by hypothesis. -/
theorem Numbered.new (h : Numbered ps used) {entry : CommandParameter}
    (hname : entry.value = none → ∀ p ∈ ps, p.value = none → p.name ≠ entry.name) :
    Numbered (ps ++ [entry]) (used ++ [ps.length + 1]) := by
  have hnew : ps.length + 1 ∉ used := by
    intro hmem
    have := h.mem_iff.1 hmem
    omega
  refine ⟨?_, ?_, ?_⟩
  · have hkept : [ps.length + 1].removeAll used = [ps.length + 1] := by
      simp [List.removeAll, hnew]
    rw [List.eraseDups_append, hkept, h.numbers, List.length_append, List.length_singleton,
      List.range'_1_concat, Nat.add_comm 1]
    rfl
  · intro i p hp hvalue
    rw [List.count_append, List.count_singleton]
    by_cases hi : i < ps.length
    · rw [List.getElem?_append_left hi] at hp
      have hne : (ps.length + 1 == i + 1) = false := by
        rw [beq_eq_false_iff_ne]
        omega
      rw [h.once i p hp hvalue, hne]
      rfl
    · -- the new entry itself
      have hlength := (List.getElem?_eq_some_iff.1 hp).1
      rw [List.length_append, List.length_singleton] at hlength
      obtain rfl : i = ps.length := by omega
      rw [List.count_eq_zero_of_not_mem hnew]
      simp
  · by_cases hvalue : entry.value = none
    · have hentry : (ps ++ [entry]).filter (·.value.isNone) =
          ps.filter (·.value.isNone) ++ [entry] := by
        simp [List.filter_append, hvalue]
      rw [hentry, List.map_append, List.map_singleton]
      refine h.names.append (List.nodup_singleton _) ?_
      intro name hmem hsame
      obtain ⟨p, hp, rfl⟩ := List.mem_map.1 hmem
      obtain ⟨hp, hpvalue⟩ := List.mem_filter.1 hp
      exact hname hvalue p hp (by simpa using hpvalue) (List.mem_singleton.1 hsame)
    · have hentry : (ps ++ [entry]).filter (·.value.isNone) = ps.filter (·.value.isNone) := by
        simp [List.filter_append, hvalue]
      rw [hentry]
      exact h.names

/-- A slot that shares the entry of its parameter uses the number again. -/
theorem Numbered.again (h : Numbered ps used) {i : Nat} {entry : CommandParameter}
    (hentry : ps[i]? = some entry) (hvalue : entry.value = none) :
    Numbered ps (used ++ [i + 1]) := by
  have hi : i < ps.length := (List.getElem?_eq_some_iff.1 hentry).1
  refine ⟨?_, ?_, h.names⟩
  · have hused : i + 1 ∈ used := h.mem_iff.2 ⟨by omega, by omega⟩
    have hdropped : [i + 1].removeAll used = [] := by
      simp [List.removeAll, hused]
    rw [List.eraseDups_append, hdropped, h.numbers]
    simp
  · intro j p hp hpvalue
    have hne : (i + 1 == j + 1) = false := by
      rw [beq_eq_false_iff_ne]
      intro heq
      obtain rfl : i = j := by omega
      obtain rfl : entry = p := Option.some.inj (hentry.symm.trans hp)
      simp [hvalue] at hpvalue
    rw [List.count_append, List.count_singleton, h.once j p hp hpvalue, hne]
    rfl

/-- Writing a slot keeps the numbers and the entries in step. -/
theorem Numbered.enter (h : Numbered ps used) (slot : Slot) :
    Numbered (enter ps slot).1 (used ++ [(enter ps slot).2]) := by
  rcases enter_cases ps slot with ⟨entry, hnew, _, hname⟩ | ⟨i, entry, hsame, hentry, hvalue, _⟩
  · rw [hnew]
    exact h.new hname
  · rw [hsame]
    exact h.again hentry hvalue

end Numbered

/-- Entries are only added at the end. -/
theorem isPrefix_enter (ps : List CommandParameter) (slot : Slot) : ps <+: (enter ps slot).1 := by
  rcases enter_cases ps slot with ⟨entry, hnew, _⟩ | ⟨i, entry, hsame, _⟩
  · rw [hnew]
    exact List.prefix_append _ _
  · have hsame : (enter ps slot).1 = ps := congrArg Prod.fst hsame
    exact ⟨[], by rw [hsame, List.append_nil]⟩

/-- The number that a slot gets is that of an entry for it. -/
theorem standsFor_enter (ps : List CommandParameter) (slot : Slot) :
    StandsFor (enter ps slot).1 slot (enter ps slot).2 := by
  rcases enter_cases ps slot with
    ⟨entry, hnew, hcarries, _⟩ | ⟨i, entry, hsame, hentry, _, hcarries⟩
  · rw [hnew]
    exact ⟨ps.length, entry, rfl, by simp, hcarries⟩
  · rw [hsame]
    exact ⟨i, entry, rfl, hentry, hcarries⟩

/-! ### What a run keeps -/

/-- The parameters after slots have been written. -/
def entries (ps : List CommandParameter) (slots : List Slot) : List CommandParameter :=
  slots.foldl (fun ps slot => (enter ps slot).1) ps

/-- The numbers of slots that are written one after another. -/
def numbers (ps : List CommandParameter) : List Slot → List Nat
  | [] => []
  | slot :: rest => (enter ps slot).2 :: numbers (enter ps slot).1 rest

/-- Writing slots adds entries at the end. -/
theorem isPrefix_entries (ps : List CommandParameter) (slots : List Slot) :
    ps <+: entries ps slots := by
  induction slots generalizing ps with
  | nil => exact List.prefix_rfl
  | cons slot rest ih => exact (isPrefix_enter ps slot).trans (ih (enter ps slot).1)

/-- A run over slots keeps numbers and entries in step, and each number stands for its slot. -/
theorem numbered_run {ps : List CommandParameter} {used : List Nat} (h : Numbered ps used)
    (slots : List Slot) :
    Numbered (entries ps slots) (used ++ numbers ps slots) ∧
      List.Forall₂ (StandsFor (entries ps slots)) slots (numbers ps slots) := by
  induction slots generalizing ps used with
  | nil =>
    have hused : used ++ numbers ps [] = used := List.append_nil used
    rw [hused]
    exact ⟨h, .nil⟩
  | cons slot rest ih =>
    obtain ⟨hnumbered, hstands⟩ := ih (h.enter slot)
    have hsplit : used ++ numbers ps (slot :: rest) =
        used ++ [(enter ps slot).2] ++ numbers (enter ps slot).1 rest := by
      simp [numbers]
    rw [hsplit]
    have hfirst := (standsFor_enter ps slot).mono (isPrefix_entries (enter ps slot).1 rest)
    exact ⟨hnumbered, .cons hfirst hstands⟩

end Command

/-! ### Reading the numbers back -/

/-- The numbers of the placeholders in a text, from left to right: for each dollar sign the number
that the digits behind it make up, which is zero where there are none. -/
def placeholders : List Char → List Nat
  | [] => []
  | c :: rest =>
    if c = '$' then Nat.ofDigitChars 10 (rest.takeWhile Char.isDigit) 0 :: placeholders rest
    else placeholders rest

/-- Text without a dollar sign has no placeholders. -/
theorem placeholders_append {cs : List Char} (h : '$' ∉ cs) (rest : List Char) :
    placeholders (cs ++ rest) = placeholders rest := by
  induction cs with
  | nil => rfl
  | cons c cs ih =>
    obtain ⟨hc, hcs⟩ := not_or.1 (fun hmem => h (List.mem_cons.2 hmem))
    rw [List.cons_append, placeholders, if_neg (Ne.symm hc), ih hcs]

/-- A dollar sign and a number are read as that number, if no digit follows. -/
theorem placeholders_number {rest : List Char} (h : ∀ c ∈ rest.head?, c.isDigit = false) (n : Nat) :
    placeholders ('$' :: (toString n).toList ++ rest) = n :: placeholders rest := by
  have htext : (toString n).toList = Nat.toDigits 10 n := Nat.toList_repr
  have hdigits : ∀ c ∈ Nat.toDigits 10 n, c.isDigit = true :=
    fun c hc => Nat.isDigit_of_mem_toDigits (by decide) (by decide) hc
  have hdollar : '$' ∉ Nat.toDigits 10 n := by
    intro hmem
    have := hdigits '$' hmem
    simp at this
  have hstop : rest.takeWhile Char.isDigit = [] := by
    cases rest with
    | nil => rfl
    | cons c rest => rw [List.takeWhile_cons, h c rfl]; rfl
  rw [htext, List.cons_append, placeholders, if_pos rfl, placeholders_append hdollar,
    List.takeWhile_append_of_pos hdigits, hstop, List.append_nil, Nat.ofDigitChars_ten_toDigits]

namespace Sql

/-- The slots of tokens, from left to right. -/
def slots (ts : Sql) : List Slot :=
  ts.filterMap fun
    | .slot s => some s
    | .text _ => none

/-- What follows is no digit. -/
def EndsNumber : Sql → Prop
  | [] => True
  | .text s :: _ => ∃ c rest, s.toList = c :: rest ∧ c.isDigit = false
  | .slot _ :: _ => False

/-- No piece of text has a dollar sign in it, and no digit follows a slot. -/
def Apart : Sql → Prop
  | [] => True
  | .text s :: rest => '$' ∉ s.toList ∧ Apart rest
  | .slot _ :: rest => EndsNumber rest ∧ Apart rest

/-- The text of tokens in a dialect, with the placeholders that the slots get. -/
def chars (d : Dialect) (ps : List CommandParameter) : Sql → List Char
  | [] => []
  | .text s :: rest => s.toList ++ chars d ps rest
  | .slot slot :: rest =>
    (d.placeholder (Command.enter ps slot).2 (Command.slotName ps slot)).toList ++
      chars d (Command.enter ps slot).1 rest

/-- The text of tokens, with the numbers that the slots get. -/
def written (ps : List CommandParameter) : Sql → List Char
  | [] => []
  | .text s :: rest => s.toList ++ written ps rest
  | .slot slot :: rest =>
    '$' :: (toString (Command.enter ps slot).2).toList ++ written (Command.enter ps slot).1 rest

/-- The text of two parts is that of the first, and that of the second with the entries of the
first. -/
theorem chars_append (d : Dialect) (ps : List CommandParameter) (a b : Sql) :
    chars d ps (a ++ b) = chars d ps a ++ chars d (Command.entries ps a.slots) b := by
  induction a generalizing ps with
  | nil => rfl
  | cons token a ih =>
    cases token with
    | text s =>
      rw [List.cons_append, chars, chars, ih, List.append_assoc]
      rfl
    | slot slot =>
      rw [List.cons_append, chars, chars, ih, List.append_assoc]
      rfl

/-- With dollar signs, the placeholders are the numbers. -/
theorem chars_of_dollar {d : Dialect} (hd : d.placeholderStyle = .dollar)
    (ps : List CommandParameter) (ts : Sql) : chars d ps ts = written ps ts := by
  induction ts generalizing ps with
  | nil => rfl
  | cons token ts ih =>
    cases token with
    | text s => rw [chars, written, ih]
    | slot slot =>
      rw [chars, written, ih, Dialect.placeholder, hd]
      simp [PlaceholderStyle.text]

/-- The text behind a placeholder does not go on with a digit. -/
theorem isDigit_head_written {ts : Sql} (h : EndsNumber ts) (ps : List CommandParameter) :
    ∀ c ∈ (written ps ts).head?, c.isDigit = false := by
  intro c hc
  cases ts with
  | nil => cases hc
  | cons token ts =>
    cases token with
    | text s =>
      obtain ⟨first, rest, hs, hfirst⟩ := h
      rw [written, hs] at hc
      obtain rfl := Option.some.inj hc
      exact hfirst
    | slot slot => exact h.elim

/-- The numbers in the text are the numbers that were given out. -/
theorem placeholders_written {ts : Sql} (h : Apart ts) (ps : List CommandParameter) :
    placeholders (written ps ts) = Command.numbers ps ts.slots := by
  induction ts generalizing ps with
  | nil => rfl
  | cons token ts ih =>
    cases token with
    | text s =>
      obtain ⟨hs, hrest⟩ := h
      rw [written, placeholders_append hs, ih hrest]
      rfl
    | slot slot =>
      obtain ⟨hends, hrest⟩ := h
      rw [written, placeholders_number (isDigit_head_written hends _), ih hrest]
      rfl

end Sql

namespace Command

variable {d : Dialect}

/-- Writing a slot adds its placeholder and enters its value. -/
theorem push_slot (d : Dialect) (c : Command) (slot : Slot) :
    (push d c (.slot slot)).sql = c.sql ++
        d.placeholder (enter c.parameters slot).2 (slotName c.parameters slot) ∧
      (push d c (.slot slot)).parameters = (enter c.parameters slot).1 := by
  cases slot with
  | constant value type => exact ⟨rfl, rfl⟩
  | named name type =>
    cases hposition : position? c.parameters name with
    | some i => simp [push, enter, slotName, hposition]
    | none => simp [push, enter, slotName, hposition]

/-- Tokens are written at the end of a command, and their slots entered one after another. -/
theorem foldl_push_chars (d : Dialect) (ts : Sql) (c : Command) :
    (ts.foldl (push d) c).sql.toList = c.sql.toList ++ Sql.chars d c.parameters ts ∧
      (ts.foldl (push d) c).parameters = entries c.parameters ts.slots := by
  induction ts generalizing c with
  | nil => simp [Sql.chars, Sql.slots, entries]
  | cons token ts ih =>
    obtain ⟨hsql, hparameters⟩ := ih (push d c token)
    rw [List.foldl_cons]
    cases token with
    | text s =>
      refine ⟨?_, hparameters⟩
      rw [hsql]
      simp [push, Sql.chars]
    | slot slot =>
      obtain ⟨htext, hentered⟩ := push_slot d c slot
      refine ⟨?_, ?_⟩
      · rw [hsql, htext, hentered, String.toList_append, List.append_assoc]
        rfl
      · rw [hparameters, hentered]
        rfl

/-- The text and the parameters of a command are those of its tokens. -/
theorem ofTokens_chars (d : Dialect) (ts : Sql) :
    (ofTokens d ts).sql.toList = Sql.chars d [] ts ∧
      (ofTokens d ts).parameters = entries [] ts.slots := foldl_push_chars d ts empty

/-- In the text of a command whose slots stand apart, each placeholder has the number of an entry
for its slot, and numbers and entries are in step. -/
theorem placeholders_ofTokens (hd : d.placeholderStyle = .dollar) {ts : Sql} (h : Sql.Apart ts) :
    Numbered (ofTokens d ts).parameters (placeholders (ofTokens d ts).sql.toList) ∧
      List.Forall₂ (StandsFor (ofTokens d ts).parameters) ts.slots
        (placeholders (ofTokens d ts).sql.toList) := by
  obtain ⟨hsql, hentries⟩ := ofTokens_chars d ts
  obtain ⟨hnumbered, hstands⟩ := numbered_run numbered_nil ts.slots
  rw [hsql, hentries, Sql.chars_of_dollar hd, Sql.placeholders_written h]
  exact ⟨hnumbered, hstands⟩

end Command

end QueryTree
