import QueryTree.Postgres.Connection
import QueryTree.Proofs.NumberText

/-!
# A connection string is read as it was written

The settings of a connection are written side by side into one text, and what is written can be
anything: a password may hold quotes, backslashes, blanks, line breaks or what looks like another
setting. Read back, the text gives the seven settings and their values (`read?_connectionString`),
so no value reaches beyond its own place.

The argument has two halves. A value is read to its end and no further: between quotes because
every quote and backslash of it is escaped (`readQuoted_flatMap_escape`), without quotes because it
has no blank (`readPlain_append`). And reading one setting leaves the text of the others
(`readPairs_setting`), so a line of settings is read one after another (`readPairs_line`).
-/

namespace QueryTree

/-! ### Blanks -/

namespace CharClass

/-- Blanks are the characters of the listed ranges. -/
theorem isBlank_iff {c : Char} :
    isBlank c = true ↔ ∃ range ∈ blankRanges.toList, range.1 ≤ c.toNat ∧ c.toNat ≤ range.2 := by
  rw [isBlank, within, ← Array.any_toList, List.any_eq_true]
  simp only [Bool.and_eq_true, decide_eq_true_eq]

theorem isBlank_space : isBlank ' ' = true :=
  isBlank_iff.2 ⟨(0x20, 0x20), by decide, by decide⟩

/-- Of the first 127 characters, those after the space are no blanks. -/
theorem isBlank_eq_false {c : Char} (h : 0x20 < c.toNat) (h' : c.toNat < 0x7f) :
    isBlank c = false := by
  rw [Bool.eq_false_iff, ne_eq, isBlank_iff]
  simp only [blankRanges, List.mem_cons, List.not_mem_nil, or_false]
  rintro ⟨range, hrange, hc⟩
  rcases hrange with rfl | rfl | rfl | rfl | rfl | rfl | rfl | rfl | rfl | rfl <;> omega

end CharClass

namespace ConnectionString

open CharClass

/-- Blanks before a setting are passed over. -/
theorem skipBlanks_space (cs : List Char) : skipBlanks (' ' :: cs) = skipBlanks cs := by
  rw [skipBlanks, List.dropWhile_cons, if_pos isBlank_space, skipBlanks]

/-- There is nothing to pass over before a character that is no blank. -/
theorem skipBlanks_cons {c : Char} (h : isBlank c = false) (cs : List Char) :
    skipBlanks (c :: cs) = c :: cs := by
  rw [skipBlanks, List.dropWhile_cons, h, if_neg Bool.false_ne_true]

/-! ### Values -/

/-- One character between quotes. -/
def escape (c : Char) : List Char := if c = '\\' ∨ c = '\'' then ['\\', c] else [c]

/-- The backslashes that come with the first replacement are not touched by the second, so the two
come to one escape for each character. -/
theorem quote_eq (value : List Char) : quote value = '\'' :: value.flatMap escape ++ ['\''] := by
  have hchar (c : Char) :
      replace '\'' ['\\', '\''] (if c = '\\' then ['\\', '\\'] else [c]) = escape c := by
    unfold escape
    by_cases hbackslash : c = '\\'
    · simp [hbackslash, replace]
    · by_cases hquote : c = '\'' <;> simp [hbackslash, hquote, replace]
  unfold quote
  congr 2
  induction value with
  | nil => rfl
  | cons c value ih =>
    rw [List.flatMap_cons, ← ih, ← hchar]
    simp only [replace, List.flatMap_cons, List.flatMap_append]

/-- An escaped text ends at the first quote after it, and is read as the text. -/
theorem readQuoted_flatMap_escape (value rest : List Char) :
    readQuoted (value.flatMap escape ++ '\'' :: rest) = some (value, rest) := by
  induction value with
  | nil => rfl
  | cons c value ih =>
    rw [List.flatMap_cons, List.append_assoc, escape]
    split
    next =>
      have hescaped : readQuoted ('\\' :: c :: (value.flatMap escape ++ '\'' :: rest)) =
          (readQuoted (value.flatMap escape ++ '\'' :: rest)).map fun r => (c :: r.1, r.2) := rfl
      rw [List.cons_append, List.singleton_append, hescaped, ih]
      rfl
    next h =>
      obtain ⟨hbackslash, hquote⟩ := not_or.1 h
      rw [List.singleton_append, readQuoted.eq_5 _ _ hquote (fun h _ => hbackslash h)
        (fun _ _ h _ => hbackslash h), ih]
      rfl

/-- A word without blanks and backslashes is read up to a blank or the end. -/
theorem readPlain_append {word rest : List Char}
    (hword : ∀ c ∈ word, isBlank c = false ∧ c ≠ '\\')
    (hrest : ∀ c ∈ rest.head?, isBlank c = true) :
    readPlain (word ++ rest) = (word, rest) := by
  induction word with
  | nil =>
    cases rest with
    | nil => rfl
    | cons c rest =>
      have hblank := hrest c rfl
      have hbackslash : c ≠ '\\' := by
        rintro rfl
        rw [isBlank_eq_false (by decide) (by decide)] at hblank
        cases hblank
      rw [List.nil_append, readPlain.eq_4 _ _ (fun h _ => hbackslash h)
        (fun _ _ h _ => hbackslash h), if_pos hblank]
  | cons c word ih =>
    obtain ⟨⟨hblank, hbackslash⟩, hword⟩ := List.forall_mem_cons.1 hword
    rw [List.cons_append, readPlain.eq_4 _ _ (fun h _ => hbackslash h)
      (fun _ _ h _ => hbackslash h), hblank, if_neg Bool.false_ne_true, ih hword]

/-- A value as it is written: it begins with no blank, and where it ends at a blank or with the
text, it is read to its end and no further. -/
structure Writes (written value : List Char) : Prop where
  begins : ∃ c cs, written = c :: cs ∧ isBlank c = false
  reads : ∀ rest : List Char, (∀ c ∈ rest.head?, isBlank c = true) →
    readValue (written ++ rest) = some (value, rest)

/-- Between quotes any value can be written. -/
theorem writes_quote (value : List Char) : Writes (quote value) value where
  begins := ⟨'\'', _, rfl, isBlank_eq_false (by decide) (by decide)⟩
  reads rest _ := by
    have hquote : quote value ++ rest = '\'' :: (value.flatMap escape ++ '\'' :: rest) := by
      simp [quote_eq]
    rw [hquote]
    exact readQuoted_flatMap_escape value rest

/-- A printable character of ASCII other than the three signs of the grammar. -/
def isWordChar (c : Char) : Bool :=
  0x20 < c.toNat && c.toNat < 0x7f && c != '\\' && c != '\'' && c != '='

/-- A word: it needs no quotes. -/
def isWord (cs : List Char) : Bool := !cs.isEmpty && cs.all isWordChar

/-- A word has characters, and all are of the plain kind. -/
theorem isWord_iff {cs : List Char} :
    isWord cs = true ↔ cs ≠ [] ∧ ∀ c ∈ cs, isWordChar c = true := by
  simp [isWord]

/-- The characters of a word have no meaning in the grammar. -/
theorem isBlank_of_isWordChar {c : Char} (h : isWordChar c = true) :
    isBlank c = false ∧ c ≠ '\\' ∧ c ≠ '\'' ∧ c ≠ '=' := by
  simp only [isWordChar, Bool.and_eq_true, decide_eq_true_eq, bne_iff_ne, ne_eq, and_assoc] at h
  exact ⟨isBlank_eq_false h.1 h.2.1, h.2.2⟩

/-- Digits can stand in a word. -/
theorem isWordChar_of_isDigit {c : Char} (h : c.isDigit = true) : isWordChar c = true := by
  have hrange : 48 ≤ c.toNat ∧ c.toNat ≤ 57 := by
    simpa [Char.isDigit, UInt32.le_iff_toNat_le] using h
  have hne (d : Char) (hd : 57 < d.toNat ∨ d.toNat < 48) : c ≠ d := by
    rintro rfl
    omega
  simp only [isWordChar, Bool.and_eq_true, decide_eq_true_eq, bne_iff_ne]
  exact ⟨⟨⟨⟨by omega, by omega⟩, hne _ (by decide)⟩, hne _ (by decide)⟩, hne _ (by decide)⟩

/-- A word can be written as it is. -/
theorem writes_word {word : List Char} (h : isWord word = true) : Writes word word := by
  obtain ⟨hne, hword⟩ := isWord_iff.1 h
  have hchars c (hc : c ∈ word) := isBlank_of_isWordChar (hword c hc)
  obtain ⟨c, cs, rfl⟩ := List.exists_cons_of_ne_nil hne
  obtain ⟨hblank, -, hquote, -⟩ := hchars c List.mem_cons_self
  refine ⟨⟨c, cs, rfl, hblank⟩, fun rest hrest => ?_⟩
  have hplain : readPlain (c :: cs ++ rest) = (c :: cs, rest) :=
    readPlain_append (fun c hc => ⟨(hchars c hc).1, (hchars c hc).2.1⟩) hrest
  rw [List.cons_append] at hplain ⊢
  rw [readValue.eq_2 _ (fun _ h => hquote (List.cons.inj h).1), hplain]
  rfl

/-! ### Settings -/

/-- A setting: its key, its value, and the value as it is written. -/
structure Setting where
  key : String
  value : String
  written : List Char

namespace Setting

/-- The setting in a connection string, after a blank. -/
def chars (s : Setting) : List Char := ' ' :: s.key.toList ++ '=' :: s.written

/-- What a setting is read as. -/
def pair (s : Setting) : String × String := (s.key, s.value)

/-- The key is a word, and the value is written as it has to be. -/
structure IsWritten (s : Setting) : Prop where
  key : isWord s.key.toList = true
  writes : Writes s.written s.value.toList

/-- Any value can be written between quotes. -/
theorem isWritten_quote {key : String} (h : isWord key.toList = true) (value : String) :
    IsWritten ⟨key, value, quote value.toList⟩ := ⟨h, writes_quote _⟩

/-- A value that is a word can be written without quotes. -/
theorem isWritten_word {key value : String} (h : isWord key.toList = true)
    (hvalue : isWord value.toList = true) : IsWritten ⟨key, value, value.toList⟩ :=
  ⟨h, writes_word hvalue⟩

end Setting

/-- A key ends at the sign of equality. -/
theorem span_key {key : List Char} (h : ∀ c ∈ key, isWordChar c = true) (rest : List Char) :
    (key ++ '=' :: rest).takeWhile isKeyChar = key ∧
      (key ++ '=' :: rest).dropWhile isKeyChar = '=' :: rest := by
  have hkey : ∀ c ∈ key, isKeyChar c = true := by
    intro c hc
    obtain ⟨hblank, -, -, hsign⟩ := isBlank_of_isWordChar (h c hc)
    simp [isKeyChar, hblank, hsign]
  have hsign : isKeyChar '=' = false := by simp [isKeyChar]
  constructor
  · rw [List.takeWhile_append_of_pos hkey, List.takeWhile_cons, hsign]
    simp
  · rw [List.dropWhile_append_of_pos hkey, List.dropWhile_cons, hsign]
    simp

/-- Reading takes one setting off the text and goes on with what follows it. -/
theorem readPairs_setting {s : Setting} (hs : s.IsWritten) {rest : List Char}
    (hrest : ∀ c ∈ rest.head?, isBlank c = true) (fuel : Nat) :
    readPairs (fuel + 1) (s.chars ++ rest) = (readPairs fuel rest).map (s.pair :: ·) := by
  obtain ⟨hne, hword⟩ := isWord_iff.1 hs.key
  obtain ⟨first, key, hkey⟩ := List.exists_cons_of_ne_nil hne
  have hfirst : isBlank first = false :=
    (isBlank_of_isWordChar (hword first (hkey ▸ List.mem_cons_self))).1
  have hline : skipBlanks (s.chars ++ rest) = s.key.toList ++ '=' :: (s.written ++ rest) := by
    have hchars : s.chars ++ rest = ' ' :: (s.key.toList ++ '=' :: (s.written ++ rest)) := by
      simp [Setting.chars]
    rw [hchars, skipBlanks_space, hkey, List.cons_append, skipBlanks_cons hfirst]
  have hvalue : readAfterKey ('=' :: (s.written ++ rest)) = some (s.value.toList, rest) := by
    obtain ⟨c, cs, hwritten, hc⟩ := hs.writes.begins
    have hskip : skipBlanks (s.written ++ rest) = s.written ++ rest := by
      rw [hwritten, List.cons_append, skipBlanks_cons hc]
    rw [readAfterKey, skipBlanks_cons (isBlank_eq_false (by decide) (by decide))]
    exact (congrArg readValue hskip).trans (hs.writes.reads rest hrest)
  obtain ⟨htake, hdrop⟩ := span_key hword (s.written ++ rest)
  have hempty : s.key.toList.isEmpty = false := by rw [hkey]; rfl
  rw [readPairs, hline, htake, hdrop, hempty, hvalue]
  cases hread : readPairs fuel rest <;> simp [Setting.pair, hread]

/-- A line of settings is read as the settings in their order. -/
theorem readPairs_line {settings : List Setting} (h : ∀ s ∈ settings, s.IsWritten) {fuel : Nat}
    (hfuel : settings.length < fuel) :
    readPairs fuel (settings.flatMap Setting.chars) = some (settings.map Setting.pair) := by
  induction settings generalizing fuel with
  | nil =>
    cases fuel with
    | zero => cases hfuel
    | succ fuel => rfl
  | cons s settings ih =>
    obtain ⟨fuel, rfl⟩ : ∃ n, fuel = n + 1 := ⟨fuel - 1, by omega⟩
    obtain ⟨hs, hsettings⟩ := List.forall_mem_cons.1 h
    have hrest : ∀ c ∈ (settings.flatMap Setting.chars).head?, isBlank c = true := by
      cases settings with
      | nil => intro c hc; cases hc
      | cons s settings =>
        intro c hc
        obtain rfl : ' ' = c := Option.some.inj hc
        exact isBlank_space
    rw [List.flatMap_cons, readPairs_setting hs hrest, ih hsettings (by simpa using hfuel)]
    rfl

/-- A blank at the start of a text is not seen. -/
theorem readPairs_space (fuel : Nat) (cs : List Char) :
    readPairs (fuel + 1) (' ' :: cs) = readPairs (fuel + 1) cs := by
  rw [readPairs, readPairs, skipBlanks_space]

/-- A setting takes two characters and more, so the length of a line bounds its settings. -/
theorem length_le_line (settings : List Setting) :
    2 * settings.length ≤ (settings.flatMap Setting.chars).length := by
  induction settings with
  | nil => exact Nat.le_refl 0
  | cons s settings ih =>
    have hchars : 2 ≤ s.chars.length := by simp [Setting.chars]; omega
    rw [List.flatMap_cons, List.length_append, List.length_cons]
    omega

/-- A text that is a line of settings is read as these settings. -/
theorem read?_line {settings : List Setting} (h : ∀ s ∈ settings, s.IsWritten) {text : String}
    (htext : settings.flatMap Setting.chars = ' ' :: text.toList) :
    read? text = some (settings.map Setting.pair) := by
  have hlength := length_le_line settings
  rw [htext, List.length_cons, String.length_toList] at hlength
  rw [read?, ← readPairs_space, ← htext]
  exact readPairs_line h (by omega)

end ConnectionString

/-! ### Connections -/

namespace ConnectionSettings

open ConnectionString

/-- The settings of a connection in the order in which they are written. -/
def settings (c : ConnectionSettings) : List Setting :=
  [⟨"host", c.host, quote c.host.toList⟩,
    ⟨"port", toString c.portNumber, (toString c.portNumber).toList⟩,
    ⟨"dbname", c.database, quote c.database.toList⟩,
    ⟨"user", c.username, quote c.username.toList⟩,
    ⟨"password", c.password, quote c.password.toList⟩,
    ⟨"sslmode", c.tlsMode.connectionMode, c.tlsMode.connectionMode.toList⟩,
    ⟨"connect_timeout", "10", "10".toList⟩]

/-- The connection string is the line of its settings, but for the blank at the start. -/
theorem flatMap_settings (c : ConnectionSettings) :
    c.settings.flatMap Setting.chars = ' ' :: c.connectionString.toList := by
  unfold connectionString quoted
  simp only [String.toList_append, String.toList_ofList, settings, Setting.chars,
    List.flatMap_cons, List.flatMap_nil, List.append_nil, List.append_assoc, List.cons_append]
  rfl

/-- The mode of the connection is a word. -/
theorem isWord_connectionMode (mode : TlsMode) : isWord mode.connectionMode.toList = true := by
  cases mode <;> rfl

/-- A number is a word. -/
theorem isWord_toString (n : Nat) : isWord (toString n).toList = true := by
  refine isWord_iff.2 ⟨toString_nat_ne_nil n, fun c hc => ?_⟩
  exact isWordChar_of_isDigit (isDigit_of_mem_toString hc)

/-- All seven settings are written so that they can be read. -/
theorem isWritten_settings (c : ConnectionSettings) : ∀ s ∈ c.settings, s.IsWritten := by
  simp only [settings, List.forall_mem_cons]
  exact ⟨Setting.isWritten_quote rfl _, Setting.isWritten_word rfl (isWord_toString _),
    Setting.isWritten_quote rfl _, Setting.isWritten_quote rfl _, Setting.isWritten_quote rfl _,
    Setting.isWritten_word rfl (isWord_connectionMode _), Setting.isWritten_word rfl rfl,
    List.forall_mem_nil _⟩

/-- Whatever the host, the database, the user and the password are, the connection string is read as
the seven settings with their values. -/
theorem read?_connectionString (c : ConnectionSettings) :
    read? c.connectionString = some
      [("host", c.host), ("port", toString c.portNumber), ("dbname", c.database),
        ("user", c.username), ("password", c.password), ("sslmode", c.tlsMode.connectionMode),
        ("connect_timeout", "10")] :=
  read?_line (isWritten_settings c) (flatMap_settings c)

end ConnectionSettings

end QueryTree
