import QueryTree.Proofs.Formatting
import QueryTree.Proofs.LeafChange

/-!
# The contents of literals stay out of the text

The texts, byte strings, dates and times of a statement travel beside the SQL. To say that nothing
of them enters the text, `Expr.redact` blanks their contents: two statements that agree after
redaction differ in the contents of such literals and in nothing else. Redaction changes a tree at
its leaves, and there the renderer commutes with it (`literal_redact`). So it does on the whole
(`statement_redact`), failures included, and so does the numbering of slots (`ofTokens_redact`).
Hence the contents have no way into the text, the names and types of the parameters, or the decision
to fail (`ofStatement_of_redact_eq`).
-/

namespace QueryTree

open Attempt

/-! ### Redaction -/

namespace Value

/-- The contents of a text, byte string, date or time are blanked; any other value stays. -/
def redact : Value → Value
  | .text _ => .text ""
  | .bytes _ => .bytes []
  | .date _ => .date ⟨0, by decide, by decide⟩
  | .time _ => .time .midnight
  | .dateTime _ => .dateTime ⟨⟨0, by decide, by decide⟩, .midnight⟩
  | v => v

/-- The same value, or two literals of one kind. -/
inductive LikeLiteral : Value → Value → Prop
  | same (v) : LikeLiteral v v
  | text (s s') : LikeLiteral (.text s) (.text s')
  | bytes (b b') : LikeLiteral (.bytes b) (.bytes b')
  | date (d d') : LikeLiteral (.date d) (.date d')
  | time (t t') : LikeLiteral (.time t) (.time t')
  | dateTime (dt dt') : LikeLiteral (.dateTime dt) (.dateTime dt')

/-- Values that agree after redaction differ in contents only. -/
theorem likeLiteral_of_redact_eq {v w : Value} (h : v.redact = w.redact) : LikeLiteral v w := by
  cases v with
  | text s => cases w <;> first | exact .text _ _ | cases h
  | bytes b => cases w <;> first | exact .bytes _ _ | cases h
  | date d => cases w <;> first | exact .date _ _ | cases h
  | time t => cases w <;> first | exact .time _ _ | cases h
  | dateTime dt => cases w <;> first | exact .dateTime _ _ | cases h
  | _ =>
    cases w <;> cases h
    exact .same _

end Value

namespace Expr

/-- A constant with its contents blanked; any other node stays. -/
def redactNode : Expr → Expr
  | const v t => const v.redact t
  | e => e

/-- Blank the contents of every literal in the tree. -/
def redact (e : Expr) : Expr := e.transformUp redactNode

theorem redact_of_isConstant_eq_false {e : Expr} (h : e.isConstant = false) :
    e.redact = e.mapChildren redact := by
  rw [redact, transformUp_eq]
  cases e <;> first | rfl | cases h

/-- Blanking keeps the kind of the node, which an error may name. -/
@[simp] theorem kind_redact (e : Expr) : e.redact.kind = e.kind := by
  cases e <;> rfl

end Expr

/-! ### Statements -/

/-- A constant that travels beside the text is blanked; the text stays. -/
def Token.redact : Token → Token
  | .slot (.constant v t) => .slot (.constant v.redact t)
  | token => token

namespace Sql

/-- Blank the values that travel beside the text. -/
def redact (sql : Sql) : Sql := sql.map Token.redact

variable {d : Dialect}

/-- The text of a literal does not show what is blanked. -/
theorem literal_redact (v : Value) (t : LogicalType) :
    literal v.redact t = redact <$> literal v t := by
  cases v with
  | float x =>
    simp only [literal, Value.redact]
    split <;> rfl
  | _ => rfl

/-- Redaction changes a tree at its leaves, and nothing of how the renderer fails. -/
theorem leafChange_redact : LeafChange d Eq Expr.redact Token.redact where
  text _ := rfl
  inner e he := Expr.redact_of_isConstant_eq_false (by cases e <;> first | rfl | cases he)
  leaf e he := by cases e <;> first | rfl | cases he
  scalar e bare he := by
    cases e with
    | const v t => exact follows_of_eq_map (literal_redact v t)
    | param n t => exact .ok _
    | _ => cases he
  scanItem e qualifier he := by
    cases e with
    | const v t => cases v <;> exact follows_of_eq_map rfl
    | param n t => exact .error rfl
    | _ => cases he
  same _ := rfl
  kind e detail := by rw [Expr.kind_redact]

/-- The text of a statement does not show what is blanked, and formatting fails on both trees or on
none. -/
theorem statement_redact (e : Expr) : statement d e.redact = redact <$> statement d e :=
  (leafChange_redact.statement_follows e).eq_map

end Sql

/-! ### Commands -/

/-- A parameter with its value blanked. -/
def CommandParameter.redact (p : CommandParameter) : CommandParameter :=
  { p with value := p.value.map Value.redact }

namespace Command

/-- Blank the values of the parameters. -/
def redact (c : Command) : Command := ⟨c.sql, c.parameters.map CommandParameter.redact⟩

/-- The generated names do not depend on the values. -/
theorem constantName_redact (ps : List CommandParameter) :
    constantName (ps.map CommandParameter.redact) = constantName ps := by
  have hvalue : ∀ p : CommandParameter, p.redact.value.isSome = p.value.isSome := by
    intro p
    simp [CommandParameter.redact]
  simp [constantName, List.countP_map, Function.comp_def, hvalue]

/-- Nor does the place of a parameter. -/
theorem position?_redact (ps : List CommandParameter) (name : String) :
    position? (ps.map CommandParameter.redact) name = position? ps name := by
  have hvalue : ∀ p : CommandParameter, p.redact.value.isNone = p.value.isNone := by
    intro p
    simp [CommandParameter.redact]
  have hname : ∀ p : CommandParameter, p.redact.name = p.name := fun _ => rfl
  simp [position?, List.findIdx?_map, Function.comp_def, hvalue, hname]

/-- A redacted token is written at the end of a redacted command as the token itself. -/
theorem push_redact (d : Dialect) (c : Command) (token : Token) :
    push d c.redact token.redact = (push d c token).redact := by
  cases token with
  | text s => rfl
  | slot slot =>
    cases slot with
    | constant v t =>
      change push d c.redact (.slot (.constant v.redact t)) = _
      simp [push, redact, constantName_redact, CommandParameter.redact]
    | named name t =>
      change push d c.redact (.slot (.named name t)) = _
      simp only [push, redact, position?_redact]
      cases position? c.parameters name with
      | some i => rfl
      | none => simp [CommandParameter.redact]

/-- The text of a command does not depend on the values that it is sent with. -/
theorem ofTokens_redact (d : Dialect) (sql : Sql) :
    ofTokens d (Sql.redact sql) = (ofTokens d sql).redact := by
  have hfold : ∀ (sql : Sql) (c : Command),
      (Sql.redact sql).foldl (push d) c.redact = (sql.foldl (push d) c).redact := by
    intro sql
    induction sql with
    | nil => exact fun c => rfl
    | cons token rest ih =>
      intro c
      change (Sql.redact rest).foldl (push d) (push d c.redact token.redact) = _
      rw [push_redact, ih]
      rfl
  exact hfold sql empty

/-- A command differs from that of the blanked tree only in the values of its parameters. -/
theorem ofStatement_redact (d : Dialect) (e : Expr) :
    ofStatement d e.redact = redact <$> ofStatement d e := by
  simp [ofStatement_eq, Sql.statement_redact, ofTokens_redact]

/-- Parameters that agree after redaction agree but for the contents of literals. -/
theorem forall₂_of_redact_eq {ps ps' : List CommandParameter}
    (h : ps.map CommandParameter.redact = ps'.map CommandParameter.redact) :
    List.Forall₂ (fun p p' : CommandParameter => p.name = p'.name ∧ p.type = p'.type ∧
      Option.Rel Value.LikeLiteral p.value p'.value) ps ps' := by
  have hpointwise : List.Forall₂ (fun p p' : CommandParameter => p.redact = p'.redact) ps ps' := by
    rw [← List.forall₂_map_left_iff (f := CommandParameter.redact)
      (R := fun p p' => p = CommandParameter.redact p'),
      ← List.forall₂_map_right_iff (R := fun p p' : CommandParameter => p = p'), h]
    exact List.forall₂_refl _
  refine hpointwise.imp fun p p' hp => ?_
  obtain ⟨hname, htype, hvalue⟩ : p.name = p'.name ∧ p.type = p'.type ∧
      p.value.map Value.redact = p'.value.map Value.redact := by
    simpa [CommandParameter.redact] using hp
  refine ⟨hname, htype, ?_⟩
  · cases hv : p.value <;> cases hv' : p'.value <;> rw [hv, hv'] at hvalue
    · exact .none
    · cases hvalue
    · cases hvalue
    · exact .some (Value.likeLiteral_of_redact_eq (Option.some.inj hvalue))

/-- Two statements that differ in the contents of literals only are rendered alike: both fail, with
the same error, or both have the same text and parameters that differ in those contents only. -/
theorem ofStatement_of_redact_eq {e e' : Expr} (h : e.redact = e'.redact) (d : Dialect) :
    (∃ error, ofStatement d e = .error error ∧ ofStatement d e' = .error error) ∨
      ∃ c c', ofStatement d e = .ok c ∧ ofStatement d e' = .ok c' ∧ c.sql = c'.sql ∧
        List.Forall₂ (fun p p' : CommandParameter => p.name = p'.name ∧ p.type = p'.type ∧
          Option.Rel Value.LikeLiteral p.value p'.value) c.parameters c'.parameters := by
  have hsame : redact <$> ofStatement d e = redact <$> ofStatement d e' := by
    rw [← ofStatement_redact, ← ofStatement_redact, h]
  cases he : ofStatement d e with
  | error error =>
    cases he' : ofStatement d e' with
    | error error' =>
      rw [he, he'] at hsame
      cases hsame
      exact .inl ⟨error, rfl, rfl⟩
    | ok c' =>
      rw [he, he'] at hsame
      cases hsame
  | ok c =>
    cases he' : ofStatement d e' with
    | error error' =>
      rw [he, he'] at hsame
      cases hsame
    | ok c' =>
      rw [he, he'] at hsame
      obtain ⟨hsql, hparameters⟩ : c.sql = c'.sql ∧ c.parameters.map CommandParameter.redact =
          c'.parameters.map CommandParameter.redact := by
        simpa [redact] using Except.ok.inj hsame
      exact .inr ⟨c, c', rfl, rfl, hsql, forall₂_of_redact_eq hparameters⟩

/-- The rows of one name and a minimal age, but for those of one note. -/
def searchFor (name note : String) : Expr :=
  .filter
    (.filter (Expr.mkScan (.source ⟨"users", none⟩) "u")
      (Expr.mkBinary .eq (.column "u" "name" .string) (.const (.text name) .string)))
    (Expr.mkBinary .and
      (Expr.mkBinary .gtEq (.column "u" "age" .int64) (.param "age" .int64))
      (Expr.mkBinary .notEq (.column "u" "note" .string) (.const (.text note) .string)))

/-- The text of the search is the same for a name with a quote and a semicolon in it, and for a note
that looks like a placeholder. -/
theorem ofStatement_of_redact_eq_searchFor :
    (searchFor "bob" "").redact = (searchFor "'; DROP TABLE users; --" "$1").redact ∧
      ∃ c', ofStatement .postgres (searchFor "'; DROP TABLE users; --" "$1") = .ok c' ∧
        c'.sql =
          "SELECT * FROM users AS u WHERE (u.name = $1) AND ((u.age >= $2) AND (u.note <> $3))" := by
  have hsame : (searchFor "bob" "").redact =
      (searchFor "'; DROP TABLE users; --" "$1").redact := rfl
  have hbob : ofStatement .postgres (searchFor "bob" "") =
      .ok ⟨"SELECT * FROM users AS u WHERE (u.name = $1) AND ((u.age >= $2) AND (u.note <> $3))",
        [⟨"_c0", .string, some (.text "bob")⟩, ⟨"age", .int64, none⟩,
          ⟨"_c1", .string, some (.text "")⟩]⟩ := (ofStatement_over_table rfl rfl rfl).trans rfl
  rcases ofStatement_of_redact_eq hsame .postgres with
    ⟨error, herror, _⟩ | ⟨c, c', hc, hc', hsql, _⟩
  · cases hbob.symm.trans herror
  · cases hbob.symm.trans hc
    exact ⟨hsame, c', hc', hsql.symm⟩

end Command

end QueryTree
