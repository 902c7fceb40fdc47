import QueryTree.Postgres.Statement
import QueryTree.Proofs.Attempt
import QueryTree.Proofs.Formatting
import QueryTree.Scalar.Substitute

/-!
# Which argument a parameter gets

The arguments of a query reach its parameters in two ways. A statement binds them by position: when
it is prepared, each parameter of the command looks for its declaration and remembers where it
stands. A tree that is computed without a server has them put in place by name.

The two look from different ends. A statement takes the argument of the first declaration of a name
(`exists_first_of_findIdx?`), and substitution that of the last. A name that is declared once has
only one declaration to be found (`first?_eq_find?`), so what is bound is what is substituted. Where
it is declared twice, the two can differ.
-/

namespace QueryTree

open Attempt

namespace Bindings

/-- The first binding of a name. -/
def first? (bs : Bindings) (name : String) : Option Binding :=
  List.find? (fun b => b.param.name == name) bs

/-- The first binding of a name is at the front, or among the others. -/
theorem first?_cons (b : Binding) (bs : Bindings) (name : String) :
    first? (b :: bs) name = if b.param.name == name then some b else first? bs name := by
  unfold first?
  rw [List.find?_cons]
  by_cases h : (b.param.name == name) = true
  · simp [h]
  · simp [h]

/-- The position of a declaration among the parameters is the position of its argument. Parameters
and arguments are walked along in step, which is why their numbers must agree. -/
theorem exists_first_of_findIdx? {params : List Parameter} {args : List Value}
    (hargs : args.length = params.length) {name : String} {i : Nat}
    (h : params.findIdx? (·.name == name) = some i) :
    ∃ b, first? (ofArguments params args) name = some b ∧ args[i]? = some b.value := by
  induction params generalizing args i with
  | nil => simp at h
  | cons p params ih =>
    cases args with
    | nil => simp at hargs
    | cons v args =>
      have hcons : ofArguments (p :: params) (v :: args) = ⟨p, v⟩ :: ofArguments params args := rfl
      rw [hcons, first?_cons]
      rw [List.findIdx?_cons] at h
      by_cases hp : (p.name == name) = true
      · simp only [hp, if_true, Option.some.injEq] at h ⊢
        subst h
        exact ⟨⟨p, v⟩, rfl, rfl⟩
      · simp only [hp, Bool.false_eq_true, if_false, Option.map_eq_some_iff] at h ⊢
        obtain ⟨j, hj, rfl⟩ := h
        have hlength : args.length = params.length := by simpa using hargs
        obtain ⟨b, hb, hvalue⟩ := ih hlength hj
        exact ⟨b, hb, by simpa using hvalue⟩

/-- Bindings carry the declared names, in their order, when there is an argument for each. -/
theorem map_name_ofArguments {params : List Parameter} {args : List Value}
    (hargs : args.length = params.length) :
    (ofArguments params args).map (·.param.name) = params.map (·.name) := by
  unfold ofArguments
  induction params generalizing args with
  | nil => simp
  | cons p params ih =>
    cases args with
    | nil => simp at hargs
    | cons v args =>
      have hlength : args.length = params.length := by simpa using hargs
      simp [ih hlength]

/-- Of a name that is bound once, the first binding is the last. -/
theorem first?_eq_find? {bs : Bindings} {name : String}
    (h : (bs.map (·.param.name)).count name = 1) : first? bs name = bs.find? name := by
  have hcount : (bs.filter fun b => b.param.name == name).length = 1 := by
    rw [← h, List.count_eq_countP, List.countP_map, List.countP_eq_length_filter]
    rfl
  obtain ⟨b, hb⟩ := List.length_eq_one_iff.1 hcount
  have hfirst : first? bs name = some b := by
    unfold first?
    rw [← List.head?_filter, hb]
    rfl
  have hlast : bs.find? name = some b := by
    unfold find?
    rw [← List.head?_filter, List.filter_reverse, hb]
    rfl
  rw [hfirst, hlast]

/-- A name that has a first binding has a last one. -/
theorem exists_find?_of_first? {bs : Bindings} {name : String} {b : Binding}
    (h : first? bs name = some b) : ∃ b', bs.find? name = some b' := by
  unfold first? at h
  have hmem : b ∈ bs.reverse := List.mem_reverse.2 (List.mem_of_find?_eq_some h)
  have hname := List.find?_some h
  cases hfind : bs.find? name with
  | some b' => exact ⟨b', rfl⟩
  | none =>
    have hnone := List.find?_eq_none.1 hfind b hmem
    exact absurd hname hnone

end Bindings

namespace Statement

variable {p : Pipeline} {types : TypeMap} {q : Query} {s : Statement} {args : List Value}

/-- A prepared statement has the text of the command and one parameter for each of its entries. -/
theorem prepare_eq_ok_iff :
    prepare p types q = .ok s ↔
      ∃ c, p.command (.lambda q.params q.body) = .ok c ∧ s.sql = c.sql ∧
        c.parameters.mapM (parameterOf types q.params) = .ok s.parameters := by
  unfold prepare
  cases hc : p.command (.lambda q.params q.body) with
  | error e => simp
  | ok c =>
    simp only [bind_eq_ok_iff, pure_eq_ok_iff, Except.ok.injEq, exists_eq_left']
    constructor
    · rintro ⟨parameters, hparameters, rfl⟩
      exact ⟨rfl, hparameters⟩
    · rintro ⟨hsql, hparameters⟩
      refine ⟨s.parameters, hparameters, ?_⟩
      rw [← hsql]

/-- The origin of an entry without a value is the position of its first declaration. -/
theorem origin_of_parameterOf {entry : CommandParameter} {parameter : StatementParameter}
    (hentry : entry.value = none) (h : parameterOf types q.params entry = .ok parameter) :
    ∃ i, q.params.findIdx? (·.name == entry.name) = some i ∧ parameter.origin = .argument i := by
  unfold parameterOf at h
  obtain ⟨type, _, h⟩ := bind_eq_ok_iff.1 h
  obtain ⟨origin, horigin, h⟩ := bind_eq_ok_iff.1 h
  obtain rfl := pure_eq_ok_iff.1 h
  simp only [originOf, hentry] at horigin
  cases hi : q.params.findIdx? (·.name == entry.name) with
  | none => simp [hi] at horigin
  | some i =>
    simp only [hi, Except.ok.injEq] at horigin
    exact ⟨i, rfl, horigin.symm⟩

/-- At a position of the statement the arguments give the value, and it is this value that is put
into the form in which it travels. -/
def BindsAt (s : Statement) (args : List Value) (k : Nat) (v : Value) : Prop :=
  ∃ parameter, s.parameters[k]? = some parameter ∧ valueOf args parameter.origin = .ok v ∧
    ∀ bound, s.bind args = .ok bound →
      ∃ b, bound[k]? = some (parameter.type, b) ∧ Bound.ofValue v parameter.type = .ok b

/-- A parameter with a value is bound to it at its own place. -/
theorem bindsAt_of_valueOf {k : Nat} {parameter : StatementParameter}
    (hk : s.parameters[k]? = some parameter) {v : Value}
    (hv : valueOf args parameter.origin = .ok v) : BindsAt s args k v := by
  refine ⟨parameter, hk, hv, ?_⟩
  intro bound hbound
  unfold Statement.bind at hbound
  obtain ⟨⟨type, b⟩, hb, hstep⟩ := getElem?_of_mapM_eq_ok hbound hk
  obtain ⟨v', hv', hform⟩ := bind_eq_ok_iff.1 hstep
  obtain ⟨b', hb', hpair⟩ := bind_eq_ok_iff.1 hform
  obtain rfl : v = v' := Except.ok.inj (hv.symm.trans hv')
  obtain ⟨rfl, rfl⟩ := Prod.mk.inj (pure_eq_ok_iff.1 hpair)
  exact ⟨b', hb, hb'⟩

/-- An entry of a prepared statement that has no value of its own is bound to the argument of the
first declaration of its name, while substitution puts the argument of the last declaration in the
place of every parameter of that name. For a name that is declared once the two are the same. -/
theorem bindsAt_first_substitute_last (hs : prepare p types q = .ok s)
    (hargs : args.length = q.params.length) :
    ∃ c : Command, p.command (.lambda q.params q.body) = .ok c ∧
      ∀ (k : Nat) (entry : CommandParameter), c.parameters[k]? = some entry → entry.value = none →
        ∃ first last, (Bindings.ofArguments q.params args).first? entry.name = some first ∧
          (Bindings.ofArguments q.params args).find? entry.name = some last ∧
          BindsAt s args k first.value ∧
          (∀ t, (Expr.param entry.name t).substitute (Bindings.ofArguments q.params args) =
            .const last.value last.param.type) ∧
          ((q.params.map (·.name)).count entry.name = 1 → first = last) := by
  obtain ⟨c, hc, _, hparameters⟩ := prepare_eq_ok_iff.1 hs
  refine ⟨c, hc, ?_⟩
  intro k entry hk hentry
  obtain ⟨parameter, hparameter, hof⟩ := getElem?_of_mapM_eq_ok hparameters hk
  obtain ⟨i, hi, horigin⟩ := origin_of_parameterOf hentry hof
  obtain ⟨first, hfirst, harg⟩ := Bindings.exists_first_of_findIdx? hargs hi
  obtain ⟨last, hlast⟩ := Bindings.exists_find?_of_first? hfirst
  have hvalue : valueOf args parameter.origin = .ok first.value := by
    rw [horigin]
    simp [valueOf, harg]
  refine ⟨first, last, hfirst, hlast, bindsAt_of_valueOf hparameter hvalue, ?_, ?_⟩
  · intro t
    simp [Expr.substitute, hlast]
  · intro honce
    have hnames := Bindings.map_name_ofArguments hargs
    have hsame := Bindings.first?_eq_find? (by rw [hnames]; exact honce)
    exact Option.some.inj (hfirst.symm.trans (hsame.trans hlast))

/-- The parameter types of the standard column types. -/
def standardTypes : TypeMap := valueOr ⟨[]⟩ (TypeMap.ofSystem .standard)

/-- Users of one name and above one age. -/
def olderNamed : Query where
  params := [⟨"name", .string⟩, ⟨"age", .int64⟩]
  body := .filter (Expr.mkScan (.source ⟨"users", none⟩) "u")
    (Expr.mkBinary .and (Expr.mkBinary .gt (.column "u" "age" .int64) (.param "age" .int64))
      (Expr.mkBinary .eq (.column "u" "name" .string) (.param "name" .string)))

/-- The statement of `olderNamed`. The text uses the parameters the other way round. -/
def olderNamedStatement : Statement where
  sql := "SELECT * FROM users AS u WHERE (u.age > $1) AND (u.name = $2)"
  parameters := [⟨.int8, .argument 1⟩, ⟨.varchar, .argument 0⟩]

/-- The statement of the lambda has its parameters in the order of their use, not of their
declaration. -/
theorem prepare_olderNamed :
    (Pipeline.mk .postgres []).command (.lambda olderNamed.params olderNamed.body) =
        .ok ⟨olderNamedStatement.sql, [⟨"age", .int64, none⟩, ⟨"name", .string, none⟩]⟩ ∧
      prepare ⟨.postgres, []⟩ standardTypes olderNamed = .ok olderNamedStatement := by
  have hquery := Sql.query_over_table (d := .postgres) (e := olderNamed.body) rfl rfl
  have hcommand : (Pipeline.mk .postgres []).command (.lambda olderNamed.params olderNamed.body) =
      .ok ⟨olderNamedStatement.sql, [⟨"age", .int64, none⟩, ⟨"name", .string, none⟩]⟩ := by
    change Command.ofStatement .postgres olderNamed.body = _
    rw [Command.ofStatement_eq]
    change Command.ofTokens .postgres <$> Sql.query .postgres olderNamed.body = _
    rw [hquery]
    rfl
  exact ⟨hcommand, prepare_eq_ok_iff.2 ⟨_, hcommand, rfl, rfl⟩⟩

/-- The second argument is bound at the first place, where the statement has the age. -/
theorem bindsAt_first_substitute_last_olderNamed :
    BindsAt olderNamedStatement [.text "bob", .int 30] 0 (.int 30) ∧
      (Expr.param "age" .int64).substitute
        (Bindings.ofArguments olderNamed.params [.text "bob", .int 30]) =
          .const (.int 30) .int64 := by
  obtain ⟨hcommand, hprepare⟩ := prepare_olderNamed
  have hargs : [Value.text "bob", .int 30].length = olderNamed.params.length := rfl
  obtain ⟨c, hc, hentries⟩ := bindsAt_first_substitute_last hprepare hargs
  obtain rfl := Except.ok.inj (hcommand.symm.trans hc)
  obtain ⟨first, last, _, hlast, hbinds, hsubstitute, hsame⟩ := hentries 0 _ rfl rfl
  obtain rfl := hsame rfl
  obtain rfl : _ = first := Option.some.inj hlast
  exact ⟨hbinds, hsubstitute .int64⟩

/-- Users of one number, where the parameter is declared twice. -/
def byIdTwice : Query where
  params := [⟨"x", .int64⟩, ⟨"x", .int64⟩]
  body := .filter (Expr.mkScan (.source ⟨"users", none⟩) "u")
    (Expr.mkBinary .eq (.column "u" "id" .int64) (.param "x" .int64))

/-- With the arguments 1 and 2 for the two declarations, the statement is sent with 1, and the tree
is computed with 2. -/
theorem bindsAt_ne_substitute_byIdTwice :
    ∃ s, prepare ⟨.postgres, []⟩ standardTypes byIdTwice = .ok s ∧
      s.bind [.int 1, .int 2] = .ok [(.int8, .int8 1)] ∧
      BindsAt s [.int 1, .int 2] 0 (.int 1) ∧ ¬ BindsAt s [.int 1, .int 2] 0 (.int 2) ∧
      (Expr.param "x" .int64).substitute (Bindings.ofArguments byIdTwice.params [.int 1, .int 2]) =
        .const (.int 2) .int64 := by
  have hquery := Sql.query_over_table (d := .postgres) (e := byIdTwice.body) rfl rfl
  have hcommand : (Pipeline.mk .postgres []).command (.lambda byIdTwice.params byIdTwice.body) =
      .ok ⟨"SELECT * FROM users AS u WHERE u.id = $1", [⟨"x", .int64, none⟩]⟩ := by
    change Command.ofStatement .postgres byIdTwice.body = _
    rw [Command.ofStatement_eq]
    change Command.ofTokens .postgres <$> Sql.query .postgres byIdTwice.body = _
    rw [hquery]
    rfl
  refine ⟨⟨"SELECT * FROM users AS u WHERE u.id = $1", [⟨.int8, .argument 0⟩]⟩,
    prepare_eq_ok_iff.2 ⟨_, hcommand, rfl, rfl⟩, rfl, bindsAt_of_valueOf rfl rfl, ?_, rfl⟩
  rintro ⟨parameter, hparameter, hvalue, _⟩
  obtain rfl : _ = parameter := Option.some.inj hparameter
  cases hvalue

end Statement

end QueryTree
