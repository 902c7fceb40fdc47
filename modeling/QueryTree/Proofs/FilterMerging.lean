import QueryTree.Proofs.LoweredAnswers

/-!
# Two filters as one

Lowering makes one filter by a conjunction out of two filters over each other. The second of two
filters looks only at the rows that the first one keeps. The conjunction asks both predicates on
every row, unless the first one is FALSE there, and takes only truth values and NULL for an answer.

So the one filter selects what the two select, and where it returns, they return
(`relation_filter_and_eq_ok_iff`). But it may fail where they do not: on a row that the first filter
drops since its predicate is NULL there, and on which the second predicate has no value. The rows on
which it does not fail are those of `Combines`, and the main result says that these are all that
counts (`run_lowerNode_filter_filter`).
-/

namespace QueryTree

open Attempt

namespace Scalar

/-- A value is read as a truth value exactly if it is one. -/
theorem asBool?_eq_some_iff {v : Value} {b : Bool} : v.asBool? = some b ↔ v = .bool b := by
  cases v <;> simp [Value.asBool?]

/-- A conjunction has a value when one side is FALSE, and else when both are logical. So an operand
that is not logical is accepted beside a FALSE, on whichever side it stands. -/
theorem exists_conjunction_eq_ok_iff {l r : Value} :
    (∃ v, conjunction l r = .ok v) ↔
      l = .bool false ∨ r = .bool false ∨ (isLogical l = true ∧ isLogical r = true) := by
  constructor
  · rintro ⟨v, h⟩
    unfold conjunction at h
    split at h
    next hl => exact .inl (asBool?_eq_some_iff.1 hl)
    next hr _ => exact .inr (.inl (asBool?_eq_some_iff.1 hr))
    next hl hr =>
      rw [asBool?_eq_some_iff.1 hl, asBool?_eq_some_iff.1 hr]
      exact .inr (.inr ⟨rfl, rfl⟩)
    next =>
      split at h
      next hlogical => exact .inr (.inr (Bool.and_eq_true_iff.1 hlogical))
      next => cases h
  · rintro (rfl | rfl | ⟨hl, hr⟩)
    · exact ⟨_, rfl⟩
    · refine ⟨.bool false, ?_⟩
      unfold conjunction
      cases l.asBool? with
      | none => rfl
      | some b => cases b <;> rfl
    · unfold conjunction
      split
      · exact ⟨_, rfl⟩
      · exact ⟨_, rfl⟩
      · exact ⟨_, rfl⟩
      · rw [hl, hr]
        exact ⟨_, rfl⟩

end Scalar

namespace Relation

open QueryTree.Expr

variable {columns : List QualifiedName} {rows : List Row} {row : Row} {a b : Expr} {t : LogicalType}

/-- Two predicates can be combined on a row. The first is FALSE there, or both have values there, of
which the second is FALSE or both are truth values or NULL. -/
def Combines (columns : List QualifiedName) (a b : Expr) (row : Row) : Prop :=
  a.evaluate (rowEnv columns row) = .ok (.bool false) ∨
    ∃ u w, a.evaluate (rowEnv columns row) = .ok u ∧ b.evaluate (rowEnv columns row) = .ok w ∧
      (w = .bool false ∨ (Scalar.isLogical u = true ∧ Scalar.isLogical w = true))

/-- A conjunction has a value on a row exactly if its two sides can be combined there. -/
theorem exists_evaluate_and_iff :
    (∃ v, (Expr.binary .and a b t).evaluate (rowEnv columns row) = .ok v) ↔
      Combines columns a b row := by
  constructor
  · rintro ⟨v, h⟩
    obtain ⟨u, hu, hdecided | ⟨hopen, w, hw, hv⟩⟩ := evaluate_binary_eq_ok_iff.1 h
    · obtain ⟨rfl, _⟩ := Scalar.eq_false_of_decided?_and hdecided
      exact .inl hu
    · rcases Scalar.exists_conjunction_eq_ok_iff.1 ⟨v, hv⟩ with rfl | hvalues
      · cases hopen
      · exact .inr ⟨u, w, hu, hw, hvalues⟩
  · rintro (hfalse | ⟨u, w, hu, hw, hvalues⟩)
    · exact ⟨_, evaluate_binary_eq_ok_iff.2 ⟨_, hfalse, .inl rfl⟩⟩
    · cases hdecided : Scalar.decided? .and u with
      | some v => exact ⟨v, evaluate_binary_eq_ok_iff.2 ⟨u, hu, .inl hdecided⟩⟩
      | none =>
        obtain ⟨v, hv⟩ := Scalar.exists_conjunction_eq_ok_iff.2 (.inr hvalues)
        exact ⟨v, evaluate_binary_eq_ok_iff.2 ⟨u, hu, .inr ⟨hdecided, w, hw, hv⟩⟩⟩

/-- A conjunction has a value on each of the rows exactly when its sides can be combined there. -/
theorem defined_and_iff :
    Defined columns (.binary .and a b t) rows ↔ ∀ row ∈ rows, Combines columns a b row := by
  constructor
  · intro h row hrow
    exact exists_evaluate_and_iff.1 ⟨_, h row hrow⟩
  · intro h row hrow
    obtain ⟨v, hv⟩ := exists_evaluate_and_iff.2 (h row hrow)
    exact evaluate_valueOn hv

/-- Sides that can be combined have a value on the left. -/
theorem Combines.left (h : Combines columns a b row) :
    a.evaluate (rowEnv columns row) = .ok (valueOn columns a row) := by
  rcases h with hfalse | ⟨u, _, hu, _⟩
  · exact evaluate_valueOn hfalse
  · exact evaluate_valueOn hu

/-- Where the first predicate keeps the row, the second has a value. -/
theorem Combines.right (h : Combines columns a b row) (ha : holdsOn columns a row = true) :
    b.evaluate (rowEnv columns row) = .ok (valueOn columns b row) := by
  rcases h with hfalse | ⟨_, w, _, hw, _⟩
  · rw [holdsOn, valueOn_eq hfalse] at ha
    cases ha
  · exact evaluate_valueOn hw

/-- Where the conjunction has values, it selects what the two sides select one after the other. -/
theorem filter_holdsOn_and (h : Defined columns (.binary .and a b t) rows) :
    rows.filter (holdsOn columns (.binary .and a b t)) =
      (rows.filter (holdsOn columns a)).filter (holdsOn columns b) := by
  rw [List.filter_filter]
  refine List.filter_congr fun row hrow => ?_
  rw [holdsOn_and (h row hrow), Bool.and_comm]

end Relation

namespace Expr

open QueryTree.Relation

variable {tables : Tables} {s : Relation} {x a b : Expr} {t : LogicalType} {v : Value}

/-- A filter by a conjunction returns what two filters return, on rows on which their predicates can
be combined, and fails on others. -/
theorem relation_filter_and_eq_ok_iff :
    relation tables (.filter x (.binary .and a b t)) = .ok s ↔
      relation tables (.filter (.filter x a) b) = .ok s ∧
        ∀ r, relation tables x = .ok r → ∀ row ∈ r.rows, Combines r.columns a b row := by
  constructor
  · intro h
    obtain ⟨r, hr, hdef, rfl⟩ := relation_filter_eq_ok_iff.1 h
    have hcombines := defined_and_iff.1 hdef
    refine ⟨?_, fun r' hr' => ?_⟩
    · have hfirst : Defined r.columns a r.rows := fun row hrow => (hcombines row hrow).left
      have hsecond : Defined r.columns b (r.rows.filter (holdsOn r.columns a)) := by
        intro row hrow
        obtain ⟨hrow, ha⟩ := List.mem_filter.1 hrow
        exact (hcombines row hrow).right ha
      rw [filter_holdsOn_and hdef]
      exact relation_filter_eq_ok_iff.2
        ⟨_, relation_filter_eq_ok_iff.2 ⟨r, hr, hfirst, rfl⟩, hsecond, rfl⟩
    · obtain rfl : r = r' := Except.ok.inj (hr.symm.trans hr')
      exact hcombines
  · rintro ⟨h, hcombines⟩
    obtain ⟨_, hfirst, _, rfl⟩ := relation_filter_eq_ok_iff.1 h
    obtain ⟨r, hr, _, rfl⟩ := relation_filter_eq_ok_iff.1 hfirst
    have hdef : Defined r.columns (.binary .and a b t) r.rows := defined_and_iff.2 (hcombines r hr)
    exact relation_filter_eq_ok_iff.2 ⟨r, hr, hdef, by rw [filter_holdsOn_and hdef]⟩

/-- A filter by TRUE keeps everything. -/
theorem relation_filter_of_isTrue (h : b.isTrue = true) :
    relation tables (.filter x b) = .ok s ↔ relation tables x = .ok s := by
  obtain ⟨t, rfl⟩ := eq_of_isTrue h
  have hfilter : ∀ r : Relation,
      r.rows.filter (holdsOn r.columns (.const (.bool true) t)) = r.rows :=
    fun r => List.filter_eq_self.2 fun row _ => rfl
  rw [relation_filter_eq_ok_iff]
  constructor
  · rintro ⟨r, hr, _, rfl⟩
    rw [hfilter]
    exact hr
  · intro hs
    exact ⟨s, hs, fun row _ => rfl, by rw [hfilter]⟩

/-- What the lowered filter returns, the two filters return, and what the two filters return, the
lowered one returns exactly when the second is by TRUE or their predicates can be combined on every
row of the input. -/
theorem run_lowerNode_filter_filter :
    run tables (lowerNode (.filter (.filter x a) b)) = .ok v ↔
      run tables (.filter (.filter x a) b) = .ok v ∧
        (b.isTrue = true ∨
          ∀ r, relation tables x = .ok r → ∀ row ∈ r.rows, Combines r.columns a b row) := by
  rw [run_eq_ok_iff (e := .filter (.filter x a) b) rfl]
  by_cases hb : b.isTrue = true
  · have hlower : lowerNode (.filter (.filter x a) b) = .filter x a := if_pos hb
    rw [hlower, run_eq_ok_iff rfl]
    simp only [relation_filter_of_isTrue hb, hb, true_or, and_true]
  · have hlower : lowerNode (.filter (.filter x a) b) = .filter x (.binary .and a b .bool) :=
      if_neg hb
    rw [hlower, run_eq_ok_iff rfl, or_iff_right hb]
    constructor
    · rintro ⟨s, hs, hv⟩
      obtain ⟨hs, hcombines⟩ := relation_filter_and_eq_ok_iff.1 hs
      exact ⟨⟨s, hs, hv⟩, hcombines⟩
    · rintro ⟨⟨s, hs, hv⟩, hcombines⟩
      exact ⟨s, relation_filter_and_eq_ok_iff.2 ⟨hs, hcombines⟩, hv⟩

/-- Two amounts, of which the first is not always known. -/
def amounts : Tables :=
  [("t", ⟨["a", "b"], [[.int 4, .int 2], [.null, .int 0]]⟩)]

/-- The rows of which the first amount is positive and the second divides four more than once. -/
def positiveParts : Expr :=
  .filter
    (.filter (mkScan (source ⟨"t", none⟩) "t") (mkBinary .gt (.column "t" "a" .int64) (.int 0)))
    (mkBinary .gt (mkBinary .divide (.int 4) (.column "t" "b" .int64)) (.int 1))

/-- The second row is dropped by the first filter, since its first amount is NULL. The conjunction
is not decided there and divides by zero. -/
theorem run_lowerNode_positiveParts :
    run amounts positiveParts = .ok (.rows ⟨["a", "b"], [[.int 4, .int 2]]⟩) ∧
      run amounts (lowerNode positiveParts) = .error (.eval .divisionByZero) :=
  ⟨rfl, rfl⟩

end Expr

end QueryTree
