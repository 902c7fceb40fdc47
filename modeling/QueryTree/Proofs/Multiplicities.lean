import QueryTree.Proofs.FloatFree
import QueryTree.Proofs.Rendering

/-!
# How often a row occurs in a set operation

With ALL, a set operation of SQL is one on bags: it says of every row how often it occurs, and this
depends on how often the row occurs on either side (`SetOperator.multiplicity`). The relation of
such a tree has the rows of both sides one after the other for a union. For the other two operators
each row of the left side stays or goes as a whole, by whether the right side has it at all
(`count_combine`). That is what SQL asks for as long as the right side does not have the row, or has
it no less often than the left side (`count_setOp_all`).
-/

namespace QueryTree

namespace SetOperator

/-- How often SQL has a row in the result of the operation with ALL, where the sides have it `l` and
`m` times. -/
def multiplicity (op : SetOperator) (l m : Nat) : Nat :=
  match op with
  | .union => l + m
  | .intersect => min l m
  | .except => l - m

/-- How often the relation of the operation has such a row. -/
def occurrences (op : SetOperator) (l m : Nat) : Nat :=
  match op with
  | .union => l + m
  | .intersect => if m = 0 then 0 else l
  | .except => if m = 0 then l else 0

/-- The two counts agree exactly for UNION, for a row that is not on the right, and for one that is
there often enough. -/
theorem occurrences_eq_multiplicity_iff (op : SetOperator) (l m : Nat) :
    op.occurrences l m = op.multiplicity l m ↔ op = .union ∨ m = 0 ∨ l ≤ m := by
  cases op with
  | union => simp [occurrences, multiplicity]
  | intersect =>
    simp only [occurrences, multiplicity, reduceCtorEq, false_or]
    split_ifs <;> omega
  | except =>
    simp only [occurrences, multiplicity, reduceCtorEq, false_or]
    split_ifs <;> omega

end SetOperator

namespace Relation

variable {left right : List Row} {row : Row}

/-- A row that is equal to none of them is counted nowhere. -/
theorem count_eq_zero_of_notMem (hfree : ∀ row ∈ left, Row.FloatFree row) (hrow : row ∉ left) :
    left.count row = 0 := by
  rw [List.count, List.countP_eq_zero]
  intro row' hrow' hbeq
  obtain rfl := (row_beq_iff (hfree row' hrow')).1 hbeq
  exact hrow hrow'

/-- A row without doubles is on the right exactly if it is counted there. -/
theorem mem_iff_count_ne_zero (hrow : Row.FloatFree row)
    (hfree : ∀ row ∈ right, Row.FloatFree row) : row ∈ right ↔ right.count row ≠ 0 := by
  constructor
  · intro hmem
    rw [List.count, ne_eq, List.countP_eq_zero]
    intro hnone
    exact hnone row hmem ((row_beq_iff hrow).2 rfl)
  · intro hcount
    by_contra hmem
    exact hcount (count_eq_zero_of_notMem hfree hmem)

/-- A filter keeps all copies of a row or none. -/
theorem count_filter_row (hfree : ∀ row ∈ left, Row.FloatFree row) (keep : Row → Bool) (row : Row) :
    (left.filter keep).count row = if keep row then left.count row else 0 := by
  have hkeep : ∀ row' ∈ left, (row' == row && keep row') = true ↔
      (row' == row && keep row) = true := by
    intro row' hrow'
    rw [Bool.and_eq_true, Bool.and_eq_true]
    refine and_congr_right fun hbeq => ?_
    rw [(row_beq_iff (hfree row' hrow')).1 hbeq]
  rw [List.count, List.countP_filter, List.countP_congr hkeep]
  cases keep row with
  | true => simp
  | false => simp

/-- How often a row occurs after a set operation that keeps repeated rows. A row without doubles
passes the test of membership just in case it is there, so that occurrences can be counted. -/
theorem count_combine (op : SetOperator) (hleft : ∀ row ∈ left, Row.FloatFree row)
    (hright : ∀ row ∈ right, Row.FloatFree row) (row : Row) :
    (combine op left right).count row = op.occurrences (left.count row) (right.count row) := by
  by_cases hrow : row ∈ left
  · have hcontains : right.contains row = true ↔ right.count row ≠ 0 :=
      (contains_iff_mem (hleft row hrow)).trans (mem_iff_count_ne_zero (hleft row hrow) hright)
    cases op with
    | union => exact List.count_append
    | intersect =>
      have hcount := count_filter_row hleft right.contains row
      rw [combine, hcount, SetOperator.occurrences]
      simp only [hcontains, ne_eq, ite_not]
    | except =>
      have hcount := count_filter_row hleft (fun row => !right.contains row) row
      rw [combine, hcount, SetOperator.occurrences]
      simp only [Bool.not_eq_true', ← Bool.not_eq_true, hcontains, ne_eq, not_not]
  · -- what is not on the left is in the result of a union alone
    have hnone := count_eq_zero_of_notMem hleft hrow
    have hfilter (keep : Row → Bool) : (left.filter keep).count row = 0 := by
      rw [count_filter_row hleft, hnone, ite_self]
    cases op with
    | union => exact List.count_append
    | intersect => rw [combine, hfilter, hnone, SetOperator.occurrences, ite_self]
    | except => rw [combine, hfilter, hnone, SetOperator.occurrences, ite_self]

end Relation

namespace Expr

open Attempt

/-- A set operation with ALL over relations without doubles has a relation. A row occurs in it as
often as SQL prescribes just in case the operation is a union, or the right side does not have the
row, or has it no less often than the left side. The statement of the tree is that operation with
ALL, between the statements of the branches. -/
theorem count_setOp_all {tables : Tables} (op : SetOperator) {left right : Expr} (q : String)
    {l r : Relation} (hl : relation tables left = .ok l) (hr : relation tables right = .ok r)
    (hcolumns : l.columns.length = r.columns.length)
    (hlfree : ∀ row ∈ l.rows, Row.FloatFree row) (hrfree : ∀ row ∈ r.rows, Row.FloatFree row) :
    (∃ set, run tables (.setOp op true left right q) = .ok (.rows set) ∧ ∀ row,
        set.rows.count row = op.occurrences (l.rows.count row) (r.rows.count row) ∧
        (set.rows.count row = op.multiplicity (l.rows.count row) (r.rows.count row) ↔
          op = .union ∨ r.rows.count row = 0 ∨ l.rows.count row ≤ r.rows.count row)) ∧
      ∀ d a b, Sql.query d left = .ok a → Sql.query d right = .ok b →
        Sql.query d (.setOp op true left right q) =
          .ok (Sql.branch left a ++ Sql.word (Sql.setText op true) ++ Sql.branch right b) := by
  refine ⟨⟨⟨l.columns.map (·.2), Relation.combine op l.rows r.rows⟩, ?_, fun row => ?_⟩, ?_⟩
  · have hset : Relation.setOperation op true q l r =
        .ok ⟨l.columns.map fun c => (q, c.2), Relation.combine op l.rows r.rows⟩ := by
      unfold Relation.setOperation
      rw [if_neg (not_not.2 hcolumns)]
      rfl
    refine (run_eq_ok_iff rfl).2 ⟨_, relation_setOp_eq_ok_iff.2 ⟨l, r, hl, hr, hset⟩, ?_⟩
    rw [Relation.toRowSet, List.map_map]
    rfl
  · have hcount := Relation.count_combine op hlfree hrfree row
    refine ⟨hcount, ?_⟩
    rw [hcount]
    exact op.occurrences_eq_multiplicity_iff _ _
  · intro d a b ha hb
    rw [Sql.query_of_setParts (Block.setParts?_split_setOp op true left right q)]
    exact bind_eq_ok_iff.2 ⟨a, ha, bind_eq_ok_iff.2 ⟨b, hb, rfl⟩⟩

/-- What was ordered: pens twice, something unknown, and ink. -/
def orderedRows : List Row := [[.text "pen"], [.null], [.text "pen"], [.text "ink"]]

/-- What was delivered: pens three times, and something unknown twice. -/
def deliveredRows : List Row :=
  [[.text "pen"], [.null], [.null], [.text "pen"], [.text "pen"]]

/-- Items that were ordered, and items that have come. -/
def shipments : Tables :=
  [("ordered", ⟨["item"], orderedRows⟩), ("delivered", ⟨["item"], deliveredRows⟩)]

/-- The items ordered. -/
def orderedItems : Expr := mkScan (source ⟨"ordered", none⟩) "o"

/-- The items delivered. -/
def deliveredItems : Expr := mkScan (source ⟨"delivered", none⟩) "d"

/-- No row is on the left more often than on the right unless it is missing there, so INTERSECT ALL
counts as SQL does. -/
theorem count_setOp_all_shipments :
    ∃ set, run shipments (.setOp .intersect true orderedItems deliveredItems "s") =
        .ok (.rows set) ∧
      set.rows.count [.text "pen"] = SetOperator.multiplicity .intersect 2 3 ∧
      set.rows.count [.null] = SetOperator.multiplicity .intersect 1 2 ∧
      set.rows.count [.text "ink"] = SetOperator.multiplicity .intersect 1 0 := by
  have hordered : ∀ row ∈ orderedRows, Row.FloatFree row := by
    unfold Row.FloatFree
    decide
  have hdelivered : ∀ row ∈ deliveredRows, Row.FloatFree row := by
    unfold Row.FloatFree
    decide
  have hl : relation shipments orderedItems = .ok ⟨[("o", "item")], orderedRows⟩ := rfl
  have hr : relation shipments deliveredItems = .ok ⟨[("d", "item")], deliveredRows⟩ := rfl
  obtain ⟨⟨set, hrun, hcount⟩, _⟩ :=
    count_setOp_all .intersect "s" hl hr rfl hordered hdelivered
  refine ⟨set, hrun, ?_, ?_, ?_⟩
  · exact (hcount [.text "pen"]).2.2 (.inr (.inr (by decide)))
  · exact (hcount [.null]).2.2 (.inr (.inr (by decide)))
  · exact (hcount [.text "ink"]).2.2 (.inr (.inl rfl))

/-- The other way round, the pen that has come and was not ordered is among the pens that were, and
goes with them when they are taken away. -/
theorem count_setOp_all_ne_multiplicity :
    deliveredRows.count [.text "pen"] = 3 ∧ orderedRows.count [.text "pen"] = 2 ∧
      (∃ set, run shipments (.setOp .intersect true deliveredItems orderedItems "s") =
          .ok (.rows set) ∧
        set.rows.count [.text "pen"] = 3 ∧ SetOperator.multiplicity .intersect 3 2 = 2) ∧
      ∃ set, run shipments (.setOp .except true deliveredItems orderedItems "s") =
          .ok (.rows set) ∧
        set.rows.count [.text "pen"] = 0 ∧ SetOperator.multiplicity .except 3 2 = 1 :=
  ⟨rfl, rfl, ⟨_, rfl, rfl, rfl⟩, _, rfl, rfl, rfl⟩

end Expr

end QueryTree
