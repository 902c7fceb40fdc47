import Mathlib.Data.List.Induction
import QueryTree.Proofs.FloatFree

/-!
# Set operations as operations on sets

Without ALL, a set operation lists the rows of a set: each of them once, in the order in which they
come first in the left relation, followed by the right one for a union (`ListsOnce`). Dropping
repeated rows does this for one list (`listsOnce_dedup`). It commutes with selecting rows
(`dedup_filter`), so an intersection and a difference list what is left of the left relation when
its repeated rows are gone.

The three then obey the laws of sets. What is in the difference and what is in the intersection make
up the left relation (`run_setOp_listsOnce`).
-/

namespace QueryTree

open Attempt

namespace SetOperator

/-- The row is in the set that the operation makes of two sets of rows. -/
def Selects (op : SetOperator) (left right : List Row) (row : Row) : Prop :=
  match op with
  | .union => row ∈ left ∨ row ∈ right
  | .intersect => row ∈ left ∧ row ∈ right
  | .except => row ∈ left ∧ row ∉ right

/-- The rows that an operation goes through. -/
def candidates (op : SetOperator) (left right : List Row) : List Row :=
  match op with
  | .union => left ++ right
  | .intersect | .except => left

end SetOperator

namespace Relation

variable {rows : List Row}

/-- The rows with a property, each once, in the order in which they first occur in `source`. -/
structure ListsOnce (P : Row → Prop) (source rows : List Row) : Prop where
  distinct : rows.Pairwise fun a b => (a == b) = false
  mem_iff : ∀ row, row ∈ rows ↔ P row
  ordered : rows.Pairwise fun a b => source.idxOf a < source.idxOf b

/-! ### First occurrences -/

theorem idxOf_lt_length_of_mem {row : Row} (hrow : Row.FloatFree row) (hmem : row ∈ rows) :
    rows.idxOf row < rows.length :=
  List.findIdx_lt_length_of_exists ⟨row, hmem, (row_beq_iff hrow).2 rfl⟩

/-- A row that is there already does not occur first among further rows. -/
theorem idxOf_append_of_mem {row : Row} (hrow : Row.FloatFree row) (hmem : row ∈ rows)
    (rest : List Row) : (rows ++ rest).idxOf row = rows.idxOf row := by
  rw [List.idxOf, List.findIdx_append]
  exact if_pos (idxOf_lt_length_of_mem hrow hmem)

/-- A row that is not there occurs first after them. -/
theorem length_le_idxOf_append (hfree : ∀ row ∈ rows, Row.FloatFree row) {row : Row}
    (hnew : row ∉ rows) (rest : List Row) : rows.length ≤ (rows ++ rest).idxOf row := by
  have hnone : rows.findIdx (· == row) = rows.length := by
    refine List.findIdx_eq_length_of_false fun other hother => ?_
    refine Bool.eq_false_iff.2 fun hbeq => hnew ?_
    rw [← (row_beq_iff (hfree other hother)).1 hbeq]
    exact hother
  rw [List.idxOf, List.findIdx_append, hnone, if_neg (Nat.lt_irrefl _)]
  exact Nat.le_add_left _ _

/-! ### Dropping repeated rows -/

/-- A row is added at the end unless it is there. -/
theorem dedup_append_singleton (rows : List Row) (row : Row) :
    dedup (rows ++ [row]) = if (dedup rows).contains row then dedup rows else dedup rows ++ [row] :=
  List.foldl_append

section FloatFree

variable (hfree : ∀ row ∈ rows, Row.FloatFree row)

include hfree

/-- Rows are added at the end, so the ones that occur first come first. By induction from the last
row, which is added if it has not occurred before, and then its index is greater than that of every
row in the result. -/
theorem dedup_ordered : (dedup rows).Pairwise fun a b => rows.idxOf a < rows.idxOf b := by
  induction rows using List.reverseRecOn with
  | nil => exact .nil
  | append_singleton rows row ih =>
    obtain ⟨hrows, hrow⟩ := List.forall_mem_append.1 hfree
    have hkept : (dedup rows).Pairwise fun a b =>
        (rows ++ [row]).idxOf a < (rows ++ [row]).idxOf b := by
      refine (ih hrows).imp_of_mem fun {a b} ha hb hlt => ?_
      have ha := mem_of_mem_dedup ha
      have hb := mem_of_mem_dedup hb
      rwa [idxOf_append_of_mem (hrows a ha) ha, idxOf_append_of_mem (hrows b hb) hb]
    rw [dedup_append_singleton]
    split
    next => exact hkept
    next hnew =>
      rw [contains_iff_mem (List.forall_mem_singleton.1 hrow), (dedup_spec hrows).2] at hnew
      refine List.pairwise_append.2 ⟨hkept, List.pairwise_singleton _ _, fun a ha b hb => ?_⟩
      obtain rfl := List.mem_singleton.1 hb
      have ha := mem_of_mem_dedup ha
      rw [idxOf_append_of_mem (hrows a ha) ha]
      exact Nat.lt_of_lt_of_le (idxOf_lt_length_of_mem (hrows a ha) ha)
        (length_le_idxOf_append hrows hnew _)

/-- Deduplication lists each row once, in the order of the first occurrences. -/
theorem listsOnce_dedup : ListsOnce (· ∈ rows) rows (dedup rows) where
  distinct := by
    refine (dedup_spec hfree).1.imp_of_mem fun {a b} ha hb hne => ?_
    exact Bool.eq_false_iff.2 fun hbeq => hne ((row_beq_iff (hfree a (mem_of_mem_dedup ha))).1 hbeq)
  mem_iff := (dedup_spec hfree).2
  ordered := dedup_ordered hfree

/-- Repeated rows can be dropped before rows are selected, or after. -/
theorem dedup_filter (keep : Row → Bool) : dedup (rows.filter keep) = (dedup rows).filter keep := by
  induction rows using List.reverseRecOn with
  | nil => rfl
  | append_singleton rows row ih =>
    obtain ⟨hrows, hrow⟩ := List.forall_mem_append.1 hfree
    have hrow := List.forall_mem_singleton.1 hrow
    have hcontains : ((dedup rows).filter keep).contains row =
        ((dedup rows).contains row && keep row) := by
      rw [Bool.eq_iff_iff, Bool.and_eq_true, contains_iff_mem hrow, contains_iff_mem hrow,
        List.mem_filter]
    rw [List.filter_append, dedup_append_singleton]
    cases hkeep : keep row with
    | false =>
      rw [List.filter_cons_of_neg (by simp [hkeep]), List.filter_nil, List.append_nil, ih hrows]
      split <;> simp [hkeep]
    | true =>
      rw [List.filter_cons_of_pos hkeep, List.filter_nil, dedup_append_singleton, ih hrows,
        hcontains, hkeep, Bool.and_true]
      split <;> simp [hkeep]

end FloatFree

/-! ### The three operations -/

/-- Some of the rows that are listed once are listed once. -/
theorem ListsOnce.filter {P : Row → Prop} {source : List Row} (h : ListsOnce P source rows)
    {keep : Row → Bool} {Q : Row → Prop} (hQ : ∀ row, Q row ↔ P row ∧ keep row = true) :
    ListsOnce Q source (rows.filter keep) where
  distinct := h.distinct.filter keep
  mem_iff row := by rw [List.mem_filter, h.mem_iff, hQ]
  ordered := h.ordered.filter keep

/-- Where rows that compare as equal are equal, no row is listed twice. -/
theorem ListsOnce.nodup {P : Row → Prop} {source : List Row} (h : ListsOnce P source rows)
    (hfree : ∀ row ∈ rows, Row.FloatFree row) : rows.Nodup := by
  refine h.distinct.imp_of_mem fun {a b} ha _ hbeq heq => ?_
  exact Bool.eq_false_iff.1 hbeq ((row_beq_iff (hfree a ha)).2 heq)

/-- Lists of the same rows differ in the order of the rows. -/
theorem ListsOnce.perm {P Q : Row → Prop} {source source' rows' : List Row}
    (h : ListsOnce P source rows) (h' : ListsOnce Q source' rows') (hPQ : ∀ row, P row ↔ Q row)
    (hfree : ∀ row, Q row → Row.FloatFree row) : rows.Perm rows' := by
  have hmem (row : Row) : row ∈ rows ↔ row ∈ rows' := by rw [h.mem_iff, h'.mem_iff, hPQ]
  have hfree' : ∀ row ∈ rows', Row.FloatFree row := fun row hrow => hfree row ((h'.mem_iff row).1 hrow)
  refine (List.perm_ext_iff_of_nodup (h.nodup fun row hrow => ?_) (h'.nodup hfree')).2 hmem
  exact hfree' row ((hmem row).1 hrow)

section Combine

variable {left right : List Row}

/-- A set operation lists once the rows that it selects, in the order in which it goes through them.
-/
theorem listsOnce_combine (op : SetOperator) (hleft : ∀ row ∈ left, Row.FloatFree row)
    (hright : ∀ row ∈ right, Row.FloatFree row) :
    ListsOnce (op.Selects left right) (op.candidates left right) (dedup (combine op left right)) := by
  cases op with
  | union =>
    have honce := listsOnce_dedup (List.forall_mem_append.2 ⟨hleft, hright⟩)
    exact ⟨honce.distinct, fun row => (honce.mem_iff row).trans List.mem_append, honce.ordered⟩
  | intersect =>
    rw [combine, dedup_filter hleft]
    refine (listsOnce_dedup hleft).filter fun row => and_congr_right fun hrow => ?_
    rw [contains_iff_mem (hleft row hrow)]
  | except =>
    rw [combine, dedup_filter hleft]
    refine (listsOnce_dedup hleft).filter fun row => and_congr_right fun hrow => ?_
    rw [Bool.not_eq_true', ← Bool.not_eq_true, contains_iff_mem (hleft row hrow)]

end Combine

/-- A set operation has a result where both sides have as many columns. -/
theorem setOperation_eq_ok (op : SetOperator) (all : Bool) (q : String) {l r : Relation}
    (hcolumns : l.columns.length = r.columns.length) :
    setOperation op all q l r = .ok ⟨l.columns.map fun c => (q, c.2),
      if all then combine op l.rows r.rows else dedup (combine op l.rows r.rows)⟩ := by
  unfold setOperation
  rw [if_neg (not_not.2 hcolumns)]
  rfl

end Relation

namespace Expr

open QueryTree.Relation

/-- Set operations without ALL over relations without doubles list the rows of the union, of the
intersection and of the difference, each once, in the order in which they first occur. The union of
the difference and the intersection has the rows of the left relation, each once. -/
theorem run_setOp_listsOnce {tables : Tables} {left right : Expr} {l r : Relation}
    (hl : relation tables left = .ok l) (hr : relation tables right = .ok r)
    (hcolumns : l.columns.length = r.columns.length)
    (hlfree : ∀ row ∈ l.rows, Row.FloatFree row) (hrfree : ∀ row ∈ r.rows, Row.FloatFree row) :
    (∀ op q, ∃ set, run tables (.setOp op false left right q) = .ok (.rows set) ∧
        set.columns = l.columns.map (·.2) ∧
        ListsOnce (op.Selects l.rows r.rows) (op.candidates l.rows r.rows) set.rows) ∧
      ∀ q q' q'', ∃ set once, run tables (.setOp .union false (.setOp .except false left right q)
          (.setOp .intersect false left right q') q'') = .ok (.rows set) ∧
        ListsOnce (· ∈ l.rows) l.rows once ∧ set.rows.Perm once := by
  have hrelation (op : SetOperator) (q : String) : relation tables (.setOp op false left right q) =
      .ok ⟨l.columns.map fun c => (q, c.2), dedup (combine op l.rows r.rows)⟩ :=
    relation_setOp_eq_ok_iff.2 ⟨l, r, hl, hr, setOperation_eq_ok op false q hcolumns⟩
  refine ⟨fun op q => ⟨_, (run_eq_ok_iff rfl).2 ⟨_, hrelation op q, rfl⟩, ?_,
    listsOnce_combine op hlfree hrfree⟩, fun q q' q'' => ?_⟩
  · rw [toRowSet, List.map_map]
    rfl
  · have hdifference := listsOnce_combine .except hlfree hrfree
    have hcommon := listsOnce_combine .intersect hlfree hrfree
    have hunion := listsOnce_combine .union
      (fun row hrow => hlfree row ((hdifference.mem_iff row).1 hrow).1)
      (fun row hrow => hlfree row ((hcommon.mem_iff row).1 hrow).1)
    have hset := setOperation_eq_ok .union false q''
      (l := ⟨l.columns.map fun c => (q, c.2), dedup (combine .except l.rows r.rows)⟩)
      (r := ⟨l.columns.map fun c => (q', c.2), dedup (combine .intersect l.rows r.rows)⟩)
      (by rw [List.length_map, List.length_map])
    refine ⟨_, dedup l.rows, (run_eq_ok_iff rfl).2 ⟨_, relation_setOp_eq_ok_iff.2
      ⟨_, _, hrelation .except q, hrelation .intersect q', hset⟩, rfl⟩, listsOnce_dedup hlfree, ?_⟩
    refine hunion.perm (listsOnce_dedup hlfree) (fun row => ?_) hlfree
    rw [SetOperator.Selects, hdifference.mem_iff, hcommon.mem_iff]
    -- a row of the left relation is in the right one or is not
    simp only [SetOperator.Selects, ← and_or_left, and_iff_left_iff_imp]
    exact fun _ => (em _).symm

/-- Rice twice, eggs, salt, and something unknown twice. -/
def stockedRows : List Row :=
  [[.text "rice"], [.null], [.list [.text "egg", .null]], [.text "rice"], [.text "salt"], [.null]]

/-- Salt, eggs and tea. -/
def wantedRows : List Row := [[.text "salt"], [.list [.text "egg", .null]], [.text "tea"]]

/-- What is in the pantry, and what is wanted. -/
def pantry : Tables := [("stock", ⟨["item"], stockedRows⟩), ("want", ⟨["item"], wantedRows⟩)]

/-- What there is. -/
def stockedItems : Expr := mkScan (source ⟨"stock", none⟩) "s"

/-- What is wanted. -/
def wantedItems : Expr := mkScan (source ⟨"want", none⟩) "w"

/-- NULL is one of the values, and an unknown thing that is there twice is listed once. -/
theorem run_setOp_listsOnce_pantry :
    (∃ set, run pantry (.setOp .except false stockedItems wantedItems "d") = .ok (.rows set) ∧
      set.rows = [[.text "rice"], [.null]] ∧
      ListsOnce (SetOperator.Selects .except stockedRows wantedRows) stockedRows set.rows) ∧
      ∃ set once, run pantry (.setOp .union false (.setOp .except false stockedItems wantedItems "d")
          (.setOp .intersect false stockedItems wantedItems "i") "u") = .ok (.rows set) ∧
        ListsOnce (· ∈ stockedRows) stockedRows once ∧ set.rows.Perm once ∧
        set.rows = [[.text "rice"], [.null], [.list [.text "egg", .null]], [.text "salt"]] := by
  have hl : relation pantry stockedItems = .ok ⟨[("s", "item")], stockedRows⟩ := rfl
  have hr : relation pantry wantedItems = .ok ⟨[("w", "item")], wantedRows⟩ := rfl
  have hlfree : ∀ row ∈ stockedRows, Row.FloatFree row := by
    unfold Row.FloatFree
    decide
  have hrfree : ∀ row ∈ wantedRows, Row.FloatFree row := by
    unfold Row.FloatFree
    decide
  obtain ⟨hop, hparts⟩ := run_setOp_listsOnce hl hr rfl hlfree hrfree
  obtain ⟨set, hset, _, hlists⟩ := hop .except "d"
  obtain ⟨parts, once, hunion, honce, hperm⟩ := hparts "d" "i" "u"
  refine ⟨⟨set, hset, ?_, hlists⟩, parts, once, hunion, honce, hperm, ?_⟩
  · exact congrArg RowSetOf.rows (Value.rows.inj (Except.ok.inj (hset.symm.trans rfl)))
  · exact congrArg RowSetOf.rows (Value.rows.inj (Except.ok.inj (hunion.symm.trans rfl)))

end Expr

end QueryTree
