import QueryTree.Proofs.RoundedIntegers

/-!
# Where sorting has no order

The comparison for sorting is meant as a total order of all values. It is oriented: from the other
side it has the opposite answer. But it is not transitive, and `Value.OutOfLine` has the triples
where it is not. They are of two sorts. Incomparable values are level, so anything may stand between
two values that are in the wrong order if it is comparable with neither, as a text between integers
or a NaN between doubles. And an integer is level with the double nearest to it, which may be
nearest to a smaller integer too. There are no others (`Value.sortCompare_gt_iff_outOfLine`).

The proof reads every comparison but that of two integers as one of measures, where numbers of both
kinds have their rank among the doubles. Measures are comparable in classes and transitive in each.
Since rounding keeps the order of integers, values in order have measures in order.
-/

namespace QueryTree

open Std

namespace Value

/-! ### Measures -/

/-- What a value is compared by. Numbers of both kinds go by their rank, which a NaN does not have.
-/
inductive Measure where
  | bool (b : Bool)
  | number (r : Option Binary64.Rank)
  | text (s : String)
  | bytes (data : List UInt8)
  | date (d : Date)
  | time (t : Time)
  | dateTime (dt : DateTime)
  /-- Of NULL and of what is no scalar. -/
  | nothing

/-- Compare two measures; those of different kinds are incomparable, and so is a number without a
rank. -/
def Measure.compare? : Measure → Measure → Option Ordering
  | .bool a, .bool b => some (compare a b)
  | .number a, .number b => a.bind fun x => b.map (Binary64.compareRank x)
  | .text a, .text b => some (compare a b)
  | .bytes a, .bytes b => some (compare a b)
  | .date a, .date b => some (compare a b)
  | .time a, .time b => some (compare a b)
  | .dateTime a, .dateTime b => some (compare a b)
  | _, _ => none

/-- The measure of a value. -/
def measure : Value → Measure
  | .bool b => .bool b
  | .int n => .number (Binary64.rank? (Float.ofInt n.toInt))
  | .float x => .number (Binary64.rank? x)
  | .text s => .text s
  | .bytes data => .bytes data
  | .date d => .date d
  | .time t => .time t
  | .dateTime dt => .dateTime dt
  | _ => .nothing

/-- What can be compared with the same in the middle can be compared, and in line. -/
theorem Measure.exists_compare?_trans {x y z : Measure} {o o' : Ordering}
    (hxy : x.compare? y = some o) (hyz : y.compare? z = some o') :
    ∃ o'', x.compare? z = some o'' ∧ (o.isLE = true → o'.isLE = true → o''.isLE = true) := by
  cases x <;> cases y <;> try cases hxy
  case number.number a b =>
    cases z <;> try cases hyz
    case number c =>
      obtain ⟨r, rfl, r', rfl, rfl⟩ :
          ∃ r, a = some r ∧ ∃ r', b = some r' ∧ Binary64.compareRank r r' = o := by
        simpa only [compare?, Option.bind_eq_some_iff, Option.map_eq_some_iff] using hxy
      obtain ⟨r'', rfl, rfl⟩ := Option.map_eq_some_iff.1 hyz
      exact ⟨_, rfl, TransCmp.isLE_trans⟩
  all_goals
    cases z <;> cases hyz
    exact ⟨_, rfl, TransCmp.isLE_trans⟩

/-- Values are compared by their measures, but for two integers. -/
theorem sqlCompare?_eq_measure {v w : Value} (h : ∀ m n, v = .int m → w ≠ .int n) :
    v.sqlCompare? w = v.measure.compare? w.measure := by
  cases v <;> cases w
  case int.int m n => exact absurd rfl (h m n rfl)
  case int.float | float.int | float.float => exact Binary64.compare?_eq _ _
  case bytes.bytes a b => exact congrArg some (compareBytes_eq_compare a b)
  all_goals rfl

/-- Integers in order have ranks in order. -/
theorem exists_rank?_int (m n : Int64) :
    ∃ x y, Binary64.rank? (Float.ofInt m.toInt) = some x ∧
      Binary64.rank? (Float.ofInt n.toInt) = some y ∧
      ((compare m n).isLE = true → (Binary64.compareRank x y).isLE = true) := by
  have hbounds : ∀ k : Int64, -2 ^ 64 < k.toInt ∧ k.toInt < 2 ^ 64 := by
    intro k
    have hle := k.le_toInt
    have hlt := k.toInt_lt
    omega
  obtain ⟨x, -, hx, -, -⟩ :=
    Binary64.exists_rank?_ofInt_le (Int.le_refl m.toInt) (hbounds m).1 (hbounds m).2
  obtain ⟨y, -, hy, -, -⟩ :=
    Binary64.exists_rank?_ofInt_le (Int.le_refl n.toInt) (hbounds n).1 (hbounds n).2
  refine ⟨x, y, hx, hy, fun h => ?_⟩
  have hle : m.toInt ≤ n.toInt := Int64.le_iff_toInt_le.1 (isLE_compare.1 h)
  obtain ⟨x', y', hx', hy', hxy⟩ := Binary64.exists_rank?_ofInt_le hle (hbounds m).1 (hbounds n).2
  obtain rfl := Option.some.inj (hx.symm.trans hx')
  obtain rfl := Option.some.inj (hy.symm.trans hy')
  exact hxy

/-- Comparable values have comparable measures, which are in order if the values are. -/
theorem exists_measure_of_sqlCompare? {v w : Value} {o : Ordering} (h : v.sqlCompare? w = some o) :
    ∃ o', v.measure.compare? w.measure = some o' ∧ (o.isLE = true → o'.isLE = true) := by
  by_cases hints : ∃ m n, v = .int m ∧ w = .int n
  · obtain ⟨m, n, rfl, rfl⟩ := hints
    obtain rfl := Option.some.inj h
    obtain ⟨x, y, hx, hy, hle⟩ := exists_rank?_int m n
    refine ⟨_, ?_, hle⟩
    rw [measure, measure, hx, hy]
    rfl
  · rw [sqlCompare?_eq_measure fun m n hv hw => hints ⟨m, n, hv, hw⟩] at h
    exact ⟨o, h, id⟩

/-- Comparable values fall into classes. -/
theorem exists_sqlCompare?_trans {u v w : Value} {o o' : Ordering} (huv : u.sqlCompare? v = some o)
    (hvw : v.sqlCompare? w = some o') : ∃ o'', u.sqlCompare? w = some o'' := by
  by_cases hints : ∃ m n, u = .int m ∧ w = .int n
  · obtain ⟨m, n, rfl, rfl⟩ := hints
    exact ⟨_, rfl⟩
  · obtain ⟨p, huv, -⟩ := exists_measure_of_sqlCompare? huv
    obtain ⟨p', hvw, -⟩ := exists_measure_of_sqlCompare? hvw
    obtain ⟨p'', huw, -⟩ := Measure.exists_compare?_trans huv hvw
    exact ⟨p'', by rw [sqlCompare?_eq_measure fun m n hu hw => hints ⟨m, n, hu, hw⟩, huw]⟩

/-! ### Sorting -/

/-- NULL is comparable with nothing. -/
theorem ne_null_of_sqlCompare? {v w : Value} {o : Ordering} (h : v.sqlCompare? w = some o) :
    v ≠ .null ∧ w ≠ .null := by
  constructor
  · rintro rfl
    cases w <;> cases h
  · rintro rfl
    cases v <;> cases h

/-- Without NULLs, values that are incomparable are level. -/
theorem sortCompare_of_ne_null {v w : Value} (hv : v ≠ .null) (hw : w ≠ .null) :
    v.sortCompare w = (v.sqlCompare? w).getD .eq := by
  cases v
  case null => exact absurd rfl hv
  all_goals
    cases w
    case null => exact absurd rfl hw
    all_goals rfl

/-- The sorting comparison is reversed from the other side. -/
theorem sortCompare_swap (v w : Value) : w.sortCompare v = (v.sortCompare w).swap := by
  by_cases hv : v = .null
  · subst hv
    cases w <;> rfl
  · by_cases hw : w = .null
    · subst hw
      cases v <;> rfl
    · rw [sortCompare_of_ne_null hv hw, sortCompare_of_ne_null hw hv, sqlCompare?_swap]
      cases v.sqlCompare? w <;> rfl

/-- NULL comes before all other values. -/
theorem ne_null_of_sortCompare {v w : Value} (h : v.sortCompare w ≠ .gt) (hv : v ≠ .null) :
    w ≠ .null := by
  rintro rfl
  cases v
  case null => exact hv rfl
  all_goals exact h rfl

/-- Three values that are not sorted in line, each of the first two being before the next or level
with it and the first after the last. -/
inductive OutOfLine : Value → Value → Value → Prop
  /-- The middle value is comparable with neither of the others. -/
  | apart {u v w : Value} (hv : v ≠ .null) (huv : u.sqlCompare? v = none)
      (hvw : v.sqlCompare? w = none) (huw : u.sqlCompare? w = some .gt) : OutOfLine u v w
  /-- The double is nearest to both integers. -/
  | rounded {m n : Int64} {x : Float} (hmn : n < m)
      (hm : Binary64.compare? (Float.ofInt m.toInt) x = some .eq)
      (hn : Binary64.compare? x (Float.ofInt n.toInt) = some .eq) :
      OutOfLine (.int m) (.float x) (.int n)

/-- Between integers in the wrong order there is only a double that both are rounded to. An integer
cannot be between them, since integers are compared exactly. A double is compared with the doubles
that they are rounded to, and these can be equal. -/
theorem outOfLine_of_int {m n : Int64} {v : Value} {o o' : Ordering} (hmn : compare m n = .gt)
    (hmv : (int m).sqlCompare? v = some o) (hvn : v.sqlCompare? (int n) = some o')
    (ho : o.isLE = true) (ho' : o'.isLE = true) : OutOfLine (int m) v (int n) := by
  cases v <;> try cases hmv
  case int k =>
    obtain rfl := Option.some.inj hvn
    have hle : (compare m n).isLE = true := TransOrd.isLE_trans ho ho'
    rw [hmn] at hle
    cases hle
  case float x =>
    have hnm : n < m := compare_eq_gt.1 hmn
    obtain ⟨a, c, ha, hc, hac⟩ := exists_rank?_int n m
    replace hac := hac (isLE_compare.2 (Int64.le_of_lt hnm))
    have hmx : Binary64.compare? (Float.ofInt m.toInt) x = some o := hmv
    have hxn : Binary64.compare? x (Float.ofInt n.toInt) = some o' := hvn
    rw [Binary64.compare?_eq, hc] at hmx
    obtain ⟨b, hb, rfl⟩ := Option.map_eq_some_iff.1 hmx
    rw [Binary64.compare?_eq, hb, ha] at hxn
    obtain rfl := Option.some.inj hxn
    have hcb : Binary64.compareRank c b = .eq :=
      OrientedCmp.isLE_antisymm ho (TransCmp.isLE_trans ho' hac)
    have hba : Binary64.compareRank b a = .eq :=
      OrientedCmp.isLE_antisymm ho' (TransCmp.isLE_trans hac ho)
    exact .rounded hnm (hmv.trans (congrArg some hcb)) (hvn.trans (congrArg some hba))

/-- Three values that are comparable with each other are out of line only by rounding. -/
theorem outOfLine_of_comparable {u v w : Value} {o o' : Ordering} (huv : u.sqlCompare? v = some o)
    (hvw : v.sqlCompare? w = some o') (huw : u.sqlCompare? w = some .gt) (ho : o.isLE = true)
    (ho' : o'.isLE = true) : OutOfLine u v w := by
  by_cases hints : ∃ m n, u = .int m ∧ w = .int n
  · obtain ⟨m, n, rfl, rfl⟩ := hints
    exact outOfLine_of_int (Option.some.inj huw) huv hvw ho ho'
  · obtain ⟨p, hp, hle⟩ := exists_measure_of_sqlCompare? huv
    obtain ⟨p', hp', hle'⟩ := exists_measure_of_sqlCompare? hvw
    obtain ⟨p'', hp'', hle''⟩ := Measure.exists_compare?_trans hp hp'
    rw [sqlCompare?_eq_measure fun m n hu hw => hints ⟨m, n, hu, hw⟩, hp''] at huw
    obtain rfl := Option.some.inj huw
    exact absurd (hle'' (hle ho) (hle' ho')) Bool.false_ne_true

/-- Values out of line are what the sorting comparison is not transitive on. -/
theorem OutOfLine.sortCompare {u v w : Value} (h : OutOfLine u v w) :
    u.sortCompare v ≠ .gt ∧ v.sortCompare w ≠ .gt ∧ u.sortCompare w = .gt := by
  cases h with
  | apart hv huv hvw huw =>
    obtain ⟨hu, hw⟩ := ne_null_of_sqlCompare? huw
    rw [sortCompare_of_ne_null hu hv, sortCompare_of_ne_null hv hw, sortCompare_of_ne_null hu hw, huv,
      hvw, huw]
    exact ⟨by decide, by decide, rfl⟩
  | @rounded m n x hmn hm hn =>
    have hmx : (int m).sortCompare (float x) = .eq := congrArg (fun o => o.getD .eq) hm
    have hxn : (float x).sortCompare (int n) = .eq := congrArg (fun o => o.getD .eq) hn
    rw [hmx, hxn]
    exact ⟨by decide, by decide, compare_eq_gt.2 hmn⟩

/-- Where a middle value other than NULL is not between, it is incomparable or rounded. -/
theorem outOfLine_of_sqlCompare? {u v w : Value} (hv : v ≠ .null) (huw : u.sqlCompare? w = some .gt)
    (huv : (u.sqlCompare? v).getD .eq ≠ .gt) (hvw : (v.sqlCompare? w).getD .eq ≠ .gt) :
    OutOfLine u v w := by
  -- the outer two are of one class, so the middle one is comparable with both or with neither
  cases ho : u.sqlCompare? v with
  | none =>
    cases ho' : v.sqlCompare? w with
    | none => exact .apart hv ho ho' huw
    | some o' =>
      have hwv : w.sqlCompare? v = some o'.swap := by
        rw [sqlCompare?_swap, ho']
        rfl
      obtain ⟨o, hsome⟩ := exists_sqlCompare?_trans huw hwv
      cases ho.symm.trans hsome
  | some o =>
    cases ho' : v.sqlCompare? w with
    | none =>
      have hvu : v.sqlCompare? u = some o.swap := by
        rw [sqlCompare?_swap, ho]
        rfl
      obtain ⟨o', hsome⟩ := exists_sqlCompare?_trans hvu huw
      cases ho'.symm.trans hsome
    | some o' =>
      rw [ho] at huv
      rw [ho'] at hvw
      exact outOfLine_of_comparable ho ho' huw (Ordering.isLE_iff_ne_gt.2 huv)
        (Ordering.isLE_iff_ne_gt.2 hvw)

/-- The comparison for sorting is oriented, and what keeps it from being a total preorder are just
the triples out of line. -/
theorem sortCompare_gt_iff_outOfLine (u v w : Value) :
    v.sortCompare u = (u.sortCompare v).swap ∧
      (u.sortCompare v ≠ .gt ∧ v.sortCompare w ≠ .gt ∧ u.sortCompare w = .gt ↔ OutOfLine u v w) := by
  refine ⟨sortCompare_swap u v, ⟨?_, OutOfLine.sortCompare⟩⟩
  rintro ⟨huv, hvw, huw⟩
  have hu : u ≠ .null := by
    rintro rfl
    cases w <;> cases huw
  have hv := ne_null_of_sortCompare huv hu
  have hw := ne_null_of_sortCompare hvw hv
  rw [sortCompare_of_ne_null hu hv] at huv
  rw [sortCompare_of_ne_null hv hw] at hvw
  rw [sortCompare_of_ne_null hu hw] at huw
  refine outOfLine_of_sqlCompare? hv ?_ huv hvw
  cases h : u.sqlCompare? w <;> rw [h] at huw <;> cases huw
  rfl

/-- A text between integers, a NaN between doubles, and the double nearest to two integers. -/
theorem sortCompare_not_transitive :
    ((int 2).sortCompare (text "x") = .eq ∧ (text "x").sortCompare (int 1) = .eq ∧
        (int 2).sortCompare (int 1) = .gt) ∧
      ((float 2).sortCompare (float (0 / 0)) = .eq ∧
        (float (0 / 0)).sortCompare (float 1) = .eq ∧ (float 2).sortCompare (float 1) = .gt) ∧
      (int 9007199254740993).sortCompare (float 9007199254740992) = .eq ∧
        (float 9007199254740992).sortCompare (int 9007199254740992) = .eq ∧
        (int 9007199254740993).sortCompare (int 9007199254740992) = .gt := by
  decide +kernel

end Value

end QueryTree
