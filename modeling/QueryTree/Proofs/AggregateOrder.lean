import Mathlib.Data.List.Perm.Basic
import QueryTree.Pass.OrderLifting
import QueryTree.Proofs.FloatFree
import QueryTree.Proofs.Rows
import QueryTree.Proofs.RunningSums

/-!
# Aggregates and the order of rows

Where the argument of an aggregate is an integer or NULL on every row of a group, what enters the
aggregate is a list of integers (`summands`): those that are not NULL, and each once if the
aggregate is over distinct values. Another order of the rows is another order of this list
(`summands_perm`), and each order of the list comes from an order of the rows
(`exists_perm_summands`).

A count, a minimum and a maximum do not depend on that order (`aggregateValues_perm`). A sum does,
since it is checked at every step: two orders never give two values, but one of them can give an
error where the other gives a value. The main result says when they cannot.
-/

namespace QueryTree

open Attempt

namespace Relation

/-! ### First occurrences -/

section Dedup

variable {α : Type} [DecidableEq α]

/-- Of a list, each member is left once. -/
theorem dedup_members (xs : List α) : (dedup xs).Nodup ∧ ∀ x, x ∈ dedup xs ↔ x ∈ xs := by
  have hspec := foldl_add_spec id
    (fun (out : List α) x => if out.contains x then out else out ++ [x])
    (fun _ (_ : True) hmem => if_pos (List.contains_iff_mem.2 (by simpa using hmem)))
    (fun _ _ hnew => if_neg fun hin => hnew (by simpa using hin))
    xs [] (fun _ _ => trivial) List.nodup_nil
  simpa [dedup] using hspec

/-- Dropping repeats loses nothing but their number, so the order of the elements does not matter.
-/
theorem perm_dedup {xs ys : List α} (h : xs.Perm ys) : (dedup xs).Perm (dedup ys) := by
  obtain ⟨hnodup, hmem⟩ := dedup_members xs
  obtain ⟨hnodup', hmem'⟩ := dedup_members ys
  rw [List.perm_ext_iff_of_nodup hnodup hnodup']
  intro x
  rw [hmem, hmem', h.mem_iff]

/-- After members that differ, repetitions of them are dropped. -/
theorem dedup_append_of_subset {xs ys : List α} (hxs : xs.Nodup) (hys : ys ⊆ xs) :
    dedup (xs ++ ys) = xs := by
  let add (out : List α) (x : α) : List α := if out.contains x then out else out ++ [x]
  have hnew (as out : List α) (h : (out ++ as).Nodup) : as.foldl add out = out ++ as := by
    induction as generalizing out with
    | nil => exact (List.append_nil out).symm
    | cons a as ih =>
      have ha : a ∉ out := fun hmem => (List.nodup_append.1 h).2.2 a hmem a List.mem_cons_self rfl
      have hadd : add out a = out ++ [a] := if_neg fun hin => ha (List.contains_iff_mem.1 hin)
      rw [List.append_cons] at h ⊢
      rw [List.foldl_cons, hadd, ih _ h]
  have hold (as : List α) (h : as ⊆ xs) : as.foldl add xs = xs := by
    induction as with
    | nil => rfl
    | cons a as ih =>
      obtain ⟨ha, has⟩ := List.cons_subset.1 h
      have hadd : add xs a = xs := if_pos (List.contains_iff_mem.2 ha)
      rw [List.foldl_cons, hadd, ih has]
  have hdedup : dedup (xs ++ ys) = (xs ++ ys).foldl add [] := rfl
  rw [hdedup, List.foldl_append, hnew xs [] hxs, List.nil_append, hold ys hys]

end Dedup

/-- Integers are equal as values just in case they are equal. -/
theorem contains_map_int (ns : List Int64) (n : Int64) :
    (ns.map Value.int).contains (.int n) = ns.contains n := by
  induction ns with
  | nil => rfl
  | cons m ns ih =>
    rw [List.map_cons, List.contains_cons, List.contains_cons, ih]
    rfl

/-- Equal integers are equal as values, so repeats can be dropped on either side. -/
theorem dedup_map_int (ns : List Int64) : dedup (ns.map Value.int) = (dedup ns).map Value.int := by
  have hrun (ns out : List Int64) :
      (ns.map Value.int).foldl (fun out v => if out.contains v then out else out ++ [v])
          (out.map Value.int) =
        (ns.foldl (fun out n => if out.contains n then out else out ++ [n]) out).map Value.int := by
    induction ns generalizing out with
    | nil => rfl
    | cons n ns ih =>
      rw [List.map_cons, List.foldl_cons, List.foldl_cons, contains_map_int, ← ih]
      congr 1
      split
      · rfl
      · rw [List.map_append, List.map_singleton]
  exact hrun ns []

/-! ### What enters an aggregate -/

section Summands

variable {columns : List QualifiedName} {e : Expr} {group group' : List Row}

/-- On every row of the group the expression is an integer or NULL. -/
def IntegerValued (columns : List QualifiedName) (e : Expr) (group : List Row) : Prop :=
  ∀ row ∈ group, ∃ v, e.evaluate (rowEnv columns row) = .ok v ∧ v.FitsKind .int

/-- Whether the values are integers is a matter of each row. -/
theorem IntegerValued.perm (h : IntegerValued columns e group) (hperm : group'.Perm group) :
    IntegerValued columns e group' :=
  fun row hrow => h row (hperm.mem_iff.1 hrow)

/-- The integers that the expression has on the rows. -/
def integersOn (columns : List QualifiedName) (e : Expr) (group : List Row) : List Int64 :=
  group.filterMap fun row => (valueOn columns e row).asInt?

/-- The integers that enter an aggregate. -/
def summands (columns : List QualifiedName) (e : Expr) (distinct : Bool) (group : List Row) :
    List Int64 :=
  if distinct then dedup (integersOn columns e group) else integersOn columns e group

/-- A permutation of the group permutes what is summed. -/
theorem summands_perm (distinct : Bool) (hperm : group'.Perm group) :
    (summands columns e distinct group').Perm (summands columns e distinct group) := by
  have hintegers : (integersOn columns e group').Perm (integersOn columns e group) :=
    hperm.filterMap _
  cases distinct with
  | true => exact perm_dedup hintegers
  | false => exact hintegers

/-- An order of the results of a partial map comes from an order of its arguments. -/
theorem exists_perm_filterMap {α β : Type} {f : α → Option β} {l : List α} {ms : List β}
    (h : ms.Perm (l.filterMap f)) : ∃ l' : List α, l'.Perm l ∧ l'.filterMap f = ms := by
  induction ms generalizing l with
  | nil => exact ⟨l, .refl l, List.nil_perm.1 h⟩
  | cons m ms ih =>
    obtain ⟨a, ha, hm⟩ := List.mem_filterMap.1 (h.mem_iff.1 List.mem_cons_self)
    obtain ⟨front, back, rfl⟩ := List.append_of_mem ha
    -- the argument of the first result moves to the front
    have hfirst : (front ++ a :: back).Perm (a :: (front ++ back)) := List.perm_middle
    have hrest : ms.Perm ((front ++ back).filterMap f) := by
      have hall := h.trans (hfirst.filterMap f)
      rw [List.filterMap_cons_some hm] at hall
      exact hall.cons_inv
    obtain ⟨l', hl', rfl⟩ := ih hrest
    exact ⟨a :: l', (hl'.cons a).trans hfirst.symm, List.filterMap_cons_some hm⟩

/-- Every order of what enters an aggregate comes from an order of the rows. -/
theorem exists_perm_summands {distinct : Bool} {ms : List Int64}
    (h : ms.Perm (summands columns e distinct group)) :
    ∃ group', group'.Perm group ∧ summands columns e distinct group' = ms := by
  cases distinct with
  | false => exact exists_perm_filterMap h
  | true =>
    -- the first occurrences come first, in the wanted order, and the repetitions after them
    let ns := integersOn columns e group
    obtain ⟨hnodup, hmem⟩ := dedup_members ns
    have hms : ms.Perm (dedup ns) := h
    have hsubset : ms ⊆ ns := fun n hn => (hmem n).1 (hms.mem_iff.1 hn)
    have hperm : (ms ++ ns.diff ms).Perm ns :=
      List.subperm_append_diff_self_of_count_le fun n hn => by
        rw [List.count_eq_one_of_mem (hms.nodup_iff.2 hnodup) hn]
        exact List.count_pos_iff.2 (hsubset hn)
    obtain ⟨group', hgroup', heq⟩ := exists_perm_filterMap hperm
    refine ⟨group', hgroup', ?_⟩
    have hrest : ns.diff ms ⊆ ms := fun n hn =>
      hms.mem_iff.2 ((hmem n).2 (List.diff_subset ns ms hn))
    exact (congrArg dedup heq).trans (dedup_append_of_subset (hms.nodup_iff.2 hnodup) hrest)

/-- Among integers and NULLs, the values that are not NULL are the integers. -/
theorem map_int_filterMap (vs : List Value) (h : ∀ v ∈ vs, v.FitsKind .int) :
    (vs.filter fun v => !v.isNull) = (vs.filterMap Value.asInt?).map .int := by
  induction vs with
  | nil => rfl
  | cons v vs ih =>
    obtain ⟨⟨x, rfl⟩, hvs⟩ := List.forall_mem_cons.1 h
    cases x with
    | none => exact ih hvs
    | some n => exact congrArg (Value.int n :: ·) (ih hvs)

/-- An aggregate over integers is computed from them. -/
theorem aggregate_eq (h : IntegerValued columns e group) (function : AggregateFunction)
    (distinct : Bool) :
    aggregate columns group function (some e) distinct =
      aggregateValues function ((summands columns e distinct group).map .int) := by
  have hvalues : group.mapM (fun row => e.evaluate (rowEnv columns row)) =
      .ok (group.map (valueOn columns e)) := by
    refine mapM_eq_ok_map fun row hrow => ?_
    obtain ⟨v, hv, _⟩ := h row hrow
    exact evaluate_valueOn hv
  have hpresent : ((group.map (valueOn columns e)).filter fun v => !v.isNull) =
      (integersOn columns e group).map .int := by
    rw [map_int_filterMap, List.filterMap_map]
    · rfl
    · refine List.forall_mem_map.2 fun row hrow => ?_
      obtain ⟨v, hv, hkind⟩ := h row hrow
      rwa [valueOn_eq hv]
  have hrun : aggregate columns group function (some e) distinct =
      (liftEval (group.mapM fun row => e.evaluate (rowEnv columns row))).bind fun values =>
        aggregateValues function (if distinct then dedup (values.filter fun v => !v.isNull)
          else values.filter fun v => !v.isNull) := rfl
  rw [hrun, hvalues, liftEval, Except.bind, hpresent, summands]
  cases distinct with
  | true => rw [if_pos rfl, if_pos rfl, dedup_map_int]
  | false => rfl

end Summands

/-! ### Aggregates of integers -/

/-- The best integer so far, after one more. -/
def better (wanted : Ordering) : Option Int64 → Int64 → Option Int64
  | none, n => some n
  | some m, n => if compare n m = wanted then some n else some m

theorem compare_eq_lt_iff {n m : Int64} : compare n m = .lt ↔ n.toInt < m.toInt := by
  rw [Std.compare_eq_lt, Int64.lt_iff_toInt_lt]

theorem compare_eq_gt_iff {n m : Int64} : compare n m = .gt ↔ m.toInt < n.toInt := by
  rw [Std.compare_eq_gt, Int64.lt_iff_toInt_lt]

/-- Looking for the best value, two steps can change places, as two different integers are never
level. -/
theorem better_comm {wanted : Ordering} (h : wanted ≠ .eq) (best : Option Int64) (n m : Int64) :
    better wanted (better wanted best n) m = better wanted (better wanted best m) n := by
  cases wanted with
  | eq => exact absurd rfl h
  | lt =>
    cases best <;> grind [better, compare_eq_lt_iff, Int64.toInt_inj]
  | gt =>
    cases best <;> grind [better, compare_eq_gt_iff, Int64.toInt_inj]

/-- Among integers the extreme is found by comparing them. -/
theorem extreme_map_int (wanted : Ordering) (ns : List Int64) :
    extreme wanted (ns.map .int) = Value.Kind.int.value (ns.foldl (better wanted) none) := by
  have hrun (best : Option Int64) :
      (ns.map Value.int).foldl
          (fun best v => if best.isNull || v.sqlCompare? best == some wanted then v else best)
          (Value.Kind.int.value best) =
        Value.Kind.int.value (ns.foldl (better wanted) best) := by
    induction ns generalizing best with
    | nil => rfl
    | cons n ns ih =>
      rw [List.map_cons, List.foldl_cons, List.foldl_cons, ← ih]
      congr 1
      cases best with
      | none => rfl
      | some m =>
        have hstep : ((Value.Kind.int.value (some m)).isNull ||
            (Value.int n).sqlCompare? (Value.Kind.int.value (some m)) == some wanted) =
              decide (compare n m = wanted) := rfl
        rw [hstep, better]
        by_cases hbetter : compare n m = wanted
        · rw [if_pos (decide_eq_true hbetter), if_pos hbetter]
          rfl
        · rw [if_neg (by simpa using hbetter), if_neg hbetter]
  exact hrun none

/-- A list of integers is read back as integers, so their sum is computed as one of integers. -/
theorem mapM_asInt?_map_int (ns : List Int64) : (ns.map Value.int).mapM Value.asInt? = some ns := by
  induction ns with
  | nil => rfl
  | cons n ns ih =>
    rw [List.map_cons, List.mapM_cons, ih]
    rfl

/-- The sum of integers, if there are any, is their checked sum. -/
theorem sum_map_int {ns : List Int64} (hne : ns ≠ []) :
    sum (ns.map .int) =
      (sumInts? 0 ns).elim (.error (.other "SUM overflowed")) fun n => .ok (.int n) := by
  have hsome : (ns.map Value.int).isEmpty = false := by
    rw [List.isEmpty_map]
    exact List.isEmpty_eq_false_iff.2 hne
  rw [sum, hsome, mapM_asInt?_map_int]
  rfl

/-- All aggregates but sums and averages of integers are the same in every order. -/
theorem aggregateValues_perm {function : AggregateFunction} (havg : function ≠ .avg)
    (hsum : function ≠ .sum) {ns ms : List Int64} (h : ms.Perm ns) :
    aggregateValues function (ms.map .int) = aggregateValues function (ns.map .int) := by
  have hextreme {wanted : Ordering} (hw : wanted ≠ .eq) :
      extreme wanted (ms.map .int) = extreme wanted (ns.map .int) := by
    have : RightCommutative (better wanted) := ⟨better_comm hw⟩
    rw [extreme_map_int, extreme_map_int, h.foldl_eq]
  cases function with
  | count => rw [aggregateValues, aggregateValues, List.length_map, List.length_map, h.length_eq]
  | sum => exact absurd rfl hsum
  | avg => exact absurd rfl havg
  | min => exact congrArg Except.ok (hextreme (by decide))
  | max => exact congrArg Except.ok (hextreme (by decide))

/-- Two orders have the same sum or the same error just in case their checked sums agree. -/
theorem sum_eq_sum_iff {ns ms : List Int64} (h : ms.Perm ns) :
    sum (ms.map .int) = sum (ns.map .int) ↔ sumInts? 0 ms = sumInts? 0 ns := by
  by_cases hne : ns = []
  · subst hne
    obtain rfl := List.perm_nil.1 h
    exact iff_of_true rfl rfl
  · have hne' : ms ≠ [] := fun hms => hne (List.nil_perm.1 (hms ▸ h))
    have hinj : Function.Injective fun total : Option Int64 =>
        total.elim (Except.error (Fault.other "SUM overflowed")) fun n => .ok (Value.int n) := by
      rintro (_ | t) (_ | t') heq <;> cases heq <;> rfl
    rw [sum_map_int hne, sum_map_int hne']
    exact hinj.eq_iff

/-- Two orders never have two sums. -/
theorem sum_agree {ns ms : List Int64} (h : ms.Perm ns) :
    Agree (sum (ms.map .int)) (sum (ns.map .int)) := by
  intro v w hv hw
  by_cases hne : ns = []
  · subst hne
    obtain rfl := List.perm_nil.1 h
    exact Except.ok.inj (hw.symm.trans hv)
  · have hne' : ms ≠ [] := fun hms => hne (List.nil_perm.1 (hms ▸ h))
    rw [sum_map_int hne'] at hv
    rw [sum_map_int hne] at hw
    obtain ⟨t, ht, hv⟩ := elim_eq_ok_iff.1 hv
    obtain ⟨t', ht', hw⟩ := elim_eq_ok_iff.1 hw
    obtain rfl := sumInts?_agree h.symm ht ht'
    exact Except.ok.inj (hw.symm.trans hv)

/-- The only error of an aggregate of integers is the overflow of a sum. The average is left out by
hypothesis; of the other four, only the sum computes something that can fail. -/
theorem aggregateValues_eq_error {function : AggregateFunction} (havg : function ≠ .avg)
    {ns : List Int64} {fault : Fault}
    (h : aggregateValues function (ns.map .int) = .error fault) :
    function = .sum ∧ fault = .other "SUM overflowed" := by
  cases function with
  | count => cases h
  | avg => exact absurd rfl havg
  | min => cases h
  | max => cases h
  | sum =>
    refine ⟨rfl, ?_⟩
    have h : sum (ns.map .int) = .error fault := h
    by_cases hne : ns = []
    · subst hne
      cases h
    · rw [sum_map_int hne] at h
      cases hsum : sumInts? 0 ns with
      | none =>
        rw [hsum] at h
        exact (Except.error.inj h).symm
      | some t =>
        rw [hsum] at h
        cases h

/-! ### Groups in another order -/

section Groups

variable {columns : List QualifiedName} {group : List Row} {function : AggregateFunction}
  {arg : Option Expr} {distinct : Bool}

/-- Without an argument rows are counted, in whatever order. -/
theorem aggregate_none_perm {group' : List Row} (h : group'.Perm group) :
    aggregate columns group' function none distinct =
      aggregate columns group function none distinct :=
  congrArg (fun n => Except.ok (Value.int (Int64.ofNat n))) h.length_eq

/-- Aggregates of integers on the rows of a group in any order. Two orders never give two values,
the one error is an overflow, and all orders give the same just in case no sum is taken or the
summands are such that their order is of no account. -/
theorem aggregate_perm_iff (havg : function ≠ .avg)
    (harg : ∀ e ∈ arg, IntegerValued columns e group) :
    (∀ group', group'.Perm group →
      Agree (aggregate columns group' function arg distinct)
          (aggregate columns group function arg distinct) ∧
        ∀ fault, aggregate columns group' function arg distinct = .error fault →
          function = .sum ∧ fault = .other "SUM overflowed") ∧
    ((∀ group', group'.Perm group →
        aggregate columns group' function arg distinct =
          aggregate columns group function arg distinct) ↔
      ∀ e ∈ arg, function = .sum → OrderFree (summands columns e distinct group)) := by
  cases arg with
  | none =>
    refine ⟨fun group' hperm => ⟨?_, fun fault h => by cases h⟩,
      iff_of_true (fun group' hperm => aggregate_none_perm hperm) fun e he => by cases he⟩
    exact (Below.of_eq (aggregate_none_perm hperm)).agree
  | some e =>
    have hgroup : IntegerValued columns e group := harg e rfl
    refine ⟨fun group' hperm => ?_, ?_⟩
    · rw [aggregate_eq (hgroup.perm hperm), aggregate_eq hgroup]
      refine ⟨?_, fun fault h => aggregateValues_eq_error havg h⟩
      have hsummands : (summands columns e distinct group').Perm _ := summands_perm distinct hperm
      by_cases hsum : function = .sum
      · subst hsum
        exact sum_agree hsummands
      · exact (Below.of_eq (aggregateValues_perm havg hsum hsummands)).agree
    · rw [aggregate_eq hgroup]
      constructor
      · rintro hsame _ ⟨⟩ rfl
        refine (sumInts?_perm_iff _).1 fun ms hms => ?_
        obtain ⟨group', hperm, rfl⟩ := exists_perm_summands hms
        have heq := hsame group' hperm
        rw [aggregate_eq (hgroup.perm hperm)] at heq
        exact (sum_eq_sum_iff hms).1 heq
      · intro hfree group' hperm
        have hsummands : (summands columns e distinct group').Perm _ := summands_perm distinct hperm
        rw [aggregate_eq (hgroup.perm hperm)]
        by_cases hsum : function = .sum
        · subst hsum
          exact (sum_eq_sum_iff hsummands).2
            ((sumInts?_perm_iff _).2 (hfree e rfl rfl) _ hsummands)
        · exact aggregateValues_perm havg hsum hsummands

end Groups

/-! ### A balance at the limit -/

/-- Bookings of an account, with their days. -/
def bookingColumns : List QualifiedName := [("b", "day"), ("b", "amount")]

/-- The amount of a booking. -/
def amount : Expr := .column "b" "amount" .int64

/-- Rows of days and amounts. -/
def bookings (entries : List (Int64 × Option Int64)) : List Row :=
  entries.map fun entry => [.int entry.1, Value.Kind.int.value entry.2]

/-- Amounts are integers, or missing. -/
theorem integerValued_bookings (entries : List (Int64 × Option Int64)) :
    IntegerValued bookingColumns amount (bookings entries) := by
  refine List.forall_mem_map.2 fun entry _ => ⟨Value.Kind.int.value entry.2, ?_, entry.2, rfl⟩
  rfl

/-- The largest balance, and what is withdrawn from it. -/
def withdrawals : List Row :=
  bookings [(1, some Int64.maxValue), (2, some (-1)), (3, none), (4, some (-1))]

/-- Deposits and withdrawals whose totals both fit can be summed in every order. -/
theorem aggregate_perm_iff_withdrawals :
    IntegerValued bookingColumns amount withdrawals ∧
      ∀ group, group.Perm withdrawals →
        aggregate bookingColumns group .sum (some amount) false =
          .ok (.int (Int64.maxValue - 2)) := by
  have harg : ∀ e ∈ some amount, IntegerValued bookingColumns e withdrawals := by
    rintro _ ⟨⟩
    exact integerValued_bookings _
  have hfree : ∀ e ∈ some amount, AggregateFunction.sum = .sum →
      OrderFree (summands bookingColumns e false withdrawals) := by
    rintro _ ⟨⟩ - -
    have hsummands : summands bookingColumns amount false withdrawals =
      [Int64.maxValue, -1, -1] := rfl
    rw [hsummands]
    unfold Checked.Fits
    decide
  refine ⟨harg amount rfl, fun group hperm => ?_⟩
  have hsame : aggregate bookingColumns group .sum (some amount) false =
      aggregate bookingColumns withdrawals .sum (some amount) false :=
    (aggregate_perm_iff (by decide) harg).2.2 hfree group hperm
  rw [hsame]
  rfl

/-- The largest balance, a withdrawal and a deposit. -/
def daily : List Row :=
  bookings [(1, some Int64.maxValue), (2, some (-1)), (3, some 1), (4, none)]

/-- The same, with the deposit written down first. -/
def shuffled : List Row :=
  bookings [(1, some Int64.maxValue), (3, some 1), (2, some (-1)), (4, none)]

/-- The sum of the amounts, taken day after day. -/
def balance : Expr :=
  .project "s" (.order (Expr.mkScan (Expr.source ⟨"bookings", none⟩) "b")
    [⟨.column "b" "day" .int64, .ascending⟩])
    [⟨"balance", .aggregate .sum (some amount) false .int64⟩] false []

/-- The order of the rows decides between a balance and an overflow, with and without repetitions,
and so does lifting the ordering by day out of the sum. -/
theorem aggregate_perm_ne :
    IntegerValued bookingColumns amount shuffled ∧ daily.Perm shuffled ∧
      (∀ distinct,
        aggregate bookingColumns daily .sum (some amount) distinct =
            .ok (.int Int64.maxValue) ∧
          aggregate bookingColumns shuffled .sum (some amount) distinct =
            .error (.other "SUM overflowed")) ∧
      ∃ unordered, OrderLifting.normalize true balance = .ok unordered ∧
        Expr.run [("bookings", ⟨["day", "amount"], shuffled⟩)] balance =
          .ok (.rows ⟨["balance"], [[.int Int64.maxValue]]⟩) ∧
        Expr.run [("bookings", ⟨["day", "amount"], shuffled⟩)] unordered =
          .error (.other "SUM overflowed") := by
  refine ⟨integerValued_bookings _, (List.Perm.swap _ _ _).cons _, ?_, _, rfl, rfl, rfl⟩
  intro distinct
  cases distinct <;> exact ⟨rfl, rfl⟩

end Relation

end QueryTree
