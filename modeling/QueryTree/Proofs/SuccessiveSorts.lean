import QueryTree.Proofs.KeyExposure

/-!
# Sorting twice

Rows that are sorted by some keys and then by others are sorted once by all of them: the later keys
come first, and the earlier ones decide where those are level. A key whose expression has come
before decides nothing, even if its direction is the opposite, so the merged keys do
(`sort_sort_eq_sort_mergeKeys`).

What sorted rows are is said without the comparison (`InKeyOrder`). Values of one kind have an
order, with NULL before all of them (`Value.Before`), and a descending key turns it round. A row
comes before another if its value does at the first key on which they differ (`Precedes`). Rows that
agree on all keys stay as they were: as a part of the rows, a list of such rows is found before
sorting and after it, or neither time.
-/

namespace QueryTree

open Std

/-! ### Values in order -/

/-- An earlier time of the day. -/
def Time.Earlier (t t' : Time) : Prop :=
  t.second < t'.second ∨ t.second = t'.second ∧ t.nanosecond < t'.nanosecond

/-- An earlier date, or an earlier time of the same date. -/
def DateTime.Earlier (dt dt' : DateTime) : Prop :=
  dt.date.day < dt'.date.day ∨ dt.date = dt'.date ∧ dt.time.Earlier dt'.time

instance instLawfulEqOrdDate : LawfulEqOrd Date where
  eq_of_compare {a b} h := by
    have hday : a.day = b.day := Std.compare_eq_iff_eq.1 h
    cases a
    cases hday
    rfl

instance instLawfulEqOrdTime : LawfulEqOrd Time where
  eq_of_compare {a b} h := by
    obtain ⟨hsecond, hnanosecond⟩ := Ordering.then_eq_eq.1 h
    rw [Std.compare_eq_iff_eq] at hsecond hnanosecond
    cases a
    cases hsecond
    cases hnanosecond
    rfl

instance instLawfulEqOrdDateTime : LawfulEqOrd DateTime where
  eq_of_compare {a b} h := by
    obtain ⟨hdate, htime⟩ := Ordering.then_eq_eq.1 h
    rw [Std.compare_eq_iff_eq] at hdate htime
    cases a
    cases hdate
    cases htime
    rfl

/-- Dates are compared by their day. -/
theorem Date.compare_eq_lt_iff {a b : Date} : compare a b = .lt ↔ a.day < b.day :=
  compare_eq_lt (a := a.day)

/-- Times are compared by the second, and then by the nanosecond. -/
theorem Time.compare_eq_lt_iff {a b : Time} : compare a b = .lt ↔ a.Earlier b := by
  refine Ordering.then_eq_lt.trans ?_
  rw [compare_eq_lt, compare_eq_lt, Std.compare_eq_iff_eq]
  rfl

/-- Timestamps are compared by the date, and then by the time. -/
theorem DateTime.compare_eq_lt_iff {a b : DateTime} : compare a b = .lt ↔ a.Earlier b := by
  refine Ordering.then_eq_lt.trans ?_
  rw [Date.compare_eq_lt_iff, Time.compare_eq_lt_iff, Std.compare_eq_iff_eq]
  rfl

namespace Value

/-- Bytes are compared lexicographically. -/
theorem compareBytes_eq_lt_iff {a b : List UInt8} : compareBytes a b = .lt ↔ a < b := by
  induction a generalizing b with
  | nil => cases b <;> simp [compareBytes]
  | cons x a ih =>
    cases b with
    | nil => simp [compareBytes]
    | cons y b =>
      rw [compareBytes, Ordering.then_eq_lt, compare_eq_lt, Std.compare_eq_iff_eq, ih,
        List.cons_lt_cons_iff]

/-- The order of values of one kind, with NULL before all others. -/
inductive Before : Value → Value → Prop
  | null {v : Value} (h : v ≠ .null) : Before .null v
  | bool : Before (.bool false) (.bool true)
  | int {m n : Int64} (h : m < n) : Before (.int m) (.int n)
  | text {s t : String} (h : s < t) : Before (.text s) (.text t)
  | bytes {a b : List UInt8} (h : a < b) : Before (.bytes a) (.bytes b)
  | date {d d' : Date} (h : d.day < d'.day) : Before (.date d) (.date d')
  | time {t t' : Time} (h : t.Earlier t') : Before (.time t) (.time t')
  | dateTime {dt dt' : DateTime} (h : dt.Earlier dt') : Before (.dateTime dt) (.dateTime dt')

instance instLawfulEqOrdCarrier : (k : Kind) → LawfulEqOrd k.Carrier
  | .bool => inferInstanceAs (LawfulEqOrd Bool)
  | .int => inferInstanceAs (LawfulEqOrd Int64)
  | .text => inferInstanceAs (LawfulEqOrd String)
  | .bytes => inferInstanceAs (LawfulEqOrd (List UInt8))
  | .date => inferInstanceAs (LawfulEqOrd Date)
  | .time => inferInstanceAs (LawfulEqOrd Time)
  | .dateTime => inferInstanceAs (LawfulEqOrd DateTime)

variable {k : Kind} {v w : Value}

/-- Values of one kind are level only if they are equal. -/
theorem sortCompare_eq_eq_iff (hv : v.FitsKind k) (hw : w.FitsKind k) :
    v.sortCompare w = .eq ↔ v = w := by
  obtain ⟨x, rfl⟩ := hv
  obtain ⟨y, rfl⟩ := hw
  rw [sortCompare_value, Std.compare_eq_iff_eq]
  refine ⟨congrArg _, fun h => ?_⟩
  rw [← view?_value k x, h, view?_value]

/-- Members of a kind come in the order in which they compare. There is one case for each kind, in
which the order on its members is the one that is written out in `Before`. -/
theorem before_value_iff (a b : k.Carrier) :
    (k.value (some a)).Before (k.value (some b)) ↔ compare a b = .lt := by
  cases k with
  | bool =>
    constructor
    · intro h
      cases h
      rfl
    · intro h
      cases a <;> cases b <;> cases h
      exact .bool
  | int => exact ⟨fun h => by cases h; exact compare_eq_lt.2 ‹_›, fun h => .int (compare_eq_lt.1 h)⟩
  | text =>
    have hlt {s t : String} : compare s t = .lt ↔ s < t := compareOfLessAndEq_eq_lt
    exact ⟨fun h => by cases h; exact hlt.2 ‹_›, fun h => .text (hlt.1 h)⟩
  | bytes =>
    have hlt {s t : List UInt8} : compare s t = .lt ↔ s < t := by
      rw [← compareBytes_eq_compare, compareBytes_eq_lt_iff]
    exact ⟨fun h => by cases h; exact hlt.2 ‹_›, fun h => .bytes (hlt.1 h)⟩
  | date =>
    exact ⟨fun h => by cases h; exact Date.compare_eq_lt_iff.2 ‹_›,
      fun h => .date (Date.compare_eq_lt_iff.1 h)⟩
  | time =>
    exact ⟨fun h => by cases h; exact Time.compare_eq_lt_iff.2 ‹_›,
      fun h => .time (Time.compare_eq_lt_iff.1 h)⟩
  | dateTime =>
    exact ⟨fun h => by cases h; exact DateTime.compare_eq_lt_iff.2 ‹_›,
      fun h => .dateTime (DateTime.compare_eq_lt_iff.1 h)⟩

/-- Values of one kind are sorted in their order, NULL first. -/
theorem sortCompare_eq_lt_iff (hv : v.FitsKind k) (hw : w.FitsKind k) :
    v.sortCompare w = .lt ↔ v.Before w := by
  obtain ⟨x, rfl⟩ := hv
  obtain ⟨y, rfl⟩ := hw
  rw [sortCompare_value]
  have hnull : ∀ {u : Value}, ¬u.Before .null := by
    intro u h
    cases h with
    | null h => exact h rfl
  cases y with
  | none => cases x <;> exact iff_of_false (by intro h; cases h) hnull
  | some b =>
    cases x with
    | none => exact iff_of_true rfl (.null (by cases k <;> nofun))
    | some a => exact (before_value_iff a b).symm

end Value

/-! ### Rows in order -/

namespace Relation

open QueryTree.OrderLifting

variable {columns : List QualifiedName} {ks : List OrderKey} {rows : List Row}

/-- The rows have the same value at each of the keys. -/
def LevelOn (columns : List QualifiedName) (ks : List OrderKey) (a b : Row) : Prop :=
  ∀ k ∈ ks, valueOn columns k.expr a = valueOn columns k.expr b

/-- The first row comes before the second by its value at one key. -/
def KeyBefore (columns : List QualifiedName) (k : OrderKey) (a b : Row) : Prop :=
  match k.direction with
  | .ascending => (valueOn columns k.expr a).Before (valueOn columns k.expr b)
  | .descending => (valueOn columns k.expr b).Before (valueOn columns k.expr a)

/-- The first row comes before the second at the first key on which they differ. -/
def Precedes (columns : List QualifiedName) (ks : List OrderKey) (a b : Row) : Prop :=
  ∃ first k rest, ks = first ++ k :: rest ∧ LevelOn columns first a b ∧ KeyBefore columns k a b

/-- The rows as they are sorted: in the lexicographic order of the keys, and with the rows that are
level on all keys in the order in which they stood. -/
structure InKeyOrder (columns : List QualifiedName) (ks : List OrderKey) (rows sorted : List Row) :
    Prop where
  perm : sorted.Perm rows
  ordered : sorted.Pairwise fun a b => Precedes columns ks a b ∨ LevelOn columns ks a b
  level : ∀ group : List Row, (∀ a ∈ group, ∀ b ∈ group, LevelOn columns ks a b) →
    (group.Sublist sorted ↔ group.Sublist rows)

/-- Rows are level on keys if they are on the first and on the others. -/
theorem levelOn_cons {k : OrderKey} {a b : Row} :
    LevelOn columns (k :: ks) a b ↔
      valueOn columns k.expr a = valueOn columns k.expr b ∧ LevelOn columns ks a b :=
  List.forall_mem_cons

/-- A row precedes another at the first key, or is level there and precedes it at the others. -/
theorem precedes_cons {k : OrderKey} {a b : Row} :
    Precedes columns (k :: ks) a b ↔ KeyBefore columns k a b ∨
      valueOn columns k.expr a = valueOn columns k.expr b ∧ Precedes columns ks a b := by
  constructor
  · rintro ⟨first, k', rest, heq, hlevel, hbefore⟩
    cases first with
    | nil =>
      obtain ⟨rfl, rfl⟩ := List.cons.inj heq
      exact .inl hbefore
    | cons k'' first =>
      obtain ⟨rfl, rfl⟩ := List.cons.inj heq
      obtain ⟨hk, hfirst⟩ := List.forall_mem_cons.1 hlevel
      exact .inr ⟨hk, first, k', rest, rfl, hfirst, hbefore⟩
  · rintro (hbefore | ⟨hk, first, k', rest, rfl, hfirst, hbefore⟩)
    · exact ⟨[], k, ks, rfl, nofun, hbefore⟩
    · exact ⟨k :: first, k', rest, rfl, List.forall_mem_cons.2 ⟨hk, hfirst⟩, hbefore⟩

/-- The comparison by a key with values of one kind. -/
theorem keyCompare_iff {k : OrderKey} (h : Uniform columns k.expr rows) {a b : Row} (ha : a ∈ rows)
    (hb : b ∈ rows) :
    (keyCompare columns k a b = .lt ↔ KeyBefore columns k a b) ∧
      (keyCompare columns k a b = .eq ↔ valueOn columns k.expr a = valueOn columns k.expr b) := by
  obtain ⟨kind, hkind⟩ := h
  unfold keyCompare KeyBefore
  cases k.direction with
  | ascending =>
    exact ⟨Value.sortCompare_eq_lt_iff (hkind a ha) (hkind b hb),
      Value.sortCompare_eq_eq_iff (hkind a ha) (hkind b hb)⟩
  | descending =>
    exact ⟨Value.sortCompare_eq_lt_iff (hkind b hb) (hkind a ha),
      (Value.sortCompare_eq_eq_iff (hkind b hb) (hkind a ha)).trans eq_comm⟩

/-- The comparison by keys with values of one kind each. -/
theorem rowCompare_iff (h : ∀ k ∈ ks, Uniform columns k.expr rows) {a b : Row} (ha : a ∈ rows)
    (hb : b ∈ rows) :
    (rowCompare columns ks a b = .lt ↔ Precedes columns ks a b) ∧
      (rowCompare columns ks a b = .eq ↔ LevelOn columns ks a b) := by
  induction ks with
  | nil =>
    refine ⟨iff_of_false nofun ?_, iff_of_true rfl nofun⟩
    rintro ⟨first, k, rest, heq, -⟩
    cases first <;> cases heq
  | cons k ks ih =>
    obtain ⟨hk, hks⟩ := List.forall_mem_cons.1 h
    obtain ⟨hlt, heq⟩ := keyCompare_iff hk ha hb
    obtain ⟨ihlt, iheq⟩ := ih hks
    rw [rowCompare, Ordering.then_eq_lt, Ordering.then_eq_eq, precedes_cons, levelOn_cons, hlt, heq,
      ihlt, iheq]
    exact ⟨.rfl, .rfl⟩

/-- Elements that are level with each other stand in a sorted list as they stood before. -/
theorem filter_sortBy_of_level {α : Type} {cmp : α → α → Ordering} {xs : List α}
    (h : OrderOn cmp xs) {p : α → Bool}
    (hp : ∀ x ∈ xs.filter p, ∀ y ∈ xs.filter p, cmp x y = .eq) :
    (sortBy cmp xs).filter p = xs.filter p := by
  rw [← sortBy_filter h]
  refine sortBy_of_pairwise (h.mono fun x hx => (List.mem_filter.1 hx).1) ?_
  refine List.pairwise_of_forall_mem_list fun x hx y hy => ?_
  rw [hp x hx y hy]
  rfl

/-- Rows that are level with each other are a part of the sorted rows if they were one before. -/
theorem sublist_sortBy_iff (h : ∀ k ∈ ks, Uniform columns k.expr rows) {group : List Row}
    (hlevel : ∀ a ∈ group, ∀ b ∈ group, LevelOn columns ks a b) (hrows : ∀ a ∈ group, a ∈ rows) :
    group.Sublist (sortBy (rowCompare columns ks) rows) ↔ group.Sublist rows := by
  cases group with
  | nil => exact iff_of_true (List.nil_sublist _) (List.nil_sublist _)
  | cons a group =>
    have ha := hrows a List.mem_cons_self
    -- all of the group are found by their comparison with its first row
    let p (b : Row) : Bool := rowCompare columns ks a b == .eq
    have hp : ∀ b ∈ rows, p b = true ↔ LevelOn columns ks a b :=
      fun b hb => beq_iff_eq.trans (rowCompare_iff h ha hb).2
    have hfilter : (sortBy (rowCompare columns ks) rows).filter p = rows.filter p := by
      refine filter_sortBy_of_level (rowCompare_orderOn h) fun x hx y hy => ?_
      obtain ⟨hx, hax⟩ := List.mem_filter.1 hx
      obtain ⟨hy, hay⟩ := List.mem_filter.1 hy
      refine (rowCompare_iff h hx hy).2.2 fun k hk => ?_
      rw [← (hp x hx).1 hax k hk, (hp y hy).1 hay k hk]
    have hgroup : (a :: group).filter p = a :: group := by
      refine List.filter_eq_self.2 fun b hb => ?_
      exact (hp b (hrows b hb)).2 (hlevel a List.mem_cons_self b hb)
    constructor
    · intro hsub
      have hsub' := hsub.filter p
      rw [hgroup, hfilter] at hsub'
      exact hsub'.trans List.filter_sublist
    · intro hsub
      have hsub' := hsub.filter p
      rw [hgroup, ← hfilter] at hsub'
      exact hsub'.trans List.filter_sublist

/-- Rows sorted by keys of one kind each are in the order of the keys. -/
theorem inKeyOrder_sortBy (h : ∀ k ∈ ks, Uniform columns k.expr rows) :
    InKeyOrder columns ks rows (sortBy (rowCompare columns ks) rows) := by
  refine ⟨stableSort_perm _ rows, ?_, fun group hlevel => ⟨fun hsub => ?_, fun hsub => ?_⟩⟩
  · refine (sortBy_pairwise (rowCompare_orderOn h)).imp_of_mem fun {a b} ha hb hle => ?_
    obtain ⟨hlt, heq⟩ := rowCompare_iff h (mem_sortBy.1 ha) (mem_sortBy.1 hb)
    exact (Ordering.isLE_iff_eq_lt_or_eq_eq.1 hle).imp hlt.1 heq.1
  · exact (sublist_sortBy_iff h hlevel fun a ha => mem_sortBy.1 (hsub.subset ha)).1 hsub
  · exact (sublist_sortBy_iff h hlevel fun a ha => hsub.subset ha).2 hsub

/-! ### Sorting twice -/

/-- Sorting by inner keys and then by outer keys gives the rows that sorting by the merged keys
gives, and these are in the order of all keys, the outer ones first. -/
theorem sort_sort_eq_sort_mergeKeys {r : Relation} {outer inner : List OrderKey}
    (hfloat : ∀ k ∈ outer ++ inner, k.expr.holdsFloat = false)
    (hdefined : ∀ k ∈ outer ++ inner, Defined r.columns k.expr r.rows)
    (huniform : ∀ k ∈ outer ++ inner, Uniform r.columns k.expr r.rows) :
    ∃ s, (do (← r.sort inner).sort outer) = .ok s ∧ r.sort (mergeKeys outer inner) = .ok s ∧
      s.columns = r.columns ∧ InKeyOrder r.columns (outer ++ inner) r.rows s.rows := by
  obtain ⟨hdefOuter, hdefInner⟩ := List.forall_mem_append.1 hdefined
  obtain ⟨huniOuter, huniInner⟩ := List.forall_mem_append.1 huniform
  let s : Relation := ⟨r.columns, sortBy (rowCompare r.columns (outer ++ inner)) r.rows⟩
  have honce : sortBy (rowCompare r.columns (mergeKeys outer inner)) r.rows = s.rows := by
    refine sortBy_congr fun a ha b hb => ?_
    rw [rowCompare_mergeKeys huniform hfloat ha hb, rowCompare_append]
  have htwice : sortBy (rowCompare r.columns outer) (sortBy (rowCompare r.columns inner) r.rows) =
      s.rows := by
    rw [sortBy_sortBy (rowCompare_orderOn huniOuter) (rowCompare_orderOn huniInner),
      ← rowCompare_append]
  refine ⟨s, ?_, ?_, rfl, inKeyOrder_sortBy huniform⟩
  · refine Attempt.bind_eq_ok_iff.2 ⟨_, sort_eq_ok_iff.2 ⟨hdefInner, rfl⟩, ?_⟩
    refine sort_eq_ok_iff.2 ⟨fun k hk => (hdefOuter k hk).mono fun _ => mem_sortBy.1, ?_⟩
    rw [htwice]
  · have hmerged : ∀ k ∈ mergeKeys outer inner, Defined r.columns k.expr r.rows :=
      fun k hk => hdefined k (List.mem_append.2 (mem_of_mem_mergeKeys hk))
    exact sort_eq_ok_iff.2 ⟨hmerged, by rw [honce]⟩

/-- Tickets with the team they belong to and the day they are due. -/
def tickets : Relation where
  columns := [("t", "team"), ("t", "due"), ("t", "id")]
  rows := [[.text "a", .int 3, .int 1], [.null, .int 1, .int 2], [.text "b", .null, .int 3],
    [.text "a", .int 3, .int 4], [.text "a", .null, .int 5]]

/-- By the team, in descending order. -/
def byTeamDown : List OrderKey := [⟨.column "t" "team" .string, .descending⟩]

/-- By the day, and then by the team in the other direction. -/
def byDueAndTeam : List OrderKey :=
  [⟨.column "t" "due" .int64, .ascending⟩, ⟨.column "t" "team" .string, .ascending⟩]

/-- The last team comes first and the ticket of none at the end. In a team the ticket that is due on
no day comes first, and two that are due on one day stay as they were. -/
theorem sort_sort_tickets :
    mergeKeys byTeamDown byDueAndTeam =
        [⟨.column "t" "team" .string, .descending⟩, ⟨.column "t" "due" .int64, .ascending⟩] ∧
      tickets.sort (mergeKeys byTeamDown byDueAndTeam) = .ok ⟨tickets.columns,
        [[.text "b", .null, .int 3], [.text "a", .null, .int 5], [.text "a", .int 3, .int 1],
          [.text "a", .int 3, .int 4], [.null, .int 1, .int 2]]⟩ ∧
      ∃ s, (do (← tickets.sort byDueAndTeam).sort byTeamDown) = .ok s ∧
        tickets.sort (mergeKeys byTeamDown byDueAndTeam) = .ok s ∧ s.columns = tickets.columns ∧
        InKeyOrder tickets.columns (byTeamDown ++ byDueAndTeam) tickets.rows s.rows := by
  have hteam : Uniform tickets.columns (.column "t" "team" .string) tickets.rows := by
    refine ⟨.text, ?_⟩
    refine List.forall_mem_cons.2 ⟨⟨some "a", rfl⟩, List.forall_mem_cons.2 ⟨⟨none, rfl⟩, ?_⟩⟩
    refine List.forall_mem_cons.2 ⟨⟨some "b", rfl⟩, List.forall_mem_cons.2 ⟨⟨some "a", rfl⟩, ?_⟩⟩
    exact List.forall_mem_singleton.2 ⟨some "a", rfl⟩
  have hdue : Uniform tickets.columns (.column "t" "due" .int64) tickets.rows := by
    refine ⟨.int, ?_⟩
    refine List.forall_mem_cons.2 ⟨⟨some 3, rfl⟩, List.forall_mem_cons.2 ⟨⟨some 1, rfl⟩, ?_⟩⟩
    refine List.forall_mem_cons.2 ⟨⟨none, rfl⟩, List.forall_mem_cons.2 ⟨⟨some 3, rfl⟩, ?_⟩⟩
    exact List.forall_mem_singleton.2 ⟨none, rfl⟩
  have hdefined : ∀ k ∈ byTeamDown ++ byDueAndTeam,
      Defined tickets.columns k.expr tickets.rows := by
    intro k hk row hrow
    simp only [byTeamDown, byDueAndTeam, tickets, List.cons_append, List.nil_append, List.mem_cons,
      List.not_mem_nil, or_false] at hk hrow
    rcases hk with rfl | rfl | rfl <;> rcases hrow with rfl | rfl | rfl | rfl | rfl <;> rfl
  refine ⟨rfl, rfl, sort_sort_eq_sort_mergeKeys ?_ hdefined ?_⟩
  · exact List.forall_mem_cons.2 ⟨rfl, List.forall_mem_cons.2 ⟨rfl,
      List.forall_mem_singleton.2 rfl⟩⟩
  · exact List.forall_mem_cons.2 ⟨hteam, List.forall_mem_cons.2 ⟨hdue,
      List.forall_mem_singleton.2 hteam⟩⟩

end Relation

end QueryTree
