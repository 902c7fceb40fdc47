import QueryTree.Proofs.OrderNormalization
import QueryTree.Proofs.Scope

/-!
# Where normalization leaves orderings

The order of rows counts at the end of a query and below a limit, and normalization leaves orderings
nowhere else: at the root, directly below a limit, or directly below the projection of the outermost
block. Below a join, a set operation or a further projection an ordering stands only under a limit.

What lifting does to each node is written down once, as rules (`Lifts`). Whether an ordering may
stand at a place depends on two facts about the nodes above it: that they are all transparent, and
that the nearest one is a limit or the outermost projection. `Clear` walks down a tree with these
two facts. Each rule of lifting keeps it (`Lifts.clear`), and along a path down the tree the two
facts are what the path shows (`clear_of_reached`).
-/

namespace QueryTree

namespace Expr

/-- The node passes the columns of its input on: a filter, an ordering or a limit. -/
def isTransparent : Expr → Bool
  | filter .. | order .. | limit .. => true
  | _ => false

/-- The node `n` is reached from the root through the inputs of nodes. The nodes `above` it are
those on the way, the nearest first. -/
inductive Reached (root : Expr) : List Expr → Expr → Prop
  | root : Reached root [] root
  | input {above : List Expr} {n m : Expr} (h : Reached root above n) (hm : m ∈ n.inputs) :
    Reached root (n :: above) m

end Expr

namespace OrderLifting

open QueryTree.Expr

/-! ### The rules of lifting -/

/-- A tree ordered by keys, unless it ends in a limit that orders by them already. -/
def orderedOnce (ks : List OrderKey) (e : Expr) : Expr :=
  if isLimitedBy ks e then e else orderedBy ks e

/-- The projection has no use for the keys of its input, or may not show them. -/
def DropsKeys (mode : Mode) (cs : List Column) (gs : List Expr) (ks : List OrderKey) : Prop :=
  ks = [] ∨ mode = .discard ∨ gs ≠ [] ∨ cs.any (fun c => c.expr.hasAggregate) = true

/-- Lifting takes the first tree to the second and brings up the keys. A projection has four rules:
it drops the keys, takes them through DISTINCT, leaves them below itself, or shows them as
columns. -/
inductive Lifts (flag : Bool) : Mode → Expr → Expr → List OrderKey → Prop
  | scan {mode : Mode} (source : Expr) (q : String) (t : LogicalType) :
    Lifts flag mode (.scan source q t) (.scan source q t) []
  | filter {mode : Mode} {input input' : Expr} {ks : List OrderKey} (p : Expr)
    (h : Lifts flag mode input input' ks) : Lifts flag mode (.filter input p) (.filter input' p) ks
  | order {mode : Mode} {input input' : Expr} {ks : List OrderKey} (outer : List OrderKey)
    (h : Lifts flag mode input input' ks) :
    Lifts flag mode (.order input outer) input' (mergeKeys outer ks)
  | limit {mode : Mode} {input input' : Expr} {ks : List OrderKey} (take skip : Option Expr)
    (h : Lifts flag mode input input' ks) :
    Lifts flag mode (.limit input take skip) (.limit (orderedBy ks input') take skip) ks
  | dropped {mode : Mode} {input input' : Expr} {ks : List OrderKey} (q : String) {cs : List Column}
    (d : Bool) {gs : List Expr} (h : Lifts flag .expose input input' ks)
    (hdrops : DropsKeys mode cs gs ks) :
    Lifts flag mode (.project q input cs d gs) (.project q input' cs d gs) []
  | distinct {mode : Mode} {input input' e' : Expr} {ks ks' : List OrderKey} {q : String}
    {cs : List Column} (h : Lifts flag .expose input input' ks) (hkeeps : ¬ DropsKeys mode cs [] ks)
    (hexpose : exposeDistinct flag q input' cs ks = (e', ks')) :
    Lifts flag mode (.project q input cs true []) e' ks'
  | placed {input input' : Expr} {ks : List OrderKey} (q : String) {cs : List Column}
    (h : Lifts flag .expose input input' ks) (hkeeps : ¬ DropsKeys .place cs [] ks) :
    Lifts flag .place (.project q input cs false [])
      (.project q (orderedOnce ks input') cs false []) []
  | exposed {input input' : Expr} {ks ks' : List OrderKey} {q : String} {cs cs' : List Column}
    (h : Lifts flag .expose input input' ks) (hkeeps : ¬ DropsKeys .expose cs [] ks)
    (hexpose : exposeKeys q (· == ·) id cs ks = (cs', ks')) :
    Lifts flag .expose (.project q input cs false []) (.project q input' cs' false []) ks'
  | join {mode : Mode} {left left' right right' : Expr} {ls rs : List OrderKey} (kind : JoinKind)
    (on : Option Expr) (hl : Lifts flag .expose left left' ls)
    (hr : Lifts flag .expose right right' rs) :
    Lifts flag mode (.join kind left right on) (.join kind left' right' on) (mergeKeys ls rs)
  | setOp {mode : Mode} {left left' right right' : Expr} {ls rs : List OrderKey} (op : SetOperator)
    (all : Bool) (q : String) (hl : Lifts flag .discard left left' ls)
    (hr : Lifts flag .discard right right' rs) :
    Lifts flag mode (.setOp op all left right q) (.setOp op all left' right' q) []

section Rules

variable {flag : Bool} {mode : Mode} {e e' input input' : Expr} {ks ks' : List OrderKey}
  {q : String} {cs : List Column} {d : Bool} {gs : List Expr}

/-- The condition under which the keys are dropped, as it is computed. -/
theorem dropsKeys_iff :
    (ks.isEmpty || mode = .discard || !gs.isEmpty ||
      cs.any (fun c => c.expr.hasAggregate)) = true ↔ DropsKeys mode cs gs ks := by
  simp [DropsKeys, or_assoc]

/-- A projection that drops the keys is left as it is. -/
theorem liftProjection_of_dropsKeys (h : DropsKeys mode cs gs ks) :
    liftProjection flag mode q cs d gs input ks = (.project q input cs d gs, []) :=
  if_pos (dropsKeys_iff.2 h)

/-- A projection that does not drop the keys takes them through DISTINCT, leaves them below itself,
or shows them. -/
theorem liftProjection_of_not_dropsKeys (h : ¬ DropsKeys mode cs gs ks) :
    liftProjection flag mode q cs d gs input ks =
      if d then exposeDistinct flag q input cs ks
      else if mode = .place then
        (.project q (if isLimitedBy ks input then input else .order input ks) cs d gs, [])
      else
        (.project q input (exposeKeys q (· == ·) id cs ks).1 d gs,
          (exposeKeys q (· == ·) id cs ks).2) :=
  if_neg (mt dropsKeys_iff.1 h)

theorem order_eq_orderedBy (h : ks ≠ []) : .order input ks = orderedBy ks input := by
  unfold orderedBy
  rw [if_neg (by simpa using h)]

/-- The ordering that a projection leaves below itself is there once. -/
theorem orderedOnce_eq (h : ¬ DropsKeys mode cs gs ks) :
    (if isLimitedBy ks input then input else .order input ks) = orderedOnce ks input := by
  rw [order_eq_orderedBy fun hks => h (.inl hks)]
  rfl

/-- One of the four rules is that of the projection. Which one it is depends on whether the keys are
dropped, on whether the rows are distinct, and on the mode. -/
theorem lifts_project (h : Lifts flag .expose input input' ks)
    (he' : liftProjection flag mode q cs d gs input' ks = (e', ks')) :
    Lifts flag mode (.project q input cs d gs) e' ks' := by
  by_cases hdrops : DropsKeys mode cs gs ks
  · rw [liftProjection_of_dropsKeys hdrops] at he'
    cases he'
    exact .dropped q d h hdrops
  · rw [liftProjection_of_not_dropsKeys hdrops] at he'
    obtain rfl : gs = [] := by
      by_contra hgs
      exact hdrops (.inr (.inr (.inl hgs)))
    cases d with
    | true => exact .distinct h hdrops he'
    | false =>
      cases mode with
      | discard => exact absurd (.inr (.inl rfl)) hdrops
      | place =>
        cases he'
        rw [orderedOnce_eq hdrops]
        exact .placed q h hdrops
      | expose =>
        cases he'
        exact .exposed h hdrops rfl

/-- The rules of the relation are steps of the algorithm. Together with `lifts_of_lift_eq` this
makes the relation the graph of the algorithm, so that proofs can go by induction on a derivation.
-/
theorem Lifts.lift_eq (h : Lifts flag mode e e' ks) : lift flag mode e = .ok (e', ks) := by
  induction h with
  | scan source q t => rfl
  | filter p _ ih => rw [lift, ih]; rfl
  | order outer _ ih => rw [lift, ih]; rfl
  | limit take skip _ ih => rw [lift, ih]; rfl
  | dropped q d _ hdrops ih =>
    rw [lift, ih]
    exact congrArg Except.ok (liftProjection_of_dropsKeys hdrops)
  | distinct _ hkeeps hexpose ih =>
    rw [lift, ih]
    exact congrArg Except.ok ((liftProjection_of_not_dropsKeys hkeeps).trans hexpose)
  | placed q _ hkeeps ih =>
    rw [lift, ih, ← orderedOnce_eq hkeeps]
    exact congrArg Except.ok (liftProjection_of_not_dropsKeys hkeeps)
  | exposed _ hkeeps hexpose ih =>
    rw [lift, ih]
    refine congrArg Except.ok ((liftProjection_of_not_dropsKeys hkeeps).trans ?_)
    rw [hexpose]
    rfl
  | join kind on _ _ ihl ihr =>
    rw [lift, ihl]
    exact Attempt.bind_eq_ok_iff.2 ⟨_, rfl, Attempt.bind_eq_ok_iff.2 ⟨_, ihr, rfl⟩⟩
  | setOp op all q _ _ ihl ihr =>
    rw [lift, ihl]
    exact Attempt.bind_eq_ok_iff.2 ⟨_, rfl, Attempt.bind_eq_ok_iff.2 ⟨_, ihr, rfl⟩⟩

/-- Every result of the algorithm follows from the rules. By induction on the tree; the nodes
without a rule are those that the algorithm refuses. -/
theorem lifts_of_lift_eq (h : lift flag mode e = .ok (e', ks)) : Lifts flag mode e e' ks := by
  induction e using treeInduction generalizing mode e' ks with
  | scan source q t _ =>
    cases h
    exact .scan source q t
  | filter input p ih _ =>
    obtain ⟨⟨input', ks⟩, hinput, h⟩ := Attempt.bind_eq_ok_iff.1 h
    cases h
    exact .filter p (ih hinput)
  | order input outer ih _ =>
    obtain ⟨⟨input', ks⟩, hinput, h⟩ := Attempt.bind_eq_ok_iff.1 h
    cases h
    exact .order outer (ih hinput)
  | limit input take skip ih _ _ =>
    obtain ⟨⟨input', ks⟩, hinput, h⟩ := Attempt.bind_eq_ok_iff.1 h
    cases h
    exact .limit take skip (ih hinput)
  | project q input cs d gs ih _ _ =>
    obtain ⟨⟨input', ks⟩, hinput, h⟩ := Attempt.bind_eq_ok_iff.1 h
    exact lifts_project (ih hinput) (Except.ok.inj h)
  | join kind left right on ihl ihr _ =>
    obtain ⟨⟨left', ls⟩, hleft, h⟩ := Attempt.bind_eq_ok_iff.1 h
    obtain ⟨⟨right', rs⟩, hright, h⟩ := Attempt.bind_eq_ok_iff.1 h
    cases h
    exact .join kind on (ihl hleft) (ihr hright)
  | setOp op all left right q ihl ihr =>
    obtain ⟨⟨left', ls⟩, hleft, h⟩ := Attempt.bind_eq_ok_iff.1 h
    obtain ⟨⟨right', rs⟩, hright, h⟩ := Attempt.bind_eq_ok_iff.1 h
    cases h
    exact .setOp op all q (ihl hleft) (ihr hright)
  | _ => cases h

/-- Lifting gives exactly what the rules give. -/
theorem lift_eq_ok_iff : lift flag mode e = .ok (e', ks) ↔ Lifts flag mode e e' ks :=
  ⟨lifts_of_lift_eq, Lifts.lift_eq⟩

/-- Normalization lifts for the outermost block and orders what it gets. -/
theorem normalize_eq_ok_iff :
    normalize flag e = .ok e' ↔
      ∃ lifted ks, Lifts flag .place e lifted ks ∧ orderedOnce ks lifted = e' := by
  refine Attempt.bind_eq_ok_iff.trans ?_
  simp only [Attempt.pure_eq_ok_iff, Prod.exists, lift_eq_ok_iff]
  rfl

end Rules

/-! ### Trees without misplaced orderings -/

/-- No ordering of the tree is out of place or without keys. That only transparent nodes stand above
is `outer`, and that an ordering may stand at the root of the tree is `here`. -/
def Clear : (outer here : Bool) → Expr → Prop
  | outer, here, .order input ks => here = true ∧ ks ≠ [] ∧ Clear outer false input
  | outer, _, .filter input _ => Clear outer false input
  | outer, _, .limit input _ _ => Clear outer true input
  | outer, _, .project _ input _ _ _ => Clear false outer input
  | _, _, .join _ left right _ => Clear false false left ∧ Clear false false right
  | _, _, .setOp _ _ left right _ => Clear false false left ∧ Clear false false right
  | _, _, _ => True

section Clear

variable {flag outer : Bool} {mode : Mode} {e e' : Expr} {ks : List OrderKey}

/-- Where no ordering may stand, none does, so the tree may stand elsewhere. -/
theorem Clear.anywhere (h : Clear outer false e) (here : Bool) : Clear outer here e := by
  cases e with
  | order input ks => cases h.1
  | _ => exact h

/-- An ordering by the lifted keys is in place where an ordering may stand. -/
theorem Clear.orderedBy (h : Clear outer false e) (ks : List OrderKey) :
    Clear outer true (OrderLifting.orderedBy ks e) := by
  unfold OrderLifting.orderedBy
  by_cases hks : ks.isEmpty = true
  · rw [if_pos hks]
    exact h.anywhere true
  · rw [if_neg hks]
    exact ⟨rfl, by simpa using hks, h⟩

/-- So is one that is left out because a limit orders already. -/
theorem Clear.orderedOnce (h : Clear outer false e) (ks : List OrderKey) :
    Clear outer true (OrderLifting.orderedOnce ks e) := by
  unfold OrderLifting.orderedOnce
  by_cases hlimited : isLimitedBy ks e = true
  · rw [if_pos hlimited]
    exact h.anywhere true
  · rw [if_neg hlimited]
    exact h.orderedBy ks

/-- Lifting takes every ordering away, and puts orderings back in their places only. -/
theorem Lifts.clear (h : Lifts flag mode e e' ks) : Clear (mode = .place) false e' := by
  induction h with
  | scan source q t => trivial
  | filter p _ ih => exact ih
  | order outer _ ih => exact ih
  | limit take skip _ ih => exact ih.orderedBy _
  | dropped q d _ _ ih => exact ih.anywhere _
  | distinct _ _ hexpose ih =>
    obtain rfl := congrArg Prod.fst hexpose
    exact ih.anywhere _
  | placed q _ _ ih => exact ih.orderedOnce _
  | exposed _ _ _ ih => exact ih
  | join kind on _ _ ihl ihr => exact ⟨ihl, ihr⟩
  | setOp op all q _ _ ihl ihr => exact ⟨ihl, ihr⟩

end Clear

/-! ### Along a path -/

/-- Only transparent nodes stand above. -/
def isOuter (above : List Expr) : Bool := above.all isTransparent

/-- An ordering may stand below these nodes: at the root, below a limit, or below the projection of
the outermost block. -/
def allowsOrder : List Expr → Bool
  | [] => true
  | .limit .. :: _ => true
  | .project .. :: above => isOuter above
  | _ => false

/-- The node is the start of a query of its own inside of another one: a join, a set operation, or a
projection that is not that of the outermost block. -/
def opensSubquery (n : Expr) (above : List Expr) : Bool :=
  match n with
  | .join .. | .setOp .. => true
  | .project .. => !isOuter above
  | _ => false

section Path

variable {root n : Expr} {above : List Expr}

/-- What a path shows of the nodes above is what the walk down the tree keeps track of. By induction
on the path: `isOuter` and `allowsOrder` are read off the nodes above, and each step changes them as
`Clear` does on its way down. -/
theorem clear_of_reached (h : Reached root above n) (hroot : Clear true true root) :
    Clear (isOuter above) (allowsOrder above) n := by
  induction h with
  | root => exact hroot
  | @input above n m _ hm ih =>
    cases n with
    | filter input p =>
      obtain rfl := List.mem_singleton.1 hm
      exact ih
    | order input ks =>
      obtain rfl := List.mem_singleton.1 hm
      exact ih.2.2
    | limit input take skip =>
      obtain rfl := List.mem_singleton.1 hm
      exact ih
    | project q input cs d gs =>
      obtain rfl := List.mem_singleton.1 hm
      exact ih
    | join kind left right on =>
      rcases List.mem_pair.1 hm with rfl | rfl
      · exact ih.1
      · exact ih.2
    | setOp op all left right q =>
      rcases List.mem_pair.1 hm with rfl | rfl
      · exact ih.1
      · exact ih.2
    | _ => cases hm

/-- The three places below which an ordering may stand. -/
theorem exists_of_allowsOrder (h : allowsOrder above = true) :
    above = [] ∨ (∃ input take skip rest, above = .limit input take skip :: rest) ∨
      ∃ q input cs d gs rest, above = .project q input cs d gs :: rest ∧
        ∀ n ∈ rest, n.isTransparent = true := by
  cases above with
  | nil => exact .inl rfl
  | cons n rest =>
    cases n with
    | limit input take skip => exact .inr (.inl ⟨input, take, skip, rest, rfl⟩)
    | project q input cs d gs =>
      exact .inr (.inr ⟨q, input, cs, d, gs, rest, rfl, List.all_eq_true.1 h⟩)
    | _ => cases h

/-- Among the nodes above the outermost block's projection no subquery starts, and neither does one
with that projection itself. -/
theorem opensSubquery_eq_false {q : String} {input : Expr} {cs : List Column} {d : Bool}
    {gs : List Expr} {rest inner outer : List Expr}
    (hrest : ∀ n ∈ rest, n.isTransparent = true)
    (h : .project q input cs d gs :: rest = inner ++ n :: outer) :
    opensSubquery n outer = false := by
  cases inner with
  | nil =>
    obtain ⟨rfl, rfl⟩ := List.cons.inj h
    have houter : isOuter rest = true := List.all_eq_true.2 hrest
    simp [opensSubquery, houter]
  | cons m inner =>
    obtain ⟨_, rfl⟩ := List.cons.inj h
    have hn := hrest n (by simp)
    cases n with
    | filter | order | limit => rfl
    | _ => cases hn

end Path

/-! ### Normalization -/

/-- Every ordering of a normalized tree has keys and stands at the root, directly below a limit, or
directly below the projection of the outermost block. Inside of a join, a set operation or a nested
projection it stands directly below a limit. -/
theorem placed_of_normalize {flag : Bool} {e e' input : Expr} {above : List Expr}
    {ks : List OrderKey} (h : normalize flag e = .ok e')
    (hreached : Reached e' above (.order input ks)) :
    ks ≠ [] ∧
      (above = [] ∨ (∃ input take skip rest, above = .limit input take skip :: rest) ∨
        ∃ q input cs d gs rest, above = .project q input cs d gs :: rest ∧
          ∀ n ∈ rest, n.isTransparent = true) ∧
      ∀ inner n outer, above = inner ++ n :: outer → opensSubquery n outer = true →
        ∃ input take skip rest, above = .limit input take skip :: rest := by
  obtain ⟨lifted, lks, hlifts, rfl⟩ := normalize_eq_ok_iff.1 h
  have hclear : Clear true true (orderedOnce lks lifted) := Clear.orderedOnce hlifts.clear lks
  obtain ⟨hallowed, hks, _⟩ := clear_of_reached hreached hclear
  have hplaces := exists_of_allowsOrder hallowed
  refine ⟨hks, hplaces, fun inner n outer habove hopens => ?_⟩
  rcases hplaces with rfl | hlimit | ⟨q, input, cs, d, gs, rest, rfl, hrest⟩
  · simp at habove
  · exact hlimit
  · rw [opensSubquery_eq_false hrest habove] at hopens
    cases hopens

/-- All teams. -/
def teamTable : Expr := mkScan (source ⟨"team", none⟩) "u"

/-- By the label of the task. -/
def byLabel : List OrderKey := [⟨.column "t" "label" .string, .ascending⟩]

/-- The first two tasks by label. -/
def firstTasks : Expr := .limit (.order taskScan byLabel) (some (.int 2)) none

/-- The teams by name, of which only the number is shown. -/
def teamsByName : Expr :=
  .project "p" (.order teamTable [⟨.column "u" "name" .string, .descending⟩])
    [⟨"id", .column "u" "id" .int64⟩] false []

/-- The teams, with the name shown too. -/
def namedTeams : Expr :=
  .project "p" teamTable [⟨"id", .column "u" "id" .int64⟩, ⟨"name", .column "u" "name" .string⟩]
    false []

/-- The first tasks, each with all teams. -/
def firstTasksWith (teams : Expr) : Expr := .join .cross firstTasks teams none

/-- The tasks by label, and for each of them the teams by name. -/
def sortedPairs : Expr :=
  .order (firstTasksWith namedTeams) (byLabel ++ [⟨.column "p" "name" .string, .descending⟩])

/-- The numbers of tasks and teams. -/
def numbersOf (pairs : Expr) : Expr :=
  .project "q" pairs
    [⟨"task", .column "t" "id" .int64⟩, ⟨"team", .column "p" "id" .int64⟩] false []

/-- The teams lose their ordering to the outermost block. The limit on the other side of the join
keeps the one that it selects by. -/
theorem placed_of_normalize_firstTasks :
    normalize false (numbersOf (firstTasksWith teamsByName)) = .ok (numbersOf sortedPairs) ∧
      Reached (numbersOf sortedPairs)
        [firstTasks, firstTasksWith namedTeams, sortedPairs, numbersOf sortedPairs]
        (.order taskScan byLabel) ∧
      byLabel ≠ [] ∧ ∃ input take skip rest,
        [firstTasks, firstTasksWith namedTeams, sortedPairs, numbersOf sortedPairs] =
          .limit input take skip :: rest := by
  have hnormalize :
      normalize false (numbersOf (firstTasksWith teamsByName)) = .ok (numbersOf sortedPairs) := rfl
  have hreached : Reached (numbersOf sortedPairs)
      [firstTasks, firstTasksWith namedTeams, sortedPairs, numbersOf sortedPairs]
      (.order taskScan byLabel) :=
    .input (.input (.input (.input .root (.head _)) (.head _)) (.head _)) (.head _)
  obtain ⟨hks, _, hnested⟩ := placed_of_normalize hnormalize hreached
  exact ⟨hnormalize, hreached, hks, hnested [firstTasks] _ _ rfl rfl⟩

end OrderLifting

end QueryTree
