import QueryTree.Proofs.FloatFree
import QueryTree.Proofs.OrderPlacement

/-!
# Normalizing twice

Normalization leaves a normalized tree as it is (`normalize_normalize`).

The second run meets orderings of the first one, below limits and below the outermost projection,
and lifts keys from them once more. It may lift fewer keys than the first run, since most of the
orderings are gone. But it lifts no new ones, and every node deals with the keys that it gets as
before: a projection finds a column for each of them, a limit and the outermost block order by the
keys that were placed there, and these win over keys from below. `Fixed` says so of a lifted tree
and its keys; each rule of lifting brings it up from the inputs (`Lifts.fixed`).

For this, keys have to be told apart: the expressions of the keys of a tree are pairwise different
(`ProperKeys`), which merging establishes and exposing keeps.
-/

namespace QueryTree.OrderLifting

open QueryTree.Expr

/-! ### Merging -/

/-- The keys order by different expressions, which hold neither doubles nor aggregates. -/
structure ProperKeys (ks : List OrderKey) : Prop where
  nodup : (ks.map (·.expr)).Nodup
  floatFree : ∀ k ∈ ks, k.expr.holdsFloat = false
  aggregateFree : ∀ k ∈ ks, k.expr.hasAggregate = false

theorem properKeys_nil : ProperKeys [] where
  nodup := List.nodup_nil
  floatFree _ hk := absurd hk List.not_mem_nil
  aggregateFree _ hk := absurd hk List.not_mem_nil

/-- Among expressions without doubles one is equal to a given one exactly when that is there. -/
theorem any_beq_iff {α : Type} {f : α → Expr} {xs : List α} {e : Expr}
    (hf : ∀ x ∈ xs, (f x).holdsFloat = false) :
    xs.any (fun x => f x == e) = true ↔ e ∈ xs.map f := by
  rw [List.any_eq_true, List.mem_map]
  constructor
  · rintro ⟨x, hx, heq⟩
    exact ⟨x, hx, eq_of_beq_eq_true (hf x hx) heq⟩
  · rintro ⟨x, hx, rfl⟩
    exact ⟨x, hx, beq_self _ (hf x hx)⟩

/-- What the expressions of keys are among, each expression of a key is. -/
theorem exists_expr_eq {again ks : List OrderKey} (h : again.map (·.expr) ⊆ ks.map (·.expr))
    {k : OrderKey} (hk : k ∈ again) : ∃ k' ∈ ks, k'.expr = k.expr :=
  List.mem_map.1 (h (List.mem_map_of_mem hk))

/-- One more key, unless there is one of the same expression. -/
def addKey (merged : List OrderKey) (k : OrderKey) : List OrderKey :=
  if merged.any (·.expr == k.expr) then merged else merged ++ [k]

section Merge

variable {merged ks outer inner : List OrderKey} {k : OrderKey}

/-- A key of an expression that is there already is not added. -/
theorem addKey_of_mem (hf : ∀ m ∈ merged, m.expr.holdsFloat = false)
    (h : k.expr ∈ merged.map (·.expr)) : addKey merged k = merged :=
  if_pos ((any_beq_iff hf).2 h)

/-- A key of any other expression is added at the end. -/
theorem addKey_of_notMem (hf : ∀ m ∈ merged, m.expr.holdsFloat = false)
    (h : k.expr ∉ merged.map (·.expr)) : addKey merged k = merged ++ [k] :=
  if_neg fun hany => h ((any_beq_iff hf).1 hany)

/-- Merged keys have the expression of each outer and inner key once. -/
theorem mergeKeys_spec (hf : ∀ k ∈ outer ++ inner, k.expr.holdsFloat = false) :
    ((mergeKeys outer inner).map (·.expr)).Nodup ∧
      ∀ e, e ∈ (mergeKeys outer inner).map (·.expr) ↔
        e ∈ outer.map (·.expr) ∨ e ∈ inner.map (·.expr) := by
  obtain ⟨hnodup, hmem⟩ := foldl_add_spec (·.expr) addKey (fun hm _ => addKey_of_mem hm)
    (fun hm _ => addKey_of_notMem hm) (outer ++ inner) [] hf List.nodup_nil
  refine ⟨hnodup, fun e => (hmem e).trans ?_⟩
  rw [List.map_append, List.mem_append]
  exact or_iff_right List.not_mem_nil

/-- Merged keys are proper. -/
theorem properKeys_mergeKeys (hf : ∀ k ∈ outer ++ inner, k.expr.holdsFloat = false)
    (ha : ∀ k ∈ outer ++ inner, k.expr.hasAggregate = false) :
    ProperKeys (mergeKeys outer inner) where
  nodup := (mergeKeys_spec hf).1
  floatFree k hk := hf k (List.mem_append.2 (mem_of_mem_mergeKeys hk))
  aggregateFree k hk := ha k (List.mem_append.2 (mem_of_mem_mergeKeys hk))

/-- Proper keys are merged as they stand. -/
theorem foldl_addKey_of_nodup (ks merged : List OrderKey)
    (hf : ∀ k ∈ merged ++ ks, k.expr.holdsFloat = false)
    (h : ((merged ++ ks).map (·.expr)).Nodup) : ks.foldl addKey merged = merged ++ ks := by
  induction ks generalizing merged with
  | nil => exact (List.append_nil merged).symm
  | cons k ks ih =>
    have hk : k.expr ∉ merged.map (·.expr) := by
      rw [List.map_append, List.map_cons] at h
      intro hk
      exact (List.nodup_append.1 h).2.2 _ hk _ List.mem_cons_self rfl
    rw [List.foldl_cons, addKey_of_notMem (fun m hm => hf m (List.mem_append_left _ hm)) hk]
    have happend : merged ++ k :: ks = merged ++ [k] ++ ks := List.append_cons _ _ _
    rw [happend] at hf h ⊢
    exact ih _ hf h

/-- Merging keys of expressions that are there changes nothing. -/
theorem foldl_addKey_of_subset (hf : ∀ m ∈ merged, m.expr.holdsFloat = false)
    (h : ks.map (·.expr) ⊆ merged.map (·.expr)) : ks.foldl addKey merged = merged := by
  induction ks with
  | nil => rfl
  | cons k ks ih =>
    obtain ⟨hk, hks⟩ := List.cons_subset.1 h
    rw [List.foldl_cons, addKey_of_mem hf hk]
    exact ih hks

/-- Keys win over those from below that order by the same expressions. -/
theorem ProperKeys.mergeKeys_eq (hks : ProperKeys ks)
    (h : inner.map (·.expr) ⊆ ks.map (·.expr)) : mergeKeys ks inner = ks := by
  have hmerge : mergeKeys ks inner = (ks ++ inner).foldl addKey [] := rfl
  have hfold : ks.foldl addKey [] = ks := foldl_addKey_of_nodup ks [] hks.floatFree hks.nodup
  rw [hmerge, List.foldl_append, hfold]
  exact foldl_addKey_of_subset hks.floatFree h

end Merge

/-! ### Exposing -/

section Expose

variable {q : String} {isShown : Expr → Expr → Bool} {shown : Expr → Expr} {cs : List Column}
  {ks again : List OrderKey}

/-- A reference to the first of the columns that shows an expression. -/
def shownAs (q : String) (isShown : Expr → Expr → Bool) (cs : List Column) (e : Expr) : Expr :=
  .column q ((cs.find? fun c => isShown c.expr e).elim "" (·.name)) e.type

/-- Exposed keys refer to the first of the resulting columns that shows them: columns come to the
end, so a column that has been found stays the first one. -/
theorem exposeKeys_exprs (h : ∀ k ∈ ks, isShown (shown k.expr) k.expr = true) :
    (exposeKeys q isShown shown cs ks).2.map (·.expr) =
      (ks.map (·.expr)).map (shownAs q isShown (exposeKeys q isShown shown cs ks).1) := by
  induction ks generalizing cs with
  | nil => rfl
  | cons k ks ih =>
    obtain ⟨hk, hks⟩ := List.forall_mem_cons.1 h
    obtain ⟨added, hadded, _⟩ :=
      exposeKeys_columns q isShown shown (exposeKey isShown shown cs k).1 ks
    rw [exposeKeys_cons]
    simp only [List.map_cons, ih hks, List.cons.injEq, and_true]
    rw [hadded, shownAs, List.find?_append]
    unfold exposeKey
    cases hfind : cs.find? fun c => isShown c.expr k.expr with
    | some c => simp [hfind]
    | none => simp [hfind, hk]

/-- Each key is shown by one of the resulting columns. -/
theorem exposeKeys_shows (h : ∀ k ∈ ks, isShown (shown k.expr) k.expr = true) {k : OrderKey}
    (hk : k ∈ ks) :
    (exposeKeys q isShown shown cs ks).1.any (fun c => isShown c.expr k.expr) = true := by
  obtain ⟨_, _, _, c, hc, _, hshown⟩ :=
    Attempt.exists_rel_of_mem_left (exposeKeys_keys q isShown shown cs ks) hk
  refine List.any_eq_true.2 ⟨c, hc, hshown.elim id fun hexpr => ?_⟩
  rw [hexpr]
  exact h k hk

/-- The resulting columns show keys of the same expressions once more, and as the same columns. -/
theorem exposeKeys_again (h : ∀ k ∈ ks, isShown (shown k.expr) k.expr = true)
    (hagain : again.map (·.expr) ⊆ ks.map (·.expr)) :
    (exposeKeys q isShown shown (exposeKeys q isShown shown cs ks).1 again).1 =
        (exposeKeys q isShown shown cs ks).1 ∧
      (exposeKeys q isShown shown (exposeKeys q isShown shown cs ks).1 again).2.map (·.expr) ⊆
        (exposeKeys q isShown shown cs ks).2.map (·.expr) := by
  have hcolumns : (exposeKeys q isShown shown (exposeKeys q isShown shown cs ks).1 again).1 =
      (exposeKeys q isShown shown cs ks).1 := by
    refine exposeKeys_of_shown q isShown shown fun k hk => ?_
    obtain ⟨k', hk', heq⟩ := exists_expr_eq hagain hk
    rw [← heq]
    exact exposeKeys_shows h hk'
  have hshown : ∀ k ∈ again, isShown (shown k.expr) k.expr = true := by
    intro k hk
    obtain ⟨k', hk', heq⟩ := exists_expr_eq hagain hk
    rw [← heq]
    exact h k' hk'
  refine ⟨hcolumns, ?_⟩
  rw [exposeKeys_exprs hshown, hcolumns, exposeKeys_exprs h]
  exact List.map_subset _ hagain

/-- Columns of different names, none of which shows two expressions, are referred to by different
references. -/
theorem shownAs_inj (hnodup : (cs.map (·.name)).Nodup) {e e' : Expr}
    (hone : ∀ c ∈ cs, isShown c.expr e = true → isShown c.expr e' = true → e = e')
    (he : cs.any (fun c => isShown c.expr e) = true)
    (he' : cs.any (fun c => isShown c.expr e') = true)
    (h : shownAs q isShown cs e = shownAs q isShown cs e') : e = e' := by
  obtain ⟨c, hc⟩ := Option.isSome_iff_exists.1 (List.find?_isSome.2 (List.any_eq_true.1 he))
  obtain ⟨c', hc'⟩ := Option.isSome_iff_exists.1 (List.find?_isSome.2 (List.any_eq_true.1 he'))
  rw [shownAs, shownAs, hc, hc'] at h
  obtain ⟨_, hname, _⟩ := Expr.column.inj h
  have hmem := List.mem_of_find?_eq_some hc
  obtain rfl : c = c' :=
    List.inj_on_of_nodup_map hnodup hmem (List.mem_of_find?_eq_some hc') hname
  have hshows := List.find?_some hc
  have hshows' := List.find?_some hc'
  exact hone c hmem hshows hshows'

/-- The references to exposed keys are proper, if no column shows two of the keys. They are
references to columns, which hold no double and no aggregate; `hone` makes sure that two keys do not
become the same reference. -/
theorem properKeys_exposeKeys (hks : ProperKeys ks) (hnodup : (cs.map (·.name)).Nodup)
    (h : ∀ k ∈ ks, isShown (shown k.expr) k.expr = true)
    (hone : ∀ c ∈ (exposeKeys q isShown shown cs ks).1, ∀ k ∈ ks, ∀ k' ∈ ks,
      isShown c.expr k.expr = true → isShown c.expr k'.expr = true → k.expr = k'.expr) :
    ProperKeys (exposeKeys q isShown shown cs ks).2 := by
  have hcolumn : ∀ k ∈ (exposeKeys q isShown shown cs ks).2,
      ∃ name t, k.expr = .column q name t := by
    intro k hk
    have hmem := List.mem_map_of_mem (f := (·.expr)) hk
    rw [exposeKeys_exprs h] at hmem
    obtain ⟨e, _, heq⟩ := List.mem_map.1 hmem
    exact ⟨_, _, heq.symm⟩
  refine ⟨?_, fun k hk => ?_, fun k hk => ?_⟩
  · rw [exposeKeys_exprs h]
    refine List.Nodup.map_on (fun e he e' he' heq => ?_) hks.nodup
    obtain ⟨k, hk, rfl⟩ := List.mem_map.1 he
    obtain ⟨k', hk', rfl⟩ := List.mem_map.1 he'
    exact shownAs_inj (exposeKeys_nodup q isShown shown hnodup ks)
      (fun c hc => hone c hc k hk k' hk') (exposeKeys_shows h hk) (exposeKeys_shows h hk') heq
  · obtain ⟨name, t, heq⟩ := hcolumn k hk
    rw [heq]
    rfl
  · obtain ⟨name, t, heq⟩ := hcolumn k hk
    rw [heq]
    rfl

/-- Exposing keys brings no doubles into the columns. -/
theorem exposeKeys_floatFree (hcs : ∀ c ∈ cs, c.expr.holdsFloat = false)
    (hks : ∀ k ∈ ks, (shown k.expr).holdsFloat = false) :
    ∀ c ∈ (exposeKeys q isShown shown cs ks).1, c.expr.holdsFloat = false := by
  obtain ⟨added, hadded, hshown⟩ := exposeKeys_columns q isShown shown cs ks
  rw [hadded]
  intro c hc
  rcases List.mem_append.1 hc with hc | hc
  · exact hcs c hc
  · obtain ⟨k, hk, hexpr⟩ := hshown c hc
    rw [hexpr]
    exact hks k hk

end Expose

/-! ### Exposing through DISTINCT -/

section Distinct

variable {flag : Bool} {q : String} {input : Expr} {cs : List Column} {ks : List OrderKey}

/-- How a DISTINCT projection shows a key: as it is, or as its least value in each group. -/
def showsKey (column key : Expr) : Bool := column == key || column == minOf key

theorem hasAggregate_minOf (e : Expr) : (minOf e).hasAggregate = true := by
  rw [hasAggregate_eq]
  rfl

theorem holdsFloat_minOf (e : Expr) : (minOf e).holdsFloat = e.holdsFloat := by
  rw [holdsFloat_eq]
  simp [minOf, mkAggregate, isFloatConstant, children]

/-- A column shows a key exactly if it is the key or its least value. -/
theorem showsKey_iff {column key : Expr} (hf : column.holdsFloat = false) :
    showsKey column key = true ↔ column = key ∨ column = minOf key := by
  rw [showsKey, Bool.or_eq_true]
  refine or_congr ⟨eq_of_beq_eq_true hf, ?_⟩ ⟨eq_of_beq_eq_true hf, ?_⟩
  · rintro rfl
    exact beq_self _ hf
  · rintro rfl
    exact beq_self _ hf

/-- A column shows one key at most, if keys have no aggregates. -/
theorem eq_of_showsKey {column key key' : Expr} (hf : column.holdsFloat = false)
    (hkey : key.hasAggregate = false) (hkey' : key'.hasAggregate = false)
    (h : showsKey column key = true) (h' : showsKey column key' = true) : key = key' := by
  rcases (showsKey_iff hf).1 h with rfl | rfl
  · rcases (showsKey_iff hf).1 h' with rfl | rfl
    · rfl
    · rw [hasAggregate_minOf] at hkey
      cases hkey
  · rcases (showsKey_iff hf).1 h' with rfl | hmin
    · rw [hasAggregate_minOf] at hkey'
      cases hkey'
    · exact Option.some.inj (Expr.aggregate.inj hmin).2.1

/-- The keys that no column shows turn the projection into a grouping, where the dialect has it. -/
def isGrouped (flag : Bool) (cs : List Column) (ks : List OrderKey) : Bool :=
  (ks.any fun k => !cs.any fun c => c.expr == k.expr) && flag

/-- Where each key is shown already, the projection stays DISTINCT. -/
theorem isGrouped_eq_false (h : ∀ k ∈ ks, cs.any (fun c => c.expr == k.expr) = true) :
    isGrouped flag cs ks = false := by
  have hall : (ks.any fun k => !cs.any fun c => c.expr == k.expr) = false := by
    rw [List.any_eq_false]
    intro k hk
    simpa using h k hk
  rw [isGrouped, hall, Bool.false_and]

/-- Columns without aggregates show a key only as it is. -/
theorem any_beq_of_showsKey {key : Expr} (hf : ∀ c ∈ cs, c.expr.holdsFloat = false)
    (hcs : cs.any (fun c => c.expr.hasAggregate) = false)
    (h : cs.any (fun c => showsKey c.expr key) = true) :
    cs.any (fun c => c.expr == key) = true := by
  obtain ⟨c, hc, hshows⟩ := List.any_eq_true.1 h
  refine (any_beq_iff hf).2 (List.mem_map.2 ⟨c, hc, ?_⟩)
  rcases (showsKey_iff (hf c hc)).1 hshows with heq | heq
  · exact heq
  · have hplain := List.any_eq_false.1 hcs c hc
    rw [heq] at hplain
    exact absurd (hasAggregate_minOf key) hplain

/-- A DISTINCT projection that does not show a key becomes a grouping by its columns. -/
theorem exposeDistinct_of_isGrouped (hcs : cs ≠ []) (h : isGrouped flag cs ks = true) :
    exposeDistinct flag q input cs ks =
      (.project q input (exposeKeys q showsKey minOf cs ks).1 false (cs.map (·.expr)),
        (exposeKeys q showsKey minOf cs ks).2) := by
  have hgroups : (cs.map (·.expr)).isEmpty = false := by simpa using hcs
  unfold isGrouped at h
  simp only [exposeDistinct, h, if_true, hgroups, Bool.false_eq_true, if_false]
  rfl

/-- Otherwise it stays DISTINCT, with the keys as further columns. -/
theorem exposeDistinct_of_not_isGrouped (h : isGrouped flag cs ks = false) :
    exposeDistinct flag q input cs ks =
      (.project q input (exposeKeys q showsKey id cs ks).1 true [],
        (exposeKeys q showsKey id cs ks).2) := by
  unfold isGrouped at h
  simp only [exposeDistinct, h, Bool.false_eq_true, if_false, List.isEmpty_nil, if_true]
  rfl

end Distinct

/-! ### Trees that lifting leaves as they are -/

/-- The columns of each projection have different names, a DISTINCT projection has a column, and no
key of an ordering has an aggregate in it. -/
def Regular : Expr → Prop
  | .filter input _ | .limit input _ _ => Regular input
  | .order input ks => (∀ k ∈ ks, k.expr.hasAggregate = false) ∧ Regular input
  | .project _ input cs d _ => (cs.map (·.name)).Nodup ∧ (d = true → cs ≠ []) ∧ Regular input
  | .join _ left right _ | .setOp _ _ left right _ => Regular left ∧ Regular right
  | _ => True

/-- Lifting leaves the tree as it is, and lifts only keys of the same expressions as these. -/
def Fixed (flag : Bool) (mode : Mode) (e : Expr) (ks : List OrderKey) : Prop :=
  ∃ again, Lifts flag mode e e again ∧ again.map (·.expr) ⊆ ks.map (·.expr)

section Fixed

variable {flag : Bool} {mode : Mode} {e e' input : Expr} {ks ks' : List OrderKey} {q : String}
  {cs cs' : List Column} {d : Bool} {gs : List Expr}

/-- The keys of an ordered tree are lifted off it again, which leaves the tree that was ordered. -/
theorem Fixed.orderedBy (h : Fixed flag mode e ks) (hks : ProperKeys ks) :
    Lifts flag mode (orderedBy ks e) e ks := by
  obtain ⟨again, hagain, hsub⟩ := h
  by_cases hnil : ks = []
  · subst hnil
    obtain rfl : again = [] := by simpa using hsub
    exact hagain
  · have horder := Lifts.order ks hagain
    rwa [hks.mergeKeys_eq hsub, order_eq_orderedBy hnil] at horder

/-- A limit lifts the keys that it is left to order by. -/
theorem Lifts.keys_eq_of_limit {take take' skip skip' : Option Expr}
    (h : Lifts flag mode (.limit input take skip) (.limit (.order e ks') take' skip') ks) :
    ks = ks' := by
  generalize htarget : Expr.limit (.order e ks') take' skip' = target at h
  cases h with
  | @limit _ _ input' _ _ _ h =>
    obtain ⟨hordered, _, _⟩ := Expr.limit.inj htarget
    by_cases hnil : ks = []
    · -- what is lifted is no ordering itself
      subst hnil
      obtain rfl : .order e ks' = input' := hordered
      cases h.clear.1
    · rw [← order_eq_orderedBy hnil] at hordered
      exact (Expr.order.inj hordered).2.symm

/-- A limit that orders by the keys has them in an ordering below it. -/
theorem exists_of_isLimitedBy (h : isLimitedBy ks e = true) :
    ∃ input existing take skip,
      e = .limit (.order input existing) take skip ∧ (existing == ks) = true := by
  unfold isLimitedBy at h
  split at h
  · exact ⟨_, _, _, _, rfl, h⟩
  · cases h

/-- The same holds where the limit orders already. -/
theorem Fixed.orderedOnce (h : Fixed flag mode e ks) (hks : ProperKeys ks) :
    Lifts flag mode (orderedOnce ks e) e ks := by
  unfold OrderLifting.orderedOnce
  by_cases hlimited : isLimitedBy ks e = true
  · rw [if_pos hlimited]
    obtain ⟨again, hagain, hsub⟩ := h
    obtain ⟨input, existing, take, skip, rfl, hbeq⟩ := exists_of_isLimitedBy hlimited
    obtain rfl := hagain.keys_eq_of_limit
    have hf : ∀ k ∈ again, k.expr.holdsFloat = false := by
      intro k hk
      obtain ⟨k', hk', heq⟩ := exists_expr_eq hsub hk
      rw [← heq]
      exact hks.floatFree k' hk'
    obtain rfl : again = ks := eq_of_keys_beq hf hbeq
    exact hagain
  · rw [if_neg hlimited]
    exact h.orderedBy hks

/-- A projection that drops the keys of its input drops them again. -/
theorem Fixed.dropped (h : Fixed flag .expose input ks) (hdrops : DropsKeys mode cs gs ks) :
    Fixed flag mode (.project q input cs d gs) [] := by
  obtain ⟨again, hagain, hsub⟩ := h
  refine ⟨[], .dropped q d hagain (hdrops.imp_left fun hks => ?_), List.Subset.refl _⟩
  subst hks
  simpa using hsub

/-- Keys come through a projection without groups when there are any, it may show them and has no
aggregate. -/
theorem not_dropsKeys_iff :
    ¬ DropsKeys mode cs [] ks ↔
      ks ≠ [] ∧ mode ≠ .discard ∧ cs.any (fun c => c.expr.hasAggregate) = false := by
  simp [DropsKeys]

/-- A projection that has shown keys as columns shows those that are lifted again as the same
columns. -/
theorem Fixed.exposed (h : Fixed flag .expose input ks) (hks : ProperKeys ks)
    (hnodup : (cs.map (·.name)).Nodup) (hcs : ∀ c ∈ cs, c.expr.holdsFloat = false)
    (hkeeps : ¬ DropsKeys .expose cs [] ks)
    (hexpose : exposeKeys q (· == ·) id cs ks = (cs', ks')) :
    ProperKeys ks' ∧ Fixed flag .expose (.project q input cs' false []) ks' := by
  obtain rfl : (exposeKeys q (· == ·) id cs ks).1 = cs' := congrArg Prod.fst hexpose
  obtain rfl : (exposeKeys q (· == ·) id cs ks).2 = ks' := congrArg Prod.snd hexpose
  obtain ⟨_, hmode, hplain⟩ := not_dropsKeys_iff.1 hkeeps
  have hshown : ∀ k ∈ ks, (id k.expr == k.expr) = true :=
    fun k hk => beq_self _ (hks.floatFree k hk)
  constructor
  · refine properKeys_exposeKeys hks hnodup hshown fun c hc k _ k' _ hk hk' => ?_
    have hf := exposeKeys_floatFree hcs hks.floatFree c hc
    exact (eq_of_beq_eq_true hf hk).symm.trans (eq_of_beq_eq_true hf hk')
  · obtain ⟨again, hagain, hsub⟩ := h
    by_cases hnil : again = []
    · exact ⟨[], .dropped q false hagain (.inl hnil), List.nil_subset _⟩
    · obtain ⟨hcolumns, hkeys⟩ := exposeKeys_again hshown hsub
      have hplain' : (exposeKeys q (· == ·) id cs ks).1.any
          (fun c => c.expr.hasAggregate) = false :=
        exposeKeys_any_hasAggregate hplain hks.aggregateFree
      have hkeeps' := not_dropsKeys_iff.2 ⟨hnil, hmode, hplain'⟩
      exact ⟨(exposeKeys q (· == ·) id (exposeKeys q (· == ·) id cs ks).1 again).2,
        .exposed hagain hkeeps' (Prod.ext hcolumns rfl), hkeys⟩

/-- A DISTINCT projection that has become a grouping drops the keys that are lifted again. -/
theorem Fixed.grouped (h : Fixed flag .expose input ks) (hks : ProperKeys ks)
    (hnodup : (cs.map (·.name)).Nodup) (hcs : ∀ c ∈ cs, c.expr.holdsFloat = false)
    (hne : cs ≠ []) :
    ProperKeys (exposeKeys q showsKey minOf cs ks).2 ∧
      Fixed flag mode
        (.project q input (exposeKeys q showsKey minOf cs ks).1 false (cs.map (·.expr)))
        (exposeKeys q showsKey minOf cs ks).2 := by
  have hfloat : ∀ k ∈ ks, (minOf k.expr).holdsFloat = false := by
    intro k hk
    rw [holdsFloat_minOf]
    exact hks.floatFree k hk
  have hshown : ∀ k ∈ ks, showsKey (minOf k.expr) k.expr = true :=
    fun k hk => (showsKey_iff (hfloat k hk)).2 (.inr rfl)
  constructor
  · refine properKeys_exposeKeys hks hnodup hshown fun c hc k hk k' hk' => ?_
    exact eq_of_showsKey (exposeKeys_floatFree hcs hfloat c hc) (hks.aggregateFree k hk)
      (hks.aggregateFree k' hk')
  · obtain ⟨again, hagain, _⟩ := h
    refine ⟨[], .dropped q false hagain (.inr (.inr (.inl ?_))), List.nil_subset _⟩
    simpa using hne

/-- A DISTINCT projection that has shown keys among its columns finds them there again, so it stays
as it is with either flag. -/
theorem Fixed.shown (h : Fixed flag .expose input ks) (hks : ProperKeys ks)
    (hnodup : (cs.map (·.name)).Nodup) (hcs : ∀ c ∈ cs, c.expr.holdsFloat = false)
    (hkeeps : ¬ DropsKeys mode cs [] ks) :
    ProperKeys (exposeKeys q showsKey id cs ks).2 ∧
      Fixed flag mode (.project q input (exposeKeys q showsKey id cs ks).1 true [])
        (exposeKeys q showsKey id cs ks).2 := by
  obtain ⟨_, hmode, hplain⟩ := not_dropsKeys_iff.1 hkeeps
  have hshown : ∀ k ∈ ks, showsKey (id k.expr) k.expr = true :=
    fun k hk => (showsKey_iff (hks.floatFree k hk)).2 (.inl rfl)
  have hfloat : ∀ c ∈ (exposeKeys q showsKey id cs ks).1, c.expr.holdsFloat = false :=
    exposeKeys_floatFree hcs hks.floatFree
  have hplain' :
      (exposeKeys q showsKey id cs ks).1.any (fun c => c.expr.hasAggregate) = false :=
    exposeKeys_any_hasAggregate hplain hks.aggregateFree
  constructor
  · refine properKeys_exposeKeys hks hnodup hshown fun c hc k hk k' hk' => ?_
    exact eq_of_showsKey (hfloat c hc) (hks.aggregateFree k hk) (hks.aggregateFree k' hk')
  · obtain ⟨again, hagain, hsub⟩ := h
    by_cases hnil : again = []
    · exact ⟨[], .dropped q true hagain (.inl hnil), List.nil_subset _⟩
    · have hkeeps' := not_dropsKeys_iff.2 ⟨hnil, hmode, hplain'⟩
      obtain ⟨hcolumns, hkeys⟩ := exposeKeys_again hshown hsub
      have hmatched : ∀ k ∈ again,
          (exposeKeys q showsKey id cs ks).1.any (fun c => c.expr == k.expr) = true := by
        intro k hk
        obtain ⟨k', hk', heq⟩ := exists_expr_eq hsub hk
        rw [← heq]
        exact any_beq_of_showsKey hfloat hplain' (exposeKeys_shows hshown hk')
      refine ⟨_, .distinct hagain hkeeps' ?_, hkeys⟩
      rw [exposeDistinct_of_not_isGrouped (isGrouped_eq_false hmatched), hcolumns]

/-- A DISTINCT projection that has been given its keys as columns keeps them, as DISTINCT or as a
grouping. -/
theorem Fixed.distinct (h : Fixed flag .expose input ks) (hks : ProperKeys ks)
    (hnodup : (cs.map (·.name)).Nodup) (hcs : ∀ c ∈ cs, c.expr.holdsFloat = false)
    (hne : cs ≠ []) (hkeeps : ¬ DropsKeys mode cs [] ks)
    (hexpose : exposeDistinct flag q input cs ks = (e', ks')) :
    ProperKeys ks' ∧ Fixed flag mode e' ks' := by
  cases hgrouped : isGrouped flag cs ks with
  | true =>
    rw [exposeDistinct_of_isGrouped hne hgrouped] at hexpose
    cases hexpose
    exact h.grouped hks hnodup hcs hne
  | false =>
    rw [exposeDistinct_of_not_isGrouped hgrouped] at hexpose
    cases hexpose
    exact h.shown hks hnodup hcs hkeeps

theorem columns_floatFree (h : (Expr.project q input cs d gs).holdsFloat = false) :
    ∀ c ∈ cs, c.expr.holdsFloat = false := by
  intro c hc
  have hmem : c.expr ∈ cs.map (·.expr) := List.mem_map_of_mem hc
  exact holdsFloat_of_mem_children h (List.mem_cons_of_mem _ (List.mem_append_left _ hmem))

/-- Lifting gives proper keys, and a tree that it leaves as it is. By induction on the derivation. A
second run meets only those orderings that the first has put back into the tree, so it lifts keys
that the first has lifted, and none besides. -/
theorem Lifts.fixed (h : Lifts flag mode e e' ks) (hregular : Regular e)
    (hf : e.holdsFloat = false) : ProperKeys ks ∧ Fixed flag mode e' ks := by
  induction h with
  | scan source q t => exact ⟨properKeys_nil, [], .scan source q t, List.Subset.refl _⟩
  | filter p _ ih =>
    obtain ⟨hks, again, hagain, hsub⟩ :=
      ih hregular (holdsFloat_of_mem_children hf List.mem_cons_self)
    exact ⟨hks, again, .filter p hagain, hsub⟩
  | @order _ _ _ ks outer _ ih =>
    obtain ⟨hks, again, hagain, hsub⟩ :=
      ih hregular.2 (holdsFloat_of_mem_children hf List.mem_cons_self)
    have hfloat : ∀ k ∈ outer ++ ks, k.expr.holdsFloat = false := by
      refine List.forall_mem_append.2 ⟨fun k hk => ?_, hks.floatFree⟩
      exact holdsFloat_of_mem_children hf (List.mem_cons_of_mem _ (List.mem_map_of_mem hk))
    have hplain : ∀ k ∈ outer ++ ks, k.expr.hasAggregate = false :=
      List.forall_mem_append.2 ⟨hregular.1, hks.aggregateFree⟩
    refine ⟨properKeys_mergeKeys hfloat hplain, again, hagain, fun e he => ?_⟩
    exact ((mergeKeys_spec hfloat).2 e).2 (.inr (hsub he))
  | limit take skip _ ih =>
    obtain ⟨hks, hfixed⟩ := ih hregular (holdsFloat_of_mem_children hf List.mem_cons_self)
    exact ⟨hks, _, .limit take skip (hfixed.orderedBy hks), List.Subset.refl _⟩
  | dropped q d _ hdrops ih =>
    obtain ⟨_, hfixed⟩ := ih hregular.2.2 (holdsFloat_of_mem_children hf List.mem_cons_self)
    exact ⟨properKeys_nil, hfixed.dropped hdrops⟩
  | distinct _ hkeeps hexpose ih =>
    obtain ⟨hnodup, hne, hregular⟩ := hregular
    obtain ⟨hks, hfixed⟩ := ih hregular (holdsFloat_of_mem_children hf List.mem_cons_self)
    exact hfixed.distinct hks hnodup (columns_floatFree hf) (hne rfl) hkeeps hexpose
  | placed q _ hkeeps ih =>
    obtain ⟨hks, hfixed⟩ := ih hregular.2.2 (holdsFloat_of_mem_children hf List.mem_cons_self)
    exact ⟨properKeys_nil, _, .placed q (hfixed.orderedOnce hks) hkeeps, List.Subset.refl _⟩
  | exposed _ hkeeps hexpose ih =>
    obtain ⟨hnodup, _, hregular⟩ := hregular
    obtain ⟨hks, hfixed⟩ := ih hregular (holdsFloat_of_mem_children hf List.mem_cons_self)
    exact hfixed.exposed hks hnodup (columns_floatFree hf) hkeeps hexpose
  | @join _ _ _ _ _ ls rs kind on _ _ ihl ihr =>
    obtain ⟨hls, lagain, hleft, hlsub⟩ :=
      ihl hregular.1 (holdsFloat_of_mem_children hf List.mem_cons_self)
    obtain ⟨hrs, ragain, hright, hrsub⟩ :=
      ihr hregular.2 (holdsFloat_of_mem_children hf (List.mem_cons_of_mem _ List.mem_cons_self))
    have hfloat := List.forall_mem_append.2 ⟨hls.floatFree, hrs.floatFree⟩
    have hplain := List.forall_mem_append.2 ⟨hls.aggregateFree, hrs.aggregateFree⟩
    refine ⟨properKeys_mergeKeys hfloat hplain, _, .join kind on hleft hright, fun e he => ?_⟩
    obtain ⟨k, hk, rfl⟩ := List.mem_map.1 he
    refine ((mergeKeys_spec hfloat).2 _).2 ((mem_of_mem_mergeKeys hk).imp ?_ ?_)
    · exact fun hk => hlsub (List.mem_map_of_mem hk)
    · exact fun hk => hrsub (List.mem_map_of_mem hk)
  | setOp op all q _ _ ihl ihr =>
    obtain ⟨_, _, hleft, _⟩ := ihl hregular.1 (holdsFloat_of_mem_children hf List.mem_cons_self)
    obtain ⟨_, _, hright, _⟩ :=
      ihr hregular.2 (holdsFloat_of_mem_children hf (List.mem_cons_of_mem _ List.mem_cons_self))
    exact ⟨properKeys_nil, _, .setOp op all q hleft hright, List.Subset.refl _⟩

end Fixed

/-! ### Normalization -/

/-- Normalization leaves a normalized tree as it is. The tree holds no double, since equal
expressions with doubles need not be the same, and it is regular: distinct columns, a column in
every distinct projection, no aggregate in a sort key. -/
theorem normalize_normalize {flag : Bool} {e e' : Expr} (hregular : Regular e)
    (hf : e.holdsFloat = false) (h : normalize flag e = .ok e') : normalize flag e' = .ok e' := by
  obtain ⟨lifted, ks, hlifts, rfl⟩ := normalize_eq_ok_iff.1 h
  obtain ⟨hks, hfixed⟩ := hlifts.fixed hregular hf
  exact normalize_eq_ok_iff.2 ⟨lifted, ks, hfixed.orderedOnce hks, rfl⟩

/-- The labels of tasks, by the numbers of the tasks. -/
def labelsByNumber : Expr :=
  .project "d" (.order taskScan [⟨.column "t" "id" .int64, .descending⟩])
    [⟨"label", .column "t" "label" .string⟩] true []

/-- The labels, each with the least number of a task that has it. -/
def numberedLabels : Expr :=
  .project "d" taskScan
    [⟨"label", .column "t" "label" .string⟩, ⟨"id", minOf (.column "t" "id" .int64)⟩] false
    [.column "t" "label" .string]

/-- The first three pairs of a label and a team. -/
def firstPairs : Expr :=
  .limit (.join .cross labelsByNumber teamsByName none) (some (.int 3)) none

/-- The pairs that normalization gives: the label with its least number, and the name of the team
shown. -/
def sortedFirstPairs : Expr :=
  .limit (.order (.join .cross numberedLabels namedTeams none)
    [⟨.column "d" "id" .int64, .descending⟩, ⟨.column "p" "name" .string, .descending⟩])
    (some (.int 3)) none

/-- The DISTINCT projection becomes a grouping with a column for its key, the teams show theirs, and
the limit orders by both. The second run finds the keys there. -/
theorem normalize_normalize_firstPairs :
    normalize true firstPairs = .ok sortedFirstPairs ∧
      normalize true sortedFirstPairs = .ok sortedFirstPairs := by
  have hlabels : Regular labelsByNumber := by
    refine ⟨List.nodup_singleton _, fun _ => List.cons_ne_nil _ _, ?_⟩
    exact ⟨List.forall_mem_singleton.2 rfl, trivial⟩
  have hteams : Regular teamsByName := by
    refine ⟨List.nodup_singleton _, fun _ => List.cons_ne_nil _ _, ?_⟩
    exact ⟨List.forall_mem_singleton.2 rfl, trivial⟩
  have hregular : Regular firstPairs := ⟨hlabels, hteams⟩
  exact ⟨rfl, normalize_normalize hregular rfl rfl⟩

end QueryTree.OrderLifting
