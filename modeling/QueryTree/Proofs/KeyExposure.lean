import Mathlib.Data.List.Nodup
import Mathlib.Data.List.Perm.Subperm
import QueryTree.Pass.OrderLifting
import QueryTree.Proofs.Equality
import QueryTree.Proofs.Rows

/-!
# Merging ordering keys and exposing them as columns

Two steps of ordering normalization work on keys alone.

* `mergeKeys` drops an inner key whose expression has come before. Rows that are level by the
  earlier key are level by the later one, whatever their directions, so the order of the rows stays
  that of all keys in turn (`rowCompare_mergeKeys`).
* `exposeKeys` turns keys into references to columns. It only adds columns at the end
  (`exposeKeys_columns`), under names that were free (`exposeKeys_nodup`), and each new key refers to
  a column that shows the old one (`exposeKeys_keys`).
-/

namespace QueryTree.OrderLifting

open QueryTree.Relation

/-! ### Free names -/

/-- Different numbers have different texts. -/
theorem toString_injective : Function.Injective (toString : Nat → String) := by
  intro m n h
  have hdigits : Nat.toDigits 10 m = Nat.toDigits 10 n := by
    have hrepr : Nat.repr m = Nat.repr n := h
    rw [Nat.repr, Nat.repr] at hrepr
    exact String.ofList_injective hrepr
  rw [← Nat.ofDigitChars_ten_toDigits (n := m), hdigits, Nat.ofDigitChars_ten_toDigits]

/-- `base` and its numbered variants are as many different names as there are taken ones, and one
more; so they cannot all be taken. -/
theorem freshName_notMem (taken : List String) (base : String) : freshName taken base ∉ taken := by
  rw [freshName]
  split
  next hbase =>
    have hbase : base ∈ taken := List.contains_iff_mem.1 hbase
    let variants := (List.range taken.length).map fun i => base ++ toString (i + 1)
    cases hfind : variants.find? fun name => !taken.contains name with
    | some name =>
      have hname := List.find?_some hfind
      simpa using hname
    | none =>
      exfalso
      have htaken : ∀ name ∈ variants, name ∈ taken := by
        intro name hname
        have hnot := List.find?_eq_none.1 hfind name hname
        simpa using hnot
      have hinj : Function.Injective fun i : Nat => base ++ toString (i + 1) := by
        intro i j hij
        have hij' : toString (i + 1) = toString (j + 1) := by
          simpa using hij
        have := toString_injective hij'
        omega
      have hnodup : (base :: variants).Nodup := by
        refine List.nodup_cons.2 ⟨fun hmem => ?_, List.nodup_range.map hinj⟩
        obtain ⟨i, _, hi⟩ := List.mem_map.1 hmem
        simp at hi
      have hlength := (hnodup.subperm (List.forall_mem_cons.2 ⟨hbase, htaken⟩)).length_le
      simp only [variants, List.length_cons, List.length_map, List.length_range] at hlength
      omega
  next hbase =>
    exact fun hmem => hbase (List.contains_iff_mem.2 hmem)

/-! ### Exposing keys -/

section Expose

variable (q : String) (isShown : Expr → Expr → Bool) (shown : Expr → Expr)

/-- The columns and the name that one key takes. -/
def exposeKey (cs : List Column) (k : OrderKey) : List Column × String :=
  match cs.find? fun c => isShown c.expr k.expr with
  | some existing => (cs, existing.name)
  | none =>
    let name := freshName (cs.map (·.name)) (keyName k.expr)
    (cs ++ [⟨name, shown k.expr⟩], name)

/-- Keys are exposed one after the other, each among the columns that the one before has left. -/
theorem exposeKeys_cons (cs : List Column) (k : OrderKey) (ks : List OrderKey) :
    exposeKeys q isShown shown cs (k :: ks) =
      let step := exposeKey isShown shown cs k
      let rest := exposeKeys q isShown shown step.1 ks
      (rest.1, ⟨.column q step.2 k.expr.type, k.direction⟩ :: rest.2) := by
  cases hfind : cs.find? fun c => isShown c.expr k.expr with
  | none => simp only [exposeKeys, exposeKey, hfind]
  | some c => simp only [exposeKeys, exposeKey, hfind]

/-- One key adds at most one column, under a free name, and takes the name of a column that shows
it. -/
theorem exposeKey_cases (cs : List Column) (k : OrderKey) :
    (∃ c ∈ cs, exposeKey isShown shown cs k = (cs, c.name) ∧ isShown c.expr k.expr = true) ∨
      ∃ c : Column, exposeKey isShown shown cs k = (cs ++ [c], c.name) ∧ c.expr = shown k.expr ∧
        c.name ∉ cs.map (·.name) := by
  rw [exposeKey]
  cases hfind : cs.find? fun c => isShown c.expr k.expr with
  | some existing =>
    have hshown := List.find?_some hfind
    exact .inl ⟨existing, List.mem_of_find?_eq_some hfind, rfl, hshown⟩
  | none => exact .inr ⟨_, rfl, rfl, freshName_notMem _ _⟩

/-- Columns are only added, at the end, and each added one shows a key. -/
theorem exposeKeys_columns (cs : List Column) (ks : List OrderKey) :
    ∃ added, (exposeKeys q isShown shown cs ks).1 = cs ++ added ∧
      ∀ c ∈ added, ∃ k ∈ ks, c.expr = shown k.expr := by
  induction ks generalizing cs with
  | nil => exact ⟨[], (List.append_nil cs).symm, fun _ h => (nomatch h)⟩
  | cons k ks ih =>
    rw [exposeKeys_cons]
    obtain ⟨added, hadded, hshown⟩ := ih (exposeKey isShown shown cs k).1
    have hshown' : ∀ c ∈ added, ∃ k' ∈ k :: ks, c.expr = shown k'.expr := by
      intro c hc
      obtain ⟨k', hk', hexpr⟩ := hshown c hc
      exact ⟨k', List.mem_cons_of_mem _ hk', hexpr⟩
    rcases exposeKey_cases isShown shown cs k with ⟨c, _, hstep, _⟩ | ⟨c, hstep, hexpr, _⟩
    · rw [hstep] at hadded ⊢
      exact ⟨added, hadded, hshown'⟩
    · rw [hstep] at hadded ⊢
      refine ⟨c :: added, by rw [hadded, List.append_assoc]; rfl, ?_⟩
      exact List.forall_mem_cons.2 ⟨⟨k, List.mem_cons_self, hexpr⟩, hshown'⟩

/-- Keys that the columns show already add none. -/
theorem exposeKeys_of_shown {cs : List Column} {ks : List OrderKey}
    (h : ∀ k ∈ ks, cs.any (fun c => isShown c.expr k.expr) = true) :
    (exposeKeys q isShown shown cs ks).1 = cs := by
  induction ks with
  | nil => rfl
  | cons k ks ih =>
    obtain ⟨hk, hks⟩ := List.forall_mem_cons.1 h
    have hstep : (exposeKey isShown shown cs k).1 = cs := by
      unfold exposeKey
      cases hfind : cs.find? fun c => isShown c.expr k.expr with
      | some existing => rfl
      | none =>
        obtain ⟨c, hc, hshown⟩ := List.any_eq_true.1 hk
        exact absurd hshown (List.find?_eq_none.1 hfind c hc)
    rw [exposeKeys_cons]
    simp only [hstep]
    exact ih hks

/-- Only such keys add none: the first key that no column shows adds a column, and columns stay. -/
theorem exposeKeys_eq_self_iff {cs : List Column} {ks : List OrderKey} :
    (exposeKeys q isShown shown cs ks).1 = cs ↔
      ∀ k ∈ ks, cs.any (fun c => isShown c.expr k.expr) = true := by
  refine ⟨fun h => ?_, exposeKeys_of_shown q isShown shown⟩
  induction ks with
  | nil => exact fun _ hk => (nomatch hk)
  | cons k ks ih =>
    rw [exposeKeys_cons] at h
    rcases exposeKey_cases isShown shown cs k with ⟨c, hc, hstep, hshown⟩ | ⟨c, hstep, _, _⟩
    · rw [hstep] at h
      exact List.forall_mem_cons.2 ⟨List.any_eq_true.2 ⟨c, hc, hshown⟩, ih h⟩
    · rw [hstep] at h
      obtain ⟨added, hadded, _⟩ := exposeKeys_columns q isShown shown (cs ++ [c]) ks
      have hlength := congrArg List.length (hadded.symm.trans h)
      simp only [List.length_append, List.length_cons, List.length_nil] at hlength
      omega

/-- Names that were different stay different. -/
theorem exposeKeys_nodup {cs : List Column} (h : (cs.map (·.name)).Nodup) (ks : List OrderKey) :
    ((exposeKeys q isShown shown cs ks).1.map (·.name)).Nodup := by
  induction ks generalizing cs with
  | nil => exact h
  | cons k ks ih =>
    rw [exposeKeys_cons]
    rcases exposeKey_cases isShown shown cs k with ⟨c, _, hstep, _⟩ | ⟨c, hstep, _, hfree⟩
    · rw [hstep]
      exact ih h
    · rw [hstep]
      apply ih
      rw [List.map_append, List.map_singleton]
      exact List.Nodup.append h (List.nodup_singleton _) (by simpa using hfree)

/-- Each key becomes a reference, in its own direction, to a column that shows it. -/
theorem exposeKeys_keys (cs : List Column) (ks : List OrderKey) :
    List.Forall₂ (fun k k' => k'.direction = k.direction ∧
      ∃ c ∈ (exposeKeys q isShown shown cs ks).1, k'.expr = .column q c.name k.expr.type ∧
        (isShown c.expr k.expr = true ∨ c.expr = shown k.expr))
      ks (exposeKeys q isShown shown cs ks).2 := by
  induction ks generalizing cs with
  | nil => exact .nil
  | cons k ks ih =>
    rw [exposeKeys_cons]
    refine .cons ⟨rfl, ?_⟩ (ih _)
    obtain ⟨added, hadded, _⟩ :=
      exposeKeys_columns q isShown shown (exposeKey isShown shown cs k).1 ks
    rcases exposeKey_cases isShown shown cs k with ⟨c, hc, hstep, hshown⟩ | ⟨c, hstep, hexpr, _⟩
    · rw [hstep] at hadded ⊢
      refine ⟨c, ?_, rfl, .inl hshown⟩
      rw [hadded]
      exact List.mem_append_left _ hc
    · rw [hstep] at hadded ⊢
      refine ⟨c, ?_, rfl, .inr hexpr⟩
      rw [hadded]
      exact List.mem_append_left _ (List.mem_append_right _ List.mem_cons_self)

end Expose

/-! ### Merging keys -/

/-- A merged key is one of those that were merged. -/
theorem foldl_mergeKeys_subset {ks merged : List OrderKey} {k : OrderKey}
    (h : k ∈ ks.foldl (fun merged key =>
      if merged.any (·.expr == key.expr) then merged else merged ++ [key]) merged) :
    k ∈ merged ++ ks := by
  induction ks generalizing merged with
  | nil => rwa [List.append_nil]
  | cons key ks ih =>
    rw [List.foldl_cons] at h
    have hmem := ih h
    split at hmem
    · rw [List.mem_append] at hmem ⊢
      exact hmem.imp_right (List.mem_cons_of_mem _)
    · rwa [List.append_assoc] at hmem

/-- Merged keys are outer or inner keys. -/
theorem mem_of_mem_mergeKeys {outer inner : List OrderKey} {k : OrderKey}
    (h : k ∈ mergeKeys outer inner) : k ∈ outer ∨ k ∈ inner :=
  List.mem_append.1 (by simpa using foldl_mergeKeys_subset h)

section Merge

variable {columns : List QualifiedName} {rows : List Row}

/-- Rows that are level by a key are level by every key of the same expression. -/
theorem keyCompare_eq_of_expr_eq {m k : OrderKey} (hexpr : m.expr = k.expr)
    (hm : Uniform columns m.expr rows) {a b : Row} (ha : a ∈ rows) (hb : b ∈ rows)
    (h : keyCompare columns m a b = .eq) : keyCompare columns k a b = .eq := by
  obtain ⟨kind, hkind⟩ := hm
  have hswap : (valueOn columns m.expr a).sortCompare (valueOn columns m.expr b) = .eq ↔
      (valueOn columns m.expr b).sortCompare (valueOn columns m.expr a) = .eq := by
    rw [Value.sortCompare_eq_compare (hkind a ha) (hkind b hb),
      Value.sortCompare_eq_compare (hkind b hb) (hkind a ha)]
    exact Std.OrientedCmp.eq_comm
  rw [keyCompare, ← hexpr]
  rw [keyCompare] at h
  cases hd : m.direction <;> cases hd' : k.direction <;> rw [hd] at h
  · exact h
  · exact hswap.1 h
  · exact hswap.2 h
  · exact h

/-- Rows that are level by all keys are level by each. -/
theorem keyCompare_eq_of_rowCompare_eq {ks : List OrderKey} {k : OrderKey} (hk : k ∈ ks) {a b : Row}
    (h : rowCompare columns ks a b = .eq) : keyCompare columns k a b = .eq := by
  induction ks with
  | nil => cases hk
  | cons k' ks ih =>
    rw [rowCompare, Ordering.then_eq_eq] at h
    rcases List.mem_cons.1 hk with rfl | hk
    · exact h.1
    · exact ih hk h.2

/-- A key whose expression is there already breaks no ties, so leaving it out changes no comparison.
By induction on the keys: a key that is left out is asked only when all before it are level, and
then it is level too. -/
theorem rowCompare_foldl_mergeKeys (ks merged : List OrderKey)
    (huniform : ∀ k ∈ merged ++ ks, Uniform columns k.expr rows)
    (hfloat : ∀ k ∈ merged ++ ks, k.expr.holdsFloat = false) {a b : Row} (ha : a ∈ rows)
    (hb : b ∈ rows) :
    rowCompare columns (ks.foldl (fun merged key =>
      if merged.any (·.expr == key.expr) then merged else merged ++ [key]) merged) a b =
      rowCompare columns (merged ++ ks) a b := by
  induction ks generalizing merged with
  | nil => rw [List.append_nil]; rfl
  | cons key ks ih =>
    have hsub : ∀ k ∈ merged ++ ks, k ∈ merged ++ key :: ks := by
      intro k hk
      rw [List.mem_append] at hk ⊢
      exact hk.imp_right (List.mem_cons_of_mem _)
    rw [List.foldl_cons]
    split
    next hany =>
      rw [ih merged (fun k hk => huniform k (hsub k hk)) fun k hk => hfloat k (hsub k hk)]
      obtain ⟨m, hm, hbeq⟩ := List.any_eq_true.1 hany
      have hm' : m ∈ merged ++ key :: ks := List.mem_append_left _ hm
      have hexpr : m.expr = key.expr := Expr.eq_of_beq_eq_true (hfloat m hm') hbeq
      -- the dropped key is asked only when all keys before it are level
      rw [rowCompare_append, rowCompare_append, compareLex, compareLex, rowCompare]
      cases hmerged : rowCompare columns merged a b with
      | lt => rfl
      | gt => rfl
      | eq =>
        have hkey := keyCompare_eq_of_expr_eq hexpr (huniform m hm') ha hb
          (keyCompare_eq_of_rowCompare_eq hm hmerged)
        rw [hkey]
        rfl
    next =>
      have happend : merged ++ key :: ks = merged ++ [key] ++ ks := List.append_cons _ _ _
      rw [happend] at huniform hfloat ⊢
      exact ih _ huniform hfloat

/-- Merged keys order the rows as the outer keys with ties broken by the inner ones. -/
theorem rowCompare_mergeKeys {outer inner : List OrderKey}
    (huniform : ∀ k ∈ outer ++ inner, Uniform columns k.expr rows)
    (hfloat : ∀ k ∈ outer ++ inner, k.expr.holdsFloat = false) {a b : Row} (ha : a ∈ rows)
    (hb : b ∈ rows) :
    rowCompare columns (mergeKeys outer inner) a b =
      compareLex (rowCompare columns outer) (rowCompare columns inner) a b := by
  have hfold : rowCompare columns (mergeKeys outer inner) a b =
      rowCompare columns ([] ++ (outer ++ inner)) a b :=
    rowCompare_foldl_mergeKeys (outer ++ inner) [] huniform hfloat ha hb
  rw [hfold, List.nil_append, rowCompare_append]

end Merge

end QueryTree.OrderLifting
