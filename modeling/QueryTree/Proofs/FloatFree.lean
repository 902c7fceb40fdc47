import Mathlib.Data.List.Nodup
import QueryTree.Proofs.Equality
import QueryTree.Proofs.OperatorResults
import QueryTree.Proofs.Rebuild
import QueryTree.Proofs.Rows

/-!
# Values without doubles

Equality of values is not identity only because of doubles: the two zeros are equal, and a NaN is
not equal to itself. An expression brings up no double by itself. Where its constants and the
columns that it reads have none, its value has none (`evaluate_floatFree`), since integers are
computed exactly or not at all.

Equality of rows without doubles is identity (`row_beq_iff`). So among such rows dropping the
repeated ones leaves each row once, and which rows are left does not depend on their order
(`dedup_perm`).
-/

namespace QueryTree

open Attempt

namespace Value

/-! ### Equality is reflexive -/

/-- A list without doubles is equal to itself. -/
theorem beqList_self {vs : List Value} (h : ∀ v ∈ vs, v.holdsFloat = false → beq v v = true)
    (hf : holdsFloatList vs = false) : beqList vs vs = true := by
  induction vs with
  | nil => rfl
  | cons v vs ih =>
    obtain ⟨hfv, hfvs⟩ := Bool.or_eq_false_iff.1 hf
    obtain ⟨hv, hvs⟩ := List.forall_mem_cons.1 h
    simp [beqList, hv hfv, ih hvs hfvs]

/-- A record without doubles is equal to itself. -/
theorem beqFields_self {fields : List (String × Value)}
    (h : ∀ f ∈ fields, f.2.holdsFloat = false → beq f.2 f.2 = true)
    (hf : holdsFloatFields fields = false) : beqFields fields fields = true := by
  induction fields with
  | nil => rfl
  | cons f fields ih =>
    obtain ⟨hff, hffs⟩ := Bool.or_eq_false_iff.1 hf
    obtain ⟨hfield, hfields⟩ := List.forall_mem_cons.1 h
    simp [beqFields, hfield hff, ih hfields hffs]

/-- A table without doubles is equal to itself. -/
theorem beqRows_self {cells : List Row}
    (h : ∀ row ∈ cells, ∀ v ∈ row, v.holdsFloat = false → beq v v = true)
    (hf : holdsFloatRows cells = false) : beqRows cells cells = true := by
  induction cells with
  | nil => rfl
  | cons row cells ih =>
    obtain ⟨hfrow, hfcells⟩ := Bool.or_eq_false_iff.1 hf
    obtain ⟨hrow, hcells⟩ := List.forall_mem_cons.1 h
    simp [beqRows, beqList_self hrow hfrow, ih hcells hfcells]

/-- A value without doubles is equal to itself, since only a NaN is not. -/
theorem beq_self (v : Value) (hf : v.holdsFloat = false) : beq v v = true := by
  induction v using valueInduction with
  | float x => cases hf
  | record fields ih => exact beqFields_self ih hf
  | list items ih => exact beqList_self ih hf
  | rows columns cells ih =>
    have hcells : beqRows cells cells = true := beqRows_self ih hf
    simp [beq, hcells]
  | null => rfl
  | _ x => simp [beq]

/-- The fields of a record without doubles hold none. -/
theorem holdsFloat_of_mem_fields {fields : List (String × Value)} {f : String × Value}
    (hf : holdsFloatFields fields = false) (h : f ∈ fields) : f.2.holdsFloat = false := by
  induction fields with
  | nil => cases h
  | cons g fields ih =>
    obtain ⟨hg, hrest⟩ := Bool.or_eq_false_iff.1 hf
    rcases List.mem_cons.1 h with rfl | h
    · exact hg
    · exact ih hrest h

/-- What an operator computes from values without doubles holds none. -/
theorem Computed.floatFree {args : List Value} {v : Value} (h : v.Computed args)
    (hargs : ∀ a ∈ args, a.holdsFloat = false) : v.holdsFloat = false := by
  cases h with
  | float x hy => cases hargs _ hy
  | _ => rfl

end Value

namespace Expr

/-- A list of expressions is equal to itself if its members are. -/
theorem beqList_self {es : List Expr} : beqList es es = true ↔ ∀ e ∈ es, beq e e = true := by
  induction es with
  | nil => simp [beqList]
  | cons e es ih => simp [beqList, ih]

/-- An optional expression is equal to itself if it is there and is. -/
theorem beqOption_self {o : Option Expr} : beqOption o o = true ↔ ∀ e ∈ o, beq e e = true := by
  cases o <;> simp [beqOption]

/-- Columns are equal to themselves if their expressions are. -/
theorem beqColumns_self {cs : List Column} :
    beqColumns cs cs = true ↔ ∀ c ∈ cs, beq c.expr c.expr = true := by
  induction cs with
  | nil => simp [beqColumns]
  | cons c cs ih => simp [beqColumns, ih]

/-- Ordering keys are equal to themselves if their expressions are. -/
theorem beqKeys_self {ks : List OrderKey} :
    beqKeys ks ks = true ↔ ∀ k ∈ ks, beq k.expr k.expr = true := by
  induction ks with
  | nil => simp [beqKeys]
  | cons k ks ih => simp [beqKeys, ih]

/-- A tree without doubles is equal to itself. -/
theorem beq_self (e : Expr) (hf : e.holdsFloat = false) : (e == e) = true := by
  show beq e e = true
  induction e using childInduction with
  | h e ih =>
    have hchildren : ∀ c ∈ e.children, beq c c = true :=
      fun c hc => ih c hc (holdsFloat_of_mem_children hf hc)
    cases e with
    | const v t =>
      rw [holdsFloat_eq] at hf
      have hv : (v == v) = true := Value.beq_self v (Bool.or_eq_false_iff.1 hf).1
      simp [beq, hv]
    | param | column => simp [beq]
    | _ =>
      simpa [beq, children, or_imp, forall_and, and_assoc, beqList_self, beqOption_self,
        beqColumns_self, beqKeys_self] using hchildren

end Expr

/-! ### Evaluation -/

/-- No double is bound. -/
structure Env.FloatFree (env : Env) : Prop where
  parameter : ∀ n v, env.parameter n = some v → v.holdsFloat = false
  column : ∀ a n v, env.column a n = some v → v.holdsFloat = false

namespace Expr

/-- Without doubles in the tree and around it there is none in the value. By induction on the
expression: operators and functions return a double only if an operand is one
(`Value.Computed.floatFree`). -/
theorem evaluate_floatFree {env : Env} (henv : env.FloatFree) {e : Expr}
    (he : e.holdsFloat = false) {v : Value} (h : e.evaluate env = .ok v) :
    v.holdsFloat = false := by
  induction e using treeInduction generalizing v with
  | const w t =>
    obtain rfl := Except.ok.inj h
    rw [holdsFloat_eq] at he
    exact (Bool.or_eq_false_iff.1 he).1
  | param n t =>
    obtain ⟨w, hw, h⟩ := elim_eq_ok_iff.1 h
    obtain rfl := Except.ok.inj h
    exact henv.parameter n w hw
  | column a n t =>
    obtain ⟨w, hw, h⟩ := elim_eq_ok_iff.1 h
    obtain rfl := Except.ok.inj h
    exact henv.column a n w hw
  | member e n t ih =>
    obtain ⟨w, hw, h⟩ := bind_eq_ok_iff.1 h
    have hchild := holdsFloat_of_mem_children he List.mem_cons_self
    rcases Scalar.null_or_mem_of_member h with rfl | ⟨fields, rfl, hmem⟩
    · rfl
    · exact Value.holdsFloat_of_mem_fields (ih hchild hw) hmem
  | binary op l r t ihl ihr =>
    have hl := holdsFloat_of_mem_children he List.mem_cons_self
    have hr := holdsFloat_of_mem_children he (List.mem_cons_of_mem _ List.mem_cons_self)
    obtain ⟨args, hv, hargs⟩ := computed_of_evaluate_binary h
    exact hv.floatFree fun a ha => (hargs a ha).elim (ihl hl) (ihr hr)
  | unary op e t ih =>
    obtain ⟨w, hw, h⟩ := bind_eq_ok_iff.1 h
    have hchild := holdsFloat_of_mem_children he List.mem_cons_self
    refine (Scalar.computed_of_unary h).floatFree fun a ha => ?_
    obtain rfl := List.mem_singleton.1 ha
    exact ih hchild hw
  | call n es t ih =>
    simp only [evaluate, evaluateList_eq] at h
    obtain ⟨vs, hvs, h⟩ := bind_eq_ok_iff.1 h
    have hfree : ∀ w ∈ vs, w.holdsFloat = false := by
      intro w hw
      obtain ⟨e, hmem, hew⟩ := exists_of_mem_result_of_mapM_eq_ok hvs hw
      exact ih e hmem (holdsFloat_of_mem_children he hmem) hew
    exact (Scalar.computed_or_mem_of_call h).elim (fun hv => hv.floatFree hfree) (hfree v)
  | _ => cases h

end Expr

/-! ### Lists without repetitions -/

/-- Adding elements in turn, each unless one of the same mark is there, leaves each mark once. `P`
is what the elements must satisfy for the test to see their marks as they are. -/
theorem foldl_add_spec {α β : Type} {P : α → Prop} (mark : α → β) (add : List α → α → List α)
    (hmem : ∀ {out a}, (∀ b ∈ out, P b) → P a → mark a ∈ out.map mark → add out a = out)
    (hnew : ∀ {out a}, (∀ b ∈ out, P b) → P a → mark a ∉ out.map mark → add out a = out ++ [a])
    (as out : List α) (h : ∀ a ∈ out ++ as, P a) (hout : (out.map mark).Nodup) :
    ((as.foldl add out).map mark).Nodup ∧
      ∀ m, m ∈ (as.foldl add out).map mark ↔ m ∈ out.map mark ∨ m ∈ as.map mark := by
  induction as generalizing out with
  | nil => exact ⟨hout, fun m => by simp⟩
  | cons a as ih =>
    obtain ⟨hpout, hpas⟩ := List.forall_mem_append.1 h
    obtain ⟨hpa, hpas⟩ := List.forall_mem_cons.1 hpas
    rw [List.foldl_cons]
    by_cases ha : mark a ∈ out.map mark
    · rw [hmem hpout hpa ha]
      obtain ⟨hnodup, hiff⟩ := ih out (List.forall_mem_append.2 ⟨hpout, hpas⟩) hout
      refine ⟨hnodup, fun m => (hiff m).trans ?_⟩
      rw [List.map_cons, List.mem_cons]
      constructor
      · exact Or.imp_right .inr
      · rintro (hm | rfl | hm)
        · exact .inl hm
        · exact .inl ha
        · exact .inr hm
    · rw [hnew hpout hpa ha]
      have hadded : ((out ++ [a]).map mark).Nodup := by
        rw [List.map_append, List.map_singleton]
        exact List.Nodup.append hout (List.nodup_singleton _) (by simpa using ha)
      obtain ⟨hnodup, hiff⟩ := ih (out ++ [a]) (by rwa [← List.append_cons]) hadded
      refine ⟨hnodup, fun m => (hiff m).trans ?_⟩
      rw [List.map_append, List.map_singleton, List.mem_append, List.mem_singleton, List.map_cons,
        List.mem_cons, or_assoc]

/-! ### Rows -/

/-- No cell of the row has a double in it. -/
def Row.FloatFree (row : Row) : Prop := ∀ v ∈ row, v.holdsFloat = false

namespace Relation

/-- A row without doubles makes an environment without doubles. -/
theorem rowEnv_floatFree (columns : List QualifiedName) {row : Row} (h : Row.FloatFree row) :
    (rowEnv columns row).FloatFree where
  parameter n v hv := by cases hv
  column a n v hv := by
    simp only [rowEnv, Option.bind_eq_some_iff] at hv
    obtain ⟨i, _, hv⟩ := hv
    exact h v (List.mem_of_getElem? hv)

/-- Rows without doubles are equal only when they are the same. -/
theorem row_beq_iff {row row' : Row} (h : Row.FloatFree row) :
    (row == row') = true ↔ row = row' := by
  induction row generalizing row' with
  | nil => cases row' <;> simp
  | cons v row ih =>
    obtain ⟨hv, hrow⟩ := List.forall_mem_cons.1 h
    cases row' with
    | nil => simp
    | cons v' row' =>
      rw [List.cons_beq_cons, Bool.and_eq_true, ih hrow, List.cons.injEq]
      refine and_congr_left' ⟨fun heq => Value.exact v hv v' heq, ?_⟩
      rintro rfl
      exact Value.beq_self v hv

/-- Without doubles, equality of rows is being the same row. -/
theorem contains_iff_mem {rows : List Row} {row : Row} (h : Row.FloatFree row) :
    rows.contains row = true ↔ row ∈ rows := by
  rw [List.contains_iff_exists_mem_beq]
  constructor
  · rintro ⟨row', hrow', heq⟩
    rw [(row_beq_iff h).1 heq]
    exact hrow'
  · intro hrow
    exact ⟨row, hrow, (row_beq_iff h).2 rfl⟩

/-- Dropping repeated rows leaves each row once. -/
theorem dedup_spec {rows : List Row} (h : ∀ row ∈ rows, Row.FloatFree row) :
    (dedup rows).Nodup ∧ ∀ row, row ∈ dedup rows ↔ row ∈ rows := by
  have hspec := foldl_add_spec id
    (fun out row => if out.contains row then out else out ++ [row])
    (fun _ hrow hmem => if_pos ((contains_iff_mem hrow).2 (by simpa using hmem)))
    (fun _ hrow hnew => if_neg fun hin => hnew (by simpa using (contains_iff_mem hrow).1 hin))
    rows [] h List.nodup_nil
  have hdedup : dedup rows =
      rows.foldl (fun out row => if out.contains row then out else out ++ [row]) [] := rfl
  rw [hdedup]
  simpa using hspec

/-- Which rows are left when repeated ones are dropped does not depend on their order. -/
theorem dedup_perm {rows rows' : List Row} (h : ∀ row ∈ rows, Row.FloatFree row)
    (hperm : rows.Perm rows') : (dedup rows).Perm (dedup rows') := by
  have h' : ∀ row ∈ rows', Row.FloatFree row := fun row hrow => h row (hperm.mem_iff.2 hrow)
  obtain ⟨hnodup, hmem⟩ := dedup_spec h
  obtain ⟨hnodup', hmem'⟩ := dedup_spec h'
  rw [List.perm_ext_iff_of_nodup hnodup hnodup']
  intro row
  rw [hmem, hmem', hperm.mem_iff]

end Relation

end QueryTree
