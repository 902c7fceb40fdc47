import QueryTree.Proofs.BackendSearch
import QueryTree.Proofs.Folding
import QueryTree.Proofs.OperatorResults

/-!
# Where a backend comes from

A resolved query runs on a backend that someone put into it. What a value holds (`Value.Holds`) is
what it is, what it is bound to, and what its parts hold; what a tree holds is what its constants
hold. Evaluation hands values on and takes them apart, but it makes no backend: a value holds what
the constants of the expression or the bindings of the environment hold (`holds_of_evaluate`). The
same is then true of the two ways in which the body of a query changes before it is searched. A
folded tree holds what the tree holds (`holds_of_fold`), and a tree with arguments put in holds
nothing that neither it nor the arguments hold (`holds_of_substitute`).

So the backend of a query comes from its body or from the arguments of the call, and from the body
alone if the body names it by a literal (`holds_of_resolve`).
-/

namespace QueryTree

open Attempt

namespace Value

/-! ### Values -/

/-- The value holds the backend: it is the backend, it is bound to it, or a part of it holds it. -/
inductive Holds (p : ProviderId) : Value → Prop
  | provider : Holds p (.provider p)
  | source {s : Source} : s.provider = some p → Holds p (.source s)
  | record {fields : List (String × Value)} {name : String} {v : Value} :
      (name, v) ∈ fields → Holds p v → Holds p (.record fields)
  | list {items : List Value} {v : Value} : v ∈ items → Holds p v → Holds p (.list items)
  | rows {set : RowSet} {row : Row} {v : Value} :
      row ∈ set.rows → v ∈ row → Holds p v → Holds p (.rows set)

variable {p : ProviderId} {v : Value}

/-- What an operator computes names no backend. -/
theorem Computed.not_holds {args : List Value} (h : v.Computed args) : ¬v.Holds p := by
  intro hv
  cases hv <;> cases h

/-- A value that is bound to a backend names it. -/
theorem holds_of_boundProvider? (h : v.boundProvider? = some p) : v.Holds p := by
  cases v with
  | provider p' => exact Option.some.inj h ▸ .provider
  | source s => exact .source h
  | _ => cases h

end Value

/-- Something that the environment binds holds the backend. -/
def Env.Holds (p : ProviderId) (env : Env) : Prop :=
  (∃ name v, env.parameter name = some v ∧ v.Holds p) ∨
    ∃ qualifier name v, env.column qualifier name = some v ∧ v.Holds p

/-- With nothing bound, no backend is named. -/
theorem Env.not_holds_empty (p : ProviderId) : ¬Env.empty.Holds p := by
  rintro (⟨_, _, h, _⟩ | ⟨_, _, _, h, _⟩) <;> cases h

namespace Expr

variable {p : ProviderId}

/-! ### Trees -/

/-- A constant of the tree holds the backend. -/
def Holds (p : ProviderId) (e : Expr) : Prop := ∃ v t, .const v t ∈ e.nodes ∧ v.Holds p

/-- What a tree holds is held by its root, if that is a constant, or by a direct subtree. -/
theorem holds_iff {e : Expr} :
    e.Holds p ↔ (∃ v t, e = .const v t ∧ v.Holds p) ∨ ∃ c ∈ e.children, c.Holds p := by
  unfold Holds
  rw [nodes_eq_cons]
  constructor
  · rintro ⟨v, t, hmem, hv⟩
    rcases List.mem_cons.1 hmem with hroot | hmem
    · exact .inl ⟨v, t, hroot.symm, hv⟩
    · obtain ⟨c, hc, hmem⟩ := List.mem_flatMap.1 hmem
      exact .inr ⟨c, hc, v, t, hmem, hv⟩
  · rintro (⟨v, t, rfl, hv⟩ | ⟨c, hc, v, t, hmem, hv⟩)
    · exact ⟨v, t, List.mem_cons_self, hv⟩
    · exact ⟨v, t, List.mem_cons_of_mem _ (List.mem_flatMap.2 ⟨c, hc, hmem⟩), hv⟩

/-- A constant names the backends that its value names. -/
theorem holds_const {v : Value} {t : LogicalType} : (const v t).Holds p ↔ v.Holds p := by
  rw [holds_iff]
  constructor
  · rintro (⟨_, _, h, hv⟩ | ⟨c, hc, -⟩)
    · cases h
      exact hv
    · cases hc
  · exact fun hv => .inl ⟨v, t, rfl, hv⟩

/-- What a subtree names, the tree names. -/
theorem Holds.of_mem_children {e c : Expr} (hc : c ∈ e.children) (h : c.Holds p) : e.Holds p :=
  holds_iff.2 (.inr ⟨c, hc, h⟩)

/-- A value holds what the constants of its expression hold, or what its environment holds. By
induction on the expression: a member is held by its record, a function may return one of its
arguments, and whatever else is computed is a plain value, which holds nothing of the kind. -/
theorem holds_of_evaluate {env : Env} {e : Expr} {v : Value} (h : e.evaluate env = .ok v)
    (hv : v.Holds p) : e.Holds p ∨ env.Holds p := by
  induction e using treeInduction generalizing v with
  | const w t =>
    obtain rfl := Except.ok.inj h
    exact .inl (holds_const.2 hv)
  | param n t =>
    obtain ⟨w, hw, h⟩ := elim_eq_ok_iff.1 h
    obtain rfl := Except.ok.inj h
    exact .inr (.inl ⟨n, w, hw, hv⟩)
  | column a n t =>
    obtain ⟨w, hw, h⟩ := elim_eq_ok_iff.1 h
    obtain rfl := Except.ok.inj h
    exact .inr (.inr ⟨a, n, w, hw, hv⟩)
  | member e n t ih =>
    obtain ⟨w, hw, h⟩ := bind_eq_ok_iff.1 h
    rcases Scalar.null_or_mem_of_member h with rfl | ⟨fields, rfl, hmem⟩
    · cases hv
    · exact (ih hw (.record hmem hv)).imp_left (.of_mem_children List.mem_cons_self)
  | binary op l r t _ _ =>
    obtain ⟨args, hcomputed, _⟩ := computed_of_evaluate_binary h
    exact absurd hv hcomputed.not_holds
  | unary op e t _ =>
    obtain ⟨a, _, h⟩ := bind_eq_ok_iff.1 h
    exact absurd hv (Scalar.computed_of_unary h).not_holds
  | call n es t ih =>
    obtain ⟨args, hargs, h⟩ := bind_eq_ok_iff.1 h
    rw [evaluateList_eq] at hargs
    have hmem : v ∈ args :=
      (Scalar.computed_or_mem_of_call h).resolve_left fun hcomputed => hcomputed.not_holds hv
    obtain ⟨e, he, heval⟩ := exists_of_mem_result_of_mapM_eq_ok hargs hmem
    exact (ih e he heval hv).imp_left (.of_mem_children he)
  | aggregate | lambda | scan | filter | project | order | limit | join | setOp => cases h

/-! ### Folding and substitution -/

/-- A node with changed subtrees holds nothing new when the subtrees do not. -/
theorem Rebuilt.holds {e e' : Expr} {Q : Prop}
    (h : Rebuilt (fun c c' => c'.Holds p → c.Holds p ∨ Q) e e') (he' : e'.Holds p) :
    e.Holds p ∨ Q := by
  rcases holds_iff.1 he' with ⟨v, t, rfl, hv⟩ | ⟨c', hc', hholds⟩
  · cases h
    exact .inl (holds_const.2 hv)
  · obtain ⟨c, hc, himp⟩ := exists_rel_of_mem_right h.children hc'
    exact (himp hholds).imp_left (.of_mem_children hc)

/-- A folded tree holds nothing that the tree does not hold. -/
theorem holds_of_fold {e : Expr} (h : e.fold.Holds p) : e.Holds p := by
  induction e using childInduction with
  | h e ih =>
    have hchildren : (e.mapChildren fold).Holds p → e.Holds p := fun h =>
      ((rebuilt_mapChildren fun c hc h => .inl (ih c hc h)).holds (Q := False) h).resolve_right id
    rcases fold_cases e with ⟨v, hfold, _, _, hv⟩ | ⟨hfold, _⟩
    · have hvalue : v.Holds p := holds_const.1 (hfold ▸ h)
      exact (holds_of_evaluate hv hvalue).resolve_right (Env.not_holds_empty p)
    · exact hchildren (hfold ▸ h)

/-- A tree with arguments put in holds nothing that neither the tree nor an argument holds. A
parameter gives way to its argument, a lambda keeps its own parameters, and every other node passes
the arguments on to its subtrees. -/
theorem holds_of_substitute {bs : Bindings} {e : Expr} (h : (e.substitute bs).Holds p) :
    e.Holds p ∨ ∃ b ∈ bs, b.value.Holds p := by
  induction e using childInduction generalizing bs with
  | h e ih =>
    rcases substitute_cases bs e with ⟨n, t, rfl⟩ | ⟨ps, body, rfl⟩ | hsubstitute
    · rw [substitute] at h
      cases hfind : bs.find? n with
      | none => rw [hfind] at h; exact .inl h
      | some b =>
        rw [hfind] at h
        have hmem : b ∈ bs := List.mem_reverse.1 (List.mem_of_find?_eq_some hfind)
        exact .inr ⟨b, hmem, holds_const.1 h⟩
    · rw [substitute] at h
      have hbody : (body.substitute (bs.shadow ps)).Holds p := by
        rcases holds_iff.1 h with ⟨_, _, hroot, _⟩ | ⟨c, hc, hholds⟩
        · cases hroot
        · exact List.mem_singleton.1 hc ▸ hholds
      rcases ih body List.mem_cons_self hbody with hbody | ⟨b, hb, hholds⟩
      · exact .inl (.of_mem_children List.mem_cons_self hbody)
      · exact .inr ⟨b, (List.mem_filter.1 hb).1, hholds⟩
    · rw [hsubstitute] at h
      exact (rebuilt_mapChildren fun c hc h => ih c hc h).holds h

/-! ### Resolution -/

/-- The backend that a tree names is one that it holds. -/
theorem holds_of_namedProvider? {e : Expr} (h : e.namedProvider? = some p) : e.Holds p := by
  obtain ⟨n, hn, hliteral⟩ := Option.bind_eq_some_iff.1 h
  rw [providerNode?_eq_head?] at hn
  have hmem : n ∈ e.nodes := (mem_candidates.1 (List.mem_of_head? hn)).1
  cases n with
  | const v t => exact ⟨v, t, hmem, Value.holds_of_boundProvider? hliteral⟩
  | _ => cases hliteral

end Expr

namespace Query

variable {q : Query} {args : List Value} {p : ProviderId}

/-- Parameters are bound to arguments. -/
theorem value_mem_of_mem_ofArguments {params : List Parameter} {b : Binding}
    (h : b ∈ Bindings.ofArguments params args) : b.value ∈ args := by
  rw [Bindings.ofArguments, ← List.map_uncurry_zip_eq_zipWith] at h
  obtain ⟨⟨param, v⟩, hmem, rfl⟩ := List.mem_map.1 h
  exact (List.of_mem_zip hmem).2

/-- A backend named in the body with the arguments in place was named in the body or in an argument.
-/
theorem holds_of_supplied (h : (q.supplied args).Holds p) :
    q.body.Holds p ∨ ∃ v ∈ args, v.Holds p := by
  unfold supplied at h
  split at h
  next => exact .inl h
  next =>
    refine (Expr.holds_of_substitute h).imp_right ?_
    rintro ⟨b, hb, hholds⟩
    exact ⟨b.value, value_mem_of_mem_ofArguments hb, hholds⟩

/-- A backend that is found is held by a constant of the body or by an argument, and by a constant
of the body if it is found there as a literal. Without arguments the body decides alone what is
found. -/
theorem holds_of_resolve (q : Query) (args : List Value) :
    (∀ r, q.resolve args = .ok r →
        (r.resolution = .literal → q.body.Holds r.provider) ∧
          (q.body.Holds r.provider ∨ ∃ v ∈ args, v.Holds r.provider)) ∧
      ∀ params, Query.resolve ⟨params, q.body⟩ [] = q.resolve [] := by
  refine ⟨fun r hr => ?_, fun params => rfl⟩
  rcases q.resolve_cases args with ⟨p, hp, h⟩ | ⟨p, hp, h⟩ | ⟨p, hp, h⟩ | ⟨-, h⟩
  · obtain rfl := Except.ok.inj (hr.symm.trans h)
    have hbody := Expr.holds_of_namedProvider? hp
    exact ⟨fun _ => hbody, .inl hbody⟩
  · obtain rfl := Except.ok.inj (hr.symm.trans h)
    exact ⟨nofun, holds_of_supplied (Expr.holds_of_namedProvider? hp)⟩
  · obtain rfl := Except.ok.inj (hr.symm.trans h)
    exact ⟨nofun, holds_of_supplied (Expr.holds_of_fold (Expr.holds_of_namedProvider? hp))⟩
  · cases hr.symm.trans h

/-- Users from the context that the caller hands over, since there is no other. -/
def coalescedContext : Query where
  params := [⟨"context", .record "Context"⟩]
  body := .mkScan (.member (.call "COALESCE"
    [.const .null (.record "Context"), .param "context" (.record "Context")]
    (.record "Context")) "users" (.queryableOf "users")) "u"

/-- The backend is found once the context is folded, and it is that of the table handed over. -/
theorem resolve_coalescedContext :
    coalescedContext.resolve [.record [("users", .source ⟨"users", some warehouse⟩)]] =
        .ok ⟨warehouse, .partialEvaluation⟩ ∧
      (coalescedContext.body.Holds warehouse ∨
        ∃ v ∈ [Value.record [("users", .source ⟨"users", some warehouse⟩)]],
          v.Holds warehouse) := by
  have hfound : coalescedContext.resolve [.record [("users", .source ⟨"users", some warehouse⟩)]] =
      .ok ⟨warehouse, .partialEvaluation⟩ := by rfl
  exact ⟨hfound, ((holds_of_resolve coalescedContext _).1 _ hfound).2⟩

end Query

end QueryTree
