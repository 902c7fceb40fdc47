import QueryTree.Provider.Resolve
import QueryTree.Proofs.Tree

/-!
# Where the search for a backend ends

The backend of a query is sought in three trees: the body as written, the body with the arguments in
place, and that with its closed parts folded. In each of them the nodes that may name a backend are
its `candidates`, those typed as a backend before those typed as a table. The search looks at the
first candidate and at no other (`providerNode?_eq_head?`). If that one is not a literal that
denotes a backend, the search goes on with the next tree, not with the next candidate.

So a literal that denotes a backend is found only if nothing stands before it. A query whose folded
body has one is resolved exactly if in one of the three trees the first candidate is such a literal
(`resolve_iff_of_bound`); in every other case the search fails, with a text about the candidate that
stands in the way, as for a join of a free table with a bound one (`resolve_freeBesideBound`).
-/

namespace QueryTree

namespace Expr

/-! ### Candidates -/

/-- The nodes that may name a backend, in the order in which they are considered. -/
def candidates (e : Expr) : List Expr :=
  (e.nodes.filter fun n => n.type.isProvider) ++ e.nodes.filter fun n => n.type.isQueryable

/-- Candidates are the nodes of the two types in question, and only these. -/
theorem mem_candidates {e n : Expr} :
    n ∈ e.candidates ↔ n ∈ e.nodes ∧ (n.type.isProvider = true ∨ n.type.isQueryable = true) := by
  simp [candidates, and_or_left]

/-- The node that is looked at is the first candidate. -/
theorem providerNode?_eq_head? (e : Expr) : e.providerNode? = e.candidates.head? := by
  rw [candidates, List.head?_append, List.head?_filter, List.head?_filter]
  rfl

/-- The literal denotes a backend. -/
def isBound (n : Expr) : Bool := n.literalProvider?.isSome

/-- The search in a tree succeeds if its first candidate denotes a backend. -/
theorem isSome_namedProvider? (e : Expr) :
    e.namedProvider?.isSome = e.candidates.head?.any isBound := by
  rw [namedProvider?, providerNode?_eq_head?]
  cases e.candidates.head? <;> rfl

/-- Why a candidate names no backend. -/
def whyUnbound : Expr → String
  | .const _ t => s!"{t.text} is not bound to a provider; supply one explicitly"
  | node => s!"{node.kind.text} node of type {node.type.text} could not be reduced to a literal"

/-- The failure is about the first candidate. -/
theorem unresolvedDetail_eq {e c : Expr} (h : e.candidates.head? = some c) :
    e.unresolvedDetail = c.whyUnbound := by
  rw [unresolvedDetail, providerNode?_eq_head?, h]
  cases c <;> rfl

end Expr

namespace Query

/-! ### The three trees -/

/-- The body with the arguments in place, if there are any. -/
def supplied (q : Query) (args : List Value) : Expr := if args.isEmpty then q.body else q.bind args

/-- The supplied body with its closed parts folded. -/
def reduced (q : Query) (args : List Value) : Expr := (q.supplied args).fold

/-- The trees in which a backend is sought, in order. -/
def searched (q : Query) (args : List Value) : List Expr :=
  [q.body, q.supplied args, q.reduced args]

/-- The three trees are searched one after another. The code skips the second search when there are
no arguments. It would look at the first tree again, where nothing was found. -/
theorem resolve_eq (q : Query) (args : List Value) :
    q.resolve args = q.body.namedProvider?.elim
      ((q.supplied args).namedProvider?.elim
        ((q.reduced args).namedProvider?.elim
          (.error (.unresolved (q.reduced args).unresolvedDetail))
          fun p => .ok ⟨p, .partialEvaluation⟩)
        fun p => .ok ⟨p, .substitution⟩)
      fun p => .ok ⟨p, .literal⟩ := by
  have hfolded (e : Expr) : resolveFolded e =
      e.fold.namedProvider?.elim (.error (.unresolved e.fold.unresolvedDetail))
        fun p => .ok ⟨p, .partialEvaluation⟩ := by
    rw [resolveFolded]
    cases e.fold.namedProvider? <;> rfl
  rw [resolve, reduced, supplied]
  cases hbody : q.body.namedProvider? with
  | some p => rfl
  | none =>
    by_cases hargs : args.isEmpty = true
    · -- without arguments the second tree is the first, where nothing was found
      rw [if_pos hargs, if_pos hargs, hbody]
      exact hfolded q.body
    · rw [if_neg hargs, if_neg hargs]
      cases (q.bind args).namedProvider? with
      | some p => rfl
      | none => exact hfolded (q.bind args)

/-- A resolution is that of the first tree where the search succeeds, or it fails in all three. -/
theorem resolve_cases (q : Query) (args : List Value) :
    (∃ p, q.body.namedProvider? = some p ∧ q.resolve args = .ok ⟨p, .literal⟩) ∨
      (∃ p, (q.supplied args).namedProvider? = some p ∧ q.resolve args = .ok ⟨p, .substitution⟩) ∨
      (∃ p, (q.reduced args).namedProvider? = some p ∧
        q.resolve args = .ok ⟨p, .partialEvaluation⟩) ∨
      ((∀ e ∈ q.searched args, e.namedProvider? = none) ∧
        q.resolve args = .error (.unresolved (q.reduced args).unresolvedDetail)) := by
  rw [resolve_eq]
  cases hbody : q.body.namedProvider? with
  | some p => exact .inl ⟨p, rfl, rfl⟩
  | none =>
    cases hsupplied : (q.supplied args).namedProvider? with
    | some p => exact .inr (.inl ⟨p, rfl, rfl⟩)
    | none =>
      cases hreduced : (q.reduced args).namedProvider? with
      | some p => exact .inr (.inr (.inl ⟨p, rfl, rfl⟩))
      | none =>
        refine .inr (.inr (.inr ⟨?_, rfl⟩))
        simp [searched, hbody, hsupplied, hreduced]

/-- A query is resolved if in one of the three trees the first candidate denotes a backend. -/
theorem exists_resolve_iff (q : Query) (args : List Value) :
    (∃ r, q.resolve args = .ok r) ↔
      ∃ e ∈ q.searched args, e.candidates.head?.any Expr.isBound = true := by
  simp only [← Expr.isSome_namedProvider?]
  constructor
  · rintro ⟨r, hr⟩
    rcases q.resolve_cases args with ⟨p, hp, -⟩ | ⟨p, hp, -⟩ | ⟨p, hp, -⟩ | ⟨-, herror⟩
    · exact ⟨q.body, by simp [searched], Option.isSome_of_eq_some hp⟩
    · exact ⟨q.supplied args, by simp [searched], Option.isSome_of_eq_some hp⟩
    · exact ⟨q.reduced args, by simp [searched], Option.isSome_of_eq_some hp⟩
    · rw [herror] at hr
      cases hr
  · rintro ⟨e, he, hsome⟩
    rcases q.resolve_cases args with ⟨p, -, hr⟩ | ⟨p, -, hr⟩ | ⟨p, -, hr⟩ | ⟨hnone, -⟩
    · exact ⟨_, hr⟩
    · exact ⟨_, hr⟩
    · exact ⟨_, hr⟩
    · rw [hnone e he] at hsome
      cases hsome

/-- If the reduced body has a literal that denotes a backend, the query is resolved exactly if such
a literal is the first candidate in one of the three trees. Otherwise the search fails: in the
reduced body a candidate that denotes no backend comes first and the literal after it, and the
failure tells about that candidate. -/
theorem resolve_iff_of_bound {q : Query} {args : List Value} {n : Expr}
    (hn : n ∈ (q.reduced args).nodes)
    (htype : n.type.isProvider = true ∨ n.type.isQueryable = true) (hbound : n.isBound = true) :
    ((∃ r, q.resolve args = .ok r) ↔
        ∃ e ∈ q.searched args, e.candidates.head?.any Expr.isBound = true) ∧
      ∀ error, q.resolve args = .error error →
        ∃ c rest, (q.reduced args).candidates = c :: rest ∧ c.isBound = false ∧ n ∈ rest ∧
          error = .unresolved c.whyUnbound := by
  refine ⟨exists_resolve_iff q args, fun error herror => ?_⟩
  have hcandidate : n ∈ (q.reduced args).candidates := Expr.mem_candidates.2 ⟨hn, htype⟩
  obtain ⟨hnone, hdetail⟩ : (∀ e ∈ q.searched args, e.namedProvider? = none) ∧
      q.resolve args = .error (.unresolved (q.reduced args).unresolvedDetail) := by
    rcases q.resolve_cases args with ⟨p, -, hr⟩ | ⟨p, -, hr⟩ | ⟨p, -, hr⟩ | hfailed
    · cases herror.symm.trans hr
    · cases herror.symm.trans hr
    · cases herror.symm.trans hr
    · exact hfailed
  obtain ⟨c, rest, hcandidates⟩ := List.exists_cons_of_ne_nil (List.ne_nil_of_mem hcandidate)
  have hfirst : (q.reduced args).candidates.head? = some c := by rw [hcandidates]; rfl
  have hc : c.isBound = false := by
    have hsearch := Expr.isSome_namedProvider? (q.reduced args)
    rw [hnone _ (by simp [searched]), hfirst] at hsearch
    exact hsearch.symm
  refine ⟨c, rest, hcandidates, hc, ?_, ?_⟩
  · rw [hcandidates] at hcandidate
    refine (List.mem_cons.1 hcandidate).resolve_left ?_
    rintro rfl
    rw [hbound] at hc
    cases hc
  · rw [hdetail, Expr.unresolvedDetail_eq hfirst] at herror
    exact (Except.error.inj herror).symm

/-! ### Two tables -/

/-- A backend that holds users and tasks. -/
def warehouse : ProviderId := ⟨"w", "memory"⟩

/-- A bound table as a literal. -/
def boundUsers : Expr := .source ⟨"users", some warehouse⟩

/-- Users from a table that the caller hands over, beside a free table. -/
def suppliedBesideFree : Query where
  params := [⟨"context", .record "Context"⟩]
  body := .join .cross
    (.mkScan (.member (.param "context" (.record "Context")) "users" (.queryableOf "users")) "u")
    (.mkScan (.source ⟨"task", none⟩) "t") none

/-- The table handed over comes first, and it is a literal once it is taken out of its record. -/
theorem resolve_suppliedBesideFree :
    boundUsers ∈ (suppliedBesideFree.reduced
        [.record [("users", .source ⟨"users", some warehouse⟩)]]).nodes ∧
      ∃ r, suppliedBesideFree.resolve
        [.record [("users", .source ⟨"users", some warehouse⟩)]] = .ok r := by
  have hmem : boundUsers ∈ (suppliedBesideFree.reduced
      [.record [("users", .source ⟨"users", some warehouse⟩)]]).nodes :=
    List.mem_cons_of_mem _ (List.mem_cons_of_mem _ List.mem_cons_self)
  refine ⟨hmem, (resolve_iff_of_bound hmem (.inr rfl) rfl).1.2 ?_⟩
  exact ⟨_, List.mem_cons_of_mem _ (List.mem_cons_of_mem _ List.mem_cons_self), rfl⟩

/-- A free table beside a bound one. -/
def freeBesideBound : Query where
  params := []
  body := .join .cross (.mkScan (.source ⟨"task", none⟩) "t") (.mkScan boundUsers "u") none

/-- The same tables, the bound one first. -/
def boundBesideFree : Query where
  params := []
  body := .join .cross (.mkScan boundUsers "u") (.mkScan (.source ⟨"task", none⟩) "t") none

/-- The bound table is there, and the search fails at the free one before it. With the sides
exchanged it succeeds. -/
theorem resolve_freeBesideBound :
    (boundUsers ∈ (freeBesideBound.reduced []).nodes ∧ boundUsers.type.isQueryable = true ∧
        boundUsers.isBound = true) ∧
      freeBesideBound.resolve [] = .error (.unresolved
        "queryable<row<task>> is not bound to a provider; supply one explicitly") ∧
      boundBesideFree.resolve [] = .ok ⟨warehouse, .literal⟩ := by
  refine ⟨⟨?_, rfl, rfl⟩, rfl, rfl⟩
  exact List.mem_cons_of_mem _ (List.mem_cons_of_mem _ (List.mem_cons_of_mem _
    (List.mem_cons_of_mem _ List.mem_cons_self)))

end Query

end QueryTree
