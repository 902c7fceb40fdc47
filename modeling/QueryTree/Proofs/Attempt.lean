import Mathlib.Data.List.Forall2
import QueryTree.Memory.Relation

/-!
# Computations that may fail

A computation of `Except` that returns has returned at each of its steps. The lemmas here take such
a computation apart: a sequence of two (`bind_eq_ok_iff`), a walk along a list (`mapM_eq_ok_iff`),
and two walks side by side whose steps correspond (`mapM_rel`, `foldlM_rel`). The last two carry
every comparison of a tree with its rewritten form: both trees walk over rows that correspond, and
only the first walk is known to return.

Two computations are compared by `Below`, when the second returns whatever the first returns, and by
`Agree`, when each may fail where the other returns.
-/

namespace QueryTree.Attempt

variable {ε α β γ α' β' : Type}

/-! ### Returning at least as much -/

/-- Whatever `x` returns, `y` returns. Where `x` fails, nothing is said. -/
def Below (x y : Except ε α) : Prop := ∀ a, x = .ok a → y = .ok a

theorem Below.refl (x : Except ε α) : Below x x := fun _ h => h

/-- One step after the other, results are kept. -/
theorem Below.trans {x y z : Except ε α} (hxy : Below x y) (hyz : Below y z) : Below x z :=
  fun a h => hyz a (hxy a h)

theorem Below.of_eq {x y : Except ε α} (h : x = y) : Below x y := fun _ hx => h ▸ hx

/-- If both return, they return the same. -/
def Agree (x y : Except ε α) : Prop := ∀ a b, x = .ok a → y = .ok b → b = a

/-- A computation that keeps results agrees on them. -/
theorem Below.agree {x y : Except ε α} (h : Below x y) : Agree x y :=
  fun a _ hx hy => Except.ok.inj (hy.symm.trans (h a hx))

/-! ### Sequences -/

/-- A sequence of two computations returns exactly when both do. -/
theorem bind_eq_ok_iff {x : Except ε α} {f : α → Except ε β} {b : β} :
    (x >>= f) = .ok b ↔ ∃ a, x = .ok a ∧ f a = .ok b := by
  cases x with
  | error e => exact ⟨fun h => (nomatch h), fun ⟨_, h, _⟩ => (nomatch h)⟩
  | ok a => exact ⟨fun h => ⟨a, rfl, h⟩, fun ⟨_, h, hf⟩ => by cases h; exact hf⟩

/-- Where the first of two computations has the same results, and the second after each of these,
the whole has. -/
theorem Below.bind {x y : Except ε α} {f g : α → Except ε β} (hxy : Below x y)
    (hfg : ∀ a, x = .ok a → Below (f a) (g a)) : Below (x >>= f) (y >>= g) := by
  intro b h
  obtain ⟨a, hx, hf⟩ := bind_eq_ok_iff.1 h
  exact bind_eq_ok_iff.2 ⟨a, hxy a hx, hfg a hx b hf⟩

/-- Computations in sequence agree if they agree step by step. -/
theorem Agree.bind {x y : Except ε α} {f g : α → Except ε β} (hxy : Agree x y)
    (hfg : ∀ a, Agree (f a) (g a)) : Agree (x >>= f) (y >>= g) := by
  intro b b' h h'
  obtain ⟨a, hx, hf⟩ := bind_eq_ok_iff.1 h
  obtain ⟨a', hy, hg⟩ := bind_eq_ok_iff.1 h'
  obtain rfl := hxy a a' hx hy
  exact hfg a' b b' hf hg

@[simp] theorem pure_eq_ok_iff {a b : α} : (pure a : Except ε α) = .ok b ↔ a = b :=
  ⟨Except.ok.inj, fun h => h ▸ rfl⟩

/-- A look-up that must find something. -/
theorem elim_eq_ok_iff {o : Option α} {error : ε} {f : α → Except ε β} {b : β} :
    o.elim (.error error) f = .ok b ↔ ∃ a, o = some a ∧ f a = .ok b := by
  cases o with
  | none => simp
  | some a => simp

/-- An evaluation inside a larger computation returns what it returns by itself. -/
@[simp] theorem liftEval_eq_ok_iff {x : Except EvalError α} {a : α} :
    Relation.liftEval x = .ok a ↔ x = .ok a := by
  cases x with
  | error e => exact ⟨fun h => (nomatch h), fun h => (nomatch h)⟩
  | ok b => exact ⟨fun h => congrArg _ (Except.ok.inj h), fun h => congrArg _ (Except.ok.inj h)⟩

/-! ### Walks along a list -/

/-- A walk along a list returns exactly when each of its steps does. -/
theorem mapM_eq_ok_iff {f : α → Except ε β} {l : List α} {bs : List β} :
    l.mapM f = .ok bs ↔ List.Forall₂ (fun a b => f a = .ok b) l bs := by
  induction l generalizing bs with
  | nil => rw [List.mapM_nil, pure_eq_ok_iff, List.forall₂_nil_left_iff, eq_comm]
  | cons a l ih =>
    rw [List.mapM_cons, bind_eq_ok_iff, List.forall₂_cons_left_iff]
    constructor
    · rintro ⟨b, hb, h⟩
      obtain ⟨bs', hbs, h⟩ := bind_eq_ok_iff.1 h
      exact ⟨b, bs', hb, ih.1 hbs, (pure_eq_ok_iff.1 h).symm⟩
    · rintro ⟨b, bs', hb, hbs, rfl⟩
      exact ⟨b, hb, bind_eq_ok_iff.2 ⟨bs', ih.2 hbs, rfl⟩⟩

/-- A loop over a list succeeds if each of its steps does. -/
theorem exists_mapM_eq_ok {f : α → Except ε β} {l : List α} (h : ∀ a ∈ l, ∃ b, f a = .ok b) :
    ∃ bs, l.mapM f = .ok bs := by
  induction l with
  | nil => exact ⟨[], rfl⟩
  | cons a l ih =>
    obtain ⟨⟨b, hb⟩, hl⟩ := List.forall_mem_cons.1 h
    obtain ⟨bs, hbs⟩ := ih hl
    exact ⟨b :: bs, mapM_eq_ok_iff.2 (.cons hb (mapM_eq_ok_iff.1 hbs))⟩

/-- In lists that correspond, each element on the left has a partner on the right. -/
theorem exists_rel_of_mem_left {R : α → β → Prop} {l : List α} {l' : List β}
    (h : List.Forall₂ R l l') {a : α} (ha : a ∈ l) : ∃ b ∈ l', R a b := by
  induction h with
  | nil => cases ha
  | @cons a' b l l' hab _ ih =>
    rcases List.mem_cons.1 ha with rfl | ha
    · exact ⟨b, List.mem_cons_self, hab⟩
    · obtain ⟨b', hb', hR⟩ := ih ha
      exact ⟨b', List.mem_cons_of_mem _ hb', hR⟩

/-- Each element of the second list has a partner in the first. -/
theorem exists_rel_of_mem_right {R : α → β → Prop} {l : List α} {l' : List β}
    (h : List.Forall₂ R l l') {b : β} (hb : b ∈ l') : ∃ a ∈ l, R a b :=
  exists_rel_of_mem_left h.flip hb

/-- The elements that correspond are elements of their lists. -/
theorem forall₂_and_mem {R : α → β → Prop} {l : List α} {l' : List β} (h : List.Forall₂ R l l') :
    List.Forall₂ (fun a b => R a b ∧ a ∈ l ∧ b ∈ l') l l' := by
  induction h with
  | nil => exact .nil
  | cons hab _ ih =>
    refine .cons ⟨hab, List.mem_cons_self, List.mem_cons_self⟩ (ih.imp fun a b h => ?_)
    exact ⟨h.1, List.mem_cons_of_mem _ h.2.1, List.mem_cons_of_mem _ h.2.2⟩

/-- Each element on the way of a walk that returns has its result among the results. -/
theorem exists_of_mem_of_mapM_eq_ok {f : α → Except ε β} {l : List α} {bs : List β}
    (h : l.mapM f = .ok bs) {a : α} (ha : a ∈ l) : ∃ b ∈ bs, f a = .ok b :=
  exists_rel_of_mem_left (mapM_eq_ok_iff.1 h) ha

/-- Each result of a walk is the result of some element on its way. -/
theorem exists_of_mem_result_of_mapM_eq_ok {f : α → Except ε β} {l : List α} {bs : List β}
    (h : l.mapM f = .ok bs) {b : β} (hb : b ∈ bs) : ∃ a ∈ l, f a = .ok b :=
  exists_rel_of_mem_right (mapM_eq_ok_iff.1 h) hb

/-- The result of a walk at a position is the result of the element there. -/
theorem getElem?_of_mapM_eq_ok {f : α → Except ε β} {l : List α} {bs : List β}
    (h : l.mapM f = .ok bs) {k : Nat} {a : α} (ha : l[k]? = some a) :
    ∃ b, bs[k]? = some b ∧ f a = .ok b := by
  have hsteps := mapM_eq_ok_iff.1 h
  clear h
  induction hsteps generalizing k with
  | nil => simp at ha
  | @cons a' b l bs hab _ ih =>
    cases k with
    | zero =>
      obtain rfl : a' = a := by simpa using ha
      exact ⟨b, rfl, hab⟩
    | succ k => exact ih (by simpa using ha)

/-- A loop gives one result for each element. -/
theorem length_eq_of_mapM_eq_ok {f : α → Except ε β} {l : List α} {bs : List β}
    (h : l.mapM f = .ok bs) : bs.length = l.length :=
  (mapM_eq_ok_iff.1 h).length_eq.symm

/-- A walk each of whose steps is known returns the list of their results. -/
theorem mapM_eq_ok_map {f : α → Except ε β} {g : α → β} {l : List α}
    (h : ∀ a ∈ l, f a = .ok (g a)) : l.mapM f = .ok (l.map g) := by
  rw [mapM_eq_ok_iff, List.forall₂_map_right_iff, List.forall₂_same]
  exact h

/-- What a computation returns, and `default` where it fails. -/
def valueOr (default : α) (x : Except ε α) : α := x.toOption.getD default

/-- A computation that succeeds gives its value, whatever the default. -/
theorem eq_ok_valueOr {x : Except ε α} {a : α} (h : x = .ok a) (default : α) :
    x = .ok (valueOr default x) := by
  rw [h]
  rfl

/-- A walk that returns is a map by what its steps return. -/
theorem mapM_eq_ok_iff_map {f : α → Except ε β} {l : List α} {bs : List β} (default : β) :
    l.mapM f = .ok bs ↔
      (∀ a ∈ l, f a = .ok (valueOr default (f a))) ∧ bs = l.map fun a => valueOr default (f a) := by
  constructor
  · intro h
    have hsteps : ∀ a ∈ l, f a = .ok (valueOr default (f a)) := by
      intro a ha
      obtain ⟨b, _, hb⟩ := exists_of_mem_of_mapM_eq_ok h ha
      exact eq_ok_valueOr hb default
    rw [mapM_eq_ok_map hsteps] at h
    exact ⟨hsteps, (Except.ok.inj h).symm⟩
  · rintro ⟨hsteps, rfl⟩
    exact mapM_eq_ok_map hsteps

/-- Loops that agree on the elements of the list agree. -/
theorem mapM_congr {f g : α → Except ε β} {l : List α} (h : ∀ a ∈ l, f a = g a) :
    l.mapM f = l.mapM g := by
  induction l with
  | nil => rfl
  | cons a l ih =>
    rw [List.mapM_cons, List.mapM_cons, h a List.mem_cons_self,
      ih fun b hb => h b (List.mem_cons_of_mem _ hb)]

/-- Two walks side by side: where the steps of the first return, those of the second return what
corresponds. -/
theorem mapM_rel {R : α → α' → Prop} {S : β → β' → Prop} {f : α → Except ε β}
    {f' : α' → Except ε β'} {l : List α} {l' : List α'} (hl : List.Forall₂ R l l')
    (hstep : ∀ a a' b, R a a' → f a = .ok b → ∃ b', f' a' = .ok b' ∧ S b b') {bs : List β}
    (h : l.mapM f = .ok bs) : ∃ bs', l'.mapM f' = .ok bs' ∧ List.Forall₂ S bs bs' := by
  induction hl generalizing bs with
  | nil =>
    rw [mapM_eq_ok_iff, List.forall₂_nil_left_iff] at h
    subst h
    exact ⟨[], rfl, .nil⟩
  | @cons a a' l l' ha _ ih =>
    rw [mapM_eq_ok_iff, List.forall₂_cons_left_iff] at h
    obtain ⟨b, bs, hb, hbs, rfl⟩ := h
    obtain ⟨b', hb', hS⟩ := hstep a a' b ha hb
    obtain ⟨bs', hbs', hSs⟩ := ih (mapM_eq_ok_iff.2 hbs)
    refine ⟨b' :: bs', ?_, .cons hS hSs⟩
    rw [mapM_eq_ok_iff] at hbs' ⊢
    exact .cons hb' hbs'

/-- A walk whose steps return at least as much returns at least as much. -/
theorem Below.mapM {f : α → Except ε β} {f' : α' → Except ε β} {l : List α} {l' : List α'}
    (h : List.Forall₂ (fun a a' => Below (f a) (f' a')) l l') : Below (l.mapM f) (l'.mapM f') := by
  intro bs hbs
  obtain ⟨bs', hbs', hS⟩ := mapM_rel (S := Eq) h (fun a a' b hR hb => ⟨b, hR b hb, rfl⟩) hbs
  rw [List.forall₂_eq_eq_eq] at hS
  exact hS ▸ hbs'

/-- Two accumulations side by side. -/
theorem foldlM_rel {R : α → α' → Prop} {S : β → β' → Prop} {f : β → α → Except ε β}
    {f' : β' → α' → Except ε β'} {l : List α} {l' : List α'} (hl : List.Forall₂ R l l')
    (hstep : ∀ b b' a a' c, S b b' → R a a' → f b a = .ok c → ∃ c', f' b' a' = .ok c' ∧ S c c')
    {b : β} {b' : β'} (hb : S b b') {c : β} (h : l.foldlM f b = .ok c) :
    ∃ c', l'.foldlM f' b' = .ok c' ∧ S c c' := by
  induction hl generalizing b b' with
  | nil =>
    rw [List.foldlM_nil, pure_eq_ok_iff] at h
    subst h
    exact ⟨b', rfl, hb⟩
  | @cons a a' l l' ha _ ih =>
    rw [List.foldlM_cons, bind_eq_ok_iff] at h
    obtain ⟨d, hd, h⟩ := h
    obtain ⟨d', hd', hS⟩ := hstep b b' a a' d hb ha hd
    obtain ⟨c', hc', hSc⟩ := ih hS h
    exact ⟨c', by rw [List.foldlM_cons, hd']; exact hc', hSc⟩

end QueryTree.Attempt
