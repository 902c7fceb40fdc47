import QueryTree.Proofs.Rebuild

/-!
# The two traversals of a node

Searches look at the subtrees that `Expr.children` lists. Rewriting replaces subtrees by
`Expr.mapChildrenM`, which takes every kind of node apart by itself. The two agree: a function that
replaces the subtrees is called on the listed ones, in the order of the list, up to the first call
that fails (`Visits`), and the node that comes out has the results as its subtrees and is otherwise
the same node (`SameNode`).

The function may fail and it may keep a state, which its later calls see. So the order of the calls
can be observed, and so can a call that is made after one has failed. `Along` says of a part of the
traversal that it makes the calls for a list of subtrees. Parts in a row make the calls of both
lists (`Along.bind`), so the traversal of a node is put together from those of its fields.
-/

namespace QueryTree

attribute [ext] ColumnOf KeyOf

namespace Expr

variable {ε σ α β γ : Type}

/-! ### Computations with a state -/

/-- What a computation that starts in a state returns, and the state that it leaves. -/
def runFrom (x : ExceptT ε (StateM σ) α) (s : σ) : Except ε α × σ := Id.run (x.run.run s)

section RunFrom

variable {x : ExceptT ε (StateM σ) α} {k : α → ExceptT ε (StateM σ) β} {s s' : σ}

theorem runFrom_pure (a : α) (s : σ) :
    runFrom (pure a : ExceptT ε (StateM σ) α) s = (.ok a, s) := rfl

/-- After a result, the rest of a computation goes on from the state. -/
theorem runFrom_bind_of_ok {a : α} (h : runFrom x s = (.ok a, s')) :
    runFrom (x >>= k) s = runFrom (k a) s' := by
  have hx : x.run.run s = (Except.ok a, s') := h
  rw [runFrom, ExceptT.run_bind, StateT.run_bind, hx]
  rfl

/-- After an error, the rest of a computation is skipped. -/
theorem runFrom_bind_of_error {y : ε} (h : runFrom x s = (.error y, s')) :
    runFrom (x >>= k) s = (.error y, s') := by
  have hx : x.run.run s = (Except.error y, s') := h
  rw [runFrom, ExceptT.run_bind, StateT.run_bind, hx]
  rfl

end RunFrom

/-! ### Calls along a list -/

/-- From one state to another, `f` is called on each tree of a list in order. The first call that
fails is the last one, and its error is the result; otherwise the results are returned in order. -/
inductive Visits (f : Expr → ExceptT ε (StateM σ) Expr) :
    List Expr → σ → Except ε (List Expr) → σ → Prop
  | done (s : σ) : Visits f [] s (.ok []) s
  | stop {c : Expr} {s s' : σ} {y : ε} (cs : List Expr) (h : runFrom (f c) s = (.error y, s')) :
    Visits f (c :: cs) s (.error y) s'
  | next {c c' : Expr} {cs : List Expr} {s s₁ s' : σ} {r : Except ε (List Expr)}
    (h : runFrom (f c) s = (.ok c', s₁)) (hrest : Visits f cs s₁ r s') :
    Visits f (c :: cs) s (r.map (c' :: ·)) s'

section Visits

variable {f : Expr → ExceptT ε (StateM σ) Expr} {cs ds es : List Expr} {s s₁ s' : σ}
  {r : Except ε (List Expr)}

/-- A visit that fails does not go on to further trees. -/
theorem Visits.append_of_error {y : ε} (h : Visits f cs s r s') (hr : r = .error y)
    (es : List Expr) : Visits f (cs ++ es) s (.error y) s' := by
  induction h with
  | done s => cases hr
  | stop cs h =>
    cases hr
    exact .stop _ h
  | @next c c' cs s s₁ s' r h _ ih =>
    cases r with
    | error y' =>
      cases hr
      exact .next h (ih rfl)
    | ok ds => cases hr

/-- Two visits in a row are one. -/
theorem Visits.append {r' : Except ε (List Expr)} (h : Visits f cs s r s₁) (hr : r = .ok ds)
    (h' : Visits f es s₁ r' s') : Visits f (cs ++ es) s (r'.map (ds ++ ·)) s' := by
  induction h generalizing ds with
  | done s =>
    cases hr
    cases r' <;> exact h'
  | stop cs h => cases hr
  | @next c c' cs s s₁ s₂ r h _ ih =>
    cases r with
    | error y => cases hr
    | ok ds' =>
      cases hr
      have hnext := Visits.next h (ih rfl h')
      cases r' <;> exact hnext

end Visits

/-! ### Parts of a traversal -/

/-- The computation makes the calls of `f` along a list and no others. It fails where they do, and
what it returns corresponds to what they return. -/
def Along (f : Expr → ExceptT ε (StateM σ) Expr) (cs : List Expr) (P : α → List Expr → Prop)
    (x : ExceptT ε (StateM σ) α) : Prop :=
  ∀ s, (∃ y s', runFrom x s = (.error y, s') ∧ Visits f cs s (.error y) s') ∨
    ∃ a ds s', runFrom x s = (.ok a, s') ∧ Visits f cs s (.ok ds) s' ∧ P a ds

section Along

variable {f : Expr → ExceptT ε (StateM σ) Expr} {cs es : List Expr} {P : α → List Expr → Prop}
  {Q : β → List Expr → Prop} {x : ExceptT ε (StateM σ) α}

theorem Along.pure {a : α} (h : P a []) : Along f [] P (pure a) :=
  fun s => .inr ⟨a, [], s, runFrom_pure a s, .done s, h⟩

/-- A single call visits a single tree. -/
theorem Along.call (c : Expr) : Along f [c] (fun c' ds => ds = [c']) (f c) := by
  intro s
  rcases hrun : runFrom (f c) s with ⟨y | c', s'⟩
  · exact .inl ⟨y, s', rfl, .stop [] hrun⟩
  · exact .inr ⟨c', [c'], s', rfl, .next hrun (.done s'), rfl⟩

/-- What a computation returns may be said in other words. -/
theorem Along.imp {P' : α → List Expr → Prop} (hx : Along f cs P x)
    (h : ∀ a ds, P a ds → P' a ds) : Along f cs P' x :=
  fun s => (hx s).imp_right fun ⟨a, ds, s', hrun, hvisits, hP⟩ =>
    ⟨a, ds, s', hrun, hvisits, h a ds hP⟩

/-- Two computations in a row make the calls of both. -/
theorem Along.bind {k : α → ExceptT ε (StateM σ) β} (hx : Along f cs P x)
    (hk : ∀ a ds, P a ds → Along f es (fun b es' => Q b (ds ++ es')) (k a)) :
    Along f (cs ++ es) Q (x >>= k) := by
  intro s
  rcases hx s with ⟨y, s', hrun, hvisits⟩ | ⟨a, ds, s₁, hrun, hvisits, hP⟩
  · -- the first part has failed, and the second makes no call
    exact .inl ⟨y, s', runFrom_bind_of_error hrun, hvisits.append_of_error rfl es⟩
  · rw [runFrom_bind_of_ok hrun]
    rcases hk a ds hP s₁ with ⟨y, s', hrun', hvisits'⟩ | ⟨b, es', s', hrun', hvisits', hQ⟩
    · exact .inl ⟨y, s', hrun', hvisits.append rfl hvisits'⟩
    · exact .inr ⟨b, ds ++ es', s', hrun', hvisits.append rfl hvisits', hQ⟩

/-- A part whose result is only put into a larger one. -/
theorem Along.map {g : α → β} (hx : Along f cs P x) (h : ∀ a ds, P a ds → Q (g a) ds) :
    Along f cs Q (x >>= fun a => Pure.pure (g a)) := by
  have hbind : Along f (cs ++ []) Q (x >>= fun a => Pure.pure (g a)) :=
    hx.bind fun a ds hP => .pure ((List.append_nil ds).symm ▸ h a ds hP)
  rwa [List.append_nil] at hbind

/-- One call for each element of a list. -/
theorem Along.mapM {view : β → Expr} {view' : γ → Expr} {S : β → γ → Prop}
    {g : β → ExceptT ε (StateM σ) γ}
    (h : ∀ b, Along f [view b] (fun c ds => ds = [view' c] ∧ S b c) (g b)) (l : List β) :
    Along f (l.map view) (fun l' ds => ds = l'.map view' ∧ List.Forall₂ S l l') (l.mapM g) := by
  induction l with
  | nil => exact .pure ⟨rfl, .nil⟩
  | cons b l ih =>
    rw [List.mapM_cons]
    refine (h b).bind fun c ds hc => ih.map fun l' ds' hl' => ?_
    obtain ⟨rfl, hS⟩ := hc
    obtain ⟨rfl, hl'⟩ := hl'
    exact ⟨rfl, .cons hS hl'⟩

end Along

/-! ### The parts of a node -/

/-- The same node but for its subtrees, which are as many in each field. -/
def SameNode (e e' : Expr) : Prop := Rebuilt (fun _ _ => True) e e'

section Node

variable {f : Expr → ExceptT ε (StateM σ) Expr}

/-- A list is visited from left to right. -/
theorem along_list (es : List Expr) :
    Along f es (fun es' ds => ds = es' ∧ List.Forall₂ (fun _ _ => True) es es') (es.mapM f) := by
  have hcall : ∀ c, Along f [id c] (fun c' ds => ds = [id c'] ∧ True) (f c) :=
    fun c => (Along.call c).imp fun c' ds hds => ⟨hds, trivial⟩
  simpa using Along.mapM hcall es

/-- An optional subtree is visited if there is one. -/
theorem along_option (o : Option Expr) :
    Along f o.toList (fun o' ds => ds = o'.toList ∧ Option.Rel (fun _ _ => True) o o')
      (mapOptionM f o) := by
  cases o with
  | none => exact .pure ⟨rfl, .none⟩
  | some e => exact (Along.call e).map fun e' ds hds => ⟨hds, .some trivial⟩

/-- Columns are visited from left to right, and keep their names. -/
theorem along_columns (cs : List Column) :
    Along f (cs.map (·.expr))
      (fun (cs' : List Column) ds => ds = cs'.map (·.expr) ∧
        List.Forall₂ (fun c c' => c'.name = c.name ∧ True) cs cs')
      (cs.mapM fun c => do return ⟨c.name, ← f c.expr⟩) := by
  refine Along.mapM (fun c => ?_) cs
  exact (Along.call c.expr).map fun e' ds hds => ⟨hds, rfl, trivial⟩

/-- Ordering keys are visited from left to right, and keep their directions. -/
theorem along_keys (ks : List OrderKey) :
    Along f (ks.map (·.expr))
      (fun (ks' : List OrderKey) ds => ds = ks'.map (·.expr) ∧
        List.Forall₂ (fun k k' => k'.direction = k.direction ∧ True) ks ks')
      (ks.mapM fun k => do return ⟨← f k.expr, k.direction⟩) := by
  refine Along.mapM (fun k => ?_) ks
  exact (Along.call k.expr).map fun e' ds hds => ⟨hds, rfl, trivial⟩

/-- Replacing the subtrees of a node makes the calls along the list of its subtrees. There is one
case for each kind of node; lists and options of subtrees have lemmas of their own, which are put
together in the order of `children`. -/
theorem along_mapChildrenM (e : Expr) :
    Along f e.children (fun e' ds => ds = e'.children ∧ SameNode e e') (e.mapChildrenM f) := by
  cases e with
  | const v t => exact .pure ⟨rfl, .const v t⟩
  | param n t => exact .pure ⟨rfl, .param n t⟩
  | column a n t => exact .pure ⟨rfl, .column a n t⟩
  | member e n t => exact (Along.call e).map fun e' ds hds => ⟨hds, .member n t trivial⟩
  | unary op e t => exact (Along.call e).map fun e' ds hds => ⟨hds, .unary op t trivial⟩
  | lambda ps b => exact (Along.call b).map fun b' ds hds => ⟨hds, .lambda ps trivial⟩
  | scan s a t => exact (Along.call s).map fun s' ds hds => ⟨hds, .scan a t trivial⟩
  | call n es t =>
    exact (along_list es).map fun es' ds h => ⟨h.1, .call n t h.2⟩
  | aggregate fn o d t =>
    exact (along_option o).map fun o' ds h => ⟨h.1, .aggregate fn d t h.2⟩
  | binary op l r t =>
    refine (Along.call l).bind fun l' ds hl => (Along.call r).map fun r' es hr => ?_
    subst hl hr
    exact ⟨rfl, .binary op t trivial trivial⟩
  | filter i p =>
    refine (Along.call i).bind fun i' ds hi => (Along.call p).map fun p' es hp => ?_
    subst hi hp
    exact ⟨rfl, .filter trivial trivial⟩
  | setOp op all l r a =>
    refine (Along.call l).bind fun l' ds hl => (Along.call r).map fun r' es hr => ?_
    subst hl hr
    exact ⟨rfl, .setOp op all a trivial trivial⟩
  | project a i cs d gs =>
    refine (Along.call i).bind fun i' ds hi => (along_columns cs).bind fun cs' es hcs =>
      (along_list gs).map fun gs' fs hgs => ?_
    obtain ⟨rfl, hcs⟩ := hcs
    obtain ⟨rfl, hgs⟩ := hgs
    subst hi
    exact ⟨rfl, .project a d trivial hcs hgs⟩
  | order i ks =>
    refine (Along.call i).bind fun i' ds hi => (along_keys ks).map fun ks' es hks => ?_
    obtain ⟨rfl, hks⟩ := hks
    subst hi
    exact ⟨rfl, .order trivial hks⟩
  | limit i t s =>
    refine (Along.call i).bind fun i' ds hi => (along_option t).bind fun t' es ht =>
      (along_option s).map fun s' fs hs => ?_
    obtain ⟨rfl, ht⟩ := ht
    obtain ⟨rfl, hs⟩ := hs
    subst hi
    exact ⟨rfl, .limit trivial ht hs⟩
  | join k l r o =>
    refine (Along.call l).bind fun l' ds hl => (Along.call r).bind fun r' es hr =>
      (along_option o).map fun o' fs ho => ?_
    obtain ⟨rfl, ho⟩ := ho
    subst hl hr
    exact ⟨rfl, .join k trivial trivial ho⟩

end Node

/-! ### A node and its subtrees -/

section SameNode

variable {e e' : Expr}

/-- Elements that have a subtree each are the same if all besides the subtree is. -/
theorem eq_of_views {view : α → Expr} {label : α → β}
    (hext : ∀ a a', label a' = label a → view a' = view a → a' = a) {l l' : List α}
    (h : List.Forall₂ (fun a a' => label a' = label a ∧ True) l l')
    (hviews : l'.map view = l.map view) : l' = l := by
  induction h with
  | nil => rfl
  | @cons a a' l l' ha _ ih =>
    obtain ⟨hview, hrest⟩ := List.cons.inj hviews
    rw [hext a a' ha.1 hview, ih hrest]

theorem toList_injective : Function.Injective (Option.toList : Option Expr → List Expr) := by
  intro o o' h
  rw [← Option.head?_toList (o := o), h, Option.head?_toList]

theorem length_toList_eq {o o' : Option Expr} (h : Option.Rel (fun _ _ => True) o o') :
    o'.toList.length = o.toList.length := by
  cases h <;> rfl

/-- The same node with the same subtrees is the node. Where a node has several lists of subtrees,
their lengths tell where one ends and the next begins. -/
theorem SameNode.eq_of_children (h : SameNode e e') (hchildren : e'.children = e.children) :
    e' = e := by
  cases h with
  | const | param | column => rfl
  | member n t _ | unary n t _ | lambda n _ | scan n t _ => cases hchildren; rfl
  | binary op t _ _ | filter _ _ | setOp op all a _ _ => cases hchildren; rfl
  | call n t _ => cases hchildren; rfl
  | aggregate f d t _ => rw [toList_injective hchildren]
  | @project i i' cs cs' gs gs' a d _ hcs hgs =>
    obtain ⟨rfl, hrest⟩ := List.cons.inj hchildren
    have hlength : (cs'.map (·.expr)).length = (cs.map (·.expr)).length := by
      simpa using hcs.length_eq.symm
    obtain ⟨hexprs, rfl⟩ := List.append_inj hrest hlength
    rw [eq_of_views (fun _ _ => ColumnOf.ext) hcs hexprs]
  | order _ hks =>
    obtain ⟨rfl, hexprs⟩ := List.cons.inj hchildren
    rw [eq_of_views (fun _ _ hdirection hexpr => KeyOf.ext hexpr hdirection) hks hexprs]
  | limit _ ht _ =>
    obtain ⟨rfl, hrest⟩ := List.cons.inj hchildren
    obtain ⟨htake, hskip⟩ := List.append_inj hrest (length_toList_eq ht)
    rw [toList_injective htake, toList_injective hskip]
  | join k _ _ _ =>
    obtain ⟨rfl, hrest⟩ := List.cons.inj hchildren
    obtain ⟨rfl, hon⟩ := List.cons.inj hrest
    rw [toList_injective hon]

end SameNode

/-- The function that replaces subtrees is called along the list of subtrees, up to the first call
that fails. A node that comes out has the results in the places of the subtrees and is otherwise the
same, so with the subtrees themselves it is the node. -/
theorem traversals_agree (f : Expr → ExceptT ε (StateM σ) Expr) (e : Expr) :
    (∀ s, ∃ result s', runFrom (e.mapChildrenM f) s = (result, s') ∧
        Visits f e.children s (result.map children) s' ∧
        ∀ e', result = .ok e' → SameNode e e') ∧
      (∀ e', SameNode e e' → e'.children = e.children → e' = e) ∧
      e.mapChildren id = e := by
  refine ⟨fun s => ?_, fun e' hsame => hsame.eq_of_children, ?_⟩
  · rcases along_mapChildrenM e s with
      ⟨y, s', hrun, hvisits⟩ | ⟨e', ds, s', hrun, hvisits, rfl, hsame⟩
    · exact ⟨.error y, s', hrun, hvisits, fun e' he' => by cases he'⟩
    · exact ⟨.ok e', s', hrun, hvisits, fun e'' he'' => Except.ok.inj he'' ▸ hsame⟩
  · have hsame : SameNode e (e.mapChildren id) := rebuilt_mapChildren fun _ _ => trivial
    exact hsame.eq_of_children (by rw [children_mapChildren, List.map_id])

end Expr

end QueryTree
