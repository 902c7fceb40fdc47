import Mathlib.Data.List.Forall2
import QueryTree.Scalar.Like

/-!
# What LIKE matches

A text matches a pattern when it can be cut into pieces, one for each character of the pattern, such
that `%` takes any piece, `_` a piece of one character, and every other character the piece that is
itself (`Matches`). The matcher does not try all ways to cut. It walks text and pattern together and
goes back only to the last `%`, which then takes one character more.

* That the last `%` is enough is `Resumes.of_star`: since that `%` the walk has passed as many
  characters of the text as of the pattern, so a match that an earlier `%` could still find is one
  that the last can find.
* Where the matcher says yes, it has cut the text (`accepts_of_likeFrom`).
* Where the text can be cut, it says yes, as long as no `%` of the pattern meets a `%` of the text
  (`likeFrom_of_accepts`). Against a `%` of the text it takes that of the pattern for the character
  itself, and never comes back to it as a wildcard.
-/

namespace QueryTree.Like

/-! ### Cutting the text -/

/-- The pieces of text that one character of a pattern can take. -/
def Takes (p : Char) (piece : List Char) : Prop :=
  if p = '%' then True else if p = '_' then piece.length = 1 else piece = [p]

/-- The text can be cut into pieces that the characters of the pattern take, one each. -/
def Matches (pattern text : List Char) : Prop :=
  ∃ pieces, List.Forall₂ Takes pattern pieces ∧ pieces.flatten = text

section Matches

variable {p c : Char} {pattern tail text rest : List Char}

/-- The empty pattern matches the empty text only. -/
theorem matches_nil_iff : Matches [] text ↔ text = [] := by
  unfold Matches
  simp [eq_comm]

/-- The first character of a pattern takes a piece of the text, and the others match the rest. -/
theorem matches_cons_iff :
    Matches (p :: pattern) text ↔
      ∃ piece rest, Takes p piece ∧ Matches pattern rest ∧ text = piece ++ rest := by
  unfold Matches
  constructor
  · rintro ⟨pieces, hpieces, rfl⟩
    obtain ⟨piece, others, hpiece, hothers, rfl⟩ := List.forall₂_cons_left_iff.1 hpieces
    exact ⟨piece, others.flatten, hpiece, ⟨others, hothers, rfl⟩, List.flatten_cons⟩
  · rintro ⟨piece, rest, hpiece, ⟨pieces, hpieces, rfl⟩, rfl⟩
    exact ⟨piece :: pieces, .cons hpiece hpieces, List.flatten_cons⟩

/-- A character other than `%` takes one character. -/
theorem takes_iff_of_ne (hp : p ≠ '%') {piece : List Char} :
    Takes p piece ↔ ∃ c, piece = [c] ∧ (p = '_' ∨ p = c) := by
  unfold Takes
  by_cases hone : p = '_'
  · simp [hone, List.length_eq_one_iff]
  · simp [hp, hone]

/-- Any character but `%` takes the first character of the text. -/
theorem matches_cons_cons_iff (hp : p ≠ '%') :
    Matches (p :: pattern) (c :: text) ↔ (p = '_' ∨ p = c) ∧ Matches pattern text := by
  rw [matches_cons_iff]
  constructor
  · rintro ⟨piece, rest, hpiece, hrest, htext⟩
    obtain ⟨d, rfl, hd⟩ := (takes_iff_of_ne hp).1 hpiece
    obtain ⟨rfl, rfl⟩ := List.cons.inj htext
    exact ⟨hd, hrest⟩
  · rintro ⟨hc, h⟩
    exact ⟨[c], text, (takes_iff_of_ne hp).2 ⟨c, rfl, hc⟩, h, rfl⟩

/-- `%` leaves some end of the text to the rest of the pattern. -/
theorem matches_star_iff :
    Matches ('%' :: pattern) text ↔ ∃ rest, rest <:+ text ∧ Matches pattern rest := by
  rw [matches_cons_iff]
  constructor
  · rintro ⟨piece, rest, _, hrest, rfl⟩
    exact ⟨rest, List.suffix_append piece rest, hrest⟩
  · rintro ⟨rest, ⟨piece, rfl⟩, hrest⟩
    exact ⟨piece, rest, trivial, hrest, rfl⟩

/-- A `%` may take nothing. -/
theorem Matches.star (h : Matches pattern text) : Matches ('%' :: pattern) text :=
  matches_star_iff.2 ⟨text, List.suffix_rfl, h⟩

/-- `%` can take what stands before the piece that it takes. -/
theorem Matches.star_mono (h : Matches ('%' :: pattern) rest) (hrest : rest <:+ text) :
    Matches ('%' :: pattern) text := by
  obtain ⟨last, hlast, h⟩ := matches_star_iff.1 h
  exact matches_star_iff.2 ⟨last, hlast.trans hrest, h⟩

/-- `%` takes nothing, or the first character and goes on. -/
theorem matches_star_tail_iff :
    Matches ('%' :: pattern) text ↔ Matches pattern text ∨ Matches ('%' :: pattern) text.tail := by
  constructor
  · intro h
    obtain ⟨rest, ⟨piece, rfl⟩, hrest⟩ := matches_star_iff.1 h
    cases piece with
    | nil => exact .inl hrest
    | cons c piece => exact .inr (matches_star_iff.2 ⟨rest, List.suffix_append piece rest, hrest⟩)
  · rintro (h | h)
    · exact h.star
    · exact h.star_mono (List.tail_suffix text)

/-- Two of `%` in a row are as good as one. -/
theorem matches_star_star_iff :
    Matches ('%' :: '%' :: pattern) text ↔ Matches ('%' :: pattern) text := by
  constructor
  · intro h
    obtain ⟨rest, hrest, h⟩ := matches_star_iff.1 h
    exact h.star_mono hrest
  · exact Matches.star

/-- On the empty text a `%` takes nothing. -/
theorem matches_star_empty_iff : Matches ('%' :: pattern) [] ↔ Matches pattern [] := by
  simp [matches_star_iff]

/-- The empty text is matched by `%` alone. -/
theorem matches_empty_iff : Matches pattern [] ↔ pattern.all (· = '%') = true := by
  induction pattern with
  | nil => simp [matches_nil_iff]
  | cons p pattern ih =>
    by_cases hp : p = '%'
    · subst hp
      simp [matches_star_empty_iff, ih]
    · have hnot : ¬ Matches (p :: pattern) [] := by
        rw [matches_cons_iff]
        rintro ⟨piece, rest, hpiece, _, htext⟩
        obtain ⟨d, rfl, _⟩ := (takes_iff_of_ne hp).1 hpiece
        cases htext
      simp [hnot, hp]

/-- A part of the pattern without `%` takes as many characters as it has. -/
theorem Matches.drop {taken : List Char} (htaken : '%' ∉ taken)
    (h : Matches (taken ++ pattern) text) : Matches pattern (text.drop taken.length) := by
  induction taken generalizing text with
  | nil => exact h
  | cons p taken ih =>
    obtain ⟨hp, htaken⟩ := not_or.1 (mt List.mem_cons.2 htaken)
    obtain ⟨piece, rest, hpiece, hrest, rfl⟩ := matches_cons_iff.1 h
    obtain ⟨c, rfl, _⟩ := (takes_iff_of_ne (Ne.symm hp)).1 hpiece
    exact ih htaken hrest

end Matches

/-! ### Going back to the last `%` -/

/-- The walk stands before `text` and `pattern`. Since the last `%`, after which the pattern was
`last.1` and the text `last.2`, it has passed as many characters of the one as of the other, and no
`%` of the pattern. -/
structure Resumes (text pattern : List Char) (last : List Char × List Char) : Prop where
  passed : ∃ taken gone, last.1 = taken ++ pattern ∧ last.2 = gone ++ text ∧
    taken.length = gone.length ∧ '%' ∉ taken

/-- What the matcher can still find: a match from where it stands, or one after the last `%` has
taken a character more. -/
def Accepts (text pattern : List Char) (retry : Option (List Char × List Char)) : Prop :=
  Matches pattern text ∨ ∃ last ∈ retry, Matches ('%' :: last.1) last.2.tail

section Walk

variable {text pattern rest tail : List Char} {p c : Char} {last : List Char × List Char}
  {retry : Option (List Char × List Char)}

/-- What is passed over in the end of a text is passed over in the text. -/
theorem drop_suffix_drop (n : Nat) (h : rest <:+ text) : rest.drop n <:+ text.drop n := by
  obtain ⟨front, rfl⟩ := h
  rw [List.drop_append]
  exact (List.drop_suffix_drop_left rest (Nat.sub_le n front.length)).trans
    (List.suffix_append _ _)

/-- At a `%` nothing has been passed since. -/
theorem resumes_start (text pattern : List Char) : Resumes text pattern (pattern, text) :=
  ⟨[], [], rfl, rfl, rfl, List.not_mem_nil⟩

/-- One character more is passed on both sides. -/
theorem Resumes.step (h : Resumes (c :: rest) (p :: tail) last) (hp : p ≠ '%') :
    Resumes rest tail last := by
  obtain ⟨taken, gone, hpattern, htext, hlength, htaken⟩ := h.passed
  refine ⟨taken ++ [p], gone ++ [c], ?_, ?_, ?_, ?_⟩
  · rw [hpattern, List.append_assoc]
    rfl
  · rw [htext, List.append_assoc]
    rfl
  · simp [hlength]
  · simp [htaken, Ne.symm hp]

/-- What the last `%` can find by taking more, a `%` at the place of the walk can find too. -/
theorem Resumes.of_star (h : Resumes text pattern last)
    (hlast : Matches ('%' :: last.1) last.2.tail) : Matches ('%' :: pattern) text := by
  obtain ⟨taken, gone, hpattern, htext, hlength, htaken⟩ := h.passed
  obtain ⟨found, hfound, hmatch⟩ := matches_star_iff.1 hlast
  rw [hpattern] at hmatch
  -- the passed part of the pattern takes as many characters here as it took there
  have hends : found.drop taken.length <:+ text := by
    have hdrop : last.2.drop taken.length = text := by
      rw [htext, hlength, List.drop_left]
    rw [← hdrop]
    exact drop_suffix_drop taken.length (hfound.trans (List.tail_suffix last.2))
  exact matches_star_iff.2 ⟨_, hends, hmatch.drop htaken⟩

@[simp] theorem accepts_none_iff : Accepts text pattern none ↔ Matches pattern text := by
  simp [Accepts]

@[simp] theorem accepts_some_iff :
    Accepts text pattern (some last) ↔
      Matches pattern text ∨ Matches ('%' :: last.1) last.2.tail := by
  simp [Accepts]

/-- After a `%` the walk may go on at once, or have it take a character first. -/
theorem accepts_after_star_iff :
    Accepts text pattern (some (pattern, text)) ↔ Matches ('%' :: pattern) text :=
  accepts_some_iff.trans matches_star_tail_iff.symm

/-- Where the matcher says yes there is a match. -/
theorem accepts_of_likeFrom (h : likeFrom text pattern retry = true) :
    Accepts text pattern retry := by
  fun_induction likeFrom text pattern retry with
  | case1 pattern retry => exact .inl (matches_empty_iff.2 h)
  | case2 retry c rest p tail hp ih =>
    refine (ih h).imp_left fun hrest => ?_
    by_cases hstar : p = '%'
    · -- a `%` that was taken for the character itself can as well take it as a wildcard
      subst hstar
      exact hrest.star.star_mono (List.suffix_cons c rest)
    · exact (matches_cons_cons_iff hstar).2 ⟨hp, hrest⟩
  | case3 retry c rest tail _ ih => exact .inl (accepts_after_star_iff.1 (ih h))
  | case4 c rest p _ _ _ tail start ih =>
    exact accepts_some_iff.2 (.inr (accepts_after_star_iff.1 (ih h)))
  | case5 => cases h
  | case6 c rest tail start ih =>
    exact accepts_some_iff.2 (.inr (accepts_after_star_iff.1 (ih h)))
  | case7 => cases h

/-- No `%` of the pattern will meet a `%` of the text. -/
def Apart (text pattern : List Char) : Option (List Char × List Char) → Prop
  | some last => '%' ∉ last.2
  | none => '%' ∉ text ∨ '%' ∉ pattern

/-- A character of the pattern that goes with one of the text is no `%`. -/
theorem Apart.ne_star (h : Apart (c :: rest) (p :: tail) retry)
    (hresumes : ∀ last ∈ retry, Resumes (c :: rest) (p :: tail) last) (hp : p = '_' ∨ p = c) :
    p ≠ '%' := by
  rintro rfl
  obtain rfl : '%' = c := by simpa using hp
  cases retry with
  | none => simp [Apart] at h
  | some last =>
    obtain ⟨_, gone, _, htext, _⟩ := (hresumes last rfl).passed
    simp [Apart, htext] at h

/-- Passing a character brings no `%` together. -/
theorem Apart.step (h : Apart (c :: rest) (p :: tail) retry) : Apart rest tail retry := by
  cases retry with
  | none => exact h.imp (mt (List.mem_cons_of_mem c)) (mt (List.mem_cons_of_mem p))
  | some last => exact h

/-- A `%` of the pattern starts a new stretch of text, which has none. -/
theorem Apart.after_star (h : Apart text ('%' :: tail) retry)
    (hresumes : ∀ last ∈ retry, Resumes text ('%' :: tail) last) :
    Apart text tail (some (tail, text)) := by
  cases retry with
  | none => simpa [Apart] using h
  | some last =>
    obtain ⟨_, gone, _, htext, _⟩ := (hresumes last rfl).passed
    simp only [Apart, htext, List.mem_append, not_or] at h
    exact h.2

/-- Trying again one character later brings no `%` together. -/
theorem Apart.longer {start : List Char} (h : Apart text pattern (some (tail, start))) :
    Apart start.tail tail (some (tail, start.tail)) := mt List.mem_of_mem_tail h

/-- Where there is a match the matcher says yes. By induction along the matcher. When a `%` is met,
the one before it is given up, which loses no match: the text that the earlier one would take can be
taken by the later one. -/
theorem likeFrom_of_accepts (hresumes : ∀ last ∈ retry, Resumes text pattern last)
    (hapart : Apart text pattern retry) (h : Accepts text pattern retry) :
    likeFrom text pattern retry = true := by
  have hstart : ∀ text pattern, ∀ last ∈ some (pattern, text), Resumes text pattern last := by
    simpa using resumes_start
  fun_induction likeFrom text pattern retry with
  | case1 pattern retry =>
    rw [← matches_empty_iff]
    rcases h with h | ⟨last, hlast, h⟩
    · exact h
    · exact matches_star_empty_iff.1 ((hresumes last hlast).of_star h)
  | case2 retry c rest p tail hp ih =>
    have hstar : p ≠ '%' := hapart.ne_star hresumes hp
    refine ih (fun last hlast => (hresumes last hlast).step hstar) hapart.step ?_
    exact h.imp_left fun h => ((matches_cons_cons_iff hstar).1 h).2
  | case3 retry c rest tail _ ih =>
    refine ih (hstart _ _) (hapart.after_star hresumes) (accepts_after_star_iff.2 ?_)
    rcases h with h | ⟨last, hlast, h⟩
    · exact h
    · exact matches_star_star_iff.1 ((hresumes last hlast).of_star h)
  | case4 c rest p _ hp hstar tail start ih =>
    refine ih (hstart _ _) hapart.longer (accepts_after_star_iff.2 ?_)
    rcases accepts_some_iff.1 h with h | h
    · exact absurd ((matches_cons_cons_iff hstar).1 h).1 hp
    · exact h
  | case5 c rest p tail hp hstar =>
    exact absurd ((matches_cons_cons_iff hstar).1 (accepts_none_iff.1 h)).1 hp
  | case6 c rest tail start ih =>
    refine ih (hstart _ _) hapart.longer (accepts_after_star_iff.2 ?_)
    rcases accepts_some_iff.1 h with h | h
    · cases matches_nil_iff.1 h
    · exact h
  | case7 c rest =>
    cases matches_nil_iff.1 (accepts_none_iff.1 h)

end Walk

/-! ### The matcher -/

/-- The matcher says yes only to a text that the pattern matches, and to every such text unless both
of them have a `%`. -/
theorem like_iff_matches (text pattern : String) :
    (like text pattern = true → Matches pattern.toList text.toList) ∧
      (('%' ∉ text.toList ∨ '%' ∉ pattern.toList) →
        (like text pattern = true ↔ Matches pattern.toList text.toList)) := by
  have hsound : like text pattern = true → Matches pattern.toList text.toList := by
    intro h
    exact accepts_none_iff.1 (accepts_of_likeFrom h)
  refine ⟨hsound, fun hapart => ⟨hsound, fun h => ?_⟩⟩
  exact likeFrom_of_accepts (by simp) hapart (accepts_none_iff.2 h)

/-- The first place where the end of the pattern fits is too early, and the matcher goes on. -/
theorem like_iff_matches_banana :
    '%' ∉ "banana".toList ∧ like "banana" "%a_a" = true ∧
      Matches "%a_a".toList "banana".toList := by
  have hapart : '%' ∉ "banana".toList := by decide
  have hlike : like "banana" "%a_a" = true := by simp [like, likeFrom]
  exact ⟨hapart, hlike, ((like_iff_matches _ _).2 (.inl hapart)).1 hlike⟩

/-- A `%` in the text is taken by the `%` of the pattern as that one character, and nothing is left
of the pattern for the rest. -/
theorem like_percent : like "%a" "%" = false ∧ Matches "%".toList "%a".toList := by
  have hlike : like "%a" "%" = false := by simp [like, likeFrom]
  refine ⟨hlike, [['%', 'a']], ?_, rfl⟩
  exact .cons trivial .nil

end QueryTree.Like
