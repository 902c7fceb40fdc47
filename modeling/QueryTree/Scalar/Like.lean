/-!
# LIKE

Pattern matching with `%` for any run of characters and `_` for exactly one. The matcher walks text
and pattern together and remembers the last `%` it passed: when it gets stuck, that `%` takes one
character more. A pattern character equal to the text's character is always consumed first, and this
holds of `%` as well: against a `%` in the text it stands for that one character.
-/

namespace QueryTree

/-- Match `text` against `pattern`. `retry` holds the pattern after the last `%` and the text that
stood there. -/
def likeFrom (text pattern : List Char) (retry : Option (List Char × List Char)) : Bool :=
  match text with
  | [] => pattern.all (· = '%')
  | c :: rest =>
    match pattern with
    | p :: tail =>
      if p = '_' ∨ p = c then likeFrom rest tail retry
      else if p = '%' then likeFrom (c :: rest) tail (some (tail, c :: rest))
      else
        match retry with
        | some (tail, start) => likeFrom start.tail tail (some (tail, start.tail))
        | none => false
    | [] =>
      match retry with
      | some (tail, start) => likeFrom start.tail tail (some (tail, start.tail))
      | none => false
termination_by
  (match retry with
    | some (_, start) => max start.length text.length
    | none => text.length + 1, pattern.length)
decreasing_by
  all_goals simp_wf
  · cases retry with
    | none => simp only [Prod.lex_def]; omega
    | some r => simp only [Prod.lex_def]; omega
  · cases retry with
    | none => simp only [Prod.lex_def]; omega
    | some r => simp only [Prod.lex_def]; omega
  · simp only [Prod.lex_def]; omega
  · simp only [Prod.lex_def]; omega

/-- The text matches the pattern. -/
def like (text pattern : String) : Bool := likeFrom text.toList pattern.toList none

end QueryTree
