import ReadOnlyViews.Failure

/-!
The result of one edit of a text, and edits in a row.
-/

namespace ReadOnlyViews

/-- How an edit went. -/
inductive Outcome where
  | applied
  | alreadyPresent
  | noAnchor
  | failed
  deriving DecidableEq, Repr

/-- The word for an outcome. -/
def Outcome.word : Outcome → Text
  | applied => "applied"
  | alreadyPresent => "skipped-already-present"
  | noAnchor => "skipped-no-anchor"
  | failed => "failed"

/-- The result of an edit: how it went, the text it leaves, and what is to be said about it. -/
structure Edit where
  outcome : Outcome
  text : Text
  reason : Text := []
  error : Option Failure := none
  /-- Whether the edit had to fall back to the end of the file. -/
  fallback : Bool := false
  deriving DecidableEq, Repr

/-- The results of named edits, in order. -/
abbrev Steps := List (Text × Edit)

/-- An edit that may fail as a whole. -/
abbrev EditStep := Text → Except Failure Edit

/-- Named edits in a row, each on the text that the one before left; the first failure ends them. -/
def runSteps (text : Text) : List (Text × EditStep) → Except Failure (Text × Steps)
  | [] => .ok (text, [])
  | (name, step) :: others => do
    let edit ← step text
    let (final, results) ← runSteps edit.text others
    return (final, (name, edit) :: results)

end ReadOnlyViews
