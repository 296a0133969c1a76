import ReadOnlyViews.Document
import ReadOnlyViews.Edit
import ReadOnlyViews.Java.Extent
import ReadOnlyViews.Text.Pattern

/-!
Removal of methods.  A method is recognised by its first line, which lies outside comments; lines
inside comments are kept and never looked at.
-/

namespace ReadOnlyViews.Java

/-- Which lines start a method that is to go. -/
abbrev LineTest := Text → Bool

/-- Lines that start, indentation aside, with an annotation; a longer name is another annotation. -/
def annotatedWith (name : Text) : LineTest := fun line =>
  match Text.after? name (Text.trim line) with
  | some rest => !rest.head?.any fun c => isWord c || c == '.'
  | none => false

/-- Lines that hold a match of a signature. -/
def holdsSignature (signature : Pattern) : LineTest := signature.occursIn

/-- The lines that stay, how many methods went, and the line where a method without an end stopped
the removal. -/
structure Removal where
  kept : List Text
  removed : Nat
  stuckAt : Option Nat
  deriving DecidableEq, Repr

/-- Keeps one more line in front. -/
def Removal.keep (line : Text) (removal : Removal) : Removal :=
  { removal with kept := line :: removal.kept }

/-- The removal over lines from an index on.  `skip` counts the lines of the current method that
are still to be dropped; `inComment` tells whether a block comment is open. -/
def removeFrom (test : LineTest) :
    (skip : Nat) → (inComment : Bool) → (index : Nat) → List Text → Removal
  | _, _, _, [] => ⟨[], 0, none⟩
  | skip + 1, inComment, index, _ :: more => removeFrom test skip inComment (index + 1) more
  | 0, true, index, line :: more =>
    (removeFrom test 0 (!Text.includes "*/" (Text.trim line)) (index + 1) more).keep line
  | 0, false, index, line :: more =>
    let trimmed := Text.trim line
    match Text.after? "/*" trimmed with
    | some tail => (removeFrom test 0 (!Text.includes "*/" tail) (index + 1) more).keep line
    | none =>
      if List.isPrefixOf "//".toList trimmed || !test line then
        (removeFrom test 0 false (index + 1) more).keep line
      else
        match methodLength? (line :: more) with
        | none => ⟨line :: more, 0, some index⟩
        | some length =>
          let rest := removeFrom test (length - 1) false (index + 1) more
          { rest with removed := rest.removed + 1 }

/-- Removes every method whose first line passes the test.  A method that never closes fails the
edit: it and all that follows stay, and methods removed before it stay removed. -/
def removeMethods (test : LineTest) (text : Text) : Edit :=
  let removal := removeFrom test 0 false 0 (Document.lines text)
  match removal.stuckAt with
  | some index =>
    let failure := Failure.unbalancedMethod (index + 1)
    { outcome := .failed, text := Document.render text removal.kept, reason := failure.message,
      error := some failure }
  | none =>
    if removal.removed = 0 then
      { outcome := .alreadyPresent, text, reason := "no matching method" }
    else
      { outcome := .applied, text := Document.render text removal.kept,
        reason := "removed " ++ Text.ofNat removal.removed ++ " method(s)" }

end ReadOnlyViews.Java
