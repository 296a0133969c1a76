import ReadOnlyViews.Failure
import ReadOnlyViews.Text.Pattern

/-!
The SQL of a view: the query inside a statement that creates it, and the form that the path of a
SQL file must have.
-/

namespace ReadOnlyViews.Sql

open Pattern (blanks1)

/-- A name: word characters, or anything in double quotes or in back quotes. -/
def identifier : Pattern :=
  .either (.run1 isWord)
    (.either ("\"" ++ .run1 (· != '"') ++ "\"") ("\x60" ++ .run1 (· != '\x60') ++ "\x60"))

/-- A statement that creates a view, in any case; its target is the query. -/
def createView : Probe where
  lead := .anyCase "CREATE" ++ blanks1 ++
    Pattern.optional (.anyCase "OR" ++ blanks1 ++ .anyCase "REPLACE" ++ blanks1) ++
    .anyCase "VIEW" ++ blanks1 ++ Pattern.optional (identifier ++ ".") ++ identifier ++
    blanks1 ++ .anyCase "AS" ++ blanks1
  target := .run1 (fun _ => true)

/-- The query of a statement that creates a view; any other text is taken as the query. -/
def selectStatement (sql : Text) : Text :=
  match createView.find? sql with
  | some found => Text.trim found.text
  | none => Text.trim sql

/-- The segments of a path, divided by slashes of either kind. -/
def pathSegments (raw : Text) : List Text :=
  (Text.pieces '/' raw).flatMap (Text.pieces '\\')

/-- Whether a path goes up to a parent folder; a line feed at its very end is overlooked. -/
def climbs (raw : Text) : Bool :=
  let segments := pathSegments raw
  segments.contains ".." || segments.getLast? == some "..\n"

/-- Whether a path starts with a drive letter. -/
def hasDrive : Text → Bool
  | letter :: ':' :: _ => letter.isAlpha
  | _ => false

/-- Checks a SQL file path as it is written: it must not climb, and must be relative. -/
def checkPath (raw : Text) : Except Failure Unit :=
  if climbs raw then .error (.parentSegment raw)
  else if raw.head? = some '/' ∨ raw.head? = some '\\' ∨ hasDrive raw then .error (.notRelative raw)
  else .ok ()

end ReadOnlyViews.Sql
