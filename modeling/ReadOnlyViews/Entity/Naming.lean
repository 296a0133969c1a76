import ReadOnlyViews.Text.Case
import ReadOnlyViews.Text.Pattern

/-!
Names in other spellings.
-/

namespace ReadOnlyViews.Naming

/-- The name with its first character in capital form. -/
def upperFirst : Text → Text
  | [] => []
  | c :: rest => Text.upperChar c ++ rest

/-- The name with its first character in small form. -/
def lowerFirst : Text → Text
  | [] => []
  | c :: rest => Text.lower [c] ++ rest

/-- A run of capitals whose last one starts a word. -/
def capitalsThenWord : Probe where
  lead := .run1 Char.isUpper
  target := .one Char.isUpper ++ Pattern.one Char.isLower

/-- A capital behind a small letter or a digit. -/
def wordThenCapital : Probe where
  lead := .one fun c => c.isLower || isDecimal c
  target := .one Char.isUpper

/-- Drops one leading underscore. -/
def dropUnderscore : Text → Text
  | '_' :: rest => rest
  | text => text

/-- A name in small letters with underscores between its words.  Runs of capitals are divided before
the words are. -/
def snakeCase (name : Text) : Text :=
  dropUnderscore (Text.lower (wordThenCapital.markAll ['_'] (capitalsThenWord.markAll ['_'] name)))

end ReadOnlyViews.Naming
