import ReadOnlyViews.Text.Basic

/-!
Paths of a file system.
-/

namespace ReadOnlyViews

/-- The name of an entry of a folder. -/
abbrev Name := Text

/-- An absolute path as the names from the top folder down; the top folder is the empty path. -/
abbrev Path := List Name

namespace Path

/-- A path as it is written. -/
def text (path : Path) : Text :=
  if path.isEmpty then "/" else path.flatMap ('/' :: ·)

/-- The names of a written path; empty names stand where slashes meet. -/
def segments (raw : Text) : List Name := Text.pieces '/' raw

/-- Whether a written path starts at the top folder. -/
def isAbsolute (raw : Text) : Bool := raw.head? == some '/'

/-- The written path of names below a folder. -/
def relativeText (names : List Name) : Text :=
  if names.isEmpty then "." else Text.join "/" names

/-- One step of a path as a plain reading takes it: a dot stays, two dots go up. -/
def step (path : Path) (name : Name) : Path :=
  if name = [] ∨ name = "." then path
  else if name = ".." then path.dropLast
  else path ++ [name]

end Path

end ReadOnlyViews
