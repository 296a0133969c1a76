import ReadOnlyViews.Project.Files
import ReadOnlyViews.ReadOnly.Conversion

/-!
Edits of files: read, convert, and write back only if the whole conversion went well.
-/

namespace ReadOnlyViews

open ReadOnly (Converted)
open Java (AskedNames)

/-- A project and the class names that its conversions have asked about. -/
structure Workspace where
  project : Project
  asked : AskedNames := []
  deriving Repr

/-- What came of the edit of one file. -/
structure FileEdit where
  file : Text
  changed : Bool := false
  steps : Steps := []
  error : Option Failure := none
  /-- Whether the edit was taken back because it would have broken the source. -/
  reverted : Bool := false
  deriving Repr

/-- A conversion of a file's text, given the class names asked about so far. -/
abbrev Conversion := AskedNames → Text → Except Failure Converted

/-- A single named edit as a conversion. -/
def Conversion.single (name : Text) (edit : Text → Edit) : Conversion := fun asked text =>
  let edit := edit text
  .ok { text := edit.text, steps := [(name, edit)], asked }

/-- Edits a file.  A conversion that fails leaves it as it was, and so does one that turns a Java
source that is well formed into one that is not. -/
def Workspace.edit (wellFormed : Text → Bool) (space : Workspace) (file : Text)
    (conversion : Conversion) : Except Failure FileEdit × Workspace :=
  match space.project.read file with
  | .error failure => (.error failure, space)
  | .ok before =>
    match conversion space.asked before with
    | .error failure => (.ok { file, error := some failure }, space)
    | .ok { text, steps, asked } =>
      let space := { space with asked }
      if text = before then (.ok { file, steps }, space)
      else if Text.endsWith ".java" file && !wellFormed text && wellFormed before then
        (.ok { file, steps, error := some .brokenEdit, reverted := true }, space)
      else match space.project.write file text with
        | (.error failure, project) => (.error failure, { space with project })
        | (.ok (), project) => (.ok { file, changed := true, steps }, { space with project })

end ReadOnlyViews
