import ReadOnlyViews.Changelog.View
import ReadOnlyViews.Insertion

/-!
The master changelog, which includes all others: view changelogs are registered in it, and the
includes of a view entity's table changelogs are dropped from it.
-/

namespace ReadOnlyViews.Changelog

/-- The folder of changelogs as includes name it. -/
def includeFolder : Text := "config/liquibase/changelog/"

/-- The include of a changelog. -/
def includeFragment (file : Text) : Fragment where
  lines := ["    <include file=\"" ++ includeFolder ++ file ++
    "\" relativeToChangelogFile=\"false\"/>"]
  witness := .literal ("\"" ++ includeFolder ++ file ++ "\"")

/-- Registers a changelog before the end tag of the master. -/
def register (file master : Text) : Edit :=
  splice (includeFragment file) ["</databaseChangeLog>"] master

/-- The part of a table changelog's file name behind its fourteen digits. -/
def tableSuffix (entityClass : Text) : Text := "_added_entity_" ++ entityClass ++ ".xml"

/-- The same part for the changelog of a table's constraints. -/
def constraintsSuffix (entityClass : Text) : Text :=
  "_added_entity_constraints_" ++ entityClass ++ ".xml"

/-- Whether a file name is fourteen digits and a suffix. -/
def isStamped (suffix file : Text) : Bool :=
  (file.take 14).length == 14 && (file.take 14).all isDecimal &&
    isUpToLineFeed suffix (file.drop 14)

/-- Whether a file is the table changelog of an entity. -/
def isTable (entityClass file : Text) : Bool := isStamped (tableSuffix entityClass) file

/-- Whether a file is the constraints changelog of an entity. -/
def isConstraints (entityClass file : Text) : Bool :=
  isStamped (constraintsSuffix entityClass) file

/-- An include line of a table or constraints changelog, with its line end. -/
def tableInclude (entityClass : Text) : Pattern :=
  .lineStart ++ .run isBlankOrTab ++ "<include" ++ Pattern.blanks1 ++
    .exactly ("file=\"" ++ includeFolder) ++ Pattern.times (.one isDecimal) 14 ++
    "_added_entity_" ++ Pattern.optional "constraints_" ++ .exactly (entityClass ++ ".xml\"") ++
    .run (fun c => c != '/' && c != '>') ++ Pattern.optional "/" ++ ">" ++
    .run isBlankOrTab ++ Pattern.lineBreakOrEnd

/-- Drops the includes of an entity's table changelogs from the master. -/
def removeTableIncludes (entityClass master : Text) : Edit :=
  let (text, count) := (tableInclude entityClass).eraseAll master
  if count = 0 then
    { outcome := .alreadyPresent, text := master, reason := "no table includes" }
  else
    { outcome := .applied, text, reason := "removed " ++ Text.ofNat count ++ " include(s)" }

end ReadOnlyViews.Changelog
