import ReadOnlyViews.Changelog.Master
import ReadOnlyViews.Run.Basic
import ReadOnlyViews.Sql.Source

/-!
The Liquibase part of a run: the changelog that creates a view, its registration, and the removal of
the table definitions that were generated for the entity.
-/

namespace ReadOnlyViews.Run

/-- The view of an entity. -/
def viewSource (entity : Entity) : Sql.ViewSource where
  name := entity.table
  sql := entity.viewSql?
  file := entity.viewSqlFile?

/-- The text of a file of the project, given by its location. -/
def readAt (project : Project) (path : Path) : Except Failure Text :=
  project.read (Path.relativeText (path.drop project.root.length))

/-- The SQL of an entity's view; when there is none, it says why. -/
def viewSql (entity : Entity) : RunM (Option Text) := do
  let about (level : Level) (message : Text) : RunM Unit :=
    say { level, message, entity := some entity.name }
  let project := (← get).project
  match (viewSource entity).text project.disk project.root (readAt project) with
  | .ok sql => return some sql
  | .error failure =>
    let unwritten : Text := failure.message ++ "; changelog not generated"
    match failure.family with
    | .validation =>
      about .error failure.message
      recordFailed entity
      return none
    | .notFound | .disk =>
      about .warn unwritten
      return none
    | .malformed =>
      about .error unwritten
      recordFailed entity
      return none
    | _ => throw failure

/-- The file and stamp of the changelog for a view. -/
def drawChangelog (existing : List Name) (view : Text) : RunM (Text × Text) := do
  let run ← get
  let (result, clock) := Changelog.nextView existing view run.clock
  set { run with clock }
  match result with
  | .ok drawn => return drawn
  | .error failure => throw failure

/-- Writes a file unless it already has the content; the answer is whether it was written. -/
def writeIfChanged (file content : Text) : RunM Bool := do
  if ← ask (·.has file) then
    if (← ask (·.read file)) = content then return false
  change (·.write file content)
  return true

/-- Stores the changelog of a view; the answer is whether it is there. -/
def storeChangelog (entity : Entity) (file content : Text) : RunM Bool :=
  tryCatch
    (do
      if ← writeIfChanged file content then
        record fun report => { report with generated := report.generated ++ [file] }
        say { level := .info, message := "wrote view changelog", entity := some entity.name,
              path := some file }
      return true)
    fun failure => do
      if !isReported failure then throw failure
      say { level := .error, message := "failed to write changelog: " ++ failure.message,
            entity := some entity.name, path := some file }
      return false

/-- Registers a changelog in the master. -/
def registerChangelog (entity : Entity) (file : Text) : RunM Unit := do
  let master := (← get).options.layout.masterChangelog
  if ← ask (·.has master) then
    let _ ← editFile (some entity.name) master
      (.single "master include" (Changelog.register file)) false
  else
    say { level := .warn,
          message := "master changelog not found; add the view changelog manually",
          entity := some entity.name, path := some master }

/-- Writes the changelog of a view and registers it; the answer is its path, if there is one. -/
def writeViewChangelog (entity : Entity) : RunM (Option Text) := do
  let some sql ← viewSql entity | return none
  let folder := (← get).options.layout.changelogFolder
  let existing ← ask (·.list folder)
  let (name, stamp) ← drawChangelog existing entity.table
  let file := folder ++ "/" ++ name
  let content :=
    Changelog.renderView entity.className entity.table (Sql.selectStatement sql) stamp
  if ← storeChangelog entity file content then
    registerChangelog entity name
    return some file
  return none

/-- Deletes a file that belongs to a table definition. -/
def deleteArtifact (entity : Entity) (file : Text) : RunM Unit :=
  tryCatch
    (do
      change (·.delete file)
      record fun report => { report with deleted := report.deleted ++ [file] }
      say { level := .info, message := "deleted table-definition artifact",
            entity := some entity.name, path := some file })
    fun failure => do
      if failure.family ≠ .disk then throw failure
      say { level := .warn, message := "failed to delete: " ++ failure.message,
            entity := some entity.name, path := some file }

/-- Removes the table definitions of a view entity: their includes, their changelogs and the sample
data. -/
def removeTableDefinitions (entity : Entity) : RunM Unit := do
  let layout := (← get).options.layout
  if ← ask (·.has layout.masterChangelog) then
    let _ ← editFile (some entity.name) layout.masterChangelog
      (.single "table includes" (Changelog.removeTableIncludes entity.className)) false
  let names ← ask (·.list layout.changelogFolder)
  (names.filter fun name =>
      Changelog.isTable entity.className name || Changelog.isConstraints entity.className name).forM
    fun name => deleteArtifact entity (layout.changelogFolder ++ "/" ++ name)
  let sample := layout.fakeDataFolder ++ "/" ++ entity.table ++ ".csv"
  if ← ask (·.has sample) then deleteArtifact entity sample

end ReadOnlyViews.Run
