import ReadOnlyViews.Changelog.Clock
import ReadOnlyViews.Java.Nesting
import ReadOnlyViews.Project.FileEdit
import ReadOnlyViews.Project.Settings

/-!
A run over the entities of a project: what it is told, what it keeps, and the edit of one file with
the diagnostics about it.
-/

namespace ReadOnlyViews

/-- What a run is told. -/
structure RunOptions where
  layout : Layout := {}
  /-- The names of the entities to take; none stands for all. -/
  selection : List Text := []
  withLiquibase : Bool := true
  withMyBatis : Bool := true
  withCleanup : Bool := true
  deriving DecidableEq, Repr

/-- What a run reports. -/
structure RunReport where
  entities : List Text := []
  changed : List Text := []
  generated : List Text := []
  deleted : List Text := []
  failed : List Text := []
  diagnostics : List Diagnostic := []
  deriving DecidableEq, Repr

/-- Whether no diagnostic is an error. -/
def RunReport.ok (report : RunReport) : Bool := !report.diagnostics.any (·.level == .error)

/-- A run on its way. -/
structure Run where
  options : RunOptions := {}
  space : Workspace
  reporter : Reporter := {}
  clock : Clock
  report : RunReport := {}
  /-- The parser of Java sources that guards their edits: whether it takes a text. -/
  parses : Text → Bool := Java.isWellNested
  /-- The MyBatis settings, once they were loaded. -/
  settings : Option MyBatis.Settings := none

/-- A step of a run.  A failure keeps what was done before it. -/
abbrev RunM := EStateM Failure Run

namespace Run

/-- The project of the run. -/
def project (run : Run) : Project := run.space.project

/-- An answer of the project, or its failure. -/
def ask {α : Type} (question : Project → Except Failure α) : RunM α := fun run =>
  match question run.project with
  | .ok answer => .ok answer run
  | .error failure => .error failure run

/-- A change of the project, or its failure; the project that is left is kept in either case. -/
def change (action : Project → Except Failure Unit × Project) : RunM Unit := fun run =>
  let (result, project) := action run.project
  let run := { run with space := { run.space with project } }
  match result with
  | .ok () => .ok () run
  | .error failure => .error failure run

/-- Says something. -/
def say (d : Diagnostic) : RunM Unit :=
  modify fun run => { run with reporter := run.reporter.emit d }

/-- Adds to the report. -/
def record (update : RunReport → RunReport) : RunM Unit :=
  modify fun run => { run with report := update run.report }

/-- Records that an entity failed. -/
def recordFailed (entity : Entity) : RunM Unit :=
  record fun report => { report with failed := report.failed ++ [entity.name] }

/-- What is said about one step of an edit: fallbacks, failures and missing anchors are warnings,
applied steps are information, and steps that were not needed are passed over. -/
def stepDiagnostic (entity : Option Text) (file : Text) (name : Text) (step : Edit) :
    Option Diagnostic :=
  let about (level : Level) (message : Text) : Option Diagnostic :=
    some { level, message := name ++ ": " ++ message, entity, path := some file }
  match step.outcome with
  | .applied =>
    if step.fallback then about .warn step.reason
    else about .info (if step.reason.isEmpty then "applied" else step.reason)
  | .failed => about .warn step.reason
  | .noAnchor => about .warn "expected anchor not found"
  | .alreadyPresent => none

/-- What is said about an edit. -/
def editDiagnostics (entity : Option Text) (edit : FileEdit) : List Diagnostic :=
  match edit.error with
  | some failure =>
    [{ level := if failure.family = .notFound then .warn else .error,
       message := "left unchanged: " ++ failure.message, entity, path := some edit.file }]
  | none => edit.steps.filterMap fun (name, step) => stepDiagnostic entity edit.file name step

/-- Whether a failure of a file is reported and the run goes on with the next file. -/
def isReported (failure : Failure) : Bool :=
  failure.family == .disk || failure.family.isForeseen

/-- Edits one file and says what came of it.  The answer is whether the file is in order: not when
it is missing though required, or could not be edited. -/
def editFile (entity : Option Text) (file : Text) (conversion : Conversion)
    (required : Bool) : RunM Bool := do
  if !(← ask (·.has file)) then
    if required then
      say { level := .warn, message := "file not found; skipping read-only rewrite", entity,
            path := some file }
      return false
    say { level := .info, message := "file not found; skipped", entity, path := some file }
    return true
  let run ← get
  let (result, space) := run.space.edit run.parses file conversion
  set { run with space }
  match result with
  | .error failure =>
    if isReported failure then
      say { level := .error, message := "failed to edit: " ++ failure.message, entity,
            path := some file }
      return false
    throw failure
  | .ok edit =>
    (editDiagnostics entity edit).forM say
    if edit.changed then record fun report => { report with changed := report.changed ++ [file] }
    return edit.error.isNone

end Run

end ReadOnlyViews
