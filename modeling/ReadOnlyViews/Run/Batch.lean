import ReadOnlyViews.MyBatis.Source
import ReadOnlyViews.Run.ViewChangelog

/-!
A whole run: every selected entity in turn, then the MyBatis sources of those that want them.  A
failure of one entity is reported, and the run goes on with the next.
-/

namespace ReadOnlyViews.Run

/-- Runs a step for an entity; whatever fails is reported as the entity's failure. -/
def guarded (entity : Entity) (step : RunM Unit) : RunM Unit :=
  tryCatch step fun failure => do
    say { level := .error, entity := some entity.name,
          message := "unexpected failure: " ++ failure.label ++ ": " ++ failure.message }
    record fun report =>
      if report.failed.contains entity.name then report
      else { report with failed := report.failed ++ [entity.name] }

/-- Whether the SQL file of an entity may be read; if not, it says so. -/
def sqlFileAllowed (entity : Entity) : RunM Bool := do
  match entity.viewSqlFile? with
  | none => return true
  | some file =>
    let project := (← get).project
    match Sql.checkPath file, project.disk.resolveWithin project.root file with
    | .ok (), .ok _ => return true
    | .error failure, _ | .ok (), .error failure =>
      if failure.family ≠ .validation then throw failure
      say { level := .error, message := failure.message, entity := some entity.name }
      recordFailed entity
      return false

/-- Makes the sources of a view entity read-only; the answer is whether its table may be replaced by
the view. -/
def prepareView (entity : Entity) : RunM Bool := do
  say { level := .info, message := "processing view entity", entity := some entity.name }
  if !(← sqlFileAllowed entity) then return false
  let layout := (← get).options.layout
  let convert (kind : ReadOnly.SourceKind) (file : Text) (required : Bool) : RunM Bool :=
    editFile (some entity.name) file (ReadOnly.convert kind entity.table) required
  if !(← convert .entity (layout.entityFile entity) true) then return false
  let _ ← convert .repository (layout.repositoryFile entity) false
  let _ ← convert .resource (layout.resourceFile entity) false
  let _ ← convert .service (layout.serviceFile entity) false
  let _ ← convert .test (layout.resourceTestFile entity) false
  return true

/-- Makes the sources of a view entity read-only and replaces its table by the view. -/
def runView (entity : Entity) : RunM Unit := do
  if ← prepareView entity then
    let options := (← get).options
    if options.withLiquibase then
      let _ ← writeViewChangelog entity
    if options.withCleanup then removeTableDefinitions entity

/-- Generates a source unless it is already there. -/
def generate (entity : Entity) (file content : Text) : RunM Unit := do
  let written : Bool ← tryCatch (writeIfChanged file content) fun failure => do
    if !isReported failure then throw failure
    say { level := .error, message := "failed to generate: " ++ failure.message,
          entity := some entity.name, path := some file }
    return false
  if written then
    record fun report => { report with generated := report.generated ++ [file] }
    say { level := .info, message := "generated", entity := some entity.name, path := some file }

/-- Fails if half of a surrogate pair was found: with one, a path or a text cannot be encoded. -/
def encode (half? : Option (Nat × Nat)) : RunM Unit :=
  match half? with
  | some (half, position) => throw (.unencodable half position)
  | none => pure ()

/-- Generates the model and the mapper of an entity. -/
def generatePair (settings : MyBatis.Settings) (entity : Entity) : RunM Unit := do
  let layout := (← get).options.layout
  let fileOf (packages name : Text) : Text :=
    layout.inMain (Text.pieces '.' packages ++ [name ++ ".java"])
  let model := MyBatis.modelName entity settings layout.package
  let mapper := MyBatis.mapperName entity settings layout.package
  encode (settings.half? ["modelPackage", "modelSuffix"])
  generate entity (fileOf settings.modelPackage model.name)
    (MyBatis.renderModel entity settings layout.package)
  encode (settings.half? ["mapperPackage", "mapperSuffix"])
  generate entity (fileOf settings.mapperPackage mapper.name)
    (MyBatis.renderMapper entity settings layout.package)

/-- The MyBatis settings, loaded once. -/
def myBatisSettings : RunM MyBatis.Settings := do
  match (← get).settings with
  | some settings => return settings
  | none =>
    let (settings, diagnostics) ← ask (·.myBatisSettings)
    diagnostics.forM say
    modify fun run => { run with settings := some settings }
    return settings

/-- Fails if the application's settings, with those for MyBatis added, are to be written and cannot be
encoded. -/
def encodeSettings (settings : MyBatis.Settings) (yml package : Text) : RunM Unit := do
  let project := (← get).project
  let adds := (project.read yml).toOption.any fun text =>
    (MyBatis.appendSettings settings package text).outcome == .applied
  if adds && !project.dryRun then encode (settings.half? ["modelPackage"])

/-- Generates the MyBatis sources of entities and the application's settings for them. -/
def runMyBatis (entities : List Entity) : RunM Unit := do
  let settings ← myBatisSettings
  let layout := (← get).options.layout
  entities.forM fun entity => guarded entity (generatePair settings entity)
  let yml := layout.applicationYml
  if ← ask (·.has yml) then
    encodeSettings settings yml layout.package
    let _ ← editFile none yml
      (.single "mybatis config" (MyBatis.appendSettings settings layout.package)) false
  else
    say { level := .warn, message := "application.yml not found; MyBatis config not appended",
          path := some yml }

/-- The entities that a run takes. -/
def selected (options : RunOptions) (entities : List Entity) : List Entity :=
  if options.selection.isEmpty then entities
  else entities.filter fun entity =>
    options.selection.contains entity.name || options.selection.contains entity.className

/-- One entity's turn. -/
def takeTurn (entity : Entity) : RunM Unit := do
  record fun report => { report with entities := report.entities ++ [entity.name] }
  if entity.isView then guarded entity (runView entity)

/-- Runs over entities and gives the report. -/
def batch (entities : List Entity) : RunM RunReport := do
  record fun _ => {}
  let options := (← get).options
  let chosen := selected options entities
  chosen.forM takeTurn
  let wanting := chosen.filter fun entity => entity.isMyBatis && options.withMyBatis
  if !wanting.isEmpty then runMyBatis wanting
  modify fun run => { run with report := { run.report with diagnostics := run.reporter.items } }
  return (← get).report

end ReadOnlyViews.Run
