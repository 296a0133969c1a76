import ReadOnlyViews.CommandLine.Arguments
import ReadOnlyViews.Report.Table
import ReadOnlyViews.Run.Batch

/-!
The program as the command line starts it: it looks for the project, shows its entities, runs over
them and shows what was done.
-/

namespace ReadOnlyViews.CommandLine

/-- How a session ends: with an exit code, or with a failure that nothing handled. -/
inductive Ending where
  | exit (code : Nat)
  | failure (failure : Failure)
  deriving DecidableEq, Repr

/-- What a session leaves: its ending, the complaint about its arguments, the console and the
disk. -/
structure Session where
  ending : Ending
  complaint : Option Text := none
  console : Console := []
  disk : Disk

/-- The table of entities. -/
def entityTable (entities : List Entity) : Table where
  title := "Entities found (.jhipster)"
  columns := [{ header := "#", alignRight := true }, { header := "Entity" },
    { header := "Table" }, { header := "View" }, { header := "MyBatis" }]
  rows := entities.zipIdx.map fun (entity, index) =>
    [Text.ofNat (index + 1), entity.className, entity.table,
      if entity.isView then "yes" else [], if entity.isMyBatis then "yes" else []]

/-- A heading and a list of files, if there are any. -/
def fileList (heading : Text) (files : List Text) (reporter : Reporter) : Reporter :=
  if files.isEmpty then reporter
  else files.foldl (fun reporter file => reporter.print (" - " ++ file)) (reporter.print heading)

/-- Shows what a run did. -/
def showReport (report : RunReport) (reporter : Reporter) : Reporter :=
  let reporter := reporter.print []
  let reporter := fileList "Changed files:" report.changed reporter
  let reporter := fileList "Generated files:" report.generated reporter
  let reporter := fileList "Deleted files:" report.deleted reporter
  let warnings := reporter.count .warn
  let errors := reporter.count .error
  let reporter :=
    if warnings + errors > 0 then reporter.printTable (reporter.summary "viewbot run")
    else reporter
  reporter.print ("\nDone: " ++ Text.ofNat report.entities.length ++ " entities, " ++
    Text.ofNat warnings ++ " warning(s), " ++ Text.ofNat errors ++ " error(s)")

/-- Runs over the entities of a project that was found. -/
def runProject (arguments : Arguments) (clock : Clock) (root : Path) (disk : Disk) :
    Session :=
  let scan : Project := { root, dryRun := true, disk }
  let base : Layout := match arguments.package.filter (!·.isEmpty) with
    | some package => { package }
    | none => {}
  let reporter : Reporter := { quiet := arguments.quiet }
  match scan.detectLayout base with
  | .error failure => { ending := .failure failure, disk }
  | .ok layout =>
    let (entities, warnings) := Catalog.load scan
    let reporter := reporter.emitAll warnings
    match entities with
    | .error failure => { ending := .failure failure, console := reporter.console, disk }
    | .ok [] =>
      let reporter := reporter.print "[WARN] No entity configs found under .jhipster/"
      { ending := .exit 1, console := reporter.console, disk }
    | .ok entities =>
      let reporter :=
        if arguments.quiet then reporter
        else
          let reporter := reporter.print "\nProject detected"
          let reporter := reporter.print ("- Root: " ++ root.text)
          let reporter := reporter.print ("- base package: " ++ layout.package)
          let reporter := reporter.print
            ("- dry-run: " ++ if arguments.dryRun then "True".toList else "False".toList)
          reporter.printTable (entityTable entities)
      let run : Run := {
        options := {
          layout
          selection := arguments.selection
          withLiquibase := !arguments.noLiquibase
          withMyBatis := !arguments.noMyBatis
          withCleanup := !arguments.noCleanup }
        space := { project := { root, dryRun := arguments.dryRun, disk } }
        reporter
        clock }
      match Run.batch entities run with
      | .error failure run =>
        { ending := .failure failure, console := run.reporter.console, disk := run.project.disk }
      | .ok report run =>
        { ending := .exit (if report.ok then 0 else 1)
          console := (showReport report run.reporter).console
          disk := run.project.disk }

/-- A path with a leading tilde replaced by the home folder; the homes of other users are not known.
Dots before the tilde are overlooked. -/
def expandHome (home : Path) (raw : Text) : Except Failure Text :=
  if Path.isAbsolute raw then .ok raw
  else match (Path.segments raw).filter fun name => name != [] && name != ".".toList with
    | ('~' :: user) :: rest =>
      if user.isEmpty then .ok (home ++ rest).text
      else .error (.reported .runtime "Could not determine home directory.")
    | _ => .ok raw

/-- Where a session starts. -/
structure Surroundings where
  folder : Path
  home : Path
  clock : Clock
  disk : Disk

/-- A session from its arguments. -/
def session (start : Surroundings) (texts : List Text) : Session :=
  let disk := start.disk
  match parse texts with
  | .error refusal =>
    { ending := .exit refusal.exitCode, complaint := refusal.complaint?, disk }
  | .ok arguments =>
    match (expandHome start.home (stripQuotes arguments.root)).bind
        (disk.resolve start.folder) with
    | .error failure => { ending := .failure failure, disk }
    | .ok root =>
      match disk.isFolder root with
      | .error fault => { ending := .failure (.disk fault root none), disk }
      | .ok true => runProject arguments start.clock root disk
      | .ok false =>
        let reporter : Reporter := {}
        { ending := .exit 2
          console := (reporter.print ("[ERROR] Folder not found: " ++ root.text)).console
          disk }

end ReadOnlyViews.CommandLine
