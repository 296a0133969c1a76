import ReadOnlyViews.Entity.Config
import ReadOnlyViews.Project.Files
import ReadOnlyViews.Report.Diagnostic

/-!
The entities of a project: every configuration in its folder that can be read.
-/

namespace ReadOnlyViews.Catalog

/-- The folder of entity configurations. -/
def configFolder : Text := ".jhipster"

/-- The ending of a configuration's file name. -/
def configSuffix : Text := ".json"

/-- Whether a configuration is passed over when reading it fails in this way. -/
def isPassedOver (failure : Failure) : Bool :=
  failure.family == .disk || failure.family == .value || failure.family.isForeseen

/-- The JSON value of a file. -/
def readJson (project : Project) (file : Text) : Except Failure Json := do
  let text ← project.read file
  match Json.parse text with
  | .ok value => .ok value
  | .error fault => .error (.notJson fault)

/-- The entity of a configuration file, or the warning about a file that cannot be read; a value
that is no object gives neither. -/
def readEntity (project : Project) (name : Name) :
    Except Failure (Option Entity × List Diagnostic) :=
  let file := configFolder ++ "/" ++ name
  match readJson project file with
  | .error failure =>
    if isPassedOver failure then
      .ok (none, [{ level := .warn, path := some file,
                    message := "failed to parse entity config: " ++ failure.message ++
                      "; skipping" }])
    else .error failure
  | .ok (.object config) => do
    let entity ← Entity.ofConfig (name.take (name.length - configSuffix.length)) config
    return (some entity, [])
  | .ok _ => .ok (none, [])

/-- The entities of files in order, and the warnings so far; the first failure ends the reading. -/
def readEntities (project : Project) : List Name → Except Failure (List Entity) × List Diagnostic
  | [] => (.ok [], [])
  | name :: others =>
    match readEntity project name with
    | .error failure => (.error failure, [])
    | .ok (entity, warnings) =>
      let (entities, more) := readEntities project others
      (entities.map (entity.toList ++ ·), warnings ++ more)

/-- The entities of a project by name, and the warnings about configurations passed over. -/
def load (project : Project) : Except Failure (List Entity) × List Diagnostic :=
  match project.list configFolder with
  | .error failure => (.error failure, [])
  | .ok names =>
    let (entities, warnings) :=
      readEntities project (names.filter (Text.endsWith configSuffix))
    (entities.map fun entities => entities.mergeSort fun a b => Text.before a.name b.name, warnings)

end ReadOnlyViews.Catalog
