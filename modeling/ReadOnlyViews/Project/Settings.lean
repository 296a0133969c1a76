import ReadOnlyViews.Entity.Catalog
import ReadOnlyViews.Layout
import ReadOnlyViews.MyBatis.Settings

/-!
What the generator's own configuration file says about a project.
-/

namespace ReadOnlyViews.Project

/-- The generator's configuration file. -/
def generatorFile : Text := ".yo-rc.json"

/-- The member of the configuration that belongs to the view blueprint. -/
def blueprintKey : Text := "generator-jhipster-view-blueprint"

/-- The value of the generator's configuration; a project without one has an empty one. -/
def generatorValue (project : Project) : Except Failure RawJson := do
  if ← project.has generatorFile then
    match Json.read (← project.read generatorFile) with
    | .ok value => return value
    | .error fault => .error (.notJson fault)
  else return .object []

/-- The members of the generator's configuration. -/
def generatorConfig (project : Project) : Except Failure (List (List Nat × RawJson)) := do
  match ← project.generatorValue with
  | .object members => return members
  | _ => return []

/-- The layout with the package that the generator's configuration names, unless the layout already
has a package other than the default. -/
def detectLayout (project : Project) (base : Layout) : Except Failure Layout :=
  if base.package ≠ ({} : Layout).package then .ok base
  else match project.generatorConfig with
    | .error failure => if Catalog.isPassedOver failure then .ok base else .error failure
    | .ok config =>
      match JsonOf.setMember? (Text.points "generator-jhipster") config with
      | some (.object app) =>
        match JsonOf.setMember? (Text.points "packageName") app with
        | some package => .ok { base with package := Text.ofPoints package.points }
        | none => .ok base
      | _ => .ok base

/-- The blueprint's MyBatis section, if there is one. -/
def myBatisSection (project : Project) : Except Failure (Option RawJson) := do
  match JsonOf.setMember? (Text.points blueprintKey) (← project.generatorConfig) with
  | none => return none
  | some (.object blueprint) => return JsonOf.member? (Text.points "mybatis") blueprint
  | some other => .error (.noMember other.kindWord)

/-- The settings of the section that hold half of a surrogate pair, by name. -/
def halvesOf (members : List (List Nat × RawJson)) : List (Text × Nat × Nat) :=
  members.filterMap fun (key, value) =>
    if MyBatis.settingNames.contains (Text.ofPoints key) then
      (Text.half? value.points).map (Text.ofPoints key, ·)
    else none

/-- The MyBatis settings of a project: the defaults, overridden by its configuration. -/
def myBatisSettings (project : Project) : Except Failure (MyBatis.Settings × List Diagnostic) :=
  match project.myBatisSection with
  | .error failure =>
    if Catalog.isPassedOver failure || failure.family == .member then
      .ok ({}, [{ level := .warn, path := some generatorFile,
                  message := "failed to load MyBatis config: " ++ failure.message ++
                    "; using defaults" }])
    else .error failure
  | .ok (some (.object members)) =>
    let settings := members.foldl (fun (settings : MyBatis.Settings) (key, value) =>
      if value.holds then settings.override (Text.ofPoints key) (Text.ofPoints value.points)
      else settings) { halves := halvesOf members }
    .ok (settings, [{ level := .info, path := some generatorFile,
                      message := "loaded MyBatis configuration" }])
  | .ok _ => .ok ({}, [])

end ReadOnlyViews.Project
