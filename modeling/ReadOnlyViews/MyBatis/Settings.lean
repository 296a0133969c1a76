import ReadOnlyViews.Insertion

/-!
The names and packages of generated models and mappers, and the application setting for them.
-/

namespace ReadOnlyViews.MyBatis

/-- Suffixes and packages of models and mappers. -/
structure Settings where
  modelSuffix : Text := "Model"
  mapperSuffix : Text := "ModelMapper"
  modelPackage : Text := "mybatis.model"
  mapperPackage : Text := "mybatis.mapper"
  /-- The settings that hold half of a surrogate pair, by name: the first half and its position. -/
  halves : List (Text × Nat × Nat) := []
  deriving DecidableEq, Repr

/-- The names of the settings in a configuration. -/
def settingNames : List Text := ["modelSuffix", "mapperSuffix", "modelPackage", "mapperPackage"]

/-- Half of a surrogate pair in one of the settings of these names, with its position. -/
def Settings.half? (settings : Settings) (names : List Text) : Option (Nat × Nat) :=
  settings.halves.findSome? fun (name, half) => if names.contains name then some half else none

/-- Replaces one setting by its name; other names change nothing. -/
def Settings.override (settings : Settings) (key value : Text) : Settings :=
  if key = "modelSuffix" then { settings with modelSuffix := value }
  else if key = "mapperSuffix" then { settings with mapperSuffix := value }
  else if key = "modelPackage" then { settings with modelPackage := value }
  else if key = "mapperPackage" then { settings with mapperPackage := value }
  else settings

/-- The comments in an application's settings before which new ones go. -/
def settingsAnchors : List Text :=
  ["# jhipster-needle-application-properties", "# jhipster-needle-add-application-yaml-document"]

/-- The key of the MyBatis settings at the start of a line. -/
def settingsKey : Witness :=
  .pattern (.lineStart ++ "mybatis:") "re.compile('^mybatis:', re.MULTILINE)"

/-- The MyBatis settings of an application. -/
def settingsFragment (settings : Settings) (basePackage : Text) : Fragment where
  lines := ["mybatis:",
    "  type-aliases-package: " ++ basePackage ++ "." ++ settings.modelPackage,
    "  configuration:",
    "    map-underscore-to-camel-case: true"]
  witness := settingsKey
  blankAfter := true

/-- Adds the MyBatis settings to an application's settings. -/
def appendSettings (settings : Settings) (basePackage text : Text) : Edit :=
  splice (settingsFragment settings basePackage) settingsAnchors text

end ReadOnlyViews.MyBatis
