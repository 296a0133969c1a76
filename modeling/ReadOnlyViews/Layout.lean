import ReadOnlyViews.Entity.Basic

/-!
Where a generated application keeps its files, relative to its root.
-/

namespace ReadOnlyViews

/-- The package and the source folders of an application. -/
structure Layout where
  package : Text := "com.example.app"
  mainJava : Text := "src/main/java"
  testJava : Text := "src/test/java"
  mainResources : Text := "src/main/resources"
  deriving DecidableEq, Repr

namespace Layout

/-- The package as a path. -/
def packagePath (layout : Layout) : Text := Text.replaceChar '.' "/" layout.package

/-- A path below the package in the main sources. -/
def inMain (layout : Layout) (parts : List Text) : Text :=
  Text.join "/" (layout.mainJava :: layout.packagePath :: parts)

/-- A path below the package in the test sources. -/
def inTests (layout : Layout) (parts : List Text) : Text :=
  Text.join "/" (layout.testJava :: layout.packagePath :: parts)

/-- A path in the resources. -/
def inResources (layout : Layout) (parts : List Text) : Text :=
  Text.join "/" (layout.mainResources :: parts)

/-- The source of an entity. -/
def entityFile (layout : Layout) (entity : Entity) : Text :=
  layout.inMain ["domain", entity.className ++ ".java"]

/-- The source of an entity's repository. -/
def repositoryFile (layout : Layout) (entity : Entity) : Text :=
  layout.inMain ["repository", entity.className ++ "Repository.java"]

/-- The source of an entity's resource. -/
def resourceFile (layout : Layout) (entity : Entity) : Text :=
  layout.inMain ["web", "rest", entity.className ++ "Resource.java"]

/-- The source of an entity's service. -/
def serviceFile (layout : Layout) (entity : Entity) : Text :=
  layout.inMain ["service", entity.className ++ "Service.java"]

/-- The integration test of an entity's resource. -/
def resourceTestFile (layout : Layout) (entity : Entity) : Text :=
  layout.inTests ["web", "rest", entity.className ++ "ResourceIT.java"]

/-- The folder of all Liquibase files. -/
def liquibaseFolder (layout : Layout) : Text := layout.inResources ["config", "liquibase"]

/-- The folder of changelogs. -/
def changelogFolder (layout : Layout) : Text :=
  layout.inResources ["config", "liquibase", "changelog"]

/-- The folder of generated sample data. -/
def fakeDataFolder (layout : Layout) : Text :=
  layout.inResources ["config", "liquibase", "fake-data"]

/-- The master changelog. -/
def masterChangelog (layout : Layout) : Text :=
  layout.inResources ["config", "liquibase", "master.xml"]

/-- The application's settings. -/
def applicationYml (layout : Layout) : Text := layout.inResources ["config", "application.yml"]

end Layout

end ReadOnlyViews
