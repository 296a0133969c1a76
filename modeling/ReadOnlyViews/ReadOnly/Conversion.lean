import ReadOnlyViews.Java.Removal
import ReadOnlyViews.ReadOnly.Anchors

/-!
Conversions that make the generated sources of a view-backed entity read-only, one for each kind of
source.  A marker that is already present skips its step.
-/

namespace ReadOnlyViews.ReadOnly

open Java (AskedNames)

/-- The generated sources of an entity. -/
inductive SourceKind where
  | entity
  | repository
  | resource
  | service
  | test
  deriving DecidableEq, Repr

/-- A converted source: its text, its steps, and the class names asked about so far. -/
structure Converted where
  text : Text
  steps : Steps
  asked : AskedNames
  deriving DecidableEq, Repr

/-- The import of the immutability annotation. -/
def immutableImport : Text := "import org.hibernate.annotations.Immutable;"

/-- The marker of a read-only repository. -/
def repositoryMarker : Text := "Read-only repository for database view"

/-- The marker of a read-only resource. -/
def resourceMarker : Text := "Read-only REST controller for database view"

/-- The marker of a read-only service. -/
def serviceMarker : Text := "Read-only service for database view"

/-- The marker of a disabled test. -/
def testMarker : Text := "This test class is disabled because the entity is a database view"

/-- The import of the annotation that disables a test. -/
def disabledImport : Text := "import org.junit.jupiter.api.Disabled;"

/-- The annotation that disables a test. -/
def disabledLine : Text :=
  "@Disabled(\"View entity tests are disabled - @Immutable entities cannot use saveAndFlush/delete operations\")"

/-- The annotations of endpoints that change data. -/
def mutatingMappings : List Text := ["@PostMapping", "@PutMapping", "@PatchMapping", "@DeleteMapping"]

/-- A public method of a given name with some return type. -/
def publicMethod (result : Pattern) (name : Text) : Pattern :=
  "public" ++ Pattern.blanks1 ++ result ++ Pattern.blanks1 ++ .exactly name ++ Pattern.blanks ++ "("

/-- The service methods that change data, by name and signature. -/
def mutatingSignatures : List (Text × Pattern) :=
  let anyType : Pattern := .run1 fun c => !isBlank c
  [("save", publicMethod anyType "save"),
    ("partialUpdate", publicMethod anyType "partialUpdate"),
    ("update", publicMethod anyType "update"),
    ("delete", publicMethod "void" "delete")]

/-- A class comment of a marker with its table and a note. -/
def classComment (marker table note : Text) : List Text :=
  ["/**", " * " ++ marker ++ ": " ++ table, " * " ++ note, " */"]

/-- A removal as a step. -/
def removing (test : Java.LineTest) : EditStep := fun text => .ok (Java.removeMethods test text)

/-- Marks an entity immutable; it fails when there is no place for the import. -/
def entitySteps : List (Text × EditStep) :=
  [("immutable import",
      insertOnce (.literal immutableImport) [immutableImport] immutableImportAnchors true),
    ("@Immutable", insertOnce immutableAnnotation ["@Immutable"] [entityAnchor] false)]

/-- Marks a repository read-only. -/
def repositorySteps (table : Text) : List (Text × EditStep) :=
  [("repository marker",
      insertOnce (.literal repositoryMarker)
        (classComment repositoryMarker table
          "This entity is mapped to a database view and should not be modified.")
        [repositoryAnchor] false)]

/-- Removes the mutating endpoints of a resource and marks it. -/
def resourceSteps (table : Text) : List (Text × EditStep) :=
  mutatingMappings.map (fun mapping =>
    ("remove ".toList ++ mapping, removing (Java.annotatedWith mapping))) ++
  [("resource marker".toList,
      insertOnce (.literal resourceMarker)
        (classComment resourceMarker table
          "POST/PUT/PATCH/DELETE operations are not supported for views.")
        [resourceAnchor] false)]

/-- Removes the mutating methods of a service and marks it. -/
def serviceSteps (table : Text) : List (Text × EditStep) :=
  mutatingSignatures.map (fun (name, signature) =>
    ("remove ".toList ++ name ++ "()", removing (Java.holdsSignature signature))) ++
  [("service marker".toList,
      insertOnce (.literal serviceMarker)
        (classComment serviceMarker table
          "Create/Update/Delete operations are not supported for views.")
        [serviceAnchor] false)]

/-- Makes sure that the annotation that disables a test is imported.  The import goes beside that of
the test annotation, or else behind the package statement. -/
def ensureDisabledImport : EditStep := fun text =>
  if Text.includes disabledImport text then .ok { outcome := .alreadyPresent, text }
  else if junitWildcard.presentIn text then
    .ok { outcome := .alreadyPresent, text, reason := "wildcard import already covers @Disabled" }
  else do
    let beside ← insertOnce (.literal disabledImport) [disabledImport] [testImportAnchor] false text
    if beside.outcome ≠ .noAnchor then return beside
    let behind ← insertOnce (.literal disabledImport) [[], disabledImport] [packageAnchor] false text
    if behind.outcome = .applied then
      return { behind with reason := "import added after package statement" }
    return behind

/-- Disables an integration test and says why. -/
def testSteps : List (Text × EditStep) :=
  [("@Disabled import", ensureDisabledImport),
    ("@Disabled", insertOnce disabledAnnotation [disabledLine] [integrationTestAnchor] false),
    ("test javadoc",
      insertOnce (.literal testMarker)
        ["* " ++ testMarker ++ ".",
          "* @Immutable entities cannot be persisted or deleted via JPA repository.",
          "* To test view queries, use native SQL to populate the underlying table.",
          "*"]
        [testCommentAnchor] false)]

/-- The steps of a conversion that need nothing but the text. -/
def steps (kind : SourceKind) (table : Text) : List (Text × EditStep) :=
  match kind with
  | .entity => entitySteps
  | .repository => repositorySteps table
  | .resource => resourceSteps table
  | .service => serviceSteps table
  | .test => testSteps

/-- Converts a source.  A resource also loses the imports that its removed endpoints needed. -/
def convert (kind : SourceKind) (table : Text) (asked : AskedNames) (text : Text) :
    Except Failure Converted := do
  let (text, results) ← runSteps text (steps kind table)
  match kind with
  | .resource =>
    let (edit, asked) := Java.pruneImports Java.resourceImports asked text
    return { text := edit.text, steps := results ++ [("unused imports".toList, edit)], asked }
  | _ => return { text, steps := results, asked }

end ReadOnlyViews.ReadOnly
