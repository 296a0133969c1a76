import ReadOnlyViews.Insertion
import ReadOnlyViews.Java.Imports

/-!
The places in generated sources next to which the read-only conversions insert lines, and the
patterns by which they see that a line is already there.
-/

namespace ReadOnlyViews.ReadOnly

open Pattern (blanks blanks1)

/-- The start of a line and its blanks and tabs. -/
def lineIndent : Pattern := .lineStart ++ .run isBlankOrTab

/-- A Hibernate annotation import. -/
def hibernateImport : Anchor where
  target := .lineStart ++ "import org.hibernate.annotations." ++ .run1 (· != ';') ++ ";"

/-- The import of all of Jakarta Persistence. -/
def persistenceWildcard : Anchor where
  target := .lineStart ++ "import jakarta.persistence.*;"
  side := .after

/-- The last import from Jakarta Persistence. -/
def lastPersistenceImport : Anchor where
  target := .lineStart ++ "import jakarta.persistence." ++ .run1 (· != ';') ++ ";" ++
    .notAhead (.run (fun _ => true) ++ .lineStart ++ "import jakarta.persistence.")
  side := .after

/-- Where the import of the immutability annotation may go, best place first. -/
def immutableImportAnchors : List Anchor :=
  [hibernateImport, persistenceWildcard, lastPersistenceImport]

/-- The entity annotation. -/
def entityAnchor : Anchor where
  target := lineIndent ++ "@Entity" ++ .wordEdge

/-- The declaration of a repository. -/
def repositoryAnchor : Anchor where
  target := lineIndent ++ "public" ++ blanks1 ++ "interface" ++ blanks1 ++ .run1 isWord ++
    "Repository" ++ .wordEdge

/-- The annotations of a resource. -/
def resourceAnchor : Anchor where
  target := lineIndent ++ "@RestController" ++ blanks ++ "\n" ++ blanks ++ "@RequestMapping"

/-- The annotations of a service. -/
def serviceAnchor : Anchor where
  target := lineIndent ++ "@Service" ++ blanks ++ "\n" ++ blanks ++ "@Transactional"

/-- The annotation of an integration test. -/
def integrationTestAnchor : Anchor where
  target := lineIndent ++ "@IntegrationTest" ++ .wordEdge
  side := .after

/-- The import of the test annotation. -/
def testImportAnchor : Anchor where
  target := .lineStart ++ "import org.junit.jupiter.api.Test;"

/-- The package statement. -/
def packageAnchor : Anchor where
  target := .lineStart ++ "package" ++ blanks1 ++ .run1 (· != ';') ++ ";"
  side := .after

/-- The first line of a class comment that introduces integration tests, in any case. -/
def testCommentAnchor : Anchor where
  lead := "/**" ++ .run isBlankOrTab ++ Pattern.optional "\r" ++ "\n"
  target := .run isBlankOrTab ++ "*" ++ .run isBlankOrTab ++ .anyCase "Integration test" ++
    Pattern.optional (.anyCase "s") ++ .anyCase " for"

/-- The immutability annotation at the start of a line. -/
def immutableAnnotation : Witness :=
  .pattern (lineIndent ++ "@Immutable" ++ .wordEdge)
    "re.compile('^[ \\\\t]*@Immutable\\\\b', re.MULTILINE)"

/-- The annotation that disables a test, with its line end. -/
def disabledAnnotation : Witness :=
  .pattern
    ("@Disabled" ++ blanks ++ Pattern.optional ("(" ++ .run (· != ')') ++ ")") ++ blanks ++
      .one (fun c => c == '\r' || c == '\n'))
    "re.compile('@Disabled\\\\s*(?:\\\\([^)]*\\\\))?\\\\s*[\\\\r\\\\n]')"

/-- The import of everything from JUnit. -/
def junitWildcard : Witness :=
  .pattern (.lineStart ++ "import org.junit.jupiter.api.*;")
    "re.compile('^import org\\\\.junit\\\\.jupiter\\\\.api\\\\.\\\\*;', re.MULTILINE)"

end ReadOnlyViews.ReadOnly
