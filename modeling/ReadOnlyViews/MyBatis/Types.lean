import ReadOnlyViews.Entity.Basic

/-!
The Java types of fields, and what has to be imported for them.
-/

namespace ReadOnlyViews.MyBatis

/-- The Java types of the field types that have one of their own. -/
def javaTypes : List (Text × Text) := [
  ("String", "String"),
  ("Integer", "Integer"),
  ("Long", "Long"),
  ("Float", "Float"),
  ("Double", "Double"),
  ("BigDecimal", "java.math.BigDecimal"),
  ("LocalDate", "java.time.LocalDate"),
  ("Instant", "java.time.Instant"),
  ("ZonedDateTime", "java.time.ZonedDateTime"),
  ("Duration", "java.time.Duration"),
  ("UUID", "java.util.UUID"),
  ("Boolean", "Boolean"),
  ("byte", "byte[]"),
  ("ByteBuffer", "java.nio.ByteBuffer")]

/-- Types that are always known. -/
def knownTypes : List Text :=
  ["String", "Integer", "Long", "Float", "Double", "Boolean", "Object", "byte[]"]

/-- The Java type of a field: bytes for a blob, the listed type, or else the type as it is given. -/
def javaType (field : Field) : Text :=
  if field.isBlob then "byte[]"
  else match javaTypes.lookup field.type with
    | some type => type
    | none => if field.type.isEmpty then "Object" else field.type

/-- The import that a type needs: none for known types, those of the language itself, and names
without a package. -/
def importOf? (type : Text) : Option Text :=
  if type.isEmpty || knownTypes.contains type || List.isPrefixOf "java.lang.".toList type ||
      !type.contains '.' then none
  else some ("import " ++ type ++ ";")

/-- A type without its package. -/
def simpleName (type : Text) : Text := Text.afterLast '.' type

/-- Imports in order, each once. -/
def importBlock (imports : List Text) : List Text := Text.sorted imports.eraseDups

end ReadOnlyViews.MyBatis
