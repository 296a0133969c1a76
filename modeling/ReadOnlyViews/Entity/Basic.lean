import ReadOnlyViews.Entity.Naming
import ReadOnlyViews.Json.Value

/-!
Entities as their configurations describe them, and what their annotations say.
-/

namespace ReadOnlyViews

/-- A field of an entity. -/
structure Field where
  name : Text
  type : Text
  isBlob : Bool := false
  deriving Repr, DecidableEq

/-- The annotations of an entity.  A key is whatever scalar the configuration gave; only texts are
ever looked up. -/
abbrev Annotations := List (Json × Json)

namespace Annotations

/-- The value under a key. -/
def get? (key : Text) : Annotations → Option Json
  | [] => none
  | (.string k, value) :: others => if k = key then some value else get? key others
  | _ :: others => get? key others

/-- The value under the first of the keys that has one which is neither null nor false. -/
def firstOn? (keys : List Text) (annotations : Annotations) : Option Json :=
  keys.findSome? fun key => (annotations.get? key).filter (!·.isOff)

/-- That value, when it counts as set. -/
def firstSet? (keys : List Text) (annotations : Annotations) : Option Json :=
  (annotations.firstOn? keys).filter JsonOf.holds

end Annotations

/-- An entity. -/
structure Entity where
  name : Text
  className : Text
  table : Text
  fields : List Field := []
  keyType : Text := "Long"
  annotations : Annotations := []
  deriving Repr

namespace Entity

/-- Whether the entity is backed by a database view. -/
def isView (entity : Entity) : Bool :=
  (entity.annotations.firstSet? ["view", "View"]).isSome

/-- Whether a MyBatis model and mapper are wanted. -/
def isMyBatis (entity : Entity) : Bool :=
  (entity.annotations.firstSet? ["mybatis", "MyBatis", "Mybatis"]).isSome

/-- The SQL of the view, given in place. -/
def viewSql? (entity : Entity) : Option Text :=
  (entity.annotations.firstSet? ["sql", "Sql"]).map JsonOf.text

/-- The file that holds the SQL of the view. -/
def viewSqlFile? (entity : Entity) : Option Text :=
  (entity.annotations.firstSet? ["sqlFile", "SqlFile", "sqlfile"]).map JsonOf.text

/-- The name of a variable of the entity's class. -/
def instanceName (entity : Entity) : Text := Naming.lowerFirst entity.className

end Entity

end ReadOnlyViews
