import ReadOnlyViews.MyBatis.Settings
import ReadOnlyViews.MyBatis.Types

/-!
The sources of a model and of a mapper.  A mapper for a view only reads.
-/

namespace ReadOnlyViews.MyBatis

/-- A class and its package. -/
structure QualifiedName where
  name : Text
  package : Text
  deriving DecidableEq, Repr

/-- The model of an entity. -/
def modelName (entity : Entity) (settings : Settings) (basePackage : Text) : QualifiedName :=
  ⟨entity.className ++ settings.modelSuffix, basePackage ++ "." ++ settings.modelPackage⟩

/-- The mapper of an entity. -/
def mapperName (entity : Entity) (settings : Settings) (basePackage : Text) : QualifiedName :=
  ⟨entity.className ++ settings.mapperSuffix, basePackage ++ "." ++ settings.mapperPackage⟩

/-- The import of a primary key's type. -/
def keyImport (type : Text) : List Text :=
  if type = "UUID" then ["import java.util.UUID;"] else []

/-- The imports of a model. -/
def modelImports (entity : Entity) : List Text :=
  importBlock (List.flatten [["import lombok.Data;"], keyImport entity.keyType,
    entity.fields.filterMap fun field => importOf? (javaType field)])

/-- The lines of a model. -/
def modelLines (entity : Entity) (settings : Settings) (basePackage : Text) : List Text :=
  let model := modelName entity settings basePackage
  let declared := entity.fields.map fun field : Field =>
    "    private ".toList ++ simpleName (javaType field) ++ " " ++ field.name ++ ";"
  let note : Text :=
    if entity.isView then " * This is a read-only model mapped to a database view."
    else " * This model is used for MyBatis data access."
  List.flatten [
    ["package " ++ model.package ++ ";", []],
    modelImports entity,
    [[], "/**", " * MyBatis POJO for " ++ entity.className ++ " entity.", note, " */", "@Data",
      "public class " ++ model.name ++ " \x7b", [],
      "    private " ++ entity.keyType ++ " id;"],
    declared,
    [[], "\x7d", []]]

/-- The source of a model. -/
def renderModel (entity : Entity) (settings : Settings) (basePackage : Text) : Text :=
  Text.join "\n" (modelLines entity settings basePackage)

/-- A method of a mapper with its comment and annotations. -/
def method (comment annotations : List Text) (signature : Text) : List Text :=
  List.flatten [
    [[], "    /**"],
    comment.map fun line => "     * " ++ line,
    ["     */"],
    annotations.map fun line => "    " ++ line,
    ["    " ++ signature]]

/-- A placeholder for a value in annotated SQL. -/
def placeholder (name : Text) : Text := "#\x7b" ++ name ++ "\x7d"

/-- The imports of a mapper. -/
def mapperImports (entity : Entity) (model : QualifiedName) (keyType : Text) : List Text :=
  let changing : List Text := if entity.isView then [] else
    ["import org.apache.ibatis.annotations.Delete;",
      "import org.apache.ibatis.annotations.Insert;",
      "import org.apache.ibatis.annotations.Options;",
      "import org.apache.ibatis.annotations.Update;"]
  importBlock (List.flatten [
    ["import " ++ model.package ++ "." ++ model.name ++ ";",
      "import org.apache.ibatis.annotations.Mapper;",
      "import org.apache.ibatis.annotations.Select;",
      "import java.util.List;"],
    changing,
    keyImport keyType])

/-- The methods of a mapper: two finders always; for a table also a deletion, and insertion and
update when there are fields. -/
def mapperMethods (entity : Entity) (model : Text) (keyType : Text) : List Text :=
  let table := if entity.table.isEmpty then Naming.snakeCase entity.className else entity.table
  let record := entity.instanceName
  let byId : Text := " WHERE id = " ++ placeholder "id" ++ "\")"
  let finders :=
    method ["Retrieves all records.", "@return List of all records"]
      ["@Select(\"SELECT * FROM " ++ table ++ "\")"] ("List<" ++ model ++ "> findAll();") ++
    method ["Retrieves a record by ID.", "@param id the record ID",
        "@return the record, or null if not found"]
      ["@Select(\"SELECT * FROM " ++ table ++ byId]
      (model ++ " findById(" ++ keyType ++ " id);")
  let columns := entity.fields.map fun field => Naming.snakeCase field.name
  let values := entity.fields.map fun field => placeholder field.name
  let assignments := entity.fields.map fun field : Field =>
    Naming.snakeCase field.name ++ " = ".toList ++ placeholder field.name
  let changes :=
    method ["Inserts a new record.", "@param " ++ record ++ " the record to insert"]
      ["@Insert(\"INSERT INTO " ++ table ++ " (" ++ Text.join ", " columns ++ ") VALUES (" ++
          Text.join ", " values ++ ")\")",
        "@Options(useGeneratedKeys = true, keyProperty = \"id\")"]
      ("void insert(" ++ model ++ " " ++ record ++ ");") ++
    method ["Updates an existing record.", "@param " ++ record ++ " the record to update"]
      ["@Update(\"UPDATE " ++ table ++ " SET " ++ Text.join ", " assignments ++ byId]
      ("void update(" ++ model ++ " " ++ record ++ ");")
  let deletion :=
    method ["Deletes a record by ID.", "@param id the record ID"]
      ["@Delete(\"DELETE FROM " ++ table ++ byId]
      ("void deleteById(" ++ keyType ++ " id);")
  if entity.isView then finders
  else finders ++ (if entity.fields.isEmpty then [] else changes) ++ deletion

/-- The lines of a mapper. -/
def mapperLines (entity : Entity) (settings : Settings) (basePackage : Text) : List Text :=
  let model := modelName entity settings basePackage
  let mapper := mapperName entity settings basePackage
  let keyType : Text := if entity.keyType.isEmpty then "Long" else entity.keyType
  let comment : List Text :=
    if entity.isView then
      [" * MyBatis Mapper for " ++ entity.className ++ " view.",
        " * This is a read-only mapper - INSERT/UPDATE/DELETE operations are not supported."]
    else
      [" * MyBatis Mapper for " ++ entity.className ++ " entity.",
        " * Provides CRUD operations via annotation-based SQL."]
  List.flatten [
    ["package " ++ mapper.package ++ ";", []],
    mapperImports entity model keyType,
    [[], "/**"],
    comment,
    [" */", "@Mapper", "public interface " ++ mapper.name ++ " \x7b"],
    mapperMethods entity model.name keyType,
    [[], "\x7d", []]]

/-- The source of a mapper. -/
def renderMapper (entity : Entity) (settings : Settings) (basePackage : Text) : Text :=
  Text.join "\n" (mapperLines entity settings basePackage)

end ReadOnlyViews.MyBatis
