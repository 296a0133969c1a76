import ReadOnlyViews.MyBatis.Source
import ReadOnlyViews.Proofs.LineMatches

/-! The imports of a model.  A member is declared by the simple name of its class, so the class has to
be imported, unless the language knows it.  The type of a member, its import and the name that is
printed are computed apart; for the fields they go together, whatever the types are.  The key has a
way of its own, which imports one class only: with any other class in a package the model declares a
name that it does not import. -/
namespace ReadOnlyViews

namespace Text

/-- The lines of a text up to an empty one are the block that was written there. -/
theorem takeWhile_pieces_join {block : List Text} (single : ∀ line ∈ block, '\n' ∉ line)
    (shown : ∀ line ∈ block, line ≠ []) (rest : List Text) :
    (pieces '\n' (join ['\n'] (block ++ [] :: rest))).takeWhile (!·.isEmpty) = block := by
  induction block with
  | nil => cases rest <;> simp [join, pieces]
  | cons line block ih =>
    obtain ⟨here, there⟩ := List.forall_mem_cons.mp single
    obtain ⟨shownHere, shownThere⟩ := List.forall_mem_cons.mp shown
    obtain ⟨next, others, more⟩ : ∃ next others, block ++ [] :: rest = next :: others :=
      List.exists_cons_of_ne_nil (by simp)
    rw [List.cons_append, more, join, ← more, List.append_assoc, List.singleton_append,
      pieces_append_mark, pieces_of_notMem here, List.singleton_append,
      List.takeWhile_cons_of_pos (by simpa using shownHere), ih there shownThere]

end Text

namespace MyBatis

/-! ## What a source imports and declares -/

/-- The statement that imports a class. -/
def importLine (cls : Text) : Text := "import " ++ cls ++ ";"

/-- The line that declares a member by the simple name of its class. -/
def declaration (cls name : Text) : Text := "    private ".toList ++ simpleName cls ++ " " ++ name ++ ";"

/-- The block of imports in the source of a class: the lines behind its package, up to an empty one. -/
def importsIn (package source : Text) : List Text :=
  match Text.after? ("package " ++ package ++ ";\n\n") source with
  | some rest => (Text.pieces '\n' rest).takeWhile (!·.isEmpty)
  | none => []

/-- A field is of a class: of the one that is listed for its type, or of the one that its type names. -/
def IsOf (field : Field) (cls : Text) : Prop :=
  field.isBlob = false ∧ ((field.type, cls) ∈ javaTypes ∨ field.type = cls)

/-- A class has to be imported: it is in a package, and not in one of the language. -/
def NeedsImport (cls : Text) : Prop := '.' ∈ cls ∧ ¬ "java.lang.".toList <+: cls

/-! ## The listed types -/

private theorem lookup_javaTypes_eq_some_iff {type cls : Text} :
    javaTypes.lookup type = some cls ↔ (type, cls) ∈ javaTypes := by
  constructor
  · intro found
    obtain ⟨front, back, parts, -⟩ := List.lookup_eq_some_iff.mp found
    exact parts ▸ List.mem_append_right _ List.mem_cons_self
  · intro listed
    have each : ∀ entry ∈ javaTypes, javaTypes.lookup entry.1 = some entry.2 := by decide
    exact each (type, cls) listed

private theorem lookup_of_packaged {type : Text} (packaged : '.' ∈ type) : javaTypes.lookup type = none := by
  have plain : ∀ entry ∈ javaTypes, '.' ∉ entry.1 := by decide
  rw [List.lookup_eq_none_iff]
  intro entry member
  rw [bne_iff_ne]
  rintro rfl
  exact plain entry member packaged

/-- The classes in packages are listed by their simple names, and all of them have to be imported. -/
theorem packaged_of_mem_javaTypes {type cls : Text} (listed : (type, cls) ∈ javaTypes)
    (packaged : '.' ∈ cls) : simpleName cls = type ∧ ¬ "java.lang.".toList <+: cls ∧
      cls ≠ "lombok.Data" ∧ (cls = "java.util.UUID" ↔ type = "UUID") := by
  have all : ∀ entry ∈ javaTypes, '.' ∈ entry.2 → simpleName entry.2 = entry.1 ∧
      ¬ "java.lang.".toList <+: entry.2 ∧ entry.2 ≠ "lombok.Data" ∧
      (entry.2 = "java.util.UUID" ↔ entry.1 = "UUID") := by decide
  exact all (type, cls) listed packaged

/-- Among the classes in packages, a field is of the one that is written for it. -/
theorem javaType_eq_iff {field : Field} {cls : Text} (packaged : '.' ∈ cls) :
    javaType field = cls ↔ IsOf field cls := by
  have ne_of_plain {other : Text} (plain : '.' ∉ other) : other ≠ cls :=
    fun same => plain (same ▸ packaged)
  rw [IsOf, ← lookup_javaTypes_eq_some_iff]
  cases blob : field.isBlob with
  | true => simpa [javaType, blob] using ne_of_plain (by decide)
  | false =>
    cases found : javaTypes.lookup field.type with
    | some type =>
      -- what is listed is not itself in a package
      have named : field.type ≠ cls := by
        rintro rfl
        simp [lookup_of_packaged packaged] at found
      simp [javaType, blob, found, named]
    | none =>
      cases given : field.type with
      | nil => simpa [javaType, blob, found, given, ne_of_plain] using ne_of_plain (by decide)
      | cons c type =>
        rw [given] at found
        simp [javaType, blob, given, found]

/-! ## The imports that are computed -/

private theorem importLine_inj {cls other : Text} : importLine cls = importLine other ↔ cls = other := by
  unfold importLine
  rw [List.append_left_inj]
  exact List.append_right_inj _

private theorem importOf?_eq_some_iff {type line : Text} :
    importOf? type = some line ↔ NeedsImport type ∧ importLine type = line := by
  have plain : ∀ known ∈ knownTypes, '.' ∉ known := by decide
  have refused : (type.isEmpty || knownTypes.contains type || List.isPrefixOf "java.lang.".toList type ||
      !type.contains '.') = true ↔ ¬ NeedsImport type := by
    unfold NeedsImport
    by_cases packaged : '.' ∈ type
    · have shown : type ≠ [] := List.ne_nil_of_mem packaged
      have unknown : type ∉ knownTypes := fun known => plain type known packaged
      simp [packaged, shown, unknown]
    · simp [packaged]
  unfold importOf?
  split
  next none_ => exact iff_of_false (fun same => by cases same) fun both => refused.mp none_ both.1
  next some_ =>
    have needed : NeedsImport type := Classical.not_not.mp fun not => some_ (refused.mpr not)
    rw [Option.some_inj, and_iff_right needed]
    rfl

private theorem importOf?_javaType_eq_some_iff {field : Field} {line : Text} :
    importOf? (javaType field) = some line ↔
      ∃ cls, (NeedsImport cls ∧ IsOf field cls) ∧ importLine cls = line := by
  rw [importOf?_eq_some_iff]
  constructor
  · rintro ⟨needed, rfl⟩
    exact ⟨_, ⟨needed, (javaType_eq_iff needed.1).mp rfl⟩, rfl⟩
  · rintro ⟨cls, ⟨needed, isOf⟩, rfl⟩
    rw [(javaType_eq_iff needed.1).mpr isOf]
    exact ⟨needed, rfl⟩

private theorem mem_keyImport_iff {type line : Text} :
    line ∈ keyImport type ↔ type = "UUID" ∧ line = importLine "java.util.UUID" := by
  unfold keyImport
  split
  next same =>
    rw [and_iff_right same]
    exact List.mem_singleton
  next other => simp only [List.not_mem_nil, other, false_and]

/-- Where the imports of a model come from. -/
theorem mem_modelImports_iff {entity : Entity} {line : Text} : line ∈ modelImports entity ↔
    line = importLine "lombok.Data" ∨ (entity.keyType = "UUID" ∧ line = importLine "java.util.UUID") ∨
      ∃ cls, (NeedsImport cls ∧ ∃ field ∈ entity.fields, IsOf field cls) ∧ importLine cls = line := by
  have used : line ∈ (entity.fields.filterMap fun field => importOf? (javaType field)) ↔
      ∃ cls, (NeedsImport cls ∧ ∃ field ∈ entity.fields, IsOf field cls) ∧ importLine cls = line := by
    simp only [List.mem_filterMap, importOf?_javaType_eq_some_iff]
    constructor
    · rintro ⟨field, among, cls, ⟨needed, isOf⟩, same⟩
      exact ⟨cls, ⟨needed, field, among, isOf⟩, same⟩
    · rintro ⟨cls, ⟨needed, field, among, isOf⟩, same⟩
      exact ⟨field, among, cls, ⟨needed, isOf⟩, same⟩
  rw [modelImports, importBlock, (Text.sorted_perm _).mem_iff, List.mem_eraseDups, List.flatten_cons,
    List.flatten_cons, List.flatten_cons, List.flatten_nil, List.append_nil, List.mem_append,
    List.mem_append, mem_keyImport_iff, used]
  exact or_congr_left List.mem_singleton

private theorem importLine_mem_modelImports_iff {entity : Entity} {cls : Text} :
    importLine cls ∈ modelImports entity ↔ cls = "lombok.Data" ∨
      (entity.keyType = "UUID" ∧ cls = "java.util.UUID") ∨
      (NeedsImport cls ∧ ∃ field ∈ entity.fields, IsOf field cls) := by
  simp only [mem_modelImports_iff, importLine_inj, exists_eq_right]

private theorem modelImports_pairwise (entity : Entity) :
    (modelImports entity).Pairwise fun a b => Text.before a b = true ∧ a ≠ b :=
  (Text.sorted_pairwise _).and ((Text.sorted_perm _).nodup_iff.mpr (nodup_eraseDups _))

private theorem notMem_of_isOf {field : Field} (single : '\n' ∉ field.type) {cls : Text}
    (isOf : IsOf field cls) : '\n' ∉ cls := by
  obtain ⟨-, listed | rfl⟩ := isOf
  · have plain : ∀ entry ∈ javaTypes, '\n' ∉ entry.2 := by decide
    exact plain _ listed
  · exact single

private theorem importLine_of_plain {cls : Text} (plain : '\n' ∉ cls) :
    '\n' ∉ importLine cls ∧ importLine cls ≠ [] := by
  unfold importLine
  constructor
  · rw [List.mem_append, List.mem_append]
    rintro ((early | within) | late)
    · exact absurd early (by decide)
    · exact plain within
    · exact absurd late (by decide)
  · exact List.append_ne_nil_of_right_ne_nil _ (by decide)

/-- The imports are lines, as long as the types of the fields are. -/
theorem line_of_mem_modelImports {entity : Entity}
    (single : ∀ field ∈ entity.fields, '\n' ∉ field.type) {line : Text}
    (member : line ∈ modelImports entity) : '\n' ∉ line ∧ line ≠ [] := by
  rcases mem_modelImports_iff.mp member with rfl | ⟨-, rfl⟩ | ⟨cls, ⟨-, field, among, isOf⟩, rfl⟩
  · exact importLine_of_plain (by decide)
  · exact importLine_of_plain (by decide)
  · exact importLine_of_plain (notMem_of_isOf (single field among) isOf)

/-- The block that is computed is the one that stands in the source. -/
theorem importsIn_renderModel {entity : Entity} (settings : Settings) (basePackage : Text)
    (single : ∀ field ∈ entity.fields, '\n' ∉ field.type) :
    importsIn (modelName entity settings basePackage).package
      (renderModel entity settings basePackage) = modelImports entity := by
  obtain ⟨rest, parts⟩ : ∃ rest, modelLines entity settings basePackage =
      ("package " ++ (modelName entity settings basePackage).package ++ ";") :: [] ::
        (modelImports entity ++ [] :: rest) := ⟨_, rfl⟩
  have cut : Text.after? ("package " ++ (modelName entity settings basePackage).package ++ ";\n\n")
      (renderModel entity settings basePackage) =
        some (Text.join ['\n'] (modelImports entity ++ [] :: rest)) := by
    obtain ⟨first, others, more⟩ : ∃ first others, modelImports entity ++ [] :: rest = first :: others :=
      List.exists_cons_of_ne_nil (by simp)
    rw [Text.after?_eq_some_iff, renderModel, parts, more]
    simp only [Text.join, List.append_assoc]
    rfl
  rw [importsIn, cut]
  exact Text.takeWhile_pieces_join (fun line member => (line_of_mem_modelImports single member).1)
    (fun line member => (line_of_mem_modelImports single member).2) rest

/-! ## What a model imports of what it declares -/

/-- The imports of a source go with the members that it declares. -/
structure ImportsMembers (entity : Entity) (source : Text) (imports : List Text) : Prop where
  /-- The imports are in order, each once. -/
  ordered : imports.Pairwise fun a b => Text.before a b = true ∧ a ≠ b
  /-- Beside the annotation of the model only classes of members are imported. -/
  members : ∀ line ∈ imports, line = importLine "lombok.Data" ∨
    ∃ cls, importLine cls = line ∧
      ((entity.keyType, cls) ∈ javaTypes ∨ ∃ field ∈ entity.fields, IsOf field cls)
  /-- A field of a class in a package is declared by the simple name of the class, which is imported
  unless it is in a package of the language. -/
  fields : ∀ field ∈ entity.fields, ∀ cls, IsOf field cls → '.' ∈ cls →
    Document.IsRow (declaration cls field.name) source ∧
      (importLine cls ∈ imports ↔ ¬ "java.lang.".toList <+: cls)
  /-- A key of a listed class in a package is declared in the same way, but that is imported for
  identifiers only, or when there is a field of the class as well. -/
  key : ∀ cls, (entity.keyType, cls) ∈ javaTypes → '.' ∈ cls →
    Document.IsRow (declaration cls "id") source ∧
      (importLine cls ∈ imports ↔ entity.keyType = "UUID" ∨ ∃ field ∈ entity.fields, IsOf field cls)

private theorem mem_modelLines_of_field (settings : Settings) (basePackage : Text) {entity : Entity}
    {field : Field} (among : field ∈ entity.fields) {cls : Text} (isOf : IsOf field cls)
    (packaged : '.' ∈ cls) : declaration cls field.name ∈ modelLines entity settings basePackage := by
  have declared : declaration cls field.name ∈ entity.fields.map fun field : Field =>
      "    private ".toList ++ simpleName (javaType field) ++ " " ++ field.name ++ ";" :=
    List.mem_map.mpr ⟨field, among, by rw [(javaType_eq_iff packaged).mpr isOf]; rfl⟩
  exact List.mem_flatten.mpr ⟨_, by simp only [List.mem_cons, true_or, or_true], declared⟩

private theorem mem_modelLines_of_key (settings : Settings) (basePackage : Text) (entity : Entity) {cls : Text}
    (named : simpleName cls = entity.keyType) :
    declaration cls "id" ∈ modelLines entity settings basePackage := by
  have same : declaration cls "id" = "    private ".toList ++ entity.keyType ++ " id;" := by
    unfold declaration
    rw [named, List.append_assoc, List.append_assoc, List.append_assoc]
    rfl
  rw [same]
  exact List.mem_flatten.mpr ⟨_, .tail _ (.tail _ (.head _)), by
    simp only [List.mem_cons, true_or, or_true]⟩

/-- A model imports the classes that its fields are declared with, in order and each once.  The class
of its key it imports by chance only, identifiers apart. -/
theorem renderModel_importsMembers (entity : Entity) (settings : Settings) (basePackage : Text)
    (single : ∀ field ∈ entity.fields, '\n' ∉ field.type) :
    ImportsMembers entity (renderModel entity settings basePackage)
      (importsIn (modelName entity settings basePackage).package
        (renderModel entity settings basePackage)) := by
  have isEnd : Document.IsLineEnd "\n" := .inl rfl
  rw [importsIn_renderModel settings basePackage single]
  refine ⟨modelImports_pairwise entity, ?_, ?_, ?_⟩
  · intro line member
    rcases mem_modelImports_iff.mp member with library | ⟨identifier, rfl⟩ | ⟨cls, ⟨-, used⟩, same⟩
    · exact .inl library
    · exact .inr ⟨_, rfl, .inl (by rw [identifier]; decide)⟩
    · exact .inr ⟨cls, same, .inr used⟩
  · intro field among cls isOf packaged
    refine ⟨Document.isRow_of_mem_join isEnd
      (mem_modelLines_of_field settings basePackage among isOf packaged), ?_⟩
    rw [importLine_mem_modelImports_iff]
    constructor
    · -- the classes that are imported anyway are in other packages
      rintro (rfl | ⟨-, rfl⟩ | ⟨⟨-, outer⟩, -⟩)
      · decide
      · decide
      · exact outer
    · exact fun outer => .inr (.inr ⟨⟨packaged, outer⟩, field, among, isOf⟩)
  · intro cls listed packaged
    obtain ⟨named, outer, other, identifier⟩ := packaged_of_mem_javaTypes listed packaged
    refine ⟨Document.isRow_of_mem_join isEnd (mem_modelLines_of_key settings basePackage entity named), ?_⟩
    rw [importLine_mem_modelImports_iff, identifier]
    have needed : NeedsImport cls := ⟨packaged, outer⟩
    simp only [other, needed, and_self, false_or, true_and]

/-- Visits with two times, a state of the project's own and a picture. -/
def visitEntity : Entity where
  name := "Visit"
  className := "Visit"
  table := "visit"
  fields := [⟨"begun", "Instant", false⟩, ⟨"ended", "Instant", false⟩,
    ⟨"state", "com.acme.State", false⟩, ⟨"picture", "ByteBuffer", true⟩]
  keyType := "UUID"

theorem renderModel_importsMembers_visit :
    (∀ field ∈ visitEntity.fields, '\n' ∉ field.type) ∧
      ∀ cls ∈ (["java.time.Instant".toList, "com.acme.State".toList, "java.util.UUID".toList] : List Text),
        importLine cls ∈ importsIn (modelName visitEntity {} "com.acme").package
          (renderModel visitEntity {} "com.acme") := by
  have single : ∀ field ∈ visitEntity.fields, '\n' ∉ field.type := by decide
  have imports := renderModel_importsMembers visitEntity {} "com.acme" single
  have begun : visitEntity.fields[0] ∈ visitEntity.fields := List.getElem_mem _
  have state : visitEntity.fields[2] ∈ visitEntity.fields := List.getElem_mem _
  refine ⟨single, List.forall_mem_cons.mpr ⟨?_, List.forall_mem_cons.mpr ⟨?_,
    List.forall_mem_singleton.mpr ?_⟩⟩⟩
  · exact (imports.fields _ begun _ ⟨rfl, .inl (by decide)⟩ (by decide)).2.mpr (by decide)
  · exact (imports.fields _ state _ ⟨rfl, .inr rfl⟩ (by decide)).2.mpr (by decide)
  · exact (imports.key _ (by decide) (by decide)).2.mpr (.inl rfl)

/-- Readings, each known by its time. -/
def readingEntity : Entity where
  name := "Reading"
  className := "Reading"
  table := "reading"
  keyType := "Instant"

/-- The class of the key has a name in the model that nothing imports. -/
theorem key_class_not_imported :
    ("Instant".toList, "java.time.Instant".toList) ∈ javaTypes ∧ readingEntity.keyType = "Instant" ∧
      Document.IsRow "    private Instant id;" (renderModel readingEntity {} "com.acme") ∧
      importLine "java.time.Instant" ∉ importsIn (modelName readingEntity {} "com.acme").package
        (renderModel readingEntity {} "com.acme") := by
  have single : ∀ field ∈ readingEntity.fields, '\n' ∉ field.type := by decide
  refine ⟨by decide, rfl, ?_, ?_⟩
  · exact Document.isRow_of_mem_join (.inl rfl) (mem_modelLines_of_key {} "com.acme" readingEntity
      (show simpleName "java.time.Instant" = "Instant".toList by decide))
  · rw [importsIn_renderModel _ _ single, importLine_mem_modelImports_iff]
    rintro (library | ⟨identifier, -⟩ | ⟨-, field, none_, -⟩)
    · exact absurd library (by decide)
    · exact absurd identifier (by decide)
    · exact absurd none_ List.not_mem_nil

end MyBatis

end ReadOnlyViews
