import ReadOnlyViews.Entity.Catalog
import ReadOnlyViews.Proofs.Overlay

/-!
Loading the entities of a project.  A configuration that is no text, no JSON or no object is passed
over, whatever it holds; only a field list or annotations of the wrong shape stop the loading.
Unless a file is misshapen in this way, the entities are those that each file gives when it is the
only one in the folder, in the order of their names.
-/

namespace ReadOnlyViews

/-! ### Shapes of configurations -/

namespace JsonOf

variable {α : Type}

/-- A value that can be gone through. -/
inductive IsSequence : JsonOf α → Prop
  | array (items : List (JsonOf α)) : IsSequence (.array items)
  | object (members : List (List α × JsonOf α)) : IsSequence (.object members)
  | string (text : List α) : IsSequence (.string text)

/-- A value that is no list and no object. -/
def isScalar : JsonOf α → Bool
  | .array _ | .object _ => false
  | _ => true

/-- A value of two parts, the first of which can be a key. -/
inductive IsPair : JsonOf α → Prop
  | items {key value : JsonOf α} (scalar : key.isScalar = true) : IsPair (.array [key, value])
  | members (first second : List α × JsonOf α) : IsPair (.object [first, second])
  | characters (first second : α) : IsPair (.string [first, second])

/-- A value that gives values for keys. -/
inductive IsMapping : JsonOf α → Prop
  | object (members : List (List α × JsonOf α)) : IsMapping (.object members)
  | pairs {items : List (JsonOf α)} (pairs : ∀ item ∈ items, IsPair item) : IsMapping (.array items)

private theorem isSequence_iff {value : JsonOf α} :
    value.IsSequence ↔ ∃ elements, value.elements? = some elements := by
  constructor
  · rintro (items | members | text)
    · exact ⟨_, rfl⟩
    · exact ⟨_, rfl⟩
    · exact ⟨_, rfl⟩
  · rintro ⟨elements, gone⟩
    cases value with
    | array items => exact .array items
    | object members => exact .object members
    | string text => exact .string text
    | _ => cases gone

private theorem isPair_iff {value : JsonOf α} :
    value.IsPair ↔ ∃ key other, value.elements? = some [key, other] ∧ key.isScalar = true := by
  constructor
  · rintro (scalar | ⟨first, second⟩ | ⟨first, second⟩)
    · exact ⟨_, _, rfl, scalar⟩
    · exact ⟨_, _, rfl, rfl⟩
    · exact ⟨_, _, rfl, rfl⟩
  · rintro ⟨key, other, parts, scalar⟩
    cases value with
    | array items =>
      cases parts
      exact .items scalar
    | object members =>
      simp only [elements?, Option.some.injEq, List.map_eq_cons_iff, List.map_eq_nil_iff] at parts
      obtain ⟨first, _, rfl, -, second, _, rfl, -, rfl⟩ := parts
      exact .members first second
    | string text =>
      simp only [elements?, Option.some.injEq, List.map_eq_cons_iff, List.map_eq_nil_iff] at parts
      obtain ⟨first, _, rfl, -, second, _, rfl, -, rfl⟩ := parts
      exact .characters first second
    | _ => cases parts

end JsonOf

namespace Annotations

/-- Annotations can be made of a list exactly if it is a list of pairs. -/
theorem exists_ofPairs_iff {known : Annotations} {index : Nat} {items : List Json} :
    (∃ annotations, ofPairs known index items = .ok annotations) ↔ ∀ item ∈ items, item.IsPair := by
  induction items generalizing known index with
  | nil => simp [ofPairs]
  | cons item items ih =>
    rw [List.forall_mem_cons, JsonOf.isPair_iff, ofPairs]
    cases parts : item.elements? with
    | none => simp
    | some elements =>
      rcases elements with _ | ⟨key, _ | ⟨value, _ | ⟨third, rest⟩⟩⟩
      · simp
      · simp
      · cases key with
        | array _ | object _ => simp [JsonOf.isScalar]
        | _ => simpa [JsonOf.isScalar] using ih
      · simp

/-- Annotations can be made of a value exactly if it is not set or gives values for keys. -/
theorem exists_ofJson_iff {value : Json} :
    (∃ annotations, ofJson value = .ok annotations) ↔ (value.holds = true → value.IsMapping) := by
  by_cases set : value.holds = true
  case neg => simp [ofJson, set]
  simp only [ofJson, set, Bool.not_true, Bool.false_eq_true, if_false, forall_const]
  cases value with
  | object members => exact ⟨fun _ => .object members, fun _ => ⟨_, rfl⟩⟩
  | array items =>
    refine Iff.trans exists_ofPairs_iff ⟨.pairs, ?_⟩
    rintro (_ | pairs)
    exact pairs
  | string text =>
    refine Iff.trans exists_ofPairs_iff ⟨fun pairs => ?_, fun mapping => by cases mapping⟩
    -- The text is not empty, and a single character is no pair.
    cases text with
    | nil => cases set
    | cons c text => cases pairs (.string [c]) List.mem_cons_self
  | _ =>
    refine ⟨fun made => ?_, fun mapping => by cases mapping⟩
    obtain ⟨_, made⟩ := made
    cases made

end Annotations

namespace Entity

/-- What a configuration must be like for an entity to be made of it: where they are set, its field
list can be gone through, and its annotations give values for keys. -/
structure Shapely (config : List (Text × Json)) : Prop where
  fields : ∀ value, JsonOf.setMember? "fields" config = some value → value.IsSequence
  annotations : ∀ value, JsonOf.setMember? "annotations" config = some value → value.IsMapping

private theorem exists_fieldList_iff {value : Option Json} :
    (∃ elements, fieldList value = .ok elements) ↔
      ∀ given, value = some given → given.IsSequence := by
  cases value with
  | none => simp [fieldList]
  | some value =>
    simp only [fieldList, Option.some.injEq, forall_eq', JsonOf.isSequence_iff]
    cases value.elements? <;> simp

/-- An entity can be made of a configuration exactly if it is shapely. -/
theorem exists_ofConfig_iff {name : Text} {config : List (Text × Json)} :
    (∃ entity, ofConfig name config = .ok entity) ↔ Shapely config := by
  have shapely : Shapely config ↔
      (∃ elements, fieldList (JsonOf.setMember? "fields" config) = .ok elements) ∧
        ∃ annotations, Annotations.ofJson ((JsonOf.member? "annotations" config).getD .null) =
          .ok annotations := by
    have set : (((JsonOf.member? "annotations" config).getD .null).holds = true →
        ((JsonOf.member? "annotations" config).getD .null).IsMapping) ↔
        ∀ value, JsonOf.setMember? "annotations" config = some value → value.IsMapping := by
      rw [JsonOf.setMember?]
      cases JsonOf.member? "annotations" config with
      | none => simp [JsonOf.holds]
      | some value => by_cases holds : value.holds = true <;> simp [holds]
    rw [exists_fieldList_iff, Annotations.exists_ofJson_iff, set]
    exact ⟨fun shapely => ⟨shapely.fields, shapely.annotations⟩, fun parts => ⟨parts.1, parts.2⟩⟩
  rw [shapely]
  unfold ofConfig
  cases fields : fieldList (JsonOf.setMember? "fields" config) with
  | error failure => simp [bind, Except.bind]
  | ok elements =>
    cases annotated : Annotations.ofJson ((JsonOf.member? "annotations" config).getD .null) with
    | error failure => simp [bind, Except.bind]
    | ok annotations => simp [bind, Except.bind, pure, Except.pure]

end Entity

/-! ### A folder with a single file -/

namespace Disk

/-- Whether a location is left when only the entry of one name is kept below a folder. -/
def stays (folder : Path) (name : Name) (path : Path) : Bool :=
  !folder.isPrefixOf path || path == folder || path == folder ++ [name]

/-- The disk with everything below a folder removed except the entry of one name. -/
def keepOnly (disk : Disk) (folder : Path) (name : Name) : Disk :=
  ⟨disk.entries.filter (stays folder name ·.1)⟩

variable {disk : Disk} {folder path : Path} {name : Name}

private theorem stays_iff :
    stays folder name path = true ↔ ¬ folder <+: path ∨ path = folder ∨ path = folder ++ [name] := by
  simp [stays, ← Bool.not_eq_true, or_assoc]

private theorem lookup_filter_of_pos {test : Path → Bool} (kept : test path = true)
    (entries : List (Path × Node)) :
    (entries.filter (test ·.1)).lookup path = entries.lookup path := by
  induction entries with
  | nil => rfl
  | cons entry entries ih =>
    obtain ⟨place, node⟩ := entry
    by_cases same : path = place
    · simp [← same, kept]
    · have apart : (path == place) = false := by simpa using same
      by_cases left : test place = true <;> simp [left, List.lookup_cons, apart, ih]

private theorem node?_keepOnly_of_stays (kept : stays folder name path = true) :
    (disk.keepOnly folder name).node? path = disk.node? path := by
  unfold node? keepOnly
  split
  · rfl
  · exact lookup_filter_of_pos kept disk.entries

private theorem stays_of_node?_keepOnly (named : path ≠ [])
    (present : (disk.keepOnly folder name).node? path ≠ none) : stays folder name path = true := by
  obtain ⟨node, found⟩ := Option.ne_none_iff_exists'.mp present
  exact (List.mem_filter.mp (mem_entries_of_node? named found)).2

private theorem IsTree.keepOnly (tree : disk.IsTree) (folder : Path) (name : Name) :
    (disk.keepOnly folder name).IsTree := by
  constructor
  · intro path target found
    by_cases top : path = []
    · simp [top] at found
    · have present : (disk.keepOnly folder name).node? path ≠ none := by simp [found]
      rw [node?_keepOnly_of_stays (stays_of_node?_keepOnly top present)] at found
      exact tree.linkFree path target found
  · intro above other present
    have kept := stays_of_node?_keepOnly (by simp) present
    rw [node?_keepOnly_of_stays kept] at present
    -- What stands above a kept entry is kept: it is the folder or not below the folder.
    have keptAbove : stays folder name above = true := by
      rw [stays_iff] at kept ⊢
      rcases kept with outside | rfl | inside
      · exact .inl fun within => outside (within.trans (List.prefix_append _ _))
      · exact .inl fun within => by
          have longer := within.length_le
          simp only [List.length_append, List.length_singleton] at longer
          omega
      · exact .inr (.inl (List.append_inj_left' inside rfl))
    rw [node?_keepOnly_of_stays keptAbove]
    exact tree.inFolder above other present

private theorem file?_keepOnly (disk : Disk) (folder : Path) (name other : Name) :
    (disk.keepOnly folder name).file? (folder ++ [other]) =
      if other = name then disk.file? (folder ++ [other]) else none := by
  split
  · rename_i same
    rw [file?, file?, node?_keepOnly_of_stays (stays_iff.mpr (.inr (.inr (by rw [same]))))]
  · rename_i apart
    have missing : (disk.keepOnly folder name).node? (folder ++ [other]) = none := by
      by_contra present
      rcases stays_iff.mp (stays_of_node?_keepOnly (by simp) present) with outside | longer | same
      · exact outside (List.prefix_append _ _)
      · simp at longer
      · exact apart (by simpa using same)
    rw [file?, missing]

end Disk

/-! ### The configurations of a project -/

namespace Catalog

/-- A project that has a folder of configurations on a tree, and has changed nothing yet. -/
structure HasConfigs (project : Project) (folder : Path) : Prop where
  tree : project.disk.IsTree
  placed : Path.place project.root configFolder = .ok folder
  isFolder : project.disk.node? folder = some .folder
  undeleted : project.deleted = []
  unheld : project.pending = []

/-- The project with a single file in its folder of configurations. -/
def alone (project : Project) (folder : Path) (name : Name) : Project :=
  project.withDisk (project.disk.keepOnly folder name)

/-- A content that stops the loading: a JSON object that is not shapely. -/
def Misshapen (content : Bytes) : Prop :=
  ∃ text config, Utf8.decode content = .ok text ∧ Json.parse text = .ok (.object config) ∧
    ¬ Entity.Shapely config

variable {project : Project} {folder : Path} {name : Name}

theorem HasConfigs.alone (stands : HasConfigs project folder) (name : Name) :
    HasConfigs (alone project folder name) folder where
  tree := stands.tree.keepOnly folder name
  placed := stands.placed
  isFolder := by
    rw [← stands.isFolder]
    exact Disk.node?_keepOnly_of_stays (Disk.stays_iff.mpr (.inr (.inl rfl)))
  undeleted := stands.undeleted
  unheld := stands.unheld

/-- The listing holds the files of the folder, each once. -/
theorem exists_list (stands : HasConfigs project folder) :
    ∃ names, project.list configFolder = .ok names ∧ names.Nodup ∧
      ∀ name, name ∈ names ↔ ∃ content, project.disk.file? (folder ++ [name]) = some content := by
  obtain ⟨answer, known⟩ := Disk.exists_leadsTo stands.tree (Path.isPlain_of_place stands.placed)
    (stands.tree.reaches (by simp [stands.isFolder])) (· == .folder)
  refine ⟨_, Project.list_eq stands.tree stands.placed known, ?_, fun name => ?_⟩
  · exact (Text.sorted_perm _).nodup_iff.mpr ((nodup_eraseDups _).filter _)
  · rw [(Text.sorted_perm _).mem_iff, List.mem_filter, List.mem_eraseDups, stands.undeleted,
      stands.unheld, ← Disk.mem_fileNames_iff]
    simp [Project.directNames]

private theorem list_alone (stands : HasConfigs project folder) {content : Bytes}
    (found : project.disk.file? (folder ++ [name]) = some content) :
    (alone project folder name).list configFolder = .ok [name] := by
  obtain ⟨names, listed, nodup, member⟩ := exists_list (stands.alone name)
  have only (other : Name) : other ∈ names ↔ other ∈ [name] := by
    have shown : (alone project folder name).disk.file? (folder ++ [other]) =
        if other = name then project.disk.file? (folder ++ [other]) else none :=
      Disk.file?_keepOnly project.disk folder name other
    rw [member, shown, List.mem_singleton]
    split
    · rename_i same
      simp [same, found]
    · rename_i apart
      simp [apart]
  have perm := (List.perm_ext_iff_of_nodup nodup (by simp)).mpr only
  rw [listed, List.perm_singleton.mp perm]

/-- A configuration is read as the text of its content. -/
theorem read_config (stands : HasConfigs project folder) {content : Bytes}
    (found : project.disk.file? (folder ++ [name]) = some content) :
    project.read (configFolder ++ "/" ++ name) =
      Project.textOf (configFolder ++ "/" ++ name) content := by
  have isName : Path.IsName name :=
    (stands.tree.inFolder folder name (by simp [Disk.file?_eq_some_iff.mp found])).2.1
  have spelled : configFolder ++ "/" ++ name = configFolder ++ '/' :: name := by
    rw [List.append_assoc]
    rfl
  have placed : Path.place project.root (configFolder ++ "/" ++ name) = .ok (folder ++ [name]) := by
    rw [spelled]
    exact Path.place_append_name (by decide) isName stands.placed
  have got : project.disk.readFile (folder ++ [name]) = .ok content :=
    (Project.readFile_eq_ok_iff stands.tree (Path.isPlain_of_place placed)).mpr found
  rw [Project.read_of_unheld stands.tree (by simp [stands.undeleted]) (by simp [stands.unheld]),
    placed]
  simp only [bind, Except.bind, onDisk, got]

private theorem readEntity_alone (stands : HasConfigs project folder) {content : Bytes}
    (found : project.disk.file? (folder ++ [name]) = some content) :
    readEntity (alone project folder name) name = readEntity project name := by
  have kept : (alone project folder name).disk.file? (folder ++ [name]) = some content := by
    rw [← found]
    exact (Disk.file?_keepOnly project.disk folder name name).trans (if_pos rfl)
  have same := (read_config (stands.alone name) kept).trans (read_config stands found).symm
  simp only [readEntity, readJson, same]

/-- A file of the folder gives an entity or is passed over exactly if it is not misshapen. -/
theorem exists_readEntity_iff (stands : HasConfigs project folder) {content : Bytes}
    (found : project.disk.file? (folder ++ [name]) = some content) :
    (∃ result, readEntity project name = .ok result) ↔ ¬ Misshapen content := by
  simp only [readEntity, readJson, read_config stands found, Project.textOf, Misshapen]
  cases decoded : Utf8.decode content with
  | error fault => simp [bind, Except.bind, isPassedOver, Failure.family, Family.isForeseen]
  | ok text =>
    cases parsed : Json.parse text with
    | error fault => simp [bind, Except.bind, parsed, isPassedOver, Failure.family]
    | ok value =>
      cases value with
      | object config =>
        have made := @Entity.exists_ofConfig_iff
          (name.take (name.length - configSuffix.length)) config
        simp only [bind, Except.bind, parsed, Except.ok.injEq, JsonOf.object.injEq, exists_and_left,
          exists_eq_left', not_not, ← made]
        cases Entity.ofConfig (name.take (name.length - configSuffix.length)) config with
        | error failure => simp
        | ok entity => simp [pure, Except.pure]
      | _ => simp [bind, Except.bind, parsed]

/-- The entity that one file of the folder gives, if it gives one. -/
def own (project : Project) (name : Name) : List Entity :=
  ((readEntity project name).toOption.bind Prod.fst).toList

/-- Files in a row are read to the end exactly if each of them can be read, and give what each of
them gives. -/
theorem readEntities_eq_ok_iff {names : List Name} {entities : List Entity} :
    (readEntities project names).1 = .ok entities ↔
      (∀ name ∈ names, ∃ result, readEntity project name = .ok result) ∧
        entities = names.flatMap (own project) := by
  induction names generalizing entities with
  | nil => simp [readEntities, eq_comm]
  | cons name names ih =>
    rw [readEntities, List.forall_mem_cons, List.flatMap_cons]
    cases read : readEntity project name with
    | error failure => simp
    | ok result =>
      have first : own project name = result.1.toList := by simp [own, read, Except.toOption]
      rw [first]
      cases rest : (readEntities project names).1 with
      | error failure =>
        have stopped : ¬ ∀ name ∈ names, ∃ result, readEntity project name = .ok result :=
          fun readable => by cases rest.symm.trans (ih.mpr ⟨readable, rfl⟩)
        simp [-Prod.exists, Except.map, rest, stopped]
      | ok others =>
        obtain ⟨readable, rfl⟩ := ih.mp rest
        simpa [Except.map, rest, eq_comm] using fun _ => readable

/-- The entities of a project are read to the end exactly if each configuration can be read; they
are then what the files give, by name. -/
theorem load_eq_ok_iff {names : List Name} (listed : project.list configFolder = .ok names)
    {entities : List Entity} :
    (load project).1 = .ok entities ↔
      (∀ name ∈ names.filter (Text.endsWith configSuffix),
        ∃ result, readEntity project name = .ok result) ∧
      entities = ((names.filter (Text.endsWith configSuffix)).flatMap (own project)).mergeSort
        fun a b => Text.before a.name b.name := by
  have loaded : (load project).1 =
      (readEntities project (names.filter (Text.endsWith configSuffix))).1.map
        fun entities => entities.mergeSort fun a b => Text.before a.name b.name := by
    rw [load, listed]
  rw [loaded]
  cases read : (readEntities project (names.filter (Text.endsWith configSuffix))).1 with
  | error failure =>
    have stopped : ¬ ∀ name ∈ names.filter (Text.endsWith configSuffix),
        ∃ result, readEntity project name = .ok result :=
      fun readable => by cases read.symm.trans (readEntities_eq_ok_iff.mpr ⟨readable, rfl⟩)
    simp only [Except.map, stopped, false_and, reduceCtorEq]
  | ok unsorted =>
    obtain ⟨readable, rfl⟩ := readEntities_eq_ok_iff.mp read
    rw [and_iff_right readable, Except.map, Except.ok.injEq, eq_comm]

private theorem mergeSort_own (project : Project) (name : Name) :
    (([name].flatMap (own project)).mergeSort fun a b => Text.before a.name b.name) =
      own project name := by
  rw [List.flatMap_singleton, own]
  cases (readEntity project name).toOption.bind Prod.fst <;> simp

/-- The loading of a project's entities returns exactly if none of its configurations is misshapen.
What it returns is in the order of the names, and is what every configuration gives when it is the
only file in the folder.  The limit that an interpreter sets on how deep JSON is nested is left out. -/
theorem load_as_alone (stands : HasConfigs project folder) :
    ∃ names : List Name, names.Nodup ∧
      (∀ name, name ∈ names ↔ Text.endsWith configSuffix name = true ∧
        ∃ content, project.disk.file? (folder ++ [name]) = some content) ∧
      ((∃ entities, (load project).1 = .ok entities) ↔
        ∀ name ∈ names, ∀ content, project.disk.file? (folder ++ [name]) = some content →
          ¬ Misshapen content) ∧
      ∀ entities, (load project).1 = .ok entities →
        entities.Pairwise (fun a b => Text.before a.name b.name = true) ∧
        ∃ given : Name → List Entity,
          (∀ name ∈ names, (load (alone project folder name)).1 = .ok (given name)) ∧
          entities.Perm (names.flatMap given) := by
  obtain ⟨all, listed, nodup, member⟩ := exists_list stands
  have members (name : Name) : name ∈ all.filter (Text.endsWith configSuffix) ↔
      Text.endsWith configSuffix name = true ∧
        ∃ content, project.disk.file? (folder ++ [name]) = some content := by
    rw [List.mem_filter, member, and_comm]
  refine ⟨all.filter (Text.endsWith configSuffix), nodup.filter _, members, ?_, ?_⟩
  · constructor
    · rintro ⟨entities, loaded⟩ name isConfig content found
      exact (exists_readEntity_iff stands found).mp
        (((load_eq_ok_iff listed).mp loaded).1 name isConfig)
    · intro shapely
      refine ⟨_, (load_eq_ok_iff listed).mpr ⟨fun name isConfig => ?_, rfl⟩⟩
      obtain ⟨-, content, found⟩ := (members name).mp isConfig
      exact (exists_readEntity_iff stands found).mpr (shapely name isConfig content found)
  · intro entities loaded
    obtain ⟨readable, rfl⟩ := (load_eq_ok_iff listed).mp loaded
    refine ⟨?_, own project, fun name isConfig => ?_, List.mergeSort_perm _ _⟩
    · have total (a b : Entity) :
          (Text.before a.name b.name || Text.before b.name a.name) = true := by
        simpa using Text.before_total a.name b.name
      have chain (a b c : Entity) : Text.before a.name b.name = true →
          Text.before b.name c.name = true → Text.before a.name c.name = true := Text.before_trans
      exact List.pairwise_mergeSort chain total _
    · obtain ⟨isJson, content, found⟩ := (members name).mp isConfig
      have ownAlone : own (alone project folder name) name = own project name := by
        rw [own, own, readEntity_alone stands found]
      have only : [name].filter (Text.endsWith configSuffix) = [name] := by simp [isJson]
      refine (load_eq_ok_iff (list_alone stands found)).mpr ⟨?_, ?_⟩
      · rw [only, List.forall_mem_singleton, readEntity_alone stands found]
        exact readable name isConfig
      · rw [only, mergeSort_own, ownAlone]

/-- The folder of configurations of `twoConfigs`. -/
def sampleFolder : Path := ["w".toList, ".jhipster".toList]

/-- A project with two configurations, the second of which is an empty object. -/
def twoConfigs (first : Bytes) : Project where
  root := ["w".toList]
  disk := { entries := [
    (["w".toList], .folder),
    (sampleFolder, .folder),
    (sampleFolder ++ ["A.json".toList], .file first),
    (sampleFolder ++ ["B.json".toList], .file (Utf8.encode "\x7b\x7d"))] }

private theorem hasConfigs_twoConfigs (first : Bytes) : HasConfigs (twoConfigs first) sampleFolder where
  tree := by
    refine Disk.isTree_of_entries fun entry member => ?_
    simp only [twoConfigs, List.mem_cons, List.not_mem_nil, or_false] at member
    rcases member with rfl | rfl | rfl | rfl
    all_goals
      refine ⟨trivial, ?_, rfl, ?_, ?_⟩
      all_goals
        dsimp only
        decide
  placed := rfl
  isFolder := rfl
  undeleted := rfl
  unheld := rfl

private theorem file?_twoConfigs {first content : Bytes} {name : Name}
    (found : (twoConfigs first).disk.file? (sampleFolder ++ [name]) = some content) :
    name = "A.json" ∧ content = first ∨ name = "B.json" ∧ content = Utf8.encode "\x7b\x7d" := by
  have member := Disk.mem_entries_of_node? (by simp) (Disk.file?_eq_some_iff.mp found)
  simpa [twoConfigs, sampleFolder] using member

/-- A configuration that is not UTF-8 is passed over, and the other one gives its entity. -/
theorem load_as_alone_of_brokenText :
    HasConfigs (twoConfigs [255]) sampleFolder ∧
      ∃ entities, (load (twoConfigs [255])).1 = .ok entities ∧
        entities.Pairwise (fun a b => Text.before a.name b.name = true) := by
  have stands := hasConfigs_twoConfigs [255]
  obtain ⟨names, -, -, returns, loaded⟩ := load_as_alone stands
  obtain ⟨entities, returned⟩ := returns.mpr (by
    rintro name - content found ⟨text, config, decoded, parsed, unshapely⟩
    rcases file?_twoConfigs found with ⟨rfl, rfl⟩ | ⟨rfl, rfl⟩
    · cases decoded
    · obtain rfl : "\x7b\x7d".toList = text := Except.ok.inj decoded
      obtain rfl : [] = config := JsonOf.object.inj (Except.ok.inj parsed)
      exact unshapely ⟨nofun, nofun⟩)
  exact ⟨stands, entities, returned, (loaded entities returned).1⟩

/-- Two configurations, the first of which has a number for its field list. -/
def numberFields : Project := twoConfigs (Utf8.encode "\x7b\"fields\":5\x7d")

/-- A field list that is a number stops the loading of both configurations, although the other one
alone gives its entity. -/
theorem load_stopped_by_number :
    (∀ entities, (load numberFields).1 ≠ .ok entities) ∧
      ∃ entity, (load (alone numberFields sampleFolder "B.json")).1 = .ok [entity] := by
  have stands : HasConfigs numberFields sampleFolder := hasConfigs_twoConfigs _
  constructor
  · intro entities loaded
    obtain ⟨names, listed, -, member⟩ := exists_list stands
    have isConfig : "A.json".toList ∈ names.filter (Text.endsWith configSuffix) :=
      List.mem_filter.mpr ⟨(member _).mpr ⟨_, rfl⟩, by decide⟩
    obtain ⟨result, read⟩ := ((load_eq_ok_iff listed).mp loaded).1 _ isConfig
    have refused : (readEntity numberFields "A.json").toOption.isSome = false := by decide +kernel
    rw [read] at refused
    cases refused
  · have found : numberFields.disk.file? (sampleFolder ++ ["B.json".toList]) =
        some (Utf8.encode "\x7b\x7d") := rfl
    have only : ["B.json".toList].filter (Text.endsWith configSuffix) = ["B.json".toList] := by
      decide
    obtain ⟨entity, warning, read⟩ : ∃ entity warning,
        readEntity (alone numberFields sampleFolder "B.json") "B.json" =
          .ok (some entity, warning) := ⟨_, _, rfl⟩
    refine ⟨entity, (load_eq_ok_iff (list_alone stands found)).mpr ⟨?_, ?_⟩⟩
    · rw [only, List.forall_mem_singleton]
      exact ⟨_, read⟩
    · rw [only, mergeSort_own, own, read]
      rfl

end Catalog

end ReadOnlyViews
