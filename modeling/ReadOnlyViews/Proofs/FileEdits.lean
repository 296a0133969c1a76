import ReadOnlyViews.Proofs.Confinement
import ReadOnlyViews.Proofs.Encoding
import ReadOnlyViews.Proofs.LinkedWalks
import ReadOnlyViews.Proofs.RunSteps

/-!
Edits of files are all or nothing.  On a disk on which nothing has a temporary name, whatever links it
has, a file that can be read is replaced as a whole or left as it is, and an edit says which.  An edit
by a path that is spelled as a Java source never breaks a source that is well formed.  The spelling of
the path matters: by another path the same file is edited without that care.
-/

namespace ReadOnlyViews

namespace Disk

variable {disk : Disk} {folder place : Path} {name : Name} {left : Nat}

/-! ## The place of a file -/

/-- Nothing has a name that a replacement uses for its new content. -/
def Tidy (disk : Disk) : Prop := ∀ path, Path.IsTemporary path → disk.node? path = none

private theorem tidy_of_entries
    (entries : ∀ entry ∈ disk.entries, ¬ ".viewbot-tmp".toList <:+ entry.1.getLastD []) : disk.Tidy := by
  rintro path ⟨folder, start, rfl⟩
  by_contra present
  obtain ⟨node, found⟩ := Option.ne_none_iff_exists'.mp present
  exact entries _ (mem_entries_of_node? (by simp) found) (by simp)

/-- A path of a folder and a name leads to a file, directly or through a link. -/
structure Holds (disk : Disk) (folder : Path) (name : Name) (left : Nat) (place : Path) : Prop where
  enters : disk.Enters linkLimit [] folder left place
  isFolder : disk.node? place = some .folder
  down : StepsDown name
  dead : disk.DeadEnd (place ++ [name])
  present : (disk.node? (place ++ [name])).isSome = true

theorem Enters.walk (enters : disk.Enters linkLimit [] folder left place) (last : Last) (name : Name) :
    disk.walk last (folder ++ [name]) = disk.walkFrom last left place [name] :=
  enters.walkFrom_append last (List.cons_ne_nil _ _)

theorem readFile_eq_ok_iff {path : Path} {content : Bytes} : disk.readFile path = .ok content ↔
    ∃ location, disk.walk .existing path = .ok location ∧ disk.node? location = some (.file content) := by
  unfold readFile status
  cases walked : disk.walk .existing path with
  | error fault => simp [bind, Except.bind]
  | ok location =>
    simp only [bind, Except.bind]
    cases found : disk.node? location with
    | none => simp [found]
    | some node => cases node <;> simp [found]

/-- A file that can be read lies in a folder. -/
theorem exists_holds_of_readFile {target : Path} {content : Bytes} (plain : target.IsPlain)
    (held : disk.readFile target = .ok content) :
    ∃ folder name left place, target = folder ++ [name] ∧ disk.Holds folder name left place := by
  obtain ⟨location, walked, file⟩ := readFile_eq_ok_iff.mp held
  rcases List.eq_nil_or_concat target with rfl | ⟨folder, name, rfl⟩
  · obtain rfl : [] = location := by simpa [walk] using walked
    simp at file
  rw [List.concat_eq_append] at walked plain ⊢
  obtain ⟨left, place, enters⟩ := exists_enters_of_append (List.cons_ne_nil _ _) walked
  rw [enters.walk] at walked
  have isName : Path.IsName name := plain name (by simp)
  refine ⟨folder, name, left, place, rfl, ?_⟩
  cases stepped_of_walkFrom walked with
  | stay _ dot =>
    rcases dot with empty | dot
    · exact absurd empty isName.nonempty
    · exact absurd dot isName.notDot
  | up _ _ dots => exact absurd dots isName.notDots
  | @down node isFolder down found noLink further =>
    obtain rfl : place ++ [name] = location := by simpa using further
    refine ⟨enters, isFolder, down, fun other stands => .inl ⟨content, ?_⟩, by simp [found]⟩
    rw [file] at stands
    exact (Option.some.inj stands).symm
  | @follow aim fewer isFolder down found counted further =>
    rw [List.append_nil] at further
    obtain ⟨rest, toFile⟩ := exists_enters_of_existing further
    refine ⟨enters, isFolder, down, fun other stands => ?_, by simp [found]⟩
    rw [found] at stands
    refine .inr ⟨aim, fewer, rest, location, content, (Option.some.inj stands).symm, ?_, file⟩
    rwa [List.dropLast_concat]
  | ends _ _ _ lax => exact absurd rfl lax

/-! ## Entries of a folder -/

section Entries

variable (enters : disk.Enters linkLimit [] folder left place) (isFolder : disk.node? place = some .folder)

include enters isFolder

private theorem isPresent_of_tooLong (notDot : ¬ (name = [] ∨ name = ".")) (notDots : name ≠ "..")
    (long : nameLimit < Utf8.size name) : disk.isPresent (folder ++ [name]) = .error .nameTooLong := by
  simp [isPresent, leadsTo, status, enters.walk, walkFrom_tooLong isFolder notDot notDots long, bind, Except.bind,
    DiskFault.meansAbsent]

private theorem writeFile_of_tooLong (notDot : ¬ (name = [] ∨ name = ".")) (notDots : name ≠ "..")
    (long : nameLimit < Utf8.size name) (content : Bytes) :
    disk.writeFile (folder ++ [name]) content = .error .nameTooLong := by
  simp [writeFile, enters.walk, walkFrom_tooLong isFolder notDot notDots long, bind, Except.bind]

variable (down : StepsDown name)

include down

private theorem isPresent_of_missing (missing : disk.node? (place ++ [name]) = none) :
    disk.isPresent (folder ++ [name]) = .ok false := by
  simp [isPresent, leadsTo, status, enters.walk, walkFrom_missing isFolder down missing, bind, Except.bind,
    DiskFault.meansAbsent]

private theorem writeFile_of_missing (missing : disk.node? (place ++ [name]) = none) (content : Bytes) :
    disk.writeFile (folder ++ [name]) content = .ok (disk.put (place ++ [name]) (.file content)) := by
  simp [writeFile, enters.walk, walkFrom_missing isFolder down missing, bind, Except.bind, missing]

private theorem readFile_of_file {content : Bytes} (found : disk.node? (place ++ [name]) = some (.file content)) :
    disk.readFile (folder ++ [name]) = .ok content := by
  refine readFile_eq_ok_iff.mpr ⟨place ++ [name], ?_, found⟩
  rw [enters.walk, walkFrom_entry isFolder down found (by simp), walkFrom_nil]

/-- What stands in a folder is found there, whatever it is. -/
theorem walk_entry (present : (disk.node? (place ++ [name])).isSome = true) :
    disk.walk .entry (folder ++ [name]) = .ok (place ++ [name]) := by
  rw [enters.walk]
  obtain ⟨node, found⟩ := Option.isSome_iff_exists.mp present
  by_cases isLink : ∃ aim, node = .link aim
  · obtain ⟨aim, rfl⟩ := isLink
    exact walkFrom_linkEntry isFolder down found
  · rw [walkFrom_entry isFolder down found fun aim same => isLink ⟨aim, same⟩, walkFrom_nil]

end Entries

/-! ## Replacing a file -/

namespace Holds

variable (holds : disk.Holds folder name left place)

include holds

/-- The folders of a file that can be read need not be made. -/
theorem makeFolders : disk.makeFolders folder.reverse = (.ok (), disk) := by
  obtain ⟨location, walked, some_⟩ := holds.enters.exists_entry holds.isFolder
  have exists_ : disk.makeFolder folder = .error .entryExists := by
    simp [makeFolder, walk, walked, bind, Except.bind, some_]
  have isFolder : disk.isFolder folder = .ok true := by
    simp [Disk.isFolder, leadsTo, status, walk, holds.enters.walkFrom_existing, bind, Except.bind, holds.isFolder]
  rw [makeFolders.eq_def]
  simp [exists_, isFolder]

/-- Another node in a dead end of the folder leaves the way there. -/
theorem enters_of_deadEnd {later : Disk} {other : Name} (dead : disk.DeadEnd (place ++ [other]))
    (same : ∀ path, path ≠ place ++ [other] → later.node? path = disk.node? path) :
    later.Enters linkLimit [] folder left place ∧ later.node? place = some .folder := by
  refine ⟨holds.enters.of_deadEnd dead same holds.isFolder, ?_⟩
  rw [same place (by simp), holds.isFolder]

/-- New content that is written beside a file takes its place, and nothing else changes. -/
theorem exists_rename {other : Name} (down : StepsDown other) (missing : disk.node? (place ++ [other]) = none)
    (content : Bytes) :
    ∃ later, (disk.put (place ++ [other]) (.file content)).rename (folder ++ [other]) (folder ++ [name]) = .ok later ∧
      later.node? (place ++ [name]) = some (.file content) ∧
      ∀ path, path ≠ place ++ [name] → later.node? path = disk.node? path := by
  have apart : place ++ [name] ≠ place ++ [other] := by
    intro same
    have stands := holds.present
    rw [same, missing] at stands
    cases stands
  have dead : disk.DeadEnd (place ++ [other]) := fun node found => by simp [missing] at found
  obtain ⟨enters, isFolder⟩ := holds.enters_of_deadEnd dead fun path different =>
    node?_put_of_ne disk different (.file content)
  have newContent : (disk.put (place ++ [other]) (.file content)).node? (place ++ [other]) = some (.file content) :=
    node?_put_self disk (by simp) _
  have oldContent : (disk.put (place ++ [other]) (.file content)).node? (place ++ [name]) =
      disk.node? (place ++ [name]) := node?_put_of_ne disk apart _
  have walkedNew := walk_entry enters isFolder down (by rw [newContent]; rfl)
  have walkedOld := walk_entry enters isFolder holds.down (by rw [oldContent]; exact holds.present)
  refine ⟨((disk.put (place ++ [other]) (.file content)).erase (place ++ [other])).put (place ++ [name])
      (.file content),
    ?_, node?_put_self _ (by simp) _, fun path different => ?_⟩
  · have notFolder : disk.node? (place ++ [name]) ≠ some .folder := holds.dead.not_folder
    simp only [rename, walkedNew, walkedOld, bind, Except.bind, newContent, oldContent, if_neg notFolder,
      if_neg apart.symm]
  · rw [node?_put_of_ne _ different]
    by_cases atOther : path = place ++ [other]
    · rw [atOther, node?_erase_self _ (by simp), missing]
    · rw [node?_erase_of_ne _ atOther, node?_put_of_ne _ atOther]

/-- A replacement fails with the disk as it was, or the path leads to the new content. -/
theorem replaceFile (plain : Path.IsPlain (folder ++ [name])) (tidy : disk.Tidy) (content : Bytes) :
    (∃ failure, disk.replaceFile (folder ++ [name]) content = (.error failure, disk)) ∨
      ∃ later, disk.replaceFile (folder ++ [name]) content = (.ok (), later) ∧
        later.readFile (folder ++ [name]) = .ok content ∧ later.Tidy := by
  have temp : temporary (folder ++ [name]) = folder ++ [name ++ ".viewbot-tmp".toList] := by simp [temporary]
  generalize spare : name ++ ".viewbot-tmp".toList = other at temp
  have isName : Path.IsName other := isPlain_temporary plain other (by simp [temp])
  have notDot : ¬ (other = [] ∨ other = ".") := by
    rintro (empty | dot)
    · exact isName.nonempty empty
    · exact isName.notDot dot
  by_cases short : Utf8.size other ≤ nameLimit
  case neg =>
    have long := Nat.lt_of_not_le short
    refine .inl ⟨.disk .nameTooLong (folder ++ [other]) none, ?_⟩
    simp only [Disk.replaceFile, temp, writeFile_of_tooLong holds.enters holds.isFolder notDot isName.notDots long,
      isPresent_of_tooLong holds.enters holds.isFolder notDot isName.notDots long]
  have down : StepsDown other := ⟨notDot, isName.notDots, short⟩
  have missing : disk.node? (place ++ [other]) = none := tidy _ ⟨place, name, by rw [spare]⟩
  have written := writeFile_of_missing holds.enters holds.isFolder down missing content
  obtain ⟨later, renamed, found, same⟩ := holds.exists_rename down missing content
  obtain ⟨enters, isFolder⟩ := holds.enters_of_deadEnd holds.dead same
  have gone : later.node? (place ++ [other]) = none := by
    rw [same _ ?_, missing]
    intro atFile
    rw [atFile] at missing
    simpa [missing] using holds.present
  refine .inr ⟨later, ?_, readFile_of_file enters isFolder holds.down found, fun path isTemporary => ?_⟩
  · simp only [Disk.replaceFile, temp, written, renamed, isPresent_of_missing enters isFolder down gone]
  · rw [same path ?_, tidy path isTemporary]
    rintro rfl
    simpa [tidy _ isTemporary] using holds.present

end Holds

end Disk

/-! ## Editing a file -/

/-- A project that writes to its disk at once, where nothing has a temporary name. -/
structure Project.WritesThrough (project : Project) : Prop where
  real : project.dryRun = false
  direct : project.pending = []
  tidy : project.disk.Tidy

namespace Project.WritesThrough

variable {project : Project} {file : Text} {target : Path} {content : Bytes} {before : Text}
  (through : project.WritesThrough) (located : project.locate file = .ok target)
  (held : project.disk.readFile target = .ok content)

include through located held

/-- A write to a file that can be read fails with the file as it was, or the path leads to the new
text. -/
theorem write (text : Text) :
    (project.write file text).2.WritesThrough ∧
      ((∃ failure, (project.write file text).1 = .error failure ∧
          (project.write file text).2.disk.readFile target = .ok content) ∨
        (project.write file text).1 = .ok () ∧
          (project.write file text).2.disk.readFile target = .ok (Utf8.encode text)) := by
  have plain := (exists_base_of_locate located).1
  obtain ⟨folder, name, left, place, rfl, holds⟩ := Disk.exists_holds_of_readFile plain held
  have located' : (project.countWritten file text).locate file = .ok (folder ++ [name]) := located
  have makes : project.disk.makeFolders (folder ++ [name]).dropLast.reverse = (.ok (), project.disk) := by
    rw [List.dropLast_concat]
    exact holds.makeFolders
  rw [write_of_real through.real, located']
  simp only [makes]
  rcases holds.replaceFile plain through.tidy (Utf8.encode text) with
    ⟨failure, replaced⟩ | ⟨later, replaced, newContent, tidy⟩
  · rw [replaced]
    exact ⟨⟨through.real, through.direct, through.tidy⟩, .inl ⟨failure, rfl, held⟩⟩
  · rw [replaced]
    exact ⟨⟨through.real, through.direct, tidy⟩, .inr ⟨rfl, newContent⟩⟩

/-- What can be read of a file is the text on the disk. -/
theorem eq_of_read (decoded : Utf8.decode content = .ok before) {text : Text}
    (read : project.read file = .ok text) : text = before := by
  unfold Project.read at read
  split at read
  · cases read
  · rw [through.direct] at read
    simpa [located, held, decoded, onDisk, bind, Except.bind, eq_comm] using read

end Project.WritesThrough

/-- An edit reports a change. -/
def ReportsChange (answer : Except Failure FileEdit) : Prop := ∃ edit, answer = .ok edit ∧ edit.changed = true

/-- An edit reports an error, or is cut short by one. -/
def ReportsError (answer : Except Failure FileEdit) : Prop :=
  (∃ failure, answer = .error failure) ∨ ∃ edit, answer = .ok edit ∧ edit.error ≠ none

namespace Workspace

variable {wellFormed : Text → Bool} {space : Workspace} {file : Text} {conversion : Conversion}

/-- A change is not one that breaks a source. -/
theorem sound_of_changed {before : Text} {converted : ReadOnly.Converted}
    (read : space.project.read file = .ok before) (made : conversion space.asked before = .ok converted)
    (changed : ReportsChange (space.edit wellFormed file conversion).1) :
    (Text.endsWith ".java" file && !wellFormed converted.text && wellFormed before) = false := by
  rw [← Bool.not_eq_true]
  intro breaks
  obtain ⟨edit, answer, isChanged⟩ := changed
  unfold Workspace.edit at answer
  simp only [read, made] at answer
  -- Kept or taken back, an edit reports no change.
  split at answer
  · cases answer
    cases isChanged
  · cases answer
    cases isChanged

/-- What an edit makes of a file that can be read: nothing, or what the conversion made, as it says. -/
theorem edit_cases {target : Path} {content : Bytes} {before : Text} (through : space.project.WritesThrough)
    (located : space.project.locate file = .ok target) (held : space.project.disk.readFile target = .ok content)
    (decoded : Utf8.decode content = .ok before) :
    (space.edit wellFormed file conversion).2.project.WritesThrough ∧
      ((¬ ReportsChange (space.edit wellFormed file conversion).1 ∧
          (space.edit wellFormed file conversion).2.project.disk.readFile target = .ok content) ∨
        ∃ converted, conversion space.asked before = .ok converted ∧ converted.text ≠ before ∧
          ReportsChange (space.edit wellFormed file conversion).1 ∧
          ¬ ReportsError (space.edit wellFormed file conversion).1 ∧
          (Text.endsWith ".java" file && !wellFormed converted.text && wellFormed before) = false ∧
          (space.edit wellFormed file conversion).2.project.disk.readFile target =
            .ok (Utf8.encode converted.text)) := by
  have edited := edited_edit wellFormed space file conversion
  have sound {converted : ReadOnly.Converted} (read : space.project.read file = .ok before)
      (made : conversion space.asked before = .ok converted) := @sound_of_changed wellFormed _ _ _ _ _ read made
  generalize space.edit wellFormed file conversion = result at edited sound
  cases edited with
  | unread read => exact ⟨through, .inl ⟨by rintro ⟨_, ⟨⟩, -⟩, held⟩⟩
  | failed read made => exact ⟨through, .inl ⟨by rintro ⟨_, ⟨⟩, ⟨⟩⟩, held⟩⟩
  | kept read made => exact ⟨through, .inl ⟨by rintro ⟨_, ⟨⟩, ⟨⟩⟩, held⟩⟩
  | reverted read made => exact ⟨through, .inl ⟨by rintro ⟨_, ⟨⟩, ⟨⟩⟩, held⟩⟩
  | @refused _ converted failure project read made refused =>
    obtain ⟨throughLater, ⟨-, -, same⟩ | ⟨ok, -⟩⟩ := through.write located held converted.text
    · rw [refused] at throughLater same
      exact ⟨throughLater, .inl ⟨by rintro ⟨_, ⟨⟩, -⟩, same⟩⟩
    · rw [refused] at ok
      cases ok
  | @changed text converted project read made changes written =>
    obtain rfl := through.eq_of_read located held decoded read
    obtain ⟨throughLater, ⟨failure, failed, -⟩ | ⟨-, newContent⟩⟩ := through.write located held converted.text
    · rw [written] at failed
      cases failed
    · rw [written] at throughLater newContent
      refine ⟨throughLater, .inr ⟨converted, made, changes, ⟨_, rfl, rfl⟩, ?_,
        sound read made ⟨_, rfl, rfl⟩, newContent⟩⟩
      rintro (⟨_, ⟨⟩⟩ | ⟨_, ⟨⟩, wrong⟩)
      exact wrong rfl

/-- One edit of a file by a path that is spelled as a Java source. -/
def EditsJava (wellFormed : Text → Bool) (target : Path) (space later : Workspace) : Prop :=
  ∃ file conversion, Text.endsWith ".java" file = true ∧ space.project.locate file = .ok target ∧
    later = (space.edit wellFormed file conversion).2

/-- A file that can be read as text and is well formed. -/
def HasWellFormed (wellFormed : Text → Bool) (target : Path) (space : Workspace) : Prop :=
  ∃ content text, space.project.disk.readFile target = .ok content ∧ Utf8.decode content = .ok text ∧
    wellFormed text = true

private theorem EditsJava.hasWellFormed {target : Path} {later : Workspace}
    (edits : EditsJava wellFormed target space later) (through : space.project.WritesThrough)
    (has : HasWellFormed wellFormed target space) :
    later.project.WritesThrough ∧ HasWellFormed wellFormed target later := by
  obtain ⟨file, conversion, java, located, rfl⟩ := edits
  obtain ⟨content, text, held, decoded, fine⟩ := has
  obtain ⟨throughLater, ⟨-, same⟩ | ⟨converted, -, -, -, -, sound, newContent⟩⟩ :=
    @edit_cases wellFormed space file conversion target content text through located held decoded
  · exact ⟨throughLater, content, text, same, decoded, fine⟩
  · refine ⟨throughLater, _, converted.text, newContent, Utf8.decode_encode _, ?_⟩
    rw [java, fine] at sound
    simpa using sound

/-- An edit of a file that can be read leaves its bytes as they are, or reports a change and leaves the
UTF-8 bytes of what the conversion made.  It reports a change exactly if the bytes are others, and no
change together with an error.  By paths that are spelled as Java sources a file that is well formed
stays so, however often it is edited. -/
theorem edit_all_or_nothing {target : Path} {content : Bytes} {before : Text}
    (through : space.project.WritesThrough) (located : space.project.locate file = .ok target)
    (held : space.project.disk.readFile target = .ok content) (decoded : Utf8.decode content = .ok before)
    (wellFormed : Text → Bool) :
    (∀ conversion, ∃ later, (space.edit wellFormed file conversion).2.project.disk.readFile target = .ok later ∧
      (later = content ∨ ReportsChange (space.edit wellFormed file conversion).1 ∧
        ∃ converted, conversion space.asked before = .ok converted ∧ later = Utf8.encode converted.text) ∧
      (ReportsChange (space.edit wellFormed file conversion).1 ↔ later ≠ content) ∧
      (ReportsError (space.edit wellFormed file conversion).1 → later = content)) ∧
    (wellFormed before = true → ∀ later, Relation.ReflTransGen (EditsJava wellFormed target) space later →
      HasWellFormed wellFormed target later) := by
  refine ⟨fun conversion => ?_, fun fine later edits => ?_⟩
  · obtain ⟨-, ⟨unchanged, same⟩ | ⟨converted, made, changes, changed, noError, -, newContent⟩⟩ :=
      @edit_cases wellFormed space file conversion target content before through located held decoded
    · exact ⟨content, same, .inl rfl, ⟨fun changed => absurd changed unchanged, fun other => absurd rfl other⟩,
        fun _ => rfl⟩
    · have other : Utf8.encode converted.text ≠ content := by
        rintro rfl
        rw [Utf8.decode_encode] at decoded
        exact changes (Except.ok.inj decoded)
      exact ⟨_, newContent, .inr ⟨changed, converted, made, rfl⟩, ⟨fun _ => other, fun _ => changed⟩,
        fun error => absurd error noError⟩
  · have stays : later.project.WritesThrough ∧ HasWellFormed wellFormed target later := by
      induction edits with
      | refl => exact ⟨through, content, before, held, decoded, fine⟩
      | tail _ edits ih => exact edits.hasWellFormed ih.1 ih.2
    exact stays.2

/-- A source in a project, and a link to it. -/
def linkedSource : Workspace where
  project := {
    root := ["w".toList]
    disk.entries := [
      (["w".toList], .folder),
      (["w".toList, "A.java".toList], .file (Utf8.encode "class A \x7b \x7d")),
      (["w".toList, "l".toList], .link "A.java".toList)] }

/-- As many braces are closed as are opened. -/
def balanced (text : Text) : Bool := text.count '\x7b' == text.count '\x7d'

/-- Drops the last character. -/
def cutShort : Conversion := fun asked text => .ok { text := text.dropLast, steps := [], asked }

/-- Drops the first character. -/
def cutFront : Conversion := fun asked text => .ok { text := text.drop 1, steps := [], asked }

/-- An edit that would break a source is taken back, and another one is made. -/
theorem linkedSource_edited :
    let target : Path := ["w".toList, "A.java".toList]
    let first := linkedSource.edit balanced "A.java" cutShort
    let second := first.2.edit balanced "A.java" cutFront
    linkedSource.project.WritesThrough ∧ ReportsError first.1 ∧ ¬ ReportsChange first.1 ∧
      ReportsChange (linkedSource.edit balanced "A.java" cutFront).1 ∧
      second.2.project.disk.readFile target = .ok (Utf8.encode "lass A \x7b \x7d") ∧
      HasWellFormed balanced target second.2 := by
  intro target first second
  have through : linkedSource.project.WritesThrough := ⟨rfl, rfl, Disk.tidy_of_entries (by decide +kernel)⟩
  have located : linkedSource.project.locate "A.java" = .ok target := by decide +kernel
  have held : linkedSource.project.disk.readFile target = .ok (Utf8.encode "class A \x7b \x7d") := by
    decide +kernel
  have error : ReportsError first.1 := .inr ⟨_, rfl, by decide +kernel⟩
  obtain ⟨each, sources⟩ := edit_all_or_nothing through located held (Utf8.decode_encode _) balanced
  obtain ⟨afterShort, -, -, changedShort, keptShort⟩ := each cutShort
  obtain ⟨afterFront, readFront, -, changedFront, -⟩ := each cutFront
  refine ⟨through, error, fun changed => changedShort.mp changed (keptShort error), changedFront.mpr ?_,
    by decide +kernel, sources (by decide +kernel) _ ?_⟩
  · rintro rfl
    revert readFront
    decide +kernel
  · exact .tail (.single ⟨"A.java".toList, cutShort, by decide +kernel, located, rfl⟩)
      ⟨"A.java".toList, cutFront, by decide +kernel, by decide +kernel, rfl⟩

/-- By a path that ends in a slash, or by a link of another name, the edit that breaks the source is
made. -/
theorem linkedSource_broken :
    let target : Path := ["w".toList, "A.java".toList]
    HasWellFormed balanced target linkedSource ∧ ∀ file ∈ ["A.java/".toList, "l".toList],
      linkedSource.project.locate file = .ok target ∧
        ReportsChange (linkedSource.edit balanced file cutShort).1 ∧
        ¬ HasWellFormed balanced target (linkedSource.edit balanced file cutShort).2 := by
  intro target
  refine ⟨⟨_, _, by decide +kernel, Utf8.decode_encode "class A \x7b \x7d".toList, by decide +kernel⟩, ?_⟩
  have broken : ∀ file ∈ ["A.java/".toList, "l".toList],
      linkedSource.project.locate file = .ok target ∧
        (linkedSource.edit balanced file cutShort).1.toOption.map (·.changed) = some true ∧
        (linkedSource.edit balanced file cutShort).2.project.disk.readFile target =
          .ok (Utf8.encode "class A \x7b ") := by
    decide +kernel
  intro file member
  obtain ⟨located, changed, held⟩ := broken file member
  refine ⟨located, ?_, ?_⟩
  · generalize (linkedSource.edit balanced file cutShort).1 = answer at changed
    cases answer with
    | error failure => cases changed
    | ok edit => exact ⟨edit, rfl, Option.some.inj changed⟩
  · rintro ⟨content, text, heldToo, decoded, fine⟩
    rw [held] at heldToo
    cases heldToo
    rw [Utf8.decode_encode] at decoded
    cases decoded
    revert fine
    decide +kernel

end Workspace

end ReadOnlyViews
