import ReadOnlyViews.Proofs.Encoding
import ReadOnlyViews.Proofs.Listing
import ReadOnlyViews.Proofs.Returning
import ReadOnlyViews.Proofs.Texts

/-!
A dry project beside the real one that it stands for.  What the dry project holds back, laid over
its disk, is what the real project has on its own disk; every question then has the same answer in
both, and every change keeps them so.
-/

namespace ReadOnlyViews

theorem mem_keys_iff {key : Text} {pairs : List (Text × Text)} :
    key ∈ pairs.map (·.1) ↔ ∃ value, pairs.lookup key = some value := by
  rw [← Option.ne_none_iff_exists', ne_eq, List.lookup_eq_none_iff]
  constructor
  · rintro member absent
    obtain ⟨pair, found, rfl⟩ := List.mem_map.mp member
    simpa using absent pair found
  · intro present
    by_contra absent
    refine present fun pair member => ?_
    rw [bne_iff_ne]
    rintro rfl
    exact absent (List.mem_map.mpr ⟨pair, member, rfl⟩)

theorem lookup_putPair (key value other : Text) (pairs : List (Text × Text)) :
    (putPair key value pairs).lookup other =
      if other = key then some value else pairs.lookup other := by
  induction pairs with
  | nil =>
    by_cases same : other = key
    · simp [putPair, same]
    · simp [putPair, same, List.lookup_cons, beq_eq_false_iff_ne.mpr same]
  | cons pair pairs ih =>
    obtain ⟨k, v⟩ := pair
    by_cases first : k = key
    · subst first
      by_cases same : other = k
      · simp [putPair, same]
      · simp [putPair, same, List.lookup_cons, beq_eq_false_iff_ne.mpr same]
    · by_cases same : other = k
      · subst same
        simp [putPair, first]
      · simp [putPair, first, List.lookup_cons, beq_eq_false_iff_ne.mpr same, ih]

theorem lookup_filter_ne (key other : Text) (pairs : List (Text × Text)) :
    (pairs.filter (·.1 != key)).lookup other =
      if other = key then none else pairs.lookup other := by
  induction pairs with
  | nil => simp
  | cons pair pairs ih =>
    obtain ⟨k, v⟩ := pair
    by_cases same : other = k
    · subst same
      by_cases first : other = key
      · rw [List.filter_cons_of_neg (by simp [first]), ih, if_pos first, if_pos first]
      · simp [first]
    · have skip := beq_eq_false_iff_ne.mpr same
      by_cases first : k = key
      · rw [List.filter_cons_of_neg (by simp [first]), ih, List.lookup_cons, skip]
      · rw [List.filter_cons_of_pos (by simp [first]), List.lookup_cons, List.lookup_cons, skip, ih]

namespace Disk

section

variable {disk larger : Disk} (linkFree : disk.LinkFree) (linkFreeLarger : larger.LinkFree)
  (folders : ∀ path, disk.node? path = some .folder → larger.node? path = some .folder)

include linkFree linkFreeLarger folders in
/-- A way that ends at a name that is too long ends there with more folders, too. -/
theorem stride_nameTooLong_of_folders {here : Path} {names : List Name}
    (plain : Path.IsPlain names)
    (refused : disk.stride .existing here names = .refused .nameTooLong) :
    larger.stride .existing here names = .refused .nameTooLong := by
  induction names generalizing here with
  | nil => simp [stride] at refused
  | cons name rest ih =>
    have plainRest : Path.IsPlain rest := fun other member => plain other (by simp [member])
    have isName := plain name (by simp)
    rw [stride_cons linkFree .existing here isName rest] at refused
    rw [stride_cons linkFreeLarger .existing here isName rest]
    by_cases atFolder : disk.node? here = some .folder
    case neg => simp [atFolder] at refused
    simp only [atFolder, folders here atFolder, ne_eq, not_true_eq_false, if_false] at refused ⊢
    by_cases long : Utf8.size name > nameLimit
    · rw [if_pos long]
    · rw [if_neg long] at refused ⊢
      by_cases missing : disk.node? (here ++ [name]) = none
      · simp [missing] at refused
      · rw [if_neg missing] at refused
        -- The way goes on from there, so a folder stands there.
        have inside : disk.node? (here ++ [name]) = some .folder := by
          cases rest with
          | nil => simp [stride] at refused
          | cons next rest =>
            by_contra noFolder
            rw [stride_cons linkFree .existing _ (plainRest next (by simp)) rest,
              if_pos noFolder] at refused
            cases refused
        rw [if_neg (by simp [folders _ inside])]
        exact ih plainRest refused

private theorem fault_cases_of_stride {last : Last} {here : Path} {names : List Name} {fault : DiskFault}
    (refused : disk.stride last here names = .refused fault) :
    fault = .notFolder ∨ fault = .nameTooLong ∨ fault = .noSuchEntry := by
  fun_induction stride disk last here names
  case case3 ih | case4 ih | case10 ih => exact ih refused
  all_goals simp_all

/-- A question about what a path leads to stays without an answer only where a name is too long. -/
theorem leadsTo_eq_error_iff (linkFree : disk.LinkFree) {path : Path} {test : Node → Bool}
    {fault : DiskFault} :
    disk.leadsTo test path = .error fault ↔
      fault = .nameTooLong ∧ disk.stride .existing [] path = .refused .nameTooLong := by
  rw [leadsTo, status, walk_eq linkFree]
  cases reached : disk.stride .existing [] path with
  | link here names => exact absurd reached (stride_ne_link linkFree .existing)
  | arrived location =>
    cases found : disk.node? location <;>
      simp [bind, Except.bind, found, DiskFault.meansAbsent]
  | refused other =>
    rcases fault_cases_of_stride reached with rfl | rfl | rfl <;>
      simp [bind, Except.bind, DiskFault.meansAbsent, eq_comm]

include linkFree linkFreeLarger folders in
/-- What is answered on a disk with more folders is answered without them. -/
theorem exists_leadsTo_of_folders {path : Path} (plain : Path.IsPlain path)
    {test other : Node → Bool} {answer : Bool} (answered : larger.leadsTo test path = .ok answer) :
    ∃ answer, disk.leadsTo other path = .ok answer := by
  cases asked : disk.leadsTo other path with
  | ok known => exact ⟨known, rfl⟩
  | error fault =>
    have long := ((leadsTo_eq_error_iff linkFree).mp asked).2
    have refused : larger.leadsTo test path = .error .nameTooLong :=
      (leadsTo_eq_error_iff linkFreeLarger).mpr
        ⟨rfl, stride_nameTooLong_of_folders linkFree linkFreeLarger folders plain long⟩
    rw [refused] at answered
    cases answered

end

theorem isFile_of_folders {disk larger : Disk} (tree : disk.IsTree) (treeLarger : larger.IsTree)
    (folders : ∀ path, disk.node? path = some .folder → larger.node? path = some .folder)
    {path : Path} (plain : Path.IsPlain path) (same : larger.file? path = disk.file? path)
    {answer : Bool} (answered : larger.isFile path = .ok answer) :
    disk.isFile path = .ok answer := by
  obtain ⟨known, asked⟩ : ∃ known, disk.isFile path = .ok known :=
    exists_leadsTo_of_folders tree.linkFree treeLarger.linkFree folders plain answered
  have both : disk.isFile path = .ok true ↔ larger.isFile path = .ok true := by
    rw [Project.isFile_eq_true_iff tree plain, Project.isFile_eq_true_iff treeLarger plain, same]
  rw [asked, answered] at both
  rw [asked]
  cases known <;> cases answer <;> simp_all

end Disk

private theorem Path.noNul_of_place {root target : Path} {front : Text} {name : Name} (noSlash : '/' ∉ name)
    (placed : place root (front ++ '/' :: name) = .ok target) : '\x00' ∉ name := by
  obtain ⟨base, -, -, read, -⟩ := plainReading_of_place placed
  unfold plainReading at read
  split at read
  case isTrue => cases read
  case isFalse clean =>
    intro nul
    refine clean (List.any_eq_true.mpr ⟨name, ?_, List.contains_iff_mem.mpr nul⟩)
    rw [segments, Text.pieces_append_mark, Text.pieces_of_notMem noSlash]
    simp

/-- No two of the texts name one place. -/
def Path.TellsApart (root : Path) (named : Text → Prop) : Prop :=
  ∀ ⦃file other : Text⦄ ⦃path : Path⦄, named file → named other → place root file = .ok path →
    place root other = .ok path → file = other

namespace Project

/-- A dry project stands for a real one, as far as files with certain names are asked for: the real
disk has what the dry project holds back, has not what it deleted, and is otherwise the dry disk. -/
structure Overlays (named : Text → Prop) (dry real : Project) : Prop where
  holdsBack : dry.dryRun = true
  ready : real.IsReal
  clean : real.disk.NoTemporary
  tree : dry.disk.IsTree
  root_eq : dry.root = real.root
  deleted_eq : dry.deleted = real.deleted
  apart : Path.TellsApart real.root named
  folders : ∀ path, dry.disk.node? path = some .folder → real.disk.node? path = some .folder
  held : ∀ {file text : Text}, dry.pending.lookup file = some text →
    named file ∧ file ∉ real.deleted ∧
      ∃ target, Path.place real.root file = .ok target ∧
        real.disk.file? target = some (Utf8.encode text)
  gone : ∀ {file : Text}, file ∈ real.deleted →
    named file ∧ ∃ target, Path.place real.root file = .ok target ∧ real.disk.file? target = none
  kept : ∀ {path : Path}, (∀ file, named file → Path.place real.root file = .ok path →
    dry.pending.lookup file = none ∧ file ∉ real.deleted) →
      real.disk.file? path = dry.disk.file? path

/-- A dry project that holds nothing back stands for the real one on the same disk. -/
theorem overlays_of_same_disk {named : Text → Prop} {dry real : Project}
    (holdsBack : dry.dryRun = true) (unheld : dry.pending = []) (ready : real.IsReal)
    (clean : real.disk.NoTemporary) (root_eq : dry.root = real.root)
    (disk_eq : dry.disk = real.disk) (kept : dry.deleted = []) (keptReal : real.deleted = [])
    (apart : Path.TellsApart real.root named) : Overlays named dry real where
  holdsBack
  ready
  clean
  tree := disk_eq ▸ ready.tree
  root_eq
  deleted_eq := kept.trans keptReal.symm
  apart
  folders path isFolder := disk_eq ▸ isFolder
  held found := by simp [unheld] at found
  gone member := by simp [keptReal] at member
  kept _ := by rw [disk_eq]

private theorem mem_directNames_iff {front : Text} {files : List Text} {name : Name} :
    name ∈ directNames front files ↔ front ++ name ∈ files ∧ '/' ∉ name := by
  simp [directNames, List.mem_filterMap, Option.filter_eq_some_iff, Text.after?_eq_some_iff]

namespace Overlays

variable {named : Text → Prop} {dry real : Project} {file : Text}

/-- A file that was neither written nor deleted is the same on both disks. -/
theorem file?_eq (stands : Overlays named dry real) (isNamed : named file)
    (unheld : dry.pending.lookup file = none) (kept : file ∉ real.deleted) {path : Path}
    (placed : Path.place real.root file = .ok path) :
    real.disk.file? path = dry.disk.file? path := by
  refine stands.kept fun other isOther placedOther => ?_
  obtain rfl := stands.apart isNamed isOther placed placedOther
  exact ⟨unheld, kept⟩

/-- A file that the dry project holds back is on the real disk. -/
theorem has_of_held (stands : Overlays named dry real) {text : Text}
    (held : dry.pending.lookup file = some text) :
    dry.has file = .ok true ∧ real.has file = .ok true := by
  obtain ⟨-, kept, target, placed, found⟩ := stands.held held
  refine ⟨?_, (has_eq_true_iff stands.ready).mpr ⟨kept, target, _, placed, found⟩⟩
  simp [has, stands.deleted_eq, kept, held]

theorem has_eq_true_iff_dry (stands : Overlays named dry real) (isNamed : named file) :
    dry.has file = .ok true ↔ real.has file = .ok true := by
  cases held : dry.pending.lookup file with
  | some text => simp [stands.has_of_held held]
  | none =>
    rw [has_eq_true_iff_of_unheld stands.tree held, has_eq_true_iff stands.ready, stands.deleted_eq,
      stands.root_eq]
    refine and_congr_right fun kept => exists_congr fun target => exists_congr fun content => ?_
    refine and_congr_right fun placed => ?_
    rw [stands.file?_eq isNamed held kept placed]

/-- Whether there is a file has one answer, unless the real disk gives none. -/
theorem has_eq (stands : Overlays named dry real) (isNamed : named file)
    (answers : ∀ fault path, real.has file ≠ .error (.disk fault path none)) :
    dry.has file = real.has file := by
  by_cases gone : file ∈ real.deleted
  · simp [has, stands.deleted_eq, gone]
  cases held : dry.pending.lookup file with
  | some text => rw [(stands.has_of_held held).1, (stands.has_of_held held).2]
  | none =>
    rw [has_of_real stands.ready gone] at answers ⊢
    rw [has_of_unheld stands.tree (stands.deleted_eq ▸ gone) held, stands.root_eq]
    cases placed : Path.place real.root file with
    | error failure => rfl
    | ok path =>
      cases asked : real.disk.isFile path with
      | error fault =>
        exact absurd (by simp [placed, bind, Except.bind, asked, onDisk]) (answers fault path)
      | ok answer =>
        have known := Disk.isFile_of_folders stands.tree stands.ready.tree stands.folders
          (Path.isPlain_of_place placed) (stands.file?_eq isNamed held gone placed) asked
        simp only [bind, Except.bind, asked, known]

/-- What the dry project holds back is what the real one reads. -/
theorem read_of_held (stands : Overlays named dry real) {text : Text}
    (held : dry.pending.lookup file = some text) :
    dry.read file = .ok text ∧ real.read file = .ok text := by
  obtain ⟨-, kept, target, placed, found⟩ := stands.held held
  refine ⟨?_, (read_eq_ok_iff stands.ready).mpr
    ⟨kept, target, _, placed, found, Utf8.decode_encode text⟩⟩
  simp [read, stands.deleted_eq, kept, held]

theorem read_eq_ok_iff_dry (stands : Overlays named dry real) (isNamed : named file) {text : Text} :
    dry.read file = .ok text ↔ real.read file = .ok text := by
  cases held : dry.pending.lookup file with
  | some known => simp [stands.read_of_held held]
  | none =>
    rw [read_eq_ok_iff_of_unheld stands.tree held, read_eq_ok_iff stands.ready, stands.deleted_eq,
      stands.root_eq]
    refine and_congr_right fun kept => exists_congr fun target => exists_congr fun content => ?_
    refine and_congr_right fun placed => ?_
    rw [stands.file?_eq isNamed held kept placed]

/-- A file is read alike, also when it is no text, unless the real disk refuses. -/
theorem read_eq (stands : Overlays named dry real) (isNamed : named file)
    (answers : ∀ fault path, real.read file ≠ .error (.disk fault path none)) :
    dry.read file = real.read file := by
  by_cases gone : file ∈ real.deleted
  · simp [read, stands.deleted_eq, gone]
  cases held : dry.pending.lookup file with
  | some text => rw [(stands.read_of_held held).1, (stands.read_of_held held).2]
  | none =>
    rw [read_of_unheld stands.ready.tree gone (stands.ready.unheld file)] at answers ⊢
    rw [read_of_unheld stands.tree (stands.deleted_eq ▸ gone) held, stands.root_eq]
    cases placed : Path.place real.root file with
    | error failure => rfl
    | ok target =>
      have plain := Path.isPlain_of_place placed
      cases got : real.disk.readFile target with
      | error fault =>
        exact absurd (by simp [placed, bind, Except.bind, got, onDisk]) (answers fault target)
      | ok content =>
        have found := (readFile_eq_ok_iff stands.ready.tree plain).mp got
        have foundDry : dry.disk.file? target = some content :=
          (stands.file?_eq isNamed held gone placed) ▸ found
        simp only [bind, Except.bind, got, (readFile_eq_ok_iff stands.tree plain).mpr foundDry]

/-- A change of one file, on the real disk and in what the dry project holds back. -/
theorem touch (stands : Overlays named dry real) (isNamed : named file) {target : Path}
    (placed : Path.place real.root file = .ok target) {held later : Project}
    (dry_eq : held = { dry with
      pending := held.pending, deleted := later.deleted, written := held.written })
    (ready : later.IsReal) (root_eq : later.root = real.root)
    (folders : ∀ path, real.disk.node? path = some .folder → later.disk.node? path = some .folder)
    (same : ∀ path, path ≠ target → later.disk.file? path = real.disk.file? path)
    (clean : Path.IsTemporary target → later.disk.file? target = none)
    (others : ∀ other, other ≠ file → held.pending.lookup other = dry.pending.lookup other ∧
      (other ∈ later.deleted ↔ other ∈ real.deleted))
    (this : (∃ text, held.pending.lookup file = some text ∧ file ∉ later.deleted ∧
        later.disk.file? target = some (Utf8.encode text)) ∨
      (held.pending.lookup file = none ∧ file ∈ later.deleted ∧ later.disk.file? target = none)) :
    Overlays named held later := by
  have apart {other : Text} {path : Path} (isOther : named other)
      (placedOther : Path.place real.root other = .ok path) (differs : other ≠ file) :
      path ≠ target := by
    rintro rfl
    exact differs (stands.apart isOther isNamed placedOther placed)
  constructor
  case holdsBack => exact dry_eq ▸ stands.holdsBack
  case ready => exact ready
  case clean =>
    intro path temporary
    by_cases there : path = target
    · exact there ▸ clean (there ▸ temporary)
    · rw [same path there, stands.clean path temporary]
  case tree => exact dry_eq ▸ stands.tree
  case root_eq =>
    rw [root_eq, ← stands.root_eq, dry_eq]
  case deleted_eq => rw [dry_eq]
  case apart => exact root_eq ▸ stands.apart
  case folders =>
    rw [dry_eq]
    exact fun path isFolder => folders path (stands.folders path isFolder)
  case held =>
    intro other text holds
    rw [root_eq]
    by_cases touched : other = file
    · subst touched
      rcases this with ⟨known, holdsKnown, kept, found⟩ | ⟨unheld, -⟩
      · obtain rfl := Option.some.inj (holds.symm.trans holdsKnown)
        exact ⟨isNamed, kept, target, placed, found⟩
      · cases holds.symm.trans unheld
    · obtain ⟨pending, gone⟩ := others other touched
      obtain ⟨isOther, kept, path, placedOther, found⟩ := stands.held (pending ▸ holds)
      refine ⟨isOther, mt gone.mp kept, path, placedOther, ?_⟩
      rw [same path (apart isOther placedOther touched), found]
  case gone =>
    intro other member
    rw [root_eq]
    by_cases touched : other = file
    · subst touched
      rcases this with ⟨-, -, kept, -⟩ | ⟨-, -, missing⟩
      · exact absurd member kept
      · exact ⟨isNamed, target, placed, missing⟩
    · have before := (others other touched).2.mp member
      obtain ⟨isOther, path, placedOther, missing⟩ := stands.gone before
      exact ⟨isOther, path, placedOther,
        (same path (apart isOther placedOther touched)).trans missing⟩
  case kept =>
    intro path untouched
    rw [root_eq] at untouched
    have elsewhere : path ≠ target := by
      rintro rfl
      obtain ⟨unheld, kept⟩ := untouched file isNamed placed
      rcases this with ⟨text, holds, -⟩ | ⟨-, gone, -⟩
      · cases holds.symm.trans unheld
      · exact kept gone
    rw [same path elsewhere, dry_eq]
    refine stands.kept fun other isOther placedOther => ?_
    have differs : other ≠ file := by
      rintro rfl
      exact elsewhere (Except.ok.inj (placedOther.symm.trans placed))
    obtain ⟨pending, gone⟩ := others other differs
    obtain ⟨unheld, kept⟩ := untouched other isOther placedOther
    exact ⟨pending ▸ unheld, mt gone.mpr kept⟩

/-- A write that the real disk takes is one that the dry project holds back. -/
theorem write (stands : Overlays named dry real) (isNamed : named file) {text : Text}
    (lasting : ∀ target, Path.place real.root file = .ok target → ¬ Path.IsTemporary target)
    {later : Project} (wrote : real.write file text = (.ok (), later)) :
    Overlays named (dry.write file text).2 later := by
  have written := wrote ▸ written_write stands.ready file text
  have later_deleted : later.deleted = real.deleted.filter (· != file) := by
    cases written
    rfl
  have dry_eq : (dry.write file text).2 =
      { dry.countWritten file text with pending := putPair file text dry.pending } := by
    simp [Project.write, stands.holdsBack, countWritten]
  obtain ⟨target, placed, found, others⟩ := written.files_of_done
  rw [dry_eq]
  refine stands.touch isNamed placed ?_ (written.isReal stands.ready) written.root_eq
    (fun _ => written.isFolder_of_done) (fun path other => ?_)
    (fun temporary => absurd temporary (lasting target placed)) (fun other differs => ?_)
    (.inl ⟨text, by rw [lookup_putPair, if_pos rfl], by simp [later_deleted], found⟩)
  · rw [later_deleted, ← stands.deleted_eq]
    rfl
  · -- The real disk has no temporary file before and none after.
    rcases others path other with same | ⟨temporary, gone⟩
    · exact same
    · rw [gone, stands.clean path temporary]
  · simp [lookup_putPair, later_deleted, differs]

/-- A file that is there is deleted in both. -/
theorem delete_of_present (stands : Overlays named dry real) (isNamed : named file)
    (present : real.has file = .ok true) :
    (dry.delete file).1 = .ok () ∧ (real.delete file).1 = .ok () ∧
      Overlays named (dry.delete file).2 (real.delete file).2 := by
  have dry_eq : dry.delete file = (.ok (), dry.countDeleted file) := by
    simp [Project.delete, (stands.has_eq_true_iff_dry isNamed).mpr present, stands.holdsBack,
      countDeleted]
  have removed := removed_delete stands.ready file
  cases erased : real.delete file with
  | mk result later =>
    rw [erased] at removed
    cases result with
    | error failure =>
      cases removed with
      | refused absent => exact absurd present absent
    | ok =>
      obtain ⟨kept, -⟩ := (has_eq_true_iff stands.ready).mp present
      have later_deleted : later.deleted = real.deleted ++ [file] := by
        cases removed
        simp [countDeleted, withDisk, kept]
      obtain ⟨target, placed, gone, same⟩ := removed.files_of_done
      rw [dry_eq]
      refine ⟨rfl, rfl, stands.touch isNamed placed ?_ (removed.isReal stands.ready) removed.root_eq
        (fun _ => removed.isFolder_of_done) same (fun _ => gone) (fun other differs => ?_)
        (.inr ⟨?_, by simp [later_deleted], gone⟩)⟩
      · simp [countDeleted, later_deleted, stands.deleted_eq, kept]
      · simp [countDeleted, lookup_filter_ne, later_deleted, differs]
      · simp [countDeleted, lookup_filter_ne]

theorem delete_of_absent {project : Project} (absent : project.has file ≠ .ok true) :
    (project.delete file).1 ≠ .ok () ∧ (project.delete file).2 = project := by
  unfold Project.delete
  split
  · simp
  · simp
  · exact absurd ‹_› absent

/-- Whatever comes of a delete, the dry project goes on to stand for the real one. -/
theorem delete (stands : Overlays named dry real) (isNamed : named file) :
    Overlays named (dry.delete file).2 (real.delete file).2 := by
  by_cases present : real.has file = .ok true
  · exact (stands.delete_of_present isNamed present).2.2
  · rw [(delete_of_absent present).2,
      (delete_of_absent (mt (stands.has_eq_true_iff_dry isNamed).mp present)).2]
    exact stands

/-- A file is in a folder for the dry project exactly when it is there on the real disk. -/
theorem isListed_iff (stands : Overlays named dry real) {folder : Text} {path : Path}
    (nonempty : folder ≠ []) (placed : Path.place real.root folder = .ok path)
    (below : ∀ name, Path.IsName name → named (folder ++ '/' :: name))
    (names : ∀ name, named (folder ++ '/' :: name) → '/' ∉ name → '\x00' ∉ name → Path.IsName name)
    {name : Name} (kept : folder ++ '/' :: name ∉ real.deleted) :
    ((∃ content, dry.disk.file? (path ++ [name]) = some content) ∨
        ((∃ text, dry.pending.lookup (folder ++ '/' :: name) = some text) ∧ '/' ∉ name)) ↔
      ∃ content, real.disk.file? (path ++ [name]) = some content := by
  have there (isName : Path.IsName name) := Path.place_append_name nonempty isName placed
  have onReal {text : Text} (held : dry.pending.lookup (folder ++ '/' :: name) = some text)
      (isName : Path.IsName name) : ∃ content, real.disk.file? (path ++ [name]) = some content := by
    obtain ⟨-, -, target, placedFile, found⟩ := stands.held held
    obtain rfl := Except.ok.inj (placedFile.symm.trans (there isName))
    exact ⟨_, found⟩
  have sameFile (isName : Path.IsName name)
      (unheld : dry.pending.lookup (folder ++ '/' :: name) = none) :
      real.disk.file? (path ++ [name]) = dry.disk.file? (path ++ [name]) :=
    stands.file?_eq (below name isName) unheld kept (there isName)
  have isName_of_found {disk : Disk} (tree : disk.IsTree) {content : Bytes}
      (found : disk.file? (path ++ [name]) = some content) : Path.IsName name :=
    (tree.inFolder path name (by simp [Disk.file?_eq_some_iff.mp found])).2.1
  cases held : dry.pending.lookup (folder ++ '/' :: name) with
  | none =>
    constructor
    · rintro (⟨content, found⟩ | ⟨⟨text, none⟩, -⟩)
      · exact ⟨content, (sameFile (isName_of_found stands.tree found) held).trans found⟩
      · cases none
    · rintro ⟨content, found⟩
      exact .inl ⟨content, (sameFile (isName_of_found stands.ready.tree found) held) ▸ found⟩
  | some text =>
    constructor
    · rintro (⟨content, found⟩ | ⟨-, noSlash⟩)
      · exact onReal held (isName_of_found stands.tree found)
      · obtain ⟨isNamed, -, target, placedFile, -⟩ := stands.held held
        exact onReal held (names name isNamed noSlash (Path.noNul_of_place noSlash placedFile))
    · rintro ⟨content, found⟩
      exact .inr ⟨⟨text, rfl⟩, (isName_of_found stands.ready.tree found).noSlash⟩

/-- A folder is listed alike, unless the real disk gives no answer. -/
theorem list_eq (stands : Overlays named dry real) {folder : Text} {c : Char}
    (ends : folder.getLast? = some c) (slash : c ≠ '/')
    (below : ∀ name, Path.IsName name → named (folder ++ '/' :: name))
    (names : ∀ name, named (folder ++ '/' :: name) → '/' ∉ name → '\x00' ∉ name → Path.IsName name)
    (answers : ∀ fault path, real.list folder ≠ .error (.disk fault path none)) :
    dry.list folder = real.list folder := by
  have nonempty : folder ≠ [] := by
    rintro rfl
    cases ends
  cases placed : Path.place real.root folder with
  | error failure =>
    rw [Project.list, Project.list, locate_eq_place stands.tree.linkFree,
      locate_eq_place stands.ready.tree.linkFree, stands.root_eq, placed]
    rfl
  | ok path =>
    cases known : real.disk.isFolder path with
    | error fault =>
      refine absurd ?_ (answers fault path)
      rw [Project.list, locate_eq_place stands.ready.tree.linkFree, placed]
      simp [bind, Except.bind, known, onDisk]
    | ok answer =>
      obtain ⟨knownDry, askedDry⟩ : ∃ answer, dry.disk.isFolder path = .ok answer :=
        Disk.exists_leadsTo_of_folders stands.tree.linkFree stands.ready.tree.linkFree
          stands.folders (Path.isPlain_of_place placed) known
      rw [Project.list_eq stands.tree (stands.root_eq ▸ placed) askedDry,
        Project.list_eq stands.ready.tree placed known, stands.deleted_eq, stands.ready.direct,
        frontOf_eq ends slash]
      refine congrArg Except.ok (Text.sorted_eq_of_mem_iff ((nodup_eraseDups _).filter _)
        ((nodup_eraseDups _).filter _) fun name => ?_)
      simp only [List.mem_filter, List.mem_eraseDups, List.mem_append, Disk.mem_fileNames_iff,
        mem_directNames_iff, mem_keys_iff, List.map_nil, List.not_mem_nil, false_and, or_false,
        List.append_assoc, List.singleton_append]
      refine and_congr_left fun remains => stands.isListed_iff nonempty placed below names ?_
      simpa [List.mem_filterMap, Text.after?_eq_some_iff] using remains

end Overlays

end Project

end ReadOnlyViews
