import ReadOnlyViews.Proofs.Overlay

/-!
Calls to a dry project.  Whatever row of questions, writes and deletes a real project would carry
out, a dry one on the same tree answers each of them as the real one does, and its disk stays as it
was.
-/

namespace ReadOnlyViews

namespace Path

/-- A written path without empty segments and dots. -/
def IsSpelledOut (file : Text) : Prop :=
  ∀ segment ∈ segments file, segment ≠ [] ∧ segment ≠ "." ∧ segment ≠ ".."

/-- A path that is spelled out and has no temporary name in it. -/
def IsCanonical (file : Text) : Prop :=
  IsSpelledOut file ∧ ∀ segment ∈ segments file, ¬ ".viewbot-tmp".toList <:+ segment

/-- No name of the path is longer than the disk allows. -/
def HasShortNames (names : List Name) : Prop := ∀ name ∈ names, Utf8.size name ≤ Disk.nameLimit

instance (file : Text) : Decidable (IsSpelledOut file) :=
  inferInstanceAs (Decidable (∀ segment ∈ segments file, _))

instance (file : Text) : Decidable (IsCanonical file) :=
  inferInstanceAs (Decidable (_ ∧ ∀ segment ∈ segments file, _))

instance (names : List Name) : Decidable (HasShortNames names) :=
  inferInstanceAs (Decidable (∀ name ∈ names, _))

private theorem segments_append_name (folder : Text) {name : Name} (noSlash : '/' ∉ name) :
    segments (folder ++ '/' :: name) = segments folder ++ [name] := by
  rw [segments, Text.pieces_append_mark, Text.pieces_of_notMem noSlash, segments]

theorem isSpelledOut_append_name_iff {folder : Text} {name : Name} (noSlash : '/' ∉ name) :
    IsSpelledOut (folder ++ '/' :: name) ↔
      IsSpelledOut folder ∧ name ≠ [] ∧ name ≠ "." ∧ name ≠ ".." := by
  rw [IsSpelledOut, segments_append_name folder noSlash, List.forall_mem_append,
    List.forall_mem_singleton, IsSpelledOut]

/-- A path of plain names leads straight down. -/
theorem plainReading_of_isPlain {folder : Path} {raw : Text} (plain : IsPlain (segments raw)) :
    plainReading folder raw = .ok (folder ++ segments raw) := by
  have relative : isAbsolute raw = false := by
    cases raw with
    | nil => rfl
    | cons c rest =>
      by_cases slash : c = '/'
      · subst slash
        exact absurd rfl (plain [] (by simp [segments, Text.pieces])).nonempty
      · simpa [isAbsolute] using slash
  have clean : ¬ (segments raw).any (·.contains '\x00') = true := by
    intro nul
    obtain ⟨name, member, inName⟩ := List.any_eq_true.mp nul
    exact (plain name member).noNul (List.contains_iff_mem.mp inName)
  rw [plainReading, if_neg clean, relative, foldl_step_of_isPlain plain]
  rfl

/-- A path that is spelled out leads straight down from the root. -/
theorem eq_append_segments_of_place {root target : Path} (plain : IsPlain root) {file : Text}
    (spelled : IsSpelledOut file) (placed : place root file = .ok target) :
    target = root ++ segments file := by
  obtain ⟨base, -, based, read, -⟩ := plainReading_of_place placed
  obtain rfl : root = base := Except.ok.inj ((plainReading_text plain).symm.trans based)
  have names : IsPlain (segments file) := by
    intro name member
    obtain ⟨nonempty, notDot, notDots⟩ := spelled name member
    refine ⟨nonempty, notDot, notDots, Text.notMem_of_mem_pieces member, fun nul => ?_⟩
    unfold plainReading at read
    split at read
    case isTrue => cases read
    case isFalse clean =>
      exact clean (List.any_eq_true.mpr ⟨name, member, List.contains_iff_mem.mpr nul⟩)
  exact (Except.ok.inj ((plainReading_of_isPlain names).symm.trans read)).symm

theorem tellsApart_isSpelledOut {root : Path} (plain : IsPlain root) :
    TellsApart root IsSpelledOut := by
  intro file other path spelled spelledOther placed placedOther
  have same : segments file = segments other :=
    List.append_cancel_left ((eq_append_segments_of_place plain spelled placed).symm.trans
      (eq_append_segments_of_place plain spelledOther placedOther))
  rw [← Text.join_pieces '/' file, ← Text.join_pieces '/' other]
  exact congrArg _ same

private theorem not_isTemporary_of_place {root target : Path} (plain : IsPlain root) {file : Text}
    (canonical : IsCanonical file) (placed : place root file = .ok target) :
    ¬ IsTemporary target := by
  rintro ⟨folder, start, there⟩
  have down := there.symm.trans (eq_append_segments_of_place plain canonical.1 placed)
  obtain ⟨front, last, cut⟩ : ∃ front last, segments file = front ++ [last] :=
    ⟨_, _, (List.dropLast_append_getLast (Text.pieces_ne_nil '/' file)).symm⟩
  rw [cut, ← List.append_assoc] at down
  obtain rfl : start ++ ".viewbot-tmp".toList = last := by simpa using congrArg List.getLast? down
  exact canonical.2 (start ++ ".viewbot-tmp".toList) (by simp [cut]) (List.suffix_append _ _)

private theorem place_ne_disk (root : Path) (file : Text) (fault : DiskFault) (path : Path)
    (onto : Option Path) : place root file ≠ .error (.disk fault path onto) := by
  have read (folder : Path) (raw : Text) :
      plainReading folder raw ≠ .error (.disk fault path onto) := by
    unfold plainReading
    split <;> simp
  unfold place
  cases based : plainReading [] root.text with
  | error failure => exact fun failed => read [] root.text (based.trans failed)
  | ok base =>
    cases found : plainReading base file with
    | error failure =>
      intro failed
      simp only [bind, Except.bind, found] at failed
      exact read base file (found.trans failed)
    | ok target =>
      simp only [bind, Except.bind, found]
      split <;> simp

end Path

namespace Disk

theorem IsTree.isPlain_of_present {disk : Disk} (tree : disk.IsTree) {path : Path}
    (present : disk.node? path ≠ none) : Path.IsPlain path ∧ Path.HasShortNames path := by
  induction path using List.reverseRecOn with
  | nil => simp [Path.IsPlain, Path.HasShortNames]
  | append_singleton path name ih =>
    obtain ⟨above, isName, short⟩ := tree.inFolder path name present
    obtain ⟨plain, shorts⟩ := ih (by simp [above])
    refine ⟨plain.append (by simpa [Path.IsPlain] using isName), fun other member => ?_⟩
    rcases List.mem_append.mp member with inPath | last
    · exact shorts other inPath
    · exact List.mem_singleton.mp last ▸ short

private theorem stride_ne_nameTooLong {disk : Disk} (linkFree : disk.LinkFree) {here : Path}
    {names : List Name} (plain : Path.IsPlain names) (short : Path.HasShortNames names) :
    disk.stride .existing here names ≠ .refused .nameTooLong := by
  induction names generalizing here with
  | nil => simp [stride]
  | cons name rest ih =>
    have goesOn := @ih (here ++ [name]) (fun other member => plain other (by simp [member]))
      (fun other member => short other (by simp [member]))
    have fits : ¬ Utf8.size name > nameLimit := Nat.not_lt.mpr (short name (by simp))
    rw [stride_cons linkFree .existing here (plain name (by simp)) rest, if_neg fits]
    split
    · simp
    · split
      · simp
      · exact goesOn

/-- A question about a path with short names is answered. -/
theorem leadsTo_ne_error {disk : Disk} (linkFree : disk.LinkFree) {path : Path}
    (plain : Path.IsPlain path) (short : Path.HasShortNames path) (test : Node → Bool)
    (fault : DiskFault) : disk.leadsTo test path ≠ .error fault := fun refused =>
  stride_ne_nameTooLong linkFree plain short ((leadsTo_eq_error_iff linkFree).mp refused).2

end Disk

namespace Project

/-- What can be asked of a project. -/
inductive Call where
  | has (file : Text)
  | read (file : Text)
  | write (file text : Text)
  | delete (file : Text)
  | list (folder : Text)

/-- What a call that succeeds returns. -/
inductive Answer where
  | flag (value : Bool)
  | text (value : Text)
  | done
  | names (value : List Name)
  deriving DecidableEq

/-- The path that a call is about. -/
def Call.path : Call → Text
  | has file | read file | write file _ | delete file | list file => file

/-- The call asks what is at its path, and its path has short names then. -/
def Call.AsksShortNames : Call → Prop
  | has file | list file => Path.HasShortNames (Path.segments file)
  | read _ | write _ _ | delete _ => True

instance : DecidablePred Call.AsksShortNames
  | .has file | .list file => inferInstanceAs (Decidable (Path.HasShortNames (Path.segments file)))
  | .read _ | .write _ _ | .delete _ => inferInstanceAs (Decidable True)

/-- Carries out one call. -/
def perform (project : Project) : Call → Except Failure Answer × Project
  | .has file => ((project.has file).map .flag, project)
  | .read file => ((project.read file).map .text, project)
  | .write file text =>
    ((project.write file text).1.map fun _ => .done, (project.write file text).2)
  | .delete file => ((project.delete file).1.map fun _ => .done, (project.delete file).2)
  | .list folder => ((project.list folder).map .names, project)

/-- Carries out calls in a row; a call that fails does not end it. -/
def performAll (project : Project) : List Call → List (Except Failure Answer) × Project
  | [] => ([], project)
  | call :: calls =>
    let rest := performAll (project.perform call).2 calls
    ((project.perform call).1 :: rest.1, rest.2)

/-- The project carries the call out if it is a write. -/
def Takes (project : Project) : Call → Prop
  | .write file text => (project.write file text).1 = .ok ()
  | .has _ | .read _ | .delete _ | .list _ => True

/-- Every write among the calls is carried out. -/
def TakesWrites (project : Project) : List Call → Prop
  | [] => True
  | call :: calls => project.Takes call ∧ TakesWrites (project.perform call).2 calls

instance (project : Project) : DecidablePred project.Takes
  | .write file text => inferInstanceAs (Decidable ((project.write file text).1 = .ok ()))
  | .has _ | .read _ | .delete _ | .list _ => inferInstanceAs (Decidable True)

instance decidableTakesWrites (project : Project) :
    (calls : List Call) → Decidable (project.TakesWrites calls)
  | [] => inferInstanceAs (Decidable True)
  | call :: calls =>
    have := decidableTakesWrites (project.perform call).2 calls
    inferInstanceAs (Decidable (project.Takes call ∧ _))

variable {dry real : Project}

section

variable (ready : real.IsReal) (plain : Path.IsPlain real.root)
  (shortRoot : Path.HasShortNames real.root) {file : Text} (spelled : Path.IsSpelledOut file)
  (short : Path.HasShortNames (Path.segments file))

include ready plain shortRoot spelled short

/-- What a path with short names leads to is told. -/
theorem leadsTo_ne_error_of_place {target : Path} (placed : Path.place real.root file = .ok target)
    (test : Node → Bool) (fault : DiskFault) : real.disk.leadsTo test target ≠ .error fault := by
  have shortTarget : Path.HasShortNames target := by
    rw [Path.eq_append_segments_of_place plain spelled placed]
    exact List.forall_mem_append.mpr ⟨shortRoot, short⟩
  exact Disk.leadsTo_ne_error ready.tree.linkFree (Path.isPlain_of_place placed) shortTarget test
    fault

theorem has_ne_disk (fault : DiskFault) (path : Path) :
    real.has file ≠ .error (.disk fault path none) := by
  by_cases gone : file ∈ real.deleted
  · simp [has, gone]
  rw [has_of_real ready gone]
  cases placed : Path.place real.root file with
  | error failure =>
    intro failed
    cases failed
    exact Path.place_ne_disk _ _ _ _ _ placed
  | ok target =>
    cases asked : real.disk.isFile target with
    | error other =>
      exact absurd asked
        (leadsTo_ne_error_of_place ready plain shortRoot spelled short placed _ other)
    | ok answer => simp [bind, Except.bind, asked, onDisk]

private theorem list_ne_disk (fault : DiskFault) (path : Path) :
    real.list file ≠ .error (.disk fault path none) := by
  cases placed : Path.place real.root file with
  | error failure =>
    rw [list, locate_eq_place ready.tree.linkFree, placed]
    intro failed
    cases failed
    exact Path.place_ne_disk _ _ _ _ _ placed
  | ok target =>
    cases asked : real.disk.isFolder target with
    | error other =>
      exact absurd asked
        (leadsTo_ne_error_of_place ready plain shortRoot spelled short placed _ other)
    | ok answer => simp [list_eq ready.tree placed asked]

end

/-- A canonical folder is listed alike. -/
theorem Overlays.list_eq_of_spelledOut (stands : Overlays Path.IsSpelledOut dry real)
    {folder : Text} (spelled : Path.IsSpelledOut folder)
    (answers : ∀ fault path, real.list folder ≠ .error (.disk fault path none)) :
    dry.list folder = real.list folder := by
  have nonempty : folder ≠ [] := by
    rintro rfl
    exact (spelled [] (by simp [Path.segments, Text.pieces])).1 rfl
  obtain ⟨front, c, cut⟩ := List.eq_nil_or_concat folder |>.resolve_left nonempty
  have slash : c ≠ '/' := by
    rintro rfl
    refine (spelled [] ?_).1 rfl
    rw [cut, List.concat_eq_append, Path.segments, Text.pieces_append_mark]
    simp [Text.pieces]
  refine stands.list_eq (c := c) (by simp [cut]) slash (fun name isName => ?_)
    (fun name isNamed noSlash noNul => ?_) answers
  · exact (Path.isSpelledOut_append_name_iff isName.noSlash).mpr
      ⟨spelled, isName.nonempty, isName.notDot, isName.notDots⟩
  · obtain ⟨-, nonempty, notDot, notDots⟩ := (Path.isSpelledOut_append_name_iff noSlash).mp isNamed
    exact ⟨nonempty, notDot, notDots, noSlash, noNul⟩

private theorem toOption_map_eq_of_ok_iff {α β : Type} {first second : Except Failure α} (value : α → β)
    (same : ∀ result, first = .ok result ↔ second = .ok result) :
    (first.map value).toOption = (second.map value).toOption := by
  cases first with
  | ok result => rw [(same result).mp rfl]
  | error failure =>
    cases second with
    | ok result => cases (same result).mpr rfl
    | error other => rfl

theorem disk_write_of_dry {project : Project} (dry : project.dryRun = true) {file text : Text} :
    (project.write file text).2.disk = project.disk := by
  simp [write, dry]

theorem disk_delete_of_dry {project : Project} (dry : project.dryRun = true) {file : Text} :
    (project.delete file).2.disk = project.disk := by
  unfold delete
  split
  · rfl
  · rfl
  · simp [dry]

/-- One call is answered alike, and the dry project goes on to stand for the real one. -/
theorem Overlays.perform (stands : Overlays Path.IsSpelledOut dry real)
    (plain : Path.IsPlain real.root) (shortRoot : Path.HasShortNames real.root) {call : Call}
    (canonical : Path.IsCanonical call.path) (short : call.AsksShortNames)
    (taken : real.Takes call) :
    (dry.perform call).1.toOption = (real.perform call).1.toOption ∧
      Overlays Path.IsSpelledOut (dry.perform call).2 (real.perform call).2 ∧
      (dry.perform call).2.disk = dry.disk ∧ (real.perform call).2.root = real.root := by
  cases call with
  | has file =>
    have spelled : Path.IsSpelledOut file := canonical.1
    have same := stands.has_eq spelled (has_ne_disk stands.ready plain shortRoot spelled short)
    exact ⟨by simp only [Project.perform, same], stands, rfl, rfl⟩
  | read file =>
    refine ⟨toOption_map_eq_of_ok_iff _ fun text => ?_, stands, rfl, rfl⟩
    exact stands.read_eq_ok_iff_dry canonical.1
  | list folder =>
    have spelled : Path.IsSpelledOut folder := canonical.1
    have same := stands.list_eq_of_spelledOut spelled
      (list_ne_disk stands.ready plain shortRoot spelled short)
    exact ⟨by simp only [Project.perform, same], stands, rfl, rfl⟩
  | write file text =>
    have lasting target (placed : Path.place real.root file = .ok target) :=
      Path.not_isTemporary_of_place plain canonical placed
    obtain ⟨later, wrote⟩ : ∃ later, real.write file text = (.ok (), later) :=
      ⟨_, Prod.ext taken rfl⟩
    have written := wrote ▸ written_write stands.ready file text
    simp only [Project.perform, wrote, write_of_dry stands.holdsBack, true_and]
    exact ⟨stands.write canonical.1 lasting wrote, disk_write_of_dry stands.holdsBack,
      written.root_eq⟩
  | delete file =>
    have spelled : Path.IsSpelledOut file := canonical.1
    have both : (dry.delete file).1 = .ok () ↔ (real.delete file).1 = .ok () := by
      by_cases present : real.has file = .ok true
      · obtain ⟨ok, okReal, -⟩ := stands.delete_of_present spelled present
        rw [ok, okReal]
      · have absent := mt (stands.has_eq_true_iff_dry spelled).mp present
        simp [(Overlays.delete_of_absent present).1, (Overlays.delete_of_absent absent).1]
    exact ⟨toOption_map_eq_of_ok_iff _ fun _ => both, stands.delete spelled,
      disk_delete_of_dry stands.holdsBack, (removed_delete stands.ready file).root_eq⟩

/-- A row of calls is answered alike, and the disk of the dry project stays as it was. -/
theorem Overlays.performAll (stands : Overlays Path.IsSpelledOut dry real)
    (plain : Path.IsPlain real.root) (shortRoot : Path.HasShortNames real.root)
    {calls : List Call} (canonical : ∀ call ∈ calls, Path.IsCanonical call.path)
    (short : ∀ call ∈ calls, call.AsksShortNames) (taken : real.TakesWrites calls) :
    (dry.performAll calls).1.map Except.toOption = (real.performAll calls).1.map Except.toOption ∧
      (dry.performAll calls).2.disk = dry.disk := by
  induction calls generalizing dry real with
  | nil => exact ⟨rfl, rfl⟩
  | cons call calls ih =>
    obtain ⟨answer, next, disk_eq, root_eq⟩ :=
      stands.perform plain shortRoot (canonical call (by simp)) (short call (by simp)) taken.1
    obtain ⟨answers, rest⟩ := ih next (root_eq ▸ plain) (root_eq ▸ shortRoot)
      (fun other member => canonical other (by simp [member]))
      (fun other member => short other (by simp [member])) taken.2
    exact ⟨by simp only [Project.performAll, List.map_cons, answer, answers], rest.trans disk_eq⟩

/-- On a tree without temporary files, a dry project answers every call of a row as the real project
does that takes the writes among them, and its disk stays as it was.  The calls have canonical
paths, and those that ask what is somewhere have short names. -/
theorem dry_calls_agree {disk : Disk} {root : Path} (tree : disk.IsTree)
    (clean : disk.NoTemporary) (rooted : disk.node? root = some .folder) {calls : List Call}
    (canonical : ∀ call ∈ calls, Path.IsCanonical call.path)
    (short : ∀ call ∈ calls, call.AsksShortNames)
    (taken : TakesWrites { root, disk } calls) :
    (performAll { root, disk, dryRun := true } calls).1.map Except.toOption =
        (performAll { root, disk } calls).1.map Except.toOption ∧
      (performAll { root, disk, dryRun := true } calls).2.disk = disk := by
  have present : disk.node? root ≠ none := by simp [rooted]
  obtain ⟨plain, shortRoot⟩ := tree.isPlain_of_present present
  have stands : Overlays Path.IsSpelledOut { root, disk, dryRun := true } { root, disk } :=
    overlays_of_same_disk rfl rfl ⟨rfl, rfl, tree⟩ clean rfl rfl rfl rfl
      (Path.tellsApart_isSpelledOut plain)
  exact stands.performAll plain shortRoot canonical short taken

/-- A project in `p` with one file, `d/x`. -/
def smallTree : Disk where
  entries := [(["p".toList], .folder), (["p".toList, "d".toList], .folder),
    (["p".toList, "d".toList, "x".toList], .file (Utf8.encode "old".toList))]

/-- A file is deleted and written again, another is written to a folder that is not there yet, and a
third one is asked for in vain. -/
def smallCalls : List Call :=
  [.delete "d/x".toList, .has "d/x".toList, .list "d".toList, .write "d/x".toList "new".toList,
    .write "n/y".toList "text".toList, .read "d/x".toList, .list "n".toList, .delete "n/y".toList,
    .list "n".toList, .read "n/y".toList]

theorem dry_calls_agree_in_smallTree :
    (performAll { root := ["p".toList], disk := smallTree, dryRun := true } smallCalls).1.map
          Except.toOption =
        [some .done, some (.flag false), some (.names []), some .done, some .done,
          some (.text "new".toList), some (.names ["y".toList]), some .done, some (.names []),
          none] ∧
      (performAll { root := ["p".toList], disk := smallTree, dryRun := true } smallCalls).2.disk =
        smallTree := by
  have tree : smallTree.IsTree := Disk.isTree_of_entries (by decide +kernel)
  have clean : smallTree.NoTemporary := Disk.noTemporary_of_entries (by decide +kernel)
  have canonical : ∀ call ∈ smallCalls, Path.IsCanonical call.path := by decide +kernel
  have short : ∀ call ∈ smallCalls, call.AsksShortNames := by decide +kernel
  have taken : TakesWrites { root := ["p".toList], disk := smallTree } smallCalls := by
    decide +kernel
  obtain ⟨answers, kept⟩ := dry_calls_agree tree clean (by decide +kernel) canonical short taken
  exact ⟨answers.trans (by decide +kernel), kept⟩

/-- A project in `p` with a temporary file that an earlier write left behind. -/
def leftoverTree : Disk where
  entries := [(["p".toList], .folder), (["p".toList, "d".toList], .folder),
    (["p".toList, "d".toList, "a.viewbot-tmp".toList], .file [])]

/-- The file beside the temporary one is written and deleted. -/
def leftoverCalls : List Call :=
  [.write "d/a".toList [], .delete "d/a".toList, .list "d".toList]

/-- A name that is longer than the disk allows is asked for in a folder that a write makes. -/
def longCalls : List Call :=
  [.write "n/a".toList [], .has ("n/".toList ++ List.replicate 256 'n')]

/-- Both conditions are needed.  A real write takes a leftover temporary file away, which a dry
project goes on to list; and a name that is too long is refused by a disk that has the folder, while
a dry project without the folder finds no such file. -/
theorem dry_calls_differ :
    leftoverTree.IsTree ∧ smallTree.IsTree ∧
      (∀ call ∈ leftoverCalls ++ longCalls, Path.IsCanonical call.path) ∧
      TakesWrites { root := ["p".toList], disk := leftoverTree } leftoverCalls ∧
      TakesWrites { root := ["p".toList], disk := smallTree } longCalls ∧
      (performAll { root := ["p".toList], disk := leftoverTree } leftoverCalls).1.map
          Except.toOption = [some .done, some .done, some (.names [])] ∧
      (performAll { root := ["p".toList], disk := leftoverTree, dryRun := true }
          leftoverCalls).1.map Except.toOption =
        [some .done, some .done, some (.names ["a.viewbot-tmp".toList])] ∧
      (performAll { root := ["p".toList], disk := smallTree } longCalls).1.map Except.toOption =
        [some .done, none] ∧
      (performAll { root := ["p".toList], disk := smallTree, dryRun := true } longCalls).1.map
          Except.toOption = [some .done, some (.flag false)] :=
  ⟨Disk.isTree_of_entries (by decide +kernel), Disk.isTree_of_entries (by decide +kernel),
    by decide +kernel, by decide +kernel, by decide +kernel, by decide +kernel, by decide +kernel,
    by decide +kernel, by decide +kernel⟩

end Project

end ReadOnlyViews
