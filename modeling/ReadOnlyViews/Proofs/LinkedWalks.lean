import ReadOnlyViews.Proofs.Tree

/-!
Walks on a disk that has links.  A walk along some names and then further ones is a walk along the
first, which ends in a folder with some links left to follow, and from there along the others.  Where
a walk ends in a folder it passes no file and no link that leads to one, so what is put in such a
place does not turn it aside.
-/

namespace ReadOnlyViews.Disk

variable {disk later : Disk} {links left : Nat} {here there : Path} {names rest : List Name}

/-! ## One name -/

/-- Where the names of a link's target start. -/
def aimStart (here : Path) (aim : Text) : Path := if Path.isAbsolute aim then [] else here

/-- A name that leads one step down. -/
structure StepsDown (name : Name) : Prop where
  notDot : ¬ (name = [] ∨ name = ".")
  notDots : name ≠ ".."
  short : Utf8.size name ≤ nameLimit

section Strides

variable {last : Last}

private theorem walkFrom_of_arrived (arrived : disk.stride last here names = .arrived there) :
    disk.walkFrom last links here names = .ok there := by
  rw [walkFrom.eq_def]
  simp only [arrived]

private theorem walkFrom_of_refused {fault : DiskFault} (refused : disk.stride last here names = .refused fault) :
    disk.walkFrom last links here names = .error fault := by
  rw [walkFrom.eq_def]
  simp only [refused]

private theorem walkFrom_of_link (link : disk.stride last here names = .link there rest) :
    disk.walkFrom last 0 here names = .error .tooManyLinks ∧
      disk.walkFrom last (links + 1) here names = disk.walkFrom last links there rest := by
  rw [walkFrom.eq_def, walkFrom.eq_def disk last (links + 1)]
  simp only [link, and_self]

private theorem walkFrom_of_stride (same : disk.stride last here names = disk.stride last there rest) :
    disk.walkFrom last links here names = disk.walkFrom last links there rest := by
  rw [walkFrom.eq_def, walkFrom.eq_def disk last links there]
  simp only [same]

@[simp] theorem walkFrom_nil : disk.walkFrom last links here [] = .ok here :=
  walkFrom_of_arrived rfl

end Strides

section Steps

variable {last : Last} {name : Name} (folder : disk.node? here = some .folder)

private theorem walkFrom_notFolder (notFolder : disk.node? here ≠ some .folder) :
    disk.walkFrom last links here (name :: rest) = .error .notFolder :=
  walkFrom_of_refused (by rw [stride, if_pos notFolder])

include folder

private theorem walkFrom_dot (dot : name = [] ∨ name = ".") :
    disk.walkFrom last links here (name :: rest) = disk.walkFrom last links here rest :=
  walkFrom_of_stride (by rw [stride, if_neg (not_not_intro folder), if_pos dot])

private theorem walkFrom_dots (notDot : ¬ (name = [] ∨ name = ".")) (dots : name = "..") :
    disk.walkFrom last links here (name :: rest) = disk.walkFrom last links here.dropLast rest :=
  walkFrom_of_stride (by rw [stride, if_neg (not_not_intro folder), if_neg notDot, if_pos dots])

theorem walkFrom_tooLong (notDot : ¬ (name = [] ∨ name = ".")) (notDots : name ≠ "..")
    (long : nameLimit < Utf8.size name) :
    disk.walkFrom last links here (name :: rest) = .error .nameTooLong :=
  walkFrom_of_refused
    (by rw [stride, if_neg (not_not_intro folder), if_neg notDot, if_neg notDots, if_pos long])

variable (down : StepsDown name)

include down

theorem walkFrom_missing (missing : disk.node? (here ++ [name]) = none) :
    disk.walkFrom last links here (name :: rest) =
      if rest = [] ∧ last ≠ .existing then .ok (here ++ [name]) else .error .noSuchEntry := by
  have step : disk.stride last here (name :: rest) =
      if rest = [] ∧ last ≠ .existing then .arrived (here ++ [name]) else .refused .noSuchEntry := by
    rw [stride, if_neg (not_not_intro folder), if_neg down.notDot, if_neg down.notDots,
      if_neg (Nat.not_lt.mpr down.short)]
    simp only [missing]
  by_cases ends : rest = [] ∧ last ≠ .existing
  · rw [if_pos ends] at step ⊢
    exact walkFrom_of_arrived step
  · rw [if_neg ends] at step ⊢
    exact walkFrom_of_refused step

theorem walkFrom_entry {node : Node} (found : disk.node? (here ++ [name]) = some node)
    (noLink : ∀ aim, node ≠ .link aim) :
    disk.walkFrom last links here (name :: rest) = disk.walkFrom last links (here ++ [name]) rest := by
  refine walkFrom_of_stride ?_
  rw [stride, if_neg (not_not_intro folder), if_neg down.notDot, if_neg down.notDots,
    if_neg (Nat.not_lt.mpr down.short)]
  cases node with
  | link aim => exact absurd rfl (noLink aim)
  | file content => simp only [found]
  | folder => simp only [found]

variable {aim : Text} (found : disk.node? (here ++ [name]) = some (.link aim))

include found

theorem walkFrom_linkEntry : disk.walkFrom .entry links here [name] = .ok (here ++ [name]) := by
  refine walkFrom_of_arrived ?_
  rw [stride, if_neg (not_not_intro folder), if_neg down.notDot, if_neg down.notDots,
    if_neg (Nat.not_lt.mpr down.short)]
  simp [found]

private theorem walkFrom_link (follows : ¬ (rest = [] ∧ last = .entry)) :
    disk.walkFrom last 0 here (name :: rest) = .error .tooManyLinks ∧
      disk.walkFrom last (links + 1) here (name :: rest) =
        disk.walkFrom last links (aimStart here aim) (Path.segments aim ++ rest) := by
  refine walkFrom_of_link ?_
  rw [stride, if_neg (not_not_intro folder), if_neg down.notDot, if_neg down.notDots,
    if_neg (Nat.not_lt.mpr down.short)]
  simp only [found, if_neg follows]
  rfl

end Steps

/-- How a walk that arrives takes its first name. -/
inductive Stepped (disk : Disk) (last : Last) (links : Nat) (here : Path) (name : Name) (rest : List Name)
    (location : Path) : Prop where
  | stay (folder : disk.node? here = some .folder) (dot : name = [] ∨ name = ".")
      (further : disk.walkFrom last links here rest = .ok location)
  | up (folder : disk.node? here = some .folder) (notDot : ¬ (name = [] ∨ name = ".")) (dots : name = "..")
      (further : disk.walkFrom last links here.dropLast rest = .ok location)
  | down {node : Node} (folder : disk.node? here = some .folder) (down : StepsDown name)
      (found : disk.node? (here ++ [name]) = some node) (noLink : ∀ aim, node ≠ .link aim)
      (further : disk.walkFrom last links (here ++ [name]) rest = .ok location)
  | follow {aim : Text} {fewer : Nat} (folder : disk.node? here = some .folder) (down : StepsDown name)
      (found : disk.node? (here ++ [name]) = some (.link aim)) (counted : links = fewer + 1)
      (further : disk.walkFrom last fewer (aimStart here aim) (Path.segments aim ++ rest) = .ok location)
  | ends (folder : disk.node? here = some .folder) (down : StepsDown name) (isLast : rest = [])
      (lax : last ≠ .existing) (there : location = here ++ [name])

theorem stepped_of_walkFrom {last : Last} {name : Name} {location : Path}
    (walked : disk.walkFrom last links here (name :: rest) = .ok location) :
    disk.Stepped last links here name rest location := by
  by_cases folder : disk.node? here = some .folder
  case neg =>
    rw [walkFrom_notFolder folder] at walked
    cases walked
  by_cases dot : name = [] ∨ name = "."
  · exact .stay folder dot (walkFrom_dot folder dot ▸ walked)
  by_cases dots : name = ".."
  · exact .up folder dot dots (walkFrom_dots folder dot dots ▸ walked)
  by_cases short : Utf8.size name ≤ nameLimit
  case neg =>
    rw [walkFrom_tooLong folder dot dots (Nat.lt_of_not_le short)] at walked
    cases walked
  have down : StepsDown name := ⟨dot, dots, short⟩
  cases found : disk.node? (here ++ [name]) with
  | none =>
    rw [walkFrom_missing folder down found] at walked
    split at walked
    · next ends => exact .ends folder down ends.1 ends.2 (Except.ok.inj walked).symm
    · cases walked
  | some node =>
    by_cases isLink : ∃ aim, node = .link aim
    · obtain ⟨aim, rfl⟩ := isLink
      by_cases ends : rest = [] ∧ last = .entry
      · obtain ⟨rfl, rfl⟩ := ends
        rw [walkFrom_linkEntry folder down found] at walked
        exact .ends folder down rfl (by simp) (Except.ok.inj walked).symm
      · cases links with
        | zero =>
          rw [(@walkFrom_link disk 0 _ _ _ _ folder down _ found ends).1] at walked
          cases walked
        | succ fewer => exact .follow folder down found rfl ((walkFrom_link folder down found ends).2 ▸ walked)
    · have noLink : ∀ aim, node ≠ .link aim := fun aim same => isLink ⟨aim, same⟩
      exact .down folder down found noLink (walkFrom_entry folder down found noLink ▸ walked)

/-! ## Names on the way -/

/-- A walk along names with some links allowed comes to a location with some links left. -/
inductive Enters (disk : Disk) :
    (links : Nat) → (here : Path) → List Name → (left : Nat) → (there : Path) → Prop where
  | done (links : Nat) (here : Path) : Enters disk links here [] links here
  | stay {links left : Nat} {here there : Path} {name : Name} {rest : List Name}
      (folder : disk.node? here = some .folder) (dot : name = [] ∨ name = ".")
      (further : Enters disk links here rest left there) : Enters disk links here (name :: rest) left there
  | up {links left : Nat} {here there : Path} {rest : List Name} {name : Name}
      (folder : disk.node? here = some .folder) (notDot : ¬ (name = [] ∨ name = ".")) (dots : name = "..")
      (further : Enters disk links here.dropLast rest left there) : Enters disk links here (name :: rest) left there
  | down {links left : Nat} {here there : Path} {name : Name} {rest : List Name} {node : Node}
      (folder : disk.node? here = some .folder) (down : StepsDown name)
      (found : disk.node? (here ++ [name]) = some node) (noLink : ∀ aim, node ≠ .link aim)
      (further : Enters disk links (here ++ [name]) rest left there) : Enters disk links here (name :: rest) left there
  | follow {links left : Nat} {here there : Path} {name : Name} {rest : List Name} {aim : Text}
      (folder : disk.node? here = some .folder) (down : StepsDown name)
      (found : disk.node? (here ++ [name]) = some (.link aim))
      (further : Enters disk links (aimStart here aim) (Path.segments aim ++ rest) left there) :
      Enters disk (links + 1) here (name :: rest) left there

/-- What comes behind the names goes on from where they lead. -/
theorem Enters.walkFrom_append (enters : disk.Enters links here names left there) (last : Last)
    (some_ : rest ≠ []) :
    disk.walkFrom last links here (names ++ rest) = disk.walkFrom last left there rest := by
  induction enters with
  | done => rfl
  | stay folder dot _ ih => rw [List.cons_append, walkFrom_dot folder dot, ih]
  | up folder notDot dots _ ih => rw [List.cons_append, walkFrom_dots folder notDot dots, ih]
  | down folder down found noLink _ ih => rw [List.cons_append, walkFrom_entry folder down found noLink, ih]
  | follow folder down found _ ih =>
    rw [List.cons_append, (walkFrom_link folder down found (by simp [some_])).2, ← List.append_assoc, ih]

/-- Names that a walk gets past lead somewhere. -/
theorem exists_enters_of_append {last : Last} {location : Path} (some_ : rest ≠ [])
    (walked : disk.walkFrom last links here (names ++ rest) = .ok location) :
    ∃ left there, disk.Enters links here names left there := by
  -- A link brings new names but leaves fewer links to follow.
  induction links using Nat.strongRecOn generalizing here names with
  | ind links outer =>
    induction names generalizing here with
    | nil => exact ⟨links, here, .done links here⟩
    | cons name names ih =>
      rw [List.cons_append] at walked
      cases stepped_of_walkFrom walked with
      | stay folder dot further =>
        obtain ⟨left, there, enters⟩ := ih further
        exact ⟨left, there, .stay folder dot enters⟩
      | up folder notDot dots further =>
        obtain ⟨left, there, enters⟩ := ih further
        exact ⟨left, there, .up folder notDot dots enters⟩
      | down folder down found noLink further =>
        obtain ⟨left, there, enters⟩ := ih further
        exact ⟨left, there, .down folder down found noLink enters⟩
      | @follow aim fewer folder down found counted further =>
        subst counted
        rw [← List.append_assoc] at further
        obtain ⟨left, there, enters⟩ := outer fewer (Nat.lt_succ_self _) further
        exact ⟨left, there, .follow folder down found enters⟩
      | ends _ _ isLast => exact absurd (List.append_eq_nil_iff.mp isLast).2 some_

theorem exists_enters_of_existing (walked : disk.walkFrom .existing links here names = .ok there) :
    ∃ left, disk.Enters links here names left there := by
  induction links using Nat.strongRecOn generalizing here names with
  | ind links outer =>
    induction names generalizing here with
    | nil =>
      obtain rfl : here = there := by simpa using walked
      exact ⟨links, .done links here⟩
    | cons name names ih =>
      cases stepped_of_walkFrom walked with
      | stay folder dot further =>
        obtain ⟨left, enters⟩ := ih further
        exact ⟨left, .stay folder dot enters⟩
      | up folder notDot dots further =>
        obtain ⟨left, enters⟩ := ih further
        exact ⟨left, .up folder notDot dots enters⟩
      | down folder down found noLink further =>
        obtain ⟨left, enters⟩ := ih further
        exact ⟨left, .down folder down found noLink enters⟩
      | @follow aim fewer folder down found counted further =>
        subst counted
        obtain ⟨left, enters⟩ := outer fewer (Nat.lt_succ_self _) further
        exact ⟨left, .follow folder down found enters⟩
      | ends _ _ _ lax => exact absurd rfl lax

/-- A walk to a folder does without its last link followed. -/
theorem Enters.exists_entry (enters : disk.Enters links here names left there)
    (folder : disk.node? there = some .folder) :
    ∃ location, disk.walkFrom .entry links here names = .ok location ∧ (disk.node? location).isSome = true := by
  induction enters with
  | done links here => exact ⟨here, walkFrom_nil, by simp [folder]⟩
  | stay inFolder dot _ ih =>
    rw [walkFrom_dot inFolder dot]
    exact ih folder
  | up inFolder notDot dots _ ih =>
    rw [walkFrom_dots inFolder notDot dots]
    exact ih folder
  | down inFolder down found noLink _ ih =>
    rw [walkFrom_entry inFolder down found noLink]
    exact ih folder
  | @follow links left here there name rest aim inFolder down found _ ih =>
    by_cases ends : rest = []
    · subst ends
      exact ⟨here ++ [name], walkFrom_linkEntry inFolder down found, by simp [found]⟩
    · rw [(walkFrom_link inFolder down found (by simp [ends])).2]
      exact ih folder

theorem Enters.walkFrom_existing (enters : disk.Enters links here names left there) :
    disk.walkFrom .existing links here names = .ok there := by
  induction enters with
  | done => exact walkFrom_nil
  | stay folder dot _ ih => rw [walkFrom_dot folder dot, ih]
  | up folder notDot dots _ ih => rw [walkFrom_dots folder notDot dots, ih]
  | down folder down found noLink _ ih => rw [walkFrom_entry folder down found noLink, ih]
  | follow folder down found _ ih => rw [(walkFrom_link folder down found (by simp)).2, ih]

/-- Names in a row lead to a place between them. -/
theorem Enters.split {more : List Name} (enters : disk.Enters links here (names ++ more) left there) :
    ∃ between middle, disk.Enters links here names between middle ∧ disk.Enters between middle more left there := by
  generalize same : names ++ more = all at enters
  induction enters generalizing names with
  | done links here =>
    obtain ⟨rfl, rfl⟩ := List.append_eq_nil_iff.mp same
    exact ⟨links, here, .done links here, .done links here⟩
  | @stay links left here there name rest folder dot further ih =>
    cases names with
    | nil =>
      rw [List.nil_append] at same
      exact ⟨links, here, .done links here, same ▸ .stay folder dot further⟩
    | cons other names =>
      obtain ⟨rfl, tail⟩ := List.cons.inj same
      obtain ⟨between, middle, front, back⟩ := ih tail
      exact ⟨between, middle, .stay folder dot front, back⟩
  | @up links left here there rest name folder notDot dots further ih =>
    cases names with
    | nil =>
      rw [List.nil_append] at same
      exact ⟨links, here, .done links here, same ▸ .up folder notDot dots further⟩
    | cons other names =>
      obtain ⟨rfl, tail⟩ := List.cons.inj same
      obtain ⟨between, middle, front, back⟩ := ih tail
      exact ⟨between, middle, .up folder notDot dots front, back⟩
  | @down links left here there name rest node folder down found noLink further ih =>
    cases names with
    | nil =>
      rw [List.nil_append] at same
      exact ⟨links, here, .done links here, same ▸ .down folder down found noLink further⟩
    | cons other names =>
      obtain ⟨rfl, tail⟩ := List.cons.inj same
      obtain ⟨between, middle, front, back⟩ := ih tail
      exact ⟨between, middle, .down folder down found noLink front, back⟩
  | @follow links left here there name rest aim folder down found further ih =>
    cases names with
    | nil =>
      rw [List.nil_append] at same
      exact ⟨links + 1, here, .done _ here, same ▸ .follow folder down found further⟩
    | cons other names =>
      obtain ⟨rfl, tail⟩ := List.cons.inj same
      have onward : (Path.segments aim ++ names) ++ more = Path.segments aim ++ rest := by
        rw [List.append_assoc]
        exact congrArg _ tail
      obtain ⟨between, middle, front, back⟩ := ih onward
      exact ⟨between, middle, .follow folder down found front, back⟩

/-- Where names lead does not depend on the number of links allowed. -/
theorem Enters.unique {others otherLeft : Nat} {other : Path} (enters : disk.Enters links here names left there)
    (enters' : disk.Enters others here names otherLeft other) : there = other := by
  induction enters generalizing others with
  | done => cases enters'; rfl
  | stay folder dot _ ih =>
    cases enters' with
    | stay _ _ further => exact ih further
    | up _ notDot => exact absurd dot notDot
    | down _ down => exact absurd dot down.notDot
    | follow _ down => exact absurd dot down.notDot
  | up folder notDot dots _ ih =>
    cases enters' with
    | stay _ dot => exact absurd dot notDot
    | up _ _ _ further => exact ih further
    | down _ down => exact absurd dots down.notDots
    | follow _ down => exact absurd dots down.notDots
  | down folder down found noLink _ ih =>
    cases enters' with
    | stay _ dot => exact absurd dot down.notDot
    | up _ _ dots => exact absurd dots down.notDots
    | down _ _ found' _ further => exact ih further
    | follow _ _ found' =>
      rw [found] at found'
      exact absurd (Option.some.inj found') (noLink _)
  | follow folder down found _ ih =>
    cases enters' with
    | stay _ dot => exact absurd dot down.notDot
    | up _ _ dots => exact absurd dots down.notDots
    | down _ _ found' noLink =>
      rw [found] at found'
      exact absurd (Option.some.inj found').symm (noLink _)
    | follow _ _ found' further =>
      rw [found] at found'
      obtain rfl := Node.link.inj (Option.some.inj found')
      exact ih further

/-- From a file there is no way on. -/
theorem Enters.of_file (enters : disk.Enters links here names left there) {content : Bytes}
    (file : disk.node? here = some (.file content)) : there = here := by
  cases enters with
  | done => rfl
  | stay folder => simp [file] at folder
  | up folder => simp [file] at folder
  | down folder => simp [file] at folder
  | follow folder => simp [file] at folder

/-! ## Places that no way to a folder passes -/

/-- Nothing stands at a place, or a file, or a link that leads to a file. -/
def DeadEnd (disk : Disk) (place : Path) : Prop :=
  ∀ node, disk.node? place = some node → (∃ content, node = .file content) ∨
    ∃ aim links left there content, node = .link aim ∧
      disk.Enters links (aimStart place.dropLast aim) (Path.segments aim) left there ∧
      disk.node? there = some (.file content)

theorem DeadEnd.not_folder {place : Path} (dead : disk.DeadEnd place) : disk.node? place ≠ some .folder := by
  intro folder
  rcases dead .folder folder with ⟨content, same⟩ | ⟨aim, links, left, there, content, same, -⟩
  · cases same
  · cases same

/-- A way to a folder stays when something else is put in a place that it does not pass. -/
theorem Enters.of_deadEnd {place : Path} (dead : disk.DeadEnd place)
    (same : ∀ other, other ≠ place → later.node? other = disk.node? other)
    (enters : disk.Enters links here names left there) (folder : disk.node? there = some .folder) :
    later.Enters links here names left there := by
  have kept {other : Path} (isFolder : disk.node? other = some .folder) : later.node? other = some .folder := by
    rw [same other fun atPlace => dead.not_folder (atPlace ▸ isFolder), isFolder]
  induction enters with
  | done links here => exact .done links here
  | stay inFolder dot _ ih => exact .stay (kept inFolder) dot (ih folder)
  | up inFolder notDot dots _ ih => exact .up (kept inFolder) notDot dots (ih folder)
  | @down links left here there name rest node inFolder down found noLink further ih =>
    refine .down (kept inFolder) down ?_ noLink (ih folder)
    rw [same _ ?_, found]
    rintro rfl
    rcases dead node found with ⟨content, rfl⟩ | ⟨aim, _, _, _, _, rfl, -⟩
    · rw [further.of_file found, found] at folder
      cases folder
    · exact noLink aim rfl
  | @follow links left here there name rest aim inFolder down found further ih =>
    refine .follow (kept inFolder) down ?_ (ih folder)
    rw [same _ ?_, found]
    rintro rfl
    -- The link leads to a file, behind which there is no folder.
    rcases dead _ found with ⟨content, isFile⟩ | ⟨aim', _, _, last, content, isLink, toFile, file⟩
    · cases isFile
    · obtain rfl := Node.link.inj isLink
      rw [List.dropLast_concat] at toFile
      obtain ⟨between, middle, front, back⟩ := further.split
      obtain rfl := front.unique toFile
      rw [back.of_file file, file] at folder
      cases folder

end ReadOnlyViews.Disk
