import Mathlib.Data.Nat.Find
import ReadOnlyViews.Proofs.Confinement

/-!
Paths that are resolved to the end.  Every link on the way is followed from the folder it stands in,
and so is every link within its target.  If this comes to an end, it ends at one place, no link is at
that place or on the way to it, and that place is what `resolve` gives.  What `resolve` remembers of
the links it has met, and the number of links it follows at most, then make no difference.
-/

namespace ReadOnlyViews

theorem Path.isPlain_nil : Path.IsPlain [] := fun _ member => nomatch member

theorem Path.IsPlain.start {folder : Path} (plain : folder.IsPlain) (raw : Text) :
    Path.IsPlain (if Path.isAbsolute raw then [] else folder) := by
  split
  · exact Path.isPlain_nil
  · exact plain

namespace Disk

variable {disk : Disk} {depth : Nat} {here place : Path} {name : Name} {names : List Name}

/-- Where names lead from a location when every link is followed.  Links are followed within the
targets of links down to a depth. -/
inductive Leads (disk : Disk) : (depth : Nat) → (here : Path) → List Name → (place : Path) → Prop
  | arrived {depth : Nat} {here : Path} : Leads disk depth here [] here
  | step {depth : Nat} {here place : Path} {name : Name} {rest : List Name} (noNul : '\x00' ∉ name)
      (unlinked : disk.Unlinked (Path.step here name))
      (onward : Leads disk depth (Path.step here name) rest place) :
      Leads disk depth here (name :: rest) place
  | link {depth : Nat} {here middle place : Path} {name : Name} {target : Text} {rest : List Name}
      (noNul : '\x00' ∉ name) (found : disk.node? (Path.step here name) = some (.link target))
      (aim : Leads disk depth (if Path.isAbsolute target then [] else here) (Path.segments target)
        middle)
      (onward : Leads disk (depth + 1) middle rest place) :
      Leads disk (depth + 1) here (name :: rest) place

/-- A written path, read from a folder, is resolved to the end at a place. -/
def Resolves (disk : Disk) (folder : Path) (raw : Text) (place : Path) : Prop :=
  ∃ depth, disk.Leads depth (if Path.isAbsolute raw then [] else folder) (Path.segments raw) place

/-- No link is at a location or on the way to it. -/
def Clear (disk : Disk) (path : Path) : Prop := ∀ front, front <+: path → disk.Unlinked front

/-! ### Where a resolution ends -/

theorem clear_nil (disk : Disk) : disk.Clear [] := by
  intro front within aim
  rw [List.prefix_nil.mp within]
  simp

theorem Clear.start {folder : Path} (clear : disk.Clear folder) (raw : Text) :
    disk.Clear (if Path.isAbsolute raw then [] else folder) := by
  split
  · exact clear_nil disk
  · exact clear

theorem Clear.step (clear : disk.Clear here) (unlinked : disk.Unlinked (Path.step here name)) :
    disk.Clear (Path.step here name) := by
  unfold Path.step at unlinked ⊢
  split
  · exact clear
  · split
    · exact fun front within => clear front (within.trans (List.dropLast_prefix here))
    · rename_i noDot notDots
      rw [if_neg noDot, if_neg notDots] at unlinked
      intro front within
      rcases List.prefix_concat_iff.mp within with rfl | above
      · exact unlinked
      · exact clear front above

/-- A step that leads to a link is a step to a name. -/
theorem Clear.step_to_link {target : Text} (clear : disk.Clear here)
    (found : disk.node? (Path.step here name) = some (.link target)) :
    ¬ (name = [] ∨ name = ".") ∧ name ≠ ".." ∧ Path.step here name = here ++ [name] := by
  by_cases dot : name = [] ∨ name = "."
  · rw [Path.step, if_pos dot] at found
    exact absurd found (clear here (List.prefix_refl here) target)
  by_cases dots : name = ".."
  · rw [Path.step, if_neg dot, if_pos dots] at found
    exact absurd found (clear _ (List.dropLast_prefix here) target)
  exact ⟨dot, dots, by rw [Path.step, if_neg dot, if_neg dots]⟩

theorem Leads.clear (leads : disk.Leads depth here names place) (clear : disk.Clear here) :
    disk.Clear place := by
  induction leads with
  | arrived => exact clear
  | step _ unlinked _ ih => exact ih (clear.step unlinked)
  | link _ _ _ _ ihAim ihOnward => exact ihOnward (ihAim (clear.start _))

theorem Leads.isPlain (leads : disk.Leads depth here names place)
    (noSlash : ∀ name ∈ names, '/' ∉ name) (plain : here.IsPlain) : place.IsPlain := by
  induction leads with
  | arrived => exact plain
  | step noNul _ _ ih =>
    obtain ⟨clean, others⟩ := List.forall_mem_cons.mp noSlash
    exact ih others (plain.step clean noNul)
  | link _ _ _ _ ihAim ihOnward =>
    refine ihOnward (List.forall_mem_cons.mp noSlash).2 (ihAim ?_ (plain.start _))
    exact fun name member => Text.notMem_of_mem_pieces member

/-- A resolution ends at one place, whatever depth is allowed. -/
theorem Leads.unique {other : Path} {further : Nat} (leads : disk.Leads depth here names place)
    (otherwise : disk.Leads further here names other) : place = other := by
  induction leads generalizing further other with
  | arrived =>
    cases otherwise
    rfl
  | step _ unlinked _ ih =>
    cases otherwise with
    | step _ _ onward => exact ih onward
    | link _ found => exact absurd found (unlinked _)
  | link _ found _ _ ihAim ihOnward =>
    cases otherwise with
    | step _ unlinked => exact absurd found (unlinked _)
    | link _ found' aim onward =>
      obtain rfl := Node.link.inj (Option.some.inj (found.symm.trans found'))
      obtain rfl := ihAim aim
      exact ihOnward onward

/-! ### One step of `resolveFrom` -/

section Steps

variable {links : Nat} {met : MetLinks} {rest : List Todo} {target : Text}

/-- Resolutions that come to the same next link go on in the same way. -/
theorem resolveFrom_congr {otherMet : MetLinks} {there : Path} {todo otherTodo : List Todo}
    (strides : disk.resolveStride met here todo = disk.resolveStride otherMet there otherTodo) :
    disk.resolveFrom links met here todo = disk.resolveFrom links otherMet there otherTodo := by
  rw [resolveFrom.eq_def, resolveFrom.eq_def disk links otherMet]
  dsimp only
  rw [strides]

private theorem resolveFrom_settled (link : Path) :
    disk.resolveFrom links met here (.settled link :: rest) =
      disk.resolveFrom links ((link, some here) :: met) here rest :=
  resolveFrom_congr (by rw [resolveStride])

private theorem resolveFrom_step (noNul : '\x00' ∉ name) (unlinked : disk.Unlinked (Path.step here name)) :
    disk.resolveFrom links met here (.name name :: rest) =
      disk.resolveFrom links met (Path.step here name) rest := by
  refine resolveFrom_congr ?_
  rw [resolveStride]
  unfold Path.step at unlinked ⊢
  split
  · rfl
  · split
    · rfl
    · rename_i noDot notDots
      rw [if_neg noDot, if_neg notDots] at unlinked
      have clean : name.contains '\x00' = false := by simpa using noNul
      simp only [clean, Bool.false_eq_true, if_false]
      split
      · rename_i found
        exact absurd found (unlinked _)
      · rfl

section AtLink

variable (clear : disk.Clear here) (noNul : '\x00' ∉ name)
  (found : disk.node? (Path.step here name) = some (.link target))

include clear noNul found

/-- At a link whose place is known the resolution goes on there. -/
theorem resolveFrom_known {known : Path}
    (recorded : met.lookup (Path.step here name) = some (some known)) :
    disk.resolveFrom links met here (.name name :: rest) =
      disk.resolveFrom links met known rest := by
  obtain ⟨noDot, notDots, enters⟩ := clear.step_to_link found
  rw [enters] at found recorded
  have clean : name.contains '\x00' = false := by simpa using noNul
  refine resolveFrom_congr ?_
  simp only [resolveStride, if_neg noDot, if_neg notDots, clean, Bool.false_eq_true, if_false,
    found, recorded]

/-- At a link that is new the resolution goes on with the link's target. -/
theorem resolveFrom_new (isNew : met.lookup (Path.step here name) = none) :
    disk.resolveFrom (links + 1) met here (.name name :: rest) =
      disk.resolveFrom links ((Path.step here name, none) :: met)
        (if Path.isAbsolute target then [] else here)
        ((Path.segments target).map .name ++ .settled (Path.step here name) :: rest) := by
  obtain ⟨noDot, notDots, enters⟩ := clear.step_to_link found
  rw [enters] at found isNew ⊢
  have clean : name.contains '\x00' = false := by simpa using noNul
  have strides : disk.resolveStride met here (.name name :: rest) =
      .link here (here ++ [name]) target met rest := by
    simp only [resolveStride, if_neg noDot, if_neg notDots, clean, Bool.false_eq_true, if_false,
      found, isNew]
  rw [resolveFrom.eq_def]
  dsimp only
  rw [strides]

end AtLink

end Steps

/-! ### What is remembered of links -/

/-- The target of a link leads to a place. -/
def Follows (disk : Disk) (depth : Nat) (link place : Path) : Prop :=
  ∃ target, disk.node? link = some (.link target) ∧
    disk.Leads depth (if Path.isAbsolute target then [] else link.dropLast) (Path.segments target)
      place

/-- The number of entries that are not among the links met. -/
def unmet (disk : Disk) (met : MetLinks) : Nat :=
  disk.entries.countP fun entry => (met.lookup entry.1).isNone

/-- What is remembered of links is right, and as many links may be followed as are not met. -/
structure Sound (disk : Disk) (links : Nat) (met : MetLinks) : Prop where
  known : ∀ link place, met.lookup link = some (some place) → ∃ depth, disk.Follows depth link place
  enough : disk.unmet met ≤ links

/-- The links that are being followed do not come to an end before a depth. -/
def Deep (disk : Disk) (depth : Nat) (met : MetLinks) : Prop :=
  ∀ link, met.lookup link = some none → ∀ lower < depth, ∀ place, ¬ disk.Follows lower link place

section Memory

variable {links : Nat} {met : MetLinks} {link : Path}

private theorem lookup_record (met : MetLinks) (link other : Path) (known : Option Path) :
    ((link, known) :: met).lookup other =
      if other = link then some known else met.lookup other := by
  by_cases same : other = link
  · rw [if_pos same, same, List.lookup_cons_self]
  · have apart : (other == link) = false := by simpa using same
    rw [if_neg same, List.lookup_cons, apart]

private theorem unmet_record_le (disk : Disk) (met : MetLinks) (link : Path) (known : Option Path) :
    disk.unmet ((link, known) :: met) ≤ disk.unmet met := by
  refine List.countP_mono_left fun entry _ isNew => ?_
  rw [lookup_record] at isNew
  split at isNew
  · cases isNew
  · exact isNew

private theorem unmet_record_lt {target : Text} (found : disk.node? link = some (.link target))
    (isNew : met.lookup link = none) (known : Option Path) :
    disk.unmet ((link, known) :: met) < disk.unmet met := by
  have named : link ≠ [] := by
    rintro rfl
    simp at found
  obtain ⟨front, back, cut⟩ := List.append_of_mem (mem_entries_of_node? named found)
  have counted (met : MetLinks) : disk.unmet met =
      unmet ⟨front⟩ met + (unmet ⟨back⟩ met + if (met.lookup link).isNone then 1 else 0) := by
    rw [unmet, cut, List.countP_append, List.countP_cons]
    rfl
  have before := unmet_record_le ⟨front⟩ met link known
  have behind := unmet_record_le ⟨back⟩ met link known
  rw [counted, counted, lookup_record, if_pos rfl, isNew]
  simp only [Option.isNone_some, Option.isNone_none, Bool.false_eq_true, if_false, if_true]
  omega

theorem Sound.start (sound : disk.Sound (links + 1) met) {target : Text}
    (found : disk.node? link = some (.link target)) (isNew : met.lookup link = none) :
    disk.Sound links ((link, none) :: met) := by
  refine ⟨fun other place recorded => ?_, ?_⟩
  · rw [lookup_record] at recorded
    split at recorded
    · cases recorded
    · exact sound.known other place recorded
  · have fewer := unmet_record_lt found isNew none
    have enough := sound.enough
    omega

theorem Sound.settle (sound : disk.Sound links met) (follows : disk.Follows depth link place) :
    disk.Sound links ((link, some place) :: met) := by
  refine ⟨fun other there recorded => ?_, ?_⟩
  · rw [lookup_record] at recorded
    split at recorded
    · rename_i same
      obtain rfl := Option.some.inj (Option.some.inj recorded)
      exact ⟨depth, same ▸ follows⟩
    · exact sound.known other there recorded
  · exact Nat.le_trans (unmet_record_le disk met link (some place)) sound.enough

theorem Follows.unique {other : Path} {further : Nat} (follows : disk.Follows depth link place)
    (otherwise : disk.Follows further link other) : place = other := by
  obtain ⟨_, found, aim⟩ := follows
  obtain ⟨_, found', aim'⟩ := otherwise
  obtain rfl := Node.link.inj (Option.some.inj (found.symm.trans found'))
  exact aim.unique aim'

/-- A link comes to its end at a least depth. -/
theorem Follows.least (follows : disk.Follows depth link place) :
    ∃ least ≤ depth, disk.Follows least link place ∧
      ∀ lower < least, ∀ other, ¬ disk.Follows lower link other := by
  classical
  have ends : ∃ depth place, disk.Follows depth link place := ⟨depth, place, follows⟩
  obtain ⟨other, earliest⟩ := Nat.find_spec ends
  obtain rfl := follows.unique earliest
  exact ⟨Nat.find ends, Nat.find_min' ends ⟨place, follows⟩, earliest,
    fun lower below other earlier => Nat.find_min ends below ⟨other, earlier⟩⟩

theorem Deep.start {least : Nat} (deep : disk.Deep depth met) (notDeeper : least ≤ depth)
    (first : ∀ lower < least, ∀ other, ¬ disk.Follows lower link other) :
    disk.Deep least ((link, none) :: met) := by
  intro other opened lower below
  rw [lookup_record] at opened
  split at opened
  · rename_i same
    exact same ▸ first lower below
  · exact deep other opened lower (Nat.lt_of_lt_of_le below notDeeper)

end Memory

/-! ### The whole resolution -/

/-- The same links are being followed. -/
def SameOpen (met later : MetLinks) : Prop :=
  ∀ link, later.lookup link = some none ↔ met.lookup link = some none

/-- The resolution gets to a place with its first names, whatever is still to be done behind them. -/
def GetsTo (disk : Disk) (links : Nat) (met : MetLinks) (here : Path) (names : List Name)
    (place : Path) : Prop :=
  ∀ rest, ∃ left later, disk.Sound left later ∧ SameOpen met later ∧
    disk.resolveFrom links met here (names.map .name ++ rest) =
      disk.resolveFrom left later place rest

section Whole

variable {links : Nat} {met : MetLinks} {target : Text} {middle : Path}

theorem GetsTo.step (noNul : '\x00' ∉ name) (unlinked : disk.Unlinked (Path.step here name))
    (onward : disk.GetsTo links met (Path.step here name) names place) :
    disk.GetsTo links met here (name :: names) place := by
  intro rest
  rw [List.map_cons, List.cons_append, resolveFrom_step noNul unlinked]
  exact onward rest

variable (clear : disk.Clear here) (noNul : '\x00' ∉ name)
  (found : disk.node? (Path.step here name) = some (.link target))

include clear noNul found

theorem GetsTo.known (recorded : met.lookup (Path.step here name) = some (some middle))
    (onward : disk.GetsTo links met middle names place) :
    disk.GetsTo links met here (name :: names) place := by
  intro rest
  rw [List.map_cons, List.cons_append, resolveFrom_known clear noNul found recorded]
  exact onward rest

/-- A new link is remembered with the place that its target gets to, and is not followed any more
when the names behind it have their turn. -/
theorem GetsTo.new (isNew : met.lookup (Path.step here name) = none)
    (follows : disk.Follows depth (Path.step here name) middle)
    (aim : disk.GetsTo links ((Path.step here name, none) :: met)
      (if Path.isAbsolute target then [] else here) (Path.segments target) middle)
    (onward : ∀ left later, disk.Sound left later → SameOpen met later →
      disk.GetsTo left later middle names place) :
    disk.GetsTo (links + 1) met here (name :: names) place := by
  intro rest
  obtain ⟨left, later, sound, opened, resolved⟩ :=
    aim (.settled (Path.step here name) :: (names.map .name ++ rest))
  have closed : SameOpen met ((Path.step here name, some middle) :: later) := by
    intro link
    rw [lookup_record]
    split
    · rename_i same
      simp [same, isNew]
    · rename_i apart
      rw [opened, lookup_record, if_neg apart]
  obtain ⟨final, last, soundLast, openedLast, resolvedLast⟩ :=
    onward left _ (sound.settle follows) closed rest
  refine ⟨final, last, soundLast, fun link => (openedLast link).trans (closed link), ?_⟩
  rw [List.map_cons, List.cons_append, resolveFrom_new clear noNul found isNew, resolved,
    resolveFrom_settled, resolvedLast]

end Whole

/-- Names that lead to a place are resolved to it. -/
theorem Leads.getsTo (leads : disk.Leads depth here names place) (clear : disk.Clear here)
    {links : Nat} {met : MetLinks} (sound : disk.Sound links met) (deep : disk.Deep depth met) :
    disk.GetsTo links met here names place := by
  -- Targets of links lead on at a smaller depth, the names behind a link at the same one.
  induction depth using Nat.strong_induction_on generalizing here names place links met with
  | _ depth shallower =>
  induction names generalizing here links met with
  | nil =>
    cases leads
    exact fun _ => ⟨links, met, sound, fun _ => Iff.rfl, rfl⟩
  | cons name names ih =>
    cases leads with
    | step noNul unlinked onward =>
      exact .step noNul unlinked (ih onward (clear.step unlinked) sound deep)
    | @link depth _ middle _ _ target _ noNul found aim onward =>
      have clearMiddle := aim.clear (clear.start target)
      have fromFolder : (Path.step here name).dropLast = here := by
        rw [(clear.step_to_link found).2.2, List.dropLast_concat]
      have follows : disk.Follows depth (Path.step here name) middle :=
        ⟨target, found, by rwa [fromFolder]⟩
      cases recorded : met.lookup (Path.step here name) with
      | some known =>
        cases known with
        | none =>
          -- A link that is being followed does not come to its end at this depth.
          exact absurd follows (deep _ recorded depth (Nat.lt_succ_self depth) middle)
        | some known =>
          obtain ⟨_, known⟩ := sound.known _ known recorded
          obtain rfl := follows.unique known
          exact .known clear noNul found recorded (ih onward clearMiddle sound deep)
      | none =>
        obtain ⟨least, notDeeper, ⟨_, found', aimLeast⟩, first⟩ := follows.least
        obtain rfl := Node.link.inj (Option.some.inj (found.symm.trans found'))
        rw [fromFolder] at aimLeast
        have fewer := unmet_record_lt found recorded none
        have enough := sound.enough
        obtain ⟨links, rfl⟩ := Nat.exists_eq_add_of_lt (show 0 < links by omega)
        rw [Nat.zero_add] at sound ⊢
        refine .new clear noNul found recorded follows ?_ fun left later soundLater opened => ?_
        · exact shallower least (Nat.lt_succ_of_le notDeeper) aimLeast (clear.start target)
            (sound.start found recorded) (deep.start (Nat.le_succ_of_le notDeeper) first)
        · exact ih onward clearMiddle soundLater fun link isOpen => deep link ((opened link).mp isOpen)

private theorem status_ne_tooManyLinks_of_clear {path : Path} (plain : path.IsPlain)
    (clear : disk.Clear path) : disk.status path ≠ .error .tooManyLinks := by
  have direct : disk.Direct path := fun front within _ => clear front within
  intro looped
  rw [status, walk, walkFrom.eq_def] at looped
  cases reached : disk.stride .existing [] path with
  | link there rest =>
    exact (stride_of_direct plain direct).2 there rest reached |>.2 (clear path (List.prefix_refl _))
  | refused fault =>
    have same : fault = .tooManyLinks := by simpa [reached, bind, Except.bind] using looped
    exact stride_ne_tooManyLinks .existing [] path (same ▸ reached)
  | arrived location =>
    cases found : disk.node? location <;> simp [reached, bind, Except.bind, found] at looped

section Resolves

variable {folder : Path} {raw : Text} (resolves : disk.Resolves folder raw place)

include resolves

theorem Resolves.clear (clear : disk.Clear folder) : disk.Clear place := by
  obtain ⟨depth, leads⟩ := resolves
  exact leads.clear (clear.start raw)

theorem Resolves.isPlain (plain : folder.IsPlain) : place.IsPlain := by
  obtain ⟨depth, leads⟩ := resolves
  exact leads.isPlain (fun name member => Text.notMem_of_mem_pieces member) (plain.start raw)

/-- A path that is resolved to the end is resolved to that place. -/
theorem Resolves.resolve_eq (plain : folder.IsPlain) (clear : disk.Clear folder) :
    disk.resolve folder raw = .ok place := by
  have plainPlace := resolves.isPlain plain
  have clearPlace := resolves.clear clear
  obtain ⟨depth, leads⟩ := resolves
  have sound : disk.Sound disk.entries.length [] :=
    ⟨fun _ _ recorded => (nomatch recorded), List.countP_le_length⟩
  have deep : disk.Deep depth [] := fun _ opened => nomatch opened
  obtain ⟨left, later, -, -, resolved⟩ := leads.getsTo (clear.start raw) sound deep []
  have arrived : disk.resolveFrom left later place [] = .ok place := by
    rw [resolveFrom.eq_def]
    rfl
  rw [List.append_nil, arrived] at resolved
  have clean : ¬ place.any (·.contains '\x00') = true := by
    rw [List.any_eq_true]
    rintro ⟨name, member, nul⟩
    exact (plainPlace name member).noNul (by simpa using nul)
  rw [resolve]
  simp only [resolved, bind, Except.bind, if_neg clean]
  split
  · rename_i looped
    exact absurd looped (status_ne_tooManyLinks_of_clear plainPlace clearPlace)
  · rfl

end Resolves

end Disk

end ReadOnlyViews
