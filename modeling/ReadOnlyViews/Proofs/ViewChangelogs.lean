import ReadOnlyViews.Proofs.ChangelogNames
import ReadOnlyViews.Proofs.Stamps
import ReadOnlyViews.Proofs.Texts

/-!
The names of view changelogs, written and read again.  A name is a stamp and the view's part, and the
text of the name settles both, whatever the view is called; so the files of a folder say which
changelogs a view has.  The search answers by them alone, in whatever order and how often they are
listed, and the clock is asked only for a view that has none.
-/

namespace ReadOnlyViews

namespace Text

/-- Parts of one length that two texts start with are in the order of the texts. -/
theorem before_of_append {a b rest more : Text} (same : a.length = b.length)
    (ordered : before (a ++ rest) (b ++ more) = true) : before a b = true := by
  induction a generalizing b with
  | nil => rfl
  | cons c a ih =>
    obtain ⟨d, b, rfl⟩ : ∃ d others, b = d :: others := List.exists_cons_of_length_eq_add_one same.symm
    by_cases equal : c = d
    · subst equal
      simp only [List.cons_append, before, if_true] at ordered ⊢
      exact ih (by simpa using same) ordered
    · simpa [before, equal] using ordered

/-- Of two texts of digits of one length the one that comes first has no greater number. -/
theorem ofDigitChars_le_of_before {a b : Text} (digits : ∀ c ∈ a, c.isDigit = true)
    (others : ∀ c ∈ b, c.isDigit = true) (same : a.length = b.length) (ordered : before a b = true) :
    Nat.ofDigitChars 10 a 0 ≤ Nat.ofDigitChars 10 b 0 := by
  by_contra notLe
  have reversed := before_of_ofDigitChars_lt others digits same.symm (Nat.lt_of_not_le notLe)
  rw [before_antisymm ordered reversed] at notLe
  exact notLe (Nat.le_refl _)

end Text

namespace Changelog

/-! ### What a name says -/

/-- A file name is the one that a changelog of the view has with the stamp. -/
structure IsNameOf (view stamp file : Text) : Prop where
  isStamp : IsStamp stamp
  spelled : file = viewFileName stamp view

/-- A name gives away the view and the stamp. -/
theorem IsNameOf.unique {view other stamp digits file : Text} (ofView : IsNameOf view stamp file)
    (ofOther : IsNameOf other digits file) : view = other ∧ stamp = digits := by
  have same : stamp ++ '_' :: ("create_view_".toList ++ view ++ ".xml".toList) =
      digits ++ '_' :: ("create_view_".toList ++ other ++ ".xml".toList) :=
    ofView.spelled.symm.trans ofOther.spelled
  obtain ⟨stamps, -, rest⟩ := Text.append_cons_inj_of_all ofView.isStamp.digits ofOther.isStamp.digits
    (by decide) (by decide) same
  exact ⟨List.append_cancel_left (List.append_cancel_right rest), stamps⟩

/-- On a name without line feeds the stamp that is read is the one that was written. -/
theorem stampOf?_eq_some_iff_isNameOf {view stamp file : Text} (single : '\n' ∉ file) :
    stampOf? view file = some stamp ↔ IsNameOf view stamp file := by
  rw [stampOf?_eq_some_iff]
  constructor
  · rintro ⟨isStamp, spelled | fed⟩
    · exact ⟨isStamp, spelled⟩
    · exact absurd (by simp [fed]) single
  · rintro ⟨isStamp, spelled⟩
    exact ⟨isStamp, .inl spelled⟩

/-! ### The search does not depend on the listing -/

/-- Only which files there are matters to the search. -/
theorem findView?_eq_of_mem_iff {files others : List Text} (same : ∀ file, file ∈ others ↔ file ∈ files)
    (view : Text) : findView? others view = findView? files view := by
  cases found : findView? files view with
  | none =>
    rw [findView?_eq_none_iff] at found ⊢
    exact fun file member => found file ((same file).mp member)
  | some answer =>
    obtain ⟨file, stamp⟩ := answer
    obtain ⟨member, stamped, last⟩ := findView?_eq_some found
    cases again : findView? others view with
    | none =>
      have none := findView?_eq_none_iff.mp again file ((same file).mpr member)
      simp [stamped] at none
    | some answer =>
      obtain ⟨other, digits⟩ := answer
      obtain ⟨otherMember, otherStamped, otherLast⟩ := findView?_eq_some again
      -- Each of the two is the last one of the view, so neither is behind the other.
      obtain rfl : other = file := Text.before_antisymm
        (last other ((same other).mp otherMember) (by simp [otherStamped]))
        (otherLast file ((same file).mpr member) (by simp [stamped]))
      rw [stamped] at otherStamped
      rw [Option.some.inj otherStamped]

private theorem nextView_snd (existing : List Text) (view : Text) (clock : Clock) :
    (nextView existing view clock).2 =
      if findView? existing view = none then clock.next.2 else clock := by
  unfold nextView
  cases findView? existing view <;> rfl

/-! ### The changelogs that a folder holds -/

/-- The search for the changelog of a view among some file names answers by the names of the view's
changelogs. -/
structure Finds (files : List Text) (view : Text) : Prop where
  anyOrder : ∀ others : List Text, (∀ file, file ∈ others ↔ file ∈ files) →
    findView? others view = findView? files view
  none_iff : findView? files view = none ↔ ∀ file ∈ files, ∀ stamp, ¬ IsNameOf view stamp file
  found : ∀ file stamp, findView? files view = some (file, stamp) →
    file ∈ files ∧ IsNameOf view stamp file
  greatest : (∀ file ∈ files, ∀ stamp, IsNameOf view stamp file → stamp.length = 17) →
    ∀ file stamp, findView? files view = some (file, stamp) →
      ∀ other ∈ files, ∀ digits, IsNameOf view digits other →
        Text.before digits stamp = true ∧
          ((∀ c ∈ digits ++ stamp, c.isDigit = true) →
            Nat.ofDigitChars 10 digits 0 ≤ Nat.ofDigitChars 10 stamp 0)
  draws_iff : ∀ clock : Clock, (nextView files view clock).2.taken = clock.taken + 1 ↔
    ∀ file ∈ files, ∀ stamp, ¬ IsNameOf view stamp file
  keeps_iff : ∀ clock : Clock, (nextView files view clock).2 = clock ↔
    ∃ file ∈ files, ∃ stamp, IsNameOf view stamp file

section Search

variable {files : List Text} (single : ∀ file ∈ files, '\n' ∉ file) (view : Text)
include single

private theorem findView?_eq_none_iff_isNameOf :
    findView? files view = none ↔ ∀ file ∈ files, ∀ stamp, ¬ IsNameOf view stamp file := by
  rw [findView?_eq_none_iff]
  refine forall₂_congr fun file member => ?_
  rw [Option.eq_none_iff_forall_ne_some]
  exact forall_congr' fun stamp => not_congr (stampOf?_eq_some_iff_isNameOf (single file member))

private theorem isNameOf_of_findView? {file stamp : Text} (found : findView? files view = some (file, stamp)) :
    file ∈ files ∧ IsNameOf view stamp file := by
  obtain ⟨member, stamped, -⟩ := findView?_eq_some found
  exact ⟨member, (stampOf?_eq_some_iff_isNameOf (single file member)).mp stamped⟩

/-- Names of one width are in the order of their stamps. -/
theorem before_of_findView? {file stamp : Text} (found : findView? files view = some (file, stamp))
    {other digits : Text} (member : other ∈ files) (ofView : IsNameOf view digits other)
    (wide : digits.length = stamp.length) : Text.before digits stamp = true := by
  obtain ⟨-, -, last⟩ := findView?_eq_some found
  have stamped := (stampOf?_eq_some_iff_isNameOf (single other member)).mpr ofView
  have ordered := last other member (by simp [stamped])
  rw [ofView.spelled, (isNameOf_of_findView? single view found).2.spelled] at ordered
  exact Text.before_of_append wide ordered

theorem finds : Finds files view where
  anyOrder others same := findView?_eq_of_mem_iff same view
  none_iff := findView?_eq_none_iff_isNameOf single view
  found file stamp := isNameOf_of_findView? single view
  greatest wide file stamp found other member digits ofView := by
    obtain ⟨listed, named⟩ := isNameOf_of_findView? single view found
    have lengths : digits.length = stamp.length :=
      (wide other member digits ofView).trans (wide file listed stamp named).symm
    have ordered := before_of_findView? single view found member ofView lengths
    refine ⟨ordered, fun ascii => ?_⟩
    obtain ⟨left, right⟩ := List.forall_mem_append.mp ascii
    exact Text.ofDigitChars_le_of_before left right lengths ordered
  draws_iff clock := by
    rw [← findView?_eq_none_iff_isNameOf single view, nextView_snd]
    split
    · next none => exact iff_of_true clock.next_taken none
    · next some_ => exact iff_of_false (by omega) some_
  keeps_iff clock := by
    have absent := findView?_eq_none_iff_isNameOf single view
    have drawn : clock.next.2 ≠ clock := by
      intro same
      have taken := clock.next_taken
      rw [same] at taken
      omega
    rw [nextView_snd]
    split
    · next none =>
      refine iff_of_false drawn ?_
      rintro ⟨file, member, stamp, ofView⟩
      exact absent.mp none file member stamp ofView
    · next some_ =>
      refine iff_of_true rfl ?_
      by_contra never
      exact some_ (absent.mpr fun file member stamp ofView => never ⟨file, member, stamp, ofView⟩)

end Search

/-- Names of view changelogs are read as they were written: the changelog of a view is found with its
stamp, a name without line feeds belongs to one view at most, and among any such names the search
finds the changelog of the view with the greatest stamp and the clock is asked only if there is none. -/
theorem view_changelogs_decoded (view : Text) :
    (∀ stamp, IsStamp stamp →
      findView? [viewFileName stamp view] view = some (viewFileName stamp view, stamp)) ∧
    (∀ file other, '\n' ∉ file → findView? [file] view ≠ none → findView? [file] other ≠ none →
      view = other) ∧
    ∀ files : List Text, (∀ file ∈ files, '\n' ∉ file) → Finds files view := by
  refine ⟨fun stamp isStamp => ?_, fun file other single mine others => ?_,
    fun files single => finds single view⟩
  · have sorted : Text.sorted [viewFileName stamp view] = [viewFileName stamp view] :=
      List.perm_singleton.mp (Text.sorted_perm _)
    simp [findView?, sorted, stampOf?_viewFileName isStamp]
  · have alone : ∀ name ∈ [file], '\n' ∉ name := by simpa using single
    have named {view : Text} (some_ : findView? [file] view ≠ none) : ∃ stamp, IsNameOf view stamp file := by
      obtain ⟨⟨name, stamp⟩, found⟩ := Option.ne_none_iff_exists'.mp some_
      obtain ⟨member, ofView⟩ := isNameOf_of_findView? alone view found
      exact ⟨stamp, List.mem_singleton.mp member ▸ ofView⟩
    obtain ⟨stamp, ofView⟩ := named mine
    obtain ⟨digits, ofOther⟩ := named others
    exact (ofView.unique ofOther).1

/-- A view whose own name looks like that of a changelog. -/
def nestedView : Text := "20240102030405000_create_view_x.xml"

/-- A stamp as a clock issues it. -/
def issuedStamp : Text := "20240102030405010"

/-- Changelogs of two views, one of them listed twice. -/
def listedFiles : List Text :=
  [viewFileName "20240102030405007" nestedView, viewFileName issuedStamp nestedView,
    viewFileName "20240102030405999" "x", viewFileName "20240102030405007" nestedView]

/-- The changelog of the nested view is not taken for one of the view in its name. -/
theorem view_changelogs_decoded_nestedView :
    (IsStamp issuedStamp ∧ findView? [viewFileName issuedStamp nestedView] nestedView =
      some (viewFileName issuedStamp nestedView, issuedStamp)) ∧
    findView? [viewFileName issuedStamp nestedView] "x" = none ∧
    (∀ file ∈ listedFiles, '\n' ∉ file) ∧ Finds listedFiles nestedView := by
  have isStamp : IsStamp issuedStamp := ⟨by decide, List.all_eq_true.mp (by decide)⟩
  have single : ∀ file ∈ listedFiles, '\n' ∉ file := by decide
  obtain ⟨found, unique, finds⟩ := view_changelogs_decoded nestedView
  refine ⟨⟨isStamp, found issuedStamp isStamp⟩, ?_, single, finds listedFiles single⟩
  by_contra another
  have same := unique (viewFileName issuedStamp nestedView) "x" (by decide)
    (by simp [found issuedStamp isStamp]) another
  exact absurd same (by decide)

end Changelog

end ReadOnlyViews
