import Mathlib.Data.List.Basic
import Mathlib.Data.List.TakeWhile
import ReadOnlyViews.Text.Blank
import ReadOnlyViews.Text.Word

/-! Searches and trims of a text, in terms of the characters and parts that it has. -/
namespace ReadOnlyViews.Text

/-- A text without any part of a line end. -/
def IsSingleLine (text : Text) : Prop := '\n' ∉ text ∧ '\r' ∉ text

instance (text : Text) : Decidable text.IsSingleLine := inferInstanceAs (Decidable (_ ∧ _))

theorem isPrefixOf_iff {part text : Text} : part.isPrefixOf text = true ↔ part <+: text :=
  List.isPrefixOf_iff_prefix

/-- A text includes exactly the stretches of consecutive characters that it has. -/
theorem includes_iff {part text : Text} : includes part text = true ↔ part <:+: text := by
  induction text with
  | nil => simp [includes]
  | cons c text ih =>
    rw [includes, Bool.or_eq_true, ih, isPrefixOf_iff, List.infix_cons_iff]

theorem includes_eq_false_iff {part text : Text} : includes part text = false ↔ ¬ part <:+: text := by
  rw [← includes_iff, Bool.not_eq_true]

/-- A text without one of the characters of a part does not include it. -/
theorem includes_eq_false_of_notMem {part text : Text} {c : Char} (needed : c ∈ part)
    (absent : c ∉ text) : includes part text = false :=
  includes_eq_false_iff.mpr fun inside => absent (inside.subset needed)

theorem mem_of_mem_trim {text : Text} {c : Char} (member : c ∈ trim text) : c ∈ text := by
  unfold trim trimEnd trimStart at member
  have back := (List.dropWhile_suffix _).subset (List.mem_reverse.mp member)
  exact (List.dropWhile_suffix _).subset (List.mem_reverse.mp back)

theorem notMem_of_blank {text : Text} (blank : ∀ c ∈ text, isBlank c = true) {c : Char}
    (visible : isBlank c = false) : c ∉ text := fun member => by
  simp [blank c member] at visible

theorem isBlank_of_isBlankOrTab {c : Char} (blank : isBlankOrTab c = true) : isBlank c = true := by
  have either : c = ' ' ∨ c = '\t' := by simpa [isBlankOrTab] using blank
  rcases either with rfl | rfl <;> decide

theorem trimStart_append_of_blank {indent : Text} (blank : ∀ c ∈ indent, isBlank c = true)
    (rest : Text) : trimStart (indent ++ rest) = trimStart rest := by
  induction indent with
  | nil => rfl
  | cons c indent ih =>
    have first : isBlank c = true := blank c (by simp)
    simpa [trimStart, first] using ih fun d member => blank d (by simp [member])

theorem trim_append_of_blank {indent : Text} (blank : ∀ c ∈ indent, isBlank c = true)
    (rest : Text) : trim (indent ++ rest) = trim rest := by
  rw [trim, trimStart_append_of_blank blank, trim]

theorem trimEnd_append_cons {c : Char} (visible : isBlank c = false) (front rest : Text) :
    trimEnd (front ++ c :: rest) = front ++ c :: trimEnd rest := by
  have kept : (c :: front.reverse).dropWhile isBlank = c :: front.reverse := by simp [visible]
  simp only [trimEnd, List.reverse_append, List.reverse_cons, List.append_assoc,
    List.singleton_append, List.dropWhile_append, kept]
  split
  · next empty => simp [List.isEmpty_iff.mp empty]
  · simp

/-- A text is its trimmed part with white space behind it. -/
theorem exists_eq_trimEnd_append (text : Text) :
    ∃ blanks, (∀ c ∈ blanks, isBlank c = true) ∧ text = trimEnd text ++ blanks := by
  refine ⟨(text.reverse.takeWhile isBlank).reverse, ?_, ?_⟩
  · intro c member
    exact List.all_eq_true.mp List.all_takeWhile c (List.mem_reverse.mp member)
  · rw [trimEnd, ← List.reverse_append, List.takeWhile_append_dropWhile, List.reverse_reverse]

/-- A text is its trimmed part with white space around it. -/
theorem exists_eq_append_trim (text : Text) : ∃ indent blanks, (∀ c ∈ indent, isBlank c = true) ∧
    (∀ c ∈ blanks, isBlank c = true) ∧ text = indent ++ (trim text ++ blanks) := by
  obtain ⟨blanks, blank, cut⟩ := exists_eq_trimEnd_append (trimStart text)
  refine ⟨text.takeWhile isBlank, blanks, List.all_eq_true.mp List.all_takeWhile, blank, ?_⟩
  rw [trim, ← cut, trimStart, List.takeWhile_append_dropWhile]

@[simp] theorem all_isBlank_trimStart (text : Text) : (trimStart text).all isBlank = text.all isBlank := by
  induction text with
  | nil => rfl
  | cons c text ih =>
    by_cases blank : isBlank c = true
    · simpa [trimStart, blank] using ih
    · simp [trimStart, blank]

@[simp] theorem all_isBlank_trimEnd (text : Text) : (trimEnd text).all isBlank = text.all isBlank := by
  have reversed := all_isBlank_trimStart text.reverse
  simpa [trimStart, trimEnd] using reversed

theorem isEmpty_trim (text : Text) : (trim text).isEmpty = text.all isBlank := by
  have start := all_isBlank_trimStart text
  rw [Bool.eq_iff_iff, List.all_eq_true, List.all_eq_true] at start
  rw [Bool.eq_iff_iff, List.isEmpty_iff, List.all_eq_true, ← start, trim, trimEnd,
    List.reverse_eq_nil_iff, List.dropWhile_eq_nil_iff]
  simp only [List.mem_reverse]

/-- A text with something visible, cut at the first visible character. -/
theorem exists_visible {text : Text} (visible : text.all isBlank = false) :
    ∃ indent c rest, text = indent ++ c :: rest ∧ (∀ d ∈ indent, isBlank d = true) ∧ isBlank c = false := by
  cases first : trimStart text with
  | nil =>
    have none : (trimStart text).all isBlank = false := (all_isBlank_trimStart text).trans visible
    simp [first] at none
  | cons c rest =>
    refine ⟨text.takeWhile isBlank, c, rest, ?_, List.all_eq_true.mp List.all_takeWhile, ?_⟩
    · rw [← first, trimStart, List.takeWhile_append_dropWhile]
    · have stopped := List.head?_dropWhile_not isBlank text
      rw [← trimStart, first] at stopped
      simpa using stopped

/-- Trimming takes the white space in front of the first visible character. -/
theorem trim_indent_cons {indent : Text} {c : Char} (blank : ∀ d ∈ indent, isBlank d = true)
    (visible : isBlank c = false) (rest : Text) : trim (indent ++ c :: rest) = c :: trimEnd rest := by
  rw [trim_append_of_blank blank, trim, trimStart, List.dropWhile_cons_of_neg (by simp [visible])]
  exact trimEnd_append_cons visible [] rest

theorem before_antisymm {a b : Text} (ab : before a b = true) (ba : before b a = true) : a = b := by
  induction a generalizing b with
  | nil =>
    cases b with
    | nil => rfl
    | cons d b => simp [before] at ba
  | cons c a ih =>
    cases b with
    | nil => simp [before] at ab
    | cons d b =>
      by_cases same : c = d
      · subst same
        rw [ih (by simpa [before] using ab) (by simpa [before] using ba)]
      · simp only [before, same, Ne.symm same, if_false, decide_eq_true_eq] at ab ba
        omega

/-- Lists of different texts with the same members are the same in order. -/
theorem sorted_eq_of_mem_iff {texts others : List Text} (nodup : texts.Nodup)
    (nodupOthers : others.Nodup) (members : ∀ text, text ∈ texts ↔ text ∈ others) :
    sorted texts = sorted others := by
  have perm : (sorted texts).Perm (sorted others) :=
    (sorted_perm texts).trans (((List.perm_ext_iff_of_nodup nodup nodupOthers).mpr members).trans
      (sorted_perm others).symm)
  exact perm.eq_of_pairwise (fun _ _ _ _ => before_antisymm) (sorted_pairwise texts)
    (sorted_pairwise others)

theorem isBlank_of_mem_indentation {line : Text} {c : Char} (member : c ∈ indentation line) :
    isBlank c = true :=
  List.all_eq_true.mp List.all_takeWhile c member

theorem mem_of_mem_indentation {line : Text} {c : Char} (member : c ∈ indentation line) : c ∈ line :=
  (List.takeWhile_prefix _).subset member

theorem pieces_of_notMem {mark : Char} {text : Text} (absent : mark ∉ text) :
    pieces mark text = [text] := by
  induction text with
  | nil => rfl
  | cons c text ih =>
    have apart : c ≠ mark := fun same => absent (by simp [same])
    have further : mark ∉ text := fun member => absent (by simp [member])
    simp [pieces, apart, ih further]

/-- A text is cut in one way behind its first characters of a kind. -/
theorem append_cons_inj_of_all {test : Char → Bool} {front other rest more : Text} {c d : Char}
    (all : ∀ x ∈ front, test x = true) (allOther : ∀ x ∈ other, test x = true)
    (stops : test c = false) (stopsOther : test d = false)
    (same : front ++ c :: rest = other ++ d :: more) :
    front = other ∧ c = d ∧ rest = more := by
  have cut := congrArg (List.takeWhile test) same
  rw [List.takeWhile_append_of_pos all, List.takeWhile_append_of_pos allOther,
    List.takeWhile_cons_of_neg (by simp [stops]), List.takeWhile_cons_of_neg (by simp [stopsOther]),
    List.append_nil, List.append_nil] at cut
  subst cut
  exact ⟨rfl, List.cons.inj (List.append_cancel_left same)⟩

/-- A text is cut at each mark on its own. -/
theorem pieces_append_mark (mark : Char) (front back : Text) :
    pieces mark (front ++ mark :: back) = pieces mark front ++ pieces mark back := by
  induction front with
  | nil => simp [pieces]
  | cons c front ih =>
    by_cases same : c = mark
    · simp [pieces, same, ih]
    · obtain ⟨piece, others, cut⟩ := List.exists_cons_of_ne_nil (pieces_ne_nil mark front)
      simp [pieces, same, ih, cut]

theorem notMem_of_mem_pieces {mark : Char} {text piece : Text} (member : piece ∈ pieces mark text) :
    mark ∉ piece := by
  induction text generalizing piece with
  | nil => simp_all [pieces]
  | cons c text ih =>
    obtain ⟨first, others, cut⟩ := List.exists_cons_of_ne_nil (pieces_ne_nil mark text)
    rw [cut] at ih
    by_cases same : c = mark
    · rw [pieces, if_pos same, cut] at member
      rcases List.mem_cons.mp member with rfl | later
      · simp
      · exact ih later
    · rw [pieces, if_neg same, cut] at member
      rcases List.mem_cons.mp member with rfl | later
      · have clean : mark ∉ first := ih (by simp)
        simp [clean, Ne.symm same]
      · exact ih (by simp [later])

/-- The last piece of a text is what follows its last mark, so it ends as the text does. -/
theorem exists_pieces_eq_append {mark c : Char} (apart : c ≠ mark) (front : Text) :
    ∃ others last, pieces mark (front ++ [c]) = others ++ [last ++ [c]] := by
  induction front with
  | nil => exact ⟨[], [], by simp [pieces, apart]⟩
  | cons d front ih =>
    obtain ⟨others, last, cut⟩ := ih
    by_cases same : d = mark
    · exact ⟨[] :: others, last, by simp [pieces, same, cut]⟩
    · cases others with
      | nil => exact ⟨[], d :: last, by simp_all [pieces]⟩
      | cons first others => exact ⟨(d :: first) :: others, last, by simp_all [pieces]⟩

/-- Joined pieces end as the last one does. -/
theorem getLast?_join (mark : Text) (parts : List Text) {last : Text} (nonempty : last ≠ []) :
    (join mark (parts ++ [last])).getLast? = last.getLast? := by
  have behind (front : Text) : (front ++ last).getLast? = last.getLast? :=
    List.getLast?_append_of_ne_nil front nonempty
  induction parts with
  | nil => rfl
  | cons part parts ih =>
    cases parts with
    | nil => exact behind (part ++ mark)
    | cons next parts =>
      have longer : join mark (next :: parts ++ [last]) ≠ [] := by
        intro empty
        rw [empty, List.getLast?_nil] at ih
        exact nonempty (List.getLast?_eq_none_iff.mp ih.symm)
      rw [← ih]
      exact List.getLast?_append_of_ne_nil (part ++ mark) longer

end ReadOnlyViews.Text

namespace ReadOnlyViews

theorem nodup_eraseDups {α : Type} [BEq α] [LawfulBEq α] (items : List α) :
    items.eraseDups.Nodup := by
  suffices ∀ size (items : List α), items.length ≤ size → items.eraseDups.Nodup from
    this _ items (Nat.le_refl _)
  intro size
  induction size with
  | zero =>
    intro items empty
    simp [List.length_eq_zero_iff.mp (Nat.le_zero.mp empty)]
  | succ size ih =>
    intro items short
    cases items with
    | nil => simp
    | cons item items =>
      rw [List.eraseDups_cons, List.nodup_cons]
      refine ⟨by simp, ih _ (Nat.le_trans (List.length_filter_le _ _) ?_)⟩
      simpa using short

/-- The code points of white space. -/
def blankCodes : List Nat :=
  [0x9, 0xa, 0xb, 0xc, 0xd, 0x1c, 0x1d, 0x1e, 0x1f, 0x20, 0x85, 0xa0, 0x1680, 0x2000, 0x2001, 0x2002,
    0x2003, 0x2004, 0x2005, 0x2006, 0x2007, 0x2008, 0x2009, 0x200a, 0x2028, 0x2029, 0x202f, 0x205f,
    0x3000]

theorem mem_blankCodes_of_isBlank {c : Char} (blank : isBlank c = true) : c.toNat ∈ blankCodes := by
  simp only [isBlank, Bool.or_eq_true, Bool.and_eq_true, decide_eq_true_eq, beq_iff_eq] at blank
  simp only [blankCodes, List.mem_cons, List.not_mem_nil, or_false]
  omega

/-- White space belongs to no word. -/
theorem isWord_of_isBlank {c : Char} (blank : isBlank c = true) : isWord c = false := by
  have none : ∀ n ∈ blankCodes, isWord (Char.ofNat n) = false := by decide +kernel
  simpa using none _ (mem_blankCodes_of_isBlank blank)

end ReadOnlyViews
