/-!
Text as the list of its characters, and the searches, cuts and joins that the rest of the library
is built from.  Everything is structural, so a statement about an edit is a statement about lists.
-/

namespace ReadOnlyViews

/-- Text is its list of code points.  Nothing is translated: a carriage return is a character. -/
abbrev Text := List Char

/-- A literal stands for the text it spells. -/
instance : Coe String Text := ⟨String.toList⟩

namespace Text

/-- A number in decimal. -/
def ofNat (n : Nat) : Text := Nat.toDigits 10 n

/-- An integer in decimal, with a minus sign when it is negative. -/
def ofInt (z : Int) : Text :=
  if z < 0 then '-' :: ofNat z.natAbs else ofNat z.natAbs

/-- A number in decimal, with leading zeros up to the given width. -/
def ofNatPadded (width n : Nat) : Text :=
  let digits := ofNat n
  List.replicate (width - digits.length) '0' ++ digits

/-- What follows `part` when the text starts with it. -/
def after? : (part text : Text) → Option Text
  | [], text => some text
  | _ :: _, [] => none
  | c :: part, d :: text => if c = d then after? part text else none

theorem after?_eq_some_iff {part text rest : Text} :
    after? part text = some rest ↔ text = part ++ rest := by
  induction part generalizing text with
  | nil => simp [after?]
  | cons c part ih =>
    cases text with
    | nil => simp [after?]
    | cons d text =>
      by_cases same : c = d
      · simp [after?, same, ih]
      · simp [after?, same, Ne.symm same]

/-- Whether `part` occurs in the text. -/
def includes (part : Text) : Text → Bool
  | [] => part.isEmpty
  | c :: rest => part.isPrefixOf (c :: rest) || includes part rest

/-- The offset of the first occurrence of `part`. -/
def offsetOf? (part : Text) : Text → Option Nat
  | [] => if part.isEmpty then some 0 else none
  | c :: rest =>
    if part.isPrefixOf (c :: rest) then some 0 else (offsetOf? part rest).map (· + 1)

/-- The text without the first occurrence of `part`. -/
def eraseFirst (part : Text) : Text → Text
  | [] => []
  | c :: rest =>
    match after? part (c :: rest) with
    | some tail => tail
    | none => c :: eraseFirst part rest

/-- The pieces between the occurrences of one character; always at least one piece. -/
def pieces (mark : Char) : Text → List Text
  | [] => [[]]
  | c :: rest =>
    if c = mark then [] :: pieces mark rest
    else match pieces mark rest with
      | [] => [[c]]
      | piece :: others => (c :: piece) :: others

/-- The pieces in order with `mark` between neighbours. -/
def join (mark : Text) : List Text → Text
  | [] => []
  | [piece] => piece
  | piece :: next :: others => piece ++ mark ++ join mark (next :: others)

theorem pieces_ne_nil (mark : Char) (text : Text) : pieces mark text ≠ [] := by
  cases text with
  | nil => simp [pieces]
  | cons c rest =>
    by_cases same : c = mark
    · simp [pieces, same]
    · simp only [pieces, same, if_false]
      split <;> simp

/-- Joining with the mark gives back the text that was cut at it. -/
theorem join_pieces (mark : Char) (text : Text) : join [mark] (pieces mark text) = text := by
  induction text with
  | nil => rfl
  | cons c rest ih =>
    obtain ⟨piece, others, cut⟩ := List.exists_cons_of_ne_nil (pieces_ne_nil mark rest)
    rw [cut] at ih
    by_cases same : c = mark
    · simp [pieces, same, cut, join, ih]
    · simp only [pieces, same, if_false, cut]
      cases others with
      | nil => simpa [join] using ih
      | cons next others => simpa [join] using ih

/-- Every occurrence of one character replaced by a text. -/
def replaceChar (mark : Char) (replacement text : Text) : Text :=
  text.flatMap fun c => if c = mark then replacement else [c]

/-- What follows the last occurrence of one character, or the whole text. -/
def afterLast (mark : Char) (text : Text) : Text :=
  (text.reverse.takeWhile (· != mark)).reverse

/-- Whether the text ends with `part`. -/
def endsWith (part text : Text) : Bool := part.isSuffixOf text

/-- The number of line feeds among the characters. -/
def lineFeeds (text : Text) : Nat := text.count '\n'

/-- Code-point order, as every listing of names and imports uses it; a text is before itself. -/
def before : Text → Text → Bool
  | [], _ => true
  | _ :: _, [] => false
  | c :: a, d :: b => if c = d then before a b else c.toNat < d.toNat

theorem before_refl (a : Text) : before a a = true := by
  induction a with
  | nil => rfl
  | cons c a ih => simp [before, ih]

theorem before_total (a b : Text) : before a b = true ∨ before b a = true := by
  induction a generalizing b with
  | nil => exact .inl rfl
  | cons c a ih =>
    cases b with
    | nil => exact .inr rfl
    | cons d b =>
      by_cases same : c = d
      · simpa [before, same] using ih b
      · have apart : c.toNat ≠ d.toNat := fun h => same (Char.toNat_inj.mp h)
        simp only [before, same, Ne.symm same, if_false, decide_eq_true_eq]
        omega

theorem before_trans {a b c : Text} (ab : before a b = true) (bc : before b c = true) :
    before a c = true := by
  induction a generalizing b c with
  | nil => rfl
  | cons x a ih =>
    cases b with
    | nil => simp [before] at ab
    | cons y b =>
      cases c with
      | nil => simp [before] at bc
      | cons z c =>
        by_cases xy : x = y
        · subst xy
          by_cases xz : x = z
          · simp only [before, xz, if_true] at ab bc ⊢
            exact ih ab bc
          · simpa [before, xz] using bc
        · by_cases yz : y = z
          · subst yz
            simpa [before, xy] using ab
          · simp only [before, xy, yz, if_false, decide_eq_true_eq] at ab bc
            have xz : x ≠ z := by rintro rfl; omega
            simp only [before, xz, if_false, decide_eq_true_eq]
            omega

/-- Texts in code-point order; equal texts keep their order. -/
def sorted (texts : List Text) : List Text := texts.mergeSort before

theorem sorted_perm (texts : List Text) : (sorted texts).Perm texts :=
  List.mergeSort_perm texts before

theorem sorted_pairwise (texts : List Text) :
    (sorted texts).Pairwise fun a b => before a b = true := by
  have total (a b : Text) : (before a b || before b a) = true := by
    simpa using before_total a b
  have chain (a b c : Text) : before a b = true → before b c = true → before a c = true :=
    before_trans
  exact List.pairwise_mergeSort chain total texts

end Text

end ReadOnlyViews
