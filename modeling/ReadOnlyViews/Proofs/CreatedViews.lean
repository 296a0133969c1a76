import ReadOnlyViews.Proofs.BestMatches
import ReadOnlyViews.Proofs.Texts
import ReadOnlyViews.Sql.Statement

/-! The query of a statement that creates a view.  A header is given by its words and the white space
between them, without the pattern that looks for it.  Every header is read as it was written: where
the pattern has a choice, the first way that leads on is the one that the header took, so the query is
whatever follows, even if that looks like another header. -/
namespace ReadOnlyViews

namespace Pattern

private theorem stops_append_of_nil {p q : Pattern} {place : Cursor} (none : p.stops place = []) :
    (p ++ q).stops place = [] := by
  change (p.stops place).flatMap q.stops = []
  rw [none, List.flatMap_nil]

/-- A keyword is not found where another letter stands. -/
theorem stops_anyCase_eq_nil {c : Char} {after : Text} (other : after.head?.any (sameLetter c) = false)
    (part before : Text) : (anyCase (c :: part)).stops ⟨before, after⟩ = [] := by
  refine stops_append_of_nil (q := anyCase part) ?_
  cases after with
  | nil => rfl
  | cons d after =>
    have apart : sameLetter c d = false := by simpa using other
    simp [stops, apart]

end Pattern

namespace Sql

open Pattern (blanks1 anyCase sameLetter)

/-! ## Names -/

/-- The characters that a name may stand between. -/
def quotes : List Char := ['"', '\x60']

/-- A name as a statement writes it: a word, or anything between two quotes. -/
inductive IsIdentifier : Text → Prop where
  | word {name : Text} (nonempty : name ≠ []) (word : ∀ c ∈ name, isWord c = true) : IsIdentifier name
  | quoted {quote : Char} {name : Text} (isQuote : quote ∈ quotes) (nonempty : name ≠ [])
      (inside : quote ∉ name) : IsIdentifier (quote :: name ++ [quote])

private theorem isWord_of_mem_quotes {quote : Char} (isQuote : quote ∈ quotes) : isWord quote = false := by
  have none : (quotes.all fun c => !isWord c) = true := by decide
  simpa using List.all_eq_true.mp none quote isQuote

/-- A word does not start with a quote. -/
theorem word_ne_quoted {name rest tail : Text} {quote : Char} (nonempty : name ≠ [])
    (word : ∀ c ∈ name, isWord c = true) (isQuote : quote ∈ quotes) : name ++ rest ≠ quote :: tail := by
  obtain ⟨c, others, rfl⟩ := List.exists_cons_of_ne_nil nonempty
  intro same
  have isWord_ : isWord c = true := word c List.mem_cons_self
  rw [(List.cons.inj same).1, isWord_of_mem_quotes isQuote] at isWord_
  cases isWord_

private theorem isBlank_of_mem_quotes {quote : Char} (isQuote : quote ∈ quotes) : isBlank quote = false := by
  have none : (quotes.all fun c => !isBlank c) = true := by decide
  simpa using List.all_eq_true.mp none quote isQuote

private theorem isBlank_of_isWord {c : Char} (word : isWord c = true) : isBlank c = false := by
  by_contra blank
  rw [isWord_of_isBlank (by simpa using blank)] at word
  cases word

/-- The characters of a quoted name are not its quote. -/
theorem bne_of_notMem {quote : Char} {name : Text} (inside : quote ∉ name) :
    ∀ c ∈ name, (c != quote) = true := by
  intro c member
  simpa using fun equal : c = quote => inside (equal ▸ member)

namespace IsIdentifier

private theorem head_visible {name : Text} (isIdentifier : IsIdentifier name) (rest : Text) :
    (name ++ rest).head?.any isBlank = false := by
  cases isIdentifier with
  | word nonempty word =>
    obtain ⟨c, others, rfl⟩ := List.exists_cons_of_ne_nil nonempty
    simp [isBlank_of_isWord (word c List.mem_cons_self)]
  | quoted isQuote nonempty inside => simp [isBlank_of_mem_quotes isQuote]

/-- Where a name ends is settled by the text: two names that a text starts with are the same, if
neither goes on as a word. -/
theorem unique {name other rest tail : Text} {c d : Char} (first : IsIdentifier name)
    (second : IsIdentifier other) (ended : isWord c = false) (otherEnded : isWord d = false)
    (same : name ++ c :: rest = other ++ d :: tail) : name = other ∧ c = d ∧ rest = tail := by
  cases first with
  | word nonempty word =>
    cases second with
    | word _ otherWord => exact Text.append_cons_inj_of_all word otherWord ended otherEnded same
    | quoted isQuote _ _ => exact absurd same (word_ne_quoted nonempty word isQuote)
  | @quoted quote inner isQuote _ inside =>
    cases second with
    | word otherNonempty otherWord =>
      exact absurd same.symm (word_ne_quoted otherNonempty otherWord isQuote)
    | @quoted otherQuote otherInner _ _ otherInside =>
      obtain ⟨rfl, behind⟩ : quote = otherQuote ∧
          inner ++ quote :: c :: rest = otherInner ++ otherQuote :: d :: tail := by simpa using same
      obtain ⟨rfl, -, further⟩ := Text.append_cons_inj_of_all (bne_of_notMem inside)
        (bne_of_notMem otherInside) (by simp) (by simp) behind
      exact ⟨rfl, List.cons.inj further⟩

end IsIdentifier

/-- A name in one kind of quotes. -/
def quotedName (quote : Char) : Pattern :=
  Pattern.exactly [quote] ++ Pattern.run1 (· != quote) ++ Pattern.exactly [quote]

private theorem identifier_eq : identifier =
    .either (.run1 isWord) (.either (quotedName '"') (quotedName '\x60')) := rfl

private theorem spans_quotedName {quote : Char} {before mid after : Text} :
    (quotedName quote).Spans before mid after ↔
      ∃ name, name ≠ [] ∧ quote ∉ name ∧ mid = quote :: name ++ [quote] := by
  simp only [quotedName, Pattern.spans_append, Pattern.spans_exactly, Pattern.spans_run1, bne_iff_ne]
  constructor
  · rintro ⟨_, _, rfl, ⟨_, name, rfl, rfl, nonempty, inside⟩, rfl⟩
    exact ⟨name, nonempty, fun member => inside quote member rfl, rfl⟩
  · rintro ⟨name, nonempty, inside, rfl⟩
    refine ⟨quote :: name, [quote], rfl, ⟨[quote], name, rfl, rfl, nonempty, ?_⟩, rfl⟩
    rintro c member rfl
    exact inside member

/-- The pattern of a name matches the names and nothing else. -/
theorem spans_identifier {before mid after : Text} :
    identifier.Spans before mid after ↔ IsIdentifier mid := by
  rw [identifier_eq, Pattern.spans_either, Pattern.spans_either, Pattern.spans_run1, spans_quotedName,
    spans_quotedName]
  constructor
  · rintro (⟨nonempty, word⟩ | ⟨name, nonempty, inside, rfl⟩ | ⟨name, nonempty, inside, rfl⟩)
    · exact .word nonempty word
    · exact .quoted (by simp [quotes]) nonempty inside
    · exact .quoted (by simp [quotes]) nonempty inside
  · intro isIdentifier
    cases isIdentifier with
    | word nonempty word => exact .inl ⟨nonempty, word⟩
    | @quoted quote name isQuote nonempty inside =>
      obtain rfl | rfl : quote = '"' ∨ quote = '\x60' := by simpa [quotes] using isQuote
      · exact .inr (.inl ⟨name, nonempty, inside, rfl⟩)
      · exact .inr (.inr ⟨name, nonempty, inside, rfl⟩)

private theorem takes_quotedName {quote : Char} {name before after : Text} (nonempty : name ≠ [])
    (inside : quote ∉ name) : (quotedName quote).Takes before (quote :: name ++ [quote]) after := by
  have run : (Pattern.run1 (· != quote)).Takes ([quote].reverse ++ before) name ([quote] ++ after) :=
    Pattern.takes_run1 nonempty (bne_of_notMem inside) (by simp)
  exact ((Pattern.takes_exactly [quote]).append run).append (Pattern.takes_exactly [quote])

/-- A quoted name starts neither a word nor a name in other quotes. -/
theorem stops_quotedName_eq_nil {quote other : Char} (apart : quote ≠ other) (before rest : Text) :
    (quotedName quote).stops ⟨before, other :: rest⟩ = [] := by
  refine Pattern.stops_eq_nil_iff.mpr fun mid after same spans => apart ?_
  obtain ⟨name, -, -, rfl⟩ := spans_quotedName.mp spans
  exact (List.cons.inj same).1.symm

/-- A name is read whole, if what follows does not lengthen it. -/
theorem takes_identifier {name before after : Text} (isIdentifier : IsIdentifier name)
    (ended : after.head?.any isWord = false) : identifier.Takes before name after := by
  rw [identifier_eq]
  cases isIdentifier with
  | word nonempty word => exact (Pattern.takes_run1 nonempty word ended).either_left
  | @quoted quote inner isQuote nonempty inside =>
    have noWord : (Pattern.run1 isWord).stops ⟨before, quote :: inner ++ [quote] ++ after⟩ = [] := by
      refine Pattern.stops_eq_nil_iff.mpr fun mid rest same spans => ?_
      obtain ⟨nonempty, word⟩ := Pattern.spans_run1.mp spans
      exact absurd same.symm (word_ne_quoted nonempty word isQuote)
    refine .either_right noWord ?_
    obtain rfl | rfl : quote = '"' ∨ quote = '\x60' := by simpa [quotes] using isQuote
    · exact (takes_quotedName nonempty inside).either_left
    · exact .either_right (stops_quotedName_eq_nil (by decide) _ _) (takes_quotedName nonempty inside)

/-! ## Headers -/

/-- White space between two words. -/
structure Gap where
  text : Text
  nonempty : text ≠ []
  blank : ∀ c ∈ text, isBlank c = true

/-- A keyword in any mixture of cases. -/
structure Keyword (word : Text) where
  text : Text
  spells : List.Forall₂ (fun c d => sameLetter c d = true) word text

/-- Every letter of a keyword may be a capital or a small one. -/
def Keyword.inCases {word : Text} (text : Text) (letters : text.map Char.toLower = word.map Char.toLower) :
    Keyword word where
  text := text
  spells := by
    induction word generalizing text with
    | nil => simp_all
    | cons c word ih =>
      obtain ⟨d, others, rfl, first, rest⟩ := List.map_eq_cons_iff.mp letters
      exact .cons (by simp [sameLetter, first]) (ih others rest)

/-- A name. -/
structure Identifier where
  text : Text
  isIdentifier : IsIdentifier text

/-- The words that let a view take the place of an earlier one. -/
structure Replacing where
  orWord : Keyword "OR"
  orGap : Gap
  replace : Keyword "REPLACE"
  replaceGap : Gap

/-- All that stands in front of the query in a statement that creates a view. -/
structure Header where
  indent : Text
  indented : ∀ c ∈ indent, isBlank c = true
  create : Keyword "CREATE"
  createGap : Gap
  replacing? : Option Replacing
  view : Keyword "VIEW"
  viewGap : Gap
  schema? : Option Identifier
  name : Identifier
  nameGap : Gap
  asWord : Keyword "AS"
  asGap : Gap

def Replacing.text (replacing : Replacing) : Text :=
  replacing.orWord.text ++ replacing.orGap.text ++ replacing.replace.text ++ replacing.replaceGap.text

namespace Header

/-- The words for a replacement, if there are any. -/
def replacement (header : Header) : Text := (header.replacing?.map Replacing.text).getD []

/-- The schema with its point, if there is one. -/
def qualifier (header : Header) : Text := (header.schema?.map fun schema => schema.text ++ ['.']).getD []

/-- The header from its first keyword to its last. -/
def words (header : Header) : Text :=
  header.create.text ++ header.createGap.text ++ header.replacement ++ header.view.text ++
    header.viewGap.text ++ header.qualifier ++ header.name.text ++ header.nameGap.text ++ header.asWord.text

/-- The header as it is written. -/
def text (header : Header) : Text := header.indent ++ header.words ++ header.asGap.text

end Header

/-! ## A header is read as it is written -/

/-- The first letters of the keywords. -/
def initials : List Char := ['C', 'O', 'R', 'V', 'A']

private theorem isBlank_of_sameLetter {c d : Char} (initial : c ∈ initials) (same : sameLetter c d = true) :
    isBlank d = false := by
  have none : (blankCodes.all fun n => initials.all fun c => !sameLetter c (Char.ofNat n)) = true := by
    decide +kernel
  by_contra blank
  have code := mem_blankCodes_of_isBlank (by simpa using blank : isBlank d = true)
  have apart := List.all_eq_true.mp (List.all_eq_true.mp none _ code) c initial
  simp [same] at apart

private theorem Keyword.exists_cons {c : Char} {word : Text} (keyword : Keyword (c :: word)) :
    ∃ d others, keyword.text = d :: others ∧ sameLetter c d = true := by
  obtain ⟨text, spells⟩ := keyword
  cases spells with
  | cons same _ => exact ⟨_, _, rfl, same⟩

private theorem Keyword.head_visible {c : Char} {word : Text} (keyword : Keyword (c :: word))
    (initial : c ∈ initials) (rest : Text) : (keyword.text ++ rest).head?.any isBlank = false := by
  obtain ⟨d, others, spelled, same⟩ := keyword.exists_cons
  simp [spelled, isBlank_of_sameLetter initial same]

theorem Keyword.takes {word before after : Text} (keyword : Keyword word) :
    (anyCase word).Takes before keyword.text after :=
  Pattern.takes_anyCase keyword.spells

theorem Gap.takes {before after : Text} (gap : Gap) (visible : after.head?.any isBlank = false) :
    blanks1.Takes before gap.text after :=
  Pattern.takes_run1 gap.nonempty gap.blank visible

private theorem Gap.exists_cons (gap : Gap) : ∃ c others, gap.text = c :: others ∧ isBlank c = true := by
  obtain ⟨c, others, spelled⟩ := List.exists_cons_of_ne_nil gap.nonempty
  exact ⟨c, others, spelled, gap.blank c (by simp [spelled])⟩

theorem Replacing.takes {before after : Text} (replacing : Replacing)
    (visible : after.head?.any isBlank = false) :
    (anyCase "OR" ++ blanks1 ++ anyCase "REPLACE" ++ blanks1).Takes before replacing.text after :=
  ((replacing.orWord.takes.append
    (replacing.orGap.takes (replacing.replace.head_visible (by decide) _))).append
    replacing.replace.takes).append (replacing.replaceGap.takes visible)

namespace Header

variable {before after : Text}

/-- No word for a replacement starts where the word for a view stands. -/
theorem replacing_stops (header : Header) :
    (anyCase "OR" ++ blanks1 ++ anyCase "REPLACE" ++ blanks1).stops
      ⟨before, header.view.text ++ after⟩ = [] := by
  obtain ⟨d, others, spelled, same⟩ := Keyword.exists_cons (c := 'V') header.view
  have small : 'v' = d.toLower := by simpa [sameLetter] using same
  have other : (header.view.text ++ after).head?.any (sameLetter 'O') = false := by
    simp [spelled, sameLetter, ← small]
  exact Pattern.stops_append_of_nil (Pattern.stops_append_of_nil (Pattern.stops_append_of_nil
    (Pattern.stops_anyCase_eq_nil other ['R'] before)))

private theorem replacement_takes (header : Header) :
    (Pattern.optional (anyCase "OR" ++ blanks1 ++ anyCase "REPLACE" ++ blanks1)).Takes
      before header.replacement (header.view.text ++ after) := by
  rw [replacement]
  cases header.replacing? with
  | none => exact Pattern.optional_takes_nil header.replacing_stops
  | some replacing => exact (replacing.takes (header.view.head_visible (by decide) after)).optional

private theorem replacement_visible (header : Header) :
    (header.replacement ++ (header.view.text ++ after)).head?.any isBlank = false := by
  rw [replacement]
  cases header.replacing? with
  | none => exact header.view.head_visible (by decide) after
  | some replacing =>
    simp only [Option.map_some, Option.getD_some, Replacing.text, List.append_assoc]
    exact replacing.orWord.head_visible (by decide) _

/-- The name of a view without a schema is not taken for a schema: no point follows it. -/
theorem schema_stops (header : Header) :
    (identifier ++ Pattern.exactly ['.']).stops
      ⟨before, header.name.text ++ (header.nameGap.text ++ after)⟩ = [] := by
  refine Pattern.stops_eq_nil_iff.mpr fun mid rest same spans => ?_
  obtain ⟨front, back, rfl, names, point⟩ := Pattern.spans_append.mp spans
  obtain rfl := Pattern.spans_exactly.mp point
  obtain ⟨c, others, spelled, blank⟩ := header.nameGap.exists_cons
  rw [spelled, List.append_assoc] at same
  obtain ⟨-, rfl, -⟩ := header.name.isIdentifier.unique (spans_identifier.mp names)
    (isWord_of_isBlank blank) (by decide) same
  exact absurd blank (by decide)

private theorem qualifier_takes (header : Header) :
    (Pattern.optional (identifier ++ Pattern.exactly ['.'])).Takes before header.qualifier
      (header.name.text ++ (header.nameGap.text ++ after)) := by
  rw [qualifier]
  cases header.schema? with
  | none => exact Pattern.optional_takes_nil header.schema_stops
  | some schema =>
    have name : identifier.Takes before schema.text (['.'] ++ (header.name.text ++
        (header.nameGap.text ++ after))) :=
      takes_identifier schema.isIdentifier (show isWord '.' = false by decide)
    exact (name.append (Pattern.takes_exactly ['.'])).optional

private theorem qualifier_visible (header : Header) :
    (header.qualifier ++ (header.name.text ++ after)).head?.any isBlank = false := by
  rw [qualifier]
  cases header.schema? with
  | none => exact header.name.isIdentifier.head_visible after
  | some schema =>
    simp only [Option.map_some, Option.getD_some, List.append_assoc]
    exact schema.isIdentifier.head_visible _

private theorem name_takes (header : Header) :
    identifier.Takes before header.name.text (header.nameGap.text ++ after) := by
  obtain ⟨c, others, spelled, blank⟩ := header.nameGap.exists_cons
  exact takes_identifier header.name.isIdentifier (by simp [spelled, isWord_of_isBlank blank])

/-- The lead of the search takes the header and all the white space behind it. -/
theorem takes (header : Header) {gap : Text} (nonempty : gap ≠ []) (blank : ∀ c ∈ gap, isBlank c = true)
    (visible : after.head?.any isBlank = false) :
    createView.lead.Takes before (header.words ++ gap) after := by
  have start (rest : Text) : (header.asWord.text ++ rest).head?.any isBlank = false :=
    header.asWord.head_visible (by decide) rest
  exact (((((((((header.create.takes).append
    (header.createGap.takes header.replacement_visible)).append
    header.replacement_takes).append
    header.view.takes).append
    (header.viewGap.takes header.qualifier_visible)).append
    header.qualifier_takes).append
    header.name_takes).append
    (header.nameGap.takes (start _))).append
    header.asWord.takes).append
    (Pattern.takes_run1 nonempty blank visible)

end Header

/-- No statement starts with white space. -/
theorem stretchAt?_of_isBlank {before after : Text} {c : Char} (blank : isBlank c = true) :
    createView.stretchAt? ⟨before, c :: after⟩ = none := by
  have other : (c :: after).head?.any (sameLetter 'C') = false := by
    by_contra same
    rw [isBlank_of_sameLetter (c := 'C') (by decide) (by simpa using same)] at blank
    cases blank
  have none := Pattern.stops_anyCase_eq_nil other "REATE".toList before
  refine Probe.stretchAt?_of_no_lead ?_
  iterate 9 refine Pattern.stops_append_of_nil ?_
  exact none

/-- The query of a statement that creates a view is all that follows the header, white space at
either end aside: whatever the case of the keywords, the white space between the words, the form of
the names and the text of the query. -/
theorem selectStatement_header (header : Header) {query : Text} (visible : query.all isBlank = false) :
    selectStatement (header.text ++ query) = Text.trim query := by
  obtain ⟨indent, c, rest, rfl, blank, shown⟩ := Text.exists_visible visible
  have leads : createView.lead.Takes header.indent.reverse
      (header.words ++ (header.asGap.text ++ indent)) (c :: rest ++ []) :=
    header.takes (by simp [header.asGap.nonempty])
      (List.forall_mem_append.mpr ⟨header.asGap.blank, blank⟩) (by simp [shown])
  have matched : createView.target.Takes
      ((header.words ++ (header.asGap.text ++ indent)).reverse ++ header.indent.reverse) (c :: rest) [] :=
    Pattern.takes_run1 (by simp) (by simp) rfl
  have found := Cursor.scan_of_answer (Probe.stretchAt?_of_takes leads matched rfl)
  rw [List.append_nil] at found
  have spelled : header.text ++ (indent ++ c :: rest) =
      header.indent ++ (header.words ++ (header.asGap.text ++ indent) ++ c :: rest) := by
    simp [Header.text]
  have passed := Cursor.scan_append header.indented
    (fun before c after blank => stretchAt?_of_isBlank blank) []
    (header.words ++ (header.asGap.text ++ indent) ++ c :: rest)
  rw [List.append_nil] at passed
  have named := Stretch.text_of_passed
    ((header.words ++ (header.asGap.text ++ indent)).reverse ++ header.indent.reverse) (c :: rest) []
  rw [List.append_nil] at named
  rw [selectStatement, Probe.find?, spelled, passed, found, Text.trim_append_of_blank blank]
  exact congrArg Text.trim named

/-- A header over several lines whose name is a keyword and whose schema holds a point. -/
def nestedHeader : Header where
  indent := "\n\t"
  indented := List.all_eq_true.mp (by decide)
  create := .inCases "cReate" (by decide)
  createGap := ⟨"  ", by decide, List.all_eq_true.mp (by decide)⟩
  replacing? := some {
    orWord := .inCases "or" (by decide)
    orGap := ⟨"\n", by decide, List.all_eq_true.mp (by decide)⟩
    replace := .inCases "REPLACE" (by decide)
    replaceGap := ⟨" \t", by decide, List.all_eq_true.mp (by decide)⟩ }
  view := .inCases "View" (by decide)
  viewGap := ⟨"\r\n", by decide, List.all_eq_true.mp (by decide)⟩
  schema? := some ⟨"\"my.db\"", @IsIdentifier.quoted '"' "my.db" (by decide) (by decide) (by decide)⟩
  name := ⟨"AS", .word (by decide) (List.all_eq_true.mp (by decide))⟩
  nameGap := ⟨" ", by decide, List.all_eq_true.mp (by decide)⟩
  asWord := .inCases "aS" (by decide)
  asGap := ⟨"\n", by decide, List.all_eq_true.mp (by decide)⟩

example : nestedHeader.text = "\n\tcReate  or\nREPLACE \tView\r\n\"my.db\".AS aS\n" := by decide

/-- A query that looks like another statement is taken whole. -/
theorem selectStatement_nestedHeader :
    List.all " create view v as select 'x' as y \n" isBlank = false ∧
    selectStatement (nestedHeader.text ++ " create view v as select 'x' as y \n") =
      "create view v as select 'x' as y" :=
  ⟨by decide, (selectStatement_header nestedHeader (by decide)).trans (by decide)⟩

end Sql

end ReadOnlyViews
