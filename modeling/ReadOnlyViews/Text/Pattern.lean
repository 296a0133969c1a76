import ReadOnlyViews.Text.Blank
import ReadOnlyViews.Text.Word

/-!
Text patterns.  A pattern says where a match that starts at a place of a text may stop; the
possible stops are listed best first, so "the" match is the first one listed.  A choice prefers its
left side, and a run or a repetition prefers to take as much as it can.
-/

namespace ReadOnlyViews

/-- A place in a text: the characters before it, nearest first, and those after it. -/
structure Cursor where
  before : Text
  after : Text
  deriving DecidableEq, Repr

namespace Cursor

/-- The number of characters before the place. -/
def offset (place : Cursor) : Nat := place.before.length

/-- The place behind `part`, when the text goes on with it. -/
def past? : (part : Text) → (place : Cursor) → Option Cursor
  | [], place => some place
  | _ :: _, ⟨_, []⟩ => none
  | c :: part, ⟨before, d :: after⟩ =>
    if c = d then past? part ⟨d :: before, after⟩ else none

/-- The places behind ever longer runs of allowed characters, longest run first. -/
def runs (allowed : Char → Bool) : (before after : Text) → (shorter : List Cursor) → List Cursor
  | before, [], shorter => ⟨before, []⟩ :: shorter
  | before, c :: after, shorter =>
    if allowed c then runs allowed (c :: before) after (⟨before, c :: after⟩ :: shorter)
    else ⟨before, c :: after⟩ :: shorter

/-- Whether a line starts here. -/
def atLineStart (place : Cursor) : Bool :=
  match place.before with
  | [] => true
  | c :: _ => c == '\n'

/-- Whether exactly one of the two neighbours is a word character. -/
def atWordEdge (place : Cursor) : Bool :=
  (place.before.head?.any isWord) != (place.after.head?.any isWord)

/-- Whether the text ends here, a last line feed aside. -/
def atLastLineEnd (place : Cursor) : Bool :=
  match place.after with
  | [] => true
  | [c] => c == '\n'
  | _ => false

end Cursor

/-- What a match looks like. -/
inductive Pattern where
  /-- Nothing at all. -/
  | nothing
  /-- Exactly this text. -/
  | exactly (part : Text)
  /-- One allowed character. -/
  | one (allowed : Char → Bool)
  /-- Any number of allowed characters, as many as possible. -/
  | run (allowed : Char → Bool)
  /-- One pattern and then another. -/
  | thenAlso (first second : Pattern)
  /-- Either pattern, the first one preferred. -/
  | either (first second : Pattern)
  /-- Any number of matches in a row, as many as possible. -/
  | repeated (body : Pattern)
  /-- The start of a line. -/
  | lineStart
  /-- A border between a word character and anything else. -/
  | wordEdge
  /-- The end of the text. -/
  | textEnd
  /-- The end of the text, a last line feed aside. -/
  | lastLineEnd
  /-- A place where the pattern does not match. -/
  | notAhead (body : Pattern)

namespace Pattern

/-- Two patterns in a row. -/
instance : Append Pattern := ⟨thenAlso⟩

/-- A literal matches the text it spells. -/
instance : Coe String Pattern := ⟨fun s => exactly s.toList⟩

/-- The pattern or nothing, the pattern preferred. -/
def optional (p : Pattern) : Pattern := either p nothing

/-- At least one allowed character, as many as possible. -/
def run1 (allowed : Char → Bool) : Pattern := one allowed ++ run allowed

/-- A pattern a given number of times. -/
def times (p : Pattern) : Nat → Pattern
  | 0 => nothing
  | count + 1 => p ++ times p count

/-- White space of any kind. -/
def blanks : Pattern := run isBlank

/-- At least one character of white space. -/
def blanks1 : Pattern := run1 isBlank

/-- The rest of a line, or a part of it. -/
def withinLine : Pattern := run (· != '\n')

/-- The end of a line with its line feed, or the end of the text. -/
def lineBreakOrEnd : Pattern := either (optional (exactly ['\r']) ++ exactly ['\n']) textEnd

/-- Whether two characters are the same letter, case aside.  The long s counts as an s, and the
dotless and the dotted letter as an i. -/
def sameLetter (c d : Char) : Bool :=
  c.toLower == d.toLower || (c.toLower == 's' && d == 'ſ') ||
    (c.toLower == 'i' && (d == 'İ' || d == 'ı'))

/-- A text of ASCII characters in any mixture of cases. -/
def anyCase (part : Text) : Pattern :=
  part.foldr (fun c rest => one (sameLetter c) ++ rest) nothing

/-- Where repetitions of a step may stop, most repetitions first.  A step that consumes nothing is
not repeated, so the characters left bound the number of steps. -/
def repetitions (step : Cursor → List Cursor) : (bound : Nat) → Cursor → List Cursor
  | 0, place => [place]
  | bound + 1, place =>
    ((step place).filter (fun next => next.after.length < place.after.length)).flatMap
      (repetitions step bound) ++ [place]

/-- The places where a match that starts here may stop, best first. -/
def stops : Pattern → Cursor → List Cursor
  | nothing, place => [place]
  | exactly part, place => (place.past? part).toList
  | one allowed, place =>
    match place with
    | ⟨_, []⟩ => []
    | ⟨before, c :: after⟩ => if allowed c then [⟨c :: before, after⟩] else []
  | run allowed, place => Cursor.runs allowed place.before place.after []
  | thenAlso first second, place => (first.stops place).flatMap second.stops
  | either first second, place => first.stops place ++ second.stops place
  | repeated body, place => repetitions body.stops place.after.length place
  | lineStart, place => if place.atLineStart then [place] else []
  | wordEdge, place => if place.atWordEdge then [place] else []
  | textEnd, place => if place.after.isEmpty then [place] else []
  | lastLineEnd, place => if place.atLastLineEnd then [place] else []
  | notAhead body, place => if (body.stops place).isEmpty then [place] else []

/-- Whether some match starts here. -/
def startsAt (p : Pattern) (place : Cursor) : Bool := !(p.stops place).isEmpty

end Pattern

/-- The first answer found from left to right, the end of the text included. -/
def Cursor.scan {α : Type} (answer? : Cursor → Option α) : (before after : Text) → Option α
  | before, [] => answer? ⟨before, []⟩
  | before, c :: after =>
    match answer? ⟨before, c :: after⟩ with
    | some answer => some answer
    | none => Cursor.scan answer? (c :: before) after

/-- A stretch of a text, by the places at its two ends. -/
structure Stretch where
  start : Cursor
  stop : Cursor
  deriving DecidableEq, Repr

/-- The characters of a stretch. -/
def Stretch.text (stretch : Stretch) : Text :=
  stretch.start.after.take (stretch.stop.offset - stretch.start.offset)

/-- What to look for: a target that stands between a lead and a tail. -/
structure Probe where
  lead : Pattern := .nothing
  target : Pattern
  tail : Pattern := .nothing

namespace Probe

/-- The stretch of the target in the match that starts here. -/
def stretchAt? (probe : Probe) (place : Cursor) : Option Stretch :=
  (probe.lead.stops place).findSome? fun start =>
    (probe.target.stops start).findSome? fun stop =>
      if probe.tail.startsAt stop then some ⟨start, stop⟩ else none

/-- The stretch of the target in the first match of a text. -/
def find? (probe : Probe) (text : Text) : Option Stretch :=
  Cursor.scan probe.stretchAt? [] text

/-- The text from a place on with a mark between the lead and the target of each match.  Each match
is taken as soon as it starts, unless it is empty, and the search goes on behind its target; `skip`
counts the characters of the current match that are already written. -/
def markAllFrom (probe : Probe) (mark : Text) : (skip : Nat) → (before after : Text) → Text
  | _, _, [] => []
  | skip + 1, before, c :: after => probe.markAllFrom mark skip (c :: before) after
  | 0, before, c :: after =>
    match (probe.stretchAt? ⟨before, c :: after⟩).filter
        fun found => before.length < found.stop.offset with
    | some found =>
      let lead : Stretch := ⟨⟨before, c :: after⟩, found.start⟩
      lead.text ++ mark ++ found.text ++
        probe.markAllFrom mark (found.stop.offset - before.length - 1) (c :: before) after
    | none => c :: probe.markAllFrom mark 0 (c :: before) after

/-- The text with a mark between the lead and the target of each match. -/
def markAll (probe : Probe) (mark text : Text) : Text := probe.markAllFrom mark 0 [] text

end Probe

namespace Pattern

/-- The stretch of the first match of a text. -/
def find? (p : Pattern) (text : Text) : Option Stretch := Probe.find? { target := p } text

/-- Whether a text holds a match. -/
def occursIn (p : Pattern) (text : Text) : Bool := (p.find? text).isSome

/-- The text without its first match, if it has one. -/
def eraseFirst? (p : Pattern) (text : Text) : Option Text :=
  (p.find? text).map fun found => found.start.before.reverse ++ found.stop.after

/-- The text from a place on without its matches, and their number.  Each match is taken as soon as
it starts, and the search goes on behind it; `skip` counts the characters of the current match that
are still to be dropped. -/
def eraseAllFrom (p : Pattern) : (skip : Nat) → (before after : Text) → Text × Nat
  | _, _, [] => ([], 0)
  | skip + 1, before, c :: after => p.eraseAllFrom skip (c :: before) after
  | 0, before, c :: after =>
    match (p.stops ⟨before, c :: after⟩).head?.map fun stop => stop.offset - before.length with
    | some (more + 1) =>
      let (kept, count) := p.eraseAllFrom more (c :: before) after
      (kept, count + 1)
    | _ =>
      let (kept, count) := p.eraseAllFrom 0 (c :: before) after
      (c :: kept, count)

/-- The text without its matches, and their number. -/
def eraseAll (p : Pattern) (text : Text) : Text × Nat := p.eraseAllFrom 0 [] text

end Pattern

end ReadOnlyViews
