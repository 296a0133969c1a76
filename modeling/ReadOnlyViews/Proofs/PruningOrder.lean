import ReadOnlyViews.Proofs.PrunedImports

/-!
The order in which candidates are pruned.  A candidate that goes changes the text that the others are
tested against, so in general neither the order of the candidates nor a second pruning is without
effect: an import that stands twice loses one copy at a time, an import can use the class of another
one, and the lines around a row that goes come to stand together.  Where none of this is the case the
candidates are independent: each goes or stays by what the unpruned text says about it.
-/

namespace ReadOnlyViews

open Document (Row rows textOf AreRows Drops areRows_rows)

namespace Java

/-! ## Texts that can be read apart -/

/-- The words behind which a class is looked for across line ends. -/
def leadWords : List Text := ["new", "extends", "throws", "implements"].map String.toList

/-- The characters that no declaration has between its type and its name. -/
def stoppers : List Char := [';', '\x7b', '(', ')']

/-- Nothing at the end of a text is waiting for what comes next: no word that leads to a class, and
not the name itself as the type of a declaration. -/
structure Closed (name front : Text) : Prop where
  unled : ∀ lead ∈ leadWords, ∀ before gap, (∀ c ∈ gap, isBlank c = true) → front ≠ before ++ lead ++ gap
  stopped : ∀ before after, front = before ++ name ++ after → WholeWord before after → ∃ c ∈ after, c ∈ stoppers

/-- A text that ends with blanks, if it is not empty, and leads to nothing behind them. -/
structure Detached (front : Text) : Prop where
  last : ∀ c ∈ front.getLast?, isBlank c = true
  unled : ∀ lead ∈ leadWords, ∀ before gap others, (∀ c ∈ gap, isBlank c = true) → '\n' ∉ others →
    front ≠ before ++ lead ++ gap ++ others

private theorem isBlank_of_mem_leadWords : ∀ lead ∈ leadWords, ∀ c ∈ lead, isBlank c = false := by
  have checked : (leadWords.all fun lead => lead.all (!isBlank ·)) = true := by decide
  simpa using checked

/-- Stoppers are visible and belong to no word. -/
theorem visible_of_mem_stoppers : ∀ d ∈ stoppers, isBlank d = false ∧ isWord d = false := by
  have checked : (stoppers.all fun d => !isBlank d && !isWord d) = true := by decide
  simpa using checked

/-- What is visible behind blanks lies behind them as a whole. -/
theorem exists_of_visible {front back inner tail : Text} (last : ∀ c ∈ front.getLast?, isBlank c = true)
    (visible : ∀ c ∈ tail, isBlank c = false) (same : front ++ back = inner ++ tail) :
    ∃ rest, inner = front ++ rest ∧ back = rest ++ tail := by
  rcases List.append_eq_append_iff.mp same with ⟨rest, rfl, rfl⟩ | ⟨over_, rfl, rfl⟩
  · exact ⟨rest, rfl, rfl⟩
  · rcases List.eq_nil_or_concat over_ with rfl | ⟨others, c, rfl⟩
    · exact ⟨[], by simp, by simp⟩
    · have blank := last c (by simp)
      rw [visible c (by simp)] at blank
      cases blank

namespace Detached

variable {front back after : Text}

/-- A word that leads to a class stands with its blanks behind the text. -/
theorem exists_of_lead {lead before gap : Text} (detached : Detached front) (member : lead ∈ leadWords)
    (blank : ∀ c ∈ gap, isBlank c = true) (same : front ++ back = before ++ lead ++ gap) :
    ∃ rest, before = front ++ rest ∧ back = rest ++ lead ++ gap := by
  rcases List.append_eq_append_iff.mp same with ⟨rest, led, rfl⟩ | ⟨over_, whole, rfl⟩
  · obtain ⟨inner, rfl, rfl⟩ :=
      exists_of_visible detached.last (isBlank_of_mem_leadWords lead member) led.symm
    exact ⟨inner, rfl, rfl⟩
  · have blankOver : ∀ c ∈ over_, isBlank c = true := fun c inside => blank c (by simp [inside])
    exact absurd (by simpa using whole) (detached.unled lead member before over_ [] blankOver (by simp))

/-- The position of a name is not told by a detached text in front. -/
theorem recognised (detached : Detached front) (recognised : Recognised (front ++ back) after) :
    Recognised back after := by
  generalize same : front ++ back = before at recognised
  have single {c : Char} (visible : isBlank c = false) {inner : Text} (ends : front ++ back = inner ++ [c]) :
      ∃ rest, back = rest ++ [c] := by
    obtain ⟨rest, -, found⟩ := exists_of_visible detached.last (by simpa using visible) ends
    exact ⟨rest, found⟩
  cases recognised with
  | annotated inner =>
    obtain ⟨rest, rfl⟩ := single (by decide) same
    exact .annotated rest after
  | qualified _ rest => exact .qualified back rest
  | @constructed inner gap _ apart some_ blank =>
    obtain ⟨rest, rfl, rfl⟩ := detached.exists_of_lead (by decide) blank same
    refine .constructed after ?_ some_ blank
    rcases List.eq_nil_or_concat rest with rfl | ⟨others, c, rfl⟩
    · rfl
    · simpa using apart
  | declared _ rest brackets gapBlank typed some_ blank named =>
    exact .declared back rest brackets gapBlank typed some_ blank named
  | argument inner rest closes =>
    obtain ⟨before, rfl⟩ := single (by decide) same
    exact .argument before rest closes
  | parenthesised inner =>
    obtain ⟨rest, rfl⟩ := single (by decide) same
    exact .parenthesised rest after
  | extended inner _ some_ blank =>
    obtain ⟨rest, rfl, rfl⟩ := detached.exists_of_lead (by decide) blank same
    exact .extended rest after some_ blank
  | @listed word gap others inner _ lists some_ blank unfed =>
    have member : word ∈ leadWords := by
      rcases lists with rfl | rfl <;> decide
    rcases List.append_eq_append_iff.mp same with ⟨rest, led, rfl⟩ | ⟨over_, whole, rfl⟩
    · obtain ⟨before, rfl, rfl⟩ := detached.exists_of_lead member blank led.symm
      exact .listed before after lists some_ blank unfed
    · have unfedOver : '\n' ∉ over_ := fun fed => unfed (by simp [fed])
      exact absurd whole (detached.unled word member inner gap over_ blank unfedOver)

end Detached

/-- Between the type and the name of a declaration there is no stopper. -/
theorem notMem_stoppers_of_mem {gap arguments blanks : Text} {brackets : Nat}
    (gapBlank : ∀ c ∈ gap, isBlank c = true)
    (typed : arguments = [] ∨ ∃ inside, arguments = ['<'] ++ inside ++ ['>'] ∧
      ∀ c ∈ inside, c ∉ [';', '\x7b', '(', ')'])
    (blank : ∀ c ∈ blanks, isBlank c = true) {c : Char}
    (member : c ∈ gap ++ arguments ++ (List.replicate brackets "[]".toList).flatten ++ blanks) :
    c ∉ stoppers := by
  intro stops
  simp only [List.mem_append] at member
  rcases member with ((inGap | inArguments) | inBrackets) | inBlanks
  · simpa [(visible_of_mem_stoppers c stops).1] using gapBlank c inGap
  · rcases typed with rfl | ⟨inside, rfl, allowed⟩
    · cases inArguments
    · simp only [List.mem_append, List.mem_singleton] at inArguments
      rcases inArguments with (rfl | between) | rfl
      · exact absurd stops (by decide)
      · exact allowed c between stops
      · exact absurd stops (by decide)
  · obtain ⟨pair, copied, inPair⟩ := List.mem_flatten.mp inBrackets
    rw [List.eq_of_mem_replicate copied] at inPair
    have bracket : c = '[' ∨ c = ']' := by simpa using inPair
    rcases bracket with rfl | rfl
    · exact absurd stops (by decide)
    · exact absurd stops (by decide)
  · simpa [(visible_of_mem_stoppers c stops).1] using blank c inBlanks

/-- A position that a stopper follows is told without what comes behind the stopper. -/
theorem Recognised.stopped {before after back : Text} (stops : ∃ c ∈ after, c ∈ stoppers)
    (recognised : Recognised before (after ++ back)) : Recognised before after := by
  obtain ⟨stopper, inside, stops⟩ := stops
  obtain ⟨first, others, rfl⟩ := List.exists_cons_of_ne_nil (List.ne_nil_of_mem inside)
  generalize same : first :: others ++ back = behind at recognised
  cases recognised with
  | annotated inner => exact .annotated inner _
  | qualified _ rest =>
    obtain ⟨rfl, -⟩ := List.cons.inj same
    exact .qualified before others
  | constructed _ apart some_ blank => exact .constructed _ apart some_ blank
  | argument inner rest closes =>
    obtain ⟨rfl, -⟩ := List.cons.inj same
    exact .argument inner others closes
  | parenthesised inner => exact .parenthesised inner _
  | extended inner _ some_ blank => exact .extended inner _ some_ blank
  | listed inner _ lists some_ blank unfed => exact .listed inner _ lists some_ blank unfed
  | @declared gap arguments blanks letter _ rest brackets gapBlank typed some_ blank named =>
    -- The stopper lies behind the first letter of the name that is declared.
    rcases List.append_eq_append_iff.mp same with ⟨over_, within, -⟩ | ⟨behind, whole, tail⟩
    · have early : stopper ∈ gap ++ arguments ++ (List.replicate brackets "[]".toList).flatten ++ blanks := by
        rw [within]
        exact List.mem_append_left _ inside
      exact absurd stops (notMem_stoppers_of_mem gapBlank typed blank early)
    · cases behind with
      | nil =>
        rw [List.append_nil] at whole
        exact absurd stops (notMem_stoppers_of_mem gapBlank typed blank (whole ▸ inside))
      | cons letter' behind =>
        obtain ⟨rfl, -⟩ := List.cons.inj tail
        rw [whole]
        exact .declared before behind brackets gapBlank typed some_ blank named

section Names

variable {name front back : Text}

private theorem isUsed_iff (some_ : name ≠ []) (word : ∀ c ∈ name, isWord c = true) {text : Text} :
    isUsed name text = true ↔
      ∃ before after, text = before ++ name ++ after ∧ WholeWord before after ∧ Recognised before after := by
  constructor
  · exact exists_recognised_of_isUsed some_ word
  · rintro ⟨before, after, rfl, whole, recognised⟩
    exact isUsed_of_recognised some_ word whole recognised

private theorem isUsed_nil (some_ : name ≠ []) (word : ∀ c ∈ name, isWord c = true) : isUsed name [] = false := by
  rw [← Bool.not_eq_true, isUsed_iff some_ word]
  rintro ⟨before, after, none, -⟩
  simp [some_] at none

theorem WholeWord.behind {before after : Text} (whole : WholeWord (front ++ before) after) :
    WholeWord before after := by
  refine ⟨?_, whole.back⟩
  rcases List.eq_nil_or_concat before with rfl | ⟨others, c, rfl⟩
  · rfl
  · simpa using whole.front

theorem WholeWord.ahead {before after : Text} (whole : WholeWord before (after ++ back)) :
    WholeWord before after := by
  refine ⟨whole.front, ?_⟩
  cases after with
  | nil => rfl
  | cons c after => exact whole.back

/-- A text that ends with a line and is closed is detached. -/
theorem Closed.detached (closed : Closed name front) (ended : front = [] ∨ front.getLast? = some '\n') :
    Detached front := by
  refine ⟨fun c last => ?_, fun lead member before gap others blank unfed same => ?_⟩
  · rcases ended with rfl | feed
    · cases last
    · rw [feed] at last
      obtain rfl := Option.mem_some.mp last
      decide
  · rcases List.eq_nil_or_concat others with rfl | ⟨more, c, rfl⟩
    · exact closed.unled lead member before gap blank (by simpa using same)
    · rcases ended with rfl | feed
      · simp at same
      · rw [same] at feed
        have last : c = '\n' := by simpa using feed
        exact unfed (by simp [last])

/-- A closed text and the lines behind it use a class exactly if one of them does. -/
theorem Closed.isUsed_append (some_ : name ≠ []) (word : ∀ c ∈ name, isWord c = true) (closed : Closed name front)
    (ended : front = [] ∨ front.getLast? = some '\n') :
    isUsed name (front ++ back) = (isUsed name front || isUsed name back) := by
  rw [Bool.eq_iff_iff, Bool.or_eq_true]
  constructor
  · rw [isUsed_iff some_ word]
    rintro ⟨before, after, same, whole, recognised⟩
    rcases Document.beside_of_ended ended (isSingleLine_of_word word).1 some_ same with
      ⟨gap, -, rfl, rfl⟩ | ⟨gap, rfl, rfl⟩
    · refine .inl ((isUsed_iff some_ word).mpr ⟨before, gap, rfl, whole.ahead, ?_⟩)
      exact recognised.stopped (closed.stopped before gap rfl whole.ahead)
    · exact .inr ((isUsed_iff some_ word).mpr
        ⟨gap, after, rfl, whole.behind, (closed.detached ended).recognised recognised⟩)
  · rintro (inFront | inBack)
    · obtain ⟨before, after, same, whole, recognised⟩ := (isUsed_iff some_ word).mp inFront
      refine isUsed_of_isBlockOf some_ word (same ▸ ⟨[], back, rfl, .inl rfl, .inr ?_⟩) whole recognised
      rcases ended with rfl | feed
      · simp [some_] at same
      · exact feed
    · obtain ⟨before, after, same, whole, recognised⟩ := (isUsed_iff some_ word).mp inBack
      exact isUsed_of_isBlockOf some_ word (same ▸ ⟨front, [], by simp, ended, .inl rfl⟩) whole recognised

/-- Lines may be missing between closed texts. -/
theorem Closed.skip (some_ : name ≠ []) (word : ∀ c ∈ name, isWord c = true) {between : Text}
    (closed : Closed name front) (ended : front = [] ∨ front.getLast? = some '\n')
    (feeds : between.getLast? = some '\n') (further : Closed name (front ++ between ++ back)) :
    Closed name (front ++ back) := by
  refine ⟨fun lead member before gap blank same => ?_, fun before after same whole => ?_⟩
  · have led : ∃ rest, back = rest ++ lead ++ gap := by
      obtain ⟨rest, -, led⟩ := (closed.detached ended).exists_of_lead member blank same
      exact ⟨rest, led⟩
    obtain ⟨rest, rfl⟩ := led
    exact further.unled lead member (front ++ between ++ rest) gap blank (by simp)
  · rcases Document.beside_of_ended ended (isSingleLine_of_word word).1 some_ same with
      ⟨gap, -, rfl, rfl⟩ | ⟨gap, rfl, rfl⟩
    · obtain ⟨c, inside, stops⟩ := closed.stopped before gap rfl whole.ahead
      exact ⟨c, by simp [inside], stops⟩
    · refine further.stopped (front ++ between ++ gap) after (by simp) ⟨?_, whole.back⟩
      exact apart_append (.inr (by simp [feeds])) whole.behind.front

/-- The end of a closed text is closed. -/
theorem Closed.behind (closed : Closed name (front ++ back)) (ended : front = [] ∨ front.getLast? = some '\n') :
    Closed name back := by
  refine ⟨fun lead member before gap blank same => ?_, fun before after same whole => ?_⟩
  · exact closed.unled lead member (front ++ before) gap blank (by simp [same])
  · exact closed.stopped (front ++ before) after (by simp [same])
      ⟨apart_append ended whole.front, whole.back⟩

private theorem exists_mem_of_ends {before part over_ : Text} {stopper : Char} (some_ : part ≠ [])
    (same : before ++ part = front ++ stopper :: over_) : ∃ c ∈ part, c = stopper ∨ c ∈ over_ := by
  have last : (stopper :: over_).getLast? = some (part.getLast some_) := by
    rw [← List.getLast?_append_of_ne_nil front (List.cons_ne_nil _ _), ← same,
      List.getLast?_append_of_ne_nil before some_, List.getLast?_eq_getLast_of_ne_nil some_]
  exact ⟨_, List.getLast_mem some_, List.mem_cons.mp (List.mem_of_getLast? last)⟩

/-- A text with nothing but blanks behind a stopper is closed. -/
theorem closed_of_stopper (some_ : name ≠ []) (word : ∀ c ∈ name, isWord c = true) {stopper : Char}
    (stops : stopper ∈ stoppers) (front : Text) {blanks : Text} (blank : ∀ c ∈ blanks, isBlank c = true) :
    Closed name (front ++ stopper :: blanks) := by
  have foreign : ∀ lead ∈ leadWords, lead ≠ [] ∧ ∀ c ∈ lead, c ∉ stoppers := by
    have checked : (leadWords.all fun lead => !lead.isEmpty && lead.all (!stoppers.contains ·)) = true := by decide
    simpa using checked
  refine ⟨fun lead member before gap gapBlank same => ?_, fun before after same _ => ?_⟩
  · -- The stopper is visible and no part of the word, so it is not behind the word; but neither is it before.
    have inside : ∀ c ∈ lead, c ≠ stopper ∧ c ∉ blanks := by
      refine fun c inLead => ⟨?_, fun inBlanks => ?_⟩
      · rintro rfl
        exact (foreign lead member).2 c inLead stops
      · simpa [isBlank_of_mem_leadWords lead member c inLead] using blank c inBlanks
    rcases List.append_eq_append_iff.mp same with ⟨over_, led, tail⟩ | ⟨over_, rfl, rfl⟩
    · cases over_ with
      | nil =>
        have inGap : stopper ∈ gap := by
          rw [List.nil_append] at tail
          exact tail ▸ List.mem_cons_self
        simpa [(visible_of_mem_stoppers stopper stops).1] using gapBlank stopper inGap
      | cons c over_ =>
        obtain ⟨rfl, rfl⟩ := List.cons.inj tail
        obtain ⟨d, inLead, isStopper | inOver⟩ := exists_mem_of_ends (foreign lead member).1 led
        · exact (inside d inLead).1 isStopper
        · exact (inside d inLead).2 (List.mem_append_left _ inOver)
    · simpa [(visible_of_mem_stoppers stopper stops).1] using gapBlank stopper (by simp)
  · rcases List.append_eq_append_iff.mp same with ⟨over_, named, tail⟩ | ⟨rest, -, rfl⟩
    · cases over_ with
      | nil =>
        have inAfter : stopper ∈ after := by
          rw [List.nil_append] at tail
          exact tail ▸ List.mem_cons_self
        exact ⟨stopper, inAfter, stops⟩
      | cons c over_ =>
        obtain ⟨rfl, rfl⟩ := List.cons.inj tail
        obtain ⟨d, inName, rfl | inOver⟩ := exists_mem_of_ends some_ named
        · simpa [(visible_of_mem_stoppers d stops).2] using word d inName
        · simpa [isWord_of_isBlank (blank d (List.mem_append_left _ inOver))] using word d inName
    · exact ⟨stopper, by simp, stops⟩

/-- Blanks are closed. -/
theorem closed_of_blank (some_ : name ≠ []) (word : ∀ c ∈ name, isWord c = true) {blanks : Text}
    (blank : ∀ c ∈ blanks, isBlank c = true) : Closed name blanks := by
  refine ⟨fun lead member before gap _ same => ?_, fun before after same _ => ?_⟩
  · have nonempty : ∀ lead ∈ leadWords, lead ≠ [] := by decide
    obtain ⟨c, others, rfl⟩ := List.exists_cons_of_ne_nil (nonempty lead member)
    simpa [isBlank_of_mem_leadWords _ member c (by simp)] using blank c (by simp [same])
  · obtain ⟨c, others, rfl⟩ := List.exists_cons_of_ne_nil some_
    simpa [isWord_of_isBlank (blank c (by simp [same]))] using word c (by simp)

/-- A text whose last visible character is a stopper, or that has none, is closed. -/
theorem closed_of_lastVisible (some_ : name ≠ []) (word : ∀ c ∈ name, isWord c = true)
    (stops : ∀ c ∈ (front.reverse.dropWhile isBlank).head?, c ∈ stoppers) : Closed name front := by
  have turned : front = (front.reverse.dropWhile isBlank).reverse ++ (front.reverse.takeWhile isBlank).reverse := by
    rw [← List.reverse_append, List.takeWhile_append_dropWhile, List.reverse_reverse]
  have blank : ∀ c ∈ (front.reverse.takeWhile isBlank).reverse, isBlank c = true := fun c member =>
    List.mem_takeWhile_imp (List.mem_reverse.mp member)
  rw [turned]
  cases visible : front.reverse.dropWhile isBlank with
  | nil => exact closed_of_blank some_ word (by simpa using blank)
  | cons c rest =>
    rw [List.reverse_cons, List.append_assoc, List.singleton_append]
    exact closed_of_stopper some_ word (stops c (by simp [visible])) _ blank

end Names

/-! ## Rows of candidates -/

/-- The candidates of a text do not get in each other's way. -/
structure Independent (candidates : List Text) (text : Text) : Prop where
  single : ∀ statement ∈ candidates, statement.IsSingleLine
  /-- No candidate is repeated in the text. -/
  once : ∀ statement ∈ candidates, ∀ name, ImportsClass statement name →
    Text.includes statement text = true → OccursOnce statement text
  /-- No candidate uses the class of another one. -/
  foreign : ∀ statement ∈ candidates, ∀ name, ImportsClass statement name →
    ∀ other ∈ candidates, other ≠ statement → isUsed name other = false
  /-- Nothing in front of a candidate is waiting for what comes behind it. -/
  closed : ∀ front row back, rows text = front ++ row :: back → IsCandidateRow candidates row →
    ∀ statement ∈ candidates, ∀ name, ImportsClass statement name → Closed name (textOf front)

section Rows

variable {name : Text} (some_ : name ≠ []) (word : ∀ c ∈ name, isWord c = true)

include some_ word

/-- A name within an import with blanks around it lies within the import. -/
theorem exists_of_blanks_around {left middle blanks before after : Text} (leftBlank : ∀ c ∈ left, isBlank c = true)
    (blank : ∀ c ∈ blanks, isBlank c = true)
    (same : left ++ (middle ++ ';' :: blanks) = before ++ (name ++ after)) :
    ∃ front rest, middle = front ++ name ++ rest ∧ before = left ++ front ∧ after = rest ++ ';' :: blanks := by
  have inside (front tail : Text) (split : middle ++ ';' :: blanks = front ++ (name ++ tail)) :
      ∃ rest, middle = front ++ name ++ rest ∧ tail = rest ++ ';' :: blanks := by
    rw [← List.append_assoc] at split
    rcases List.append_eq_append_iff.mp split with ⟨over_, named, tail_⟩ | ⟨rest, found, rfl⟩
    · cases over_ with
      | nil => exact ⟨[], by simpa using named.symm, by simpa using tail_.symm⟩
      | cons c over_ =>
        obtain ⟨rfl, rfl⟩ := List.cons.inj tail_
        obtain ⟨d, inName, rfl | inOver⟩ := exists_mem_of_ends some_ named
        · exact absurd (word _ inName) (by decide)
        · simpa [isWord_of_isBlank (blank d (List.mem_append_left _ inOver))] using word d inName
    · exact ⟨rest, found, rfl⟩
  rcases List.append_eq_append_iff.mp same with ⟨front, rfl, split⟩ | ⟨over_, rfl, split⟩
  · obtain ⟨rest, found, behind⟩ := inside front after split
    exact ⟨front, rest, found, rfl, behind⟩
  · cases over_ with
    | nil =>
      obtain ⟨rest, found, behind⟩ := inside [] after (by simpa using split.symm)
      exact ⟨[], rest, found, by simp, behind⟩
    | cons c over_ =>
      obtain ⟨first, others, rfl⟩ := List.exists_cons_of_ne_nil some_
      obtain rfl : first = c := (List.cons.inj split).1
      simpa [isWord_of_isBlank (leftBlank first (by simp))] using word first (by simp)

/-- An import uses a class on a line of its own exactly if it does so by itself. -/
theorem isUsed_blanks_around {left middle tail blanks : Text} (leftBlank : ∀ c ∈ left, isBlank c = true)
    (blank : ∀ c ∈ tail ++ blanks, isBlank c = true) (unused : isUsed name (middle ++ ';' :: tail) = false) :
    isUsed name (left ++ (middle ++ ';' :: (tail ++ blanks))) = false := by
  rw [← Bool.not_eq_true, isUsed_iff some_ word]
  rintro ⟨before, after, same, whole, recognised⟩
  rw [List.append_assoc] at same
  obtain ⟨front, rest, rfl, rfl, rfl⟩ := exists_of_blanks_around some_ word leftBlank blank same
  have detached : Detached left := by
    refine ⟨fun c last => leftBlank c (List.mem_of_getLast? last), fun lead member before gap others _ _ split => ?_⟩
    have nonempty : ∀ lead ∈ leadWords, lead ≠ [] := by decide
    obtain ⟨c, more, rfl⟩ := List.exists_cons_of_ne_nil (nonempty lead member)
    simpa [isBlank_of_mem_leadWords _ member c (by simp)] using leftBlank c (by simp [split])
  have split : rest ++ ';' :: (tail ++ blanks) = rest ++ ';' :: tail ++ blanks := by simp
  rw [split] at whole recognised
  have used : isUsed name (front ++ name ++ (rest ++ ';' :: tail)) = true :=
    isUsed_of_recognised some_ word whole.behind.ahead
      ((detached.recognised recognised).stopped ⟨';', by simp, by decide⟩)
  rw [← List.append_assoc, unused] at used
  cases used

omit some_ word in
theorem isBlank_of_mem_ending {row : Row} {others : List Row} (areRows : AreRows (row :: others)) :
    ∀ c ∈ row.ending, isBlank c = true := by
  rcases areRows.ended_or with (short | long) | ⟨none, -⟩
  · rw [short]
    exact List.all_eq_true.mp (by decide)
  · rw [long]
    exact List.all_eq_true.mp (by decide)
  · simp [none]

/-- A closed row that does not use a class can be left out where a text starts with it. -/
theorem isUsed_row_append {row : Row} {others : List Row} (areRows : AreRows (row :: others))
    (closed : Closed name (row.line ++ row.ending)) (unused : isUsed name (row.line ++ row.ending) = false) :
    isUsed name (textOf (row :: others)) = isUsed name (textOf others) := by
  have split : textOf (row :: others) = row.line ++ row.ending ++ textOf others := by simp
  rw [split]
  rcases areRows.ended_or with isEnd | ⟨none, rfl⟩
  · rw [closed.isUsed_append some_ word (.inr (by simp [isEnd.getLast?_eq])), unused, Bool.false_or]
  · rw [Document.textOf_nil, List.append_nil, unused, isUsed_nil some_ word]

private theorem isUsed_blank_append {blank ending : Text} {others : List Row}
    (isBlank_ : ∀ c ∈ blank, isBlank c = true) (areRows : AreRows (⟨blank, ending⟩ :: others)) :
    isUsed name (textOf (⟨blank, ending⟩ :: others)) = isUsed name (textOf others) := by
  have blankRow : ∀ c ∈ blank ++ ending, isBlank c = true := by
    intro c member
    rcases List.mem_append.mp member with inLine | inEnding
    · exact isBlank_ c inLine
    · exact isBlank_of_mem_ending areRows c inEnding
  refine isUsed_row_append some_ word areRows (closed_of_blank some_ word blankRow) ?_
  rw [← Bool.not_eq_true, isUsed_iff some_ word]
  rintro ⟨before, after, same, -⟩
  obtain ⟨first, more, rfl⟩ := List.exists_cons_of_ne_nil some_
  have inside : first ∈ blank ++ ending := by
    rw [same]
    simp
  simpa [isWord_of_isBlank (blankRow first inside)] using word first (by simp)

/-- The row of an import that does not use a class can be left out where a text starts with it. -/
theorem isUsed_import_append {statement imported : Text} {row : Row} {others : List Row}
    (imports : ImportsClass statement imported) (inRow : IsImportLine statement row.line)
    (areRows : AreRows (row :: others)) (unused : isUsed name statement = false) :
    isUsed name (textOf (row :: others)) = isUsed name (textOf others) := by
  obtain ⟨middle, tail, tailBlank, rfl⟩ := imports.exists_semicolon
  obtain ⟨left, right, leftBlank, rightBlank, inLine⟩ := inRow
  have blank : ∀ c ∈ tail ++ (right ++ row.ending), isBlank c = true := by
    intro c member
    simp only [List.mem_append] at member
    rcases member with inTail | inRight | inEnding
    · exact tailBlank c inTail
    · exact Text.isBlank_of_isBlankOrTab (rightBlank c inRight)
    · exact isBlank_of_mem_ending areRows c inEnding
  have cut : row.line ++ row.ending = left ++ (middle ++ ';' :: (tail ++ (right ++ row.ending))) := by
    simp [inLine]
  refine isUsed_row_append some_ word areRows ?_ ?_
  · rw [cut, ← List.append_assoc]
    exact closed_of_stopper some_ word (by decide) _ blank
  · rw [cut]
    exact isUsed_blanks_around some_ word (fun c inside => Text.isBlank_of_isBlankOrTab (leftBlank c inside))
      blank unused

/-- Rows that are left out of a closed text, each behind a closed text, leave it closed. -/
theorem closed_of_drops {test : Row → Prop} {all kept : List Row} (drops : Drops test all kept)
    (areRows : AreRows all) {lead : Text} (ended : lead = [] ∨ lead.getLast? = some '\n')
    (closed : ∀ front row back, all = front ++ row :: back → test row → Closed name (lead ++ textOf front))
    (whole : Closed name (lead ++ textOf all)) : Closed name (lead ++ textOf kept) := by
  induction drops generalizing lead with
  | nil => exact whole
  | @keep all kept row rest ih =>
    rcases areRows.ended_or with isEnd | ⟨-, rfl⟩
    · have moved (rows : List Row) :
          lead ++ textOf (row :: rows) = lead ++ (row.line ++ row.ending) ++ textOf rows := by
        simp
      rw [moved] at whole ⊢
      refine ih areRows.tail (.inr (by simp [isEnd.getLast?_eq])) ?_ whole
      intro front other back split passes
      have further := closed (row :: front) other back (by rw [split]; rfl) passes
      simpa using further
    · cases rest
      exact whole
  | @drop all kept row passes rest ih =>
    have closedLead : Closed name lead := by simpa using closed [] row all rfl passes
    rcases areRows.ended_or with isEnd | ⟨-, rfl⟩
    · have skip {rest : Text} (further : Closed name (lead ++ (row.line ++ row.ending) ++ rest)) :
          Closed name (lead ++ rest) :=
        closedLead.skip some_ word ended (by simp [isEnd.getLast?_eq]) further
      refine ih areRows.tail ended ?_ (skip (by simpa using whole))
      intro front other back split passes'
      have further := closed (row :: front) other back (by rw [split]; rfl) passes'
      exact skip (by simpa using further)
    · cases rest
      simpa using closedLead

/-- Rows of imports that do not use a class can be left out. -/
theorem isUsed_of_drops {test : Row → Prop} {all kept : List Row} (drops : Drops test all kept)
    (areRows : AreRows all)
    (foreign : ∀ row ∈ all, test row → ∃ statement imported, ImportsClass statement imported ∧
      IsImportLine statement row.line ∧ isUsed name statement = false)
    {lead : Text} (ended : lead = [] ∨ lead.getLast? = some '\n')
    (closed : ∀ front row back, all = front ++ row :: back → test row → Closed name (lead ++ textOf front)) :
    isUsed name (lead ++ textOf kept) = isUsed name (lead ++ textOf all) := by
  induction drops generalizing lead with
  | nil => rfl
  | @keep all kept row rest ih =>
    rcases areRows.ended_or with isEnd | ⟨-, rfl⟩
    · have moved (rows : List Row) :
          lead ++ textOf (row :: rows) = lead ++ (row.line ++ row.ending) ++ textOf rows := by
        simp
      rw [moved, moved]
      refine ih areRows.tail (fun other member => foreign other (by simp [member])) ?_ ?_
      · exact .inr (by simp [isEnd.getLast?_eq])
      · intro front other back split passes
        have whole := closed (row :: front) other back (by rw [split]; rfl) passes
        simpa using whole
    · cases rest
      rfl
  | @drop all kept row passes _ ih =>
    obtain ⟨statement, imported, imports, inRow, unused⟩ := foreign row (by simp) passes
    have closedLead : Closed name lead := by simpa using closed [] row all rfl passes
    have same : isUsed name (lead ++ textOf (row :: all)) = isUsed name (lead ++ textOf all) := by
      rw [closedLead.isUsed_append some_ word ended, isUsed_import_append some_ word imports inRow areRows unused,
        closedLead.isUsed_append some_ word ended]
    rw [same]
    refine ih areRows.tail (fun other member => foreign other (by simp [member])) ended ?_
    intro front other back split passes'
    rcases areRows.ended_or with isEnd | ⟨-, rfl⟩
    · refine @Closed.skip name lead _ some_ word (row.line ++ row.ending) closedLead ended ?_ ?_
      · simp [isEnd.getLast?_eq]
      · have whole := closed (row :: front) other back (by rw [split]; rfl) passes'
        simpa using whole
    · simp at split

omit some_ word in
/-- Whether a candidate that stands alone goes is told by the rows in front and behind, each by
themselves. -/
theorem prunable_iff {statement : Text} {front back : List Row} {row : Row}
    (alone : StandsAlone statement front row back) (single : statement.IsSingleLine)
    (imports : ImportsClass statement name) (areRows : AreRows (front ++ row :: back))
    (closed : Closed name (textOf front)) :
    Prunable statement (textOf (front ++ row :: back)) ↔
      isUsed name (textOf front) = false ∧ isUsed name (textOf back) = false := by
  have named : importClassName statement = name := (importClassName_eq_iff imports.ne_nil).mpr imports
  obtain ⟨blank, isBlank_, erased⟩ := alone.exists_eraseFirst single imports.statement_ne_nil areRows
  have areRest : AreRows (⟨blank, row.ending⟩ :: back) := by
    have singleBlank : blank.IsSingleLine :=
      ⟨fun fed => absurd (isBlank_ _ fed) (by decide), fun returned => absurd (isBlank_ _ returned) (by decide)⟩
    exact (areRows.replace singleBlank).sublist (List.sublist_append_right _ _)
  have apart : isUsed name (Text.eraseFirst statement (textOf (front ++ row :: back))) =
      (isUsed name (textOf front) || isUsed name (textOf back)) := by
    rw [erased, Document.textOf_append,
      closed.isUsed_append imports.ne_nil imports.isWord_of_mem areRows.ended_textOf,
      isUsed_blank_append imports.ne_nil imports.isWord_of_mem
        (fun c inside => Text.isBlank_of_isBlankOrTab (isBlank_ c inside)) areRest]
  have included : Text.includes statement (textOf (front ++ row :: back)) = true :=
    (areRows.includes_textOf_iff single imports.statement_ne_nil).mpr
      ⟨row, by simp, Text.includes_iff.mpr alone.imports.within⟩
  have standing := isSome_eraseFirst?_of_row areRows alone.imports
  rw [Prunable, Idle, named, apart, Bool.or_eq_false_iff]
  exact ⟨fun prunable => prunable.2.2.1, fun unused => ⟨imports.ne_nil, included, unused, standing⟩⟩

end Rows

/-! ## Candidates that are independent -/

/-- A row that goes, whatever the order: one of a candidate that goes if its turn comes first. -/
def Goes (candidates : List Text) (text : Text) (row : Row) : Prop :=
  ∃ statement ∈ candidates, IsImportLine statement row.line ∧ Prunable statement text

theorem Goes.isCandidateRow {candidates : List Text} {text : Text} {row : Row} (goes : Goes candidates text row) :
    IsCandidateRow candidates row := by
  obtain ⟨statement, candidate, inRow, -⟩ := goes
  exact ⟨statement, candidate, inRow⟩

namespace Independent

variable {candidates : List Text} {text statement : Text} (independent : Independent candidates text)

include independent

theorem standsAlone (candidate : statement ∈ candidates) {name : Text} (imports : ImportsClass statement name)
    {front back : List Row} {row : Row} (split : rows text = front ++ row :: back)
    (inRow : IsImportLine statement row.line) : StandsAlone statement front row back := by
  have single := independent.single statement candidate
  have whole : textOf (front ++ row :: back) = text := by rw [← split, Document.textOf_rows]
  have included : Text.includes statement text = true := by
    rw [← Document.textOf_rows text, (areRows_rows text).includes_textOf_iff single imports.statement_ne_nil]
    exact ⟨row, by simp [split], Text.includes_iff.mpr inRow.within⟩
  exact OccursOnce.standsAlone imports.statement_ne_nil
    (whole ▸ independent.once statement candidate name imports included) inRow

/-- A candidate that is still there goes if and only if it would go first. -/
theorem prunable_iff_of_drops (candidate : statement ∈ candidates) {before behind : List Row} {row : Row}
    (drops : Drops (Goes candidates text) (rows text) (before ++ row :: behind))
    (inRow : IsImportLine statement row.line) :
    Prunable statement (textOf (before ++ row :: behind)) ↔ Prunable statement text := by
  by_cases nameless : importClassName statement = []
  · exact ⟨fun prunable => absurd nameless prunable.1, fun prunable => absurd nameless prunable.1⟩
  have imports : ImportsClass statement (importClassName statement) := (importClassName_eq_iff nameless).mp rfl
  have single := independent.single statement candidate
  obtain ⟨front, back, split, inFront, inBack⟩ := drops.exists_of_left
  have areAll : AreRows (front ++ row :: back) := split ▸ areRows_rows text
  have areKept : AreRows (before ++ row :: behind) := (areRows_rows text).sublist drops.sublist
  have alone := independent.standsAlone candidate imports split inRow
  have closed : Closed (importClassName statement) (textOf front) :=
    independent.closed front row back split ⟨statement, candidate, inRow⟩ statement candidate _ imports
  have closedFront (early : List Row) (other : Row) (late : List Row) (cut : front = early ++ other :: late)
      (goes : Goes candidates text other) : Closed (importClassName statement) ([] ++ textOf early) :=
    independent.closed early other (late ++ row :: back) (by rw [split, cut]; simp) goes.isCandidateRow statement
      candidate _ imports
  have closedBack (early : List Row) (other : Row) (late : List Row) (cut : back = early ++ other :: late)
      (goes : Goes candidates text other) : Closed (importClassName statement) ([] ++ textOf early) := by
    have whole := independent.closed (front ++ [row] ++ early) other late (by rw [split, cut]; simp)
      goes.isCandidateRow statement candidate _ imports
    obtain ⟨next, rest, same⟩ := List.exists_cons_of_ne_nil (by simp [cut] : back ≠ [])
    have areCut : AreRows (front ++ [row] ++ next :: rest) := by
      rw [← same]
      simpa using areAll
    rw [Document.textOf_append] at whole
    exact whole.behind areCut.ended_textOf
  -- The row of another candidate does not use the class.
  have foreign {others : List Row} (apart : ∀ other ∈ others, Text.includes statement other.line = false) :
      ∀ other ∈ others, Goes candidates text other → ∃ gone imported, ImportsClass gone imported ∧
        IsImportLine gone other.line ∧ isUsed (importClassName statement) gone = false := by
    rintro other member ⟨gone, isCandidate, isGone, prunable⟩
    refine ⟨gone, _, (importClassName_eq_iff prunable.1).mp rfl, isGone,
      independent.foreign statement candidate _ imports gone isCandidate ?_⟩
    rintro rfl
    have included : Text.includes gone other.line = true := Text.includes_iff.mpr isGone.within
    rw [apart other member] at included
    cases included
  have sameFront := isUsed_of_drops imports.ne_nil imports.isWord_of_mem inFront
    (areAll.sublist (List.sublist_append_left _ _)) (foreign alone.inFront) (.inl rfl) closedFront
  have sameBack := isUsed_of_drops imports.ne_nil imports.isWord_of_mem inBack
    (areAll.sublist (List.sublist_append_right front _)).tail (foreign alone.inBack) (.inl rfl) closedBack
  have closedBefore := closed_of_drops imports.ne_nil imports.isWord_of_mem inFront
    (areAll.sublist (List.sublist_append_left _ _)) (.inl rfl) closedFront closed
  rw [List.nil_append, List.nil_append] at sameFront sameBack
  have whole : textOf (front ++ row :: back) = text := by rw [← split, Document.textOf_rows]
  rw [prunable_iff (alone.sublist inFront.sublist inBack.sublist) single imports areKept closedBefore,
    ← whole, prunable_iff alone single imports areAll closed, sameFront, sameBack]

/-- Candidates in turn take out rows of candidates that would go first, and leave no such row of their
own. -/
theorem exists_drops_foldl_considered {list : List Text} (sub : ∀ statement ∈ list, statement ∈ candidates)
    {kept : List Row} (drops : Drops (Goes candidates text) (rows text) kept) {state : Pruning}
    (same : state.text = textOf kept) :
    ∃ fewer, Drops (Goes candidates text) (rows text) fewer ∧ fewer.Sublist kept ∧
      (list.foldl Pruning.consider state).text = textOf fewer ∧
      ∀ statement ∈ list, Prunable statement text → ∀ row ∈ fewer, ¬ IsImportLine statement row.line := by
  induction list generalizing state kept with
  | nil => exact ⟨kept, drops, List.Sublist.refl _, same, by simp⟩
  | cons statement list ih =>
    have candidate : statement ∈ candidates := sub statement (by simp)
    have areKept : AreRows kept := (areRows_rows text).sublist drops.sublist
    have turn : ∃ left, Drops (Goes candidates text) (rows text) left ∧ left.Sublist kept ∧
        (state.consider statement).text = textOf left ∧
        (Prunable statement text → ∀ row ∈ left, ¬ IsImportLine statement row.line) := by
      rcases consider_cases state statement with ⟨prunable, erased, -⟩ | ⟨stays, left, -⟩
      · rw [same] at prunable erased
        obtain ⟨front, row, back, rfl, inRow, rest⟩ :=
          exists_row_of_eraseFirst? (independent.single statement candidate) prunable.ne_nil areKept erased
        have prunableFirst := (independent.prunable_iff_of_drops candidate drops inRow).mp prunable
        obtain ⟨early, late, split, inFront, inBack⟩ := drops.exists_of_left
        have alone := (independent.standsAlone candidate ((importClassName_eq_iff prunable.1).mp rfl) split
          inRow).sublist inFront.sublist inBack.sublist
        refine ⟨front ++ back, drops.trans (.one ⟨statement, candidate, inRow, prunableFirst⟩ front back),
          (List.Sublist.refl front).append (List.sublist_cons_self row back), rest, fun _ other member isOther => ?_⟩
        have included := Text.includes_iff.mpr isOther.within
        rcases List.mem_append.mp member with before | behind
        · rw [alone.inFront other before] at included
          cases included
        · rw [alone.inBack other behind] at included
          cases included
      · refine ⟨kept, drops, List.Sublist.refl _, left.trans same, fun prunable row member inRow => stays ?_⟩
        obtain ⟨front, back, rfl⟩ := List.append_of_mem member
        rw [same]
        exact (independent.prunable_iff_of_drops candidate drops inRow).mpr prunable
    obtain ⟨left, dropsLeft, subLeft, sameLeft, noneLeft⟩ := turn
    obtain ⟨fewer, dropsFewer, subFewer, sameFewer, noneFewer⟩ :=
      ih (fun other member => sub other (by simp [member])) dropsLeft sameLeft
    refine ⟨fewer, dropsFewer, subFewer.trans subLeft, sameFewer, fun other member => ?_⟩
    rcases List.mem_cons.mp member with rfl | later
    · exact fun prunable row inFewer => noneLeft prunable row (subFewer.subset inFewer)
    · exact noneFewer other later

/-- What is left when all candidates had their turn, in whatever order: the rows that do not go. -/
theorem exists_kept {list : List Text} (perm : list.Perm candidates) (asked : AskedNames) :
    ∃ kept, Drops (Goes candidates text) (rows text) kept ∧ (∀ row ∈ kept, ¬ Goes candidates text row) ∧
      (pruneImports list asked text).1.text = textOf kept := by
  obtain ⟨kept, drops, -, same, none⟩ := @exists_drops_foldl_considered _ _ independent list
    (fun statement member => perm.mem_iff.mp member) _ (.refl _ _) ⟨text, asked, []⟩ (Document.textOf_rows text).symm
  refine ⟨kept, drops, ?_, by rw [text_pruneImports, same]⟩
  rintro row member ⟨statement, candidate, inRow, prunable⟩
  exact none statement (perm.mem_iff.mpr candidate) prunable row member inRow

/-- Candidates that had their turn leave none behind that goes. -/
theorem not_prunable_pruned (asked : AskedNames) :
    ∀ statement ∈ candidates, ¬ Prunable statement (pruneImports candidates asked text).1.text := by
  obtain ⟨kept, drops, none, same⟩ := independent.exists_kept (List.Perm.refl candidates) asked
  intro statement candidate prunable
  rw [same] at prunable
  obtain ⟨rest, erased⟩ := Option.isSome_iff_exists.mp prunable.2.2.2
  obtain ⟨front, row, back, rfl, inRow, -⟩ :=
    exists_row_of_eraseFirst? (independent.single statement candidate) prunable.ne_nil
      ((areRows_rows text).sublist drops.sublist) erased
  exact none row (by simp)
    ⟨statement, candidate, inRow, (independent.prunable_iff_of_drops candidate drops inRow).mp prunable⟩

end Independent

/-- A pruning in which no candidate goes. -/
theorem pruneImports_of_none_prunable {candidates : List Text} {text : Text}
    (none : ∀ statement ∈ candidates, ¬ Prunable statement text) (asked : AskedNames) :
    (pruneImports candidates asked text).1 =
      { outcome := .alreadyPresent, text, reason := "no unused imports".toList } := by
  have folded (state : Pruning) (same : state.text = text) (fresh : state.removed = []) :
      (candidates.foldl Pruning.consider state).text = text ∧
        (candidates.foldl Pruning.consider state).removed = [] := by
    induction candidates generalizing state with
    | nil => exact ⟨same, fresh⟩
    | cons statement candidates ih =>
      rcases consider_cases state statement with ⟨prunable, -⟩ | ⟨-, left, kept⟩
      · exact absurd (same ▸ prunable) (none statement (by simp))
      · exact ih (fun other member => none other (by simp [member])) _ (left.trans same) (kept.trans fresh)
  obtain ⟨same, fresh⟩ := folded ⟨text, asked, []⟩ rfl rfl
  simp only [pruneImports, same, fresh]
  rfl

/-- Pruning independent candidates a second time finds nothing, and pruning them in another order gives
the same text. -/
theorem independent_pruning_settles {candidates : List Text} {text : Text}
    (independent : Independent candidates text) (asked : AskedNames) :
    (∀ again, (pruneImports candidates again (pruneImports candidates asked text).1.text).1 =
      { outcome := .alreadyPresent, text := (pruneImports candidates asked text).1.text,
        reason := "no unused imports".toList }) ∧
    ∀ reordered, reordered.Perm candidates → ∀ other,
      (pruneImports reordered other text).1.text = (pruneImports candidates asked text).1.text := by
  obtain ⟨kept, drops, none, same⟩ := independent.exists_kept (List.Perm.refl candidates) asked
  refine ⟨pruneImports_of_none_prunable (independent.not_prunable_pruned asked), fun reordered perm other => ?_⟩
  obtain ⟨others, dropsOthers, noneOthers, sameOthers⟩ := independent.exists_kept perm other
  rw [same, sameOthers, dropsOthers.unique drops noneOthers none]

set_option maxRecDepth 4000 in
/-- No import of the generated resources has the class of another one as a word. -/
theorem foreign_resourceImports {statement name other : Text} (candidate : statement ∈ resourceImports)
    (imports : ImportsClass statement name) (isOther : other ∈ resourceImports) (apart : other ≠ statement) :
    isUsed name other = false := by
  have checked : (resourceImports.all fun statement => resourceImports.all fun other =>
      other == statement || !decide (HasWord (importClassName statement) other)) = true := by
    unfold resourceImports
    repeat rw [String.toList_ofList]
    decide +kernel
  have named : importClassName statement = name := (importClassName_eq_iff imports.ne_nil).mpr imports
  have wordless := List.all_eq_true.mp (List.all_eq_true.mp checked statement candidate) other isOther
  rw [named, Bool.or_eq_true, beq_iff_eq, Bool.not_eq_true', decide_eq_false_iff_not] at wordless
  rw [← Bool.not_eq_true]
  intro used
  exact (wordless.resolve_left apart) (hasWord_of_isUsed imports.ne_nil imports.isWord_of_mem used)

/-- A resource that uses one of the classes that it imports. -/
def prunedResource : Text :=
  "package a;\nimport java.net.URI;\nimport java.util.Objects;\nclass A \x7b URI u; \x7d".toList

set_option maxRecDepth 4000 in
private theorem independent_prunedResource : Independent resourceImports prunedResource := by
  refine ⟨fun statement candidate => ?_, fun statement candidate _ _ included => ?_,
    fun statement candidate name imports other => foreign_resourceImports candidate imports, ?_⟩
  · exact (isPlainImport_of_mem_resourceImports statement candidate).single
  · have checked : (resourceImports.all fun statement =>
        !Text.includes statement prunedResource || decide (OccursOnce statement prunedResource)) = true := by
      unfold resourceImports prunedResource
      repeat rw [String.toList_ofList]
      decide +kernel
    have once := List.all_eq_true.mp checked statement candidate
    rw [included] at once
    simpa using once
  · intro front row back split _ statement _ name imports
    have checked : ((List.range (rows prunedResource).length).all fun count =>
        ((textOf ((rows prunedResource).take count)).reverse.dropWhile isBlank).head?.all
          (stoppers.contains ·)) = true := by
      unfold prunedResource
      decide +kernel
    have stops := List.all_eq_true.mp checked front.length (by rw [split]; simp)
    rw [split, List.take_left] at stops
    refine closed_of_lastVisible imports.ne_nil imports.isWord_of_mem fun c last => ?_
    rw [Option.mem_def.mp last] at stops
    simpa using stops

theorem prunedResource_settles :
    Independent resourceImports prunedResource ∧
    (pruneImports resourceImports [] (pruneImports resourceImports [] prunedResource).1.text).1 =
      { outcome := .alreadyPresent, text := (pruneImports resourceImports [] prunedResource).1.text,
        reason := "no unused imports".toList } ∧
    (pruneImports resourceImports.reverse [] prunedResource).1.text =
      (pruneImports resourceImports [] prunedResource).1.text :=
  ⟨independent_prunedResource, (independent_pruning_settles independent_prunedResource []).1 [],
    (independent_pruning_settles independent_prunedResource []).2 _ (List.reverse_perm _) []⟩

/-- Each condition is needed.  A repeated import loses one copy at a time; the import of an inner class
uses the outer one; and a word of a comment comes to stand before another line. -/
theorem dependent_candidates_unsettled :
    ((pruneImports ["import java.net.URI;".toList] [] "import java.net.URI;\nimport java.net.URI;\n".toList).1.text =
        "import java.net.URI;\n".toList ∧
      (pruneImports ["import java.net.URI;".toList] [] "import java.net.URI;\n".toList).1.text = []) ∧
    ((pruneImports ["import java.util.Map;".toList, "import java.util.Map.Entry;".toList] []
        "import java.util.Map;\nimport java.util.Map.Entry;\n".toList).1.text = "import java.util.Map;\n".toList ∧
      (pruneImports ["import java.util.Map.Entry;".toList, "import java.util.Map;".toList] []
        "import java.util.Map;\nimport java.util.Map.Entry;\n".toList).1.text = []) ∧
    ((pruneImports ["import java.util.Map;".toList, "import java.net.URI;".toList] []
        "import java.util.Map;\n// Map\nimport java.net.URI;\n@A class B \x7b \x7d".toList).1.text =
          "import java.util.Map;\n// Map\n@A class B \x7b \x7d".toList ∧
      (pruneImports ["import java.net.URI;".toList, "import java.util.Map;".toList] []
        "import java.util.Map;\n// Map\nimport java.net.URI;\n@A class B \x7b \x7d".toList).1.text =
          "// Map\n@A class B \x7b \x7d".toList) := by
  repeat rw [String.toList_ofList]
  refine ⟨⟨?_, ?_⟩, ⟨?_, ?_⟩, ?_, ?_⟩
  all_goals decide +kernel

end Java

end ReadOnlyViews
