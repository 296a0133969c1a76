import Mathlib.Data.List.Infix
import Mathlib.Data.List.TakeWhile
import ReadOnlyViews.Java.Line
import ReadOnlyViews.Proofs.Texts

/-!
A line as it is read from left to right: characters of the code, literals and a comment.  What is
counted of a line is found in three passes over the whole of it; here the passes are compared with
the one reading.  They agree as long as no double quote of a character literal meets another one
further right.
-/

namespace ReadOnlyViews.Java

/-! ## Reading from left to right -/

/-- A piece of a line that is read as a unit. -/
inductive Token where
  /-- A character outside literals. -/
  | other (c : Char)
  /-- A literal: its quote, and what stands between that and the closing one. -/
  | literal (quote : Char) (content : Text)
  deriving DecidableEq, Repr

/-- The characters of a token. -/
def Token.text : Token → Text
  | other c => [c]
  | literal quote content => quote :: (content ++ [quote])

/-- What counts of a token: a literal counts as an empty one. -/
def Token.counted : Token → Text
  | other c => [c]
  | literal quote _ => [quote, quote]

/-- The characters of tokens in a row. -/
def spelled (tokens : List Token) : Text := tokens.flatMap Token.text

/-- What counts of tokens in a row. -/
def countedOf (tokens : List Token) : Text := tokens.flatMap Token.counted

@[simp] theorem spelled_cons (token : Token) (tokens : List Token) :
    spelled (token :: tokens) = token.text ++ spelled tokens := rfl

@[simp] theorem countedOf_cons (token : Token) (tokens : List Token) :
    countedOf (token :: tokens) = token.counted ++ countedOf tokens := rfl

/-- What a line is read as: its tokens, and the comment behind them with its slashes. -/
structure Reading where
  tokens : List Token
  comment : Text
  deriving DecidableEq, Repr

/-- One more token in front. -/
def Reading.lead (token : Token) (reading : Reading) : Reading :=
  { reading with tokens := token :: reading.tokens }

/-- Reads a line from left to right.  `inside` is the quote of the literal that is being read, with
its content so far, last character first.  A quote opens a literal that ends at the next such quote
that is not escaped, and two slashes outside of literals start the comment.  A line with a literal
that does not end, or with a backslash in its code, is not read. -/
def readingFrom? : (inside : Option (Char × Text)) → Text → Option Reading
  | none, [] => some ⟨[], []⟩
  | some _, [] => none
  | none, '/' :: '/' :: rest => some ⟨[], '/' :: '/' :: rest⟩
  | none, c :: rest =>
    if c = '\\' then none
    else if c = '"' ∨ c = '\'' then readingFrom? (some (c, [])) rest
    else (readingFrom? none rest).map (Reading.lead (.other c))
  | some (quote, content), '\\' :: c :: rest => readingFrom? (some (quote, c :: '\\' :: content)) rest
  | some (quote, content), c :: rest =>
    if c = quote then (readingFrom? none rest).map (Reading.lead (.literal quote content.reverse))
    else readingFrom? (some (quote, c :: content)) rest

/-- What a line is read as. -/
def reading? (line : Text) : Option Reading := readingFrom? none line

/-- What stands between the quotes of a literal: no such quote and no backslash, unless escaped. -/
inductive IsContent (quote : Char) : Text → Prop where
  | empty : IsContent quote []
  | plain {c : Char} {rest : Text} (unquoted : c ≠ quote) (unescaped : c ≠ '\\')
      (further : IsContent quote rest) : IsContent quote (c :: rest)
  | escaped {c : Char} {rest : Text} (further : IsContent quote rest) :
      IsContent quote ('\\' :: c :: rest)

theorem IsContent.append {quote : Char} {front back : Text} (first : IsContent quote front)
    (second : IsContent quote back) : IsContent quote (front ++ back) := by
  induction first with
  | empty => exact second
  | plain unquoted unescaped _ ih => exact .plain unquoted unescaped ih
  | escaped _ ih => exact .escaped ih

/-- What the tokens of a line look like. -/
def Token.Formed : Token → Prop
  | other c => c ≠ '"' ∧ c ≠ '\'' ∧ c ≠ '\\'
  | literal quote content => (quote = '"' ∨ quote = '\'') ∧ IsContent quote content

/-- What makes a text one that is read as tokens and a comment. -/
structure Reads (line : Text) (reading : Reading) : Prop where
  spells : line = spelled reading.tokens ++ reading.comment
  formed : ∀ token ∈ reading.tokens, token.Formed
  comment : reading.comment = [] ∨ ∃ rest, reading.comment = '/' :: '/' :: rest
  /-- The comment starts with the first two slashes in a row. -/
  slashes : ¬ ['/', '/'] <:+: countedOf reading.tokens ++ reading.comment.take 1

/-- A token starts with the character that counts first of it. -/
theorem head?_countedOf_append (tokens : List Token) (rest : Text) :
    (countedOf tokens ++ rest.take 1).head? = (spelled tokens ++ rest).head? := by
  cases tokens with
  | nil => cases rest <;> rfl
  | cons token tokens => cases token <;> rfl

theorem Reads.other {c : Char} {rest : Text} {reading : Reading} (reads : Reads rest reading)
    (formed : (Token.other c).Formed) (single : c = '/' → rest.head? ≠ some '/') :
    Reads (c :: rest) (reading.lead (.other c)) where
  spells := by rw [reads.spells]; rfl
  formed := List.forall_mem_cons.mpr ⟨formed, reads.formed⟩
  comment := reads.comment
  slashes := by
    intro inside
    obtain first | later := List.infix_cons_iff.mp inside
    · obtain ⟨behind, same⟩ := first
      obtain ⟨rfl, next⟩ := List.cons.inj same
      refine single rfl ?_
      rw [reads.spells, ← head?_countedOf_append]
      exact congrArg List.head? next.symm
    · exact reads.slashes later

theorem Reads.literal {quote : Char} {content rest : Text} {reading : Reading}
    (reads : Reads rest reading) (formed : (Token.literal quote content).Formed) :
    Reads (quote :: (content ++ quote :: rest)) (reading.lead (.literal quote content)) where
  spells := by simp [reads.spells, Reading.lead, spelled, Token.text]
  formed := List.forall_mem_cons.mpr ⟨formed, reads.formed⟩
  comment := reads.comment
  slashes := by
    have noSlash : '/' ≠ quote := by
      obtain ⟨rfl | rfl, -⟩ := formed <;> decide
    intro inside
    have behind : ['/', '/'] <:+: quote :: quote :: (countedOf reading.tokens ++ reading.comment.take 1) :=
      inside
    simp only [List.infix_cons_iff, List.cons_prefix_cons, noSlash, false_and, false_or] at behind
    exact reads.slashes behind

/-- What was read of a literal that has not ended yet. -/
def pending : (inside : Option (Char × Text)) → Text
  | none => []
  | some literal => literal.1 :: literal.2.reverse

/-- What is read spells the line, with what was read of an open literal before it. -/
theorem reads_of_readingFrom? {inside : Option (Char × Text)} {line : Text} {reading : Reading}
    (read : readingFrom? inside line = some reading)
    (begun : ∀ literal ∈ inside, (Token.literal literal.1 literal.2.reverse).Formed) :
    Reads (pending inside ++ line) reading := by
  fun_induction readingFrom? inside line generalizing reading with
  | case1 => cases read; exact ⟨rfl, by simp, .inl rfl, by decide⟩
  | case2 => cases read
  | case3 rest =>
    cases read
    exact ⟨rfl, by simp, .inr ⟨rest, rfl⟩, by simp [countedOf, List.infix_cons_iff]⟩
  | case4 => cases read
  | case5 c rest _ _ quoted ih =>
    exact ih read (by simp [Token.Formed, quoted, IsContent.empty])
  | case6 c rest single unescaped unquoted ih =>
    obtain ⟨further, found, rfl⟩ := Option.map_eq_some_iff.mp read
    refine (ih found (by simp)).other ?_ ?_
    · exact ⟨fun double => unquoted (.inl double), fun single => unquoted (.inr single), unescaped⟩
    · rintro rfl slash
      obtain ⟨behind, rfl⟩ := List.head?_eq_some_iff.mp slash
      exact single behind rfl rfl
  | case7 quote content c rest ih =>
    obtain ⟨known, sound⟩ := begun _ rfl
    have longer := ih read (by
      simpa [Token.Formed, known] using sound.append (.escaped .empty))
    simpa [pending] using longer
  | case8 content quote rest _ ih =>
    obtain ⟨further, found, rfl⟩ := Option.map_eq_some_iff.mp read
    exact (ih found (by simp)).literal (begun _ rfl)
  | case9 quote content c rest escaped unquoted ih =>
    obtain ⟨known, sound⟩ := begun _ rfl
    have unescaped : c ≠ '\\' := by
      rintro rfl
      cases rest with
      | nil => simp [readingFrom?] at read
      | cons next behind => exact escaped next behind rfl rfl
    have longer := ih read (by
      simpa [Token.Formed, known] using sound.append (.plain unquoted unescaped .empty))
    simpa [pending] using longer

theorem reads_of_reading? {line : Text} {reading : Reading} (read : reading? line = some reading) :
    Reads line reading :=
  reads_of_readingFrom? read (by simp)

/-! ## One pass over literals -/

private theorem emptyLiterals_skip (quote : Char) (front rest : Text) :
    emptyLiterals quote front.length (front ++ rest) = emptyLiterals quote 0 rest := by
  induction front with
  | nil => rfl
  | cons c front ih => exact ih

private theorem emptyLiterals_cons_other {quote c : Char} (unquoted : c ≠ quote) (rest : Text) :
    emptyLiterals quote 0 (c :: rest) = c :: emptyLiterals quote 0 rest := by
  simp [emptyLiterals, unquoted]

/-- Characters other than the quote stay. -/
theorem emptyLiterals_append_of_notMem {quote : Char} {front : Text} (unquoted : quote ∉ front)
    (rest : Text) : emptyLiterals quote 0 (front ++ rest) = front ++ emptyLiterals quote 0 rest := by
  induction front with
  | nil => rfl
  | cons c front ih =>
    obtain ⟨apart, further⟩ := List.ne_and_not_mem_of_not_mem_cons unquoted
    rw [List.cons_append, emptyLiterals_cons_other (Ne.symm apart), ih further]
    rfl

private theorem emptyLiterals_of_notMem {quote : Char} {text : Text} (unquoted : quote ∉ text) :
    emptyLiterals quote 0 text = text := by
  simpa [emptyLiterals] using emptyLiterals_append_of_notMem unquoted []

private theorem literalLength?_of_notMem {quote : Char} {text : Text} (unquoted : quote ∉ text) :
    literalLength? quote text = none := by
  fun_induction literalLength? quote text <;> simp_all

/-- The last quote of a text opens nothing. -/
theorem emptyLiterals_of_count_eq_one {quote : Char} {text : Text} (last : text.count quote = 1) :
    emptyLiterals quote 0 text = text := by
  obtain ⟨front, rest, rfl⟩ := List.append_of_mem (List.count_pos_iff.mp (last ▸ Nat.one_pos))
  simp only [List.count_append, List.count_cons_self] at last
  have before : quote ∉ front := List.count_eq_zero.mp (by omega)
  have behind : quote ∉ rest := List.count_eq_zero.mp (by omega)
  rw [emptyLiterals_append_of_notMem before, emptyLiterals, if_pos rfl, literalLength?_of_notMem behind,
    emptyLiterals_of_notMem behind]

private theorem head?_emptyLiterals (quote : Char) (text : Text) :
    (emptyLiterals quote 0 text).head? = text.head? := by
  cases text with
  | nil => rfl
  | cons c rest =>
    by_cases same : c = quote
    · subst same
      rw [emptyLiterals, if_pos rfl]
      split <;> rfl
    · rw [emptyLiterals_cons_other same]
      rfl

/-- A literal ends where its content does. -/
theorem literalLength?_content {quote : Char} {content : Text} (sound : IsContent quote content)
    (visible : quote ≠ '\\') (oneLine : '\n' ∉ content) (rest : Text) :
    literalLength? quote (content ++ quote :: rest) = some (content.length + 1) := by
  induction sound with
  | empty => simp [literalLength?, visible]
  | @plain c further unquoted unescaped _ ih =>
    obtain ⟨_, later⟩ := List.ne_and_not_mem_of_not_mem_cons oneLine
    simp [literalLength?, unquoted, unescaped, ih later]
  | @escaped c further _ ih =>
    simp only [List.mem_cons, not_or] at oneLine
    simp [literalLength?, Ne.symm oneLine.2.1, ih oneLine.2.2]

/-- A literal of the quote is emptied. -/
theorem emptyLiterals_literal {quote : Char} {content : Text} (sound : IsContent quote content)
    (visible : quote ≠ '\\') (oneLine : '\n' ∉ content) (rest : Text) :
    emptyLiterals quote 0 ((Token.literal quote content).text ++ rest) =
      quote :: quote :: emptyLiterals quote 0 rest := by
  have behind := emptyLiterals_skip quote (content ++ [quote]) rest
  simp only [List.length_append, List.length_singleton, List.append_assoc, List.singleton_append] at behind
  simp [Token.text, emptyLiterals, literalLength?_content sound visible oneLine, behind]

/-! ## The three passes -/

/-- Whether a token is a character literal with a double quote in it. -/
def Token.hidesQuote : Token → Bool
  | other _ => false
  | literal quote content => quote == '\'' && content.contains '"'

/-- A double quote in a character literal is the last one: neither the tokens behind it nor what
follows them has another. -/
def QuotesApart (tokens : List Token) (after : Text) : Prop :=
  ∀ rest ∈ tokens.tails, rest.head?.any Token.hidesQuote = true →
    (spelled rest ++ after).count '"' = 1

instance (tokens : List Token) (after : Text) : Decidable (QuotesApart tokens after) :=
  inferInstanceAs (Decidable (∀ rest ∈ tokens.tails, _ → _))

private theorem quotesApart_cons_iff {token : Token} {tokens : List Token} {after : Text} :
    QuotesApart (token :: tokens) after ↔
      (token.hidesQuote = true → (token.text ++ (spelled tokens ++ after)).count '"' = 1) ∧
        QuotesApart tokens after := by
  simp [QuotesApart, Nat.add_assoc]

/-- The token behind the first pass: a string literal has become empty. -/
def Token.stringless : Token → Token
  | other c => other c
  | literal quote content => if quote = '"' then literal quote [] else literal quote content

@[simp] theorem Token.stringless_string (content : Text) :
    (literal '"' content).stringless = literal '"' [] := rfl

@[simp] theorem Token.stringless_character (content : Text) :
    (literal '\'' content).stringless = literal '\'' content := rfl

private theorem spelled_stringless_of_notMem {tokens : List Token} (unquoted : '"' ∉ spelled tokens) :
    spelled (tokens.map Token.stringless) = spelled tokens := by
  induction tokens with
  | nil => rfl
  | cons token tokens ih =>
    obtain ⟨here, later⟩ : '"' ∉ token.text ∧ '"' ∉ spelled tokens := by
      simpa [not_or] using unquoted
    have same : token.stringless = token := by
      cases token with
      | other => rfl
      | literal quote content =>
        have single : quote ≠ '"' := by
          rintro rfl
          exact here List.mem_cons_self
        exact if_neg single
    rw [List.map_cons, same]
    exact congrArg (token.text ++ ·) (ih later)

/-- Two slashes in a row do not arise where a text ends without one. -/
theorem slashes_append {front : Text} (single : ¬ ['/', '/'] <:+: front)
    (ends : front.getLast? ≠ some '/') (rest : Text) : ¬ ['/', '/'] <:+: front ++ rest.take 1 := by
  cases rest with
  | nil => simpa using single
  | cons c rest =>
    rw [List.take_succ_cons, List.take_zero, List.infix_concat_iff, not_or]
    refine ⟨fun last => ?_, single⟩
    obtain ⟨lead, same⟩ := last
    have shape : lead ++ ['/'] ++ ['/'] = front ++ [c] := by simpa using same
    obtain ⟨rfl, -⟩ := List.append_singleton_inj.mp shape
    simp at ends

section Passes

variable {tokens : List Token} {rest : Text}

/-- The first pass empties the string literals and nothing else. -/
theorem emptyLiterals_double (formed : ∀ token ∈ tokens, token.Formed)
    (oneLine : '\n' ∉ spelled tokens) (apart : QuotesApart tokens rest) :
    emptyLiterals '"' 0 (spelled tokens ++ rest) =
      spelled (tokens.map Token.stringless) ++ emptyLiterals '"' 0 rest := by
  induction tokens with
  | nil => rfl
  | cons token tokens ih =>
    obtain ⟨sound, formed⟩ := List.forall_mem_cons.mp formed
    obtain ⟨hides, apart⟩ := quotesApart_cons_iff.mp apart
    obtain ⟨here, later⟩ : '\n' ∉ token.text ∧ '\n' ∉ spelled tokens := by
      simpa [not_or] using oneLine
    specialize ih formed later apart
    rw [List.map_cons, spelled_cons, spelled_cons, List.append_assoc, List.append_assoc]
    cases token with
    | other c =>
      rw [emptyLiterals_append_of_notMem (by simpa [Token.text] using Ne.symm sound.1), ih]
      rfl
    | literal quote content =>
      obtain ⟨rfl | rfl, sound⟩ := sound
      · rw [emptyLiterals_literal sound (by decide) (by simpa [Token.text] using here), ih]
        rfl
      · by_cases hidden : '"' ∈ content
        · -- The quote is the last one, so the pass changes nothing from here on.
          have last := hides (by simpa [Token.hidesQuote] using hidden)
          have behind : '"' ∉ spelled tokens ++ rest := by
            have inside := List.count_pos_iff.mpr hidden
            refine List.count_eq_zero.mp ?_
            simp [Token.text] at last ⊢
            omega
          rw [emptyLiterals_of_count_eq_one last, Token.stringless_character,
            spelled_stringless_of_notMem fun member => behind (List.mem_append_left _ member),
            emptyLiterals_of_notMem fun member => behind (List.mem_append_right _ member)]
        · rw [emptyLiterals_append_of_notMem (by simpa [Token.text] using hidden), ih,
            Token.stringless_character]

/-- The second pass empties the character literals that are left. -/
theorem emptyLiterals_single (formed : ∀ token ∈ tokens, token.Formed)
    (oneLine : '\n' ∉ spelled tokens) :
    emptyLiterals '\'' 0 (spelled (tokens.map Token.stringless) ++ rest) =
      countedOf tokens ++ emptyLiterals '\'' 0 rest := by
  induction tokens with
  | nil => rfl
  | cons token tokens ih =>
    obtain ⟨sound, formed⟩ := List.forall_mem_cons.mp formed
    obtain ⟨here, later⟩ : '\n' ∉ token.text ∧ '\n' ∉ spelled tokens := by
      simpa [not_or] using oneLine
    specialize ih formed later
    rw [List.map_cons, spelled_cons, countedOf_cons, List.append_assoc, List.append_assoc]
    cases token with
    | other c =>
      rw [emptyLiterals_append_of_notMem (by simpa [Token.text, Token.stringless] using Ne.symm sound.2.1), ih]
      rfl
    | literal quote content =>
      obtain ⟨rfl | rfl, sound⟩ := sound
      · rw [Token.stringless_string, emptyLiterals_append_of_notMem (by decide), ih]
        rfl
      · rw [Token.stringless_character, emptyLiterals_literal sound (by decide)
          (by simpa [Token.text] using here), ih]
        rfl

/-- The third pass leaves what stands before the first two slashes in a row. -/
theorem dropComment_append {front : Text} (slashes : ¬ ['/', '/'] <:+: front ++ rest.take 1) :
    dropComment (front ++ rest) = front ++ dropComment rest := by
  induction front with
  | nil => rfl
  | cons c front ih =>
    rw [List.cons_append, List.infix_cons_iff, not_or] at slashes
    have single : ¬ (c = '/' ∧ (front ++ rest).head? = some '/') := by
      rintro ⟨rfl, next⟩
      refine slashes.1 (List.cons_prefix_cons.mpr ⟨rfl, ?_⟩)
      cases front with
      | nil => cases rest <;> simp_all
      | cons d front => simp_all
    rw [List.cons_append, dropComment, if_neg fun comment => single ⟨comment.1, comment.2.1⟩, ih slashes.2]
    rfl

/-- Tokens are counted one by one, and what follows them on the line on its own. -/
theorem normalize_append (formed : ∀ token ∈ tokens, token.Formed) (oneLine : '\n' ∉ spelled tokens)
    (apart : QuotesApart tokens rest) (slashes : ¬ ['/', '/'] <:+: countedOf tokens ++ rest.take 1) :
    normalize (spelled tokens ++ rest) = countedOf tokens ++ normalize rest := by
  have first (text : Text) : text.take 1 = text.head?.toList := by cases text <;> rfl
  rw [normalize, emptyLiterals_double formed oneLine apart, emptyLiterals_single formed oneLine,
    dropComment_append, normalize]
  rwa [first, head?_emptyLiterals, head?_emptyLiterals, ← first]

end Passes

/-! ## Whole lines -/

private theorem mem_of_mem_emptyLiterals {quote c : Char} {skip : Nat} {text : Text}
    (member : c ∈ emptyLiterals quote skip text) : c ∈ text := by
  fun_induction emptyLiterals quote skip text <;> grind

/-- Nothing counts of a comment. -/
theorem normalize_comment {text : Text} (oneLine : '\n' ∉ text) :
    normalize ('/' :: '/' :: text) = [] := by
  have inner : '\n' ∉ emptyLiterals '\'' 0 (emptyLiterals '"' 0 text) := fun member =>
    oneLine (mem_of_mem_emptyLiterals (mem_of_mem_emptyLiterals member))
  have dropped : ('/' :: emptyLiterals '\'' 0 (emptyLiterals '"' 0 text)).dropWhile (· != '\n') = [] := by
    rw [List.dropWhile_eq_nil_iff]
    intro c member
    have apart : '\n' ∉ '/' :: emptyLiterals '\'' 0 (emptyLiterals '"' 0 text) := by simpa using inner
    exact bne_iff_ne.mpr fun same => apart (same ▸ member)
  simp only [normalize, emptyLiterals_cons_other (show '/' ≠ '"' by decide),
    emptyLiterals_cons_other (show '/' ≠ '\'' by decide)]
  rw [dropComment, dropped, if_pos (by simp)]

/-- White space in front of a line counts. -/
theorem normalize_indent {indent : Text} (blank : ∀ c ∈ indent, isBlank c = true) (rest : Text) :
    normalize (indent ++ rest) = indent ++ normalize rest := by
  have absent {c : Char} (visible : isBlank c = false) : c ∉ indent := Text.notMem_of_blank blank visible
  rw [normalize, emptyLiterals_append_of_notMem (absent (by decide)),
    emptyLiterals_append_of_notMem (absent (by decide)), dropComment_append, normalize]
  intro slashes
  have count := slashes.sublist.count_le '/'
  rw [List.count_append, List.count_eq_zero.mpr (absent (by decide))] at count
  have short := (List.count_le_length (a := '/')).trans
    (List.length_take_le 1 (emptyLiterals '\'' 0 (emptyLiterals '"' 0 rest)))
  have two : ['/', '/'].count '/' = 2 := by decide
  omega

/-- The first character of a line counts, unless it starts a comment. -/
theorem exists_normalize_cons {c : Char} {rest : Text} (single : c = '/' → rest.head? ≠ some '/') :
    ∃ counted, normalize (c :: rest) = c :: counted := by
  by_cases slash : c = '/'
  · subst slash
    rw [normalize, emptyLiterals_cons_other (by decide), emptyLiterals_cons_other (by decide), dropComment,
      if_neg fun comment => single rfl (by simpa [head?_emptyLiterals] using comment.2.1)]
    exact ⟨_, rfl⟩
  · have first : (emptyLiterals '\'' 0 (emptyLiterals '"' 0 (c :: rest))).head? = some c := by
      rw [head?_emptyLiterals, head?_emptyLiterals]
      rfl
    obtain ⟨behind, same⟩ := List.head?_eq_some_iff.mp first
    rw [normalize, same, dropComment, if_neg fun comment => slash comment.1]
    exact ⟨_, rfl⟩

/-- What counts of a line that was read are its tokens. -/
theorem Reads.normalize_eq {line : Text} {reading : Reading} (reads : Reads line reading)
    (oneLine : '\n' ∉ line) (apart : QuotesApart reading.tokens reading.comment) :
    normalize line = countedOf reading.tokens := by
  obtain ⟨spells, formed, comment, slashes⟩ := reads
  rw [spells, List.mem_append, not_or] at oneLine
  rw [spells, normalize_append formed oneLine.1 apart slashes]
  obtain none | ⟨rest, same⟩ := comment
  · rw [none]
    exact List.append_nil _
  · have behind : '\n' ∉ rest := fun member => oneLine.2 (by simp [same, member])
    rw [same, normalize_comment behind, List.append_nil]

/-- What counts of a line is what is read of it from left to right: literals count as empty ones, the
comment does not count, and all else does.  A double quote in a character literal has to be the last
one of the line, or the first pass takes it for the start of a string. -/
theorem normalize_reads_left_to_right {line : Text} {reading : Reading}
    (read : reading? line = some reading) (oneLine : '\n' ∉ line)
    (apart : QuotesApart reading.tokens reading.comment) :
    normalize line = countedOf reading.tokens :=
  (reads_of_reading? read).normalize_eq oneLine apart

/-- A line with quotes of either kind in literals of the other kind, and in its comment. -/
def mixedQuotes : Text := "\"'\\\"//\"+'\"'//'".toList

theorem mixedQuotes_reads_left_to_right :
    reading? mixedQuotes =
        some ⟨[.literal '"' "'\\\"//".toList, .other '+', .literal '\'' ['"']], "//'".toList⟩ ∧
      normalize mixedQuotes = "\"\"+''".toList := by
  have read : reading? mixedQuotes =
      some ⟨[.literal '"' "'\\\"//".toList, .other '+', .literal '\'' ['"']], "//'".toList⟩ := by decide
  exact ⟨read, normalize_reads_left_to_right read (by decide) (by decide)⟩

/-- A double quote in a character literal is taken for the start of a string when another one follows. -/
theorem hidden_quote_opens_string :
    reading? "'\"'+\"\x7b\"".toList =
        some ⟨[.literal '\'' ['"'], .other '+', .literal '"' ['\x7b']], []⟩ ∧
      normalize "'\"'+\"\x7b\"".toList = "'\"\"\x7b\"".toList ∧
      countedOf [.literal '\'' ['"'], .other '+', .literal '"' ['\x7b']] = "''+\"\"".toList := by
  decide

end ReadOnlyViews.Java
