import Mathlib.Data.List.Infix
import ReadOnlyViews.Changelog.View
import ReadOnlyViews.Proofs.Texts

/-!
Nothing that is written into a view's changelog breaks out of its place.  Escaped text has no
markup, every ampersand in it starts an entity, and decoding the entities gives the text back; so
the changelog has the markup of its template, whatever the arguments are, and the SQL can be read
out of it again.
-/

namespace ReadOnlyViews

/-! ### Escaped text -/

namespace Xml

/-- The five entities. -/
def entities : List Text := ["&amp;", "&lt;", "&gt;", "&quot;", "&apos;"]

/-- Escaping as one replacement after another over the whole text: each one also sees what those
before it have written. -/
def escapeInTurn (text : Text) : Text :=
  Text.replaceChar '\'' "&apos;" <| Text.replaceChar '"' "&quot;" <|
    Text.replaceChar '<' "&lt;" <| Text.replaceChar '>' "&gt;" <| Text.replaceChar '&' "&amp;" text

/-- Text with its entities decoded, from left to right. -/
def unescape : Text → Text
  | '&' :: 'a' :: 'm' :: 'p' :: ';' :: rest => '&' :: unescape rest
  | '&' :: 'l' :: 't' :: ';' :: rest => '<' :: unescape rest
  | '&' :: 'g' :: 't' :: ';' :: rest => '>' :: unescape rest
  | '&' :: 'q' :: 'u' :: 'o' :: 't' :: ';' :: rest => '"' :: unescape rest
  | '&' :: 'a' :: 'p' :: 'o' :: 's' :: ';' :: rest => '\'' :: unescape rest
  | c :: rest => c :: unescape rest
  | [] => []

/-- The characters that delimit tags and attributes. -/
def isMarkup (c : Char) : Bool := c = '<' ∨ c = '>' ∨ c = '"'

/-- Every ampersand of a text starts an entity. -/
def OnlyEntities (text : Text) : Prop :=
  ∀ front rest, text = front ++ '&' :: rest → ∃ entity ∈ entities, entity <+: '&' :: rest

theorem OnlyEntities.append {a b : Text} (first : OnlyEntities a) (second : OnlyEntities b) :
    OnlyEntities (a ++ b) := by
  intro front rest split
  rcases List.append_eq_append_iff.mp split with ⟨middle, rfl, later⟩ | ⟨middle, rfl, within⟩
  · exact second middle rest later
  · cases middle with
    | nil => exact second [] rest within.symm
    | cons c middle =>
      obtain ⟨rfl, rfl⟩ := List.cons.inj within
      obtain ⟨entity, member, starts⟩ := first front middle rfl
      exact ⟨entity, member, starts.trans (List.prefix_append _ _)⟩

private theorem onlyEntities_of_notMem {text : Text} (absent : '&' ∉ text) : OnlyEntities text := by
  rintro front rest rfl
  simp at absent

private theorem onlyEntities_of_mem {entity : Text} (member : entity ∈ entities) : OnlyEntities entity := by
  have shape : ∀ entity ∈ entities, entity.head? = some '&' ∧ '&' ∉ entity.tail := by decide
  intro front rest split
  obtain ⟨-, once⟩ := shape entity member
  cases front with
  | nil => exact ⟨entity, member, by rw [split, List.nil_append]⟩
  | cons c front => simp [split] at once

/-- How a character is written: five of them as entities, every other one as it is. -/
inductive Written : Char → Text → Prop
  | ampersand : Written '&' "&amp;"
  | less : Written '<' "&lt;"
  | greater : Written '>' "&gt;"
  | quote : Written '"' "&quot;"
  | apostrophe : Written '\'' "&apos;"
  | plain {c : Char} (ampersand : c ≠ '&') (markup : isMarkup c = false) (apostrophe : c ≠ '\'') :
    Written c [c]

private theorem written_escapeChar (c : Char) : Written c (escapeChar c) := by
  unfold escapeChar
  split_ifs with ampersand greater less quote apostrophe
  · exact ampersand ▸ .ampersand
  · exact greater ▸ .greater
  · exact less ▸ .less
  · exact quote ▸ .quote
  · exact apostrophe ▸ .apostrophe
  · exact .plain ampersand (by simp [isMarkup, less, greater, quote]) apostrophe

namespace Written

variable {c : Char} {text : Text} (written : Written c text)
include written

private theorem escapeInTurn_eq : escapeInTurn [c] = text := by
  cases written with
  | plain ampersand markup apostrophe =>
    have kept {mark : Char} (other : c ≠ mark) (replacement : Text) :
        Text.replaceChar mark replacement [c] = [c] := by simp [Text.replaceChar, other]
    simp only [isMarkup, decide_eq_false_iff_not, not_or] at markup
    rw [escapeInTurn, kept ampersand, kept markup.2.1, kept markup.1, kept markup.2.2,
      kept apostrophe]
  | _ => decide

private theorem unescape_append (rest : Text) : unescape (text ++ rest) = c :: unescape rest := by
  cases written with
  | plain ampersand =>
    rw [List.singleton_append, unescape]
    all_goals
      intros
      contradiction
  | _ => rfl

private theorem any_isMarkup : text.any isMarkup = false := by
  cases written with
  | plain _ markup => simpa using markup
  | _ => decide

private theorem onlyEntities : OnlyEntities text := by
  cases written with
  | plain ampersand => exact onlyEntities_of_notMem (by simpa using Ne.symm ampersand)
  | _ => exact onlyEntities_of_mem (by decide)

end Written

/-- Replacing in turn is replacing each character once, because the ampersand comes first. -/
theorem escapeInTurn_eq_escape (text : Text) : escapeInTurn text = escape text := by
  have append (a b : Text) : escapeInTurn (a ++ b) = escapeInTurn a ++ escapeInTurn b := by
    simp only [escapeInTurn, Text.replaceChar, List.flatMap_append]
  induction text with
  | nil => rfl
  | cons c text ih =>
    rw [← List.singleton_append, append, (written_escapeChar c).escapeInTurn_eq, ih]
    rfl

private theorem unescape_escape (text : Text) : unescape (escape text) = text := by
  induction text with
  | nil => rfl
  | cons c text ih =>
    rw [escape, List.flatMap_cons, (written_escapeChar c).unescape_append]
    exact congrArg _ ih

private theorem escape_injective : Function.Injective escape :=
  Function.LeftInverse.injective unescape_escape

private theorem isMarkup_of_mem_escape {text : Text} {c : Char} (member : c ∈ escape text) :
    isMarkup c = false := by
  obtain ⟨d, -, part⟩ := List.mem_flatMap.mp member
  have plain := List.any_eq_false.mp (written_escapeChar d).any_isMarkup c part
  simpa using plain

private theorem onlyEntities_escape (text : Text) : OnlyEntities (escape text) := by
  induction text with
  | nil => exact onlyEntities_of_notMem List.not_mem_nil
  | cons c text ih => exact (written_escapeChar c).onlyEntities.append ih

end Xml

/-! ### The first occurrence of a text -/

namespace Text

/-- What stands before and behind the first occurrence of `part`. -/
def cut? (part : Text) : Text → Option (Text × Text)
  | [] => (after? part []).map fun rest => ([], rest)
  | c :: text =>
    match after? part (c :: text) with
    | some rest => some ([], rest)
    | none => (cut? part text).map fun halves => (c :: halves.1, halves.2)

/-- What stands behind the first occurrence of `part`. -/
def behind? (part text : Text) : Option Text := (cut? part text).map Prod.snd

/-- No occurrence of `part` starts inside the text, whatever follows it. -/
def clearOf (part : Text) : Text → Bool
  | [] => true
  | c :: text =>
    !part.isPrefixOf (c :: text) && !(c :: text).isPrefixOf part && clearOf part text

private theorem clearOf_of_notMem {mark : Char} {front : Text} (absent : mark ∉ front) (tail : Text) :
    clearOf (mark :: tail) front = true := by
  induction front with
  | nil => rfl
  | cons c front ih =>
    simp only [List.mem_cons, not_or] at absent
    simp [clearOf, ← Bool.not_eq_true, List.isPrefixOf_iff_prefix, List.cons_prefix_cons, absent.1,
      Ne.symm absent.1, ih absent.2]

/-- What stands behind an occurrence stays the same behind a text in which none starts. -/
theorem behind?_append {part front : Text} (clear : clearOf part front = true) (text : Text) :
    behind? part (front ++ text) = behind? part text := by
  induction front with
  | nil => rfl
  | cons c front ih =>
    simp only [clearOf, Bool.and_eq_true, Bool.not_eq_true', ← Bool.not_eq_true,
      List.isPrefixOf_iff_prefix] at clear
    obtain ⟨⟨whole, cutOff⟩, later⟩ := clear
    have elsewhere : after? part (c :: (front ++ text)) = none := by
      cases found : after? part (c :: (front ++ text)) with
      | none => rfl
      | some tail =>
        have starts : part <+: c :: front ++ text := ⟨tail, (after?_eq_some_iff.mp found).symm⟩
        have overlap := List.prefix_or_prefix_of_prefix starts (List.prefix_append _ _)
        exact (overlap.elim whole cutOff).elim
    rw [← ih later, List.cons_append, behind?, cut?, elsewhere, behind?, Option.map_map]
    rfl

/-- An occurrence that holds the first mark of the text is the first one. -/
theorem cut?_of_notMem {mark : Char} {front head : Text} (absent : mark ∉ front)
    (early : mark ∉ head) (tail rest : Text) :
    cut? (head ++ mark :: tail) (front ++ (head ++ mark :: tail ++ rest)) = some (front, rest) := by
  induction front with
  | nil =>
    have here := after?_eq_some_iff.mpr (Eq.refl (head ++ mark :: tail ++ rest))
    cases whole : head ++ mark :: tail ++ rest with
    | nil => simp at whole
    | cons c text => rw [List.nil_append, cut?, ← whole, here]
  | cons c front ih =>
    simp only [List.mem_cons, not_or] at absent
    have elsewhere : after? (head ++ mark :: tail)
        (c :: (front ++ (head ++ mark :: tail ++ rest))) = none := by
      cases found : after? (head ++ mark :: tail)
          (c :: (front ++ (head ++ mark :: tail ++ rest))) with
      | none => rfl
      | some behind =>
        -- Both sides up to their first mark would be equal, but one is longer.
        have upTo (text behind : Text) (free : mark ∉ text) :
            (text ++ mark :: behind).takeWhile (· != mark) = text := by
          rw [List.takeWhile_append_of_pos (by
              intro d member
              have other : d ≠ mark := fun same => free (same ▸ member)
              simpa using other),
            List.takeWhile_cons_of_neg (by simp), List.append_nil]
        have same := congrArg (List.takeWhile (· != mark)) (after?_eq_some_iff.mp found)
        have left : c :: (front ++ (head ++ mark :: tail ++ rest)) =
            (c :: front ++ head) ++ mark :: (tail ++ rest) := by simp
        have right : head ++ mark :: tail ++ behind = head ++ mark :: (tail ++ behind) := by simp
        rw [left, right, upTo _ _ (by simpa using ⟨absent.1, absent.2, early⟩),
          upTo _ _ early] at same
        have lengths := congrArg List.length same
        simp only [List.length_append, List.length_cons] at lengths
        omega
    rw [List.cons_append, cut?, elsewhere, ih absent.2]
    rfl

private theorem behind?_of_notMem {mark : Char} {front head : Text} (absent : mark ∉ front)
    (early : mark ∉ head) (tail rest : Text) :
    behind? (head ++ mark :: tail) (front ++ (head ++ mark :: tail ++ rest)) = some rest := by
  rw [behind?, cut?_of_notMem absent early]
  rfl

end Text

namespace Changelog

/-- A view changelog with the names of its blanks. -/
def template : Text :=
  "<?xml version=\"1.0\" encoding=\"utf-8\"?>
<databaseChangeLog
    xmlns=\"http://www.liquibase.org/xml/ns/dbchangelog\"
    xmlns:xsi=\"http://www.w3.org/2001/XMLSchema-instance\"
    xsi:schemaLocation=\"http://www.liquibase.org/xml/ns/dbchangelog
                        http://www.liquibase.org/xml/ns/dbchangelog/dbchangelog-latest.xsd\">

    <!--
        Database view for entity: \x7bentity_class\x7d
        Generated by JHipster View Blueprint
    -->
    <changeSet id=\"\x7btimestamp\x7d-create-view-\x7bview_name\x7d\" author=\"\x7bauthor\x7d\" runOnChange=\"true\">
        <createView viewName=\"\x7bview_name\x7d\" replaceIfExists=\"true\">
            \x7bsql\x7d
        </createView>
    </changeSet>

</databaseChangeLog>
"

/-- The SQL of a view changelog as it is written there: what stands between the line break and
indentation behind the start tag of the view and the line break before its end tag. -/
def writtenSql? (changelog : Text) : Option Text := do
  let element ← Text.behind? "<createView" changelog
  let content ← Text.behind? ">\n            " element
  let halves ← Text.cut? "\n        </createView>" content
  return halves.1

private theorem filter_isMarkup_escape (text : Text) : (Xml.escape text).filter Xml.isMarkup = [] :=
  List.filter_eq_nil_iff.mpr fun c member => by simp [Xml.isMarkup_of_mem_escape member]

private theorem isMarkup_of_isDecimal {c : Char} (digit : isDecimal c = true) :
    Xml.isMarkup c = false ∧ c ≠ '&' := by
  have other {d : Char} (letter : isDecimal d = false) : c ≠ d := by
    rintro rfl
    rw [letter] at digit
    cases digit
  have less : c ≠ '<' := other (by decide)
  have greater : c ≠ '>' := other (by decide)
  have quote : c ≠ '"' := other (by decide)
  exact ⟨by simp [Xml.isMarkup, less, greater, quote], other (by decide)⟩

set_option maxRecDepth 4000 in
private theorem filter_isMarkup_renderView (entityClass view sql : Text) {stamp : Text}
    (digits : ∀ c ∈ stamp, isDecimal c = true) :
    (renderView entityClass view sql stamp).filter Xml.isMarkup = template.filter Xml.isMarkup := by
  have plain : stamp.filter Xml.isMarkup = [] :=
    List.filter_eq_nil_iff.mpr fun c member => by
      simp [(isMarkup_of_isDecimal (digits c member)).1]
  unfold renderView template author
  simp only [List.filter_append, filter_isMarkup_escape, plain, -String.reduceToList]
  repeat rw [String.toList_ofList]
  decide +kernel

set_option maxRecDepth 4000 in
private theorem onlyEntities_renderView (entityClass view sql : Text) {stamp : Text}
    (digits : ∀ c ∈ stamp, isDecimal c = true) :
    Xml.OnlyEntities (renderView entityClass view sql stamp) := by
  have plain : Xml.OnlyEntities stamp :=
    Xml.onlyEntities_of_notMem fun member => (isMarkup_of_isDecimal (digits _ member)).2 rfl
  have literal {chars : List Char} (absent : '&' ∉ chars) :
      Xml.OnlyEntities (String.ofList chars).toList :=
    Xml.onlyEntities_of_notMem (by rwa [String.toList_ofList])
  have escaped := Xml.onlyEntities_escape
  unfold renderView
  exact literal (by decide +kernel) |>.append (escaped _) |>.append (literal (by decide +kernel))
    |>.append plain |>.append (literal (by decide +kernel)) |>.append (escaped _)
    |>.append (literal (by decide +kernel)) |>.append (literal (by decide +kernel))
    |>.append (literal (by decide +kernel)) |>.append (escaped _)
    |>.append (literal (by decide +kernel)) |>.append (escaped _)
    |>.append (literal (by decide +kernel))

private theorem notMem_escape (text : Text) {mark : Char} (markup : Xml.isMarkup mark = true) :
    mark ∉ Xml.escape text := by
  intro member
  rw [Xml.isMarkup_of_mem_escape member] at markup
  cases markup

set_option maxRecDepth 4000 in
/-- What stands behind the start of the view's tag: none of the tags before it is taken for it. -/
theorem behind?_createView (entityClass view sql : Text) {stamp : Text}
    (digits : ∀ c ∈ stamp, isDecimal c = true) :
    Text.behind? "<createView" (renderView entityClass view sql stamp) =
      some (" viewName=\"".toList ++ (Xml.escape view ++
        ("\" replaceIfExists=\"true\">\n            ".toList ++ (Xml.escape sql ++
          "\n        </createView>\n    </changeSet>\n\n</databaseChangeLog>\n".toList)))) := by
  have clear {text : Text} (absent : '<' ∉ text) : Text.clearOf "<createView" text = true :=
    Text.clearOf_of_notMem absent "createView".toList
  have literal {chars : List Char} (apart : Text.clearOf "<createView" chars = true) :
      Text.clearOf "<createView" (String.ofList chars).toList = true := by
    rw [@String.toList_ofList chars]
    exact apart
  have plain : '<' ∉ stamp := fun member =>
    Bool.false_ne_true ((isMarkup_of_isDecimal (digits _ member)).1.symm.trans rfl)
  have tag : "\" runOnChange=\"true\">\n        <createView viewName=\"".toList =
      "\" runOnChange=\"true\">\n        ".toList ++
        ("<createView".toList ++ " viewName=\"".toList) := by decide +kernel
  unfold renderView author
  simp only [List.append_assoc, -String.reduceToList]
  rw [Text.behind?_append (literal (by decide +kernel)),
    Text.behind?_append (clear (notMem_escape _ rfl)),
    Text.behind?_append (literal (by decide +kernel)), Text.behind?_append (clear plain),
    Text.behind?_append (literal (by decide +kernel)),
    Text.behind?_append (clear (notMem_escape _ rfl)),
    Text.behind?_append (literal (by decide +kernel)),
    Text.behind?_append (literal (by decide +kernel)), tag]
  simp only [List.append_assoc, -String.reduceToList]
  rw [Text.behind?_append (literal (by decide +kernel))]
  exact Text.behind?_of_notMem List.not_mem_nil List.not_mem_nil "createView".toList _

/-- The SQL that is read out of a view changelog is the escaped one. -/
theorem writtenSql?_renderView (entityClass view sql : Text) {stamp : Text}
    (digits : ∀ c ∈ stamp, isDecimal c = true) :
    writtenSql? (renderView entityClass view sql stamp) = some (Xml.escape sql) := by
  have clear {text : Text} (absent : '>' ∉ text) : Text.clearOf ">\n            " text = true :=
    Text.clearOf_of_notMem absent "\n            ".toList
  have startTag : "\" replaceIfExists=\"true\">\n            ".toList =
      "\" replaceIfExists=\"true\"".toList ++ ">\n            ".toList := by decide +kernel
  have endTag : "\n        </createView>\n    </changeSet>\n\n</databaseChangeLog>\n".toList =
      "\n        </createView>".toList ++
        "\n    </changeSet>\n\n</databaseChangeLog>\n".toList := by decide +kernel
  have content (rest : Text) :
      Text.behind? ">\n            " (" viewName=\"".toList ++ (Xml.escape view ++
        ("\" replaceIfExists=\"true\">\n            ".toList ++ rest))) = some rest := by
    rw [Text.behind?_append (by decide +kernel), Text.behind?_append (clear (notMem_escape _ rfl)),
      startTag, List.append_assoc, Text.behind?_append (by decide +kernel)]
    exact Text.behind?_of_notMem List.not_mem_nil List.not_mem_nil "\n            ".toList rest
  have body (rest : Text) : Text.cut? "\n        </createView>"
      (Xml.escape sql ++ ("\n        </createView>".toList ++ rest)) =
      some (Xml.escape sql, rest) :=
    @Text.cut?_of_notMem '<' _ "\n        ".toList (notMem_escape sql rfl) (by decide)
      "/createView>".toList rest
  rw [writtenSql?, behind?_createView entityClass view sql digits]
  simp only [Option.bind_eq_bind, Option.bind_some, content, endTag, body]
  rfl

/-- A view's changelog has the markup of the template, its ampersands start entities, and the SQL
is got back by decoding what stands in its place; escaping is one replacement after another, and no
two texts are escaped alike. -/
theorem renderView_sealed (entityClass view sql stamp : Text)
    (digits : ∀ c ∈ stamp, isDecimal c = true) :
    (renderView entityClass view sql stamp).filter Xml.isMarkup = template.filter Xml.isMarkup ∧
      Xml.OnlyEntities (renderView entityClass view sql stamp) ∧
      (writtenSql? (renderView entityClass view sql stamp)).map Xml.unescape = some sql ∧
      (∀ text, Xml.escape text = Xml.escapeInTurn text) ∧ Function.Injective Xml.escape := by
  refine ⟨filter_isMarkup_renderView entityClass view sql digits,
    onlyEntities_renderView entityClass view sql digits, ?_,
    fun text => (Xml.escapeInTurn_eq_escape text).symm, Xml.escape_injective⟩
  rw [writtenSql?_renderView entityClass view sql digits, Option.map_some, Xml.unescape_escape]

/-- A statement that closes the element it is written into, and holds an entity. -/
def hostileSql : Text := "a < 1 && b = '&amp;'\n        </createView>"

theorem renderView_sealed_of_hostileSql :
    (∀ c ∈ "20240102030405000".toList, isDecimal c = true) ∧
      (renderView "--><x>" "\"&lt;\x7bsql\x7d" hostileSql "20240102030405000").filter
        Xml.isMarkup = template.filter Xml.isMarkup ∧
      (writtenSql? (renderView "--><x>" "\"&lt;\x7bsql\x7d" hostileSql
        "20240102030405000")).map Xml.unescape = some hostileSql := by
  have digits : ∀ c ∈ "20240102030405000".toList, isDecimal c = true :=
    List.all_eq_true.mp (by decide +kernel)
  have kept := renderView_sealed "--><x>" "\"&lt;\x7bsql\x7d" hostileSql _ digits
  exact ⟨digits, kept.1, kept.2.2.1⟩

end Changelog

end ReadOnlyViews
