import ReadOnlyViews.Changelog.Clock
import ReadOnlyViews.Text.Word
import ReadOnlyViews.Xml

/-!
The changelog that creates a view: its file name, which carries the stamp and the view's name, and
its content.
-/

namespace ReadOnlyViews.Changelog

/-- Whether a text is `expected`, a last line feed aside. -/
def isUpToLineFeed (expected text : Text) : Bool :=
  text == expected || text == expected ++ ['\n']

/-- The part of a view changelog's file name behind the stamp. -/
def viewSuffix (view : Text) : Text := "_create_view_" ++ view ++ ".xml"

/-- The file name of a view changelog. -/
def viewFileName (stamp view : Text) : Text := stamp ++ viewSuffix view

/-- The stamp of a view changelog's file name: at least fourteen digits before the part that names
the view. -/
def stampOf? (view file : Text) : Option Text :=
  let digits := file.takeWhile isDecimal
  if 14 ≤ digits.length ∧ isUpToLineFeed (viewSuffix view) (file.dropWhile isDecimal) then
    some digits
  else none

/-- The last of the files, in code-point order, that is a changelog of the view, and its stamp. -/
def findView? (files : List Text) (view : Text) : Option (Text × Text) :=
  (Text.sorted files).reverse.findSome? fun file => (stampOf? view file).map (file, ·)

/-- The file and stamp for a view: those of an earlier changelog of it, or else fresh ones. -/
def nextView (existing : List Text) (view : Text) (clock : Clock) :
    Except Failure (Text × Text) × Clock :=
  match findView? existing view with
  | some found => (.ok found, clock)
  | none =>
    let (stamp, clock) := clock.next
    (stamp.map fun stamp => (viewFileName stamp view, stamp), clock)

/-- The author of the change sets. -/
def author : Text := "jhipster-view-blueprint"

/-- The content of a view changelog. -/
def renderView (entityClass view sql stamp : Text) : Text :=
  let viewName := Xml.escape view
  "<?xml version=\"1.0\" encoding=\"utf-8\"?>
<databaseChangeLog
    xmlns=\"http://www.liquibase.org/xml/ns/dbchangelog\"
    xmlns:xsi=\"http://www.w3.org/2001/XMLSchema-instance\"
    xsi:schemaLocation=\"http://www.liquibase.org/xml/ns/dbchangelog
                        http://www.liquibase.org/xml/ns/dbchangelog/dbchangelog-latest.xsd\">

    <!--
        Database view for entity: ".toList ++ Xml.escape entityClass ++ "
        Generated by JHipster View Blueprint
    -->
    <changeSet id=\"".toList ++ stamp ++ "-create-view-" ++ viewName ++ "\" author=\"" ++ author ++
    "\" runOnChange=\"true\">
        <createView viewName=\"".toList ++ viewName ++ "\" replaceIfExists=\"true\">
            ".toList ++ Xml.escape sql ++ "
        </createView>
    </changeSet>

</databaseChangeLog>
".toList

end ReadOnlyViews.Changelog
