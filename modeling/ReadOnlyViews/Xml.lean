import ReadOnlyViews.Text.Basic

/-!
Text inside XML.
-/

namespace ReadOnlyViews.Xml

/-- One character as it is written inside XML. -/
def escapeChar (c : Char) : Text :=
  if c = '&' then "&amp;"
  else if c = '>' then "&gt;"
  else if c = '<' then "&lt;"
  else if c = '"' then "&quot;"
  else if c = '\'' then "&apos;"
  else [c]

/-- Text as it is written inside XML. -/
def escape (text : Text) : Text := text.flatMap escapeChar

end ReadOnlyViews.Xml
