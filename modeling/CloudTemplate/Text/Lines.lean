/-!
# Lists of texts

Texts joined by a separator, and a count in front of a list of lines.
-/

namespace CloudTemplate
namespace Text

/-- Texts with `, ` between them. -/
def commaJoin (texts : List String) : String :=
  ", ".intercalate texts

/-- One line for each text, with a list mark in front and no line end behind the last. -/
def bulletLines (texts : List String) : String :=
  "\n".intercalate (texts.map ("  - " ++ ·))

end Text
end CloudTemplate
