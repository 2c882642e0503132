import CloudTemplate.Text.Unseen

/-!
# Quoted texts in messages

A text in double quotes, with escapes for quotes, backslashes and every character that cannot be
seen by itself.
-/

namespace CloudTemplate
namespace Text

/-- The text of one character inside quotes. -/
def quotedChar (c : Char) : String :=
  if c = '"' then "\\\""
  else if c = '\\' then "\\\\"
  else if c = '\x00' then "\\0"
  else if c = '\t' then "\\t"
  else if c = '\r' then "\\r"
  else if c = '\n' then "\\n"
  else if isSeen c then String.singleton c
  else "\\u\x7b" ++ String.ofList (Nat.toDigits 16 c.toNat) ++ "\x7d"

/-- A text in quotes. -/
def quoted (text : String) : String :=
  text.foldl (fun out c => out ++ quotedChar c) "\"" ++ "\""

end Text
end CloudTemplate
