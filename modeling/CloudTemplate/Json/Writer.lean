import CloudTemplate.Tree

/-!
# Writing JSON

The compact form has no blanks. The pretty form puts every item on a line of its own, indented by
two spaces for each level, and writes empty lists and maps as `[]` and `{}`.
-/

namespace CloudTemplate
namespace Json

/-- A lower-case hexadecimal digit. -/
def hexDigit (n : Nat) : Char :=
  if n < 10 then Char.ofNat ('0'.toNat + n) else Char.ofNat ('a'.toNat + n - 10)

/-- The text of one character inside quotes: only quotes, backslashes and control characters
below U+0020 are escaped. -/
def escapeChar (c : Char) : String :=
  if c = '"' then "\\\""
  else if c = '\\' then "\\\\"
  else if c = '\x08' then "\\b"
  else if c = '\x0c' then "\\f"
  else if c = '\n' then "\\n"
  else if c = '\r' then "\\r"
  else if c = '\t' then "\\t"
  else if c.toNat < 0x20 then
    "\\u00" ++ String.ofList [hexDigit (c.toNat / 16), hexDigit (c.toNat % 16)]
  else String.singleton c

/-- A string in quotes. -/
def quote (text : String) : String :=
  text.toList.foldl (fun out c => out ++ escapeChar c) "\"" ++ "\""

/-- A line break followed by the indentation of a level. -/
def lineBreak (level : Nat) : String :=
  String.ofList ('\n' :: List.replicate (2 * level) ' ')

mutual

/-- The compact text of a tree. -/
def compact : Tree → String
  | .null => "null"
  | .bool value => if value then "true" else "false"
  | .number value => value.jsonText
  | .string value => quote value
  | .list items => "[" ++ ",".intercalate (compactItems items) ++ "]"
  | .map entries => "\x7b" ++ ",".intercalate (compactEntries entries) ++ "\x7d"

/-- The compact texts of list items. -/
def compactItems : List Tree → List String
  | [] => []
  | item :: rest => compact item :: compactItems rest

/-- The compact texts of map entries. -/
def compactEntries : List (String × Tree) → List String
  | [] => []
  | (name, value) :: rest => (quote name ++ ":" ++ compact value) :: compactEntries rest

end

/-- Lines between two brackets, each on the level inside the brackets. -/
def bracketed (opening : String) (lines : List String) (closing : String) (level : Nat) : String :=
  if lines.isEmpty then opening ++ closing
  else
    opening ++ lineBreak (level + 1) ++ ("," ++ lineBreak (level + 1)).intercalate lines ++
      lineBreak level ++ closing

mutual

/-- The pretty text of a tree on a level. -/
def prettyAt (level : Nat) : Tree → String
  | .null => "null"
  | .bool value => if value then "true" else "false"
  | .number value => value.jsonText
  | .string value => quote value
  | .list items => bracketed "[" (prettyItems (level + 1) items) "]" level
  | .map entries => bracketed "\x7b" (prettyEntries (level + 1) entries) "\x7d" level

/-- The pretty texts of list items. -/
def prettyItems (level : Nat) : List Tree → List String
  | [] => []
  | item :: rest => prettyAt level item :: prettyItems level rest

/-- The pretty texts of map entries. -/
def prettyEntries (level : Nat) : List (String × Tree) → List String
  | [] => []
  | (name, value) :: rest =>
    (quote name ++ ": " ++ prettyAt level value) :: prettyEntries level rest

end

/-- The pretty text of a tree. -/
def pretty (tree : Tree) : String :=
  prettyAt 0 tree

end Json
end CloudTemplate
