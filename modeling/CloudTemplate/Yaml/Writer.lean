import CloudTemplate.Tree
import CloudTemplate.Yaml.Scalar
import CloudTemplate.Yaml.Token

/-!
# Writing YAML

Documents in block style without a start marker. Items of a list in a map stand at the level of
the map; empty lists and maps are `[]` and `{}`. A text of several lines is a literal block; other
texts are plain where that reads back as the same text, then in single quotes, and in double quotes
where only an escape can write them. Lines are never folded.

Main definitions: `presentation` chooses the form of a text, and `write` writes a document.
-/

namespace CloudTemplate
namespace Yaml

/-- The characters that are written as they are. -/
def isPrintable (c : Char) : Bool :=
  let n := c.toNat
  n = 0x0A || (0x20 ≤ n && n ≤ 0x7E) || (0xA0 ≤ n && n ≤ 0xD7FF) ||
    (0xE000 ≤ n && n ≤ 0xFFFD && n ≠ 0xFEFF) || 0x10000 ≤ n

/-- Whether a character separates words: a blank, a break or NUL. -/
def separates (c : Char) : Bool :=
  isSpaceOrTab c || isBreak c || c = '\x00'

/-- Whether some character of the first kind stands directly before one of the second. -/
def hasAdjacent (first second : Char → Bool) : List Char → Bool
  | a :: b :: rest => (first a && second b) || hasAdjacent first second (b :: rest)
  | _ => false

/-- Whether the end of a text, or a separating character, comes next. -/
def atSeparator : List Char → Bool
  | [] => true
  | c :: _ => separates c

/-- Whether a colon stands before a separator, or a number sign behind one. -/
def hasInnerIndicator (previous : Char) : List Char → Bool
  | [] => false
  | c :: rest =>
    (c = ':' && atSeparator rest) || (c = '#' && separates previous) || hasInnerIndicator c rest

/-- The characters that no plain text starts with. -/
def startIndicators : List Char :=
  ['#', ',', '[', ']', '{', '}', '&', '*', '!', '|', '>', '\'', '"', '%', '@', '\x60']

/-- Whether a text would be mistaken for something else if it were plain. -/
def hasIndicator (cs : List Char) : Bool :=
  "---".toList.isPrefixOf cs || "...".toList.isPrefixOf cs ||
    match cs with
    | [] => false
    | c :: rest =>
      startIndicators.contains c || (['?', ':', '-'].contains c && atSeparator rest) ||
        hasInnerIndicator c rest

/-- Whether a character is a space. -/
def isSpace (c : Char) : Bool :=
  c = ' '

/-- Whether only an escape can write the text. -/
def needsEscape (cs : List Char) : Bool :=
  cs.any (fun c => !isPrintable c) || hasAdjacent isSpace isBreak cs

/-- Whether the text can stand in single quotes. -/
def fitsSingle (cs : List Char) : Bool :=
  !needsEscape cs && !hasAdjacent isBreak isSpace cs

/-- Whether the text can be plain. -/
def fitsPlain (cs : List Char) : Bool :=
  fitsSingle cs && !cs.any isBreak && !hasIndicator cs &&
    cs.head? ≠ some ' ' && cs.getLast? ≠ some ' '

/-- Whether the text can be a literal block. -/
def fitsLiteral (cs : List Char) : Bool :=
  !needsEscape cs && cs.getLast? ≠ some ' '

/-- Whether a plain text would be read as something that is not a string, or looks like a number
with needless zeros. -/
def looksLikeOther (text : String) : Bool :=
  Scalar.ofPlain text ≠ .string text || Scalar.hasLeadingZero text.toList

/-- How a text is written. -/
inductive Presentation where
  | plain
  | single
  | double
  | literal
deriving DecidableEq, Repr

/-- The form of a text. -/
def presentation (text : String) : Presentation :=
  let cs := text.toList
  if cs.contains '\n' then if fitsLiteral cs then .literal else .double
  else if fitsPlain cs && !looksLikeOther text then .plain
  else if fitsSingle cs then .single
  else .double

/-- Some spaces. -/
def spaces (count : Nat) : List Char :=
  List.replicate count ' '

/-- The characters of a text of which every line is indented, apart from the first and from empty
ones. -/
def indented (indent : Nat) (write : Char → List Char) (atStart : Bool) : List Char → List Char
  | [] => []
  | c :: rest =>
    if isBreak c then c :: indented indent write true rest
    else (if atStart then spaces indent else []) ++ write c ++ indented indent write false rest

/-- A character in single quotes. -/
def singleChar (c : Char) : List Char :=
  if c = '\'' then ['\'', '\''] else [c]

/-- A text in single quotes. -/
def singleQuoted (indent : Nat) (cs : List Char) : List Char :=
  let closing :=
    match cs.getLast? with
    | some c => if isBreak c then spaces indent else []
    | none => []
  '\'' :: (indented indent singleChar false cs ++ closing ++ ['\''])

/-- The upper-case hexadecimal digits of a number, as many as asked for. -/
def upperHex (width n : Nat) : List Char :=
  (List.range width).map fun i => (((n >>> (4 * (width - 1 - i))) % 16).digitChar).toUpper

/-- The letters of the short escapes. -/
def shortEscapes : List (Char × Char) :=
  [('\x00', '0'), ('\x07', 'a'), ('\x08', 'b'), ('\t', 't'), ('\n', 'n'), ('\x0b', 'v'),
    ('\x0c', 'f'), ('\r', 'r'), ('\x1b', 'e'), ('"', '"'), ('\\', '\\'), ('\u0085', 'N'),
    ('\u00a0', '_'), ('\u2028', 'L'), ('\u2029', 'P')]

/-- A character in double quotes. -/
def doubleChar (c : Char) : List Char :=
  if isPrintable c && !isBreak c && c ≠ '"' && c ≠ '\\' then [c]
  else
    match shortEscapes.find? fun entry => entry.1 = c with
    | some (_, letter) => ['\\', letter]
    | none =>
      if c.toNat ≤ 0xFF then '\\' :: 'x' :: upperHex 2 c.toNat
      else if c.toNat ≤ 0xFFFF then '\\' :: 'u' :: upperHex 4 c.toNat
      else '\\' :: 'U' :: upperHex 8 c.toNat

/-- A text in double quotes. -/
def doubleQuoted (cs : List Char) : List Char :=
  '"' :: (cs.flatMap doubleChar ++ ['"'])

/-- What the header of a literal block says: the indentation, if the text starts with a space or a
break, and what becomes of the breaks at the end. -/
def literalHints (cs : List Char) : List Char :=
  let start :=
    match cs with
    | c :: _ => if isSpace c || isBreak c then ['2'] else []
    | [] => []
  let chomp :=
    match cs.reverse with
    | [] => ['-']
    | last :: before =>
      if !isBreak last then ['-']
      else
        match before with
        | [] => ['+']
        | c :: _ => if isBreak c then ['+'] else []
  start ++ chomp

/-- A text as a literal block with the given indentation of its lines. -/
def literalBlock (indent : Nat) (cs : List Char) : List Char :=
  '|' :: (literalHints cs ++ '\n' :: indented indent (fun c => [c]) true cs)

/-- A text in the form chosen for it. -/
def textLines (indent : Nat) (text : String) : List Char :=
  let cs := text.toList
  match presentation text with
  | .plain => cs
  | .single => singleQuoted indent cs
  | .double => doubleQuoted cs
  | .literal => literalBlock indent cs

/-- A text with the end of its last line. A literal block may have that already. -/
def textLine (indent : Nat) (text : String) : String :=
  let cs := textLines indent text
  let isEnded := presentation text = .literal && (text.toList.getLast?.any isBreak)
  String.ofList (if isEnded then cs else cs ++ ['\n'])

/-- The greatest size of a key on the line of its value, in bytes. -/
def greatestKeySize : Nat := 128

/-- Whether a key stands on the line of its value. -/
def isSimpleKey (key : String) : Bool :=
  !key.toList.any isBreak && key.utf8ByteSize ≤ greatestKeySize

/-- Spaces at the start of a line. -/
def margin (indent : Nat) : String :=
  String.ofList (spaces indent)

/-- A key with the colon behind it. A key that is not simple stands on lines of its own. -/
def keyLine (indent : Nat) (key : String) : String :=
  if isSimpleKey key then String.ofList (textLines indent key) ++ ":"
  else "? " ++ textLine (indent + 2) key ++ margin indent ++ ":"

/-- The start of a nested list or map: on the same line behind a dash, and otherwise on the next
line. -/
def nestedStart (isDashed : Bool) (indent : Nat) : String :=
  if isDashed then " " else "\n" ++ margin indent

mutual

/-- A node of a list or map with the given indentation, behind a dash or a colon. A colon on a line
of its own counts as a dash. -/
def behind (indent : Nat) (isDashed : Bool) : Tree → String
  | .null => " null\n"
  | .bool value => if value then " true\n" else " false\n"
  | .number value => " " ++ value.yamlText ++ "\n"
  | .string text => " " ++ textLine (indent + 2) text
  | .list [] => " []\n"
  | .list (item :: rest) =>
    let inner := if isDashed then indent + 2 else indent
    nestedStart isDashed inner ++ "-" ++ behind inner true item ++ items inner rest
  | .map [] => " \x7b\x7d\n"
  | .map ((key, value) :: rest) =>
    nestedStart isDashed (indent + 2) ++ keyLine (indent + 2) key ++
      behind (indent + 2) (!isSimpleKey key) value ++ entries (indent + 2) rest

/-- The items of a list, each on a new line. -/
def items (indent : Nat) : List Tree → String
  | [] => ""
  | item :: rest => margin indent ++ "-" ++ behind indent true item ++ items indent rest

/-- The entries of a map, each on a new line. -/
def entries (indent : Nat) : List (String × Tree) → String
  | [] => ""
  | (key, value) :: rest =>
    margin indent ++ keyLine indent key ++ behind indent (!isSimpleKey key) value ++
      entries indent rest

end

/-- A document. -/
def write : Tree → String
  | .null => "null\n"
  | .bool value => if value then "true\n" else "false\n"
  | .number value => value.yamlText ++ "\n"
  | .string text => textLine 2 text
  | .list [] => "[]\n"
  | .list list => items 0 list
  | .map [] => "\x7b\x7d\n"
  | .map list => entries 0 list

end Yaml
end CloudTemplate
