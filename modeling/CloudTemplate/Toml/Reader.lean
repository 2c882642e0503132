import CloudTemplate.Toml.Item
import CloudTemplate.Toml.Moment
import CloudTemplate.Toml.Numeral

/-!
# Reading TOML

A document is a sequence of lines with headers or keys. Lists, values in braces and texts in
triple quotes may go over several lines.

Main definition: `Item.ofText?` reads a document.
-/

namespace CloudTemplate
namespace Toml
namespace Reader

/-- What was read, and what follows it. -/
abbrev Reading (α : Type) := List Char → Option (α × List Char)

/-- The characters that a comment or a text of one line may hold. -/
def isAllowed (c : Char) : Bool :=
  c = '\t' || (0x20 ≤ c.toNat && c.toNat ≠ 0x7F)

/-- The characters of bare keys. -/
def isBare (c : Char) : Bool :=
  (c.isAlphanum && c.toNat < 0x80) || c = '_' || c = '-'

/-- What follows blanks. -/
def skipBlanks (cs : List Char) : List Char :=
  cs.dropWhile fun c => c = ' ' || c = '\t'

/-- What follows a line break, if there is one. -/
def break? : List Char → Option (List Char)
  | '\n' :: rest => some rest
  | '\r' :: '\n' :: rest => some rest
  | _ => none

/-- What follows a comment, if there is one, up to the line break. -/
def skipComment : List Char → List Char
  | '#' :: rest => rest.dropWhile isAllowed
  | cs => cs

/-- What follows the rest of a line, which holds nothing but a comment. -/
def endLine? (cs : List Char) : Option (List Char) :=
  let cs := skipComment (skipBlanks cs)
  if cs.isEmpty then some [] else break? cs

/-- What follows blanks, comments and line breaks. -/
def skipLines : Nat → List Char → List Char
  | 0, cs => cs
  | fuel + 1, cs =>
    let cs := skipComment (skipBlanks cs)
    match break? cs with
    | some rest => skipLines fuel rest
    | none => cs

/-- The character that an escape of some hexadecimal digits stands for. -/
def codePoint? (count : Nat) (cs : List Char) : Option (Char × List Char) :=
  let digits := cs.take count
  if digits.length = count && digits.all isHexDigit then
    let point := naturalOf 16 digits
    if point < 0xD800 || (0xDFFF < point && point ≤ 0x10FFFF) then
      some (Char.ofNat point, cs.drop count)
    else none
  else none

/-- The character that an escape stands for, behind the backslash. -/
def escape? : Reading Char
  | 'b' :: rest => some ('\x08', rest)
  | 't' :: rest => some ('\t', rest)
  | 'n' :: rest => some ('\n', rest)
  | 'f' :: rest => some ('\x0c', rest)
  | 'r' :: rest => some ('\r', rest)
  | 'e' :: rest => some ('\x1b', rest)
  | '"' :: rest => some ('"', rest)
  | '\\' :: rest => some ('\\', rest)
  | 'x' :: rest => codePoint? 2 rest
  | 'u' :: rest => codePoint? 4 rest
  | 'U' :: rest => codePoint? 8 rest
  | _ => none

/-- A text in double quotes, behind the opening quote. -/
def basicText (seen : List Char) : Nat → Reading String
  | 0, _ => none
  | _, [] => none
  | fuel + 1, c :: rest =>
    if c = '"' then some (String.ofList seen.reverse, rest)
    else if c = '\\' then
      match escape? rest with
      | some (c, rest) => basicText (c :: seen) fuel rest
      | none => none
    else if isAllowed c then basicText (c :: seen) fuel rest
    else none

/-- A text in single quotes, behind the opening quote. -/
def literalText (cs : List Char) : Option (String × List Char) :=
  let body := cs.takeWhile fun c => c ≠ '\'' && isAllowed c
  match cs.drop body.length with
  | '\'' :: rest => some (String.ofList body, rest)
  | _ => none

/-- What follows blanks and line breaks. -/
def skipBlankLines : Nat → List Char → List Char
  | 0, cs => cs
  | fuel + 1, cs =>
    let cs := skipBlanks cs
    match break? cs with
    | some rest => skipBlankLines fuel rest
    | none => cs

/-- The end of a text in triple quotes, at the first of three quotes: up to two more quotes belong
to the text. -/
def closeTriple (quote : Char) (seen cs : List Char) : Option (String × List Char) :=
  let extra := ((cs.drop 3).takeWhile (· = quote)).take 2
  some (String.ofList (seen.reverse ++ extra), cs.drop (3 + extra.length))

/-- Whether three quotes come next. -/
def atTriple (quote : Char) (cs : List Char) : Bool :=
  [quote, quote, quote].isPrefixOf cs

/-- A text in triple quotes, from some place inside it on. Line breaks are kept as they are written.
A backslash at the end of a line joins the lines, where backslashes count. -/
def tripleText (quote : Char) (seen : List Char) : Nat → Reading String
  | 0, _ => none
  | _, [] => none
  | fuel + 1, c :: rest =>
    if atTriple quote (c :: rest) then closeTriple quote seen (c :: rest)
    else if c = '\\' && quote = '"' then
      match escape? rest with
      | some (c, rest) => tripleText quote (c :: seen) fuel rest
      | none =>
        match break? (skipBlanks rest) with
        | some rest => tripleText quote seen fuel (skipBlankLines rest.length rest)
        | none => none
    else
      if (break? (c :: rest)).isSome || isAllowed c then tripleText quote (c :: seen) fuel rest
      else none

/-- A text in triple quotes, behind the opening quotes. A line break at its start is dropped. -/
def startTriple (quote : Char) (cs : List Char) : Option (String × List Char) :=
  let cs := (break? cs).getD cs
  tripleText quote [] (cs.length + 1) cs

/-- A part of a key. -/
def keyPart : Reading String
  | '"' :: rest => basicText [] (rest.length + 1) rest
  | '\'' :: rest => literalText rest
  | cs =>
    let bare := cs.takeWhile isBare
    if bare.isEmpty then none else some (String.ofList bare, cs.drop bare.length)

/-- A key, which points may divide into parts. -/
def key : Nat → Reading (List String)
  | 0, _ => none
  | fuel + 1, cs => do
    let (part, rest) ← keyPart (skipBlanks cs)
    match skipBlanks rest with
    | '.' :: rest => do
      let (parts, rest) ← key fuel rest
      return (part :: parts, rest)
    | rest => return ([part], rest)

/-- The characters that end a value without quotes. -/
def endsValue (c : Char) : Bool :=
  c = ' ' || c = '\t' || c = '\n' || c = '\r' || c = ',' || c = ']' || c = '}' || c = '#' || c = '='

/-- A boolean, a number, a date or a time. A blank may divide a date from a time. -/
def bareValue (cs : List Char) : Option (Item × List Char) :=
  let first := cs.takeWhile fun c => !endsValue c
  let rest := cs.drop first.length
  let second :=
    match rest with
    | ' ' :: more =>
      if (Date.ofChars? first).any (·.2.isEmpty) && more.head?.any Char.isDigit then
        ' ' :: more.takeWhile fun c => !endsValue c
      else []
    | _ => []
  let spelled := first ++ second
  let rest := rest.drop second.length
  if spelled = "true".toList then some (.boolean true, rest)
  else if spelled = "false".toList then some (.boolean false, rest)
  else
    match Numeral.isInRange? spelled with
    | some isInRange => some (.number isInRange, rest)
    | none => (Moment.ofChars? spelled).map fun moment => (.moment moment.text, rest)

/-- The last part of a key and the parts before it. -/
def splitKey (parts : List String) : List String × String :=
  (parts.dropLast, parts.getLastD "")

/-- How many lists and values in braces may stand around each other. -/
def depthLimit : Nat := 80

mutual

/-- A value, with at most `depth` lists and values in braces around another. -/
def value (depth fuel : Nat) (cs : List Char) : Option (Item × List Char) :=
  match fuel with
  | 0 => none
  | fuel + 1 =>
    match cs with
    | '"' :: '"' :: '"' :: rest => (startTriple '"' rest).map fun (t, rest) => (.string t, rest)
    | '\'' :: '\'' :: '\'' :: rest =>
      (startTriple '\'' rest).map fun (t, rest) => (.string t, rest)
    | '"' :: rest => (basicText [] (rest.length + 1) rest).map fun (t, rest) => (.string t, rest)
    | '\'' :: rest => (literalText rest).map fun (t, rest) => (.string t, rest)
    | '[' :: rest => if depth = 0 then none else list (depth - 1) fuel [] rest
    | '{' :: rest => if depth = 0 then none else table (depth - 1) fuel [] rest
    | cs => bareValue cs

/-- A list behind its opening bracket, or behind the comma after the items already seen. -/
def list (depth fuel : Nat) (seen : List Item) (cs : List Char) : Option (Item × List Char) :=
  match fuel with
  | 0 => none
  | fuel + 1 =>
    match skipLines cs.length cs with
    | ']' :: rest => some (.list seen.reverse, rest)
    | cs =>
      match value depth fuel cs with
      | none => none
      | some (item, rest) =>
        match skipLines rest.length rest with
        | ',' :: rest => list depth fuel (item :: seen) rest
        | ']' :: rest => some (.list (item :: seen).reverse, rest)
        | _ => none

/-- A value in braces behind the opening brace, or behind the comma after the keys already seen. -/
def table (depth fuel : Nat) (seen : Item.Body) (cs : List Char) : Option (Item × List Char) :=
  match fuel with
  | 0 => none
  | fuel + 1 =>
    match skipLines cs.length cs with
    | '}' :: rest => some (.table .value seen, rest)
    | cs =>
      match entry depth fuel cs with
      | none => none
      | some ((path, name, item), rest) =>
        match Item.define path name item .header seen with
        | none => none
        | some seen =>
          match skipLines rest.length rest with
          | ',' :: rest => table depth fuel seen rest
          | '}' :: rest => some (.table .value seen, rest)
          | _ => none

/-- A key with its value. -/
def entry (depth fuel : Nat) (cs : List Char) :
    Option ((List String × String × Item) × List Char) :=
  match fuel with
  | 0 => none
  | fuel + 1 =>
    match key cs.length cs with
    | some (parts, '=' :: rest) =>
      match value depth fuel (skipBlanks rest) with
      | none => none
      | some (item, rest) =>
        let (path, name) := splitKey parts
        some ((path, name, item), rest)
    | _ => none

end

/-- A header behind its opening brackets: its key, and what follows the closing brackets. -/
def header (closing : List Char) (cs : List Char) : Option (List String × List Char) :=
  match key cs.length cs with
  | none => none
  | some (parts, rest) =>
    if closing.isPrefixOf rest then some (parts, rest.drop closing.length) else none

/-- The lines of a document behind those that were read, under the latest header. -/
def lines (fuel : Nat) (current : List String) (seen : Item.Body) (cs : List Char) :
    Option Item.Body :=
  match fuel with
  | 0 => none
  | fuel + 1 =>
    match skipLines cs.length cs with
    | [] => some seen
    | '[' :: '[' :: rest => do
      let (parts, rest) ← header [']', ']'] rest
      let (path, name) := splitKey parts
      let seen ← Item.change false (Item.appendTable name) path .header seen
      lines fuel parts seen (← endLine? rest)
    | '[' :: rest => do
      let (parts, rest) ← header [']'] rest
      let (path, name) := splitKey parts
      let seen ← Item.change false (Item.openTable name) path .header seen
      lines fuel parts seen (← endLine? rest)
    | cs => do
      let ((path, name, item), rest) ← entry depthLimit (2 * cs.length + 2) cs
      let seen ← Item.defineIn current path name item .header seen
      lines fuel current seen (← endLine? rest)

end Reader

/-- The entries of the document that a text spells. A byte order mark may stand at its start. -/
def Item.ofText? (text : String) : Option Item.Body :=
  let cs := text.toList
  let cs := if cs.head? = some '\ufeff' then cs.tail else cs
  Reader.lines (cs.length + 1) [] [] cs

end Toml
end CloudTemplate
