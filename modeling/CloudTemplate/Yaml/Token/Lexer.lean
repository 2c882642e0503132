import CloudTemplate.Yaml.Tag
import CloudTemplate.Yaml.Token

/-!
# Tokens from characters

A lexer keeps the characters still to be read, its position, the indentation of the open block
collections and, for each level of flow collections, the place where a simple key may have begun.
A key becomes known as such only at its colon; the key token is then inserted where it began.
-/

namespace CloudTemplate
namespace Yaml

/-- A place where a simple key may have begun. -/
structure SimpleKey where
  /-- A key has to stand here, because the line is at the indentation of a block mapping. -/
  required : Bool
  /-- The number of tokens before it. -/
  tokenNumber : Nat
  /-- The number of bytes before it. -/
  offset : Nat
  line : Nat
  column : Nat

/-- The state of reading tokens. -/
structure Lexer where
  /-- More than the number of characters still to be read. -/
  bound : Nat
  rest : List Char
  /-- The number of bytes read. -/
  offset : Nat
  line : Nat
  column : Nat
  tokens : Array Token
  /-- The column of the innermost block collection, or -1. -/
  indent : Int
  /-- The columns of the block collections around it. -/
  outerIndents : List Int
  /-- Whether a simple key may begin here. -/
  keyAllowed : Bool
  /-- The possible key of each flow level, the innermost first. -/
  keys : List (Option SimpleKey)
  flowLevel : Nat

namespace Lexer

/-- A lexer at the start of a text. -/
def start (text : List Char) : Lexer :=
  ⟨text.length + 1, text, 0, 0, 0, #[], -1, [], true, [none], 0⟩

/-- The number of bytes of some characters. -/
def sizeOf (cs : List Char) : Nat :=
  cs.foldl (fun size c => size + c.utf8Size) 0

/-- Move past characters other than line breaks. A column is a character, whatever its size. -/
def skip (lx : Lexer) (count : Nat) : Lexer :=
  { lx with
    rest := lx.rest.drop count
    offset := lx.offset + sizeOf (lx.rest.take count)
    column := lx.column + count }

/-- Move past a line break; a carriage return and a line feed are one break. -/
def skipBreak (lx : Lexer) : Lexer :=
  match lx.rest with
  | '\r' :: '\n' :: rest =>
    { lx with rest := rest, offset := lx.offset + 2, line := lx.line + 1, column := 0 }
  | c :: rest =>
    { lx with rest := rest, offset := lx.offset + c.utf8Size, line := lx.line + 1, column := 0 }
  | [] => lx

/-- What a line break leaves in the content of a scalar: separators stay, the others become line
feeds. Nothing is left at the end of the text. -/
def breakContent (lx : Lexer) : List Char :=
  match lx.rest with
  | [] => []
  | c :: _ => if c = '\u2028' || c = '\u2029' then [c] else ['\n']

/-- Whether the characters start with a space, a tab, a line break or the end. -/
def startsBlank : List Char → Bool
  | [] => true
  | c :: _ => isSpaceOrTab c || isBreak c

/-- Whether the characters start with a line break or the end. -/
def startsBreak : List Char → Bool
  | [] => true
  | c :: _ => isBreak c

/-- Move past spaces and tabs. -/
def skipBlanks (lx : Lexer) : Lexer :=
  lx.skip (lx.rest.takeWhile isSpaceOrTab).length

/-- Move to the end of the line. -/
def skipLine (lx : Lexer) : Lexer :=
  lx.skip (lx.rest.takeWhile fun c => !isBreak c).length

/-- Move past blanks and a comment; a line break or the end has to follow, and the break is passed
as well. -/
def endLine? (lx : Lexer) : Option Lexer :=
  let lx := lx.skipBlanks
  let lx := if lx.rest.head? = some '#' then lx.skipLine else lx
  if startsBreak lx.rest then some lx.skipBreak else none

/-- Append a token. -/
def emit (lx : Lexer) (token : Token) : Lexer :=
  { lx with tokens := lx.tokens.push token }

/-- Insert a token at a place among those already emitted. -/
def insertToken (lx : Lexer) (place : Nat) (token : Token) : Lexer :=
  { lx with tokens := lx.tokens.insertIdxIfInBounds place token }

/-- Open a block collection at a column, unless one is open there already; its token is appended
or inserted at a place. -/
def openBlock (lx : Lexer) (column : Nat) (place : Option Nat) (token : Token) : Lexer :=
  if lx.flowLevel ≠ 0 then lx
  else if lx.indent < column then
    let lx := { lx with outerIndents := lx.indent :: lx.outerIndents, indent := column }
    match place with
    | none => lx.emit token
    | some place => lx.insertToken place token
  else lx

/-- Close the block collections that are indented further than a column. -/
def closeBlocks (lx : Lexer) (column : Int) : Lexer :=
  if lx.flowLevel ≠ 0 then lx
  else go lx lx.outerIndents
where
  /-- Close blocks while there are outer ones. -/
  go (lx : Lexer) : List Int → Lexer
    | [] => lx
    | outer :: rest =>
      if column < lx.indent then
        go { (lx.emit .blockEnd) with indent := outer, outerIndents := rest } rest
      else lx

/-- A possible key is forgotten once its line or the next 1024 bytes are over; a required one must
not be. -/
def dropStaleKeys? (lx : Lexer) : Option Lexer := do
  let keys ← lx.keys.mapM fun key =>
    match key with
    | none => some none
    | some k =>
      if k.line < lx.line || k.offset + 1024 < lx.offset then
        if k.required then none else some none
      else some (some k)
  return { lx with keys := keys }

/-- Forget the possible key of this level; a required one must not be forgotten. -/
def dropKey? (lx : Lexer) : Option Lexer :=
  match lx.keys with
  | some k :: outer => if k.required then none else some { lx with keys := none :: outer }
  | _ => some lx

/-- Remember that a key may begin here. -/
def saveKey? (lx : Lexer) : Option Lexer :=
  if lx.keyAllowed then do
    let lx ← lx.dropKey?
    let required := lx.flowLevel = 0 && lx.indent = lx.column
    let k : SimpleKey := ⟨required, lx.tokens.size, lx.offset, lx.line, lx.column⟩
    return { lx with keys := some k :: lx.keys.tail }
  else some lx

/-- Say whether a key may begin at the next token. -/
def allowKey (lx : Lexer) (allowed : Bool) : Lexer :=
  { lx with keyAllowed := allowed }

/-- Move past blanks, comments and line breaks to the next token. Tabs do not separate tokens
where a key may begin in block context. A byte order mark may start a line, of which it is the
first column. -/
def toNextToken (lx : Lexer) : Nat → Lexer
  | 0 => lx
  | fuel + 1 =>
    let lx := if lx.column = 0 && lx.rest.head? = some '\ufeff' then lx.skip 1 else lx
    let tabs := lx.flowLevel ≠ 0 || !lx.keyAllowed
    let lx := lx.skip (lx.rest.takeWhile fun c => c = ' ' || (tabs && c = '\t')).length
    let lx := if lx.rest.head? = some '#' then lx.skipLine else lx
    match lx.rest with
    | c :: _ =>
      if isBreak c then
        let lx := lx.skipBreak
        let lx := if lx.flowLevel = 0 then lx.allowKey true else lx
        lx.toNextToken fuel
      else lx
    | [] => lx

/-- Whether a document marker stands at the start of the line. -/
def atMarker (lx : Lexer) : Bool :=
  lx.column = 0 &&
    match lx.rest with
    | '-' :: '-' :: '-' :: rest => startsBlank rest
    | '.' :: '.' :: '.' :: rest => startsBlank rest
    | _ => false

/-- The value of some decimal digits. -/
def decimal (digits : List Char) : Nat :=
  digits.foldl (fun n c => n * 10 + (c.toNat - '0'.toNat)) 0

/-- A number of at most nine digits. -/
def number? (lx : Lexer) : Option (Nat × Lexer) :=
  let digits := lx.rest.takeWhile Char.isDigit
  if digits.isEmpty || 9 < digits.length then none
  else some (decimal digits, lx.skip digits.length)

/-- The value of a hexadecimal digit. -/
def hexValue? (c : Char) : Option Nat :=
  if c.isDigit then some (c.toNat - '0'.toNat)
  else if 'a' ≤ c && c ≤ 'f' then some (c.toNat - 'a'.toNat + 10)
  else if 'A' ≤ c && c ≤ 'F' then some (c.toNat - 'A'.toNat + 10)
  else none

/-- The characters of tag names; verbatim tags also hold flow indicators. -/
def isTagChar (verbatim : Bool) (c : Char) : Bool :=
  isNameChar c || ";/?:@&=+$.%!~*'()".toList.contains c ||
    (verbatim && (c = ',' || c = '[' || c = ']'))

/-- How many bytes a character has whose first byte is given. -/
def byteCount? (first : Nat) : Option Nat :=
  if first < 0x80 then some 1
  else if first / 0x20 = 0x6 then some 2
  else if first / 0x10 = 0xE then some 3
  else if first / 0x08 = 0x1E then some 4
  else none

/-- The escaped bytes of one character, each written as `%` and two digits. -/
def escapedBytes? (lx : Lexer) (width : Option Nat) : Nat → Option (List UInt8 × Lexer)
  | 0 => none
  | fuel + 1 =>
    match lx.rest with
    | '%' :: a :: b :: _ => do
      let a ← hexValue? a
      let b ← hexValue? b
      let byte := a * 16 + b
      let left ←
        match width with
        | none => (byteCount? byte).map (· - 1)
        | some w => if byte / 0x40 = 2 then some (w - 1) else none
      let lx := lx.skip 3
      if left = 0 then return ([byte.toUInt8], lx)
      else
        let (more, lx) ← lx.escapedBytes? (some left) fuel
        return (byte.toUInt8 :: more, lx)
    | _ => none

/-- The bytes of a tag name, after those already seen in reverse. -/
def tagBytes? (verbatim : Bool) (seen : List UInt8) (lx : Lexer) :
    Nat → Option (List UInt8 × Lexer)
  | 0 => some (seen.reverse, lx)
  | fuel + 1 =>
    match lx.rest with
    | c :: _ =>
      if isTagChar verbatim c then
        if c = '%' then
          match lx.escapedBytes? none 5 with
          | none => none
          | some (bytes, lx) => lx.tagBytes? verbatim (bytes.reverse ++ seen) fuel
        else (lx.skip 1).tagBytes? verbatim (c.toUInt8 :: seen) fuel
      else some (seen.reverse, lx)
    | [] => some (seen.reverse, lx)

/-- A tag name, after the start of one that turned out not to be a handle. -/
def tagName? (verbatim : Bool) (start : String) (lx : Lexer) : Option (List UInt8 × Lexer) := do
  let (bytes, lx) ← lx.tagBytes? verbatim (start.drop 1).toString.toUTF8.toList.reverse
    lx.bound
  if bytes.isEmpty && start.isEmpty then none else some (bytes, lx)

/-- A tag handle: `!`, `!!` or `!name!`, or the start of a name behind `!`. -/
def tagHandle? (lx : Lexer) : Option (String × Lexer) :=
  match lx.rest with
  | '!' :: rest =>
    let name := rest.takeWhile isNameChar
    let lx := lx.skip (1 + name.length)
    if lx.rest.head? = some '!' then
      some (String.ofList ('!' :: name ++ ['!']), lx.skip 1)
    else some (String.ofList ('!' :: name), lx)
  | _ => none

/-- A tag ends before its first zero byte. -/
def beforeZero (bytes : List UInt8) : List UInt8 :=
  bytes.takeWhile (· ≠ 0)

/-- Read a directive, behind its percent sign. -/
def directive? (lx : Lexer) : Option Lexer := do
  let lx := lx.skip 1
  let name := lx.rest.takeWhile isNameChar
  let lx := lx.skip name.length
  if name.isEmpty || !startsBlank lx.rest then none
  else if name = "YAML".toList then
    let lx := lx.skipBlanks
    let (major, lx) ← lx.number?
    if lx.rest.head? ≠ some '.' then none
    else
      let (minor, lx) ← (lx.skip 1).number?
      (lx.emit (.version major minor)).endLine?
  else if name = "TAG".toList then
    let lx := lx.skipBlanks
    let (handle, lx) ← lx.tagHandle?
    if handle ≠ "!" && !handle.endsWith "!" then none
    else if !(lx.rest.head?.any isSpaceOrTab) then none
    else
      let lx := lx.skipBlanks
      let (bytes, lx) ← lx.tagName? true ""
      if !startsBlank lx.rest then none
      else
        (lx.emit (.tagPrefix handle (beforeZero bytes))).endLine?
  else none

/-- Read an anchor or an alias, behind its indicator. -/
def anchor? (make : String → Token) (lx : Lexer) : Option Lexer :=
  let lx := lx.skip 1
  let name := lx.rest.takeWhile isNameChar
  let lx := lx.skip name.length
  let ends := startsBlank lx.rest || lx.rest.head?.any fun c => "?:,]\x7d%@\x60".toList.contains c
  if name.isEmpty || !ends then none else some (lx.emit (make (String.ofList name)))

/-- Read a tag. The tag `!` alone has no handle. -/
def tag? (lx : Lexer) : Option Lexer := do
  let (token, lx) : Token × Lexer ←
    match lx.rest with
    | '!' :: '<' :: _ => do
      let (bytes, lx) ← (lx.skip 2).tagName? true ""
      if lx.rest.head? = some '>' then some (.tag "" (beforeZero bytes), lx.skip 1) else none
    | _ => do
      let (handle, lx) ← lx.tagHandle?
      if 1 < handle.length && handle.endsWith "!" then
        let (bytes, lx) ← lx.tagName? false ""
        some (.tag handle (beforeZero bytes), lx)
      else
        let (bytes, lx) ← lx.tagName? false handle
        match beforeZero bytes with
        | [] => some (.tag "" Tag.bare, lx)
        | suffix => some (.tag "!" suffix, lx)
  if startsBlank lx.rest || (lx.flowLevel ≠ 0 && lx.rest.head? = some ',') then
    some (lx.emit token)
  else none

/-- Read the breaks and indentation between lines of a block scalar. An indentation of zero is not
known yet: it becomes the deepest one met, but deeper than the block around it. -/
def blockBreaks? (indent : Nat) (deepest : Nat) (breaks : List Char) (lx : Lexer) :
    Nat → Option (Nat × List Char × Lexer)
  | 0 => none
  | fuel + 1 =>
    let spaces := (lx.rest.takeWhile (· = ' ')).length
    let room := if indent = 0 then spaces else min spaces (indent - lx.column)
    let lx := lx.skip room
    let deepest := max deepest lx.column
    if (indent = 0 || lx.column < indent) && lx.rest.head? = some '\t' then none
    else
      match lx.rest with
      | c :: _ =>
        if isBreak c then
          lx.skipBreak.blockBreaks? indent deepest (breaks ++ lx.breakContent) fuel
        else finish deepest lx
      | [] => finish deepest lx
where
  /-- Settle the indentation. -/
  finish (deepest : Nat) (lx : Lexer) : Option (Nat × List Char × Lexer) :=
    let settled := if indent = 0 then max (max deepest (lx.indent + 1).toNat) 1 else indent
    some (settled, breaks, lx)

/-- Read the lines of a block scalar. `content` is reversed; `leading` holds the break behind the
line before, `trailing` the breaks of empty lines behind that one. -/
def blockLines? (literal : Bool) (indent : Nat) (content leading trailing : List Char)
    (wasBlank : Bool) (lx : Lexer) : Nat → Option (List Char × List Char × List Char × Lexer)
  | 0 => none
  | fuel + 1 =>
    if lx.column = indent && !lx.rest.isEmpty then
      let isBlank := lx.rest.head?.any isSpaceOrTab
      let folds := !literal && leading = ['\n'] && !wasBlank && !isBlank
      let joined :=
        if folds then (if trailing.isEmpty then ' ' :: content else content)
        else leading.reverse ++ content
      let content := trailing.reverse ++ joined
      let line := lx.rest.takeWhile fun c => !isBreak c
      let content := line.reverse ++ content
      let lx := lx.skip line.length
      let leading := lx.breakContent
      let lx := lx.skipBreak
      match lx.blockBreaks? indent 0 [] lx.bound with
      | none => none
      | some (_, trailing, lx) => lx.blockLines? literal indent content leading trailing isBlank fuel
    else some (content, leading, trailing, lx)

/-- What happens to the breaks at the end of a block scalar. -/
inductive Chomping where
  | strip
  | clip
  | keep
deriving DecidableEq

/-- The chomping indicator, if the character is one. -/
def chomping? (c : Char) : Option Chomping :=
  if c = '+' then some .keep else if c = '-' then some .strip else none

/-- The header of a block scalar: chomping and indentation indicators in either order. -/
def blockHeader? (lx : Lexer) : Option (Chomping × Nat × Lexer) :=
  match lx.rest with
  | c :: rest =>
    match chomping? c with
    | some chomping =>
      match rest with
      | d :: _ =>
        if d.isDigit then
          if d = '0' then none else some (chomping, decimal [d], lx.skip 2)
        else some (chomping, 0, lx.skip 1)
      | [] => some (chomping, 0, lx.skip 1)
    | none =>
      if c.isDigit then
        if c = '0' then none
        else
          match rest.head?.bind chomping? with
          | some chomping => some (chomping, decimal [c], lx.skip 2)
          | none => some (.clip, decimal [c], lx.skip 1)
      else some (.clip, 0, lx)
  | [] => some (.clip, 0, lx)

/-- Read a block scalar, behind its indicator. -/
def blockScalar? (literal : Bool) (lx : Lexer) : Option Lexer := do
  let (chomping, increment, lx) ← (lx.skip 1).blockHeader?
  let lx ← lx.endLine?
  let given :=
    if increment = 0 then 0
    else if 0 ≤ lx.indent then lx.indent.toNat + increment else increment
  let (indent, trailing, lx) ← lx.blockBreaks? given 0 [] lx.bound
  let (content, leading, trailing, lx) ←
    lx.blockLines? literal indent [] [] trailing false lx.bound
  let content := if chomping = .strip then content else leading.reverse ++ content
  let content := if chomping = .keep then trailing.reverse ++ content else content
  return lx.emit (.scalar (String.ofList content.reverse) false)

/-- Join what was gathered between two parts of a scalar to its reversed content: blanks within a
line stay; a single break becomes a space, and of several the first is dropped. -/
def join (content blanks leading trailing : List Char) (broken : Bool) : List Char :=
  if broken then
    if leading = ['\n'] then
      if trailing.isEmpty then ' ' :: content else trailing.reverse ++ content
    else trailing.reverse ++ (leading.reverse ++ content)
  else blanks.reverse ++ content

/-- The blanks and breaks between two parts of a scalar. -/
structure Gap where
  blanks : List Char
  leading : List Char
  trailing : List Char
  broken : Bool

/-- Read blanks and breaks. With `floor`, a tab behind a break must not stand left of it. -/
def gap? (floor : Option Int) (g : Gap) (lx : Lexer) : Nat → Option (Gap × Lexer)
  | 0 => none
  | fuel + 1 =>
    match lx.rest with
    | c :: _ =>
      if isSpaceOrTab c then
        if g.broken && c = '\t' && floor.any fun f => (lx.column : Int) < f then none
        else if g.broken then (lx.skip 1).gap? floor g fuel
        else (lx.skip 1).gap? floor { g with blanks := g.blanks ++ [c] } fuel
      else if isBreak c then
        if g.broken then
          lx.skipBreak.gap? floor { g with trailing := g.trailing ++ lx.breakContent } fuel
        else lx.skipBreak.gap? floor ⟨[], lx.breakContent, g.trailing, true⟩ fuel
      else some (g, lx)
    | [] => some (g, lx)

/-- The escapes of a single character. -/
def simpleEscape? (c : Char) : Option Char :=
  match c with
  | '0' => some '\x00'
  | 'a' => some '\x07'
  | 'b' => some '\x08'
  | 't' => some '\t'
  | '\t' => some '\t'
  | 'n' => some '\n'
  | 'v' => some '\x0b'
  | 'f' => some '\x0c'
  | 'r' => some '\r'
  | 'e' => some '\x1b'
  | ' ' => some ' '
  | '"' => some '"'
  | '/' => some '/'
  | '\\' => some '\\'
  | 'N' => some '\u0085'
  | '_' => some '\u00a0'
  | 'L' => some '\u2028'
  | 'P' => some '\u2029'
  | _ => none

/-- The number of hexadecimal digits behind an escape. -/
def escapeWidth? (c : Char) : Option Nat :=
  match c with
  | 'x' => some 2
  | 'u' => some 4
  | 'U' => some 8
  | _ => none

/-- The character with a code point, if there is one. -/
def charOfCode? (code : Nat) : Option Char :=
  if (0xD800 ≤ code && code ≤ 0xDFFF) || 0x10FFFF < code then none else some (Char.ofNat code)

/-- Read an escape, behind its backslash. -/
def escape? (lx : Lexer) : Option (Char × Lexer) :=
  match lx.rest with
  | [] => none
  | c :: rest =>
    match simpleEscape? c with
    | some plain => some (plain, lx.skip 1)
    | none => do
      let width ← escapeWidth? c
      let digits := rest.take width
      if digits.length < width then none
      else
        let values ← digits.mapM hexValue?
        let char ← charOfCode? (values.foldl (fun n d => n * 16 + d) 0)
        return (char, lx.skip (1 + width))

/-- Read the characters of a quoted scalar up to a blank, a break or its closing quote; the flag
says whether an escaped break ended them. -/
def quotedPart? (single : Bool) (content : List Char) (lx : Lexer) :
    Nat → Option (List Char × Bool × Lexer)
  | 0 => none
  | fuel + 1 =>
    match lx.rest with
    | [] => some (content, false, lx)
    | c :: rest =>
      if startsBlank (c :: rest) then some (content, false, lx)
      else if single then
        if c = '\'' then
          if rest.head? = some '\'' then (lx.skip 2).quotedPart? single ('\'' :: content) fuel
          else some (content, false, lx)
        else (lx.skip 1).quotedPart? single (c :: content) fuel
      else if c = '"' then some (content, false, lx)
      else if c = '\\' then
        if rest.head?.any isBreak then some (content, true, (lx.skip 1).skipBreak)
        else
          match (lx.skip 1).escape? with
          | none => none
          | some (char, lx) => lx.quotedPart? single (char :: content) fuel
      else (lx.skip 1).quotedPart? single (c :: content) fuel

/-- Read a quoted scalar, behind its opening quote. -/
def quoted? (single : Bool) (content : List Char) (lx : Lexer) : Nat → Option Lexer
  | 0 => none
  | fuel + 1 =>
    if lx.atMarker || lx.rest.isEmpty then none
    else do
      let (content, escapedBreak, lx) ← lx.quotedPart? single content lx.bound
      if lx.rest.head? = some (if single then '\'' else '"') then
        return (lx.skip 1).emit (.scalar (String.ofList content.reverse) false)
      else
        let (g, lx) ← lx.gap? none ⟨[], [], [], escapedBreak⟩ lx.bound
        lx.quoted? single (join content g.blanks g.leading g.trailing g.broken) fuel

/-- Whether a plain scalar ends before these characters. -/
def endsPlain (inFlow : Bool) : List Char → Bool
  | [] => true
  | c :: rest =>
    startsBlank (c :: rest) || (c = ':' && startsBlank rest) ||
      (inFlow && (c = ',' || c = '[' || c = ']' || c = '{' || c = '}'))

/-- Whether a colon in flow context stands right before an indicator. -/
def isColonClash (inFlow : Bool) : List Char → Bool
  | ':' :: c :: _ => inFlow && ",?[]{}".toList.contains c
  | _ => false

/-- Read the characters of a plain scalar up to a place where it may end. -/
def plainPart? (content : List Char) (lx : Lexer) : Nat → Option (List Char × Lexer)
  | 0 => none
  | fuel + 1 =>
    if startsBlank lx.rest then some (content, lx)
    else if isColonClash (lx.flowLevel ≠ 0) lx.rest then none
    else if endsPlain (lx.flowLevel ≠ 0) lx.rest then some (content, lx)
    else
      match lx.rest with
      | c :: _ => (lx.skip 1).plainPart? (c :: content) fuel
      | [] => some (content, lx)

/-- Read a plain scalar; `g` is the gap behind the content read so far. -/
def plain? (content : List Char) (g : Gap) (lx : Lexer) : Nat → Option Lexer
  | 0 => none
  | fuel + 1 =>
    if lx.atMarker || lx.rest.head? = some '#' then finish content g lx
    else
      match lx.plainPart? [] lx.bound with
      | none => none
      | some (part, behind) =>
        let content :=
          if part.isEmpty then content
          else part ++ join content g.blanks g.leading g.trailing g.broken
        let g : Gap := if part.isEmpty then g else ⟨[], [], [], false⟩
        if behind.rest.isEmpty || !startsBlank behind.rest then finish content g behind
        else
          match behind.gap? (some (lx.indent + 1)) g lx.bound with
          | none => none
          | some (g, after) =>
            if after.flowLevel = 0 && (after.column : Int) < lx.indent + 1 then
              finish content g after
            else after.plain? content g fuel
where
  /-- A key may begin behind a scalar that ends with a break. -/
  finish (content : List Char) (g : Gap) (lx : Lexer) : Option Lexer :=
    let lx := if g.broken then lx.allowKey true else lx
    some (lx.emit (.scalar (String.ofList content.reverse) true))

/-- Start a flow collection. -/
def openFlow? (token : Token) (lx : Lexer) : Option Lexer := do
  let lx ← lx.saveKey?
  let lx := { lx with flowLevel := lx.flowLevel + 1, keys := none :: lx.keys }
  return ((lx.allowKey true).skip 1).emit token

/-- End a flow collection. -/
def closeFlow? (token : Token) (lx : Lexer) : Option Lexer := do
  let lx ← lx.dropKey?
  let lx :=
    if lx.flowLevel ≠ 0 then { lx with flowLevel := lx.flowLevel - 1, keys := lx.keys.tail }
    else lx
  return ((lx.allowKey false).skip 1).emit token

/-- The indicator of a block sequence entry. -/
def blockEntry? (lx : Lexer) : Option Lexer := do
  if lx.flowLevel = 0 && !lx.keyAllowed then none
  else
    let lx ← (lx.openBlock lx.column none .blockSequence).dropKey?
    return ((lx.allowKey true).skip 1).emit .blockEntry

/-- The indicator of an explicit key. -/
def key? (lx : Lexer) : Option Lexer := do
  if lx.flowLevel = 0 && !lx.keyAllowed then none
  else
    let lx ← (lx.openBlock lx.column none .blockMapping).dropKey?
    return ((lx.allowKey (lx.flowLevel = 0)).skip 1).emit .key

/-- The indicator of a value, behind a simple key or an explicit one. -/
def value? (lx : Lexer) : Option Lexer :=
  match lx.keys with
  | some k :: outer =>
    let lx := lx.insertToken k.tokenNumber .key
    let lx := lx.openBlock k.column (some k.tokenNumber) .blockMapping
    let lx := { lx with keys := none :: outer }
    some (((lx.allowKey false).skip 1).emit .value)
  | _ =>
    if lx.flowLevel = 0 && !lx.keyAllowed then none
    else
      let lx := lx.openBlock lx.column none .blockMapping
      some (((lx.allowKey (lx.flowLevel = 0)).skip 1).emit .value)

/-- The end of the text. -/
def streamEnd? (lx : Lexer) : Option Lexer := do
  let lx := if lx.column ≠ 0 then { lx with column := 0, line := lx.line + 1 } else lx
  let lx ← (lx.closeBlocks (-1)).dropKey?
  return (lx.allowKey false).emit .streamEnd

/-- A document marker. -/
def marker? (token : Token) (lx : Lexer) : Option Lexer := do
  let lx ← (lx.closeBlocks (-1)).dropKey?
  return ((lx.allowKey false).skip 3).emit token

/-- Indicators that cannot start a plain scalar. -/
def indicators : List Char :=
  "-?:,[]{}#&*!|>'\"%@\x60".toList

/-- Whether a plain scalar may start here. -/
def startsPlain (inFlow : Bool) : List Char → Bool
  | [] => false
  | c :: rest =>
    (!startsBlank (c :: rest) && !indicators.contains c) ||
      (c = '-' && !(rest.head?.any isSpaceOrTab)) ||
      (!inFlow && (c = '?' || c = ':') && !startsBlank rest)

/-- Read the next token, at a character that starts one. -/
def token? (lx : Lexer) (c : Char) (rest : List Char) : Option Lexer :=
  let inFlow := lx.flowLevel ≠ 0
  let fuel := lx.bound
  if lx.column = 0 && c = '%' then do
    let lx ← (lx.closeBlocks (-1)).dropKey?
    (lx.allowKey false).directive?
  else if lx.atMarker then lx.marker? (if c = '-' then .documentStart else .documentEnd)
  else if c = '[' then lx.openFlow? .flowSequence
  else if c = '{' then lx.openFlow? .flowMapping
  else if c = ']' then lx.closeFlow? .flowSequenceEnd
  else if c = '}' then lx.closeFlow? .flowMappingEnd
  else if c = ',' then do
    let lx ← lx.dropKey?
    return ((lx.allowKey true).skip 1).emit .flowEntry
  else if c = '-' && startsBlank rest then lx.blockEntry?
  else if c = '?' && (inFlow || startsBlank rest) then lx.key?
  else if c = ':' && (inFlow || startsBlank rest) then lx.value?
  else if c = '*' then do
    let lx ← lx.saveKey?
    (lx.allowKey false).anchor? .alias
  else if c = '&' then do
    let lx ← lx.saveKey?
    (lx.allowKey false).anchor? .anchor
  else if c = '!' then do
    let lx ← lx.saveKey?
    (lx.allowKey false).tag?
  else if (c = '|' || c = '>') && !inFlow then do
    let lx ← lx.dropKey?
    (lx.allowKey true).blockScalar? (c = '|')
  else if c = '\'' || c = '"' then do
    let lx ← lx.saveKey?
    ((lx.allowKey false).skip 1).quoted? (c = '\'') [] fuel
  else if startsPlain inFlow (c :: rest) then do
    let lx ← lx.saveKey?
    (lx.allowKey false).plain? [] ⟨[], [], [], false⟩ fuel
  else none

/-- Read tokens to the end of the text. -/
def run? (lx : Lexer) : Nat → Option (Array Token)
  | 0 => none
  | fuel + 1 => do
    let lx ← (lx.toNextToken lx.bound).dropStaleKeys?
    let lx := lx.closeBlocks lx.column
    match lx.rest with
    | [] =>
      let lx ← lx.streamEnd?
      return lx.tokens
    | c :: rest =>
      let lx ← lx.token? c rest
      lx.run? fuel

end Lexer

/-- The tokens of a text, or nothing if no token can be read somewhere. -/
def Token.ofText? (text : String) : Option (Array Token) :=
  let chars := text.toList
  if chars.all isAllowed then (Lexer.start chars).run? (chars.length + 2) else none

end Yaml
end CloudTemplate
