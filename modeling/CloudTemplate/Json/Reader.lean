import CloudTemplate.Json.Numeral
import CloudTemplate.Text.Bytes
import CloudTemplate.Tree

/-!
# Reading JSON

A text holds one value with blanks around it. Lists and objects nest at most 127 deep. What
happens to a name that occurs twice in one object is the caller's choice.
-/

namespace CloudTemplate
namespace Json

/-- What becomes of an object that has a name twice. -/
inductive Repetition where
  /-- The text is faulty, and the entries of each object are sorted. -/
  | refused
  /-- The last value counts, in the place of the first. -/
  | replaces
deriving DecidableEq

/-- The nesting depth that is already too deep. -/
def depthLimit : Nat := 128

/-- Read the letters of a word. -/
def word (letters : List UInt8) (c : Cursor) : Except Stop Cursor :=
  match letters, c.rest with
  | [], _ => .ok c
  | _ :: _, [] => c.stop .endOfValue
  | expected :: more, b :: rest =>
    let c : Cursor := ⟨c.offset + 1, rest⟩
    if b = expected then word more c else c.stop .expectedWord

/-- The value of a hexadecimal digit. -/
def hexDigit? (b : UInt8) : Option Nat :=
  if 0x30 ≤ b && b ≤ 0x39 then some (b.toNat - 0x30)
  else if 0x61 ≤ b && b ≤ 0x66 then some (b.toNat - 0x57)
  else if 0x41 ≤ b && b ≤ 0x46 then some (b.toNat - 0x37)
  else none

/-- Four hexadecimal digits. -/
def hexFour (c : Cursor) : Except Stop (Nat × Cursor) :=
  match c.rest with
  | a :: b :: d :: e :: rest =>
    let c : Cursor := ⟨c.offset + 4, rest⟩
    match hexDigit? a, hexDigit? b, hexDigit? d, hexDigit? e with
    | some a, some b, some d, some e => .ok (((a * 16 + b) * 16 + d) * 16 + e, c)
    | _, _, _, _ => c.stop .invalidEscape
  | _ => (c.skip 4).stop .endOfString

/-- The code point of an escape, behind `\u`. A leading surrogate needs a trailing one. -/
def codePoint (c : Cursor) : Except Stop (Nat × Cursor) := do
  let (unit, c) ← hexFour c
  if 0xDC00 ≤ unit ∧ unit ≤ 0xDFFF then c.stop .loneSurrogate
  else if unit < 0xD800 ∨ 0xDBFF < unit then return (unit, c)
  else
    let c ← expectByte 0x5C c
    let c ← expectByte 0x75 c
    let (low, c) ← hexFour c
    if low < 0xDC00 ∨ 0xDFFF < low then c.stop .loneSurrogate
    else return ((unit - 0xD800) * 0x400 + (low - 0xDC00) + 0x10000, c)
where
  /-- A byte of the second half of a surrogate pair. -/
  expectByte (expected : UInt8) (c : Cursor) : Except Stop Cursor :=
    match c.rest with
    | [] => c.stop .endOfString
    | b :: _ =>
      if b = expected then .ok (c.skip 1) else (c.skip 1).stop .unexpectedEndOfHexEscape

/-- The bytes of an escape, behind its backslash. -/
def escape (c : Cursor) : Except Stop (List UInt8 × Cursor) :=
  match c.rest with
  | [] => c.stop .endOfString
  | b :: rest =>
    let c : Cursor := ⟨c.offset + 1, rest⟩
    if b = 0x22 || b = 0x5C || b = 0x2F then .ok ([b], c)
    else if b = 0x62 then .ok ([0x08], c)
    else if b = 0x66 then .ok ([0x0C], c)
    else if b = 0x6E then .ok ([0x0A], c)
    else if b = 0x72 then .ok ([0x0D], c)
    else if b = 0x74 then .ok ([0x09], c)
    else if b = 0x75 then
      (codePoint c).map fun (point, c) => ((String.singleton (Char.ofNat point)).toUTF8.toList, c)
    else c.stop .invalidEscape

/-- The bytes of a string, behind its opening quote; `fuel` bounds the bytes that are read. -/
def stringBytes (fuel : Nat) (seen : List UInt8) (c : Cursor) :
    Except Stop (List UInt8 × Cursor) :=
  match fuel, c.rest with
  | _, [] => c.stop .endOfString
  | 0, _ => c.stop .endOfString
  | fuel + 1, b :: rest =>
    let behind : Cursor := ⟨c.offset + 1, rest⟩
    if b = 0x22 then .ok (seen.reverse, behind)
    else if b = 0x5C then
      match escape behind with
      | .error stop => .error stop
      | .ok (bytes, c) => stringBytes fuel (bytes.reverse ++ seen) c
    else if b < 0x20 then behind.stop .controlCharacter
    else stringBytes fuel (b :: seen) behind

/-- A string, behind its opening quote; `fuel` bounds the bytes that are left. Bytes that are no text
are noticed at the end of the string, and reported as far before it as there are bytes of content
from the first wrong one on. -/
def stringBody (fuel : Nat) (c : Cursor) : Except Stop (String × Cursor) := do
  let (bytes, c) ← stringBytes fuel [] c
  match String.fromUTF8? ⟨bytes.toArray⟩ with
  | some text => return (text, c)
  | none => .error ⟨.invalidCodePoint, c.offset - (bytes.length - Text.readableSize bytes)⟩

/-- What stands at the next place of a list or an object. -/
inductive Place where
  | item (c : Cursor)
  | close (c : Cursor)

/-- The next place of a list. -/
def listPlace (isFirst : Bool) (c : Cursor) : Except Stop Place :=
  let c := c.skipBlanks
  match c.rest with
  | [] => c.stop .endOfList
  | b :: _ =>
    if b = 0x5D then .ok (.close (c.skip 1))
    else if b = 0x2C && !isFirst then
      let c := (c.skip 1).skipBlanks
      match c.rest with
      | [] => c.stop .endOfValue
      | b :: _ => if b = 0x5D then c.stopAhead .trailingComma else .ok (.item c)
    else if isFirst then .ok (.item c)
    else c.stopAhead .expectedListCommaOrEnd

/-- The next place of an object; an item stands at the opening quote of its name. -/
def objectPlace (isFirst : Bool) (c : Cursor) : Except Stop Place :=
  let c := c.skipBlanks
  match c.rest with
  | [] => c.stop .endOfObject
  | b :: _ =>
    if b = 0x7D then .ok (.close (c.skip 1))
    else if b = 0x2C && !isFirst then
      let c := (c.skip 1).skipBlanks
      match c.rest with
      | [] => c.stop .endOfValue
      | b :: _ =>
        if b = 0x22 then .ok (.item c)
        else if b = 0x7D then c.stopAhead .trailingComma
        else c.stopAhead .nameNotString
    else if isFirst then
      if b = 0x22 then .ok (.item c) else c.stopAhead .nameNotString
    else c.stopAhead .expectedObjectCommaOrEnd

/-- The colon between a name and its value. -/
def colon (c : Cursor) : Except Stop Cursor :=
  let c := c.skipBlanks
  match c.rest with
  | [] => c.stop .endOfObject
  | b :: _ => if b = 0x3A then .ok (c.skip 1) else c.stopAhead .expectedColon

/-- The fault of a repeated name, noticed behind the blanks and the closing brace, if any, that
follow the name. -/
def duplicateStop {α : Type} (name : String) (c : Cursor) : Except Stop α :=
  let c := c.skipBlanks
  match c.rest with
  | 0x7D :: _ => (c.skip 1).stop (.duplicateName name)
  | _ => c.stop (.duplicateName name)

mutual

/-- Read a value; `depth` counts the levels that may still be opened, and `fuel` is at least twice
the number of bytes that are left. -/
def value (policy : Repetition) (fuel depth : Nat) (c : Cursor) : Except Stop (Tree × Cursor) :=
  match fuel with
  | 0 => c.stop .endOfValue
  | fuel + 1 =>
    let c := c.skipBlanks
    match c.rest with
    | [] => c.stop .endOfValue
    | b :: _ =>
      if b = 0x6E then (word [0x75, 0x6C, 0x6C] (c.skip 1)).map fun c => (.null, c)
      else if b = 0x74 then
        (word [0x72, 0x75, 0x65] (c.skip 1)).map fun c => (.bool true, c)
      else if b = 0x66 then
        (word [0x61, 0x6C, 0x73, 0x65] (c.skip 1)).map fun c => (.bool false, c)
      else if b = 0x2D then
        (numeral true (c.skip 1)).map fun (number, c) => (.number number, c)
      else if (digit? b).isSome then
        (numeral false c).map fun (number, c) => (.number number, c)
      else if b = 0x22 then
        (stringBody fuel (c.skip 1)).map fun (text, c) => (.string text, c)
      else if b = 0x5B then
        if depth ≤ 1 then c.stopAhead .tooDeep
        else items policy fuel (depth - 1) [] (c.skip 1)
      else if b = 0x7B then
        if depth ≤ 1 then c.stopAhead .tooDeep
        else entries policy fuel (depth - 1) [] (c.skip 1)
      else c.stopAhead .expectedValue

/-- Read the items of a list after those already seen. -/
def items (policy : Repetition) (fuel depth : Nat) (seen : List Tree) (c : Cursor) :
    Except Stop (Tree × Cursor) :=
  match fuel with
  | 0 => c.stop .endOfList
  | fuel + 1 =>
    match listPlace seen.isEmpty c with
    | .error stop => .error stop
    | .ok (.close c) => .ok (.list seen.reverse, c)
    | .ok (.item c) =>
      match value policy fuel depth c with
      | .error stop => .error stop
      | .ok (item, c) => items policy fuel depth (item :: seen) c

/-- Read the entries of an object after those already seen. -/
def entries (policy : Repetition) (fuel depth : Nat) (seen : List (String × Tree)) (c : Cursor) :
    Except Stop (Tree × Cursor) :=
  match fuel with
  | 0 => c.stop .endOfObject
  | fuel + 1 =>
    match objectPlace seen.isEmpty c with
    | .error stop => .error stop
    | .ok (.close c) =>
      match policy with
      | .refused => .ok (.map (Entries.sort seen), c)
      | .replaces =>
        .ok (.map (seen.reverse.foldl (fun all e => Entries.put e.1 e.2 all) []), c)
    | .ok (.item c) =>
      match stringBody fuel (c.skip 1) with
      | .error stop => .error stop
      | .ok (name, c) =>
        if policy = .refused ∧ Entries.hasName name seen then duplicateStop name c
        else
          match colon c with
          | .error stop => .error stop
          | .ok c =>
            match value policy fuel depth c with
            | .error stop => .error stop
            | .ok (item, c) => entries policy fuel depth ((name, item) :: seen) c

end

/-- Nothing but blanks may follow the value of a text. -/
def finish (c : Cursor) : Except Stop Unit :=
  let c := c.skipBlanks
  if c.rest.isEmpty then .ok () else c.stopAhead .trailingCharacters

/-- Read a whole text with a reader of values. -/
def readText {α : Type} (reader : Cursor → Except Stop (α × Cursor)) (bytes : List UInt8) :
    Except SyntaxError α :=
  let result := do
    let (found, c) ← reader (.start bytes)
    finish c
    return found
  result.mapError (Stop.report bytes)

/-- Read a document. -/
def read (policy : Repetition) (bytes : List UInt8) : Except SyntaxError Tree :=
  readText (value policy (2 * bytes.length + 2) depthLimit) bytes

end Json
end CloudTemplate
