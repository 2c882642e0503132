/-!
# Reading positions in JSON texts

A cursor stands between two bytes of a text. A fault is reported with the byte offset where it was
noticed, either at the cursor or one byte further; `Position.ofOffset` turns the offset into the
line and column of messages. Columns count bytes.
-/

namespace CloudTemplate
namespace Json

/-- What is wrong with a JSON text. -/
inductive Fault where
  | endOfList
  | endOfObject
  | endOfString
  | endOfValue
  | expectedColon
  | expectedListCommaOrEnd
  | expectedObjectCommaOrEnd
  | expectedWord
  | expectedValue
  | invalidEscape
  | invalidNumber
  | numberOutOfRange
  | invalidCodePoint
  | controlCharacter
  | nameNotString
  | loneSurrogate
  | trailingComma
  | trailingCharacters
  | unexpectedEndOfHexEscape
  | tooDeep
  /-- A name that an object has twice. -/
  | duplicateName (name : String)
  /-- A value of another kind than its place asks for. -/
  | wrongKind (found expected : String)
deriving DecidableEq

/-- The words for a fault. -/
def Fault.message : Fault → String
  | .endOfList => "EOF while parsing a list"
  | .endOfObject => "EOF while parsing an object"
  | .endOfString => "EOF while parsing a string"
  | .endOfValue => "EOF while parsing a value"
  | .expectedColon => "expected \x60:\x60"
  | .expectedListCommaOrEnd => "expected \x60,\x60 or \x60]\x60"
  | .expectedObjectCommaOrEnd => "expected \x60,\x60 or \x60\x7d\x60"
  | .expectedWord => "expected ident"
  | .expectedValue => "expected value"
  | .invalidEscape => "invalid escape"
  | .invalidNumber => "invalid number"
  | .numberOutOfRange => "number out of range"
  | .invalidCodePoint => "invalid unicode code point"
  | .controlCharacter =>
    "control character (\\u0000-\\u001F) found while parsing a string"
  | .nameNotString => "key must be a string"
  | .loneSurrogate => "lone leading surrogate in hex escape"
  | .trailingComma => "trailing comma"
  | .trailingCharacters => "trailing characters"
  | .unexpectedEndOfHexEscape => "unexpected end of hex escape"
  | .tooDeep => "recursion limit exceeded"
  | .duplicateName name => "duplicate key '" ++ name ++ "'"
  | .wrongKind found expected => "invalid type: " ++ found ++ ", expected " ++ expected

/-- A fault and the byte offset where it was noticed. -/
structure Stop where
  fault : Fault
  offset : Nat
deriving DecidableEq

/-- The bytes still to be read and the number of bytes already read. -/
structure Cursor where
  offset : Nat
  rest : List UInt8

/-- A cursor at the start of a text. -/
def Cursor.start (bytes : List UInt8) : Cursor :=
  ⟨0, bytes⟩

/-- Move past some bytes. -/
def Cursor.skip (c : Cursor) (count : Nat) : Cursor :=
  ⟨c.offset + (c.rest.take count).length, c.rest.drop count⟩

/-- Move past blanks, tabs and line ends. -/
def Cursor.skipBlanks (c : Cursor) : Cursor :=
  go c.offset c.rest
where
  /-- Count the skipped bytes. -/
  go (offset : Nat) : List UInt8 → Cursor
    | [] => ⟨offset, []⟩
    | b :: rest =>
      if b = 0x20 || b = 0x09 || b = 0x0A || b = 0x0D then go (offset + 1) rest
      else ⟨offset, b :: rest⟩

/-- A fault at the cursor. -/
def Cursor.stop {α : Type} (c : Cursor) (fault : Fault) : Except Stop α :=
  .error ⟨fault, c.offset⟩

/-- A fault at the byte after the cursor. -/
def Cursor.stopAhead {α : Type} (c : Cursor) (fault : Fault) : Except Stop α :=
  .error ⟨fault, if c.rest.isEmpty then c.offset else c.offset + 1⟩

/-- A line and column, both as written in messages. -/
structure Position where
  line : Nat
  column : Nat
deriving DecidableEq, Repr

/-- The position of a byte offset: the line counts line feeds before it, the column the bytes
since the last of them. -/
def Position.ofOffset (bytes : List UInt8) (offset : Nat) : Position :=
  (bytes.take offset).foldl
    (fun position b => if b = 0x0A then ⟨position.line + 1, 0⟩
      else ⟨position.line, position.column + 1⟩)
    ⟨1, 0⟩

/-- A JSON text that could not be read. -/
structure SyntaxError where
  fault : Fault
  position : Position
deriving DecidableEq

/-- The message of a syntax error, with its position. -/
def SyntaxError.message (e : SyntaxError) : String :=
  e.fault.message ++ " at line " ++ toString e.position.line ++ " column " ++
    toString e.position.column

/-- Report a stop in a text. -/
def Stop.report (bytes : List UInt8) (stop : Stop) : SyntaxError :=
  ⟨stop.fault, .ofOffset bytes stop.offset⟩

end Json
end CloudTemplate
