/-!
# Texts in bytes

How far a sequence of bytes is a text in UTF-8, and what is shown for one that is not.
-/

namespace CloudTemplate

/-- The content of a file. -/
abbrev Bytes := List UInt8

namespace Text

/-- The text that some bytes are, if they are one. -/
def ofBytes? (bytes : Bytes) : Option String :=
  String.fromUTF8? ⟨bytes.toArray⟩

/-- The number of bytes of the character that some bytes start with, if they do. -/
def characterSize? (bytes : Bytes) : Option Nat :=
  [1, 2, 3, 4].find? fun size => size ≤ bytes.length && (ofBytes? (bytes.take size)).isSome

/-- The number of bytes before the first that belongs to no character. -/
def readableSize (bytes : Bytes) : Nat :=
  go bytes.length bytes
where
  /-- Count the bytes of one character after the other. -/
  go : Nat → Bytes → Nat
    | 0, _ => 0
    | fuel + 1, bytes =>
      match characterSize? bytes with
      | some size => size + go fuel (bytes.drop size)
      | none => 0

/-- Whether a byte can stand behind the first one of a character. -/
def isContinuation (b : UInt8) : Bool :=
  0x80 ≤ b && b ≤ 0xBF

/-- Whether two bytes start a character of three or four bytes. -/
def startsLong (first second : UInt8) : Bool :=
  if first = 0xE0 then 0xA0 ≤ second && second ≤ 0xBF
  else if first = 0xED then 0x80 ≤ second && second ≤ 0x9F
  else if first = 0xF0 then 0x90 ≤ second && second ≤ 0xBF
  else if first = 0xF4 then 0x80 ≤ second && second ≤ 0x8F
  else 0xE1 ≤ first && first ≤ 0xF3 && isContinuation second

/-- The number of bytes that a replacement character stands for, where no character starts: as many
as start one that is broken off, or else a single byte. -/
def brokenSize : Bytes → Nat
  | first :: second :: rest =>
    if startsLong first second then
      if 0xF0 ≤ first && rest.head?.any isContinuation then 3 else 2
    else 1
  | _ => 1

/-- The characters of some bytes, with replacement characters, behind those bytes that were passed
over already. -/
def replacing : Nat → Bytes → String
  | _, [] => ""
  | passed + 1, _ :: rest => replacing passed rest
  | 0, b :: rest =>
    match characterSize? (b :: rest) with
    | some size => (ofBytes? ((b :: rest).take size)).getD "" ++ replacing (size - 1) rest
    | none => "\uFFFD" ++ replacing (brokenSize (b :: rest) - 1) rest

/-- The text that is shown for some bytes: what they are, or else what they are with replacement
characters. -/
def ofBytesShown (bytes : Bytes) : String :=
  (ofBytes? bytes).getD (replacing 0 bytes)

end Text
end CloudTemplate
