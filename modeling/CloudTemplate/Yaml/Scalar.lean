import CloudTemplate.Decimal.Nearest
import CloudTemplate.Number
import CloudTemplate.Yaml.Tag

/-!
# What plain scalars mean

A plain scalar is null, a boolean or a number if it is written like one, and a string otherwise.
Whole numbers may be decimal without leading zeros, or hexadecimal, octal or binary with a prefix
in lower case. Decimals need a digit; a result that is not finite counts only when it is spelled
out.
-/

namespace CloudTemplate
namespace Yaml

/-- What a scalar means. -/
inductive Scalar where
  | null
  | bool (value : Bool)
  | integer (value : Int)
  | float (value : Float)
  | string (text : String)
  /-- A whole number of more than 64 bits, which no document may hold. -/
  | tooLarge
deriving DecidableEq

namespace Scalar

/-- The value of a digit in a base up to sixteen. -/
def digit? (base : Nat) (c : Char) : Option Nat :=
  let value :=
    if c.isDigit then c.toNat - '0'.toNat
    else if 'a' ≤ c && c ≤ 'f' then c.toNat - 'a'.toNat + 10
    else if 'A' ≤ c && c ≤ 'F' then c.toNat - 'A'.toNat + 10
    else base
  if value < base then some value else none

/-- The natural number with some digits, at least one. -/
def natural? (base : Nat) (digits : List Char) : Option Nat :=
  if digits.isEmpty then none
  else digits.foldlM (fun n c => (digit? base c).map (n * base + ·)) 0

/-- The bases with a prefix. -/
def bases : List (List Char × Nat) :=
  [("0x".toList, 16), ("0o".toList, 8), ("0b".toList, 2)]

/-- The number behind a base prefix. -/
def prefixed? (cs : List Char) : Option Nat :=
  bases.findSome? fun (start, base) =>
    if start.isPrefixOf cs then natural? base (cs.drop 2) else none

/-- Characters without a leading plus sign. -/
def withoutPlus : List Char → List Char
  | '+' :: rest => rest
  | cs => cs

/-- Whether a sign starts the characters. -/
def startsSigned : List Char → Bool
  | '+' :: _ => true
  | '-' :: _ => true
  | _ => false

/-- Digits that start with a needless zero. -/
def hasLeadingZero (cs : List Char) : Bool :=
  let digits := if startsSigned cs then cs.tail else cs
  match digits with
  | '0' :: rest => !rest.isEmpty && rest.all Char.isDigit
  | _ => false

/-- The whole number that some characters spell. -/
def integer? (cs : List Char) : Option Int :=
  let unsigned := withoutPlus cs
  match prefixed? unsigned with
  | some n => some n
  | none =>
    match cs with
    | '-' :: rest =>
      match prefixed? rest with
      | some n => some (-n)
      | none => if hasLeadingZero cs then none else (natural? 10 rest).map fun n => -(n : Int)
    | _ =>
      if hasLeadingZero cs then none else (natural? 10 unsigned).map fun n => (n : Int)

/-- The exponent of a decimal: nothing, or `e`, an optional sign and digits. -/
def exponent? (cs : List Char) : Option Int :=
  match cs with
  | [] => some 0
  | c :: rest =>
    if c = 'e' || c = 'E' then
      match rest with
      | '-' :: digits => (natural? 10 digits).map fun n => -(n : Int)
      | '+' :: digits => (natural? 10 digits).map fun n => (n : Int)
      | digits => (natural? 10 digits).map fun n => (n : Int)
    else none

/-- The finite number that an unsigned decimal spells. -/
def decimal? (cs : List Char) : Option Float :=
  let whole := cs.takeWhile Char.isDigit
  let behind := cs.drop whole.length
  let (fraction, behind) :=
    match behind with
    | '.' :: rest =>
      let fraction := rest.takeWhile Char.isDigit
      (fraction, rest.drop fraction.length)
    | _ => ([], behind)
  if whole.isEmpty && fraction.isEmpty then none
  else do
    let exponent ← exponent? behind
    let digits ← natural? 10 (whole ++ fraction)
    let value := Decimal.nearest digits (exponent - fraction.length)
    if value.isFinite then some value else none

/-- Infinity and other numbers that are not finite. -/
def special? (cs : List Char) : Option Float :=
  let spelled (texts : List String) (cs : List Char) : Bool := texts.any fun t => t.toList = cs
  let infinite := [".inf", ".Inf", ".INF"]
  if spelled infinite (withoutPlus cs) then some (1 / 0)
  else if cs.head? = some '-' && spelled infinite cs.tail then some (-1 / 0)
  else if spelled [".nan", ".NaN", ".NAN"] cs then some (0 / 0)
  else none

/-- The number with a point or an exponent that some characters spell. -/
def float? (cs : List Char) : Option Float :=
  let unsigned := withoutPlus cs
  if cs.head? = some '+' && startsSigned unsigned then none
  else
    match special? cs with
    | some value => some value
    | none =>
      match unsigned with
      | '-' :: rest => (decimal? rest).map fun value => -value
      | cs => decimal? cs

/-- The spellings of null. -/
def isNull (text : String) : Bool :=
  ["null", "Null", "NULL", "~"].contains text

/-- The boolean that a text spells. -/
def bool? (text : String) : Option Bool :=
  if ["true", "True", "TRUE"].contains text then some true
  else if ["false", "False", "FALSE"].contains text then some false
  else none

/-- Numbers of at most 64 bits are integers; those of up to 128 bits are refused. -/
def sized? (n : Int) : Option Scalar :=
  if Number.isInteger n then some (.integer n)
  else if -Int.ofNat (Nat.pow 2 127) ≤ n && n < Int.ofNat (Nat.pow 2 128) then some .tooLarge
  else none

/-- The meaning of a plain scalar. -/
def ofPlain (text : String) : Scalar :=
  let cs := text.toList
  if text.isEmpty || isNull text then .null
  else
    match bool? text with
    | some b => .bool b
    | none =>
      match (integer? cs).bind sized? with
      | some scalar => scalar
      | none =>
        if hasLeadingZero cs then .string text
        else
          match float? cs with
          | some value => .float value
          | none => .string text

/-- The meaning of a scalar of a given kind, if it can have one. -/
def ofKind? (kind : ScalarKind) (text : String) : Option Scalar :=
  match kind with
  | .bool => (bool? text).map .bool
  | .integer => (integer? text.toList).bind sized?
  | .float => (float? text.toList).map .float
  | .null => if isNull text then some .null else none

end Scalar

end Yaml
end CloudTemplate
