import CloudTemplate.Decimal.Nearest

/-!
# Numbers in TOML

Which texts are numbers, and whether their values are in range: a whole number has at most 128 bits,
with a sign or without, and a number with a fraction or an exponent is nearest to a finite binary64
number, unless it is spelled as one that is not finite.

Main definition: `Numeral.isInRange?`.
-/

namespace CloudTemplate
namespace Toml

/-- Digits of some kind, in groups that single underscores separate. -/
def isGrouped (isDigit : Char → Bool) : List Char → Bool
  | [] => false
  | [c] => isDigit c
  | c :: '_' :: rest => isDigit c && isGrouped isDigit rest
  | c :: rest => isDigit c && isGrouped isDigit rest

/-- A hexadecimal digit. -/
def isHexDigit (c : Char) : Bool :=
  c.isDigit || ('a' ≤ c && c ≤ 'f') || ('A' ≤ c && c ≤ 'F')

/-- The value of a hexadecimal digit. -/
def hexValue (c : Char) : Nat :=
  if c.isDigit then c.toNat - '0'.toNat else c.toLower.toNat - 'a'.toNat + 10

/-- The natural number that digits spell in a base, underscores aside. -/
def naturalOf (base : Nat) (cs : List Char) : Nat :=
  (cs.filter (· ≠ '_')).foldl (fun n c => n * base + hexValue c) 0

namespace Numeral

/-- A decimal whole number without sign and without needless zeros. -/
def isPlainInteger (cs : List Char) : Bool :=
  isGrouped Char.isDigit cs && (cs.length = 1 || cs.head? ≠ some '0')

/-- The characters behind an optional sign. -/
def unsigned : List Char → List Char
  | '+' :: rest => rest
  | '-' :: rest => rest
  | cs => cs

/-- The value of a whole number. -/
def integer? (cs : List Char) : Option Int :=
  let withBase (base : Nat) (isDigit : Char → Bool) (digits : List Char) : Option Int :=
    if isGrouped isDigit digits then some (naturalOf base digits) else none
  match cs with
  | '0' :: 'x' :: digits => withBase 16 isHexDigit digits
  | '0' :: 'o' :: digits => withBase 8 (fun c => '0' ≤ c && c ≤ '7') digits
  | '0' :: 'b' :: digits => withBase 2 (fun c => c = '0' || c = '1') digits
  | _ =>
    if isPlainInteger (unsigned cs) then
      let size : Int := naturalOf 10 (unsigned cs)
      some (if cs.head? = some '-' then -size else size)
    else none

/-- The exponent at the end of a number, which may be missing. -/
def exponent? : List Char → Option Int
  | [] => some 0
  | c :: rest =>
    if (c = 'e' || c = 'E') && isGrouped Char.isDigit (unsigned rest) then
      let size : Int := naturalOf 10 (unsigned rest)
      some (if rest.head? = some '-' then -size else size)
    else none

/-- The magnitude of a number with a fraction or an exponent. -/
def magnitude? (cs : List Char) : Option Float :=
  let isPart (c : Char) : Bool := c.isDigit || c = '_'
  let whole := cs.takeWhile isPart
  let behind := cs.drop whole.length
  if !isPlainInteger whole || behind.isEmpty then none
  else
    match behind with
    | '.' :: rest =>
      let fraction := rest.takeWhile isPart
      if isGrouped Char.isDigit fraction then
        (exponent? (rest.drop fraction.length)).map fun exponent =>
          let places := (fraction.filter (· ≠ '_')).length
          Decimal.nearest (naturalOf 10 (whole ++ fraction)) (exponent - places)
      else none
    | behind => (exponent? behind).map fun exponent => Decimal.nearest (naturalOf 10 whole) exponent

/-- A number that is spelled as one that is not finite. -/
def isSpecial (cs : List Char) : Bool :=
  unsigned cs = "inf".toList || unsigned cs = "nan".toList

/-- Whether the number that a text spells is in range; nothing if it spells none. -/
def isInRange? (cs : List Char) : Option Bool :=
  match integer? cs with
  | some n => some (-Int.ofNat (Nat.pow 2 127) ≤ n && n < Int.ofNat (Nat.pow 2 128))
  | none =>
    if isSpecial cs then some true
    else (magnitude? (unsigned cs)).map Float.isFinite

end Numeral

end Toml
end CloudTemplate
