/-!
# Shortest decimals of binary64 numbers

A finite nonzero binary64 number is `m · 2^q` with natural `m`. The real numbers that round to it
form an interval, whose ends belong to it when `m` is even. The shortest decimal is a point of the
coarsest decimal grid that meets this interval; of two such points it is the nearer one.

All arithmetic is exact, on natural numbers.
-/

namespace CloudTemplate
namespace Decimal

/-- The magnitude of a finite number as `significand · 2^exponent`. -/
structure Binary where
  significand : Nat
  exponent : Int
  /-- The next smaller number is only half as far away as the next larger one. -/
  narrowBelow : Bool
deriving DecidableEq

/-- Decode the bits of a finite number; the sign is ignored. -/
def Binary.ofBits (bits : UInt64) : Binary :=
  let fraction : Nat := bits.toNat % 0x10000000000000
  let biased : Nat := bits.toNat / 0x10000000000000 % 0x800
  if biased = 0 then ⟨fraction, -1074, false⟩
  else ⟨0x10000000000000 + fraction, (biased : Int) - 1075, fraction == 0 && biased != 1⟩

/-- A decimal `digits · 10^exponent`. -/
structure Digits where
  digits : Nat
  exponent : Int
deriving DecidableEq

/-- Twice the numerators of the interval around `b`, as multiples of `2^(exponent - 2)`. -/
def Binary.lower (b : Binary) : Nat :=
  4 * b.significand - (if b.narrowBelow then 1 else 2)

/-- The upper end of the interval around `b`, as a multiple of `2^(exponent - 2)`. -/
def Binary.upper (b : Binary) : Nat :=
  4 * b.significand + 2

/-- The point of the grid `10^k` that represents `b`, if the grid meets the interval of `b`.

Both the grid points and the interval are scaled to whole multiples of one common unit. -/
def Binary.onGrid? (b : Binary) (k : Int) : Option Nat :=
  let shift := b.exponent - 2
  let unit := Nat.pow 10 k.toNat * Nat.pow 2 (-shift).toNat
  let scale := Nat.pow 10 (-k).toNat * Nat.pow 2 shift.toNat
  let exact := 4 * b.significand * scale
  let below := exact / unit
  let isInside (point : Nat) : Bool :=
    let position := point * unit
    if b.significand % 2 = 0 then
      b.lower * scale ≤ position && position ≤ b.upper * scale
    else
      b.lower * scale < position && position < b.upper * scale
  let belowFits := isInside below
  let aboveFits := isInside (below + 1)
  if belowFits && aboveFits then
    let toBelow := exact - below * unit
    let toAbove := (below + 1) * unit - exact
    if toBelow < toAbove || (toBelow == toAbove && below % 2 == 0) then some below
    else some (below + 1)
  else if belowFits then some below
  else if aboveFits then some (below + 1)
  else none

/-- Try ever finer grids, from `10^k` on. -/
def Binary.search (b : Binary) (k : Int) : Nat → Digits
  | 0 => ⟨b.significand, 0⟩
  | steps + 1 =>
    match b.onGrid? k with
    | some digits => ⟨digits, k⟩
    | none => b.search (k - 1) steps

/-- The shortest decimal that rounds to `b`. -/
def Binary.shortest (b : Binary) : Digits :=
  b.search ((b.exponent + b.significand.log2 + 1) * 30103 / 100000 + 1) 24

/-- The decimal digits of a natural number, most significant first. -/
def digitList (n : Nat) : List Char :=
  Nat.toDigits 10 n

/-- How a decimal is written: positional notation for a range of scientific exponents, scientific
notation outside it. -/
structure Style where
  leastPositional : Int
  greatestPositional : Int
  /-- Written between the `e` and a nonnegative exponent. -/
  plus : String

/-- The text of a decimal with its digits and scientific exponent. -/
def Style.format (style : Style) (digits : List Char) (exponent : Int) : String :=
  let count : Int := digits.length
  if style.leastPositional ≤ exponent ∧ exponent ≤ style.greatestPositional then
    if exponent < 0 then
      "0." ++ String.ofList (List.replicate (-exponent - 1).toNat '0' ++ digits)
    else if count ≤ exponent + 1 then
      String.ofList (digits ++ List.replicate (exponent + 1 - count).toNat '0') ++ ".0"
    else
      String.ofList (digits.take (exponent + 1).toNat) ++ "." ++
        String.ofList (digits.drop (exponent + 1).toNat)
  else
    let mantissa :=
      match digits with
      | [] => "0"
      | [d] => String.singleton d
      | d :: rest => String.singleton d ++ "." ++ String.ofList rest
    let power := if exponent < 0 then toString exponent else style.plus ++ toString exponent
    mantissa ++ "e" ++ power

/-- The text of a finite binary64 number: its shortest decimal in the given notation. -/
def Style.text (style : Style) (value : Float) : String :=
  let bits := value.toBits
  let sign := if 0x8000000000000000 ≤ bits.toNat then "-" else ""
  let binary := Binary.ofBits bits
  if binary.significand = 0 then sign ++ "0.0"
  else
    let decimal := binary.shortest
    let all := digitList decimal.digits
    let trimmed := (all.reverse.dropWhile (· == '0')).reverse
    sign ++ style.format trimmed (decimal.exponent + all.length - 1)

end Decimal
end CloudTemplate
