import CloudTemplate.Json.Cursor
import CloudTemplate.Number

/-!
# Numerals of JSON texts

A numeral without fraction and exponent that fits 64 bits is a whole number; `-0` and all other
numerals are binary64 numbers. The binary64 value is computed from the digits that fit 64 bits, in
two roundings: the significand is rounded, then the scaling by a power of ten. Digits beyond 64
bits only count for the exponent.
-/

namespace CloudTemplate
namespace Json

/-- The value of an ASCII digit. -/
def digit? (b : UInt8) : Option Nat :=
  if 0x30 ≤ b && b ≤ 0x39 then some (b.toNat - 0x30) else none

/-- The greatest significand that is kept exactly. -/
def greatestSignificand : Nat := 0xFFFFFFFFFFFFFFFF

/-- The power of ten nearest to `10^k`, for `k ≤ 308`. -/
def powerOfTen (k : Nat) : Float :=
  Float.ofScientific 1 false k

/-- Scale a number by a power of ten; nothing when the result is too large.

Negative powers below the range of the table are reached by repeated division, of which two
suffice to reach zero. -/
def scale? (value : Float) (exponent : Int) : Option Float :=
  if 0 ≤ exponent then
    if exponent ≤ 308 then
      let scaled := value * powerOfTen exponent.toNat
      if scaled.isInf then none else some scaled
    else if value == 0 then some value
    else none
  else go value exponent 4
where
  /-- Divide by `10^308` until the exponent is in range. -/
  go (value : Float) (exponent : Int) : Nat → Option Float
    | 0 => some 0
    | steps + 1 =>
      if -308 ≤ exponent then some (value / powerOfTen (-exponent).toNat)
      else if value == 0 then some value
      else go (value / powerOfTen 308) (exponent + 308) steps

/-- The binary64 number with a sign, a significand and a power of ten. -/
def ofParts (negative : Bool) (significand : Nat) (exponent : Int) (c : Cursor) :
    Except Stop (Number × Cursor) :=
  match scale? significand.toUInt64.toFloat exponent with
  | none => c.stop .numberOutOfRange
  | some value => .ok (.binary (if negative then -value else value), c)

/-- The digits at the cursor and the cursor behind them. -/
def digits (c : Cursor) : List Nat × Cursor :=
  let found := c.rest.takeWhile fun b => (digit? b).isSome
  (found.filterMap digit?, c.skip found.length)

/-- Add digits to a significand while it fits 64 bits; the count of the digits that fit. -/
def absorb (significand : Nat) : List Nat → Nat × Nat
  | [] => (significand, 0)
  | d :: rest =>
    if significand * 10 + d ≤ greatestSignificand then
      let (total, count) := absorb (significand * 10 + d) rest
      (total, count + 1)
    else (significand, 0)

/-- The greatest exponent that is read exactly. -/
def greatestExponent : Nat := 0x7FFFFFFF

/-- The exponent at the cursor, which stands behind the `e`, and the number it completes. -/
def exponentPart (negative : Bool) (significand : Nat) (start : Int) (c : Cursor) :
    Except Stop (Number × Cursor) :=
  let (negativePower, c) :=
    match c.rest with
    | 0x2B :: _ => (false, c.skip 1)
    | 0x2D :: _ => (true, c.skip 1)
    | _ => (false, c)
  match c.rest with
  | [] => c.stop .endOfValue
  | b :: _ =>
    if (digit? b).isNone then (c.skip 1).stop .invalidNumber
    else
      let (ds, behind) := digits c
      match overflow 0 0 ds with
      | some count =>
        if significand != 0 && !negativePower then (c.skip count).stop .numberOutOfRange
        else .ok (.binary (if negative then -0.0 else 0.0), behind)
      | none =>
        let power : Int := (ds.foldl (fun n d => n * 10 + d) 0 : Nat)
        let total := if negativePower then start - power else start + power
        let bounded := max (-0x80000000) (min 0x7FFFFFFF total)
        ofParts negative significand bounded behind
where
  /-- How many digits were read when the exponent becomes too large, if it does. -/
  overflow (value count : Nat) : List Nat → Option Nat
    | [] => none
    | d :: rest =>
      if value * 10 + d ≤ greatestExponent then overflow (value * 10 + d) (count + 1) rest
      else some (count + 1)

/-- The fraction at the cursor, which stands behind the point, and the number it completes. -/
def fractionPart (negative : Bool) (significand : Nat) (start : Int) (c : Cursor) :
    Except Stop (Number × Cursor) :=
  let (ds, behind) := digits c
  if ds.isEmpty then
    c.stopAhead (if c.rest.isEmpty then .endOfValue else .invalidNumber)
  else
    let (total, count) := absorb significand ds
    let exponent := start - count
    match behind.rest with
    | b :: _ =>
      if b = 0x65 || b = 0x45 then exponentPart negative total exponent (behind.skip 1)
      else ofParts negative total exponent behind
    | [] => ofParts negative total exponent behind

/-- The numeral at the cursor, behind its sign. -/
def numeral (negative : Bool) (c : Cursor) : Except Stop (Number × Cursor) :=
  match c.rest with
  | [] => c.stop .endOfValue
  | first :: _ =>
    match digit? first with
    | none => (c.skip 1).stop .invalidNumber
    | some 0 =>
      let c := c.skip 1
      match c.rest with
      | b :: _ => if (digit? b).isSome then c.stopAhead .invalidNumber else finish 0 0 c
      | [] => finish 0 0 c
    | some _ =>
      let (ds, behind) := digits c
      let (total, count) := absorb 0 ds
      finish total (ds.length - count) behind
where
  /-- Continue behind the whole part, of which some digits did not fit. -/
  finish (significand dropped : Nat) (c : Cursor) : Except Stop (Number × Cursor) :=
    let whole : Except Stop (Number × Cursor) :=
      if dropped = 0 then
        if negative then
          if significand = 0 || 0x8000000000000000 < significand then
            .ok (.binary (-significand.toUInt64.toFloat), c)
          else .ok (.integer (-significand), c)
        else .ok (.integer significand, c)
      else ofParts negative significand dropped c
    match c.rest with
    | b :: _ =>
      if b = 0x2E then fractionPart negative significand dropped (c.skip 1)
      else if b = 0x65 || b = 0x45 then exponentPart negative significand dropped (c.skip 1)
      else whole
    | [] => whole

/-- The number that a whole text is, with an optional minus sign and nothing around it. -/
def numberOfText? (text : String) : Option Number :=
  let c := Cursor.start text.toUTF8.toList
  let result :=
    match c.rest with
    | 0x2D :: _ => numeral true (c.skip 1)
    | b :: _ => if (digit? b).isSome then numeral false c else c.stop .invalidNumber
    | [] => c.stop .endOfValue
  match result with
  | .ok (number, ⟨_, []⟩) => some number
  | _ => none

end Json
end CloudTemplate
