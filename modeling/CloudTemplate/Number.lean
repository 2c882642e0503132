import CloudTemplate.Decimal.Shortest

/-!
# Numbers of documents

A number is a whole number of at most 64 bits or a finite binary64 number. `1` and `1.0` are
different numbers. The two text formats write them alike except for large exponents.
-/

namespace CloudTemplate

/-- A number of a document. -/
inductive Number where
  /-- A whole number, signed or unsigned, of 64 bits. -/
  | integer (value : Int)
  /-- A finite binary64 number. -/
  | binary (value : Float)
deriving DecidableEq

namespace Number

/-- The least whole number that has an integer form. -/
def leastInteger : Int := -0x8000000000000000

/-- The greatest whole number that has an integer form. -/
def greatestInteger : Int := 0xFFFFFFFFFFFFFFFF

/-- Whether a whole number fits the integer form. -/
def isInteger (value : Int) : Bool :=
  leastInteger ≤ value && value ≤ greatestInteger

/-- Positional between `10^-5` and `10^16`; a large exponent has a plus sign. -/
def signedExponent : Decimal.Style := ⟨-5, 15, "+"⟩

/-- Positional between `10^-5` and `10^16`; a large exponent has no sign. -/
def bareExponent : Decimal.Style := ⟨-5, 15, ""⟩

/-- The text of a number in JSON documents. -/
def jsonText : Number → String
  | .integer value => toString value
  | .binary value => signedExponent.text value

/-- The text of a number in YAML documents. -/
def yamlText : Number → String
  | .integer value => toString value
  | .binary value => bareExponent.text value

end Number

end CloudTemplate
