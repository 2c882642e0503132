/-!
# Nearest binary64 numbers

A decimal stands for the binary64 number that is nearest to it; of two that are equally near, the
one with the even significand.
-/

namespace CloudTemplate
namespace Decimal

/-- The binary64 number nearest to `digits · 10^exponent`. A decimal far above or below all finite
numbers is not written out. -/
def nearest (digits : Nat) (exponent : Int) : Float :=
  if digits = 0 then 0
  else
    let size : Int := (Nat.toDigits 10 digits).length
    if 400 < size + exponent then 1 / 0
    else if size + exponent < -400 then 0
    else Float.ofScientific digits (exponent < 0) exponent.natAbs

end Decimal
end CloudTemplate
