/-!
Binary interchange formats. A format fixes how many bits a significand has and how many an exponent;
a *code* is the number whose binary digits are sign, biased exponent and fraction. Every finite code
denotes `significand * 2 ^ exponent` exactly, and `nearest` goes back from a quotient of naturals to
the code whose value is closest, a half going to the even significand.
-/
namespace Windowing

structure FloatFormat where
  precision : Nat
  exponentWidth : Nat
  deriving DecidableEq

/-- What a code denotes. -/
inductive FloatDatum
  | nan
  | infinite (negative : Bool)
  | finite (negative : Bool) (significand : Nat) (exponent : Int)
  deriving DecidableEq

namespace FloatFormat

def single : FloatFormat := ⟨24, 8⟩
def double : FloatFormat := ⟨53, 11⟩

/-- Weight of the lowest exponent bit, which is also the least normal significand. -/
def fractionPlace (f : FloatFormat) : Nat := Nat.pow 2 (f.precision - 1)

def signPlace (f : FloatFormat) : Nat := Nat.pow 2 f.exponentWidth * f.fractionPlace

def infinity (f : FloatFormat) : Nat := (Nat.pow 2 f.exponentWidth - 1) * f.fractionPlace

/-- Exponent of the last place of a subnormal number. -/
def leastExponent (f : FloatFormat) : Int :=
  3 - (Nat.pow 2 (f.exponentWidth - 1) : Nat) - f.precision

/-- The top fraction bit, which a quiet NaN carries. -/
def quietPlace (f : FloatFormat) : Nat := f.fractionPlace / 2

def isNegative (f : FloatFormat) (code : Nat) : Bool := f.signPlace ≤ code

def magnitude (f : FloatFormat) (code : Nat) : Nat := code % f.signPlace

def isNaN (f : FloatFormat) (code : Nat) : Bool := f.infinity < f.magnitude code

def withSign (f : FloatFormat) (negative : Bool) (magnitude : Nat) : Nat :=
  if negative then f.signPlace + magnitude else magnitude

def decode (f : FloatFormat) (code : Nat) : FloatDatum :=
  let m := f.magnitude code
  let negative := f.isNegative code
  if f.infinity < m then .nan
  else if m = f.infinity then .infinite negative
  else if m < f.fractionPlace then .finite negative m f.leastExponent
  else .finite negative (m % f.fractionPlace + f.fractionPlace)
    (f.leastExponent + (m / f.fractionPlace - 1))

/-- The natural nearest to `n / d`, a half going to the even neighbour. -/
def roundHalfEven (n d : Nat) : Nat :=
  let q := n / d
  let r := n % d
  if 2 * r < d then q
  else if d < 2 * r then q + 1
  else q + q % 2

/-- `n / d` in units of `2 ^ e`, as a numerator and a denominator. -/
def inUnits (n d : Nat) (e : Int) : Nat × Nat :=
  (n * Nat.pow 2 (-e).toNat, d * Nat.pow 2 e.toNat)

/-- Exponent of the last significand place of `n / d`: the significand then has exactly `precision`
bits, or fewer where only a subnormal number is near. -/
def exponentOf (f : FloatFormat) (n d : Nat) : Int :=
  let low : Int := n.log2 - d.log2 - f.precision
  let (a, b) := inUnits n d low
  max f.leastExponent (if a < Nat.pow 2 f.precision * b then low else low + 1)

/-- Magnitude of the code nearest to `n / d`. A significand that rounds up to the next power of two
carries into the exponent by the addition alone, and whatever passes the largest finite number is
infinite. -/
def nearest (f : FloatFormat) (n d : Nat) : Nat :=
  if n = 0 then 0
  else
    let e := f.exponentOf n d
    let (a, b) := inUnits n d e
    min f.infinity ((e - f.leastExponent).toNat * f.fractionPlace + roundHalfEven a b)

/-- Code nearest to `± significand * 2 ^ exponent`. -/
def ofScaled (f : FloatFormat) (negative : Bool) (significand : Nat) (exponent : Int) : Nat :=
  f.withSign negative
    (f.nearest (significand * Nat.pow 2 exponent.toNat) (Nat.pow 2 (-exponent).toNat))

def ofInt (f : FloatFormat) (v : Int) : Nat :=
  f.withSign (decide (v < 0)) (f.nearest v.natAbs 1)

/-- Quiets a NaN, keeping its sign and payload. -/
def quiet (f : FloatFormat) (code : Nat) : Nat :=
  if f.magnitude code / f.quietPlace % 2 = 0 then code + f.quietPlace else code

/-- The NaN that an invalid operation makes: negative and quiet, without a payload. -/
def invalid (f : FloatFormat) : Nat :=
  f.withSign true (f.infinity + f.quietPlace)

/-- The same number in another format. The payload of a NaN is aligned at its upper end. -/
def convert (source target : FloatFormat) (code : Nat) : Nat :=
  match source.decode code with
  | .nan =>
    let payload := source.magnitude (source.quiet code) % source.fractionPlace
    let aligned := payload * target.fractionPlace / source.fractionPlace
    target.withSign (source.isNegative code) (target.infinity + aligned)
  | .infinite negative => target.withSign negative target.infinity
  | .finite negative m e => target.ofScaled negative m e

end FloatFormat
end Windowing
