import Windowing.FloatingPoint.Shortest

/-!
Layouts of a floating-point number as text. Digits come from the shortest decimal; a layout decides
which of two equally near decimals is meant, which magnitudes are written with an exponent, and
whether a whole number keeps a fraction.
-/
namespace Windowing

structure FloatLayout where
  /-- Numbers whose leading digit has a decimal exponent below this one are written with an
  exponent. -/
  scientificBelow : Option Int
  /-- So are those at or above this one. -/
  scientificFrom : Option Int
  /-- A whole number is written with `.0`. -/
  wholeFraction : Bool
  tie : Tie

namespace FloatLayout

/-- Always positional, whole numbers without a fraction. -/
def plain : FloatLayout := ⟨none, none, false, .upper⟩

/-- Positional from `1e-4` up to `1e16`. -/
def diagnostic : FloatLayout := ⟨some (-4), some 16, true, .upper⟩

/-- The text of a double in a column of strings is positional from `1e-5` up to `1e16`. -/
def doubleColumn : FloatLayout := ⟨some (-5), some 16, true, .even⟩

/-- The text of a single in a column of strings is positional from `1e-6` up to `1e13`. -/
def singleColumn : FloatLayout := ⟨some (-6), some 13, true, .even⟩

def zeros (n : Nat) : List Char := List.replicate n '0'

def positional (l : FloatLayout) (digits : List Char) (exponent : Int) : List Char :=
  if 0 ≤ exponent then
    digits ++ zeros exponent.toNat ++ (if l.wholeFraction then ['.', '0'] else [])
  else
    let places := (-exponent).toNat
    if places < digits.length then
      digits.take (digits.length - places) ++ '.' :: digits.drop (digits.length - places)
    else
      ['0', '.'] ++ zeros (places - digits.length) ++ digits

def scientific (digits : List Char) (leading : Int) : List Char :=
  let fraction := digits.drop 1
  digits.take 1 ++ (if fraction.isEmpty then [] else '.' :: fraction)
    ++ 'e' :: (toString leading).toList

def decimal (l : FloatLayout) (d : Decimal) : List Char :=
  let digits := Nat.toDigits 10 d.digits
  let leading : Int := d.exponent + (digits.length - 1)
  let outside := l.scientificBelow.any (leading < ·) || l.scientificFrom.any (· ≤ leading)
  if outside && d.digits != 0 then scientific digits leading
  else l.positional digits d.exponent

def datum (l : FloatLayout) (f : FloatFormat) : FloatDatum → String
  | .nan => "NaN"
  | .infinite negative => if negative then "-inf" else "inf"
  | .finite negative m e =>
    String.ofList ((if negative then ['-'] else []) ++ l.decimal (f.shortest l.tie m e))

def render (l : FloatLayout) (f : FloatFormat) (code : Nat) : String :=
  l.datum f (f.decode code)

end FloatLayout
end Windowing
