/-!
Reading numbers and truth values from text. A literal is the whole text: no blanks, an optional
sign, ASCII digits.
-/
namespace Windowing.Literal

/-- A decimal literal: `± digits * 10 ^ exponent`, or one of the names of the special values. -/
inductive Numeral
  | number (negative : Bool) (digits : Nat) (exponent : Int)
  | infinity (negative : Bool)
  | nan (negative : Bool)
  deriving DecidableEq

def sign : List Char → Bool × List Char
  | '-' :: r => (true, r)
  | '+' :: r => (false, r)
  | r => (false, r)

def digitValue (c : Char) : Nat := c.toNat - '0'.toNat

def ofDigits (digits : List Char) : Nat :=
  digits.foldl (fun n c => 10 * n + digitValue c) 0

def natural? (digits : List Char) : Option Nat :=
  if digits.isEmpty || !digits.all Char.isDigit then none else some (ofDigits digits)

def integer? (text : String) : Option Int :=
  let (negative, digits) := sign text.toList
  (natural? digits).map fun n => if negative then -(n : Int) else n

/-- What stands after the digits: nothing, or an exponent mark with at least one digit. -/
def exponent? : List Char → Option Int
  | [] => some 0
  | c :: r => if c = 'e' || c = 'E' then integer? (String.ofList r) else none

def fraction (rest : List Char) : List Char × List Char :=
  match rest with
  | '.' :: r => r.span Char.isDigit
  | r => ([], r)

def number? (negative : Bool) (text : List Char) : Option Numeral :=
  let (whole, rest) := text.span Char.isDigit
  let (places, rest) := fraction rest
  if whole.isEmpty && places.isEmpty then none
  else (exponent? rest).map fun e =>
    .number negative (ofDigits (whole ++ places)) (e - places.length)

def decimal? (text : String) : Option Numeral :=
  let (negative, r) := sign text.toList
  let name := r.map Char.toLower
  if name = "nan".toList then some (.nan negative)
  else if name = "inf".toList || name = "infinity".toList then some (.infinity negative)
  else number? negative r

/-- Blanks of Unicode, as trimming strips them. -/
def isBlank (c : Char) : Bool :=
  let n := c.toNat
  (9 ≤ n && n ≤ 13) || n = 0x20 || n = 0x85 || n = 0xa0 || n = 0x1680
    || (0x2000 ≤ n && n ≤ 0x200a) || n = 0x2028 || n = 0x2029 || n = 0x202f || n = 0x205f
    || n = 0x3000

def trim (text : List Char) : List Char :=
  ((text.dropWhile isBlank).reverse.dropWhile isBlank).reverse

def trueNames : List String := ["t", "tr", "tru", "true", "y", "ye", "yes", "on", "1"]
def falseNames : List String := ["f", "fa", "fal", "fals", "false", "n", "no", "of", "off", "0"]

/-- Case and surrounding blanks do not matter; a text that is no truth value comes back in the form
that was looked up. -/
def boolean? (text : String) : Except String Bool :=
  let word := String.ofList (trim (text.toList.map Char.toLower))
  if trueNames.contains word then .ok true
  else if falseNames.contains word then .ok false
  else .error word

end Windowing.Literal
