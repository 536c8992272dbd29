import Windowing.Cell.Basic
import Windowing.Cell.Literal
import Windowing.Cell.Utf8
import Windowing.FloatingPoint.Layout

/-!
Casts between types. A present value casts to a present value or fails; nothing is clamped or
silently dropped. Integers must fit, floating-point numbers are truncated toward zero before they
must fit, and text must be a literal of the target type.
-/
namespace Windowing

inductive CastError
  | outOfRange (text : String) (target : DataType)
  | unreadable (text : String) (target : DataType)
  | notTruthValue (text : String)
  | unsupported (source target : DataType)
  | malformedText (fault : Utf8.Fault)
  deriving DecidableEq

def CastError.message : CastError → String
  | outOfRange text t => "Cast error: Can't cast value " ++ text ++ " to type " ++ t.name
  | unreadable text t =>
    "Cast error: Cannot cast string '" ++ text ++ "' to value of " ++ t.name ++ " type"
  | notTruthValue text => "Cast error: Cannot cast value '" ++ text ++ "' to value of Boolean type"
  | unsupported s t => "Cast error: Casting from " ++ s.name ++ " to " ++ t.name ++ " not supported"
  | malformedText fault => "Invalid argument error: Encountered non UTF-8 data: " ++ fault.message

/-- Whether a value of the first type can ever be cast to the second. -/
def DataType.castable : DataType → DataType → Bool
  | .null, _ => true
  | .binary, .utf8 => true
  | .binary, t => t == .binary
  | _, .null => false
  | .utf8, _ => true
  | .integer _, .binary => true
  | _, .binary => false
  | _, _ => true

/-- An integer of a kind together with its being in range. -/
abbrev IntKind.Carrier (k : IntKind) := { v : Int // k.Fits v }

def IntKind.carrier? (k : IntKind) (v : Int) : Option k.Carrier :=
  if fits : k.Fits v then some ⟨v, fits⟩ else none

theorem IntKind.carrier?_eq_none_iff {k : IntKind} {v : Int} :
    k.carrier? v = none ↔ ¬ k.Fits v := by
  unfold IntKind.carrier?
  split <;> simp_all

theorem IntKind.carrier?_eq_some_iff {k : IntKind} {v : Int} {n : k.Carrier} :
    k.carrier? v = some n ↔ n.val = v := by
  unfold IntKind.carrier?
  split
  · rw [Option.some.injEq]
    constructor
    · rintro rfl
      rfl
    · rintro rfl
      rfl
  · rename_i misfit
    constructor
    · intro h
      cases h
    · rintro rfl
      exact absurd n.property misfit

namespace FloatFormat

/-- The number without its fraction; infinities and NaN have none. -/
def truncate? (f : FloatFormat) (code : Nat) : Option Int :=
  match f.decode code with
  | .finite negative m e =>
    let whole : Nat := m * Nat.pow 2 e.toNat / Nat.pow 2 (-e).toNat
    some (if negative then -whole else whole)
  | _ => none

def isZero (f : FloatFormat) (code : Nat) : Bool := f.magnitude code == 0

/-- Magnitudes from `10 ^ 400` on are infinite and those below `10 ^ (-400)` zero in every format,
so exponents beyond are cut before any power is computed. -/
def ofNumeral (f : FloatFormat) : Literal.Numeral → Nat
  | .nan negative => f.withSign negative (f.infinity + f.quietPlace)
  | .infinity negative => f.withSign negative f.infinity
  | .number negative digits exponent =>
    let leading : Int := exponent + (Nat.toDigits 10 digits).length
    f.withSign negative <|
      if digits = 0 ∨ leading < -400 then 0
      else if 400 < leading then f.infinity
      else f.nearest (digits * Nat.pow 10 exponent.toNat) (Nat.pow 10 (-exponent).toNat)

end FloatFormat

namespace Value

def ranged (k : IntKind) (v : Int) : Except CastError k.Carrier :=
  match k.carrier? v with
  | some n => .ok n
  | none => .error (.outOfRange (toString v) (.integer k))

def truncated (k : IntKind) (f : FloatFormat) (code : Nat) : Except CastError k.Carrier :=
  match (f.truncate? code).bind k.carrier? with
  | some n => .ok n
  | none => .error (.outOfRange (FloatLayout.diagnostic.render f code) (.integer k))

def readInteger (k : IntKind) (text : String) : Except CastError k.Carrier :=
  match (Literal.integer? text).bind k.carrier? with
  | some n => .ok n
  | none => .error (.unreadable text (.integer k))

theorem bit_fits (k : IntKind) (b : Bool) : k.Fits (if b then 1 else 0) := by
  cases k <;> cases b <;> decide

def toInteger (k : IntKind) : Value → Except CastError k.Carrier
  | boolean b => .ok ⟨if b then 1 else 0, bit_fits k b⟩
  | integer _ v _ => ranged k v
  | float32 code => truncated k .single code.toNat
  | float64 code => truncated k .double code.toNat
  | utf8 text => readInteger k text
  | binary _ => .error (.unsupported .binary (.integer k))

/-- The value as a code of format `f`, whose type is `target`. -/
def toFloat (f : FloatFormat) (target : DataType) : Value → Except CastError Nat
  | boolean b => .ok (f.ofInt (if b then 1 else 0))
  | integer _ v _ => .ok (f.ofInt v)
  | float32 code => .ok (FloatFormat.single.convert f code.toNat)
  | float64 code => .ok (FloatFormat.double.convert f code.toNat)
  | utf8 text =>
    match Literal.decimal? text with
    | some d => .ok (f.ofNumeral d)
    | none => .error (.unreadable text target)
  | binary _ => .error (.unsupported .binary target)

def toFloat64 : Value → Except CastError (BitVec 64)
  | float64 code => .ok code
  | v => (v.toFloat .double .float64).map (BitVec.ofNat 64)

def toFloat32 : Value → Except CastError (BitVec 32)
  | float32 code => .ok code
  | v => (v.toFloat .single .float32).map (BitVec.ofNat 32)

def toBoolean : Value → Except CastError Bool
  | boolean b => .ok b
  | integer _ v _ => .ok (v != 0)
  | float32 code => .ok (!FloatFormat.single.isZero code.toNat)
  | float64 code => .ok (!FloatFormat.double.isZero code.toNat)
  | utf8 text => (Literal.boolean? text).mapError .notTruthValue
  | binary _ => .error (.unsupported .binary .boolean)

def toUtf8 : Value → Except CastError String
  | boolean b => .ok (if b then "true" else "false")
  | integer _ v _ => .ok (toString v)
  | float32 code => .ok (FloatLayout.singleColumn.render .single code.toNat)
  | float64 code => .ok (FloatLayout.doubleColumn.render .double code.toNat)
  | utf8 text => .ok text
  | binary bytes => (Utf8.decode bytes).mapError .malformedText

/-- The lowest byte first, in two's complement. -/
def littleEndian (count : Nat) (v : Int) : List UInt8 :=
  (List.range count).map fun i => UInt8.ofNat ((v / (Nat.pow 256 i : Nat)) % 256).toNat

def toBinary : Value → Except CastError (List UInt8)
  | integer k v _ => .ok (littleEndian k.bytes v)
  | utf8 text => .ok (Utf8.bytes text)
  | binary bytes => .ok bytes
  | v => .error (.unsupported v.type .binary)

def cast (v : Value) (target : DataType) : Except CastError Value :=
  if v.type = target then .ok v
  else
    match target with
    | .null => .error (.unsupported v.type .null)
    | .boolean => v.toBoolean.map .boolean
    | .integer k => (v.toInteger k).map fun n => .integer k n.val n.property
    | .float32 => v.toFloat32.map .float32
    | .float64 => v.toFloat64.map .float64
    | .utf8 => v.toUtf8.map .utf8
    | .binary => v.toBinary.map .binary

end Value

/-- A null casts to the null of the target type where any value of its type could be cast. -/
def Cell.cast (c : Cell) (target : DataType) : Except CastError Cell :=
  match c with
  | .null t => if t.castable target then .ok (.null target) else .error (.unsupported t target)
  | .value v => (v.cast target).map .value

end Windowing
