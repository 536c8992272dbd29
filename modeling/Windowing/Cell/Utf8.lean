/-!
Well-formed UTF-8. A leading byte fixes which ranges the bytes after it must lie in; the first place
where a text breaks that rule is described by its position and by how many bytes are wrong, or by
the text ending too early.
-/
namespace Windowing.Utf8

structure ByteRange where
  low : UInt8
  high : UInt8

def ByteRange.contains (r : ByteRange) (b : UInt8) : Bool := r.low ≤ b && b ≤ r.high

def tail : ByteRange := ⟨0x80, 0xbf⟩

/-- What must follow a leading byte; `none` for a byte that leads nothing. -/
def following? (b : UInt8) : Option (List ByteRange) :=
  if b < 0x80 then some []
  else if b < 0xc2 then none
  else if b < 0xe0 then some [tail]
  else if b = 0xe0 then some [⟨0xa0, 0xbf⟩, tail]
  else if b = 0xed then some [⟨0x80, 0x9f⟩, tail]
  else if b < 0xf0 then some [tail, tail]
  else if b = 0xf0 then some [⟨0x90, 0xbf⟩, tail, tail]
  else if b < 0xf4 then some [tail, tail, tail]
  else if b = 0xf4 then some [⟨0x80, 0x8f⟩, tail, tail]
  else none

inductive Fault
  /-- `count` bytes from `position` on belong to no character. -/
  | invalid (count position : Nat)
  /-- The text ends inside the character that starts at `position`. -/
  | incomplete (position : Nat)
  deriving DecidableEq

def Fault.message : Fault → String
  | invalid count position => s!"invalid utf-8 sequence of {count} bytes from index {position}"
  | incomplete position => s!"incomplete utf-8 byte sequence from index {position}"

/-- Scans with the ranges still due for the character that starts at `start`, of which `seen` bytes
have been read. -/
def scan : List UInt8 → (start seen : Nat) → List ByteRange → Option Fault
  | [], start, _, due => if due.isEmpty then none else some (.incomplete start)
  | b :: rest, start, seen, [] =>
    match following? b with
    | none => some (.invalid 1 (start + seen))
    | some due => scan rest (start + seen) 1 due
  | b :: rest, start, seen, range :: due =>
    if range.contains b then scan rest start (seen + 1) due
    else some (.invalid seen start)

def fault? (bytes : List UInt8) : Option Fault := scan bytes 0 0 []

def bytes (text : String) : List UInt8 := text.toUTF8.toList

def decode (bytes : List UInt8) : Except Fault String :=
  match fault? bytes with
  | some fault => .error fault
  | none => .ok ((String.fromUTF8? ⟨bytes.toArray⟩).getD "")

end Windowing.Utf8
