import Windowing.Radix
import Windowing.Settings.Document.Symbol

/-!
What may stand before a node, and what may stand before a document: tags, anchors and directives. A
tag is the handle of a family of tags and a name in it. Names are octets, each held as the character
of that code, so that a percent sign and two hexadecimal digits can give any of them.
-/
namespace Windowing.Document

structure Tag where
  /-- Empty where the name is complete. -/
  handle : List Char
  name : List Char
  deriving DecidableEq

inductive Directive
  | version (major minor : Nat)
  /-- Tags with the handle are meant to start with the family's name. -/
  | family (handle name : List Char)
  deriving DecidableEq

def isWordChar (c : Char) : Bool := c.isAlphanum || c = '-' || c = '_'

/-- Characters of a tag's name besides those of words; some only where the name stands in angle
brackets or in a directive. -/
def isNameChar (enclosed : Bool) (c : Char) : Bool :=
  isWordChar c
    || [';', '/', '?', ':', '@', '&', '=', '+', '$', '.', '!', '~', '*', '\'', '(', ')'].contains c
    || (enclosed && [',', '[', ']'].contains c)

/-- How many octets follow a leading one. -/
def trailing? (octet : Nat) : Option Nat :=
  if octet < 0x80 then some 0
  else if octet < 0xc0 then none
  else if octet < 0xe0 then some 1
  else if octet < 0xf0 then some 2
  else if octet < 0xf8 then some 3
  else none

/-- The octets still due once this one is read. -/
def dueAfter? (due octet : Nat) : Option Nat :=
  if due = 0 then trailing? octet
  else if 0x80 ≤ octet && octet < 0xc0 then some (due - 1)
  else none

/-- The name of a tag, and what follows it. While octets of a character are due, they have to
come. -/
def name? (enclosed : Bool) : (due : Nat) → List Symbol → Option (List Char × List Symbol)
  | due, [] => if due = 0 then some ([], []) else none
  | due, s :: r =>
    if s.char = '%' then
      match r with
      | a :: b :: r => do
        let octet := 16 * (← Radix.digit? a.char) + (← Radix.digit? b.char)
        let (text, rest) ← name? enclosed (← dueAfter? due octet) r
        return (Char.ofNat octet :: text, rest)
      | _ => none
    else if due ≠ 0 then none
    else if isNameChar enclosed s.char then
      (name? enclosed 0 r).map fun (text, rest) => (s.char :: text, rest)
    else some ([], s :: r)

/-- A name ends before its first octet of zero; what is written after that says nothing. -/
def significant (name : List Char) : List Char := name.takeWhile fun c => c ≠ '\x00'

/-- A name for which at least one character is written. -/
def fullName? (enclosed : Bool) (text : List Symbol) : Option (List Char × List Symbol) := do
  let (name, rest) ← name? enclosed 0 text
  if name.isEmpty then none else return (significant name, rest)

def word (text : List Symbol) : List Char × List Symbol :=
  let (letters, rest) := text.span fun s => isWordChar s.char
  (letters.map Symbol.char, rest)

/-- The tag after its exclamation mark. A mark alone is a complete name. -/
def bareTag? (text : List Symbol) : Option (Tag × List Symbol) := do
  if Symbol.next ['<'] text then
    let (name, rest) ← fullName? true (text.drop 1)
    if Symbol.next ['>'] rest then return (⟨[], name⟩, rest.drop 1) else none
  else
    let (letters, rest) := word text
    if Symbol.next ['!'] rest then
      let (name, rest) ← fullName? false (rest.drop 1)
      return (⟨'!' :: letters ++ ['!'], name⟩, rest)
    else
      let (more, rest) ← name? false 0 rest
      let name := significant (letters ++ more)
      return (if name.isEmpty then ⟨[], ['!']⟩ else ⟨['!'], name⟩, rest)

/-- A tag ends with its word, or inside flow collections at a comma. -/
def tag? (flow : Bool) (text : List Symbol) : Option (Tag × List Symbol) := do
  let (tag, rest) ← bareTag? text
  if Symbol.endsWord rest || (flow && Symbol.next [','] rest) then return (tag, rest) else none

/-- The name of an anchor after its mark. -/
def anchor? (text : List Symbol) : Option (List Char × List Symbol) :=
  let (name, rest) := word text
  let ended := Symbol.endsWord rest
    || Symbol.next ['?', ':', ',', ']', '\x7d', '%', '@', '\x60'] rest
  if name.isEmpty || !ended then none else some (name, rest)

/-- At most nine digits. -/
def versionNumber? (text : List Symbol) : Option (Nat × List Symbol) :=
  let (digits, rest) := text.span fun s => s.char.isDigit
  if 9 < digits.length then none
  else (Radix.read? 10 (digits.map Symbol.char)).map fun n => (n, rest)

def version? (text : List Symbol) : Option (Directive × List Symbol) := do
  let (major, rest) ← versionNumber? text
  if Symbol.next ['.'] rest then
    let (minor, rest) ← versionNumber? (rest.drop 1)
    return (.version major minor, rest)
  else none

def family? (text : List Symbol) : Option (Directive × List Symbol) := do
  if Symbol.next ['!'] text then
    let (letters, rest) := word (text.drop 1)
    let (handle, rest) ←
      if Symbol.next ['!'] rest then some ('!' :: letters ++ ['!'], rest.drop 1)
      else if letters.isEmpty then some (['!'], rest)
      else none
    if Symbol.next [' ', '\t'] rest then
      let (name, rest) ← fullName? true (Symbol.skipBlanks rest)
      if Symbol.endsWord rest then return (.family handle name, rest) else none
    else none
  else none

/-- The directive after its percent sign, up to the end of its line. -/
def directive? (text : List Symbol) : Option (Directive × List Symbol) := do
  let (name, rest) := word text
  if Symbol.endsWord rest then
    let rest := Symbol.skipBlanks rest
    let (directive, rest) ←
      if name = "YAML".toList then version? rest
      else if name = "TAG".toList then family? rest
      else none
    return (directive, ← Symbol.lineEnd? rest)
  else none

end Windowing.Document
