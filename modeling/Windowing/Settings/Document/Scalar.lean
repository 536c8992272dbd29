import Windowing.Radix
import Windowing.Settings.Document.Symbol

/-!
The text of scalars. Between words, blanks on one line are kept; around line breaks they are
dropped, a single break folds to a space, and of several the first is dropped. Only the breaks of a
literal block stay as they are.
-/
namespace Windowing.Document

inductive Style
  | plain
  | quoted
  | literal
  | folded
  deriving DecidableEq

/-- What lies between two words. -/
inductive Gap
  | blanks (text : List Char)
  /-- There is no first break where a backslash hides it. -/
  | breaks (first : Option Char) (later : List Char)
  deriving DecidableEq

namespace Gap

def isEmpty (g : Gap) : Bool := g = blanks []

def isBroken : Gap → Bool
  | blanks _ => false
  | breaks .. => true

def addBlank (g : Gap) (c : Char) : Gap :=
  match g with
  | blanks text => .blanks (text ++ [c])
  | breaks first later => .breaks first later

def addBreak (g : Gap) (c : Char) : Gap :=
  match g with
  | blanks _ => .breaks (some c) []
  | breaks first later => .breaks first (later ++ [c])

def text : Gap → List Char
  | blanks text => text
  | breaks (some '\n') [] => [' ']
  | breaks (some '\n') later => later
  | breaks (some c) later => c :: later
  | breaks none later => later

end Gap

/-- Text that has been read, and the symbols after it. -/
abbrev Read := Option (List Char × List Symbol)

def Read.after (before : List Char) (r : Read) : Read :=
  r.map fun (text, rest) => (before ++ text, rest)

/-! Quoted scalars -/

inductive Quote
  | single
  | double
  deriving DecidableEq

def Quote.char : Quote → Char
  | single => '\''
  | double => '"'

/-- The character that a letter after a backslash stands for. -/
def escaped? : Char → Option Char
  | '0' => some '\x00'
  | 'a' => some '\x07'
  | 'b' => some '\x08'
  | 't' | '\t' => some '\t'
  | 'n' => some '\n'
  | 'v' => some '\x0b'
  | 'f' => some '\x0c'
  | 'r' => some '\r'
  | 'e' => some '\x1b'
  | ' ' => some ' '
  | '"' => some '"'
  | '/' => some '/'
  | '\\' => some '\\'
  | 'N' => some '\u0085'
  | '_' => some '\u00a0'
  | 'L' => some '\u2028'
  | 'P' => some '\u2029'
  | _ => none

/-- The number of hexadecimal digits after a backslash and this letter. -/
def codeLength? : Char → Option Nat
  | 'x' => some 2
  | 'u' => some 4
  | 'U' => some 8
  | _ => none

def character? (code : Nat) : Option Char :=
  if code.isValidChar then some (Char.ofNat code) else none

/-- Where a quoted text is being read. -/
inductive Reading
  | gap (g : Gap)
  | escape
  /-- Inside a hexadecimal code. -/
  | code (digits value : Nat)

/-- The text up to the closing quote. A quote in single quotes is doubled. -/
def quoted? (q : Quote) : Reading → List Symbol → Read
  | _, [] => none
  | .gap g, s :: r =>
    if isBlank s.char then quoted? q (.gap (g.addBlank s.char)) r
    else if isBreak s.char then quoted? q (.gap (g.addBreak s.char)) r
    else if Symbol.isDocumentMark (s :: r) then none
    else if s.char = q.char then
      match q, r with
      | .single, t :: more =>
        if t.char = '\'' then (quoted? q (.gap (.blanks [])) more).after (g.text ++ ['\''])
        else some (g.text, t :: more)
      | _, rest => some (g.text, rest)
    else if q = .double && s.char = '\\' then (quoted? q .escape r).after g.text
    else (quoted? q (.gap (.blanks [])) r).after (g.text ++ [s.char])
  | .escape, s :: r =>
    if isBreak s.char then quoted? q (.gap (.breaks none [])) r
    else
      match escaped? s.char, codeLength? s.char with
      | some c, _ => (quoted? q (.gap (.blanks [])) r).after [c]
      | none, some digits => quoted? q (.code digits 0) r
      | none, none => none
  | .code digits value, s :: r =>
    match Radix.digit? s.char with
    | none => none
    | some d =>
      let value := 16 * value + d
      if 1 < digits then quoted? q (.code (digits - 1) value) r
      else
        match character? value with
        | some c => (quoted? q (.gap (.blanks [])) r).after [c]
        | none => none

/-! Plain scalars -/

/-- Characters that structure flow collections. -/
def separators : List Char := [',', '[', ']', '\x7b', '\x7d']

/-- Where a plain scalar stands. Outside of flow collections its lines are indented at least so
far. -/
structure Surroundings where
  flow : Bool
  indent : Nat

/-- Whether a colon or a separator ends a word here. -/
def endsPlain (at_ : Surroundings) (s : Symbol) (r : List Symbol) : Bool :=
  (s.char = ':' && Symbol.endsWord r) || (at_.flow && separators.contains s.char)

/-- A plain scalar, the symbols after it and after the gap that follows it, and whether that gap has
a line break. -/
def plain? (at_ : Surroundings) : Gap → List Symbol → Option (List Char × List Symbol × Bool)
  | g, [] => some ([], [], g.isBroken)
  | g, s :: r =>
    if isBlank s.char then
      if g.isBroken && s.char = '\t' && s.column < at_.indent then none
      else plain? at_ (g.addBlank s.char) r
    else if isBreak s.char then plain? at_ (g.addBreak s.char) r
    else if !g.isEmpty && (s.char = '#' || Symbol.isDocumentMark (s :: r) ||
        (!at_.flow && s.column < at_.indent)) then
      some ([], s :: r, g.isBroken)
    else if at_.flow && s.char = ':' && Symbol.next ('?' :: separators) r then none
    else if endsPlain at_ s r then some ([], s :: r, g.isBroken)
    else
      (plain? at_ (.blanks []) r).map fun (text, rest, broken) =>
        (g.text ++ s.char :: text, rest, broken)

/-! Block scalars -/

/-- What becomes of the line breaks at the end of a block. -/
inductive Chomp
  | strip
  | clip
  | keep
  deriving DecidableEq

structure BlockHeader where
  chomp : Chomp
  /-- How much deeper than its surroundings the block is indented, if that is said. -/
  deeper : Option Nat

def chomp? (text : List Symbol) : Option Chomp × List Symbol :=
  match text with
  | s :: r =>
    if s.char = '+' then (some .keep, r)
    else if s.char = '-' then (some .strip, r)
    else (none, s :: r)
  | [] => (none, [])

/-- An indentation is a digit other than zero. -/
def deeper? (text : List Symbol) : Option (Option Nat × List Symbol) :=
  match text with
  | s :: r =>
    if s.char = '0' then none
    else if s.char.isDigit then some (some (s.char.toNat - '0'.toNat), r)
    else some (none, s :: r)
  | [] => some (none, [])

/-- The two indicators may come in either order. -/
def blockHeader? (text : List Symbol) : Option (BlockHeader × List Symbol) := do
  let (before, rest) := chomp? text
  let (deeper, rest) ← deeper? rest
  let (after, rest) := if before.isNone && deeper.isSome then chomp? rest else (none, rest)
  return (⟨(before.or after).getD .clip, deeper⟩, ← Symbol.lineEnd? rest)

/-- Line breaks before the first line of a block, and the deepest column among them and of it. -/
def leadingBreaks? (deepest : Nat) : List Symbol → Option (List Char × Nat × List Symbol)
  | [] => some ([], deepest, [])
  | s :: r =>
    let deepest := max deepest s.column
    if s.char = ' ' then leadingBreaks? deepest r
    else if s.char = '\t' then none
    else if isBreak s.char then
      (leadingBreaks? deepest r).map fun (text, deepest, rest) => (s.char :: text, deepest, rest)
    else some ([], deepest, s :: r)

/-- Where a block is being read; a line that starts with a blank keeps the breaks around it. -/
inductive BlockReading
  | line (blank : Bool)
  | breaks (first : Option Char) (later : List Char) (blankBefore : Bool)

def joinLines (style : Style) (first : Option Char) (later : List Char) (blankNear : Bool) :
    List Char :=
  if style = .folded && first = some '\n' && !blankNear then
    if later.isEmpty then [' '] else later
  else first.toList ++ later

def Chomp.tail (c : Chomp) (first : Option Char) (later : List Char) : List Char :=
  match c with
  | strip => []
  | clip => first.toList
  | keep => first.toList ++ later

def blockLines? (style : Style) (chomp : Chomp) (indent : Nat) : BlockReading → List Symbol → Read
  | .line _, [] => some ([], [])
  | .line blank, s :: r =>
    if isBreak s.char then blockLines? style chomp indent (.breaks (some s.char) [] blank) r
    else (blockLines? style chomp indent (.line blank) r).after [s.char]
  | .breaks first later _, [] => some (chomp.tail first later, [])
  | .breaks first later blankBefore, s :: r =>
    if s.char = ' ' && s.column < indent then
      blockLines? style chomp indent (.breaks first later blankBefore) r
    else if s.char = '\t' && s.column < indent then none
    else if isBreak s.char then
      blockLines? style chomp indent (.breaks first (later ++ [s.char]) blankBefore) r
    else if s.column = indent then
      let blank := isBlank s.char
      (blockLines? style chomp indent (.line blank) r).after
        (joinLines style first later (blankBefore || blank) ++ [s.char])
    else some (chomp.tail first later, s :: r)

/-- The text of a block after its indicator, inside a collection at column `outer` if there is
one. -/
def block? (style : Style) (outer : Option Nat) (text : List Symbol) : Read := do
  let (header, rest) ← blockHeader? text
  match header.deeper with
  | some n =>
    blockLines? style header.chomp (outer.getD 0 + n) (.breaks none [] false) rest
  | none =>
    let (breaks, deepest, rest) ← leadingBreaks? 0 rest
    let indent := max deepest ((outer.map (· + 1)).getD 1)
    blockLines? style header.chomp indent (.breaks none breaks false) rest

end Windowing.Document
