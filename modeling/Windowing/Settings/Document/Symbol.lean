/-!
The characters of a document with their places. Line feeds, carriage returns, a pair of both and
next lines are one and the same line break; line and paragraph separators break lines too and stay
what they are. Control characters may stand nowhere.
-/
namespace Windowing.Document

structure Symbol where
  char : Char
  line : Nat
  column : Nat
  /-- Octets before it. -/
  offset : Nat
  deriving DecidableEq

def isAllowed (c : Char) : Bool :=
  let n := c.toNat
  n = 0x9 || n = 0xa || n = 0xd || (0x20 ≤ n && n ≤ 0x7e) || n = 0x85 || (0xa0 ≤ n && n ≤ 0xfffd)
    || 0x10000 ≤ n

def isBlank (c : Char) : Bool := c = ' ' || c = '\t'

def isBreak (c : Char) : Bool := c = '\n' || c = '\u2028' || c = '\u2029'

def unifyBreaks : List Char → List Char
  | '\r' :: '\n' :: r => '\n' :: unifyBreaks r
  | c :: r => (if c = '\r' || c = '\u0085' then '\n' else c) :: unifyBreaks r
  | [] => []

/-- The symbols of the characters from the given place on. -/
def placed (line column offset : Nat) : List Char → List Symbol
  | [] => []
  | c :: r =>
    let after := offset + c.utf8Size
    ⟨c, line, column, offset⟩
      :: if isBreak c then placed (line + 1) 0 after r else placed line (column + 1) after r

def symbols? (text : String) : Option (List Symbol) :=
  let chars := text.toList
  if chars.all isAllowed then some (placed 0 0 0 (unifyBreaks chars)) else none

namespace Symbol

/-- Whether the next symbol is one of the given characters. -/
def next (chars : List Char) (text : List Symbol) : Bool :=
  text.head?.any fun s => chars.contains s.char

/-- Nothing more on the line. -/
def endsLine (text : List Symbol) : Bool := text.head?.all fun s => isBreak s.char

/-- Nothing more of the word. -/
def endsWord (text : List Symbol) : Bool := text.head?.all fun s => isBlank s.char || isBreak s.char

def skipBlanks (text : List Symbol) : List Symbol := text.dropWhile fun s => isBlank s.char

/-- What follows the line, on which there may be nothing more but a comment. -/
def lineEnd? (text : List Symbol) : Option (List Symbol) :=
  let rest := skipBlanks text
  let rest := if next ['#'] rest then rest.dropWhile fun s => !isBreak s.char else rest
  if endsLine rest then some (rest.drop 1) else none

def begins (word : List Char) (text : List Symbol) : Bool :=
  (text.take word.length).map Symbol.char = word

/-- A word of three characters at the start of a line. -/
def isMark (word : List Char) (text : List Symbol) : Bool :=
  text.head?.any (·.column = 0) && begins word text && endsWord (text.drop word.length)

def startMark : List Char := ['-', '-', '-']

def endMark : List Char := ['.', '.', '.']

/-- A word that opens or closes a document, and so stands in no scalar. -/
def isDocumentMark (text : List Symbol) : Bool := isMark startMark text || isMark endMark text

end Symbol
end Windowing.Document
