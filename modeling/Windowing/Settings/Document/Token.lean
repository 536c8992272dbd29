import Windowing.Settings.Document.Property
import Windowing.Settings.Document.Scalar

/-!
Tokens of a document. Outside of flow collections, columns tell where block collections open and
close. A key needs no mark of its own: where one may begin is remembered, and when a colon follows
it on the same line the mark is put there, together with the start of a block mapping if the key
stands deeper than the collections around it.
-/
namespace Windowing.Document

inductive Token
  | directive (d : Directive)
  | documentStart
  | documentEnd
  | blockSequence
  | blockMapping
  | blockEnd
  | flowSequence
  | flowSequenceEnd
  | flowMapping
  | flowMappingEnd
  | item
  | comma
  | key
  | value
  /-- An alias of the anchored node with the name. -/
  | reference (name : List Char)
  | anchor (name : List Char)
  | tag (t : Tag)
  | scalar (style : Style) (text : List Char)
  deriving DecidableEq

/-- A place where a key may begin. -/
structure PossibleKey where
  start : Symbol
  /-- In a block mapping's own column nothing but a key can stand. -/
  required : Bool
  /-- Number of tokens before it. -/
  position : Nat
  deriving DecidableEq

/-- Whether it is too late for a colon to make this a key: keys stand on one line and are not longer
than 1024 octets. -/
def PossibleKey.lapsed (k : PossibleKey) (s : Symbol) : Bool :=
  k.start.line < s.line || k.start.offset + 1024 < s.offset

/-- The tokens read so far and what the next one may be. -/
structure Scan where
  /-- The latest first. -/
  tokens : List Token := []
  /-- Columns of the open block collections, innermost first. -/
  blocks : List Nat := []
  /-- The place where the key in the present collection may begin, if a key may have begun. -/
  possibleKey : Option PossibleKey := none
  /-- The same for the collections around each open flow collection, innermost first. -/
  outerKeys : List (Option PossibleKey) := []
  /-- Whether a key may begin here. -/
  keyAllowed : Bool := true

/-- What a step leaves behind, and the symbols after it. -/
abbrev Step := Option (Scan × List Symbol)

namespace Scan

variable (sc : Scan)

def inFlow : Bool := !sc.outerKeys.isEmpty

def push (t : Token) : Scan := { sc with tokens := t :: sc.tokens }

def allowKey (allowed : Bool) : Scan := { sc with keyAllowed := allowed }

/-- Gives up the place where a key may begin; fails if a key is required there. -/
def dropKey? : Option Scan :=
  if sc.possibleKey.any (·.required) then none else some { sc with possibleKey := none }

/-- Remembers the place, if a key may begin there. -/
def noteKey? (s : Symbol) : Option Scan :=
  if sc.keyAllowed then do
    let required := !sc.inFlow && sc.blocks.head? = some s.column
    return { ← sc.dropKey? with possibleKey := some ⟨s, required, sc.tokens.length⟩ }
  else some sc

/-- Gives up the places that have lapsed. -/
def lapse? (s : Symbol) : Option Scan :=
  let lapsed (k : Option PossibleKey) : Bool := k.any (·.lapsed s)
  let keys := sc.possibleKey :: sc.outerKeys
  if keys.any fun k => lapsed k && k.any (·.required) then none
  else
    let kept (k : Option PossibleKey) := if lapsed k then none else k
    some { sc with possibleKey := kept sc.possibleKey, outerKeys := sc.outerKeys.map kept }

/-- Closes the block collections that stand deeper than a column, or all. -/
def closeBlocks (column : Option Nat) : Scan :=
  if sc.inFlow then sc
  else
    let (closed, opened) := sc.blocks.span fun b => column.all (· < b)
    { sc with tokens := List.replicate closed.length .blockEnd ++ sc.tokens, blocks := opened }

/-- Whether a collection at the column would be a new one. -/
def opensBlock (column : Nat) : Bool := !sc.inFlow && sc.blocks.head?.all (· < column)

def openBlock (column : Nat) (t : Token) : Scan :=
  if sc.opensBlock column then { sc.push t with blocks := column :: sc.blocks } else sc

/-- Puts the mark of a key where it began. -/
def markKey (k : PossibleKey) : Scan :=
  let later := sc.tokens.length - k.position
  let opens := sc.opensBlock k.start.column
  { sc with
    tokens := sc.tokens.take later ++ .key :: (if opens then [.blockMapping] else [])
      ++ sc.tokens.drop later
    blocks := if opens then k.start.column :: sc.blocks else sc.blocks
    possibleKey := none
    keyAllowed := false }

def documentMark (t : Token) (rest : List Symbol) : Step := do
  let sc ← (sc.closeBlocks none).dropKey?
  return ((sc.allowKey false).push t, rest.drop 2)

def directive (rest : List Symbol) : Step := do
  let sc ← (sc.closeBlocks none).dropKey?
  let (d, rest) ← directive? rest
  return ((sc.allowKey false).push (.directive d), rest)

def openFlow (t : Token) (s : Symbol) (rest : List Symbol) : Step := do
  let sc ← sc.noteKey? s
  let inner := { sc with possibleKey := none, outerKeys := sc.possibleKey :: sc.outerKeys }
  return ((inner.allowKey true).push t, rest)

def closeFlow (t : Token) (rest : List Symbol) : Step := do
  let sc ← sc.dropKey?
  let outer := match sc.outerKeys with
    | k :: keys => { sc with possibleKey := k, outerKeys := keys }
    | [] => sc
  return ((outer.allowKey false).push t, rest)

def comma (rest : List Symbol) : Step := do
  return (((← sc.dropKey?).allowKey true).push .comma, rest)

def item (s : Symbol) (rest : List Symbol) : Step := do
  if !sc.inFlow && !sc.keyAllowed then none
  else
    let sc ← (sc.openBlock s.column .blockSequence).dropKey?
    return ((sc.allowKey true).push .item, rest)

def key (s : Symbol) (rest : List Symbol) : Step := do
  if !sc.inFlow && !sc.keyAllowed then none
  else
    let sc ← (sc.openBlock s.column .blockMapping).dropKey?
    return ((sc.allowKey !sc.inFlow).push .key, rest)

def value (s : Symbol) (rest : List Symbol) : Step :=
  match sc.possibleKey with
  | some k => some ((sc.markKey k).push .value, rest)
  | none =>
    if !sc.inFlow && !sc.keyAllowed then none
    else
      let sc := sc.openBlock s.column .blockMapping
      some ((sc.allowKey !sc.inFlow).push .value, rest)

/-- An anchor, an alias or a tag. -/
def property (s : Symbol) (read : Option (Token × List Symbol)) : Step := do
  let sc ← sc.noteKey? s
  let (t, rest) ← read
  return ((sc.allowKey false).push t, rest)

def quoted (q : Quote) (s : Symbol) (rest : List Symbol) : Step := do
  let sc ← sc.noteKey? s
  let (text, rest) ← quoted? q (.gap (.blanks [])) rest
  return ((sc.allowKey false).push (.scalar .quoted text), rest)

def block (style : Style) (rest : List Symbol) : Step := do
  let sc ← sc.dropKey?
  let (text, rest) ← block? style sc.blocks.head? rest
  return ((sc.allowKey true).push (.scalar style text), rest)

/-- After the line break that ends a plain scalar, a key may begin. -/
def plain (s : Symbol) (text : List Symbol) : Step := do
  let sc ← sc.noteKey? s
  let surroundings := ⟨sc.inFlow, (sc.blocks.head?.map (· + 1)).getD 0⟩
  let (text, rest, broken) ← plain? surroundings (.blanks []) text
  return ((sc.allowKey broken).push (.scalar .plain text), rest)

/-- Characters that begin something else than a plain scalar. -/
def indicators : List Char :=
  ['-', '?', ':', ',', '[', ']', '\x7b', '\x7d', '#', '&', '*', '!', '|', '>', '\'', '"', '%', '@',
   '\x60']

def beginsPlain (flow : Bool) (s : Symbol) (rest : List Symbol) : Bool :=
  (!isBlank s.char && !indicators.contains s.char)
    || (s.char = '-' && !Symbol.next [' ', '\t'] rest)
    || (!flow && (s.char = '?' || s.char = ':') && !Symbol.endsWord rest)

/-- The next token, which begins with `s`. -/
def step (s : Symbol) (rest : List Symbol) : Step :=
  let sc := sc.closeBlocks (some s.column)
  let marked := sc.inFlow || Symbol.endsWord rest
  if s.column = 0 && s.char = '%' then sc.directive rest
  else if Symbol.isMark Symbol.startMark (s :: rest) then sc.documentMark .documentStart rest
  else if Symbol.isMark Symbol.endMark (s :: rest) then sc.documentMark .documentEnd rest
  else
    match s.char with
    | '[' => sc.openFlow .flowSequence s rest
    | '\x7b' => sc.openFlow .flowMapping s rest
    | ']' => sc.closeFlow .flowSequenceEnd rest
    | '\x7d' => sc.closeFlow .flowMappingEnd rest
    | ',' => sc.comma rest
    | '*' => sc.property s ((anchor? rest).map fun (name, rest) => (.reference name, rest))
    | '&' => sc.property s ((anchor? rest).map fun (name, rest) => (.anchor name, rest))
    | '!' => sc.property s ((tag? sc.inFlow rest).map fun (t, rest) => (.tag t, rest))
    | '\'' => sc.quoted .single s rest
    | '"' => sc.quoted .double s rest
    | c =>
      if c = '-' && Symbol.endsWord rest then sc.item s rest
      else if c = '?' && marked then sc.key s rest
      else if c = ':' && marked then sc.value s rest
      else if c = '|' && !sc.inFlow then sc.block .literal rest
      else if c = '>' && !sc.inFlow then sc.block .folded rest
      else if beginsPlain sc.inFlow s rest then sc.plain s (s :: rest)
      else none

/-- Skips blanks, comments and line breaks, and a byte order mark at the start of a line. Outside of
flow collections a new line may begin with a key, and where a key may begin a tab is no blank. -/
def skipSpace : Scan → (comment : Bool) → List Symbol → Scan × List Symbol
  | sc, _, [] => (sc, [])
  | sc, comment, s :: r =>
    if isBreak s.char then skipSpace (sc.allowKey (sc.keyAllowed || !sc.inFlow)) false r
    else if comment || s.char = '#' then skipSpace sc true r
    else if s.char = ' ' || (s.char = '\t' && (sc.inFlow || !sc.keyAllowed))
        || (s.char = '\ufeff' && s.column = 0) then
      skipSpace sc false r
    else (sc, s :: r)

/-- All tokens. Each step reads some symbol. -/
def tokensFrom? (sc : Scan) (text : List Symbol) : Option (List Token) :=
  match sc.skipSpace false text with
  | (sc, []) => do return (← (sc.closeBlocks none).dropKey?).tokens.reverse
  | (sc, s :: rest) =>
    match (sc.lapse? s).bind fun sc => sc.step s rest with
    | some (sc, rest) => if rest.length < text.length then tokensFrom? sc rest else none
    | none => none
termination_by text.length

end Scan

def Token.ofSymbols? (text : List Symbol) : Option (List Token) := Scan.tokensFrom? {} text

end Windowing.Document
