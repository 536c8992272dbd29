import Windowing.Settings.Document.Node
import Windowing.Settings.Document.Token

/-!
Nodes out of tokens. A stream holds at most one document, which directives and marks may surround; a
stream without any has no node. Anchors are numbered by how many names of anchors were known before.
-/
namespace Windowing.Document

structure Stream where
  tokens : List Token
  /-- Names that directives give to families of tags, by handle. -/
  families : List (List Char × List Char) := []
  /-- Names of anchors with their present numbers. -/
  names : List (List Char × Nat) := []

abbrev Grammar := StateT Stream Option

namespace Grammar

def next : Grammar (Option Token) := return (← get).tokens.head?

def skip : Grammar Unit := modify fun s => { s with tokens := s.tokens.drop 1 }

/-- Whether one of the given tokens comes next. -/
def nextIn (tokens : List Token) : Grammar Bool := return (← next).any tokens.contains

/-- Skips a token if it comes next. -/
def accept (t : Token) : Grammar Bool := do
  if ← nextIn [t] then
    skip
    return true
  else return false

def expect (t : Token) : Grammar Unit := do
  if !(← accept t) then failure

/-! Properties -/

def setAnchor (name : List Char) : Grammar Nat := do
  let s ← get
  let number := s.names.length
  set { s with names := (name, number) :: s.names.filter fun (n, _) => n != name }
  return number

def anchorNumber (name : List Char) : Grammar Nat := do
  match (← get).names.lookup name with
  | some number => return number
  | none => failure

/-- Families that need no directive. -/
def standardFamilies : List (List Char × List Char) :=
  [(['!'], ['!']), (['!', '!'], "tag:yaml.org,2002:".toList)]

def fullName (t : Tag) : Grammar (List Char) := do
  if t.handle.isEmpty then return t.name
  else
    match ((← get).families ++ standardFamilies).lookup t.handle with
    | some family => return family ++ t.name
    | none => failure

def anchor : Grammar (Option (List Char)) := do
  match ← next with
  | some (.anchor name) =>
    skip
    return some name
  | _ => return none

def tag : Grammar (Option Tag) := do
  match ← next with
  | some (.tag t) =>
    skip
    return some t
  | _ => return none

/-- At most one anchor and one tag, in either order. -/
def properties : Grammar (Option (List Char) × Option (List Char)) := do
  let early ← anchor
  let named ← (← tag).mapM fullName
  let late ← if early.isNone && named.isSome then anchor else pure none
  return (early.or late, named)

/-! Nodes -/

/-- What a node may be where it is expected. -/
structure Place where
  /-- A block collection. -/
  block : Bool
  /-- A block sequence in the column of the key before it. -/
  level : Bool := false

def inFlow : Place := ⟨false, false⟩

def inSequence : Place := ⟨true, false⟩

def inMapping : Place := ⟨true, true⟩

/-- Nothing, if one of the given tokens comes next. -/
def orAbsent (ends : List Token) (node : Grammar Node) : Grammar Node := do
  if ← nextIn ends then return .absent else node

/-- The value of a key; without its mark there is none. -/
def valueOf (ends : List Token) (node : Grammar Node) : Grammar Node := do
  if ← accept .value then orAbsent ends node else return .absent

def itemEnds : List Token := [.item, .blockEnd]

def entryEnds : List Token := [.key, .value, .blockEnd]

def levelEnds : List Token := [.item, .key, .value, .blockEnd]

def flowItemEnds : List Token := [.comma, .flowSequenceEnd]

def flowEntryEnds : List Token := [.comma, .flowMappingEnd]

/-- Between the members of a flow collection stand commas. -/
def separator (first : Bool) : Grammar Unit := do
  if !first then expect .comma

/- Each call may nest or repeat as often as there is fuel, which tokens bound. -/
mutual

def node (place : Place) (fuel : Nat) : Grammar Node := do
  match fuel with
  | 0 => failure
  | fuel + 1 =>
    match ← next with
    | some (.reference name) =>
      skip
      return .reference (← anchorNumber name)
    | _ =>
      let (anchor, tag) ← properties
      let number ← anchor.mapM setAnchor
      let lacking := if anchor.isSome || tag.isSome then some (.scalar ⟨.plain, tag, []⟩) else none
      let node ← content place tag lacking fuel
      return number.elim node (.anchored · node)

/-- A node after its properties, or what they make of none. -/
def content (place : Place) (tag : Option (List Char)) (lacking : Option Node) (fuel : Nat) :
    Grammar Node := do
  match fuel with
  | 0 => failure
  | fuel + 1 =>
    match ← next with
    | some (.scalar style text) =>
      skip
      return .scalar ⟨style, tag, text⟩
    | some .flowSequence =>
      skip
      return .sequence (← flowItems true fuel)
    | some .flowMapping =>
      skip
      return .mapping (← flowEntries true fuel)
    | t =>
      if place.block && t = some .blockSequence then
        skip
        return .sequence (← blockItems fuel)
      else if place.block && t = some .blockMapping then
        skip
        return .mapping (← blockEntries fuel)
      else if place.level && t = some .item then return .sequence (← levelItems fuel)
      else lacking

def blockItems (fuel : Nat) : Grammar (List Node) := do
  match fuel with
  | 0 => failure
  | fuel + 1 =>
    if ← accept .blockEnd then return []
    else
      expect .item
      let item ← orAbsent itemEnds (node inSequence fuel)
      return item :: (← blockItems fuel)

/-- A sequence in the column of its key has no end of its own. -/
def levelItems (fuel : Nat) : Grammar (List Node) := do
  match fuel with
  | 0 => failure
  | fuel + 1 =>
    if ← accept .item then
      let item ← orAbsent levelEnds (node inSequence fuel)
      return item :: (← levelItems fuel)
    else return []

def blockEntries (fuel : Nat) : Grammar (List (Node × Node)) := do
  match fuel with
  | 0 => failure
  | fuel + 1 =>
    if ← accept .blockEnd then return []
    else
      expect .key
      let key ← orAbsent entryEnds (node inMapping fuel)
      let value ← valueOf entryEnds (node inMapping fuel)
      return (key, value) :: (← blockEntries fuel)

/-- An item with the mark of a key is a mapping of one entry; if its key is left out, the token in
the key's place is left out too. -/
def flowItems (first : Bool) (fuel : Nat) : Grammar (List Node) := do
  match fuel with
  | 0 => failure
  | fuel + 1 =>
    if ← accept .flowSequenceEnd then return []
    else
      separator first
      if ← accept .flowSequenceEnd then return []
      else
        let item ←
          if ← accept .key then do
            let key ←
              if ← nextIn (.value :: flowItemEnds) then do
                skip
                pure .absent
              else node inFlow fuel
            let value ← valueOf flowItemEnds (node inFlow fuel)
            pure (.mapping [(key, value)])
          else node inFlow fuel
        return item :: (← flowItems false fuel)

/-- A member without the mark of a key is a key without a value. -/
def flowEntries (first : Bool) (fuel : Nat) : Grammar (List (Node × Node)) := do
  match fuel with
  | 0 => failure
  | fuel + 1 =>
    if ← accept .flowMappingEnd then return []
    else
      separator first
      if ← accept .flowMappingEnd then return []
      else
        let entry ←
          if ← accept .key then do
            let key ← orAbsent (.value :: flowEntryEnds) (node inFlow fuel)
            let value ← valueOf flowEntryEnds (node inFlow fuel)
            pure (key, value)
          else do
            let key ← node inFlow fuel
            pure (key, .absent)
        return entry :: (← flowEntries false fuel)

end

/-! Documents -/

/-- The directives before a document: at most one version, which has to be 1.1 or 1.2, and at most
one name for each family. -/
def directives (versioned : Bool) : (fuel : Nat) → Grammar Unit
  | 0 => failure
  | fuel + 1 => do
    match ← next with
    | some (.directive (.version major minor)) =>
      skip
      if versioned || major != 1 || (minor != 1 && minor != 2) then failure
      else directives true fuel
    | some (.directive (.family handle name)) =>
      skip
      let s ← get
      if (s.families.lookup handle).isSome then failure
      else
        set { s with families := (handle, name) :: s.families }
        directives versioned fuel
    | _ => return

def isDirective : Token → Bool
  | .directive _ => true
  | _ => false

/-- A document is opened by a mark if directives come before it. -/
def root (fuel : Nat) : Grammar Node := do
  let t ← next
  if t = some .documentStart || t.any isDirective then
    directives false fuel
    expect .documentStart
    let t ← next
    if t.isNone || t.any isDirective || t = some .documentStart || t = some .documentEnd then
      return .absent
    else node inSequence fuel
  else node inSequence fuel

/-- The only document of the stream, if there is one. -/
def stream (fuel : Nat) : Grammar (Option Node) := do
  if (← get).tokens.isEmpty then return none
  else
    let node ← root fuel
    if (← get).tokens.all (· = .documentEnd) then return some node else failure

end Grammar

/-- Six calls are enough for each token. -/
def Node.ofTokens? (tokens : List Token) : Option (Option Node) :=
  (Grammar.stream (6 * tokens.length + 6)).run' { tokens }

/-- The document of a text: nothing for a malformed text, and no node for a text without a
document. -/
def Node.ofText? (text : String) : Option (Option Node) := do
  Node.ofTokens? (← Token.ofSymbols? (← symbols? text))

end Windowing.Document
