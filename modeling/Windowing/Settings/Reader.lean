import Windowing.Radix
import Windowing.Settings.Basic
import Windowing.Settings.Document.Grammar

/-!
Settings from a document. What is left out keeps its default, unknown keys are ignored, and a known
key may be given only once. Numbers are unsigned and have 64 bits. Numbers and truth values are
plain scalars, whatever their tag, or literal blocks tagged as such.
-/
namespace Windowing
open Document

namespace Document.Scalar

def standardTag (name : String) : List Char := "tag:yaml.org,2002:".toList ++ name.toList

/-- Whether the text may stand for a value of the type with the given name. -/
def denotes (s : Scalar) (name : String) : Bool :=
  s.style = .plain || (s.style = .literal && s.tag = some (standardTag name))

/-- A plus sign may stand in front, `0x`, `0o` and `0b` choose another base, and a decimal number
has no leading zero. -/
def natural? (text : List Char) : Option Nat :=
  let digits := match text with
    | '+' :: r => r
    | r => r
  match digits with
  | '0' :: 'x' :: r => Radix.read? 16 r
  | '0' :: 'o' :: r => Radix.read? 8 r
  | '0' :: 'b' :: r => Radix.read? 2 r
  | '0' :: _ :: _ => none
  | r => Radix.read? 10 r

def unsigned? (s : Scalar) : Option Nat := if s.denotes "int" then natural? s.text else none

def boolean? (s : Scalar) : Option Bool :=
  if !s.denotes "bool" then none
  else if ["true", "True", "TRUE"].contains (String.ofList s.text) then some true
  else if ["false", "False", "FALSE"].contains (String.ofList s.text) then some false
  else none

def isNull (s : Scalar) : Bool := ["~", "null", "Null", "NULL"].contains (String.ofList s.text)

/-- A plain scalar without a tag may be empty to mean nothing. With the tag of null it has to be a
null, and with any other it has to be a number. -/
def optional? (s : Scalar) : Option (Option Nat) :=
  if s.style = .plain then
    match s.tag with
    | none => if s.text.isEmpty || s.isNull then some none else s.unsigned?.map some
    | some tag =>
      if tag = standardTag "null" then if s.isNull then some none else none
      else s.unsigned?.map some
  else s.unsigned?.map some

end Document.Scalar

namespace Settings

/-- Scalars under their keys. Only scalars are keys, of any style; what is no scalar is no value of
a known key. -/
abbrev Entries := List (String × Option Scalar)

def scalar? (anchors : List (Nat × Node)) (node : Node) : Option Scalar :=
  match node.resolve? anchors with
  | some (.scalar s) => some s
  | _ => none

/-- A document that is missing, or an empty plain scalar, has no entries. -/
def entries? : Option Node → Option Entries
  | none => some []
  | some root =>
    let anchors := root.anchors
    match root.resolve? anchors with
    | some (.mapping entries) =>
      entries.mapM fun (key, value) =>
        (scalar? anchors key).map fun s => (String.ofList s.text, scalar? anchors value)
    | some (.scalar s) => if s.style = .plain && s.text.isEmpty then some [] else none
    | _ => none

/-- The value under a key, or the default where the key is missing. -/
def field? (entries : Entries) (key : String) (read : Scalar → Option α) (default : α) : Option α :=
  match entries.filter fun e => e.1 = key with
  | [] => some default
  | [(_, value)] => value.bind read
  | _ => none

def ofEntries? (entries : Entries) : Option Settings := do
  let standard : Settings := {}
  return {
    minItemsPerWorker :=
      ← field? entries "min_items_per_worker" Scalar.unsigned? standard.minItemsPerWorker
    parallelSort := ← field? entries "parallel_sort" Scalar.boolean? standard.parallelSort
    threads := ← field? entries "num_threads" Scalar.optional? standard.threads
    memoryLimit := ← field? entries "memory_limit_bytes" Scalar.unsigned? standard.memoryLimit }

/-- Reads and checks. -/
def read (text : String) : Except SettingsError Settings :=
  match do ofEntries? (← entries? (← Node.ofText? text)) with
  | none => .error .unreadable
  | some s => s.check.map fun _ => s

end Settings
end Windowing
