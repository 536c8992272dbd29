import Windowing.Batch.Assembly
import Windowing.Execution

/-!
The window operator of a pipeline. It buffers the batches it is sent until the watermark that ends
the input; then it executes its definition over all of them and answers with one batch, followed by
that watermark. Watermarks before are dropped. The breaker may be shared, so each step takes it and
gives it back.
-/
namespace Windowing

inductive OperatorError
  | settings (e : SettingsError)
  | signature (e : SignatureError)
  | sourceWidth (cells fields : Nat)
  | unexpectedSchema
  | notOpen
  | window (e : WindowError)
  | assembly (e : AssemblyError)
  deriving DecidableEq

def OperatorError.message : OperatorError → String
  | settings e => e.message
  | signature e => e.message
  | sourceWidth cells fields =>
    s!"window definition expects {cells} source cells, input schema has {fields} fields"
  | unexpectedSchema => "unexpected input schema"
  | notOpen => "window operator is not open"
  | window e => e.message
  | assembly e => e.message

inductive Message
  | regular (sender : Option String) (batch : Batch)
  | watermark (sender : String) (value : Nat)
  deriving DecidableEq

namespace Message

/-- The watermark that ends the input. -/
def terminal : Nat := countLimit - 1

def batch? : Message → Option Batch
  | regular _ b => some b
  | watermark .. => none

def sender? : Message → Option String
  | regular u _ => u
  | watermark u _ => some u

end Message

/-- What an operator is in its pipeline. -/
inductive Role
  | source
  | sink
  | processor
  deriving DecidableEq

def Role.name : Role → String
  | source => "Source"
  | sink => "Sink"
  | processor => "Processor"

structure Operator where
  schema : Schema
  definition : Definition
  settings : Settings
  outputSchema : Schema
  executor : Option Executor := none
  buffered : List Batch := []
  /-- The first sender that any message named. -/
  sender : Option String := none
  deriving DecidableEq

/-- What a step leaves behind and answers. -/
structure Reply (α : Type) where
  operator : Operator
  breaker : Breaker
  answer : Guarded OperatorError α

namespace Operator

/-- Label of the operator's charges, and the name of a breaker of its own. -/
def label : String := "window_agg"

def role : Role := .processor

/-- An operator on a breaker shared with others; its settings are not checked here. -/
def sharing (schema : Schema) (definition : Definition) (settings : Settings) :
    Except OperatorError Operator := do
  if definition.width ≠ schema.width then
    .error (.sourceWidth definition.width schema.width)
  else
    let fields ← (definition.calls.mapM (Call.outputField · schema)).mapError .signature
    return { schema, definition, settings, outputSchema := schema.extend fields }

/-- An operator with a breaker of its own, of the limit that its settings name. -/
def alone (schema : Schema) (definition : Definition) (settings : Settings) :
    Except OperatorError (Operator × Breaker) := do
  settings.check.mapError OperatorError.settings
  let op ← sharing schema definition settings
  return (op, Breaker.ofLimit label settings.memoryLimit)

variable (op : Operator)

def «open» (offered : Nat) : Operator × Except OperatorError Unit :=
  match op.executor with
  | some _ => (op, .ok ())
  | none =>
    match Executor.ofSettings op.settings offered with
    | .ok x => ({ op with executor := some x }, .ok ())
    | .error e => (op, .error (.settings e))

def close : Operator := { op with executor := none, buffered := [] }

/-- The rows of the buffered batches, and the breaker once their account is closed. -/
def run (x : Executor) (b : Breaker) : Breaker × Guarded WindowError ResultRows :=
  match x.execute op.definition (.ofBatches op.buffered) .never (.accounted ⟨label, 0⟩ b) with
  | (.accounted a b, answer) => (a.close b, answer)
  | (.unaccounted, answer) => (b, answer)

/-- Empties the buffer as soon as the operator is known to be open, whatever happens then. -/
def flush (b : Breaker) : Reply Batch :=
  match op.executor with
  | none => ⟨op, b, .error (.error .notOpen)⟩
  | some x =>
    let (b, answer) := op.run x b
    ⟨{ op with buffered := [] }, b, do
      let r ← Guarded.mapError OperatorError.window answer
      Guarded.ofError ((Batch.assemble op.outputSchema r.rows).mapError .assembly)⟩

/-- Keeps a batch of the expected fields for later. -/
def accept (sender : Option String) (batch : Batch) : Operator × Except OperatorError Unit :=
  if batch.schema.fields = op.schema.fields then
    ({ op with sender := op.sender.or sender, buffered := op.buffered ++ [batch] }, .ok ())
  else (op, .error .unexpectedSchema)

/-- Answers nothing but to the watermark that ends the input. -/
def receive (b : Breaker) : Message → Reply (Option (List Message))
  | .regular sender batch =>
    let (op, answer) := op.accept sender batch
    ⟨op, b, Guarded.ofError (answer.map fun _ => none)⟩
  | .watermark sender value =>
    if value = Message.terminal then
      let reply := op.flush b
      ⟨reply.operator, reply.breaker, reply.answer.map fun batch =>
        some [.regular reply.operator.sender batch, .watermark sender value]⟩
    else ⟨op, b, .ok none⟩

end Operator
end Windowing
