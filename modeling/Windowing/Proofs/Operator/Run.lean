import Windowing.Operator
import Windowing.Proofs.Execution
import Windowing.Proofs.Signature

/-!
Runs of an operator from its construction on, up to its closing. What it was made with stays, and
every batch it holds has the fields of its schema and columns of their types.
-/
namespace Windowing.Operator

/-- What happens to an open or unopened operator. Others may charge the breaker between two
messages. -/
inductive Step
  | opened (offered : Nat)
  | received (breaker : Breaker) (message : Message)

def Step.Valid : Step → Prop
  | .received _ (.regular _ b) => b.Valid
  | _ => True

instance : (s : Step) → Decidable s.Valid
  | .received _ (.regular _ b) => inferInstanceAs (Decidable b.Valid)
  | .received _ (.watermark _ _) => .isTrue trivial
  | .opened _ => .isTrue trivial

def take (op : Operator) : Step → Operator
  | .opened offered => (op.open offered).1
  | .received breaker message => (op.receive breaker message).operator

def through (op : Operator) (steps : List Step) : Operator := steps.foldl take op

def reserved (op : Operator) (d : Definition) : List Row :=
  (rowsOf op.buffered).map (Batch.reserve · d.calls.length)

/-- What construction checks and every step keeps. -/
structure Serves (op : Operator) (schema : Schema) (d : Definition) : Prop where
  schema_eq : op.schema = schema
  definition_eq : op.definition = d
  width_eq : d.width = schema.width
  checked : ∀ c ∈ d.calls, ∃ t, c.resultType schema = .ok t
  output : ∃ more, op.outputSchema.fields = schema.fields ++ more
  fields : ∀ b ∈ op.buffered, b.schema.fields = schema.fields
  valid : ∀ b ∈ op.buffered, b.Valid

variable {op : Operator} {schema : Schema} {d : Definition} {settings : Settings}

theorem serves_of_sharing (built : sharing schema d settings = .ok op) : op.Serves schema d := by
  unfold sharing at built
  split at built
  · cases built
  · rename_i width
    obtain ⟨fields, outputs, built⟩ := bind_eq_ok_iff.mp built
    obtain rfl := Except.ok.inj built
    have each := mapM_eq_ok (mapError_eq_ok_iff.mp outputs)
    refine ⟨rfl, rfl, Decidable.not_not.mp width, fun c member => ?_, ⟨fields, rfl⟩,
      fun b absent => ?_,
      fun b absent => ?_⟩
    · obtain ⟨k, hk, rfl⟩ := List.mem_iff_getElem.mp member
      obtain ⟨field, named, -⟩ := each.2 k _ (List.getElem?_eq_getElem hk)
      obtain ⟨t, typed, -⟩ := bind_eq_ok_iff.mp named
      exact ⟨t, typed⟩
    · cases absent
    · cases absent

def Accepted (schema : Schema) (d : Definition) (settings : Settings) (op : Operator) : Prop :=
  sharing schema d settings = .ok op ∨ ∃ own, alone schema d settings = .ok (op, own)

namespace Accepted

variable (accepted : Accepted schema d settings op)

include accepted

/-- With a breaker of its own an operator is what it would be on a shared one. -/
theorem shared : sharing schema d settings = .ok op := by
  rcases accepted with built | ⟨own, built⟩
  · exact built
  · obtain ⟨_, -, built⟩ := bind_eq_ok_iff.mp built
    obtain ⟨made, shared, built⟩ := bind_eq_ok_iff.mp built
    obtain ⟨rfl, -⟩ := Prod.mk.inj (Except.ok.inj built)
    exact shared

theorem serves : op.Serves schema d := serves_of_sharing accepted.shared

/-- It is unopened, and no message has reached it. -/
theorem fresh : ∃ output, op = { schema, definition := d, settings, outputSchema := output } := by
  have built := accepted.shared
  unfold sharing at built
  split at built
  · cases built
  · obtain ⟨fields, -, built⟩ := bind_eq_ok_iff.mp built
    exact ⟨_, (Except.ok.inj built).symm⟩

theorem buffered : op.buffered = [] := by
  obtain ⟨output, rfl⟩ := accepted.fresh
  rfl

end Accepted

/-- What a flush leaves behind: an operator that is open has given up its buffer. -/
theorem flush_operator (op : Operator) (b : Breaker) :
    (op.flush b).operator = if op.executor.isSome then { op with buffered := [] } else op := by
  rw [flush]
  cases h : op.executor <;> simp

/-- Closing the account leaves the answer of an execution as it is. -/
theorem run_answer (op : Operator) (x : Executor) (b : Breaker) :
    (op.run x b).2 =
      (x.execute op.definition (.ofBatches op.buffered) .never (.accounted ⟨label, 0⟩ b)).2 := by
  rw [run]
  cases x.execute op.definition (.ofBatches op.buffered) .never (.accounted ⟨label, 0⟩ b) with
  | mk after answer => cases after <;> rfl

/-- An open operator executes what it holds and builds one batch of that. -/
theorem flush_open {x : Executor} (available : op.executor = some x) (b : Breaker) :
    (op.flush b).answer = (Guarded.mapError OperatorError.window
        (x.execute op.definition (.ofBatches op.buffered) .never (.accounted ⟨label, 0⟩ b)).2 >>=
      fun r => Guarded.ofError
        ((Batch.assemble op.outputSchema r.rows).mapError OperatorError.assembly)) := by
  rw [flush, available]
  dsimp only
  rw [run_answer]

/-- The watermark that ends the input. -/
theorem receive_terminal (op : Operator) (b : Breaker) (sender : String) :
    op.receive b (.watermark sender Message.terminal) =
      ⟨(op.flush b).operator, (op.flush b).breaker, (op.flush b).answer.map fun batch =>
        some [.regular (op.flush b).operator.sender batch,
          .watermark sender Message.terminal]⟩ := by
  rw [receive, if_pos rfl]

/-- A watermark before. -/
theorem receive_dropped {value : Nat} (before : value ≠ Message.terminal) (op : Operator)
    (b : Breaker) (sender : String) :
    op.receive b (.watermark sender value) = ⟨op, b, .ok none⟩ := by
  rw [receive, if_neg before]

theorem Serves.take (serves : op.Serves schema d) {step : Step} (valid : step.Valid) :
    (op.take step).Serves schema d := by
  cases step with
  | opened offered =>
    show (op.open offered).1.Serves schema d
    rw [«open»]
    split
    · exact serves
    · cases Executor.ofSettings op.settings offered with
      | ok x =>
        exact ⟨serves.schema_eq, serves.definition_eq, serves.width_eq, serves.checked,
          serves.output, serves.fields,
          serves.valid⟩
      | error e => exact serves
  | received b m =>
    cases m with
    | regular sender batch =>
      simp only [Operator.take, receive, accept]
      split
      · rename_i same
        refine ⟨serves.schema_eq, serves.definition_eq, serves.width_eq, serves.checked,
          serves.output, ?_, ?_⟩
        · exact List.forall_mem_append.mpr ⟨serves.fields, by simp [same, serves.schema_eq]⟩
        · exact List.forall_mem_append.mpr ⟨serves.valid, List.forall_mem_singleton.mpr valid⟩
      · exact serves
    | watermark sender value =>
      rw [Operator.take]
      by_cases last : value = Message.terminal
      · rw [last, receive_terminal, flush_operator]
        split
        · exact ⟨serves.schema_eq, serves.definition_eq, serves.width_eq, serves.checked,
            serves.output,
            by simp, by simp⟩
        · exact serves
      · rw [receive_dropped last]
        exact serves

theorem Serves.through (serves : op.Serves schema d) {steps : List Step}
    (valid : ∀ step ∈ steps, step.Valid) : (op.through steps).Serves schema d := by
  induction steps generalizing op with
  | nil => exact serves
  | cons step steps ih =>
    obtain ⟨first, rest⟩ := List.forall_mem_cons.mp valid
    exact ih (serves.take first) rest

namespace Serves

variable (serves : op.Serves schema d)

include serves

theorem delivers : Delivers (schema.fields.map Field.type) op.buffered :=
  ⟨serves.valid, fun b member => by rw [serves.fields b member]⟩

theorem width_types : d.width = (schema.fields.map Field.type).length := by
  rw [List.length_map]
  exact serves.width_eq

theorem reserved_rows : ∀ row ∈ op.reserved d, row.HasTypes (schema.fields.map Field.type) ∧
    row.length = d.width + d.calls.length := by
  rw [serves.width_types]
  exact Batch.reserve_rows serves.delivers.row_types

/-- What a flush answers, if the operator is open: the batch of what is computed of all rows. -/
theorem flush_answer {x : Executor} (available : op.executor = some x) (b : Breaker) :
    (op.flush b).answer =
      match ((Accounting.accounted ⟨label, 0⟩ b).chargeAll (rowsOf op.buffered)).2 with
      | .error e => .error (.error (.window (.budget e)))
      | .ok _ =>
        Guarded.mapError OperatorError.window (x.compute d (op.reserved d)) >>= fun rows =>
        Guarded.ofError ((Batch.assemble op.outputSchema rows).mapError .assembly) := by
  have widths : ∀ c ∈ op.buffered, c.width = d.width := by
    intro c member
    exact (serves.delivers.width_eq c member).trans serves.width_types.symm
  have executed :=
    @Executor.execute_eq x d op.buffered false .never (.accounted ⟨label, 0⟩ b) widths rfl
  rw [flush_open available, serves.definition_eq, Source.ofBatches, executed]
  cases ((Accounting.accounted ⟨label, 0⟩ b).chargeAll (rowsOf op.buffered)).2 with
  | error e => rfl
  | ok _ =>
    dsimp only
    rw [← reserved]
    cases x.compute d (op.reserved d) <;> rfl

end Serves
end Windowing.Operator
