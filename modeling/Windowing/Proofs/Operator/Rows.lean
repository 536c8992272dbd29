import Windowing.Proofs.Assembly
import Windowing.Proofs.Operator.Run

/-!
Which rows an operator puts out. A terminal watermark that finds it open takes all batches it holds,
and whether it succeeds or not they are gone then; one that finds it unopened takes none. So a batch
that is put out has a row for every row that was accepted since the last terminal watermark that
found the operator open.
-/
namespace Windowing

namespace Operator

def foundOpen : Guarded OperatorError α → Bool
  | .error (.error .notOpen) => false
  | _ => true

/-- What `held` becomes in a step: an accepted batch joins it, and a terminal watermark takes all of
it if its answer is one that `takes`. -/
def holdAfter (takes : Guarded OperatorError (Option (List Message)) → Bool) (op : Operator)
    (held : List Batch) : Step → List Batch
  | .opened _ => held
  | .received b (.regular sender batch) =>
    if (op.receive b (.regular sender batch)).answer.isOk then held ++ [batch] else held
  | .received b (.watermark sender value) =>
    if value = Message.terminal ∧
      takes (op.receive b (.watermark sender value)).answer then [] else held

/-- The batches of a run that were accepted after the last terminal watermark whose answer
`takes`. -/
def outstanding (takes : Guarded OperatorError (Option (List Message)) → Bool) :
    Operator → List Batch → List Step → List Batch
  | _, held, [] => held
  | op, held, step :: steps => outstanding takes (op.take step) (op.holdAfter takes held step) steps

variable {op : Operator} {schema : Schema} {d : Definition} {settings : Settings}

theorem foundOpen_map {α β : Type} (f : α → β) (answer : Guarded OperatorError α) :
    foundOpen (answer.map f) = foundOpen answer := by
  cases answer with
  | ok a => rfl
  | error e =>
    cases e with
    | defect d => rfl
    | error e => cases e <;> rfl

/-- An open operator is never reported as unopened. -/
theorem foundOpen_flush (op : Operator) (b : Breaker) :
    foundOpen (op.flush b).answer = op.executor.isSome := by
  rw [flush]
  cases op.executor with
  | none => rfl
  | some x =>
    dsimp only
    cases (op.run x b).2 with
    | error e => cases e <;> rfl
    | ok r =>
      simp only [Guarded.mapError_ok, ok_bind]
      cases Batch.assemble op.outputSchema r.rows <;> rfl

theorem buffered_take (op : Operator) (step : Step) :
    (op.take step).buffered = op.holdAfter foundOpen op.buffered step := by
  cases step with
  | opened offered =>
    show (op.open offered).1.buffered = op.buffered
    rw [«open»]
    split
    · rfl
    · cases Executor.ofSettings op.settings offered <;> rfl
  | received b m =>
    cases m with
    | regular sender batch =>
      simp only [take, holdAfter, receive, accept]
      split <;> rfl
    | watermark sender value =>
      rw [take, holdAfter]
      by_cases last : value = Message.terminal
      · rw [last, receive_terminal, flush_operator]
        dsimp only
        rw [foundOpen_map, foundOpen_flush]
        cases op.executor <;> rfl
      · rw [receive_dropped last, if_neg fun taken => last taken.1]

/-- What an operator holds is what its run left outstanding. -/
theorem buffered_through (op : Operator) (steps : List Step) :
    (op.through steps).buffered = outstanding foundOpen op op.buffered steps := by
  induction steps generalizing op with
  | nil => rfl
  | cons step steps ih =>
    show ((op.take step).through steps).buffered = _
    rw [ih, outstanding, buffered_take]

namespace Serves

variable (serves : op.Serves schema d)

include serves

theorem take_reserved : (op.reserved d).map (List.take d.width) = rowsOf op.buffered := by
  refine Batch.map_take_reserve (fun row member => ?_) d.calls.length
  rw [serves.delivers.row_length row member, serves.width_types]

/-- A flush that succeeds puts out all rows. -/
theorem flush_perm {b : Breaker} {out : Batch} (flushed : (op.flush b).answer = .ok out) :
    (out.rows.map (List.take schema.width)).Perm (rowsOf op.buffered) := by
  cases available : op.executor with
  | none =>
    rw [flush, available] at flushed
    cases flushed
  | some x =>
    rw [serves.flush_answer available] at flushed
    split at flushed
    · cases flushed
    · obtain ⟨computed, done, built⟩ := bind_eq_ok_iff.mp flushed
      have rows := Executor.compute_perm (Guarded.mapError_eq_ok_iff.mp done)
      rw [serves.take_reserved, serves.width_eq] at rows
      obtain ⟨more, output⟩ := serves.output
      have leading : op.outputSchema.fields.take schema.width = schema.fields := by
        rw [output, Schema.width, List.take_left]
      have typed : ∀ row ∈ computed, (row.take schema.width).map Cell.type =
          (op.outputSchema.fields.take schema.width).map Field.type := by
        intro row member
        rw [leading]
        exact serves.delivers.row_types _ (rows.mem_iff.mp (List.mem_map_of_mem member))
      rw [Batch.take_assemble (mapError_eq_ok_iff.mp (Guarded.ofError_eq_ok_iff.mp built)) typed]
      exact rows

end Serves

/-- An operator holds what was accepted since the last terminal watermark that found it open. Every
batch that is put out has just the rows of that, with their cells as they came. -/
theorem receive_puts_out (accepted : Accepted schema d settings op) {steps : List Step}
    (valid : ∀ step ∈ steps, step.Valid) :
    (op.through steps).buffered = outstanding foundOpen op [] steps ∧
      ∀ (b : Breaker) (sender : String) messages,
        ((op.through steps).receive b (.watermark sender Message.terminal)).answer = .ok messages →
        ∃ (upstream : Option String) (out : Batch),
          messages = some [.regular upstream out, .watermark sender Message.terminal] ∧
            (out.rows.map (List.take schema.width)).Perm
              (rowsOf (outstanding foundOpen op [] steps)) := by
  have serves := accepted.serves.through valid
  have held : (op.through steps).buffered = outstanding foundOpen op [] steps := by
    rw [buffered_through, accepted.buffered]
  refine ⟨held, ?_⟩
  intro b sender messages answered
  rw [receive_terminal] at answered
  cases flushed : ((op.through steps).flush b).answer with
  | error e =>
    rw [flushed] at answered
    cases answered
  | ok out =>
    rw [flushed] at answered
    obtain rfl := Except.ok.inj answered
    exact ⟨_, out, rfl, held ▸ serves.flush_perm flushed⟩

/-- A watermark that comes too early takes nothing; the rows from before it are put out with those
after. -/
theorem receive_puts_out_after_opening :
    let schema : Schema := ⟨[⟨"x", .int64, true⟩], []⟩
    let d : Definition := ⟨1, [⟨.count, []⟩], none, none⟩
    let op : Operator :=
      { schema, definition := d, settings := {},
        outputSchema := schema.extend [⟨"count", .int64, true⟩] }
    let b := Breaker.unlimited label
    let steps : List Step :=
      [.received b (.regular (some "a") ⟨schema, [[.ofCount 1], [.null .int64]]⟩),
      .received b (.watermark "u" Message.terminal), .opened 1,
      .received b (.regular none ⟨schema, [[.ofCount 2]]⟩)]
    ∃ messages, ((op.through steps).receive b (.watermark "u" Message.terminal)).answer =
      .ok messages ∧
      ∃ (upstream : Option String) (out : Batch),
        messages = some [.regular upstream out, .watermark "u" Message.terminal] ∧
          (out.rows.map (List.take schema.width)).Perm
            (rowsOf (outstanding foundOpen op [] steps)) := by
  intro schema d op b steps
  have accepted : Accepted schema d {} op := .inl rfl
  have valid : ∀ step ∈ steps, step.Valid := by decide
  have succeeds :
      ((op.through steps).receive b (.watermark "u" Message.terminal)).answer.isOk = true := by
    decide +kernel
  cases answered : ((op.through steps).receive b (.watermark "u" Message.terminal)).answer with
  | ok messages =>
    exact ⟨messages, rfl, (receive_puts_out accepted valid).2 b "u" messages answered⟩
  | error e =>
    rw [answered] at succeeds
    cases succeeds

/-- Others hold the budget when the input ends. Its row is gone after the refusal: the next terminal
watermark succeeds without it, although no watermark that succeeded has put it out. -/
theorem refused_rows_lost :
    let schema : Schema := ⟨[⟨"x", .int64, true⟩], []⟩
    let d : Definition := ⟨1, [⟨.count, []⟩], none, none⟩
    let op : Operator :=
      { schema, definition := d, settings := {},
        outputSchema := schema.extend [⟨"count", .int64, true⟩] }
    let b := Breaker.ofLimit "q" 150
    let steps : List Step := [.opened 1, .received b (.regular none ⟨schema, [[.ofCount 1]]⟩),
      .received { b with used := 100 } (.watermark "u" Message.terminal)]
    Accepted schema d {} op ∧ (∀ step ∈ steps, step.Valid) ∧
      ∃ out : Batch, ((op.through steps).receive b (.watermark "u" Message.terminal)).answer =
          .ok (some [.regular none out, .watermark "u" Message.terminal]) ∧
        ¬ (out.rows.map (List.take schema.width)).Perm
          (rowsOf (outstanding Except.isOk op [] steps)) := by
  intro schema d op b steps
  refine ⟨.inl rfl, by decide, ⟨_, []⟩, rfl, fun same => ?_⟩
  have kept : rowsOf (outstanding Except.isOk op [] steps) = [[.ofCount 1]] := rfl
  rw [kept] at same
  cases same.length_eq

end Operator
end Windowing
