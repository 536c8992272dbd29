import Windowing.Proofs.Operator.Run

/-!
What an operator answers, told from all that happened to it since it was made. Besides what it was
made with its state is a function of its history: the executor is that of the first opening since
the last closing, the buffer holds the accepted batches since it was last emptied, and the sender is
the first that an accepted message named. A history lists the latest event first.
-/
namespace Windowing.Operator

inductive Event
  | step (s : Step)
  | closed

def follow (op : Operator) : Event → Operator
  | .step s => op.take s
  | .closed => op.close

def after (op : Operator) : List Event → Operator
  | [] => op
  | e :: earlier => (op.after earlier).follow e

namespace Event

def closes : Event → Bool
  | closed => true
  | step _ => false

def opens (settings : Settings) : Event → Option Executor
  | step (.opened offered) => (Executor.ofSettings settings offered).toOption
  | _ => none

def brings (fields : List Field) : Event → Option (Option String × Batch)
  | step (.received _ (.regular sender batch)) =>
    if batch.schema.fields = fields then some (sender, batch) else none
  | _ => none

def ends : Event → Bool
  | step (.received _ (.watermark _ value)) => value = Message.terminal
  | _ => false

end Event

/-- The executor of the first opening since the last closing that succeeded. -/
def executorAfter (settings : Settings) (history : List Event) : Option Executor :=
  (history.takeWhile (!·.closes)).reverse.findSome? (Event.opens settings)

/-- The events since the buffer was last emptied, by a closing or by an end of the input while
open. -/
def sinceEmptied (settings : Settings) : List Event → List Event
  | [] => []
  | e :: earlier =>
    if e.closes || e.ends && (executorAfter settings earlier).isSome then []
    else e :: sinceEmptied settings earlier

/-- The accepted batches since the buffer was last emptied, as they arrived. -/
def pending (schema : Schema) (settings : Settings) (history : List Event) : List Batch :=
  (sinceEmptied settings history).reverse.filterMap fun e => (e.brings schema.fields).map Prod.snd

/-- The first sender that an accepted message named. No closing forgets it. -/
def firstSender (schema : Schema) (history : List Event) : Option String :=
  history.reverse.findSome? fun e => (e.brings schema.fields).bind Prod.fst

section Histories

variable (schema : Schema) (settings : Settings) (e : Event) (earlier : List Event)

theorem executorAfter_cons : executorAfter settings (e :: earlier) =
    if e.closes then none else (executorAfter settings earlier).or (e.opens settings) := by
  cases closing : e.closes <;> simp [executorAfter, closing]

theorem pending_cons : pending schema settings (e :: earlier) =
    if e.closes || e.ends && (executorAfter settings earlier).isSome then []
    else pending schema settings earlier ++ ((e.brings schema.fields).map Prod.snd).toList := by
  rw [pending, sinceEmptied]
  split
  · rfl
  · cases brought : e.brings schema.fields <;> simp [pending, brought]

theorem firstSender_cons : firstSender schema (e :: earlier) =
    (firstSender schema earlier).or ((e.brings schema.fields).bind Prod.fst) := by
  simp [firstSender]

end Histories

def recalled (op : Operator) (history : List Event) : Operator :=
  { op with
    executor := executorAfter op.settings history
    buffered := pending op.schema op.settings history
    sender := firstSender op.schema history }

variable {op : Operator} {schema : Schema} {d : Definition} {settings : Settings}

/-- An event changes the state just as it changes what the history tells. -/
theorem recalled_follow (op : Operator) (earlier : List Event) (e : Event) :
    (op.recalled earlier).follow e = op.recalled (e :: earlier) := by
  simp only [recalled, executorAfter_cons, pending_cons, firstSender_cons]
  cases e with
  | closed => simp [follow, close, Event.closes, Event.brings]
  | step s =>
    cases s with
    | opened offered =>
      simp only [follow, take, «open», Event.closes, Event.ends, Event.brings, Event.opens]
      cases executorAfter op.settings earlier with
      | some x => simp
      | none => cases Executor.ofSettings op.settings offered <;> simp [Except.toOption]
    | received b m =>
      cases m with
      | regular sender batch =>
        simp only [follow, take, receive, accept, Event.closes, Event.ends,
          Event.brings, Event.opens]
        split <;> simp
      | watermark sender value =>
        simp only [follow, take, Event.closes, Event.brings, Event.opens, Event.ends]
        by_cases last : value = Message.terminal
        · rw [last, receive_terminal, flush_operator]
          cases executorAfter op.settings earlier <;> simp
        · rw [receive_dropped last]
          simp [last]

theorem after_append (op : Operator) (later earlier : List Event) :
    op.after (later ++ earlier) = (op.after earlier).after later := by
  induction later with
  | nil => rfl
  | cons e later ih => rw [List.cons_append, after, ih, after]

/-- A message that gets this answer and changes nothing: it might as well not have come. -/
structure PassesBy (op : Operator) (history : List Event) (b : Breaker) (m : Message)
    (answer : Guarded OperatorError (Option (List Message))) : Prop where
  reply : (op.after history).receive b m = ⟨op.after history, b, answer⟩
  skipped : ∀ later, op.after (later ++ .step (.received b m) :: history) =
    op.after (later ++ history)

theorem passesBy_of_reply {history : List Event} {b : Breaker} {m : Message}
    {answer : Guarded OperatorError (Option (List Message))}
    (reply : (op.after history).receive b m = ⟨op.after history, b, answer⟩) :
    op.PassesBy history b m answer := by
  refine ⟨reply, fun later => ?_⟩
  have same : (op.after history).follow (.step (.received b m)) = op.after history := by
    rw [follow, take, reply]
  rw [after_append, after_append, after, same]

namespace Accepted

variable (accepted : Accepted schema d settings op)

include accepted

/-- An operator starts unopened and holds nothing. -/
theorem recalled_nil : op.recalled [] = op := by
  obtain ⟨output, rfl⟩ := accepted.fresh
  rfl

theorem after_eq_recalled (history : List Event) : op.after history = op.recalled history := by
  induction history with
  | nil => exact accepted.recalled_nil.symm
  | cons e earlier ih => rw [after, ih, recalled_follow]

end Accepted

section Answers

variable (op : Operator) (b : Breaker)

theorem receive_regular_ok_iff (upstream : Option String) (batch : Batch) :
    (op.receive b (.regular upstream batch)).answer = .ok none ↔
      batch.schema.fields = op.schema.fields := by
  by_cases same : batch.schema.fields = op.schema.fields
  · refine iff_of_true ?_ same
    rw [receive, accept, if_pos same]
    rfl
  · refine iff_of_false (fun answered => ?_) same
    rw [receive, accept, if_neg same] at answered
    cases answered

theorem receive_regular_kept {batch : Batch} (expected : batch.schema.fields = op.schema.fields)
    (upstream : Option String) : op.receive b (.regular upstream batch) =
      ⟨{ op with sender := op.sender.or upstream, buffered := op.buffered ++ [batch] }, b,
        .ok none⟩ := by
  simp only [receive, accept, if_pos expected]
  rfl

theorem receive_regular_refused {batch : Batch} (differs : batch.schema.fields ≠ op.schema.fields)
    (upstream : Option String) :
    op.receive b (.regular upstream batch) = ⟨op, b, .error (.error .unexpectedSchema)⟩ := by
  simp only [receive, accept, if_neg differs]
  rfl

theorem receive_terminal_unopened (unopened : op.executor = none) (sender : String) :
    op.receive b (.watermark sender Message.terminal) = ⟨op, b, .error (.error .notOpen)⟩ := by
  rw [receive_terminal, flush, unopened]
  rfl

/-- An open operator answers the end of the input with what it makes of its buffer. -/
theorem receive_terminal_open {x : Executor} (available : op.executor = some x) (sender : String) :
    (op.receive b (.watermark sender Message.terminal)).answer = do
      let r ← Guarded.mapError OperatorError.window
        (x.execute op.definition (.ofBatches op.buffered) .never (.accounted ⟨label, 0⟩ b)).2
      let out ← Guarded.ofError
        ((Batch.assemble op.outputSchema r.rows).mapError OperatorError.assembly)
      return some [.regular op.sender out, .watermark sender Message.terminal] := by
  rw [receive_terminal, flush_operator, flush_open available, available]
  cases Guarded.mapError OperatorError.window
      (x.execute op.definition (.ofBatches op.buffered) .never (.accounted ⟨label, 0⟩ b)).2 with
  | error e => rfl
  | ok r =>
    cases Guarded.ofError ((Batch.assemble op.outputSchema r.rows).mapError OperatorError.assembly)
      <;> rfl

end Answers

/-- What is answered at any time. Regular messages of the expected fields are kept, others are
refused and pass by, as watermarks before the last do, and the last while unopened. The last
watermark while open is answered with all that is pending, executed and built, and with itself. -/
theorem receive_after (accepted : Accepted schema d settings op) (history : List Event)
    (b : Breaker) :
    (∀ upstream batch,
      (((op.after history).receive b (.regular upstream batch)).answer = .ok none ↔
        batch.schema.fields = schema.fields) ∧
      (batch.schema.fields ≠ schema.fields →
        op.PassesBy history b (.regular upstream batch) (.error (.error .unexpectedSchema)))) ∧
    (∀ sender value, value ≠ Message.terminal →
      op.PassesBy history b (.watermark sender value) (.ok none)) ∧
    (executorAfter settings history = none → ∀ sender,
      op.PassesBy history b (.watermark sender Message.terminal) (.error (.error .notOpen))) ∧
    ∀ x, executorAfter settings history = some x → ∀ sender,
      ((op.after history).receive b (.watermark sender Message.terminal)).answer = do
        let r ← Guarded.mapError OperatorError.window
          (x.execute d (.ofBatches (pending schema settings history)) .never
            (.accounted ⟨label, 0⟩ b)).2
        let out ← Guarded.ofError
          ((Batch.assemble op.outputSchema r.rows).mapError OperatorError.assembly)
        return some [.regular (firstSender schema history) out,
          .watermark sender Message.terminal] := by
  have state := accepted.after_eq_recalled history
  obtain ⟨output, rfl⟩ := accepted.fresh
  refine ⟨fun upstream batch => ⟨?_, fun differs => ?_⟩, fun sender value before => ?_,
    fun unopened sender => ?_,
    fun x available sender => ?_⟩
  · rw [state]
    exact receive_regular_ok_iff _ b upstream batch
  · refine passesBy_of_reply ?_
    rw [state]
    exact receive_regular_refused _ b differs upstream
  · exact passesBy_of_reply (receive_dropped before _ b sender)
  · refine passesBy_of_reply ?_
    rw [state]
    exact receive_terminal_unopened _ b unopened sender
  · rw [state]
    exact receive_terminal_open _ b available sender

/-- A closing drops what came before it, but not whose it was. -/
theorem receive_after_closing :
    let schema : Schema := ⟨[⟨"x", .int64, true⟩], []⟩
    let d : Definition := ⟨1, [⟨.count, []⟩], none, none⟩
    let op : Operator :=
      { schema, definition := d, settings := {},
        outputSchema := schema.extend [⟨"count", .int64, true⟩] }
    let b := Breaker.unlimited label
    let history : List Event := [.step (.opened 1),
      .step (.received b (.regular (some "c") ⟨schema, [[.ofCount 2]]⟩)), .closed,
      .step (.received b (.regular (some "a") ⟨schema, [[.ofCount 1]]⟩))]
    Accepted schema d {} op ∧
      ((op.after history).receive b (.watermark "u" Message.terminal)).answer =
        .ok (some [.regular (some "a") ⟨op.outputSchema, [[.ofCount 2, .ofCount 1]]⟩,
          .watermark "u" Message.terminal]) := by
  intro schema d op b history
  have accepted : Accepted schema d {} op := .inl rfl
  refine ⟨accepted, ?_⟩
  obtain ⟨-, -, -, answers⟩ := receive_after accepted history b
  rw [answers ⟨{}, some 1⟩ rfl "u"]
  decide +kernel

end Windowing.Operator
