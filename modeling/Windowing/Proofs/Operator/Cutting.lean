import Windowing.Proofs.Operator.History

/-!
How rows are cut into batches. An execution charges and computes on the rows of its batches in their
order, so any cutting of them comes to the same. Two operators that hold the same rows in different
batches do so whatever happens to both, and answer alike.
-/
namespace Windowing

def cutInto (schema : Schema) (pieces : List (List Row)) : List Batch :=
  pieces.map (Batch.mk schema)

theorem rowsOf_cutInto (schema : Schema) (pieces : List (List Row)) :
    rowsOf (cutInto schema pieces) = pieces.flatten := by
  rw [rowsOf, cutInto, List.flatMap_map, List.flatMap_id']

theorem rowsOf_append (batches more : List Batch) :
    rowsOf (batches ++ more) = rowsOf batches ++ rowsOf more :=
  List.flatMap_append

namespace Executor

theorem execute_of_rows (x : Executor) (d : Definition) {batches others : List Batch}
    (widths : ∀ c ∈ batches, c.width = d.width) (widths' : ∀ c ∈ others, c.width = d.width)
    (same : rowsOf batches = rowsOf others) (blocking : Bool) (accounting : Accounting) :
    x.execute d ⟨batches.map .batch, blocking⟩ .never accounting =
      x.execute d ⟨others.map .batch, blocking⟩ .never accounting := by
  rw [execute_batches widths rfl, execute_batches widths' rfl, same]

end Executor

namespace Operator

/-- Two operators that hold the same rows of the fields they expect, and differ at most in the
batches of these. -/
structure HoldAlike (op other : Operator) : Prop where
  made : ∃ held, other = { op with buffered := held }
  rows : rowsOf op.buffered = rowsOf other.buffered
  width : op.definition.width = op.schema.width
  fields : ∀ c ∈ op.buffered, c.schema.fields = op.schema.fields
  fields' : ∀ c ∈ other.buffered, c.schema.fields = op.schema.fields

variable {op other : Operator}

namespace HoldAlike

theorem refl (width : op.definition.width = op.schema.width)
    (fields : ∀ c ∈ op.buffered, c.schema.fields = op.schema.fields) : op.HoldAlike op :=
  ⟨⟨_, rfl⟩, rfl, width, fields, fields⟩

theorem follow (alike : op.HoldAlike other) (e : Event) :
    (op.follow e).HoldAlike (other.follow e) := by
  obtain ⟨⟨held, rfl⟩, rows, width, fields, fields'⟩ := alike
  obtain ⟨schema, d, settings, outputSchema, executor, buffered, first⟩ := op
  have kept : ∀ x u, HoldAlike ⟨schema, d, settings, outputSchema, x, buffered, u⟩
      ⟨schema, d, settings, outputSchema, x, held, u⟩ :=
    fun x u => ⟨⟨held, rfl⟩, rows, width, fields, fields'⟩
  have emptied : ∀ x u, HoldAlike ⟨schema, d, settings, outputSchema, x, [], u⟩
      ⟨schema, d, settings, outputSchema, x, [], u⟩ := fun x u => refl width nofun
  cases e with
  | closed => exact emptied none first
  | step s =>
    cases s with
    | opened offered =>
      simp only [Operator.follow, take, «open»]
      cases executor with
      | some x => exact kept (some x) first
      | none => cases Executor.ofSettings settings offered <;> exact kept _ first
    | received b m =>
      cases m with
      | regular sender batch =>
        simp only [Operator.follow, take, receive, accept]
        split
        · rename_i expected
          refine ⟨⟨_, rfl⟩, ?_, width, ?_, ?_⟩
          · simp only [rowsOf_append]
            exact congrArg (· ++ _) rows
          · exact List.forall_mem_append.mpr ⟨fields, List.forall_mem_singleton.mpr expected⟩
          · exact List.forall_mem_append.mpr ⟨fields', List.forall_mem_singleton.mpr expected⟩
        · exact kept executor first
      | watermark sender value =>
        simp only [Operator.follow, take]
        by_cases last : value = Message.terminal
        · rw [last, receive_terminal, receive_terminal, flush_operator, flush_operator]
          cases executor with
          | none => exact kept none first
          | some x => exact emptied (some x) first
        · rw [receive_dropped last, receive_dropped last]
          exact kept executor first

theorem after (alike : op.HoldAlike other) (later : List Event) :
    (op.after later).HoldAlike (other.after later) := by
  induction later with
  | nil => exact alike
  | cons e later ih => exact ih.follow e

/-- Operators that hold the same rows give the same answers and charge the breaker alike. -/
theorem receive (alike : op.HoldAlike other) (b : Breaker) (m : Message) :
    (op.receive b m).answer = (other.receive b m).answer ∧
    (op.receive b m).breaker = (other.receive b m).breaker := by
  obtain ⟨⟨held, rfl⟩, rows, width, fields, fields'⟩ := alike
  cases m with
  | regular sender batch =>
    simp only [Operator.receive, accept]
    split <;> trivial
  | watermark sender value =>
    by_cases last : value = Message.terminal
    · have widths : ∀ batches : List Batch, (∀ c ∈ batches, c.schema.fields = op.schema.fields) →
          ∀ c ∈ batches, c.width = op.definition.width := by
        intro batches expected c member
        rw [Batch.width, Schema.width, expected c member, width, Schema.width]
      have runs : ∀ x, op.run x b = { op with buffered := held }.run x b := by
        intro x
        rw [run, run, Source.ofBatches, Source.ofBatches,
          x.execute_of_rows op.definition (widths _ fields) (widths _ fields') rows]
      rw [last, receive_terminal, receive_terminal, flush, flush]
      cases op.executor with
      | none => exact ⟨rfl, rfl⟩
      | some x =>
        dsimp only
        rw [runs x]
        exact ⟨rfl, rfl⟩
    · rw [receive_dropped last, receive_dropped last]
      exact ⟨rfl, rfl⟩

end HoldAlike

def sent (sender : Option String) (b : Breaker) (batches : List Batch) : List Step :=
  batches.map fun batch => .received b (.regular sender batch)

/-- A refused message leaves nothing. -/
theorem through_sent_refused {batches : List Batch}
    (differ : ∀ c ∈ batches, c.schema.fields ≠ op.schema.fields) (sender : Option String)
    (b : Breaker) : op.through (sent sender b batches) = op := by
  induction batches with
  | nil => rfl
  | cons c rest ih =>
    obtain ⟨first, others⟩ := List.forall_mem_cons.mp differ
    have step : op.take (.received b (.regular sender c)) = op := by
      rw [take, receive_regular_refused op b first sender]
    show (op.take (.received b (.regular sender c))).through (sent sender b rest) = op
    rw [step, ih others]

/-- Accepted messages leave their batches, and their sender if none was named before. -/
theorem through_sent_accepted {c : Batch} {rest : List Batch}
    (expected : ∀ e ∈ c :: rest, e.schema.fields = op.schema.fields) (sender : Option String)
    (b : Breaker) :
    op.through (sent sender b (c :: rest)) =
      { op with sender := op.sender.or sender, buffered := op.buffered ++ c :: rest } := by
  induction rest generalizing op c with
  | nil =>
    have first : c.schema.fields = op.schema.fields := expected c (List.mem_singleton_self c)
    show op.take (.received b (.regular sender c)) = _
    rw [take, receive_regular_kept op b first]
  | cons next rest ih =>
    obtain ⟨first, others⟩ := List.forall_mem_cons.mp expected
    show (op.take (.received b (.regular sender c))).through (sent sender b (next :: rest)) = _
    rw [take, receive_regular_kept op b first]
    have tail :=
      @ih { op with sender := op.sender.or sender, buffered := op.buffered ++ [c] } next others
    rw [tail, Option.or_assoc, Option.or_self, List.append_assoc, List.singleton_append]

namespace HoldAlike

/-- The same rows sent in two cuttings, by the same sender. -/
theorem sent (alike : op.HoldAlike op) {schema : Schema} {pieces others : List (List Row)}
    (nonempty : pieces ≠ []) (nonempty' : others ≠ []) (same : pieces.flatten = others.flatten)
    (sender : Option String) (b c : Breaker) :
    (op.through (Operator.sent sender b (cutInto schema pieces))).HoldAlike
      (op.through (Operator.sent sender c (cutInto schema others))) := by
  by_cases expected : schema.fields = op.schema.fields
  · obtain ⟨piece, pieces, rfl⟩ := List.exists_cons_of_ne_nil nonempty
    obtain ⟨other, others, rfl⟩ := List.exists_cons_of_ne_nil nonempty'
    have fits : ∀ pieces, ∀ c ∈ cutInto schema pieces, c.schema.fields = op.schema.fields := by
      intro pieces c member
      obtain ⟨piece, -, rfl⟩ := List.mem_map.mp member
      exact expected
    have left : op.through (Operator.sent sender b (cutInto schema (piece :: pieces))) =
        { op with
          sender := op.sender.or sender
          buffered := op.buffered ++ cutInto schema (piece :: pieces) } :=
      through_sent_accepted (fits (piece :: pieces)) sender b
    have right : op.through (Operator.sent sender c (cutInto schema (other :: others))) =
        { op with
          sender := op.sender.or sender
          buffered := op.buffered ++ cutInto schema (other :: others) } :=
      through_sent_accepted (fits (other :: others)) sender c
    rw [left, right]
    refine ⟨⟨_, rfl⟩, ?_, alike.width, ?_, ?_⟩
    · simp only [rowsOf_append, rowsOf_cutInto, same]
    · exact List.forall_mem_append.mpr ⟨alike.fields, fits _⟩
    · exact List.forall_mem_append.mpr ⟨alike.fields, fits _⟩
  · have differ : ∀ pieces, ∀ c ∈ cutInto schema pieces, c.schema.fields ≠ op.schema.fields := by
      intro pieces c member
      obtain ⟨piece, -, rfl⟩ := List.mem_map.mp member
      exact expected
    rw [through_sent_refused (differ pieces), through_sent_refused (differ others)]
    exact alike

end HoldAlike

/-- An operator holds the same as itself, whatever happened to it. -/
theorem Accepted.holdAlike {schema : Schema} {d : Definition} {settings : Settings}
    (accepted : Accepted schema d settings op) (history : List Event) :
    (op.after history).HoldAlike (op.after history) := by
  have width := accepted.serves.width_eq
  obtain ⟨output, rfl⟩ := accepted.fresh
  exact (HoldAlike.refl width (List.forall_mem_nil _)).after history

/-- How rows are cut into batches makes no difference. An execution over either cutting charges the
same, and gives the same rows or the same failure; an operator that is sent the rows in one or more
regular messages answers all that comes afterwards the same, and leaves the breaker the same. -/
theorem cutting_irrelevant (s : Schema) (pieces others : List (List Row))
    (same : pieces.flatten = others.flatten) :
    (∀ (x : Executor) (d : Definition) (blocking : Bool)
      (accounting : Accounting), s.width = d.width →
      x.execute d ⟨(cutInto s pieces).map .batch, blocking⟩ .never accounting =
        x.execute d ⟨(cutInto s others).map .batch, blocking⟩ .never accounting) ∧
    ∀ (schema : Schema) (d : Definition) (settings : Settings)
      (op : Operator), Accepted schema d settings op →
      ∀ (history later : List Event) (sender : Option String) (c c' : Breaker), pieces ≠ [] →
        others ≠ [] →
        ∀ (b : Breaker) (m : Message),
          let one := ((op.after history).through (sent sender c (cutInto s pieces))).after later
          let two := ((op.after history).through (sent sender c' (cutInto s others))).after later
          (one.receive b m).answer = (two.receive b m).answer ∧
            (one.receive b m).breaker = (two.receive b m).breaker := by
  constructor
  · intro x d blocking accounting width
    have widths : ∀ pieces, ∀ c ∈ cutInto s pieces, c.width = d.width := by
      intro pieces c member
      obtain ⟨piece, -, rfl⟩ := List.mem_map.mp member
      exact width
    exact x.execute_of_rows d (widths pieces) (widths others)
      (by rw [rowsOf_cutInto, rowsOf_cutInto, same])
      blocking accounting
  · intro schema d settings op accepted history later sender c c' nonempty nonempty' b m
    exact (((accepted.holdAlike history).sent nonempty nonempty' same sender c c').after
      later).receive b m

/-- The second row is refused, whether it comes in a batch of its own or behind an empty one with
the first. -/
theorem cutting_irrelevant_over_limit :
    let s : Schema := ⟨[⟨"x", .int64, true⟩], []⟩
    let d : Definition := ⟨1, [⟨.count, []⟩], none, none⟩
    let op : Operator :=
      { schema := s, definition := d, settings := {},
        outputSchema := s.extend [⟨"count", .int64, true⟩] }
    let b := Breaker.ofLimit "q" 150
    let refusal : BudgetExceeded := ⟨"q", label, 176, 150⟩
    let pieces : List (List Row) := [[[.ofCount 1]], [[.ofCount 2]]]
    let others : List (List Row) := [[], [[.ofCount 1], [.ofCount 2]]]
    pieces.flatten = others.flatten ∧ s.width = d.width ∧ Accepted s d {} op ∧
      Executor.execute ⟨{}, none⟩ d ⟨(cutInto s others).map .batch, false⟩ .never
        (.accounted ⟨label, 0⟩ b) =
        (.accounted ⟨label, 88⟩ { b with used := 88 }, .error (.error (.budget refusal))) ∧
      ((((op.after []).through (sent (some "a") b (cutInto s others))).after
        [.step (.opened 1)]).receive b
        (.watermark "u" Message.terminal)).answer =
          .error (.error (.window (.budget refusal))) := by
  intro s d op b refusal pieces others
  have accepted : Accepted s d {} op := .inl rfl
  obtain ⟨executions, operators⟩ := cutting_irrelevant s pieces others rfl
  refine ⟨rfl, rfl, accepted, ?_, ?_⟩
  · rw [← executions ⟨{}, none⟩ d false (.accounted ⟨label, 0⟩ b) rfl]
    decide +kernel
  · have same :=
      operators s d {} op accepted [] [.step (.opened 1)] (some "a") b b (List.cons_ne_nil _ _)
      (List.cons_ne_nil _ _) b (.watermark "u" Message.terminal)
    rw [← same.1]
    decide +kernel

end Operator
end Windowing
