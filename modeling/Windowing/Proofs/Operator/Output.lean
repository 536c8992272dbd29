import Windowing.Proofs.Assembly
import Windowing.Proofs.Filling
import Windowing.Proofs.Operator.History

/-!
What an operator puts out is what was executed. The output schema announces for every call the type
that its results have, and takes nulls there; the source cells fit their fields as they did when
they came. So the batch is built of the rows as they are, and nothing can fail behind the execution.
-/
namespace Windowing

def Batch.Fits (b : Batch) : Prop := ∀ row ∈ b.rows, b.schema.Fits row

theorem Batch.Fits.valid {b : Batch} (fits : b.Fits) : b.Valid :=
  fun row member => (fits row member).map_type

namespace Operator

variable {schema : Schema} {settings : Settings} {history : List Event} {d : Definition}
  {op : Operator}

/-- Every pending batch was accepted for its fields. -/
theorem fields_of_pending :
    ∀ b ∈ pending schema settings history, b.schema.fields = schema.fields := by
  intro b held
  obtain ⟨e, -, brought⟩ := List.mem_filterMap.mp held
  obtain ⟨⟨sender, b⟩, brings, rfl⟩ := Option.map_eq_some_iff.mp brought
  unfold Event.brings at brings
  split at brings
  · split at brings
    · rename_i same
      obtain ⟨rfl, rfl⟩ := Prod.mk.inj (Option.some.inj brings)
      exact same
    · cases brings
  · cases brings

/-- The fields behind those of the source: one for each call, of the type that is announced for it,
and open to nulls. -/
theorem outputFields_ok {calls : List Call} {fields : List Field}
    (named : calls.mapM (Call.outputField · schema) = .ok fields) :
    calls.mapM (Call.resultType · schema) = .ok (fields.map Field.type) ∧
      ∀ field ∈ fields, field.nullable = true := by
  induction calls generalizing fields with
  | nil =>
    cases named
    exact ⟨rfl, nofun⟩
  | cons c calls ih =>
    rw [List.mapM_cons] at named
    obtain ⟨field, first, named⟩ := bind_eq_ok_iff.mp named
    obtain ⟨more, others, last⟩ := bind_eq_ok_iff.mp named
    obtain rfl := Except.ok.inj last
    obtain ⟨t, type, made⟩ := bind_eq_ok_iff.mp first
    obtain rfl := Except.ok.inj made
    obtain ⟨types, open_⟩ := ih others
    refine ⟨?_, List.forall_mem_cons.mpr ⟨rfl, open_⟩⟩
    rw [List.mapM_cons, type, types]
    rfl

theorem Accepted.output (accepted : Accepted schema d settings op) :
    ∃ more, op.outputSchema = schema.extend more ∧
    d.Announces schema (more.map Field.type) ∧ ∀ field ∈ more, field.nullable = true := by
  have built := accepted.shared
  unfold sharing at built
  split at built
  · cases built
  · obtain ⟨more, named, last⟩ := bind_eq_ok_iff.mp built
    obtain rfl := Except.ok.inj last
    exact ⟨more, rfl, outputFields_ok (mapError_eq_ok_iff.mp named)⟩

/-- Whatever is of the types of fields that take nulls fits them. -/
theorem fits_of_nullable {fields : List Field} (open_ : ∀ field ∈ fields, field.nullable = true)
    {cells : List Cell} (types : cells.map Cell.type = fields.map Field.type) :
    List.Forall₂ Field.Fits fields cells := by
  induction fields generalizing cells with
  | nil =>
    obtain rfl := List.map_eq_nil_iff.mp types
    exact .nil
  | cons field fields ih =>
    obtain ⟨c, rest, rfl, first, others⟩ := List.map_eq_cons_iff.mp types
    obtain ⟨nullable, open_⟩ := List.forall_mem_cons.mp open_
    exact .cons ⟨first, fun _ => .inl nullable⟩ (ih open_ others)

/-- A source row that fits, with results of the announced types behind it. -/
theorem fits_extend {more : List Field} (open_ : ∀ field ∈ more, field.nullable = true) {row : Row}
    (source : schema.Fits (row.take schema.width))
    (types : row.map Cell.type = schema.types ++ more.map Field.type) :
    (schema.extend more).Fits row := by
  have width : schema.types.length = schema.width := List.length_map ..
  have results : (row.drop schema.width).map Cell.type = more.map Field.type := by
    rw [List.map_drop, types, ← width, List.drop_left]
  have whole :
      List.Forall₂ Field.Fits (schema.fields ++ more)
        (row.take schema.width ++ row.drop schema.width) :=
    List.rel_append source (fits_of_nullable open_ results)
  rwa [List.take_append_drop] at whole

/-- Rows that were executed fit the output schema. -/
theorem fits_of_executed (accepted : Accepted schema d settings op)
    (fits : ∀ b ∈ pending schema settings history, b.Fits) {x : Executor} {accounting : Accounting}
    {r : ResultRows}
    (executed : (x.execute d (.ofBatches (pending schema settings history)) .never accounting).2 =
      .ok r) :
    ∀ row ∈ r.rows, op.outputSchema.Fits row := by
  obtain ⟨more, output, announces, open_⟩ := accepted.output
  have width : d.width = schema.width := accepted.serves.width_eq
  have fields : ∀ b ∈ pending schema settings history, b.schema.fields = schema.fields :=
    fields_of_pending
  generalize pending schema settings history = batches at executed fits fields
  have delivers : Delivers schema.types batches :=
    ⟨fun b member => (fits b member).valid, fun b member => by rw [fields b member]⟩
  have wide : schema.types.length = d.width := (List.length_map ..).trans width.symm
  have widths : ∀ b ∈ batches, b.width = d.width :=
    fun b member => (delivers.width_eq b member).trans wide
  have answer := @Executor.execute_eq x d batches false .never accounting widths rfl
  rw [Source.ofBatches] at executed
  rw [executed] at answer
  split at answer
  · cases answer
  obtain ⟨computed, done, rfl⟩ := map_eq_ok_iff.mp answer.symm
  intro row member
  have types := x.compute_types width announces delivers.row_types done row member
  have kept := Executor.compute_perm done
  rw [Batch.map_take_reserve
    (fun row member => (delivers.row_length row member).trans wide)] at kept
  obtain ⟨b, there, inside⟩ := List.mem_flatMap.mp (kept.mem_iff.mp (List.mem_map_of_mem member))
  have source : schema.Fits (row.take schema.width) := by
    have fit := fits b there _ inside
    rwa [Schema.Fits, fields b there, width] at fit
  rw [output]
  exact fits_extend open_ source types

/-- An operator with output columns puts out the rows that its executor hands out, each of them with
the types of the output schema and with all its cells as they are. So an operator that is open fails
to flush only where the execution fails. -/
theorem flush_puts_out (accepted : Accepted schema d settings op)
    (columns : op.outputSchema.fields ≠ []) (fits : ∀ b ∈ pending schema settings history, b.Fits)
    {x : Executor} (available : executorAfter settings history = some x) (b : Breaker) :
    (∀ r,
      (x.execute d (.ofBatches (pending schema settings history)) .never
        (.accounted ⟨label, 0⟩ b)).2 = .ok r →
      (∀ row ∈ r.rows, row.map Cell.type = op.outputSchema.fields.map Field.type) ∧
        Batch.assemble op.outputSchema r.rows = .ok ⟨op.outputSchema, r.rows⟩) ∧
    ((op.after history).flush b).answer = Guarded.mapError OperatorError.window
      ((x.execute d (.ofBatches (pending schema settings history)) .never
        (.accounted ⟨label, 0⟩ b)).2.map fun r =>
        ⟨op.outputSchema, r.rows⟩) := by
  have assembled : ∀ r, (x.execute d (.ofBatches (pending schema settings history)) .never
      (.accounted ⟨label, 0⟩ b)).2 = .ok r →
      (∀ row ∈ r.rows, row.map Cell.type = op.outputSchema.fields.map Field.type) ∧
        Batch.assemble op.outputSchema r.rows = .ok ⟨op.outputSchema, r.rows⟩ := by
    intro r executed
    have fit := fits_of_executed accepted fits executed
    exact ⟨fun row member => (fit row member).map_type, Batch.assemble_of_fits columns fit⟩
  refine ⟨assembled, ?_⟩
  have state := accepted.after_eq_recalled history
  obtain ⟨output, rfl⟩ := accepted.fresh
  rw [state, flush_open available]
  dsimp only [recalled]
  cases executed : (x.execute d (.ofBatches (pending schema settings history)) .never
      (.accounted ⟨label, 0⟩ b)).2 with
  | error e => rfl
  | ok r =>
    rw [Guarded.mapError_ok, ok_bind, (assembled r executed).2]
    rfl

/-- Frames of nothing but nulls, a column of the null type, a negative zero, and a position behind
the end. -/
theorem flush_puts_out_nulls :
    let schema : Schema := ⟨[⟨"k", .utf8, false⟩, ⟨"v", .float32, true⟩, ⟨"n", .null, false⟩], []⟩
    let d : Definition :=
      ⟨3, [⟨.max, [.column 1]⟩, ⟨.sum, [.column 2]⟩,
        ⟨.nthValue, [.column 1, .literal (.ofCount 2)]⟩],
        some (.ascending 0), none⟩
    let op : Operator :=
      { schema, definition := d, settings := {}, outputSchema := schema.extend
          [⟨"max", .float32, true⟩, ⟨"sum", .int64, true⟩, ⟨"nth_value", .float32, true⟩] }
    let b := Breaker.unlimited label
    let zero : Cell := .value (.float32 0x80000000#32)
    let rows : List Row :=
      [[.value (.utf8 "b"), .null .float32, .untyped], [.value (.utf8 "a"), zero, .untyped]]
    let history : List Event :=
      [.step (.received b (.regular none ⟨schema, rows⟩)), .step (.opened 1)]
    Accepted schema d {} op ∧ ((op.after history).flush b).answer = .ok ⟨op.outputSchema,
      [[.value (.utf8 "a"), zero, .untyped, zero, .null .int64, .null .float32],
        [.value (.utf8 "b"), .null .float32, .untyped, .null .float32, .null .int64,
          .null .float32]]⟩ := by
  intro schema d op b zero rows history
  have accepted : Accepted schema d {} op := .inl rfl
  have fits : ∀ batch ∈ pending schema {} history, batch.Fits := by
    have held : pending schema {} history = [⟨schema, rows⟩] := rfl
    rw [held]
    intro batch only row member
    obtain rfl := List.mem_singleton.mp only
    rcases List.mem_pair.mp member with rfl | rfl
    · exact .cons ⟨rfl, nofun⟩
        (.cons ⟨rfl, fun _ => .inl rfl⟩ (.cons ⟨rfl, fun _ => .inr rfl⟩ .nil))
    · exact .cons ⟨rfl, nofun⟩ (.cons ⟨rfl, nofun⟩ (.cons ⟨rfl, fun _ => .inr rfl⟩ .nil))
  obtain ⟨-, answer⟩ := flush_puts_out accepted (by decide) fits (x := ⟨{}, some 1⟩) rfl b
  refine ⟨accepted, ?_⟩
  rw [answer]
  decide +kernel

end Operator
end Windowing
