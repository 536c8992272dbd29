import Windowing.Proofs.Defects
import Windowing.Proofs.Operator.Run

/-!
When a running operator stops at a defect. Its construction asks for the type of every argument but
that of a count; so a count of a column that no row has goes unnoticed until the end of the input,
and short of too many rows to number it is all that stops the operator then.
-/
namespace Windowing.Operator

variable {op : Operator} {schema : Schema} {d : Definition} {settings : Settings}

def Admits (op : Operator) (b : Breaker) : Prop :=
  ((Accounting.accounted ⟨label, 0⟩ b).chargeAll (rowsOf op.buffered)).2 = .ok ()

/-- The first of the buffered rows, in the order of the definition, comes to a count of a column
beyond it. -/
def CountsBeyond (op : Operator) (d : Definition) (types : List DataType) : Prop :=
  ∃ sorted, Sorting.Sorts d.sortOrder.compare (Row.HasTypes types) (op.reserved d) sorted ∧
    d.CountsBeyond sorted

namespace Serves

variable (serves : op.Serves schema d)

include serves

theorem checks : d.Checked := by
  intro c member
  obtain ⟨t, typed⟩ := serves.checked c member
  rcases Call.within_of_resultType typed with inside | ⟨column, rfl⟩
  · rw [← serves.width_eq] at inside
    exact .inl (inside.mono (Nat.le_add_right ..))
  · rcases Nat.lt_or_ge column (d.width + d.calls.length) with inside | beyond
    · exact .inl fun a only => List.mem_singleton.mp only ▸ inside
    · exact .inr ⟨column, beyond, rfl⟩

theorem flush_refused {b : Breaker} (refused : ¬ op.Admits b) {x : Executor}
    (available : op.executor = some x) :
    ∃ e, (op.flush b).answer = .error (.error e) := by
  rw [serves.flush_answer available]
  cases charged : ((Accounting.accounted ⟨label, 0⟩ b).chargeAll (rowsOf op.buffered)).2 with
  | ok _ => exact absurd charged refused
  | error e => exact ⟨_, rfl⟩

/-- A flush with room for its rows stops where the walk over them does. -/
theorem flush_defect_iff (compares : d.ComparesSource) {b : Breaker} (admits : op.Admits b)
    {x : Executor} (available : op.executor = some x) :
    ∃ sorted, Sorting.Sorts d.sortOrder.compare (Row.HasTypes (schema.fields.map Field.type))
      (op.reserved d)
        sorted ∧
      ∀ defect, (op.flush b).answer = .error (.defect defect) ↔
        (d.walk sorted.toArray).2 = .error (.defect defect) := by
  have typed : ∀ row ∈ op.reserved d, row.HasTypes (schema.fields.map Field.type) := by
    intro row member
    exact (serves.reserved_rows row member).1
  obtain ⟨sorted, done, sorts⟩ := x.sort_ok serves.width_types compares typed
  refine ⟨sorted, sorts, ?_⟩
  intro defect
  rw [serves.flush_answer available, admits]
  dsimp only
  rw [Guarded.bind_ofError_eq_defect_iff, Guarded.mapError_eq_defect_iff, Executor.compute_eq done,
    Definition.outcome_eq_error_iff]

theorem arranged (compares : d.ComparesSource) {sorted : List Row}
    (sorts :
      Sorting.Sorts d.sortOrder.compare (Row.HasTypes (schema.fields.map Field.type))
        (op.reserved d)
      sorted) :
    d.Arranged (schema.fields.map Field.type) sorted ∧
      ∀ row ∈ sorted, row.length = d.width + d.calls.length := by
  have each : ∀ row ∈ sorted, row.HasTypes (schema.fields.map Field.type) ∧
      row.length = d.width + d.calls.length := by
    intro row member
    exact serves.reserved_rows row (sorts.mem_iff.mpr member)
  constructor
  · exact ⟨serves.width_types, compares, fun row member => (each row member).1, sorts.sorted⟩
  · intro row member
    exact (each row member).2

theorem flush_stops_iff (compares : d.ComparesSource) (b : Breaker) :
    ((∃ defect, defect ≠ .countOutOfRange ∧ (op.flush b).answer = .error (.defect defect)) ↔
        op.executor.isSome ∧ op.Admits b ∧ op.CountsBeyond d (schema.fields.map Field.type)) ∧
      ((op.flush b).answer = .error (.defect .countOutOfRange) →
        countLimit / 2 ≤ (rowsOf op.buffered).length) := by
  cases available : op.executor with
  | none =>
    have unopened : (op.flush b).answer = .error (.error .notOpen) := by rw [flush, available]
    rw [unopened]
    simp
  | some x =>
    by_cases admits : op.Admits b
    · obtain ⟨sorted, sorts, stops⟩ := serves.flush_defect_iff compares admits available
      obtain ⟨arranged, exactly⟩ := serves.arranged compares sorts
      have size : sorted.length = (rowsOf op.buffered).length := by
        rw [← sorts.length_eq, reserved, List.length_map]
      refine ⟨⟨?_, ?_⟩, fun stopped => ?_⟩
      · rintro ⟨defect, other, stopped⟩
        rcases d.walk_defect arranged exactly serves.checks ((stops defect).mp stopped) with
          ⟨overflow, -⟩ | ⟨counts, -⟩
        · exact absurd overflow other
        · exact ⟨rfl, admits, sorted, sorts, counts⟩
      · rintro ⟨-, -, sorted', sorts', counts⟩
        obtain rfl := sorts'.unique (d.sortOrder_total serves.width_types compares)
          (fun row member => (serves.reserved_rows row member).1) sorts
        obtain ⟨column, stopped⟩ := d.walk_of_countsBeyond arranged exactly counts
        exact ⟨_, by simp, (stops _).mpr stopped⟩
      · rcases d.walk_defect arranged exactly serves.checks ((stops _).mp stopped) with
          ⟨-, many⟩ | ⟨-, column, other⟩
        · exact size ▸ many
        · cases other
    · obtain ⟨e, refused⟩ := serves.flush_refused admits available
      rw [refused]
      simp [admits]

end Serves

/-- Whatever it is sent and whoever else charges its breaker, an operator that was made stops only
at the terminal watermark, and there only over a count of a column that its rows do not have. -/
theorem receive_stops_iff (accepted : Accepted schema d settings op) (compares : d.ComparesSource)
    {steps : List Step} (valid : ∀ step ∈ steps, step.Valid) (b : Breaker) (m : Message) :
    ((∃ defect, defect ≠ .countOutOfRange ∧
        ((op.through steps).receive b m).answer = .error (.defect defect)) ↔
      (∃ sender, m = .watermark sender Message.terminal) ∧ (op.through steps).executor.isSome ∧
        (op.through steps).Admits b ∧
        (op.through steps).CountsBeyond d (schema.fields.map Field.type)) ∧
    (((op.through steps).receive b m).answer = .error (.defect .countOutOfRange) →
      countLimit / 2 ≤ (rowsOf (op.through steps).buffered).length) := by
  have serves := accepted.serves.through valid
  generalize op.through steps = now at serves
  cases m with
  | regular sender batch =>
    have quiet : Guarded.StopsOnly (fun _ => False)
        (now.receive b (.regular sender batch)).answer := .ofError _
    refine ⟨⟨?_, ?_⟩, fun stopped => (quiet _ stopped).elim⟩
    · rintro ⟨defect, -, stopped⟩
      exact (quiet defect stopped).elim
    · rintro ⟨⟨sender', other⟩, -⟩
      cases other
  | watermark sender value =>
    by_cases last : value = Message.terminal
    · subst last
      have same : ∀ defect, (now.receive b (.watermark sender Message.terminal)).answer =
          .error (.defect defect) ↔
          (now.flush b).answer = .error (.defect defect) := by
        intro defect
        rw [receive_terminal]
        cases (now.flush b).answer <;> simp [Except.map]
      simp only [same]
      obtain ⟨stops, overflow⟩ := serves.flush_stops_iff compares b
      refine ⟨stops.trans ⟨?_, ?_⟩, overflow⟩
      · intro reached
        exact ⟨⟨sender, rfl⟩, reached⟩
      · rintro ⟨-, reached⟩
        exact reached
    · rw [receive_dropped last]
      simp [last]

/-- Two columns, and a count of column seven: nothing is wrong with it until the end of the
input. -/
theorem receive_stops_seventh :
    let schema : Schema := ⟨[⟨"x", .int64, true⟩, ⟨"y", .int64, true⟩], []⟩
    let d : Definition := ⟨2, [.countOf 7], none, none⟩
    let op : Operator :=
      { schema, definition := d, settings := {},
        outputSchema := schema.extend [⟨"count", .int64, true⟩] }
    let b := Breaker.unlimited label
    let steps : List Step :=
      [.opened 1, .received b (.regular none ⟨schema, [[.ofCount 1, .ofCount 2]]⟩)]
    ∃ defect, defect ≠ .countOutOfRange ∧
      ((op.through steps).receive b (.watermark "u" Message.terminal)).answer =
        .error (.defect defect) := by
  intro schema d op b steps
  have valid : ∀ step ∈ steps, step.Valid := by decide
  have compares : d.ComparesSource := by decide
  have accepted : Accepted schema d {} op := .inl rfl
  have admits : (op.through steps).Admits b := rfl
  refine (receive_stops_iff accepted compares valid b (.watermark "u" Message.terminal)).1.mpr
    ⟨⟨"u", rfl⟩, rfl, admits, ?_⟩
  refine ⟨_, ⟨.refl _, List.pairwise_singleton ..⟩, _, _, rfl, 0, 7, rfl,
    by decide, fun l c before => ?_⟩
  cases before

end Windowing.Operator
