import Windowing.Proofs.Order
import Windowing.Proofs.Signature

/-!
The types of results. Over a frame whose rows have the types of a schema, the type that a call finds
in its frame is the one it was told from the schema, so that every result is of the type announced
for it.
-/
namespace Windowing

abbrev Schema.types (schema : Schema) : List DataType := schema.fields.map Field.type

namespace Argument

def typeIn (types : List DataType) : Argument → Option DataType
  | column position => types[position]?
  | literal cell => some cell.type

def presents (a : Argument) (rows : List Row) : List Value :=
  rows.filterMap fun row => (a.evaluate row).toOption.bind Cell.present?

variable {a : Argument} {types : List DataType} {t : DataType}

theorem typeIn_of_type {schema : Schema} (typed : a.type schema = .ok t) :
    a.typeIn schema.types = some t := by
  cases a with
  | literal cell => exact congrArg some (Except.ok.inj typed)
  | column position =>
    rw [type] at typed
    rw [typeIn, Schema.types, List.getElem?_map]
    cases found : schema.fields[position]? with
    | none =>
      rw [found] at typed
      cases typed
    | some field =>
      rw [found] at typed
      exact congrArg some (Except.ok.inj typed)

theorem within_of_typeIn (known : a.typeIn types = some t) : a.Within types.length := by
  cases a with
  | literal cell => trivial
  | column position => exact (List.getElem?_eq_some_iff.mp known).1

theorem exists_typeIn (within : a.Within types.length) : ∃ t, a.typeIn types = some t := by
  cases a with
  | literal cell => exact ⟨cell.type, rfl⟩
  | column position => exact ⟨_, List.getElem?_eq_getElem within⟩

theorem evaluate_typed (known : a.typeIn types = some t) {row : Row} (typed : row.HasTypes types) :
    ∃ cell, a.evaluate row = .ok cell ∧ cell.type = t := by
  cases a with
  | literal cell => exact ⟨cell, rfl, Option.some.inj known⟩
  | column position =>
    obtain ⟨cell, found, type⟩ := typed.getElem? (within_of_typeIn known)
    exact ⟨cell, Row.cellAt_eq_ok_iff.mpr found, Option.some.inj (type.symm.trans known)⟩

theorem presents_type (known : a.typeIn types = some t) {rows : List Row}
    (typed : ∀ row ∈ rows, row.HasTypes types) :
    ∀ v ∈ a.presents rows, v.type = t := by
  intro v member
  obtain ⟨row, inside, found⟩ := List.mem_filterMap.mp member
  obtain ⟨cell, value, type⟩ := evaluate_typed known (typed row inside)
  rw [value] at found
  cases cell with
  | null s => cases found
  | value w =>
    obtain rfl := Option.some.inj found
    exact type

theorem presents_cons_null {row : Row} {s : DataType} (value : a.evaluate row = .ok (.null s))
    (rows : List Row) :
    a.presents (row :: rows) = a.presents rows := List.filterMap_cons_none (by rw [value]; rfl)

theorem presents_cons_value {row : Row} {v : Value} (value : a.evaluate row = .ok (.value v))
    (rows : List Row) :
    a.presents (row :: rows) = v :: a.presents rows := List.filterMap_cons_some (by rw [value]; rfl)

/-- Where every row has the argument, folding its present values is folding over a list of
values. -/
theorem foldPresent_eq {rows : List Row} (each : ∀ row ∈ rows, ∃ cell, a.evaluate row = .ok cell)
    (step : σ → Value → Except EvaluationError σ) (s : σ) :
    a.foldPresent step s rows = Guarded.ofError ((a.presents rows).foldlM step s) := by
  induction rows generalizing s with
  | nil => rfl
  | cons row rows ih =>
    obtain ⟨⟨cell, value⟩, others⟩ := List.forall_mem_cons.mp each
    rw [foldPresent, value]
    simp only [Guarded.lift_eq, Guarded.ofDefect_ok, ok_bind]
    cases cell with
    | null s => rw [presents_cons_null value, ih others]
    | value v =>
      simp only [presents_cons_value value, List.foldlM_cons, ih others]
      cases step s v <;> rfl

end Argument

/-- What an aggregate sees of its argument in a frame: a type, which is that of the first row, and
values. -/
structure Frame.Offers (f : Frame) (a : Argument) (t : DataType) (vs : List Value) : Prop where
  type : a.frameType f = .ok t
  each : ∀ row ∈ f.rows, ∃ cell, a.evaluate row = .ok cell
  values : a.presents f.rows = vs

theorem Frame.Offers.foldPresent {f : Frame} {a : Argument} {t : DataType} {vs : List Value}
    (offers : f.Offers a t vs) (step : σ → Value → Except EvaluationError σ) (s : σ) :
    a.foldPresent step s f.rows = Guarded.ofError (vs.foldlM step s) := by
  rw [Argument.foldPresent_eq offers.each, offers.values]

structure Frame.Holds (types : List DataType) (f : Frame) : Prop where
  valid : f.Valid
  nonempty : 0 < f.size
  typed : ∀ row ∈ f.rows, row.HasTypes types

namespace Frame.Holds

variable {types : List DataType} {f : Frame}

theorem not_isEmpty (holds : f.Holds types) : f.isEmpty = false := by
  rw [isEmpty, beq_eq_false_iff_ne]
  exact Nat.ne_of_gt holds.nonempty

theorem row_typed (holds : f.Holds types) {offset : Nat} {row : Row}
    (found : f.row offset = .ok row) :
    row.HasTypes types :=
  holds.typed row (List.mem_of_getElem? ((row_eq_ok_iff holds.valid).mp found))

variable {a : Argument} {t : DataType}

/-- The argument in a row of the frame. -/
theorem cell (holds : f.Holds types) (known : a.typeIn types = some t) {offset : Nat}
    (inside : offset < f.size) :
    ∃ row cell, f.row offset = .ok row ∧ a.evaluate row = .ok cell ∧ cell.type = t := by
  have bound : offset < f.rows.length := by rwa [length_rows holds.valid]
  have found := (row_eq_ok_iff holds.valid).mpr (List.getElem?_eq_getElem bound)
  obtain ⟨cell, value, type⟩ := Argument.evaluate_typed known (holds.row_typed found)
  exact ⟨_, cell, found, value, type⟩

theorem frameType (holds : f.Holds types) (known : a.typeIn types = some t) :
    a.frameType f = .ok t := by
  obtain ⟨row, cell, found, value, type⟩ := holds.cell known holds.nonempty
  rw [Argument.frameType, holds.not_isEmpty, if_neg Bool.false_ne_true, found, ok_bind, value,
    ok_bind, type]
  rfl

theorem offers (holds : f.Holds types) (known : a.typeIn types = some t) :
    f.Offers a t (a.presents f.rows) := by
  refine ⟨holds.frameType known, fun row member => ?_, rfl⟩
  obtain ⟨cell, value, -⟩ := Argument.evaluate_typed known (holds.typed row member)
  exact ⟨cell, value⟩

theorem foldPresent (holds : f.Holds types) (known : a.typeIn types = some t)
    (step : σ → Value → Except EvaluationError σ) (s : σ) :
    a.foldPresent step s f.rows = Guarded.ofError ((a.presents f.rows).foldlM step s) :=
  (holds.offers known).foldPresent step s

end Frame.Holds

namespace Call

variable {types : List DataType} {f : Frame} {a : Argument} {t : DataType} {cell : Cell} {c : Call}

theorem successor_type {n : Int} (done : successor n = .ok cell) : cell.type = .int64 := by
  unfold successor at done
  split at done
  · obtain rfl := Except.ok.inj done
    rfl
  · cases done

theorem ordinal_type {position : Nat} (done : ordinal position = .ok cell) :
    cell.type = .int64 := by
  rw [ordinal] at done
  exact successor_type done

theorem rankOf_type (done : rankOf f = .ok cell) : cell.type = .int64 := by
  unfold rankOf at done
  split at done
  · cases done
  · dsimp only at done
    split at done
    · obtain rfl := Except.ok.inj done
      rfl
    · cases done

theorem countPresent_type (done : countPresent f a = .ok cell) : cell.type = .int64 := by
  obtain ⟨n, -, last⟩ := bind_eq_ok_iff.mp done
  obtain rfl := Except.ok.inj last
  rfl

/-- The one of two values that is kept is one of them. -/
theorem better_eq_ok {keep : Ordering} {best next : Option Value} {g : Function} {v : Value}
    (done : better g keep best v = .ok next) : next = some v ∨ next = best := by
  unfold better at done
  split at done
  · exact .inl (Except.ok.inj done).symm
  · rename_i b
    split at done
    · rename_i o _
      obtain rfl := Except.ok.inj done
      by_cases kept : o = keep
      · exact .inl (congrArg some (if_pos kept))
      · exact .inr (congrArg some (if_neg kept))
    · cases done

/-- What comes out of a fold over values is one of them, or what it began with. -/
theorem foldlM_better_mem {keep : Ordering} {g : Function} {vs : List Value}
    {best last : Option Value} (done : vs.foldlM (better g keep) best = .ok last) :
    last = best ∨ ∃ v ∈ vs, last = some v := by
  induction vs generalizing best with
  | nil => exact .inl (Except.ok.inj done).symm
  | cons v vs ih =>
    rw [List.foldlM_cons] at done
    obtain ⟨next, step, done⟩ := bind_eq_ok_iff.mp done
    rcases ih done with rfl | ⟨w, member, rfl⟩
    · rcases better_eq_ok step with rfl | rfl
      · exact .inr ⟨v, List.mem_cons_self .., rfl⟩
      · exact .inl rfl
    · exact .inr ⟨w, List.mem_cons_of_mem _ member, rfl⟩

theorem sumExact_type (done : sumExact f a = .ok cell) : cell.type = .int64 := by
  obtain ⟨sum, -, last⟩ := bind_eq_ok_iff.mp done
  cases sum <;>
  · obtain rfl := Except.ok.inj last
    rfl

theorem sumFloat_type (done : sumFloat f a = .ok cell) : cell.type = .float64 := by
  obtain ⟨sum, -, last⟩ := bind_eq_ok_iff.mp done
  obtain rfl := Except.ok.inj last
  cases sum <;> rfl

theorem avgOver_type (done : c.avgOver f a = .ok cell) : cell.type = .float64 := by
  obtain ⟨t, -, done⟩ := bind_eq_ok_iff.mp done
  obtain ⟨_, -, done⟩ := bind_eq_ok_iff.mp done
  obtain ⟨⟨sum, count⟩, -, done⟩ := bind_eq_ok_iff.mp done
  dsimp only at done
  split at done <;>
  · obtain rfl := Except.ok.inj done
    rfl

section Typed

variable (holds : f.Holds types) (known : a.typeIn types = some t)

include holds known

theorem sumOver_type {s : Summation} (supported : c.function.summation t = .ok s)
    (done : c.sumOver f a = .ok cell) : cell.type = s.type := by
  simp only [sumOver, holds.frameType known, Guarded.lift_eq, Guarded.ofDefect_ok, ok_bind,
    supported] at done
  cases s with
  | exact => exact sumExact_type done
  | floating => exact sumFloat_type done

theorem extreme_type {keep : Ordering} (done : c.extreme keep f a = .ok cell) : cell.type = t := by
  obtain ⟨best, folded, done⟩ := bind_eq_ok_iff.mp done
  rw [holds.foldPresent known, Guarded.ofError_eq_ok_iff] at folded
  rcases foldlM_better_mem folded with rfl | ⟨v, member, rfl⟩
  · simp only [holds.frameType known, Guarded.lift_eq, Guarded.ofDefect_ok, ok_bind] at done
    obtain rfl := Except.ok.inj done
    rfl
  · obtain rfl := Except.ok.inj done
    exact Argument.presents_type known holds.typed v member

theorem valueAt_type {offset : Nat} (done : valueAt f offset a = .ok cell) : cell.type = t := by
  rw [valueAt, holds.not_isEmpty, if_neg Bool.false_ne_true] at done
  obtain ⟨row, found, value⟩ := bind_eq_ok_iff.mp done
  obtain ⟨cell', value', type⟩ := Argument.evaluate_typed known (holds.row_typed found)
  obtain rfl := Except.ok.inj (value.symm.trans value')
  exact type

theorem nth_type {position : Argument} (done : nth f a position = .ok cell) : cell.type = t := by
  rw [nth, holds.not_isEmpty, if_neg Bool.false_ne_true] at done
  obtain ⟨row, -, done⟩ := bind_eq_ok_iff.mp done
  obtain ⟨place, -, done⟩ := bind_eq_ok_iff.mp done
  obtain ⟨n, -, done⟩ := bind_eq_ok_iff.mp done
  split at done
  · simp only [holds.frameType known, Guarded.lift_eq, Guarded.ofDefect_ok, ok_bind] at done
    obtain rfl := Except.ok.inj done
    rfl
  · obtain ⟨row', found, value⟩ := bind_eq_ok_iff.mp done
    obtain ⟨cell', value', type⟩ :=
      Argument.evaluate_typed known (holds.row_typed (Guarded.ofDefect_eq_ok_iff.mp found))
    obtain rfl := Except.ok.inj ((Guarded.ofDefect_eq_ok_iff.mp value).symm.trans value')
    exact type

end Typed

/-- A result is of the type that the schema of the rows announces. -/
theorem evaluate_type {schema : Schema} (checked : c.resultType schema = .ok t)
    (holds : f.Holds schema.types) {i : Nat} (done : c.evaluate i f = .ok cell) :
    cell.type = t := by
  cases wellTyped_of_resultType checked with
  | rowNumber | denseRank =>
    simp only [evaluate, Guarded.lift_eq, Guarded.ofDefect_eq_ok_iff] at done
    exact ordinal_type done
  | rank =>
    simp only [evaluate, Guarded.lift_eq, Guarded.ofDefect_eq_ok_iff] at done
    exact rankOf_type done
  | countRows =>
    obtain rfl := Except.ok.inj done
    rfl
  | count a => exact countPresent_type done
  | sum typed supported => exact sumOver_type holds (Argument.typeIn_of_type typed) supported done
  | avg => exact avgOver_type done
  | min typed | max typed => exact extreme_type holds (Argument.typeIn_of_type typed) done
  | firstValue typed | lastValue typed =>
    exact valueAt_type holds (Argument.typeIn_of_type typed) (Guarded.ofDefect_eq_ok_iff.mp done)
  | nthValue typed => exact nth_type holds (Argument.typeIn_of_type typed) done

end Call
end Windowing
