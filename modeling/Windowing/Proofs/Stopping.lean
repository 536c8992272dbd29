import Windowing.Proofs.Evaluation

/-!
Where evaluation stops. Over a valid frame whose rows have all the cells that a call looks at,
nothing is out of range; what remains are positions and ranks that 64 bits cannot count, which takes
as many rows.
-/
namespace Windowing

open Guarded (StopsOnly)

/-- A count beyond the signed 64-bit range, out of at least as many rows. -/
def Overflow (rows : Nat) (d : Defect) : Prop := d = .countOutOfRange ∧ countLimit / 2 ≤ rows

structure Frame.Wide (width : Nat) (f : Frame) : Prop where
  valid : f.Valid
  wide : ∀ row ∈ f.rows, width ≤ row.length

namespace Frame.Wide

variable {width : Nat} {f : Frame}

theorem row (wide : f.Wide width) {offset : Nat} (inside : offset < f.size) :
    ∃ row, f.row offset = .ok row ∧ width ≤ row.length := by
  have bound : offset < f.rows.length := by rwa [length_rows wide.valid]
  exact ⟨f.rows[offset], (row_eq_ok_iff wide.valid).mpr (List.getElem?_eq_getElem bound),
    wide.wide _ (List.getElem_mem bound)⟩

theorem size_pos (nonempty : ¬ f.isEmpty = true) : 0 < f.size := by
  simpa [isEmpty, Nat.pos_iff_ne_zero] using nonempty

end Frame.Wide

namespace Argument

variable {width : Nat} {a : Argument} {f : Frame} {allowed : Defect → Prop}

theorem foldPresent_stops (within : a.Within width) {step : σ → Value → Except EvaluationError σ}
    {s : σ} {rows : List Row} (wide : ∀ row ∈ rows, width ≤ row.length) :
    StopsOnly allowed (a.foldPresent step s rows) := by
  induction rows generalizing s with
  | nil => exact .ok s
  | cons row rows ih =>
    obtain ⟨first, rest⟩ := List.forall_mem_cons.mp wide
    obtain ⟨cell, value⟩ := evaluate_ok within first
    rw [foldPresent, value]
    simp only [Guarded.lift_eq, Guarded.ofDefect_ok, ok_bind]
    cases cell with
    | null t => exact ih rest
    | value v => exact (StopsOnly.ofError _).bind fun s' _ => ih rest

theorem frameType_ok (within : a.Within width) (wide : f.Wide width) :
    ∃ t, a.frameType f = .ok t := by
  rw [frameType]
  split
  · exact ⟨_, rfl⟩
  · rename_i nonempty
    obtain ⟨row, found, room⟩ := wide.row (Frame.Wide.size_pos nonempty)
    obtain ⟨cell, value⟩ := evaluate_ok within room
    exact ⟨cell.type, by rw [found, ok_bind, value]; rfl⟩

end Argument

namespace Call

section Ranking

variable {rows : Nat}

/-- Fewer than half of all counts do not wrap. -/
theorem bmod_countLimit {n : Nat} (few : n < countLimit / 2) : (n : Int).bmod countLimit = n := by
  have limit : (countLimit : Int) = 18446744073709551616 := rfl
  apply Int.bmod_eq_of_le <;> rw [limit] <;> omega

theorem successor_eq_error_iff {n : Int} {d : Defect} :
    successor n = .error d ↔ d = .countOutOfRange ∧ ¬ IntKind.int64.Fits (n + 1) := by
  rw [successor, ← IntKind.carrier?_eq_none_iff]
  cases IntKind.int64.carrier? (n + 1) <;> simp [eq_comm]

/-- Only the largest signed 64-bit position has no next one; those beyond wrap. -/
theorem ordinal_eq_error_iff {position : Nat} {d : Defect} :
    ordinal position = .error d ↔ d = .countOutOfRange ∧
    position % countLimit = countLimit / 2 - 1 := by
  rw [ordinal, successor_eq_error_iff]
  refine and_congr_right fun _ => ?_
  simp only [IntKind.Fits, IntKind.least, IntKind.greatest, Int.bmod, countLimit]
  omega

theorem rankOf_eq_error_iff {f : Frame} {d : Defect} : rankOf f = .error d ↔
    d = .countOutOfRange ∧
    (f.peerStart < f.partitionStart ∨ countLimit ≤ f.peerStart - f.partitionStart + 1) := by
  unfold rankOf
  by_cases early : f.peerStart < f.partitionStart
  · rw [if_pos early]
    simp [early, eq_comm]
  · rw [if_neg early]
    by_cases few : f.peerStart - f.partitionStart + 1 < countLimit
    · simp [early, few, Nat.not_le.mpr few]
    · simp [early, few, Nat.not_lt.mp few, eq_comm]

theorem ordinal_stops {position : Nat} (few : position < rows) :
    StopsOnly (Overflow rows)
      (Guarded.ofDefect (ordinal position) : Guarded EvaluationError Cell) := by
  refine .ofDefect ?_
  intro d stops
  obtain ⟨rfl, last⟩ := ordinal_eq_error_iff.mp stops
  have reached := Nat.mod_le position countLimit
  exact ⟨rfl, by omega⟩

theorem rankOf_stops {f : Frame} (start : f.partitionStart ≤ f.peerStart)
    (few : f.peerStart - f.partitionStart < rows) :
    StopsOnly (Overflow rows) (Guarded.ofDefect (rankOf f) : Guarded EvaluationError Cell) := by
  refine .ofDefect ?_
  intro d stops
  obtain ⟨rfl, early | large⟩ := rankOf_eq_error_iff.mp stops
  · exact absurd early (Nat.not_lt.mpr start)
  · exact ⟨rfl, by omega⟩

end Ranking

section Columns

variable {width : Nat} {c : Call} {a : Argument} {f : Frame} {allowed : Defect → Prop}
  (within : a.Within width) (wide : f.Wide width)

include within wide

theorem countPresent_stops : StopsOnly allowed (countPresent f a) :=
  (Argument.foldPresent_stops within wide.wide).bind fun n _ => .ok (Cell.ofCount n)

theorem sumOver_stops : StopsOnly allowed (c.sumOver f a) := by
  obtain ⟨t, type⟩ := Argument.frameType_ok within wide
  unfold sumOver sumExact sumFloat
  simp only [type, Guarded.lift_eq, Guarded.ofDefect_ok, ok_bind]
  refine (StopsOnly.ofError _).bind ?_
  intro summation _
  cases summation with
  | exact =>
    refine (Argument.foldPresent_stops within wide.wide).bind ?_
    intro sum _
    cases sum <;> exact .ok _
  | floating => exact (Argument.foldPresent_stops within wide.wide).bind fun sum _ => .ok _

theorem avgOver_stops : StopsOnly allowed (c.avgOver f a) := by
  obtain ⟨t, type⟩ := Argument.frameType_ok within wide
  simp only [avgOver, type, Guarded.lift_eq, Guarded.ofDefect_ok, ok_bind]
  refine (StopsOnly.ofError _).bind ?_
  intro _ _
  refine (Argument.foldPresent_stops within wide.wide).bind ?_
  intro p _
  split <;> exact .ok _

theorem extreme_stops (keep : Ordering) : StopsOnly allowed (c.extreme keep f a) := by
  obtain ⟨t, type⟩ := Argument.frameType_ok within wide
  rw [extreme]
  refine (Argument.foldPresent_stops within wide.wide).bind ?_
  intro best _
  cases best with
  | none =>
    simp only [type, Guarded.lift_eq, Guarded.ofDefect_ok, ok_bind]
    exact .ok _
  | some v => exact .ok _

theorem valueAt_stops {offset : Nat} (inside : 0 < f.size → offset < f.size) :
    StopsOnly allowed (Guarded.ofDefect (valueAt f offset a) : Guarded EvaluationError Cell) := by
  rw [valueAt]
  split
  · exact .ok _
  · rename_i nonempty
    obtain ⟨row, found, room⟩ := wide.row (inside (Frame.Wide.size_pos nonempty))
    obtain ⟨cell, value⟩ := Argument.evaluate_ok within room
    rw [found, ok_bind, value]
    exact .ok cell

theorem nth_stops {position : Argument} (withinPosition : position.Within width) :
    StopsOnly allowed (nth f a position) := by
  obtain ⟨t, type⟩ := Argument.frameType_ok within wide
  rw [nth]
  split
  · exact .ok _
  · rename_i nonempty
    have some := Frame.Wide.size_pos nonempty
    obtain ⟨row, found, room⟩ := wide.row some
    obtain ⟨cell, value⟩ := Argument.evaluate_ok withinPosition room
    simp only [found, value, type, Guarded.lift_eq, Guarded.ofDefect_ok, ok_bind]
    refine (StopsOnly.ofError _).bind ?_
    intro n _
    split
    · exact .ok _
    · obtain ⟨row', found', room'⟩ := wide.row (show n - 1 < f.size by omega)
      obtain ⟨cell', value'⟩ := Argument.evaluate_ok within room'
      simp only [found', value', Guarded.ofDefect_ok, ok_bind]
      exact .ok cell'

end Columns

/-- The current row of a frame, at `index` in its partition, among `rows` rows at most. -/
structure Ranks (f : Frame) (index rows : Nat) : Prop where
  index_lt : index < rows
  start_le : f.partitionStart ≤ f.peerStart
  before_lt : f.peerStart - f.partitionStart < rows
  group_lt : f.peerGroup < rows

theorem evaluate_stops {width rows index : Nat} {c : Call} {f : Frame} (within : c.Within width)
    (wide : f.Wide width) (ranks : Ranks f index rows) :
    StopsOnly (Overflow rows) (c.evaluate index f) := by
  have one : ∀ h : Argument → Guarded EvaluationError Cell,
      (∀ a : Argument, a.Within width → StopsOnly (Overflow rows) (h a)) →
        StopsOnly (Overflow rows) (c.one >>= h) := by
    intro h each
    rw [Call.one]
    cases single : c.oneArgument with
    | error e => exact .ofError (.error (EvaluationError.signature e))
    | ok a => exact each a (within.one single)
  rw [evaluate]
  cases function : c.function with
  | rowNumber => exact ordinal_stops ranks.index_lt
  | rank => exact rankOf_stops ranks.start_le ranks.before_lt
  | denseRank => exact ordinal_stops ranks.group_lt
  | count =>
    dsimp only
    cases arguments : c.arguments with
    | nil => exact .ok _
    | cons a rest => exact countPresent_stops (within a (by simp [arguments])) wide
  | sum => exact one _ fun a inside => sumOver_stops inside wide
  | avg => exact one _ fun a inside => avgOver_stops inside wide
  | min => exact one _ fun a inside => extreme_stops inside wide .lt
  | max => exact one _ fun a inside => extreme_stops inside wide .gt
  | firstValue => exact one _ fun a inside => valueAt_stops inside wide fun some => some
  | lastValue => exact one _ fun a inside => valueAt_stops inside wide fun some => by omega
  | nthValue =>
    dsimp only
    cases pair : c.twoArguments with
    | error e => exact .ofError (.error (EvaluationError.signature e))
    | ok p =>
      obtain ⟨inside, insidePosition⟩ := within.two pair
      exact nth_stops inside wide insidePosition

end Call
end Windowing
