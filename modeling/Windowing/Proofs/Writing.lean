import Windowing.Proofs.Tiling

/-!
What the walk writes, however it ends. A row is written at once when all its calls have their
results, and only in the cells reserved for them. So where a call fails, the rows before are
complete, while the row at hand and those behind it are as they were given, whatever calls of that
row had a result already.
-/
namespace Windowing

open Guarded (StopsOnly)

section Overwriting

variable {row : Row} {start : Nat} {results : List Cell}

/-- The cells outside the replaced ones stay. -/
theorem Row.getElem?_overwrite_outside (room : start + results.length ≤ row.length) {k : Nat}
    (outside : k < start ∨ start + results.length ≤ k) :
    (row.overwrite start results)[k]? = row[k]? := by
  have front : (row.take start).length = start := by rw [List.length_take]; omega
  rcases outside with before | behind
  · rw [overwrite, List.append_assoc, List.getElem?_append_left (by omega),
      List.getElem?_take_of_lt before]
  · have both : (row.take start ++ results).length = start + results.length := by
      rw [List.length_append, front]
    rw [overwrite, List.getElem?_append_right (by omega), both, List.getElem?_drop,
      Nat.add_sub_cancel' behind]

/-- Whatever is written replaces cells of the row. -/
theorem Definition.eq_overwrite_of_write {written : Row}
    (wrote : write row start results = .ok written) :
    written = row.overwrite start results := by
  unfold write at wrote
  split at wrote
  · rename_i nothing
    obtain rfl := Except.ok.inj wrote
    rw [Row.overwrite, nothing, List.append_nil, List.length_nil, Nat.add_zero,
      List.take_append_drop]
  · split at wrote
    · exact (Except.ok.inj wrote).symm
    · cases wrote

end Overwriting

namespace Definition

variable {d : Definition} {rows buffer : Array Row} {i : Nat} {before : Option Position}

/-- The walk over `rows` stands at row `i`, with this buffer, and the row has this position and this
frame. -/
structure Stands (d : Definition) (rows : Array Row) (i : Nat) (buffer : Array Row) (p : Position)
    (f : Frame) :
    Prop where
  located : ∃ before, d.Reaches rows i before buffer ∧ d.locate buffer i before = .ok p
  framed : p.frame buffer i = .ok f

/-- A row has the results of all calls, each computed or copied while the walk stood at the row. -/
def HasResults (d : Definition) (rows : Array Row) (i : Nat) (row : Row) : Prop :=
  ∃ buffer p f, d.Stands rows i buffer p f ∧ ∀ (k : Nat) c, d.calls[k]? = some c →
    ∃ cell, resultAt buffer i p f (d.width + k) c = .ok cell ∧ row[d.width + k]? = some cell

/-- At row `i` a call fails while the buffer is this one; those before it have a result. It fails
with an error of its own, or counts more rows than can be counted. -/
def FailsAt (d : Definition) (rows : Array Row) (i : Nat) (buffer : Array Row)
    (fault : Fault WindowError) : Prop :=
  ∃ p f, d.Stands rows i buffer p f ∧ ∃ (k : Nat) (c : Call), d.calls[k]? = some c ∧
    resultAt buffer i p f (d.width + k) c = .error fault ∧
    (∀ (l : Nat) earlier, l < k → d.calls[l]? = some earlier →
      ∃ cell, resultAt buffer i p f (d.width + l) earlier = .ok cell) ∧
    ((∃ e, fault = .error (.evaluation c.function e)) ∨
      ∃ defect, fault = .defect defect ∧ Overflow rows.size defect)

/-- The failure is that of the first call that fails. -/
theorem resultsFrom_eq_error {p : Position} {f : Frame} {start : Nat} {calls : List Call}
    {fault : Fault WindowError} (fails : resultsFrom buffer i p f start calls = .error fault) :
    ∃ (k : Nat) (c : Call), calls[k]? = some c ∧
      resultAt buffer i p f (start + k) c = .error fault ∧
      ∀ (l : Nat) earlier, l < k → calls[l]? = some earlier →
        ∃ cell, resultAt buffer i p f (start + l) earlier = .ok cell := by
  induction calls generalizing start with
  | nil => cases fails
  | cons c calls ih =>
    rcases bind_eq_error_iff.mp fails with first | ⟨cell, first, rest⟩
    · exact ⟨0, c, rfl, first, fun l _ less => absurd less (Nat.not_lt_zero l)⟩
    · rcases bind_eq_error_iff.mp rest with later | ⟨cells, -, done⟩
      · obtain ⟨k, c', member, fails', earlier⟩ := ih later
        have shift : ∀ l, start + 1 + l = start + (l + 1) := fun l => by omega
        refine ⟨k + 1, c', member, shift k ▸ fails', fun l c'' less found => ?_⟩
        cases l with
        | zero =>
          obtain rfl := Option.some.inj found
          exact ⟨cell, first⟩
        | succ l => exact shift l ▸ earlier l c'' (Nat.lt_of_succ_lt_succ less) found
      · cases done

/-- There are no more runs of peers before a row's than rows, in its partition. -/
theorem positionAt_group_le {p : Position} (found : d.positionAt rows i = .ok p) :
    p.peerGroup ≤ p.index := by
  have opens : ∀ {i p}, d.opening rows i = .ok p → p.peerGroup ≤ p.index := by
    intro i p opened
    obtain ⟨_, -, opened⟩ := bind_eq_ok_iff.mp opened
    obtain ⟨_, -, last⟩ := bind_eq_ok_iff.mp opened
    obtain rfl := Except.ok.inj last
    exact Nat.le_refl 0
  induction i generalizing p with
  | zero => exact opens found
  | succ i ih =>
    obtain ⟨q, earlier, located⟩ := bind_eq_ok_iff.mp found
    have grouped := ih earlier
    rw [locate] at located
    split at located
    · exact opens located
    · rw [following] at located
      split at located
      · obtain rfl := Except.ok.inj located
        exact Nat.le_succ_of_le grouped
      · obtain ⟨_, -, last⟩ := bind_eq_ok_iff.mp located
        obtain rfl := Except.ok.inj last
        exact Nat.succ_le_succ grouped

namespace Reaches

variable (reached : d.Reaches rows i before buffer)

include reached

/-- No row changes its width. -/
theorem length_eq {j : Nat} {now : Row} (present : buffer[j]? = some now) :
    ∃ row, rows[j]? = some row ∧ now.length = row.length := by
  induction reached generalizing now with
  | start => exact ⟨now, present, rfl⟩
  | next _ visited ih =>
    obtain ⟨-, old, current, -, length⟩ := visit_ok visited
    rcases getElem?_replaced present with ⟨rfl, rfl⟩ | ⟨-, present⟩
    · obtain ⟨row, given, same⟩ := ih current
      exact ⟨row, given, length.trans same⟩
    · exact ih present

/-- A row that the walk has passed is the given one with all its results in place. -/
theorem passed {j : Nat} (behind : j < i) : ∃ row buffer' p f results, rows[j]? = some row ∧
    d.Stands rows j buffer' p f ∧ resultsFrom buffer' j p f d.width d.calls = .ok results ∧
    buffer[j]? = some (row.overwrite d.width results) := by
  induction reached with
  | start => exact absurd behind (Nat.not_lt_zero j)
  | @next i before buffer p row reached visited ih =>
    rcases Nat.eq_or_lt_of_le (Nat.le_of_lt_succ behind) with rfl | earlier
    · obtain ⟨located, f, results, old, framed, computed, current, wrote⟩ := visit_eq_ok visited
      obtain rfl := eq_overwrite_of_write wrote
      refine ⟨old, buffer, p, f, results, ?_, ⟨⟨before, reached, located⟩, framed⟩, computed, ?_⟩
      · rw [← reached.leaves.ahead j (Nat.le_refl j), current]
      · exact Array.getElem?_setIfInBounds_self_of_lt (Array.getElem?_eq_some_iff.mp current).1
    · rw [Array.getElem?_setIfInBounds_ne (Nat.ne_of_gt earlier)]
      exact ih earlier

/-- A walk comes to an end of the rows or to a visit that fails, and writes nothing after that. -/
theorem ends {remaining : Nat} (rest : i + remaining = rows.size) :
    ∃ stop last, d.Reaches rows stop last (d.walkFrom remaining i before buffer).1 ∧
      ((d.walkFrom remaining i before buffer).2 = .ok () ∧ stop = rows.size ∨
        ∃ fault, (d.walkFrom remaining i before buffer).2 = .error fault ∧ stop < rows.size ∧
          d.visit (d.walkFrom remaining i before buffer).1 stop last = .error fault) := by
  induction remaining generalizing i before buffer with
  | zero => exact ⟨i, before, reached, .inl ⟨rfl, rest⟩⟩
  | succ remaining ih =>
    rw [walkFrom]
    cases visited : d.visit buffer i before with
    | error fault => exact ⟨i, before, reached, .inr ⟨fault, rfl, by omega, visited⟩⟩
    | ok r => exact ih (reached.next visited) (by omega)

end Reaches

section Failing

variable {width : Nat}
  (wide : ∀ row ∈ rows.toList, d.width + d.calls.length ≤ row.length ∧ width ≤ row.length)

include wide

theorem Reaches.room (reached : d.Reaches rows i before buffer) {j : Nat} {now : Row}
    (present : buffer[j]? = some now) :
    d.width + d.calls.length ≤ now.length ∧ width ≤ now.length := by
  obtain ⟨row, given, length⟩ := reached.length_eq present
  rw [length]
  exact wide row (Array.mem_toList_iff.mpr (Array.mem_of_getElem? given))

/-- A copy is always there, and a call that looks at cells every row has stops only if there are too
many rows. -/
theorem resultAt_eq_error (reached : d.Reaches rows i before buffer) (inside : i < rows.size)
    {p : Position} (found : d.positionAt rows i = .ok p) (lies : p.Lies rows.size i) {f : Frame}
    (framed : p.frame buffer i = .ok f) {k : Nat} {c : Call} (member : d.calls[k]? = some c)
    (within : c.Within width) {fault : Fault WindowError}
    (fails : resultAt buffer i p f (d.width + k) c = .error fault) :
    (∃ e, fault = .error (.evaluation c.function e)) ∨
      ∃ defect, fault = .defect defect ∧ Overflow rows.size defect := by
  have size : buffer.size = rows.size := reached.leaves.size_eq
  have place : k < d.calls.length := (List.getElem?_eq_some_iff.mp member).1
  obtain ⟨bounds, rfl⟩ := Position.frame_eq_ok_iff.mp framed
  rw [resultAt] at fails
  split at fails
  · have there : i - 1 < buffer.size := by omega
    have room := (reached.room wide (Array.getElem?_eq_getElem there)).1
    have cell : buffer[i - 1].cellAt (d.width + k) = .ok buffer[i - 1][d.width + k] :=
      Row.cellAt_of_lt (by omega)
    simp only [rowAt_of_lt there, cell, Guarded.lift_eq, Guarded.ofDefect_ok, ok_bind,
      reduceCtorEq] at fails
  · have := lies.index_eq
    have := lies.peerStart_le
    have grouped := positionAt_group_le found
    have wideFrame : Frame.Wide width
        ⟨buffer, p.partitionStart, p.partitionStart, p.frameEnd, i, p.peerStart, p.peerGroup⟩ := by
      refine ⟨⟨Nat.le_refl _, bounds.1, bounds.2.1⟩, fun row member => ?_⟩
      obtain ⟨j, found⟩ := List.mem_iff_getElem?.mp member
      simp only [Frame.rows, Array.getElem?_toList, Array.getElem?_extract] at found
      split at found
      · exact (reached.room wide found).2
      · cases found
    obtain ⟨reason, evaluated, rfl⟩ := mapError_eq_error_iff.mp fails
    cases reason with
    | error e => exact .inl ⟨e, rfl⟩
    | defect defect =>
      refine .inr ⟨defect, rfl, Call.evaluate_stops within wideFrame ?_ defect evaluated⟩
      exact ⟨by omega, bounds.2.2.1, by dsimp only; omega, by dsimp only; omega⟩

/-- Where a visit fails, a call does. -/
theorem Reaches.failsAt (reached : d.Reaches rows i before buffer) (compares : d.ComparesRows rows)
    (within : ∀ c ∈ d.calls, c.Within width) (inside : i < rows.size) {fault : Fault WindowError}
    (fails : d.visit buffer i before = .error fault) : d.FailsAt rows i buffer fault := by
  have size : buffer.size = rows.size := reached.leaves.size_eq
  have there : i < buffer.size := size ▸ inside
  obtain ⟨p, found, lies⟩ := positionAt_ok compares inside
  have located : d.locate buffer i before = .ok p :=
    (reached.leaves.positionAt_eq inside).symm.trans found
  obtain ⟨f, framed, -⟩ := (size ▸ lies : p.Lies buffer.size i).frame_ok
  rw [visit, located] at fails
  simp only [framed, Guarded.lift_eq, Guarded.ofDefect_ok, ok_bind] at fails
  rcases bind_eq_error_iff.mp fails with failed | ⟨results, computed, fails⟩
  · obtain ⟨k, c, member, failed, earlier⟩ := resultsFrom_eq_error failed
    refine ⟨p, f, ⟨⟨before, reached, located⟩, framed⟩, k, c, member, failed, earlier, ?_⟩
    exact resultAt_eq_error wide reached inside found lies framed member
      (within c (List.mem_of_getElem? member)) failed
  · have room := (reached.room wide (Array.getElem?_eq_getElem there)).1
    rw [← (resultsFrom_ok computed).1] at room
    simp only [rowAt_of_lt there, write_eq_ok room, Guarded.ofDefect_ok, ok_bind] at fails
    cases fails

end Failing

/-- However it ends, the walk changes no cell outside the reserved ones. If it succeeds every row
has the results of all calls. If it fails, a call fails at the row where it stopped: the rows before
have all their results, and that row and those behind it are as they were, though calls before the
failed one had a result for it. -/
theorem walk_writes_rows (d : Definition) (rows : Array Row) {width : Nat}
    (compares : d.ComparesRows rows) (within : ∀ c ∈ d.calls, c.Within width)
    (wide : ∀ row ∈ rows.toList, d.width + d.calls.length ≤ row.length ∧ width ≤ row.length) :
    let left := (d.walk rows).1
    left.size = rows.size ∧
    (∀ (i : Nat) row, rows[i]? = some row → ∃ now, left[i]? = some now ∧ now.length = row.length ∧
      ∀ k, k < d.width ∨ d.width + d.calls.length ≤ k → now[k]? = row[k]?) ∧
    ((d.walk rows).2 = .ok () → ∀ (i : Nat) now, left[i]? = some now → d.HasResults rows i now) ∧
    ∀ fault, (d.walk rows).2 = .error fault → ∃ stop, stop < rows.size ∧
      d.FailsAt rows stop left fault ∧
      (∀ (i : Nat) now, i < stop → left[i]? = some now → d.HasResults rows i now) ∧
      ∀ i, stop ≤ i → left[i]? = rows[i]? := by
  intro left
  obtain ⟨stop, last, reached, ending⟩ := Reaches.ends (d := d) .start (Nat.zero_add rows.size)
  have written : ∀ (i : Nat) now, i < stop → left[i]? = some now → d.HasResults rows i now := by
    intro i now behind present
    obtain ⟨row, buffer, p, f, results, given, stands, computed, there⟩ := reached.passed behind
    obtain rfl := Option.some.inj (present.symm.trans there)
    have room := (wide row (Array.mem_toList_iff.mpr (Array.mem_of_getElem? given))).1
    refine ⟨buffer, p, f, stands, fun k c member => ?_⟩
    obtain ⟨cell, value, listed⟩ := (resultsFrom_ok computed).2 k c member
    refine ⟨cell, value, ?_⟩
    rw [Row.getElem?_overwrite (by omega) (List.getElem?_eq_some_iff.mp listed).1, listed]
  refine ⟨reached.leaves.size_eq, fun i row given => ?_, fun succeeded i now present => ?_,
    fun fault failed => ?_⟩
  · by_cases behind : i < stop
    · obtain ⟨row', _, _, _, results, given', -, computed, there⟩ := reached.passed behind
      obtain rfl := Option.some.inj (given.symm.trans given')
      have room := (wide row (Array.mem_toList_iff.mpr (Array.mem_of_getElem? given))).1
      have length := (resultsFrom_ok computed).1
      obtain ⟨row', given', same⟩ := reached.length_eq there
      obtain rfl := Option.some.inj (given.symm.trans given')
      refine ⟨_, there, same, fun k outside => ?_⟩
      exact Row.getElem?_overwrite_outside (length ▸ room) (length ▸ outside)
    · exact ⟨row, (reached.leaves.ahead i (Nat.not_lt.mp behind)).trans given, rfl, fun _ _ => rfl⟩
  · rcases ending with ⟨-, rfl⟩ | ⟨fault, failed, -⟩
    · exact written i now (reached.leaves.size_eq ▸ (Array.getElem?_eq_some_iff.mp present).1)
        present
    · cases succeeded.symm.trans failed
  · rcases ending with ⟨succeeded, -⟩ | ⟨fault', failed', inside, fails⟩
    · cases succeeded.symm.trans failed
    · obtain rfl := Except.error.inj (failed.symm.trans failed')
      exact ⟨stop, inside, reached.failsAt wide compares within inside fails, written,
        reached.leaves.ahead⟩

/-- The sum overflows at the second row, whose row number was computed before; a cell behind the
reserved ones holds something. -/
theorem walk_writes_rows_overflow :
    let d : Definition := ⟨1, [⟨.rowNumber, []⟩, ⟨.sum, [.column 0]⟩], none, some (.ascending 0)⟩
    let largest : Cell := .value (.integer .int64 9223372036854775807 (by decide))
    let rows : Array Row := #[[.ofCount 1, .untyped, .ofBool true, .ofCount 5],
      [largest, .untyped, .untyped, .ofCount 6], [largest, .untyped, .untyped, .ofCount 7]]
    let left := (d.walk rows).1
    (d.ComparesRows rows ∧ (∀ c ∈ d.calls, c.Within 1) ∧
      ∀ row ∈ rows.toList, d.width + d.calls.length ≤ row.length ∧ 1 ≤ row.length) ∧
    left = rows.setIfInBounds 0 [.ofCount 1, .ofCount 1, .ofCount 1, .ofCount 5] ∧
    ∃ stop, stop < 3 ∧ d.FailsAt rows stop left (.error (.evaluation .sum .sumOverflow)) ∧
      (∀ (i : Nat) now, i < stop → left[i]? = some now → d.HasResults rows i now) ∧
      ∀ i, stop ≤ i → left[i]? = rows[i]? := by
  intro d largest rows left
  have typed : ∀ row ∈ rows.toList, Row.HasTypes [.int64] row := by
    unfold Row.HasTypes
    decide
  have compares : d.ComparesRows rows := comparesRows_of_types rfl (by decide) typed
  have within : ∀ c ∈ d.calls, c.Within 1 := by decide
  have wide : ∀ row ∈ rows.toList, d.width + d.calls.length ≤ row.length ∧ 1 ≤ row.length := by
    decide
  have failed : (d.walk rows).2 = .error (.error (.evaluation .sum .sumOverflow)) := by
    decide +kernel
  have result : left = rows.setIfInBounds 0 [.ofCount 1, .ofCount 1, .ofCount 1, .ofCount 5] := by
    decide +kernel
  obtain ⟨-, -, -, stops⟩ := walk_writes_rows d rows compares within wide
  exact ⟨⟨compares, within, wide⟩, result, stops _ failed⟩

end Definition
end Windowing
