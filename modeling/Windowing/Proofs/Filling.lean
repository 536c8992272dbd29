import Windowing.Proofs.Execution
import Windowing.Proofs.Typing

/-!
What a walk leaves in the reserved cells, whatever the orders compare and however the rows lie. The
bounds of a position always enclose its row, so no frame is empty, and each row the walk has passed
holds results of the types that were announced for the calls.
-/
namespace Windowing

structure Position.Encloses (size i : Nat) (p : Position) : Prop where
  start_le : p.partitionStart ≤ i
  lt_frameEnd : i < p.frameEnd
  frameEnd_le : p.frameEnd ≤ p.partitionEnd
  partitionEnd_le : p.partitionEnd ≤ size

/-- The frame of an enclosed row holds that row at least. -/
theorem Position.Encloses.holds {types : List DataType} {rows : Array Row} {i : Nat} {p : Position}
    {f : Frame} (encloses : p.Encloses rows.size i) (framed : p.frame rows i = .ok f)
    (typed : ∀ (j : Nat) row, rows[j]? = some row → row.HasTypes types) : f.Holds types := by
  obtain ⟨⟨nonempty, within, -, -⟩, rfl⟩ := Position.frame_eq_ok_iff.mp framed
  refine ⟨⟨Nat.le_refl _, nonempty, within⟩, ?_, fun row member => ?_⟩
  · have := encloses.start_le
    have := encloses.lt_frameEnd
    simp only [Frame.size]
    omega
  · obtain ⟨j, found⟩ := List.mem_iff_getElem?.mp member
    simp only [Frame.rows, Array.getElem?_toList, Array.getElem?_extract] at found
    split at found
    · exact typed _ row found
    · cases found

/-- A row of an array after one of its rows was replaced. -/
theorem getElem?_replaced {α : Type} {rows : Array α} {i j : Nat} {new row : α}
    (found : (rows.setIfInBounds i new)[j]? = some row) :
    j = i ∧ row = new ∨ j ≠ i ∧ rows[j]? = some row := by
  rw [Array.getElem?_setIfInBounds] at found
  split at found
  · rename_i here
    split at found
    · exact .inl ⟨here.symm, (Option.some.inj found).symm⟩
    · cases found
  · rename_i elsewhere
    exact .inr ⟨Ne.symm elsewhere, found⟩

namespace Definition

variable {d : Definition} {rows : Array Row} {i : Nat} {before : Option Position}

theorem opening_encloses (inside : i < rows.size) {p : Position}
    (opened : d.opening rows i = .ok p) :
    p.Encloses rows.size i := by
  obtain ⟨partitionEnd, partition, opened⟩ := bind_eq_ok_iff.mp opened
  obtain ⟨frameEnd, run, last⟩ := bind_eq_ok_iff.mp opened
  obtain rfl := Except.ok.inj last
  have first := Peers.runEnd_bounds inside partition
  have second := Peers.runEnd_bounds first.1 run
  exact ⟨Nat.le_refl i, second.1, second.2, first.2⟩

/-- From row to row the bounds enclose the row at hand, even if the rows are not sorted. -/
theorem locate_encloses (inside : i < rows.size) {p : Position}
    (earlier : ∀ q, before = some q → 0 < i ∧ q.Encloses rows.size (i - 1))
    (located : d.locate rows i before = .ok p) : p.Encloses rows.size i := by
  cases before with
  | none => exact opening_encloses inside located
  | some q =>
    obtain ⟨positive, start_le, lt_frameEnd, frameEnd_le, partitionEnd_le⟩ := earlier q rfl
    by_cases last : i = q.partitionEnd
    · rw [locate, if_pos last] at located
      exact opening_encloses inside located
    · rw [locate, if_neg last, following] at located
      have within : i < q.partitionEnd := by omega
      split at located
      · rename_i peer
        obtain rfl := Except.ok.inj located
        exact ⟨by dsimp only; omega, peer, frameEnd_le, partitionEnd_le⟩
      · obtain ⟨frameEnd, run, last⟩ := bind_eq_ok_iff.mp located
        obtain rfl := Except.ok.inj last
        have bounds := Peers.runEnd_bounds within run
        exact ⟨by dsimp only; omega, bounds.1, bounds.2, partitionEnd_le⟩

def Announces (d : Definition) (schema : Schema) (results : List DataType) : Prop :=
  d.calls.mapM (Call.resultType · schema) = .ok results

variable {schema : Schema} {results : List DataType}

/-- What a walk keeps before row `i`: rows of source cells with room for the results, the results
themselves in the rows it has passed, and bounds that enclose the last of them. -/
structure Fills (schema : Schema) (results : List DataType) (rows : Array Row) (i : Nat)
    (before : Option Position) : Prop where
  source : ∀ (j : Nat) row, rows[j]? = some row → row.HasTypes schema.types
  room : ∀ (j : Nat) row, rows[j]? = some row → row.length = schema.width + results.length
  filled : ∀ (j : Nat) row, j < i → rows[j]? = some row →
    row.map Cell.type = schema.types ++ results
  earlier : ∀ q, before = some q → 0 < i ∧ q.Encloses rows.size (i - 1)

/-- A result is of its announced type, be it computed or copied. -/
theorem resultAt_type (fills : Fills schema results rows i before) (inside : i < rows.size)
    (width : d.width = schema.width) {p : Position} {f : Frame}
    (located : d.locate rows i before = .ok p) (framed : p.frame rows i = .ok f) {k : Nat}
    {c : Call} {t : DataType} (checked : c.resultType schema = .ok t)
    (announced : results[k]? = some t) {cell : Cell}
    (done : resultAt rows i p f (d.width + k) c = .ok cell) :
    cell.type = t := by
  unfold resultAt at done
  split at done
  · rename_i copies
    obtain ⟨q, rfl, -⟩ := locate_shares located (Bool.and_eq_true_iff.mp copies).1
    obtain ⟨positive, -⟩ := fills.earlier q rfl
    obtain ⟨row, last, found⟩ := bind_eq_ok_iff.mp done
    have last := rowAt_eq_ok_iff.mp (Guarded.ofDefect_eq_ok_iff.mp last)
    have found := Row.cellAt_eq_ok_iff.mp (Guarded.ofDefect_eq_ok_iff.mp found)
    have types := congrArg (·[d.width + k]?) (fills.filled (i - 1) row (by omega) last)
    have source : schema.types.length = d.width := by
      rw [Schema.types, List.length_map, width, Schema.width]
    rw [List.getElem?_append_right (by omega), source, Nat.add_sub_cancel_left, announced,
      List.getElem?_map, found] at types
    exact Option.some.inj types
  · have holds := (locate_encloses inside fills.earlier located).holds framed fills.source
    exact Call.evaluate_type checked holds (Guarded.mapError_eq_ok_iff.mp done)

theorem resultsFrom_types (fills : Fills schema results rows i before) (inside : i < rows.size)
    (width : d.width = schema.width) (announces : d.Announces schema results) {p : Position}
    {f : Frame} (located : d.locate rows i before = .ok p) (framed : p.frame rows i = .ok f)
    {cells : List Cell} (computed : resultsFrom rows i p f d.width d.calls = .ok cells) :
    cells.map Cell.type = results := by
  obtain ⟨count, checked⟩ := mapM_eq_ok announces
  obtain ⟨length, each⟩ := resultsFrom_ok computed
  apply List.ext_getElem?
  intro k
  rw [List.getElem?_map]
  rcases Nat.lt_or_ge k d.calls.length with call | beyond
  · obtain ⟨t, type, announced⟩ := checked k _ (List.getElem?_eq_getElem call)
    obtain ⟨cell, done, place⟩ := each k _ (List.getElem?_eq_getElem call)
    rw [place, announced, Option.map_some,
      resultAt_type fills inside width located framed type announced done]
  · rw [List.getElem?_eq_none (length ▸ beyond), List.getElem?_eq_none (count ▸ beyond),
      Option.map_none]

theorem Fills.next (fills : Fills schema results rows i before) (width : d.width = schema.width)
    (announces : d.Announces schema results) {p : Position} {row : Row}
    (visited : d.visit rows i before = .ok (p, row)) :
    Fills schema results (rows.setIfInBounds i row) (i + 1) (some p) := by
  obtain ⟨q, located, visited⟩ := bind_eq_ok_iff.mp visited
  obtain ⟨f, framed, visited⟩ := bind_eq_ok_iff.mp visited
  obtain ⟨cells, computed, visited⟩ := bind_eq_ok_iff.mp visited
  obtain ⟨old, present, visited⟩ := bind_eq_ok_iff.mp visited
  obtain ⟨written, wrote, visited⟩ := bind_eq_ok_iff.mp visited
  obtain ⟨rfl, rfl⟩ := Prod.mk.inj (Except.ok.inj visited)
  have located := Guarded.ofDefect_eq_ok_iff.mp located
  have current := rowAt_eq_ok_iff.mp (Guarded.ofDefect_eq_ok_iff.mp present)
  have inside : i < rows.size := (Array.getElem?_eq_some_iff.mp current).1
  have framed := Guarded.ofDefect_eq_ok_iff.mp framed
  have types := resultsFrom_types fills inside width announces located framed computed
  have count : cells.length = results.length := by rw [← types, List.length_map]
  have length := fills.room i old current
  have source := fills.source i old current
  rw [write_eq_ok (by omega)] at wrote
  obtain rfl := Except.ok.inj wrote
  have leading : (old.overwrite d.width cells).take d.width = old.take d.width :=
    Row.take_overwrite (by omega)
  have whole : (old.overwrite d.width cells).map Cell.type = schema.types ++ results := by
    have own : (old.take d.width).map Cell.type = schema.types := by
      have typed := fills.source i old current
      rwa [Row.HasTypes, Schema.types, List.length_map, ← Schema.width, ← width] at typed
    rw [Row.overwrite, List.drop_of_length_le (by omega), List.append_nil,
      List.map_append, own, types]
  refine ⟨fun j other found => ?_, fun j other found => ?_, fun j other less found => ?_,
    fun r same => ?_⟩
  · rcases getElem?_replaced found with ⟨-, rfl⟩ | ⟨-, untouched⟩
    · rw [Row.HasTypes, List.map_take, whole, List.take_left]
    · exact fills.source j other untouched
  · rcases getElem?_replaced found with ⟨-, rfl⟩ | ⟨-, untouched⟩
    · have lengths := congrArg List.length whole
      rwa [List.length_map, List.length_append, Schema.types, List.length_map] at lengths
    · exact fills.room j other untouched
  · rcases getElem?_replaced found with ⟨-, rfl⟩ | ⟨elsewhere, untouched⟩
    · exact whole
    · exact fills.filled j other (by omega) untouched
  · obtain rfl := Option.some.inj same
    rw [Array.size_setIfInBounds]
    exact ⟨Nat.succ_pos i, locate_encloses inside fills.earlier located⟩

/-- A walk that comes to its end has filled in all rows. -/
theorem walkFrom_types (width : d.width = schema.width) (announces : d.Announces schema results)
    (remaining : Nat) (fills : Fills schema results rows i before)
    (rest : i + remaining = rows.size) (done : (d.walkFrom remaining i before rows).2 = .ok ()) :
    ∀ row ∈ (d.walkFrom remaining i before rows).1.toList,
      row.map Cell.type = schema.types ++ results := by
  induction remaining generalizing i before rows with
  | zero =>
    intro row member
    obtain ⟨j, found⟩ := List.mem_iff_getElem?.mp member
    rw [walkFrom, Array.getElem?_toList] at found
    dsimp only at found
    have inside := (Array.getElem?_eq_some_iff.mp found).1
    exact fills.filled j row (by omega) found
  | succ remaining ih =>
    rw [walkFrom] at done ⊢
    cases visited : d.visit rows i before with
    | error e =>
      rw [visited] at done
      cases done
    | ok r =>
      obtain ⟨p, row⟩ := r
      rw [visited] at done
      exact ih (fills.next width announces visited) (by rw [Array.size_setIfInBounds]; omega) done

end Definition

namespace Executor

variable {x : Executor} {d : Definition} {schema : Schema} {results : List DataType}

/-- What is computed of rows with room for the results has the types of the source and those
announced. -/
theorem compute_types (width : d.width = schema.width) (announces : d.Announces schema results)
    {rows computed : List Row} (typed : ∀ row ∈ rows, row.map Cell.type = schema.types)
    (done : x.compute d (rows.map (Batch.reserve · d.calls.length)) = .ok computed) :
    ∀ row ∈ computed, row.map Cell.type = schema.types ++ results := by
  obtain ⟨sorted, ordered, -⟩ := bind_eq_ok_iff.mp done
  have ordered := Guarded.ofDefect_eq_ok_iff.mp ordered
  have reserved : ∀ row ∈ sorted, row.HasTypes schema.types ∧
      row.length = schema.width + results.length := by
    intro row member
    have room := Batch.reserve_rows typed row ((sort_perm ordered).mem_iff.mpr member)
    rwa [Schema.types, List.length_map, ← (mapM_eq_ok announces).1] at room
  rw [compute_eq ordered] at done
  obtain ⟨ended, rfl⟩ := Definition.outcome_eq_ok_iff.mp done
  have start : Definition.Fills schema results sorted.toArray 0 none := by
    refine ⟨fun j row found => ?_, fun j row found => ?_, fun j row before => ?_,
      fun q absent => by cases absent⟩
    · rw [List.getElem?_toArray] at found
      exact (reserved row (List.mem_of_getElem? found)).1
    · rw [List.getElem?_toArray] at found
      exact (reserved row (List.mem_of_getElem? found)).2
    · exact absurd before (Nat.not_lt_zero j)
  exact Definition.walkFrom_types width announces sorted.toArray.size start (Nat.zero_add _) ended

end Executor
end Windowing
