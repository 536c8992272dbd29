import Windowing.Proofs.Extremes
import Windowing.Proofs.Growth

/-!
How results develop along a partition. Each frame continues those before it, so that counts do not
fall, an extreme only gives way to a better one, and values at a place of the frame stay once they
are reached.
-/
namespace Windowing

theorem getElem?_continued {α : Type} {xs ys : List α} (part : xs <+: ys) {i : Nat} {x : α}
    (found : xs[i]? = some x) : ys[i]? = some x := by
  obtain ⟨inside, rfl⟩ := List.getElem?_eq_some_iff.mp found
  exact List.prefix_iff_getElem?.mp part i inside

namespace Call

theorem one_eq_ok_iff {c : Call} {a : Argument} : c.one = .ok a ↔ c.arguments = [a] := by
  rw [one, Guarded.ofError_eq_ok_iff, mapError_eq_ok_iff, oneArgument_eq_ok_iff]

theorem positionOf_eq_ok_iff {cell : Cell} {n : Nat} : positionOf cell = .ok n ↔
    0 < n ∧ ∃ fits, cell.cast .int64 = .ok (.value (.integer .int64 n fits)) := by
  constructor
  · intro done
    obtain ⟨found, cast, done⟩ := bind_eq_ok_iff.mp done
    rw [mapError_eq_ok_iff] at cast
    split at done
    · rename_i m fits
      split at done
      · rename_i positive
        obtain ⟨k, rfl⟩ := Int.eq_ofNat_of_zero_le (Int.le_of_lt positive)
        obtain rfl : k = n := Except.ok.inj done
        exact ⟨Int.natCast_pos.mp positive, fits, cast⟩
      · cases done
    · cases done
  · rintro ⟨positive, fits, cast⟩
    simp only [positionOf, cast, Except.mapError, ok_bind, if_pos (Int.natCast_pos.mpr positive)]
    rfl

def counted (c : Call) (rows : List Row) : Nat :=
  match c.arguments with
  | [] => rows.length
  | a :: _ => (a.presents rows).length

theorem counted_mono (c : Call) {rows more : List Row} (part : rows <+: more) :
    c.counted rows ≤ c.counted more := by
  unfold counted
  split
  · exact part.length_le
  · exact (Argument.presents_grow _ part).length_le

theorem counted_le (c : Call) (rows : List Row) : c.counted rows ≤ rows.length := by
  unfold counted
  split
  · exact Nat.le_refl _
  · exact List.length_filterMap_le _ _

/-- In a partition `nth_value` of these arguments reads the `n`-th row: the position is that of the
first row. -/
structure ReadsNth (c : Call) (types : List DataType) (part : List Row) (a : Argument)
    (t : DataType) (n : Nat) :
    Prop where
  type : a.typeIn types = some t
  positive : 0 < n
  position : ∃ position first cell fits, c.arguments = [a, position] ∧ part[0]? = some first ∧
    position.evaluate first = .ok cell ∧ cell.cast .int64 = .ok (.value (.integer .int64 n fits))

theorem ReadsNth.unique {c : Call} {types : List DataType} {part : List Row} {a b : Argument}
    {t u : DataType} {n m : Nat} (left : c.ReadsNth types part a t n)
    (right : c.ReadsNth types part b u m) :
    a = b ∧ t = u ∧ n = m := by
  obtain ⟨position, first, cell, fits, arguments, found, value, cast⟩ := left.position
  obtain ⟨position', first', cell', fits', arguments', found', value', cast'⟩ := right.position
  obtain ⟨rfl, rfl⟩ : a = b ∧ position = position' := by simpa using arguments.symm.trans arguments'
  obtain rfl := Option.some.inj (found.symm.trans found')
  obtain rfl := Except.ok.inj (value.symm.trans value')
  refine ⟨rfl, Option.some.inj (left.type.symm.trans right.type), ?_⟩
  simpa using cast.symm.trans cast'

theorem ReadsNth.continued {c : Call} {types : List DataType} {rows part : List Row} {a : Argument}
    {t : DataType} {n : Nat} (reads : c.ReadsNth types rows a t n) (more : rows <+: part) :
    c.ReadsNth types part a t n := by
  obtain ⟨position, first, cell, fits, arguments, found, value⟩ := reads.position
  exact ⟨reads.type, reads.positive, position, first, cell, fits, arguments,
    getElem?_continued more found, value⟩

section Frame

variable {types : List DataType} {f : Frame} (holds : f.Holds types) {c : Call}
  (within : c.Within types.length) {index : Nat} {cell : Cell}

include holds within

theorem evaluate_count (function : c.function = .count) (index : Nat) :
    c.evaluate index f = .ok (.ofCount (c.counted f.rows)) := by
  rw [evaluate, function]
  cases arguments : c.arguments with
  | nil => simp only [counted, arguments, Frame.length_rows holds.valid]
  | cons a rest =>
    obtain ⟨t, known⟩ := Argument.exists_typeIn (within a (by simp [arguments]))
    simp only [counted, arguments, countPresent, holds.foldPresent known, foldlM_count,
      Nat.zero_add]
    rfl

theorem evaluate_extreme_eq_ok {keep : Ordering} (known : (c.function, keep) ∈ extremes)
    (done : c.evaluate index f = .ok cell) : ∃ a t, c.arguments = [a] ∧ a.typeIn types = some t ∧
      (a.presents f.rows = [] ∧ cell = .null t ∨
        ∃ v, cell = .value v ∧ IsExtreme keep (a.presents f.rows) v) := by
  rw [evaluate_extreme c known] at done
  obtain ⟨a, single, done⟩ := bind_eq_ok_iff.mp done
  have arguments := one_eq_ok_iff.mp single
  obtain ⟨t, type⟩ := Argument.exists_typeIn (within a (by simp [arguments]))
  refine ⟨a, t, arguments, type, ?_⟩
  have types := Argument.presents_type type holds.typed
  rw [extreme, holds.foldPresent type, holds.frameType type] at done
  rcases foldlM_better (strict_of_extremes known) types with ⟨empty, folded⟩ | ⟨v, folded, extreme⟩
  · rw [folded] at done
    exact .inl ⟨empty, (Except.ok.inj done).symm⟩
  · rw [folded] at done
    exact .inr ⟨v, (Except.ok.inj done).symm, extreme⟩

omit within in
theorem evaluate_firstValue_eq_ok (function : c.function = .firstValue)
    (done : c.evaluate index f = .ok cell) :
    ∃ a first, c.arguments = [a] ∧ f.rows[0]? = some first ∧ a.evaluate first = .ok cell := by
  rw [evaluate, function] at done
  obtain ⟨a, single, done⟩ := bind_eq_ok_iff.mp done
  rw [valueAt, holds.not_isEmpty, if_neg Bool.false_ne_true] at done
  obtain ⟨first, found, value⟩ := bind_eq_ok_iff.mp (Guarded.ofDefect_eq_ok_iff.mp done)
  exact ⟨a, first, one_eq_ok_iff.mp single, (Frame.row_eq_ok_iff holds.valid).mp found, value⟩

theorem evaluate_nthValue_eq_ok (function : c.function = .nthValue)
    (done : c.evaluate index f = .ok cell) :
    ∃ a t n, c.ReadsNth types f.rows a t n ∧ (f.rows.length < n → cell = .null t) ∧
      (n ≤ f.rows.length → ∃ row, f.rows[n - 1]? = some row ∧ a.evaluate row = .ok cell) := by
  rw [evaluate, function] at done
  obtain ⟨⟨a, position⟩, both, done⟩ := bind_eq_ok_iff.mp done
  have arguments :=
    twoArguments_eq_ok_iff.mp (mapError_eq_ok_iff.mp (Guarded.ofError_eq_ok_iff.mp both))
  obtain ⟨t, type⟩ := Argument.exists_typeIn (within a (by simp [arguments]))
  dsimp only at done
  rw [nth, holds.not_isEmpty, if_neg Bool.false_ne_true, holds.frameType type] at done
  obtain ⟨first, found, done⟩ := bind_eq_ok_iff.mp done
  obtain ⟨place, value, done⟩ := bind_eq_ok_iff.mp done
  obtain ⟨n, read, done⟩ := bind_eq_ok_iff.mp done
  obtain ⟨positive, fits, cast⟩ := positionOf_eq_ok_iff.mp (Guarded.ofError_eq_ok_iff.mp read)
  have found := (Frame.row_eq_ok_iff holds.valid).mp (Guarded.ofDefect_eq_ok_iff.mp found)
  refine ⟨a, t, n, ⟨type, positive, position, first, place, fits, arguments, found,
    Guarded.ofDefect_eq_ok_iff.mp value, cast⟩, fun short => ?_, fun long => ?_⟩
  · rw [Frame.length_rows holds.valid] at short
    rw [if_pos short] at done
    exact (Except.ok.inj done).symm
  · rw [Frame.length_rows holds.valid] at long
    rw [if_neg (Nat.not_lt.mpr long)] at done
    obtain ⟨row, there, value'⟩ := bind_eq_ok_iff.mp done
    exact ⟨row, (Frame.row_eq_ok_iff holds.valid).mp (Guarded.ofDefect_eq_ok_iff.mp there),
      Guarded.ofDefect_eq_ok_iff.mp value'⟩

end Frame

/-- In a longer frame an extreme is kept, or gives way to one that it does not beat. -/
theorem evaluate_extreme_continued {types : List DataType} {f g : Frame} (holds : f.Holds types)
    (holds' : g.Holds types) (part : f.rows <+: g.rows) {c : Call} (within : c.Within types.length)
    {keep : Ordering} (known : (c.function, keep) ∈ extremes) {i j : Nat} {u : Value} {cell : Cell}
    (done : c.evaluate i f = .ok (.value u)) (done' : c.evaluate j g = .ok cell) :
    ∃ v o, cell = .value v ∧ u.compare? v = some o ∧ o ≠ keep := by
  obtain ⟨a, t, arguments, type, ⟨-, null⟩ | ⟨v, value, extreme⟩⟩ :=
    evaluate_extreme_eq_ok holds within known done
  · cases null
  obtain rfl := Cell.value.inj value
  obtain ⟨b, t', arguments', type', shown⟩ := evaluate_extreme_eq_ok holds' within known done'
  obtain rfl : a = b := by simpa using arguments.symm.trans arguments'
  have member : u ∈ a.presents g.rows := (Argument.presents_grow _ part).subset extreme.member
  rcases shown with ⟨empty, -⟩ | ⟨v, rfl, extreme'⟩
  · rw [empty] at member
    cases member
  · have types := Argument.presents_type type' holds'.typed
    obtain ⟨o, answer⟩ :=
      Value.compare?_of_type_eq ((types u member).trans (types v extreme'.member).symm)
    exact ⟨v, o, rfl, answer, fun better => extreme'.unbeaten u member (better ▸ answer)⟩

end Call

namespace Definition

/-- The row shows the argument of the `n`-th row of the partition, and a null until its frame has so
many. -/
structure ShowsNth (d : Definition) (part : List Row) (a : Argument) (t : DataType) (n : Nat)
    (row : Row) (column : Nat) : Prop where
  short : (d.frameMates part row).length < n → row[column]? = some (.null t)
  reached : n ≤ (d.frameMates part row).length →
    ∃ nth cell, part[n - 1]? = some nth ∧ a.evaluate nth = .ok cell ∧ row[column]? = some cell

structure Develops (d : Definition) (types : List DataType) (part : List Row) : Prop where
  frames : part.Pairwise fun row later => d.frameMates part row <+: d.frameMates part later
  /-- Counts do not fall. They stand as they are below half the range of 64 bits. -/
  counts : ∀ (k : Nat) c, d.calls[k]? = some c → c.function = .count →
      part.Pairwise fun row later =>
    ∃ n m, n ≤ m ∧ m ≤ part.length ∧ row[d.width + k]? = some (.ofCount n) ∧
      later[d.width + k]? = some (.ofCount m) ∧
      (part.length < countLimit / 2 → row.Shows (d.width + k) n ∧ later.Shows (d.width + k) m)
  /-- An extreme does not beat those after it. -/
  extremes : ∀ (k : Nat) c keep, d.calls[k]? = some c → (c.function, keep) ∈ Call.extremes →
    part.Pairwise fun row later => ∀ u, row[d.width + k]? = some (.value u) →
      ∃ v o, later[d.width + k]? = some (.value v) ∧ u.compare? v = some o ∧ o ≠ keep
  /-- The first value is that of the first row throughout. -/
  firstValues : ∀ (k : Nat) c, d.calls[k]? = some c → c.function = .firstValue →
    ∃ a first cell, c.arguments = [a] ∧ part[0]? = some first ∧ a.evaluate first = .ok cell ∧
      ∀ row ∈ part, row[d.width + k]? = some cell
  /-- Once a frame has reached it, the value at a place is that of the row there. -/
  nthValues : ∀ (k : Nat) c, d.calls[k]? = some c → c.function = .nthValue →
    ∃ a t n, c.ReadsNth types part a t n ∧ ∀ row ∈ part, d.ShowsNth part a t n row (d.width + k)
  /-- Peers have the same results of what depends on the frame alone. -/
  peers : ∀ (k : Nat) c, d.calls[k]? = some c → c.function.frameOnly = true →
    ∀ row ∈ part, ∀ peer ∈ part,
    d.peers row peer = true → ∃ cell, row[d.width + k]? = some cell ∧ peer[d.width + k]? = some cell

structure Computed (d : Definition) (types : List DataType) (part : List Row) : Prop
    extends d.Arranged types part where
  together : ∀ row ∈ part, ∀ mate ∈ part, d.mates row mate = true
  results : ∀ (i : Nat) row, part[i]? = some row → ∀ (k : Nat) c, d.calls[k]? = some c →
    ∃ cell, d.declaredResult part i row c = .ok cell ∧ row[d.width + k]? = some cell

namespace Computed

variable {d : Definition} {types : List DataType} {part : List Row}
  (computed : d.Computed types part)

include computed

theorem frameMates_prefix_part {row : Row} (member : row ∈ part) :
    d.frameMates part row <+: part := by
  have whole : part.filter (d.mates row) = part :=
    List.filter_eq_self.mpr (computed.together row member)
  have within := computed.toArranged.frameMates_prefix_partition member
  rwa [whole] at within

theorem frames :
    part.Pairwise fun row later => d.frameMates part row <+: d.frameMates part later := by
  rw [List.pairwise_iff_getElem]
  intro i j inside inside' order
  have mate := computed.together _ (List.getElem_mem inside) _ (List.getElem_mem inside')
  exact computed.toArranged.frameMates_grow inside inside' mate (Nat.le_of_lt order)

variable (reads : d.ReadsSource) {k : Nat} {c : Call} (call : d.calls[k]? = some c)

include reads call

theorem within : c.Within types.length := computed.width ▸ reads.calls c (List.mem_of_getElem? call)

/-- What a row shows for a call was computed over its frame in the partition. -/
theorem exists_evaluate {row : Row} (member : row ∈ part) : ∃ f i cell, f.Holds types ∧
    f.rows = d.frameMates part row ∧ c.evaluate i f = .ok cell ∧ row[d.width + k]? = some cell := by
  obtain ⟨i, found⟩ := List.mem_iff_getElem?.mp member
  obtain ⟨cell, value, place⟩ := computed.results i row found k c call
  have holds := declaredFrame_holds computed.width reads computed.typed member i
  exact ⟨_, _, cell, holds, d.rows_declaredFrame part i row, value, place⟩

theorem counts (function : c.function = .count) : part.Pairwise fun row later =>
    ∃ n m, n ≤ m ∧ m ≤ part.length ∧ row[d.width + k]? = some (.ofCount n) ∧
      later[d.width + k]? = some (.ofCount m) ∧
      (part.length < countLimit / 2 → row.Shows (d.width + k) n ∧ later.Shows (d.width + k) m) := by
  have within := computed.within reads call
  refine computed.frames.imp_of_mem fun {row later} member member' grows => ?_
  obtain ⟨f, i, cell, holds, rows, value, place⟩ := computed.exists_evaluate reads call member
  obtain ⟨g, j, cell', holds', rows', value', place'⟩ := computed.exists_evaluate reads call member'
  rw [Call.evaluate_count holds within function, rows] at value
  rw [Call.evaluate_count holds' within function, rows'] at value'
  obtain rfl := Except.ok.inj value
  obtain rfl := Except.ok.inj value'
  have le := c.counted_mono grows
  have most : c.counted (d.frameMates part later) ≤ part.length :=
    Nat.le_trans (c.counted_le _) (computed.frameMates_prefix_part member').length_le
  refine ⟨_, _, le, most, place, place', fun few => ?_⟩
  constructor
  · obtain ⟨fits, shown⟩ := Cell.ofCount_exact (Nat.lt_of_le_of_lt (Nat.le_trans le most) few)
    exact ⟨fits, place.trans (congrArg some shown)⟩
  · obtain ⟨fits, shown⟩ := Cell.ofCount_exact (Nat.lt_of_le_of_lt most few)
    exact ⟨fits, place'.trans (congrArg some shown)⟩

theorem extremes {keep : Ordering} (known : (c.function, keep) ∈ Call.extremes) :
    part.Pairwise fun row later => ∀ u, row[d.width + k]? = some (.value u) →
      ∃ v o, later[d.width + k]? = some (.value v) ∧ u.compare? v = some o ∧ o ≠ keep := by
  have within := computed.within reads call
  refine computed.frames.imp_of_mem fun {row later} member member' grows u found => ?_
  obtain ⟨f, i, cell, holds, rows, value, place⟩ := computed.exists_evaluate reads call member
  obtain ⟨g, j, cell', holds', rows', value', place'⟩ := computed.exists_evaluate reads call member'
  obtain rfl := Option.some.inj (place.symm.trans found)
  rw [← rows, ← rows'] at grows
  obtain ⟨v, o, rfl, answer⟩ :=
    Call.evaluate_extreme_continued holds holds' grows within known value value'
  exact ⟨v, o, place', answer⟩

theorem firstValues (nonempty : part ≠ []) (function : c.function = .firstValue) :
    ∃ a first cell, c.arguments = [a] ∧ part[0]? = some first ∧ a.evaluate first = .ok cell ∧
      ∀ row ∈ part, row[d.width + k]? = some cell := by
  have begins : ∀ row ∈ part, ∃ a first cell, c.arguments = [a] ∧ part[0]? = some first ∧
      a.evaluate first = .ok cell ∧ row[d.width + k]? = some cell := by
    intro row member
    obtain ⟨f, i, cell, holds, rows, value, place⟩ := computed.exists_evaluate reads call member
    obtain ⟨a, first, arguments, found, read⟩ := Call.evaluate_firstValue_eq_ok holds function value
    rw [rows] at found
    have found := getElem?_continued (computed.frameMates_prefix_part member) found
    exact ⟨a, first, cell, arguments, found, read, place⟩
  obtain ⟨top, member⟩ := List.exists_mem_of_ne_nil part nonempty
  obtain ⟨a, first, cell, arguments, found, read, -⟩ := begins top member
  refine ⟨a, first, cell, arguments, found, read, fun row member => ?_⟩
  obtain ⟨b, first', cell', arguments', found', read', place⟩ := begins row member
  obtain rfl : a = b := by simpa using arguments.symm.trans arguments'
  obtain rfl := Option.some.inj (found.symm.trans found')
  obtain rfl := Except.ok.inj (read.symm.trans read')
  exact place

theorem nthValues (nonempty : part ≠ []) (function : c.function = .nthValue) :
    ∃ a t n, c.ReadsNth types part a t n ∧
      ∀ row ∈ part, d.ShowsNth part a t n row (d.width + k) := by
  have within := computed.within reads call
  have each : ∀ row ∈ part, ∃ a t n, c.ReadsNth types part a t n ∧
      d.ShowsNth part a t n row (d.width + k) := by
    intro row member
    obtain ⟨f, i, cell, holds, rows, value, place⟩ := computed.exists_evaluate reads call member
    obtain ⟨a, t, n, readsNth, short, long⟩ :=
      Call.evaluate_nthValue_eq_ok holds within function value
    have begins := computed.frameMates_prefix_part member
    rw [rows] at readsNth short long
    refine ⟨a, t, n, readsNth.continued begins, fun few => place.trans (congrArg some (short few)),
      fun enough => ?_⟩
    obtain ⟨nth, found, read⟩ := long enough
    exact ⟨nth, cell, getElem?_continued begins found, read, place⟩
  obtain ⟨top, member⟩ := List.exists_mem_of_ne_nil part nonempty
  obtain ⟨a, t, n, readsNth, -⟩ := each top member
  refine ⟨a, t, n, readsNth, fun row member => ?_⟩
  obtain ⟨b, u, m, readsNth', shown⟩ := each row member
  obtain ⟨rfl, rfl, rfl⟩ := readsNth.unique readsNth'
  exact shown

theorem peers (alone : c.function.frameOnly = true) :
    ∀ row ∈ part, ∀ peer ∈ part, d.peers row peer = true →
    ∃ cell, row[d.width + k]? = some cell ∧ peer[d.width + k]? = some cell := by
  intro row member peer member' tied
  obtain ⟨f, i, cell, holds, rows, value, place⟩ := computed.exists_evaluate reads call member
  obtain ⟨g, j, cell', holds', rows', value', place'⟩ := computed.exists_evaluate reads call member'
  have same : d.frameMates part row = d.frameMates part peer := by
    obtain ⟨m, inside, rfl⟩ := List.mem_iff_getElem.mp member
    obtain ⟨n, inside', rfl⟩ := List.mem_iff_getElem.mp member'
    exact computed.toArranged.frameMates_eq_of_peers inside inside'
      (computed.together _ member _ member') tied
  have alike : Frame.Alike d.width f g := ⟨holds.valid, holds'.valid, by rw [rows, rows', same]⟩
  have unranked : c.function.frameOnly = false → i = j ∧ Frame.RankedAlike f g := by
    intro ranked
    rw [alone] at ranked
    cases ranked
  have equal := Call.evaluate_congr (reads.calls c (List.mem_of_getElem? call)) alike unranked
  obtain rfl := Except.ok.inj (value.symm.trans (equal.trans value'))
  exact ⟨cell, place, place'⟩

omit call in
theorem develops (nonempty : part ≠ []) : d.Develops types part where
  frames := computed.frames
  counts _ _ call := computed.counts reads call
  extremes _ _ _ call := computed.extremes reads call
  firstValues _ _ call := computed.firstValues reads call nonempty
  nthValues _ _ call := computed.nthValues reads call nonempty
  peers _ _ call := computed.peers reads call

end Computed

section Input

variable {d : Definition} {types : List DataType} {input rows out : List Row}
  (width : d.width = types.length) (reads : d.ReadsSource)

include width

/-- Rows are in order if their source cells are. -/
theorem sorted_of_take (compares : d.ComparesSource) {part : List Row}
    (typed : ∀ row ∈ part, row.HasTypes types)
    (sorted : Sorting.Sorted d.sortOrder.compare (part.map (List.take d.width))) :
    Sorting.Sorted d.sortOrder.compare part := by
  have laws := d.sortOrder_total width compares
  have within : d.sortOrder.Within d.width := ⟨compares.partitionOrder, compares.peerOrder⟩
  refine (List.pairwise_map.mp sorted).imp_of_mem fun {x y} member _ notAfter => ?_
  rcases notAfter with same | answer
  · -- Rows of the same source cells stand for each other, and a row compares to itself.
    have alike : d.sortOrder.compare x y = d.sortOrder.compare x x :=
      RowOrder.compare_congr within rfl same.symm
    exact .of_eq (alike.trans (Sorting.tied_eq_true_iff.mp (laws.tied_refl (typed x member))))
  · rw [RowOrder.compare_congr within (take_twice _ x) (take_twice _ y)] at answer
    exact .inr answer

include reads

theorem computed_partition (typed : ∀ row ∈ input, row.map Cell.type = types)
    (sorts : Sorting.Sorts d.sortOrder.compare (Row.HasTypes types) input rows)
    (done : d.completed rows = .ok out) {first : Row} (member : first ∈ input) :
    d.Computed types (out.filter (d.mates first)) ∧ out.filter (d.mates first) ≠ [] := by
  have compares := reads.toComparesSource
  have laws := d.partitionOrder_total width compares
  have each := sorted_rows width typed sorts
  have inside := sorts.mem_iff.mp member
  have known := (each first inside).1
  have back : (out.filter (d.mates first)).map (List.take d.width) = rows.filter (d.mates first) :=
    map_take_filter width typed sorts done (mates_take compares first)
  have done' :=
    completed_filter laws (fun row there => (each row there).1) width compares inside done
  have typed' : ∀ row ∈ out.filter (d.mates first), row.HasTypes types := by
    intro row there
    have source : row.take d.width ∈ rows.filter (d.mates first) := back ▸ List.mem_map_of_mem there
    have typed' := (each _ (List.mem_filter.mp source).1).1
    rwa [Row.HasTypes, width, take_twice] at typed'
  refine ⟨⟨⟨width, compares, typed', ?_⟩, ?_, ?_⟩, ?_⟩
  · exact sorted_of_take width compares typed' (back ▸ sorts.sorted.filter _)
  · intro row there mate there'
    have turned : d.mates first mate = d.mates row mate :=
      laws.tied_congr known (typed' row there) (typed' mate there') (List.mem_filter.mp there).2
    rw [← turned, (List.mem_filter.mp there').2]
  · intro i row found k c call
    obtain ⟨source, place, computed⟩ := (completed_ok done').2 i row found
    have exact := (each source (List.mem_filter.mp (List.mem_of_getElem? place)).1).2
    obtain ⟨cell, value, shown⟩ := completedRow_call exact computed call
    rw [← back, ← completedRow_take exact computed,
      declaredResult_map (fun x _ => take_twice _ x) reads i
      (List.mem_of_getElem? found) (List.mem_of_getElem? call)] at value
    exact ⟨cell, value, shown⟩
  · intro none
    have itself : first ∈ rows.filter (d.mates first) :=
      List.mem_filter.mpr ⟨inside, laws.tied_refl known⟩
    rw [← back, none] at itself
    cases itself

end Input

end Definition

namespace Executor

/-- Along each partition of an execution that succeeds frames only grow: counts do not fall, an
extreme is kept or gives way to one it does not beat, the first value is that of the first row
throughout, and the value at a place, which the first row tells, is a null of the argument's type
until the frame has so many rows and that of the row at this place from then on. Peers share these
results. -/
theorem execute_develops (x : Executor) (d : Definition) (types : List DataType)
    (batches : List Batch) (blocking : Bool) (accounting : Accounting)
    (delivers : Delivers types batches) (width : d.width = types.length) (reads : d.ReadsSource)
    {r : ResultRows}
    (done : (x.execute d ⟨batches.map .batch, blocking⟩ .never accounting).2 = .ok r) :
    ∀ row ∈ rowsOf batches, d.Develops types (r.rows.filter (d.mates row)) := by
  intro row member
  obtain ⟨sorted, sorts⟩ := exists_sorts width reads.toComparesSource delivers
  obtain ⟨-, out, completed, rfl⟩ :=
    (x.execute_eq_ok_iff blocking accounting delivers width reads sorts).mp done
  obtain ⟨computed, nonempty⟩ :=
    d.computed_partition width reads delivers.row_types sorts completed member
  exact computed.develops reads nonempty

/-- The place is a column, in which only the first row of the partition has a position. -/
theorem execute_develops_position :
    let d : Definition :=
      ⟨4, [⟨.count, [.column 3]⟩, ⟨.min, [.column 3]⟩, ⟨.firstValue, [.column 3]⟩,
      ⟨.nthValue, [.column 3, .column 2]⟩], some (.ascending 0), some (.ascending 1)⟩
    let schema : Schema :=
      ⟨[⟨"k", .int64, true⟩, ⟨"v", .int64, true⟩, ⟨"n", .int64, true⟩, ⟨"x", .int64, true⟩], []⟩
    let first : Row := [.ofCount 1, .ofCount 5, .ofCount 3, .null .int64]
    let peer : Row := [.ofCount 1, .ofCount 5, .ofCount 0, .ofCount 8]
    let last : Row := [.ofCount 1, .ofCount 6, .null .int64, .ofCount 7]
    let other : Row := [.null .int64, .ofCount 5, .ofCount 1, .ofCount 9]
    let batches : List Batch := [⟨schema, [last, first]⟩, ⟨schema, [other, peer]⟩]
    let results : List Row := [[.ofCount 1, .ofCount 8, .null .int64, .null .int64],
      [.ofCount 1, .ofCount 8, .null .int64, .null .int64],
      [.ofCount 2, .ofCount 7, .null .int64, .ofCount 7],
      [.ofCount 1, .ofCount 9, .ofCount 9, .ofCount 9]]
    let rows := [first, peer, last, other].zipWith (· ++ ·) results
    (execute ⟨{}, none⟩ d ⟨batches.map .batch, false⟩ .never .unaccounted).2 = .ok ⟨rows, false⟩ ∧
      d.Develops [.int64, .int64, .int64, .int64] (rows.filter (d.mates first)) ∧
      (rows.filter (d.mates first)).length = 3 := by
  intro d schema first peer last other batches results rows
  have delivers : Delivers [.int64, .int64, .int64, .int64] batches := by decide
  have reads : d.ReadsSource := by decide
  have done : (execute ⟨{}, none⟩ d ⟨batches.map .batch, false⟩ .never .unaccounted).2 =
      .ok ⟨rows, false⟩ := by
    decide +kernel
  have develops :=
    execute_develops ⟨{}, none⟩ d _ batches false .unaccounted delivers rfl reads done
  exact ⟨done, develops first (by decide), by decide +kernel⟩

end Executor
end Windowing
