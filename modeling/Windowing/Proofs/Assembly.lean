import Mathlib.Data.List.Forall2
import Windowing.Batch.Assembly
import Windowing.Proofs.Fault

/-!
What a batch that was built from rows holds: a row for each of them, whose cells are theirs, aligned
to the types of their fields.
-/
namespace Windowing

/-- A cell of the field's type stays as it is. -/
theorem Cell.align_of_type {c : Cell} {target : DataType} (same : c.type = target) :
    c.align target = .ok c := by
  unfold align
  exact if_pos same

/-- A cell of the field's type, and no null if the field takes none; one of type `null` may hold
nothing else. -/
structure Field.Fits (field : Field) (c : Cell) : Prop where
  type : c.type = field.type
  present : c.isNull = true → field.nullable = true ∨ field.type = .null

def Schema.Fits (schema : Schema) (row : Row) : Prop := List.Forall₂ Field.Fits schema.fields row

namespace Schema.Fits

variable {schema : Schema} {row : Row}

theorem length_eq (fits : schema.Fits row) : row.length = schema.width :=
  (List.Forall₂.length_eq fits).symm

theorem map_type (fits : schema.Fits row) : row.map Cell.type = schema.fields.map Field.type := by
  rw [Schema.Fits] at fits
  generalize schema.fields = fields at fits
  induction fits with
  | nil => rfl
  | cons fit _ ih => rw [List.map_cons, List.map_cons, fit.type, ih]

theorem cell (fits : schema.Fits row) {j : Nat} {field : Field}
    (found : schema.fields[j]? = some field) :
    ∃ c, row[j]? = some c ∧ field.Fits c := by
  obtain ⟨inside, rfl⟩ := List.getElem?_eq_some_iff.mp found
  have inside' : j < row.length := List.Forall₂.length_eq fits ▸ inside
  exact ⟨row[j], List.getElem?_eq_getElem inside', List.Forall₂.get fits inside inside'⟩

end Schema.Fits

namespace Batch

/-- A row of rebuilt rows has a cell of every column. -/
theorem getElem?_rowsOfColumns {count : Nat} {columns : List (List Cell)}
    (each : ∀ column ∈ columns, column.length = count) {i : Nat} (inside : i < count) :
    (rowsOfColumns count columns)[i]? =
      some (columns.map fun column => column[i]?.getD Cell.untyped) := by
  induction columns with
  | nil =>
    rw [rowsOfColumns, List.foldr_nil, List.getElem?_replicate_of_lt inside]
    rfl
  | cons column columns ih =>
    obtain ⟨length, others⟩ := List.forall_mem_cons.mp each
    have rest := ih others
    rw [rowsOfColumns] at rest
    rw [rowsOfColumns, List.foldr_cons, List.getElem?_zipWith, rest,
      List.getElem?_eq_getElem (length ▸ inside), List.map_cons,
      List.getElem?_eq_getElem (length ▸ inside)]
    rfl

theorem length_rowsOfColumns {count : Nat} {columns : List (List Cell)}
    (each : ∀ column ∈ columns, column.length = count) :
    (rowsOfColumns count columns).length = count := by
  induction columns with
  | nil => exact List.length_replicate
  | cons column columns ih =>
    obtain ⟨length, others⟩ := List.forall_mem_cons.mp each
    have rest := ih others
    rw [rowsOfColumns] at rest
    rw [rowsOfColumns, List.foldr_cons, List.length_zipWith, rest, length, Nat.min_self]

variable {schema : Schema} {rows : List Row} {b : Batch}

/-- Columns that were aligned one after the other. -/
theorem aligned_columns {columns : List (List Cell)}
    (aligned : (schema.fields.zipIdx.mapM fun (field, position) =>
      ((columnAt rows position).mapM (Cell.align field.type)).mapError AssemblyError.cast) =
        .ok columns) :
    columns.length = schema.width ∧ (∀ column ∈ columns, column.length = rows.length) ∧
      ∀ (i j : Nat) row field cell, rows[i]? = some row → schema.fields[j]? = some field →
        row[j]? = some cell → ∃ column result, columns[j]? = some column ∧
        column[i]? = some result ∧
          cell.align field.type = .ok result := by
  obtain ⟨count, each⟩ := mapM_eq_ok aligned
  rw [List.length_zipIdx] at count
  have column_of : ∀ (j : Nat) field, schema.fields[j]? = some field → ∃ column,
      columns[j]? = some column ∧ (columnAt rows j).mapM (Cell.align field.type) = .ok column := by
    intro j field found
    obtain ⟨column, made, place⟩ := each j (field, j) (by simp [found])
    exact ⟨column, place, mapError_eq_ok_iff.mp made⟩
  refine ⟨count, fun column member => ?_, fun i j row field cell present found here => ?_⟩
  · obtain ⟨j, hj, rfl⟩ := List.mem_iff_getElem.mp member
    have hj' : j < schema.fields.length := count ▸ hj
    obtain ⟨column, place, made⟩ := column_of j schema.fields[j] (List.getElem?_eq_getElem hj')
    rw [List.getElem?_eq_getElem hj] at place
    obtain rfl := Option.some.inj place
    rw [(mapM_eq_ok made).1, columnAt, List.length_map]
  · obtain ⟨column, place, made⟩ := column_of j field found
    obtain ⟨result, result_eq, at_i⟩ :=
      (mapM_eq_ok made).2 i cell (by simp [columnAt, present, here])
    exact ⟨column, result, place, at_i, result_eq⟩

/-- The rows of aligned columns hold the cells of the rows the columns came from. -/
theorem aligned_rows {columns : List (List Cell)}
    (aligned : (schema.fields.zipIdx.mapM fun (field, position) =>
      ((columnAt rows position).mapM (Cell.align field.type)).mapError AssemblyError.cast) =
        .ok columns) :
    (rowsOfColumns rows.length columns).length = rows.length ∧
      ∀ (i : Nat) row, rows[i]? = some row →
        ∃ made, (rowsOfColumns rows.length columns)[i]? = some made ∧
        made.length = schema.width ∧
          ∀ (j : Nat) field cell, schema.fields[j]? = some field → row[j]? = some cell →
            ∃ result, made[j]? = some result ∧ cell.align field.type = .ok result := by
  obtain ⟨count, lengths, each⟩ := aligned_columns aligned
  refine ⟨length_rowsOfColumns lengths, fun i row present => ?_⟩
  have inside : i < rows.length := (List.getElem?_eq_some_iff.mp present).1
  refine ⟨_, getElem?_rowsOfColumns lengths inside, by rw [List.length_map, count],
    fun j field cell found here => ?_⟩
  obtain ⟨column, result, place, at_i, result_eq⟩ := each i j row field cell present found here
  exact ⟨result, by simp [place, at_i], result_eq⟩

theorem assemble_ok (built : assemble schema rows = .ok b) :
    b.schema = schema ∧ b.rows.length = rows.length ∧
      ∀ (i : Nat) row, rows[i]? = some row → row.length = schema.width ∧
        ∃ aligned, b.rows[i]? = some aligned ∧ aligned.length = schema.width ∧
          ∀ (j : Nat) field cell, schema.fields[j]? = some field → row[j]? = some cell →
            ∃ result, aligned[j]? = some result ∧ cell.align field.type = .ok result := by
  unfold assemble at built
  split at built
  · rename_i empty
    obtain rfl := Except.ok.inj built
    obtain rfl := List.isEmpty_iff.mp empty
    exact ⟨rfl, rfl, fun i row absent => by simp at absent⟩
  · split at built
    · cases built
    · rename_i wide
      have width : ∀ row ∈ rows, row.length = schema.width := by simpa using wide
      obtain ⟨columns, aligned, built⟩ := bind_eq_ok_iff.mp built
      split at built
      · cases built
      split at built
      · cases built
      obtain rfl := Except.ok.inj built
      obtain ⟨count, each⟩ := aligned_rows aligned
      exact ⟨rfl, count, fun i row present =>
        ⟨width row (List.mem_of_getElem? present), each i row present⟩⟩

/-- Leading columns whose cells have their fields' types come through unchanged. -/
theorem take_assemble {width : Nat} (built : assemble schema rows = .ok b)
    (typed : ∀ row ∈ rows, (row.take width).map Cell.type =
      (schema.fields.take width).map Field.type) :
    b.rows.map (List.take width) = rows.map (List.take width) := by
  obtain ⟨-, count, each⟩ := assemble_ok built
  apply List.ext_getElem?
  intro i
  rw [List.getElem?_map, List.getElem?_map]
  rcases Nat.lt_or_ge i rows.length with inside | beyond
  · obtain ⟨length, aligned, place, length', cells⟩ :=
      each i rows[i] (List.getElem?_eq_getElem inside)
    rw [place, List.getElem?_eq_getElem inside, Option.map_some, Option.map_some]
    refine congrArg some (List.ext_getElem? fun j => ?_)
    rcases Nat.lt_or_ge j width with early | late
    · rw [List.getElem?_take_of_lt early, List.getElem?_take_of_lt early]
      rcases Nat.lt_or_ge j schema.width with field | outside
      · have here : rows[i][j]? = some rows[i][j] := List.getElem?_eq_getElem (length ▸ field)
        have found : schema.fields[j]? = some schema.fields[j] := List.getElem?_eq_getElem field
        obtain ⟨result, result_place, result_eq⟩ := cells j _ _ found here
        have same := congrArg (·[j]?) (typed rows[i] (List.getElem_mem inside))
        simp only [List.getElem?_map, List.getElem?_take_of_lt early, found, here, Option.map_some,
          Option.some.injEq] at same
        rw [Cell.align_of_type same] at result_eq
        rw [result_place, here, Except.ok.inj result_eq]
      · rw [List.getElem?_eq_none (length' ▸ outside), List.getElem?_eq_none (length ▸ outside)]
    · rw [List.getElem?_eq_none (by simp; omega), List.getElem?_eq_none (by simp; omega)]
  · rw [List.getElem?_eq_none (count ▸ beyond), List.getElem?_eq_none beyond]

/-- The columns of fitting rows are aligned already. -/
theorem columns_of_fits (fits : ∀ row ∈ rows, schema.Fits row) :
    (schema.fields.zipIdx.mapM fun (field, position) =>
      ((columnAt rows position).mapM (Cell.align field.type)).mapError AssemblyError.cast) =
        .ok (schema.fields.zipIdx.map fun r => columnAt rows r.2) := by
  refine mapM_eq_map fun (field, j) member => ?_
  have found : schema.fields[j]? = some field := by
    simpa using List.mem_zipIdx_iff_getElem?.mp member
  have aligned : (columnAt rows j).mapM (Cell.align field.type) =
      .ok ((columnAt rows j).map id) := by
    refine mapM_eq_map fun c inside => ?_
    obtain ⟨row, there, rfl⟩ := List.mem_map.mp inside
    obtain ⟨c, place, fit⟩ := (fits row there).cell found
    rw [place, Option.getD_some, Cell.align_of_type fit.type, id]
  dsimp only
  rw [aligned, List.map_id]
  rfl

theorem not_violates_of_fits (fits : ∀ row ∈ rows, schema.Fits row) {j : Nat} {field : Field}
    (found : schema.fields[j]? = some field) : violates field (columnAt rows j) = false := by
  apply Bool.eq_false_iff.mpr
  intro violated
  simp only [violates, Bool.and_eq_true, Bool.not_eq_true', bne_iff_ne,
    List.any_eq_true] at violated
  obtain ⟨⟨required, other⟩, c, inside, missing⟩ := violated
  obtain ⟨row, there, rfl⟩ := List.mem_map.mp inside
  obtain ⟨c, place, fit⟩ := (fits row there).cell found
  rw [place, Option.getD_some] at missing
  rcases fit.present missing with optional | nothing
  · rw [optional] at required
    cases required
  · exact other nothing

/-- Fitting rows are their own batch: nothing is cast, and nothing is missing. -/
theorem assemble_of_fits (columns : schema.fields ≠ []) (fits : ∀ row ∈ rows, schema.Fits row) :
    assemble schema rows = .ok ⟨schema, rows⟩ := by
  have wide : rows.find? (fun row => row.length != schema.width) = none := by
    refine List.find?_eq_none.mpr fun row member => ?_
    simp [(fits row member).length_eq]
  obtain ⟨b, built⟩ : ∃ b, assemble schema rows = .ok b := by
    rw [assemble, wide]
    split
    · exact ⟨_, rfl⟩
    · dsimp only
      rw [columns_of_fits fits, ok_bind, if_neg (by simpa using columns)]
      split
      · rename_i field column missing
        obtain ⟨j, at_j⟩ := List.mem_iff_getElem?.mp (List.mem_of_find?_eq_some missing)
        obtain ⟨found, place⟩ := List.getElem?_zip_eq_some.mp at_j
        simp only [List.getElem?_map, List.getElem?_zipIdx, found, Option.map_some, Nat.zero_add,
          Option.some.injEq] at place
        subst place
        exact absurd (List.find?_some missing)
          (Bool.eq_false_iff.mp (not_violates_of_fits fits found))
      · exact ⟨_, rfl⟩
  -- Nothing remains but to see that the batch is the one expected.
  obtain ⟨named, count, each⟩ := assemble_ok built
  have own : ∀ row ∈ rows, row.take schema.width = row := fun row member =>
    List.take_of_length_le (Nat.le_of_eq (fits row member).length_eq)
  have whole : ∀ row ∈ b.rows, row.take schema.width = row := by
    intro row member
    obtain ⟨i, inside, rfl⟩ := List.mem_iff_getElem.mp member
    obtain ⟨-, aligned, place, length, -⟩ :=
      each i rows[i] (List.getElem?_eq_getElem (count ▸ inside))
    rw [List.getElem?_eq_getElem inside] at place
    rw [Option.some.inj place]
    exact List.take_of_length_le (Nat.le_of_eq length)
  have same : b.rows.map (List.take schema.width) = rows.map (List.take schema.width) :=
    take_assemble built fun row member => by
      rw [own row member, Schema.width, List.take_length, (fits row member).map_type]
  rw [List.map_congr_left own, List.map_congr_left whole, List.map_id', List.map_id'] at same
  rw [built, ← named, ← same]

end Batch
end Windowing
