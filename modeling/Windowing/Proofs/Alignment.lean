import Windowing.Proofs.Assembly
import Windowing.Proofs.Source

/-!
Batches built from rows, and rows read from batches. A batch is built unless a row is of the wrong
width, or a value cannot be cast to the type of its field, or a null stands where the field takes
none; failures are told in that order, and those of casts column by column. Rows read from a batch
that was built hold the cells as they were aligned, and building a batch of them gives the same one.
-/
namespace Windowing

theorem Value.type_ne_null (v : Value) : v.type ≠ .null := by
  cases v <;> exact nofun

theorem Value.cast_type {v w : Value} {target : DataType} (done : v.cast target = .ok w) :
    w.type = target := by
  unfold cast at done
  split at done
  · rename_i same
    obtain rfl := Except.ok.inj done
    exact same
  · cases target with
    | null => cases done
    | boolean | integer | float32 | float64 | utf8 | binary =>
      obtain ⟨-, -, rfl⟩ := map_eq_ok_iff.mp done
      rfl

namespace Cell

inductive AlignsTo (target : DataType) : Cell → Cell → Prop
  | kept {c : Cell} (same : c.type = target) : AlignsTo target c c
  | retyped (t : DataType) : AlignsTo target (.null t) (.null target)
  | cast {v w : Value} (other : v.type ≠ target) (done : v.cast target = .ok w) :
      AlignsTo target (.value v) (.value w)

variable {c r : Cell} {target : DataType}

theorem alignsTo_of_align (done : c.align target = .ok r) : AlignsTo target c r := by
  unfold align at done
  split at done
  · rename_i same
    obtain rfl := Except.ok.inj done
    exact .kept same
  · rename_i other
    cases c with
    | null t =>
      obtain rfl := Except.ok.inj done
      exact .retyped t
    | value v =>
      obtain ⟨w, cast, rfl⟩ := map_eq_ok_iff.mp done
      exact .cast other cast

theorem align_eq_error_iff {e : CastError} :
    c.align target = .error e ↔ ∃ v, c = .value v ∧ v.type ≠ target ∧ v.cast target = .error e := by
  unfold align
  split
  · rename_i same
    simp only [reduceCtorEq, false_iff]
    rintro ⟨v, rfl, other, -⟩
    exact other same
  · rename_i other
    cases c with
    | null t => simp only [reduceCtorEq, false_and, exists_false]
    | value v =>
      rw [map_eq_error_iff]
      constructor
      · intro fails
        exact ⟨v, rfl, other, fails⟩
      · rintro ⟨_, ⟨⟩, -, fails⟩
        exact fails

theorem AlignsTo.type_eq (aligns : AlignsTo target c r) : r.type = target := by
  cases aligns with
  | kept same => exact same
  | retyped t => rfl
  | cast other done => exact Value.cast_type done

/-- Only a null is aligned to a null. -/
theorem AlignsTo.isNull_eq (aligns : AlignsTo target c r) : r.isNull = c.isNull := by
  cases aligns <;> rfl

theorem eq_untyped_of_type (nothing : c.type = .null) : c = untyped := by
  cases c with
  | null t => exact congrArg Cell.null nothing
  | value v => exact absurd nothing v.type_ne_null

end Cell

namespace Batch

variable {schema : Schema} {rows : List Row} {b : Batch}

def Uncastable (schema : Schema) (rows : List Row) (j i : Nat) (e : CastError) : Prop :=
  ∃ field row v, schema.fields[j]? = some field ∧ rows[i]? = some row ∧ row[j]? = some (.value v) ∧
    v.type ≠ field.type ∧ v.cast field.type = .error e

def Missing (schema : Schema) (rows : List Row) (j : Nat) (field : Field) : Prop :=
  schema.fields[j]? = some field ∧ field.nullable = false ∧ field.type ≠ .null ∧
    ∃ row ∈ rows, ∃ c, row[j]? = some c ∧ c.isNull = true

/-- The rows of a batch are those it was built from, cell by cell as the fields want them. -/
structure Aligned (schema : Schema) (rows : List Row) (b : Batch) : Prop where
  schema_eq : b.schema = schema
  length_eq : b.rows.length = rows.length
  cells : ∀ (i : Nat) row, rows[i]? = some row → ∃ made, b.rows[i]? = some made ∧
    made.length = schema.width ∧
    ∀ (j : Nat) field c, schema.fields[j]? = some field → row[j]? = some c →
      ∃ r, made[j]? = some r ∧ c.AlignsTo field.type r

/-- How a batch is built of rows, or which failure is the first. -/
inductive Assembles (schema : Schema) (rows : List Row) : Except AssemblyError Batch → Prop
  | width {i : Nat} {row : Row} (found : rows[i]? = some row) (differs : row.length ≠ schema.width)
      (first : ∀ (k : Nat) other, k < i → rows[k]? = some other → other.length = schema.width) :
      Assembles schema rows (.error (.rowWidth row.length schema.width))
  | cast {j i : Nat} {e : CastError} (wide : ∀ row ∈ rows, row.length = schema.width)
      (fails : Uncastable schema rows j i e)
      (first : ∀ l k e', l < j ∨ l = j ∧ k < i → ¬ Uncastable schema rows l k e') :
      Assembles schema rows (.error (.cast e))
  | unexpectedNull {j : Nat} {field : Field} (wide : ∀ row ∈ rows, row.length = schema.width)
      (castable : ∀ l k e', ¬ Uncastable schema rows l k e') (missing : Missing schema rows j field)
      (first : ∀ l other, l < j → ¬ Missing schema rows l other) :
      Assembles schema rows (.error (.unexpectedNull field.name))
  | built {b : Batch} (wide : ∀ row ∈ rows, row.length = schema.width)
      (castable : ∀ l k e', ¬ Uncastable schema rows l k e')
      (present : ∀ l field, ¬ Missing schema rows l field)
      (aligned : Aligned schema rows b) : Assembles schema rows (.ok b)

theorem Assembles.error_iff {answer : Except AssemblyError Batch}
    (assembles : Assembles schema rows answer) :
    (∃ e, answer = .error e) ↔ (∃ row ∈ rows, row.length ≠ schema.width) ∨
      (∃ j i e, Uncastable schema rows j i e) ∨ ∃ j field, Missing schema rows j field := by
  cases assembles with
  | width found differs first =>
    exact ⟨fun _ => .inl ⟨_, List.mem_of_getElem? found, differs⟩, fun _ => ⟨_, rfl⟩⟩
  | cast wide fails first => exact ⟨fun _ => .inr (.inl ⟨_, _, _, fails⟩), fun _ => ⟨_, rfl⟩⟩
  | unexpectedNull wide castable missing first =>
    exact ⟨fun _ => .inr (.inr ⟨_, _, missing⟩), fun _ => ⟨_, rfl⟩⟩
  | built wide castable present aligned =>
    constructor
    · rintro ⟨e, ⟨⟩⟩
    · rintro (⟨row, member, differs⟩ | ⟨j, i, e, fails⟩ | ⟨j, field, missing⟩)
      · exact absurd (wide row member) differs
      · exact absurd fails (castable j i e)
      · exact absurd missing (present j field)

section Columns

variable (wide : ∀ row ∈ rows, row.length = schema.width)

include wide

/-- The cell of a column in a row that is wide enough. -/
theorem getElem?_columnAt {i j : Nat} {row : Row} {field : Field} (found : rows[i]? = some row)
    (place : schema.fields[j]? = some field) :
    ∃ c, row[j]? = some c ∧ (columnAt rows j)[i]? = some c := by
  have inside : j < row.length := by
    rw [wide row (List.mem_of_getElem? found)]
    exact (List.getElem?_eq_some_iff.mp place).1
  have here : row[j]? = some row[j] := List.getElem?_eq_getElem inside
  refine ⟨row[j], here, ?_⟩
  rw [columnAt, List.getElem?_map, found, Option.map_some, here, Option.getD_some]

/-- A column that is aligned holds nothing that cannot be cast. -/
theorem castable_of_column {j : Nat} {field : Field} (place : schema.fields[j]? = some field)
    {k : Nat} (aligned : ∀ c, (columnAt rows j)[k]? = some c → ∃ r, c.align field.type = .ok r)
    (e : CastError) :
    ¬ Uncastable schema rows j k e := by
  rintro ⟨field', row, v, place', found, here, other, fails⟩
  obtain rfl := Option.some.inj (place.symm.trans place')
  obtain ⟨c, there, at_k⟩ := getElem?_columnAt wide found place
  obtain rfl := Option.some.inj (here.symm.trans there)
  obtain ⟨r, done⟩ := aligned _ at_k
  rw [Cell.align_eq_error_iff.mpr ⟨v, rfl, other, fails⟩] at done
  cases done

/-- The first column that cannot be aligned, and in it the first value that cannot be cast. -/
theorem columns_fail {e : AssemblyError}
    (fails : (schema.fields.zipIdx.mapM fun (field, position) =>
      ((columnAt rows position).mapM (Cell.align field.type)).mapError AssemblyError.cast) =
        .error e) :
    Assembles schema rows (.error e) := by
  obtain ⟨j, ⟨field, position⟩, numbered, column, before⟩ := mapM_eq_error fails
  rw [List.getElem?_zipIdx, Nat.zero_add, Option.map_eq_some_iff] at numbered
  obtain ⟨_, place, rfl, rfl⟩ := numbered
  obtain ⟨e, failed, rfl⟩ := mapError_eq_error_iff.mp column
  obtain ⟨i, c, at_i, unaligned, above⟩ := mapM_eq_error failed
  obtain ⟨v, rfl, other, uncast⟩ := Cell.align_eq_error_iff.mp unaligned
  have inside : i < rows.length := by
    have bound := (List.getElem?_eq_some_iff.mp at_i).1
    rwa [columnAt, List.length_map] at bound
  have found : rows[i]? = some rows[i] := List.getElem?_eq_getElem inside
  obtain ⟨c, here, at_i'⟩ := getElem?_columnAt wide found place
  obtain rfl := Option.some.inj (at_i.symm.trans at_i')
  refine .cast wide ⟨field, rows[i], v, place, found, here, other, uncast⟩ ?_
  rintro l k e' (earlier | ⟨rfl, higher⟩) uncastable
  · have failing := uncastable
    obtain ⟨field', -, -, place', -⟩ := failing
    obtain ⟨made, done⟩ := before l earlier (field', l) (by simp [place'])
    have each := (mapM_eq_ok (mapError_eq_ok_iff.mp done)).2
    refine castable_of_column wide place' (fun c at_k => ?_) e' uncastable
    obtain ⟨r, aligned, -⟩ := each k c at_k
    exact ⟨r, aligned⟩
  · exact castable_of_column wide place (above k higher) e' uncastable

variable {columns : List (List Cell)} (made : (schema.fields.zipIdx.mapM fun (field, position) =>
  ((columnAt rows position).mapM (Cell.align field.type)).mapError AssemblyError.cast) =
    .ok columns)

include made

omit wide in
theorem castable_of_columns (j i : Nat) (e : CastError) : ¬ Uncastable schema rows j i e := by
  intro fails
  obtain ⟨field, row, v, place, found, here, other, uncast⟩ := fails
  obtain ⟨-, -, each⟩ := aligned_columns made
  obtain ⟨-, r, -, -, done⟩ := each i j row field _ found place here
  rw [Cell.align_eq_error_iff.mpr ⟨v, rfl, other, uncast⟩] at done
  cases done

section Column

variable {j : Nat} {field : Field} {column : List Cell} (place : schema.fields[j]? = some field)
  (at_j : columns[j]? = some column)

include place at_j

/-- Aligning a column makes and loses no null. -/
theorem exists_null_iff :
    (∃ r ∈ column, r.isNull = true) ↔ ∃ row ∈ rows, ∃ c, row[j]? = some c ∧ c.isNull = true := by
  obtain ⟨-, lengths, each⟩ := aligned_columns made
  have length := lengths column (List.mem_of_getElem? at_j)
  have aligned : ∀ (i : Nat) row c, rows[i]? = some row → row[j]? = some c →
      ∃ r, column[i]? = some r ∧ r.isNull = c.isNull := by
    intro i row c found here
    obtain ⟨column', r, at_j', at_i, done⟩ := each i j row field c found place here
    obtain rfl := Option.some.inj (at_j.symm.trans at_j')
    exact ⟨r, at_i, (Cell.alignsTo_of_align done).isNull_eq⟩
  constructor
  · rintro ⟨r, member, null⟩
    obtain ⟨i, bound, rfl⟩ := List.mem_iff_getElem.mp member
    have found : rows[i]? = some rows[i] := List.getElem?_eq_getElem (length ▸ bound)
    obtain ⟨c, here, -⟩ := getElem?_columnAt wide found place
    obtain ⟨r, at_i, same⟩ := aligned i rows[i] c found here
    rw [List.getElem?_eq_getElem bound] at at_i
    obtain rfl := Option.some.inj at_i
    exact ⟨rows[i], List.mem_of_getElem? found, c, here, same ▸ null⟩
  · rintro ⟨row, member, c, here, null⟩
    obtain ⟨i, found⟩ := List.mem_iff_getElem?.mp member
    obtain ⟨r, at_i, same⟩ := aligned i row c found here
    exact ⟨r, List.mem_of_getElem? at_i, same.trans null⟩

/-- A field is violated just if one of its cells was null to begin with. -/
theorem violates_iff : violates field column = true ↔ Missing schema rows j field := by
  simp only [violates, Missing, Bool.and_eq_true, Bool.not_eq_true', bne_iff_ne, List.any_eq_true,
    exists_null_iff wide made place at_j, place, true_and, and_assoc]

end Column

omit wide

/-- Each field has its column. -/
theorem getElem?_zip_columns {j : Nat} {field : Field} (place : schema.fields[j]? = some field) :
    ∃ column, columns[j]? = some column ∧
      (schema.fields.zip columns)[j]? = some (field, column) := by
  obtain ⟨count, -, -⟩ := aligned_columns made
  have inside : j < columns.length := count ▸ (List.getElem?_eq_some_iff.mp place).1
  have at_j : columns[j]? = some columns[j] := List.getElem?_eq_getElem inside
  exact ⟨columns[j], at_j, List.getElem?_zip_eq_some.mpr ⟨place, at_j⟩⟩

theorem columns_ne_nil (fields : schema.fields ≠ []) : ¬ columns.isEmpty = true := by
  obtain ⟨count, -, -⟩ := aligned_columns made
  intro empty
  rw [List.isEmpty_iff.mp empty] at count
  exact fields (List.eq_nil_of_length_eq_zero count.symm)

theorem aligned_of_columns : Aligned schema rows ⟨schema, rowsOfColumns rows.length columns⟩ := by
  obtain ⟨length, each⟩ := aligned_rows made
  refine ⟨rfl, length, fun i row found => ?_⟩
  obtain ⟨cells, place, width, each⟩ := each i row found
  refine ⟨cells, place, width, fun j field c at_j here => ?_⟩
  obtain ⟨r, there, done⟩ := each j field c at_j here
  exact ⟨r, there, Cell.alignsTo_of_align done⟩

end Columns

/-- What is built of rows, in the order in which failures are looked for. -/
theorem assemble_assembles (fields : schema.fields ≠ []) (nonempty : rows ≠ []) :
    Assembles schema rows (assemble schema rows) := by
  unfold assemble
  rw [if_neg (by simpa using nonempty)]
  split
  · rename_i row narrow
    obtain ⟨differs, i, inside, rfl, before⟩ := List.find?_eq_some_iff_getElem.mp narrow
    refine .width (List.getElem?_eq_getElem inside) (by simpa using differs)
      fun k other earlier found => ?_
    obtain ⟨_, rfl⟩ := List.getElem?_eq_some_iff.mp found
    simpa using before k earlier
  · rename_i none
    have wide : ∀ row ∈ rows, row.length = schema.width := by simpa using none
    cases made : schema.fields.zipIdx.mapM fun (field, position) =>
        ((columnAt rows position).mapM (Cell.align field.type)).mapError AssemblyError.cast with
    | error e => exact columns_fail wide made
    | ok columns =>
      have castable := castable_of_columns made
      rw [ok_bind, if_neg (columns_ne_nil made fields)]
      split
      · rename_i field column violated
        obtain ⟨bad, j, inside, pair, before⟩ := List.find?_eq_some_iff_getElem.mp violated
        obtain ⟨place, at_j⟩ :=
          List.getElem?_zip_eq_some.mp ((List.getElem?_eq_getElem inside).trans
          (congrArg some pair))
        refine .unexpectedNull wide castable ((violates_iff wide made place at_j).mp bad) ?_
        intro l other earlier missing
        obtain ⟨column', at_l, pair'⟩ := getElem?_zip_columns made missing.1
        have kept := before l earlier
        rw [(List.getElem?_eq_some_iff.mp pair').2] at kept
        simp [(violates_iff wide made missing.1 at_l).mpr missing] at kept
      · rename_i kept
        refine .built wide castable (fun l field missing => ?_) (aligned_of_columns made)
        obtain ⟨column, at_l, pair⟩ := getElem?_zip_columns made missing.1
        refine List.find?_eq_none.mp kept (field, column) (List.mem_of_getElem? pair) ?_
        exact (violates_iff wide made missing.1 at_l).mpr missing

/-- Where nothing is missing, the aligned rows fit the fields. -/
theorem Aligned.fits (aligned : Aligned schema rows b)
    (wide : ∀ row ∈ rows, row.length = schema.width)
    (present : ∀ j field, ¬ Missing schema rows j field) : ∀ made ∈ b.rows, schema.Fits made := by
  intro made member
  obtain ⟨i, place⟩ := List.mem_iff_getElem?.mp member
  have inside : i < rows.length := aligned.length_eq ▸ (List.getElem?_eq_some_iff.mp place).1
  have found : rows[i]? = some rows[i] := List.getElem?_eq_getElem inside
  have there := List.mem_of_getElem? found
  obtain ⟨_, place', width, cells⟩ := aligned.cells i rows[i] found
  obtain rfl := Option.some.inj (place'.symm.trans place)
  refine List.forall₂_iff_get.mpr ⟨width.symm, fun j field_j cell_j => ?_⟩
  have at_field : schema.fields[j]? = some schema.fields[j] := List.getElem?_eq_getElem field_j
  have in_row : j < rows[i].length := (wide _ there).symm ▸ field_j
  have here : rows[i][j]? = some rows[i][j] := List.getElem?_eq_getElem in_row
  obtain ⟨r, at_j, aligns⟩ := cells j _ _ at_field here
  obtain ⟨_, rfl⟩ := List.getElem?_eq_some_iff.mp at_j
  refine ⟨aligns.type_eq, fun null => ?_⟩
  rw [List.get_eq_getElem, aligns.isNull_eq] at null
  by_contra neither
  obtain ⟨required, other⟩ := not_or.mp neither
  exact present j _ ⟨at_field, Bool.eq_false_iff.mpr required, other, _, there, _, here, null⟩

/-- A row that is there is read as it is, also where all columns are of the null type. -/
theorem materialize_of_valid (valid : b.Valid) {i : Nat} {row : Row} (found : b.rows[i]? = some row)
    (spare : Nat) :
    b.materialize i spare = .ok (reserve row spare) := by
  have typed := valid row (List.mem_of_getElem? found)
  unfold materialize
  split
  · rename_i nulls
    have untyped : row = List.replicate b.width Cell.untyped := by
      refine List.eq_replicate_iff.mpr ⟨valid.length_eq (List.mem_of_getElem? found),
        fun c member => ?_⟩
      have type := List.mem_map_of_mem (f := Cell.type) member
      rw [typed] at type
      obtain ⟨field, there, same⟩ := List.mem_map.mp type
      have nothing : field.type = .null := by simpa using List.all_eq_true.mp nulls field there
      exact Cell.eq_untyped_of_type (same.symm.trans nothing)
    rw [untyped]
  · rw [found]

theorem reserve_zero (row : Row) : reserve row 0 = row := by
  rw [reserve, List.replicate_zero, List.append_nil]

/-- Reading all rows of a batch gives its rows. -/
theorem materialize_range (valid : b.Valid) :
    (List.range b.rows.length).mapM (b.materialize · 0) = .ok b.rows := by
  have each : ∀ i ∈ List.range b.rows.length, b.materialize i 0 = .ok (b.rows[i]?.getD []) := by
    intro i member
    obtain ⟨row, found⟩ : ∃ row, b.rows[i]? = some row :=
      ⟨_, List.getElem?_eq_getElem (List.mem_range.mp member)⟩
    rw [materialize_of_valid valid found, reserve_zero, found, Option.getD_some]
  rw [mapM_eq_map each]
  refine congrArg Except.ok (List.ext_getElem (by simp) fun i first second => ?_)
  simp [second]

/-- Rows, and fields for them, fail to become a batch just if a row is of the wrong width, or a
value cannot be cast, or a null stands where none may; the first failure is told in this order.
Otherwise the rows that are read from the batch are the given ones with their cells aligned, and the
batch built of those is the same. -/
theorem assemble_reads_back (fields : schema.fields ≠ []) (nonempty : rows ≠ []) :
    Assembles schema rows (assemble schema rows) ∧
    ((∃ e, assemble schema rows = .error e) ↔ (∃ row ∈ rows, row.length ≠ schema.width) ∨
      (∃ j i e, Uncastable schema rows j i e) ∨ ∃ j field, Missing schema rows j field) ∧
    ∀ b, assemble schema rows = .ok b → b.schema = schema ∧
      ∃ read, (List.range rows.length).mapM (b.materialize · 0) = .ok read ∧
        read.length = rows.length ∧
        (∀ (i : Nat) row, rows[i]? = some row → ∃ cells, read[i]? = some cells ∧
          cells.length = schema.width ∧
          ∀ (j : Nat) field c, schema.fields[j]? = some field → row[j]? = some c →
            ∃ r, cells[j]? = some r ∧ c.AlignsTo field.type r) ∧
        assemble schema read = .ok b := by
  have answer := assemble_assembles fields nonempty
  refine ⟨answer, answer.error_iff, fun b built => ?_⟩
  rw [built] at answer
  obtain ⟨⟩ | ⟨⟩ | ⟨⟩ | ⟨wide, -, present, aligned⟩ := answer
  have fits := aligned.fits wide present
  have valid : b.Valid := fun row member => aligned.schema_eq ▸ (fits row member).map_type
  have read := materialize_range valid
  rw [aligned.length_eq] at read
  refine ⟨aligned.schema_eq, b.rows, read, aligned.length_eq, aligned.cells, ?_⟩
  rw [assemble_of_fits fields fits, ← aligned.schema_eq]

/-- An untyped null, a text that is a number, and a number that becomes a text. -/
theorem assemble_reads_back_cast :
    let schema : Schema := ⟨[⟨"x", .int64, true⟩, ⟨"y", .utf8, false⟩], []⟩
    let rows : List Row := [[.untyped, .ofCount 7], [.value (.utf8 "-12"), .value (.utf8 "a")]]
    let b : Batch := ⟨schema, [[.null .int64, .value (.utf8 "7")],
      [.value (.integer .int64 (-12) (by decide)), .value (.utf8 "a")]]⟩
    (schema.fields ≠ [] ∧ rows ≠ []) ∧ assemble schema rows = .ok b ∧
      ∃ read, (List.range 2).mapM (b.materialize · 0) = .ok read ∧
        assemble schema read = .ok b := by
  intro schema rows b
  have fields : schema.fields ≠ [] := by decide
  have nonempty : rows ≠ [] := by decide
  have built : assemble schema rows = .ok b := by decide +kernel
  obtain ⟨-, -, each⟩ := assemble_reads_back fields nonempty
  obtain ⟨-, read, whole, -, -, again⟩ := each b built
  exact ⟨⟨fields, nonempty⟩, built, read, whole, again⟩

/-- Of two values that cannot be cast the one in the first column is told, though it stands in a
later row. -/
example : assemble ⟨[⟨"x", .int64, true⟩, ⟨"y", .int64, false⟩], []⟩
    [[.ofCount 1, .value (.utf8 "y")], [.value (.utf8 "x"), .untyped]] =
      .error (.cast (.unreadable "x" .int64)) := by
  decide +kernel

end Batch
end Windowing
