import Windowing.Proofs.Aggregates

/-!
Where nulls tell in an aggregate. It goes through the values that are present, and these stay when
the rows with a null are deleted. But sums and averages also ask for the type of the first row,
which may be that of a null, and so decide whether to add up integers or floating-point numbers, or
nothing at all.
-/
namespace Windowing

def CastError.target? : CastError → Option DataType
  | outOfRange _ target | unreadable _ target | unsupported _ target => some target
  | notTruthValue _ | malformedText _ => none

namespace Value

variable {v : Value} {e : CastError}

theorem toInteger_target {k : IntKind} (fails : v.toInteger k = .error e) :
    e.target? = some (.integer k) := by
  cases v with
  | boolean b => cases fails
  | integer j n fits =>
    rw [toInteger, ranged] at fails
    split at fails <;> cases fails
    rfl
  | float32 code | float64 code =>
    rw [toInteger, truncated] at fails
    split at fails <;> cases fails
    rfl
  | utf8 text =>
    rw [toInteger, readInteger] at fails
    split at fails <;> cases fails
    rfl
  | binary bytes =>
    cases fails
    rfl

theorem toFloat_target {format : FloatFormat} {target : DataType}
    (fails : v.toFloat format target = .error e) :
    e.target? = some target := by
  cases v with
  | boolean | integer | float32 | float64 => cases fails
  | utf8 text =>
    rw [toFloat] at fails
    split at fails <;> cases fails
    rfl
  | binary bytes =>
    cases fails
    rfl

theorem toFloat64_target (fails : v.toFloat64 = .error e) : e.target? = some .float64 := by
  cases v with
  | float64 code => cases fails
  | boolean | integer | float32 | utf8 | binary =>
    dsimp only [toFloat64] at fails
    exact toFloat_target (map_eq_error_iff.mp fails)

end Value

/-- What can come of adding up in one of the two ways: a cell of its type, or an error that tells
the type. -/
inductive Summation.Yields : Summation → Guarded EvaluationError Cell → Prop
  | cell {s : Summation} {cell : Cell} : cell.type = s.type → Yields s (.ok cell)
  | cast {s : Summation} {e : CastError} : e.target? = some s.type →
      Yields s (.error (.error (.cast e)))
  | overflow : Yields .exact (.error (.error .sumOverflow))

namespace Summation

variable {s s' : Summation} {result : Guarded EvaluationError Cell}

theorem type_inj (same : s.type = s'.type) : s = s' := by
  cases s <;> cases s' <;> first | rfl | cases same

theorem Yields.unique (first : s.Yields result) (second : s'.Yields result) : s = s' := by
  cases first with
  | cell type =>
    cases second with
    | cell type' => exact type_inj (type.symm.trans type')
  | cast target =>
    cases second with
    | cast target' => exact type_inj (Option.some.inj (target.symm.trans target'))
  | overflow =>
    cases second
    rfl

theorem Yields.ne_signature (yields : s.Yields result) (e : SignatureError) :
    result ≠ .error (.error (.signature e)) := by
  rintro rfl
  cases yields

end Summation

namespace Argument

variable {a : Argument}

def isPresent (a : Argument) (row : Row) : Bool :=
  ((a.evaluate row).toOption.bind Cell.present?).isSome

theorem presents_filter (rows : List Row) :
    a.presents (rows.filter a.isPresent) = a.presents rows := by
  rw [presents, presents, List.filterMap_filter]
  refine List.filterMap_congr fun row _ => ?_
  unfold isPresent
  cases (a.evaluate row).toOption.bind Cell.present? <;> rfl

theorem frameType_cons {f : Frame} (valid : f.Valid) {row : Row} {rest : List Row}
    (rows : f.rows = row :: rest) {cell : Cell} (value : a.evaluate row = .ok cell) :
    a.frameType f = .ok cell.type := by
  have nonempty : ¬ f.isEmpty = true := by
    rw [Frame.isEmpty, ← Frame.length_rows valid, rows]
    exact Bool.false_ne_true
  have found : f.row 0 = .ok row := (Frame.row_eq_ok_iff valid).mpr (by rw [rows]; rfl)
  rw [frameType, if_neg nonempty, found, ok_bind, value]
  rfl

end Argument

namespace Frame.Offers

variable {f : Frame} {a : Argument}

theorem of_nonempty (valid : f.Valid) (each : ∀ row ∈ f.rows, ∃ cell, a.evaluate row = .ok cell)
    (nonempty : f.rows ≠ []) : ∃ t, f.Offers a t (a.presents f.rows) := by
  obtain ⟨row, rest, rows⟩ := List.exists_cons_of_ne_nil nonempty
  obtain ⟨cell, value⟩ := each row (by rw [rows]; exact List.mem_cons_self)
  exact ⟨cell.type, Argument.frameType_cons valid rows value, each, rfl⟩

/-- Without the rows that have a null, the type is that of the first value. -/
theorem of_present (valid : f.Valid) (each : ∀ row ∈ f.rows, ∃ cell, a.evaluate row = .ok cell)
    (present : ∀ row ∈ f.rows, a.isPresent row = true) {v : Value}
    (first : (a.presents f.rows).head? = some v) :
    f.Offers a v.type (a.presents f.rows) := by
  refine ⟨?_, each, rfl⟩
  cases rows : f.rows with
  | nil =>
    rw [rows] at first
    cases first
  | cons row rest =>
    have member : row ∈ f.rows := by rw [rows]; exact List.mem_cons_self
    obtain ⟨cell, value⟩ := each row member
    cases cell with
    | null s =>
      have absent := present row member
      rw [Argument.isPresent, value] at absent
      cases absent
    | value w =>
      rw [rows, Argument.presents_cons_value value] at first
      obtain rfl := Option.some.inj first
      exact Argument.frameType_cons valid rows value

end Frame.Offers

/-- What an aggregate makes of the type of its first row: an error, or how it adds up, where its
result tells. -/
def Function.reading (g : Function) (t : DataType) : Except SignatureError (Option Summation) :=
  match g with
  | .sum => (g.summation t).map some
  | .avg => (g.summation t).map fun _ => none
  | _ => .ok none

namespace Call

/-- Work that gives no planning error comes out differently behind two checks, unless they agree for
it. -/
theorem checked_eq_iff {x y : Except SignatureError σ} {rest : σ → Guarded EvaluationError Cell}
    (apart : ∀ s e, rest s ≠ .error (.error (.signature e))) :
    (Guarded.ofError (x.mapError .signature) >>= rest) =
      (Guarded.ofError (y.mapError .signature) >>= rest) ↔
      x.map rest = y.map rest := by
  cases x with
  | error e =>
    cases y with
    | error e' => simp [Except.mapError, Except.map]
    | ok s => simpa [Except.mapError, Except.map] using (apart s e).symm
  | ok s =>
    cases y with
    | error e => simpa [Except.mapError, Except.map] using apart s e
    | ok s' => simp [Except.mapError, Except.map]

def sumBy (f : Frame) (a : Argument) : Summation → Guarded EvaluationError Cell
  | .exact => sumExact f a
  | .floating => sumFloat f a

theorem sumOver_eq {c : Call} {f : Frame} {a : Argument} {t : DataType}
    (type : a.frameType f = .ok t) :
    c.sumOver f a = Guarded.ofError ((c.function.summation t).mapError .signature) >>=
      sumBy f a := by
  simp only [sumOver, type, Guarded.lift_eq, Guarded.ofDefect_ok, ok_bind]
  rfl

theorem addExact_yields {sum : Option IntKind.int64.Carrier} {v : Value} {e : EvaluationError}
    (fails : addExact sum v = .error e) : Summation.exact.Yields (.error (.error e)) := by
  rcases bind_eq_error_iff.mp fails with cast | ⟨n, -, overflow⟩
  · obtain ⟨e', unread, rfl⟩ := mapError_eq_error_iff.mp cast
    exact .cast (Value.toInteger_target unread)
  · split at overflow <;> cases overflow
    exact .overflow

theorem addFloat_yields {sum : BitVec 64} {v : Value} {e : EvaluationError}
    (fails : addFloat sum v = .error e) :
    Summation.floating.Yields (.error (.error e)) := by
  rcases bind_eq_error_iff.mp fails with cast | ⟨code, -, added⟩
  · obtain ⟨e', unread, rfl⟩ := mapError_eq_error_iff.mp cast
    exact .cast (Value.toFloat64_target unread)
  · cases added

section Offers

variable {f kept : Frame} {a : Argument} {t u : DataType} {vs : List Value} {c : Call}
  (first : f.Offers a t vs) (second : kept.Offers a u vs)

include first

theorem sumBy_yields (s : Summation) : s.Yields (sumBy f a s) := by
  cases s with
  | exact =>
    cases done : sumBy f a .exact with
    | ok cell => exact .cell (sumExact_type done)
    | error x =>
      rw [sumBy, sumExact, first.foldPresent] at done
      rcases bind_eq_error_iff.mp done with folded | ⟨sum, -, last⟩
      · obtain ⟨e, refused, rfl⟩ := Guarded.ofError_eq_error_iff.mp folded
        obtain ⟨_, v, _, sum, _, _, stops⟩ := foldlM_eq_error refused
        exact addExact_yields stops
      · cases sum <;> cases last
  | floating =>
    cases done : sumBy f a .floating with
    | ok cell => exact .cell (sumFloat_type done)
    | error x =>
      rw [sumBy, sumFloat, first.foldPresent] at done
      rcases bind_eq_error_iff.mp done with folded | ⟨sum, -, last⟩
      · obtain ⟨e, refused, rfl⟩ := Guarded.ofError_eq_error_iff.mp folded
        obtain ⟨_, v, _, sum, _, _, stops⟩ := foldlM_eq_error refused
        exact addFloat_yields (map_eq_error_iff.mp stops)
      · cases last

include second

theorem sumBy_agree : sumBy f a = sumBy kept a := by
  funext s
  cases s with
  | exact => rw [sumBy, sumBy, sumExact, sumExact, first.foldPresent, second.foldPresent]
  | floating => rw [sumBy, sumBy, sumFloat, sumFloat, first.foldPresent, second.foldPresent]

theorem countPresent_agree : countPresent f a = countPresent kept a := by
  rw [countPresent, countPresent, first.foldPresent, second.foldPresent]

/-- Where there is a value, the type of the first row is not asked for. -/
theorem extreme_agree (keep : Ordering) (nonempty : vs ≠ []) :
    c.extreme keep f a = c.extreme keep kept a := by
  rw [extreme, extreme, first.foldPresent, second.foldPresent]
  cases folded : vs.foldlM (better c.function keep) none with
  | error e => rfl
  | ok best =>
    cases best with
    | some v => rfl
    | none =>
      -- The first value is kept until a better one takes its place.
      obtain ⟨v, rest, rfl⟩ := List.exists_cons_of_ne_nil nonempty
      have later : rest.foldlM (better c.function keep) (some v) = .ok none := folded
      rcases foldlM_better_mem later with last | ⟨w, -, last⟩ <;> cases last

/-- Two types give one sum only if they are added up in one way, or refused alike. -/
theorem sumOver_agree_iff : sumOver ⟨.sum, [a]⟩ f a = sumOver ⟨.sum, [a]⟩ kept a ↔
    Function.sum.reading t = Function.sum.reading u := by
  have apart : ∀ s s', sumBy f a s = sumBy f a s' → s = s' := by
    intro s s' same
    exact (sumBy_yields first s).unique (same ▸ sumBy_yields first s')
  rw [sumOver_eq first.type, sumOver_eq second.type, ← sumBy_agree first second,
    checked_eq_iff fun s => (sumBy_yields first s).ne_signature]
  exact (map_inj_iff apart).trans (map_inj_iff fun _ _ => Option.some.inj).symm

/-- An average adds up in floating point whatever the type, unless it is refused. -/
theorem avgOver_agree_iff : avgOver ⟨.avg, [a]⟩ f a = avgOver ⟨.avg, [a]⟩ kept a ↔
    Function.avg.reading t = Function.avg.reading u := by
  simp only [avgOver, first.type, second.type, Guarded.lift_eq, Guarded.ofDefect_ok, ok_bind]
  rw [first.foldPresent, second.foldPresent]
  refine (checked_eq_iff ?_).trans ?_
  · intro _ e fails
    rcases bind_eq_error_iff.mp fails with folded | ⟨⟨sum, count⟩, -, last⟩
    · obtain ⟨e', refused, same⟩ := Guarded.ofError_eq_error_iff.mp folded
      obtain ⟨_, v, _, p, _, _, stops⟩ := foldlM_eq_error refused
      rcases bind_eq_error_iff.mp stops with added | ⟨sum, -, last⟩
      · obtain rfl := Fault.error.inj same
        exact (addFloat_yields added).ne_signature e rfl
      · cases last
    · dsimp only at last
      split at last <;> cases last
  · unfold Function.reading
    cases Function.avg.summation t <;> cases Function.avg.summation u <;> simp [Except.map]

end Offers

/-- An aggregate over a frame in which there is a value is the one over the rows with a value, just
if it reads the type of the first row as that of the first value. Counts and extremes read no
type. -/
theorem aggregate_without_nulls_iff {g : Function}
    (aggregate : g ∈ [.count, .sum, .avg, .min, .max]) {a : Argument} {f kept : Frame}
    (valid : f.Valid) (valid' : kept.Valid) (within : ∀ row ∈ f.rows, a.Within row.length)
    (rows : kept.rows = f.rows.filter a.isPresent)
    (present : ∃ row ∈ f.rows, a.isPresent row = true) (i j : Nat) :
    ∃ t v, a.frameType f = .ok t ∧ (a.presents f.rows).head? = some v ∧
      (evaluate ⟨g, [a]⟩ i f = evaluate ⟨g, [a]⟩ j kept ↔ g.reading t = g.reading v.type) := by
  have each : ∀ row ∈ f.rows, ∃ cell, a.evaluate row = .ok cell := by
    intro row member
    exact Argument.evaluate_ok (within row member) (Nat.le_refl _)
  have values : a.presents kept.rows = a.presents f.rows := by rw [rows, Argument.presents_filter]
  obtain ⟨row, member, shown⟩ := present
  obtain ⟨t, first⟩ := Frame.Offers.of_nonempty valid each (List.ne_nil_of_mem member)
  obtain ⟨w, value⟩ := Option.isSome_iff_exists.mp shown
  have nonempty : a.presents f.rows ≠ [] :=
    List.ne_nil_of_mem (List.mem_filterMap.mpr ⟨row, member, value⟩)
  obtain ⟨v, rest, listed⟩ := List.exists_cons_of_ne_nil nonempty
  have second : kept.Offers a v.type (a.presents f.rows) := by
    rw [← values] at listed ⊢
    refine .of_present valid' (fun row member => ?_) (fun row member => ?_) (by rw [listed]; rfl)
    · rw [rows] at member
      exact each row (List.mem_of_mem_filter member)
    · rw [rows] at member
      exact List.of_mem_filter member
  refine ⟨t, v, first.type, by rw [listed]; rfl, ?_⟩
  simp only [List.mem_cons, List.not_mem_nil, or_false] at aggregate
  rcases aggregate with rfl | rfl | rfl | rfl | rfl
  · exact iff_of_true (countPresent_agree first second) rfl
  · exact sumOver_agree_iff first second
  · exact avgOver_agree_iff first second
  · exact iff_of_true (extreme_agree first second .lt nonempty) rfl
  · exact iff_of_true (extreme_agree first second .gt nonempty) rfl

/-- A null of no type before one and a half: they add up to an integer, and the half is lost. -/
theorem aggregate_without_nulls_iff_half :
    let half : Cell := .value (.float64 0x3ff8000000000000#64)
    let f : Frame := ⟨#[[.untyped], [half]], 0, 0, 2, 0, 0, 0⟩
    let kept : Frame := ⟨#[[half]], 0, 0, 1, 0, 0, 0⟩
    let sum : Call := ⟨.sum, [.column 0]⟩
    kept.rows = f.rows.filter (Argument.column 0).isPresent ∧
    sum.evaluate 0 f ≠ sum.evaluate 0 kept ∧
      sum.evaluate 0 f = .ok (.ofCount 1) ∧ sum.evaluate 0 kept = .ok half := by
  intro half f kept sum
  have rows : kept.rows = f.rows.filter (Argument.column 0).isPresent := by decide
  obtain ⟨t, v, first, head, agree⟩ := aggregate_without_nulls_iff (g := .sum) (by decide) (f := f)
    ⟨by decide, by decide, by decide⟩ ⟨by decide, by decide, by decide⟩ (by decide) rows
      (by decide) 0 0
  obtain rfl : DataType.null = t := Except.ok.inj first
  obtain rfl : Value.float64 0x3ff8000000000000#64 = v := Option.some.inj head
  refine ⟨rows, fun same => ?_, by decide +kernel, by decide +kernel⟩
  cases agree.mp same

end Call
end Windowing
