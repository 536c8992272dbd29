import Windowing.Proofs.Aggregates

/-!
The typing rules are sound. Over a frame whose rows are those of the schema, a call that the rules
admit gives a value of its type, and never a planning error. What is left to fail are sums, at an
integer or a sum of integers that 64 bits do not hold, and positions that are absent, not positive
or too large. Ranks never fail; they stop at a defect where they cannot be counted.
-/
namespace Windowing

namespace Function

variable {g : Function} {t : DataType}

theorem summation_eq_exact_iff : g.summation t = .ok .exact ↔ t.isInteger = true ∨ t = .null := by
  cases t <;> simp [summation, DataType.isInteger, DataType.isFloating]

theorem summation_eq_floating_iff : g.summation t = .ok .floating ↔ t.isFloating = true := by
  cases t <;> simp [summation, DataType.isInteger, DataType.isFloating]

end Function

namespace Value

theorem eq_integer_of_type {v : Value} (integral : v.type.isInteger = true) :
    ∃ k n fits, v = .integer k n fits := by
  cases v <;> first | exact ⟨_, _, _, rfl⟩ | cases integral

/-- Every number is read as a floating-point one. -/
theorem toFloat64_of_number {v : Value}
    (number : v.type.isInteger = true ∨ v.type.isFloating = true) :
    ∃ code, v.toFloat64 = .ok code := by
  cases v with
  | integer k n fits => exact ⟨_, rfl⟩
  | float32 code => exact ⟨_, rfl⟩
  | float64 code => exact ⟨code, rfl⟩
  | boolean b => rcases number with h | h <;> cases h
  | utf8 text => rcases number with h | h <;> cases h
  | binary bytes => rcases number with h | h <;> cases h

theorem ranged_of_fits {k : IntKind} {n : Int} (fits : k.Fits n) : ranged k n = .ok ⟨n, fits⟩ := by
  rw [ranged, IntKind.carrier?, dif_pos fits]

theorem ranged_of_not_fits {k : IntKind} {n : Int} (misfit : ¬ k.Fits n) :
    ranged k n = .error (.outOfRange (toString n) (.integer k)) := by
  rw [ranged, IntKind.carrier?_eq_none_iff.mpr misfit]

theorem whole_of_fits {k : IntKind} {n : Int} {fits : k.Fits n} (inside : IntKind.int64.Fits n) :
    (integer k n fits).whole = n := by
  rw [whole, toInteger, ranged_of_fits inside]
  rfl

/-- An integer keeps its value when it is cast to another kind, or is out of range. -/
theorem cast_integer {j k : IntKind} {n : Int} {fits : j.Fits n} :
    (integer j n fits).cast (.integer k) = (ranged k n).map fun m =>
      .integer k m.val m.property := by
  rw [cast, type]
  by_cases same : j = k
  · subst same
    rw [if_pos rfl, ranged_of_fits fits]
    rfl
  · rw [if_neg (by simpa using same)]
    rfl

end Value

namespace Call

/-- Why a call can fail that is well typed: a sum, because one of its integers, or the sum of the
first of them, is no signed 64-bit integer; a value at a position, because the position is null, not
positive, or too large. -/
inductive Fails (c : Call) (f : Frame) : EvaluationError → Prop
  | unrepresentable {a : Argument} {k : IntKind} {n : Int} {fits : k.Fits n} : c = ⟨.sum, [a]⟩ →
      .integer k n fits ∈ a.presents f.rows → ¬ IntKind.int64.Fits n →
      Fails c f (.cast (.outOfRange (toString n) .int64))
  | overflow {a : Argument} {before after : List Value} : c = ⟨.sum, [a]⟩ →
      a.presents f.rows = before ++ after →
      ¬ IntKind.int64.Fits (before.map Value.whole).sum → Fails c f .sumOverflow
  | absent {a position : Argument} {row : Row} {t : DataType} : c = ⟨.nthValue, [a, position]⟩ →
      f.row 0 = .ok row →
      position.evaluate row = .ok (.null t) → Fails c f (.position (.null .int64))
  | notPositive {a position : Argument} {row : Row} {k : IntKind} {n : Int} {fits : k.Fits n}
      {inside : IntKind.int64.Fits n} : c = ⟨.nthValue, [a, position]⟩ → f.row 0 = .ok row →
      position.evaluate row = .ok (.value (.integer k n fits)) → n ≤ 0 →
        Fails c f (.position (.value (.integer .int64 n inside)))
  | tooLarge {a position : Argument} {row : Row} {k : IntKind} {n : Int} {fits : k.Fits n} :
      c = ⟨.nthValue, [a, position]⟩ → f.row 0 = .ok row →
      position.evaluate row = .ok (.value (.integer k n fits)) →
        ¬ IntKind.int64.Fits n → Fails c f (.cast (.outOfRange (toString n) .int64))

/-- Ranking functions cannot number a row whose number is no signed 64-bit integer, nor rank one
whose peers start before its partition; positions wrap at 64 bits. -/
def Uncounted (c : Call) (index : Nat) (f : Frame) : Prop :=
  match c.function with
  | .rowNumber => index % countLimit = countLimit / 2 - 1
  | .denseRank => f.peerGroup % countLimit = countLimit / 2 - 1
  | .rank => f.peerStart < f.partitionStart ∨ countLimit ≤ f.peerStart - f.partitionStart + 1
  | _ => False

theorem addExact_eq_error {s : Option IntKind.int64.Carrier} {k : IntKind} {n : Int}
    {fits : k.Fits n} {e : EvaluationError} (fails : addExact s (.integer k n fits) = .error e) :
    ¬ IntKind.int64.Fits n ∧ e = .cast (.outOfRange (toString n) .int64) ∨
      ¬ IntKind.int64.Fits ((s.map Subtype.val).getD 0 + (Value.integer k n fits).whole) ∧
      e = .sumOverflow := by
  rw [addExact, Value.toInteger] at fails
  by_cases inside : IntKind.int64.Fits n
  · right
    rw [Value.ranged_of_fits inside] at fails
    rw [Value.whole_of_fits inside]
    dsimp only [Except.mapError, ok_bind] at fails
    split at fails
    · cases fails
    · rename_i none
      exact ⟨IntKind.carrier?_eq_none_iff.mp none, (Except.error.inj fails).symm⟩
  · left
    rw [Value.ranged_of_not_fits inside] at fails
    exact ⟨inside, (Except.error.inj fails).symm⟩

/-- Adding up integers fails at the first of them that is out of range, or with whose sum the sum
is. -/
theorem foldlM_addExact_eq_error {vs : List Value} {e : EvaluationError}
    (integral : ∀ v ∈ vs, v.type.isInteger = true) (fails : vs.foldlM addExact none = .error e) :
    (∃ k n fits, .integer k n fits ∈ vs ∧ ¬ IntKind.int64.Fits n ∧
      e = .cast (.outOfRange (toString n) .int64)) ∨
      e = .sumOverflow ∧ ∃ before after, vs = before ++ after ∧
        ¬ IntKind.int64.Fits (before.map Value.whole).sum := by
  obtain ⟨before, v, after, sum, rfl, reached, stops⟩ := foldlM_eq_error fails
  have member : v ∈ before ++ v :: after := by simp
  obtain ⟨k, n, fits, rfl⟩ := Value.eq_integer_of_type (integral v member)
  rcases addExact_eq_error stops with ⟨misfit, rfl⟩ | ⟨misfit, rfl⟩
  · exact .inl ⟨k, n, fits, member, misfit, rfl⟩
  · refine .inr ⟨rfl, before ++ [.integer k n fits], after, by simp, ?_⟩
    have total := (foldlM_addExact reached).2
    rw [Option.map_none, Option.getD_none, Int.zero_add] at total
    rwa [List.map_append, List.sum_append, List.map_singleton, List.sum_singleton, ← total]

/-- A cell that is read as a position. -/
theorem positionOf_eq_error {c : Cell} {e : EvaluationError} (integral : c.type.isInteger = true)
    (fails : positionOf c = .error e) :
    (∃ t, c = .null t ∧ e = .position (.null .int64)) ∨ ∃ k n fits, c = .value (.integer k n fits) ∧
      ((∃ inside, n ≤ 0 ∧ e = .position (.value (.integer .int64 n inside))) ∨
        ¬ IntKind.int64.Fits n ∧ e = .cast (.outOfRange (toString n) .int64)) := by
  cases c with
  | null t =>
    cases t with
    | integer k => exact .inl ⟨_, rfl, (Except.error.inj fails).symm⟩
    | null | boolean | float32 | float64 | utf8 | binary => cases integral
  | value v =>
    obtain ⟨k, n, fits, rfl⟩ := Value.eq_integer_of_type integral
    refine .inr ⟨k, n, fits, rfl, ?_⟩
    rw [positionOf, Cell.cast, Value.cast_integer] at fails
    by_cases inside : IntKind.int64.Fits n
    · left
      rw [Value.ranged_of_fits inside] at fails
      by_cases positive : 0 < n
      · simp only [Except.map, Except.mapError, ok_bind, if_pos positive] at fails
        cases fails
      · simp only [Except.map, Except.mapError, ok_bind, if_neg positive] at fails
        exact ⟨inside, Int.not_lt.mp positive, (Except.error.inj fails).symm⟩
    · rw [Value.ranged_of_not_fits inside] at fails
      exact .inr ⟨inside, (Except.error.inj fails).symm⟩

theorem addFloat_ok {v : Value} (read : ∃ code, v.toFloat64 = .ok code) (sum : BitVec 64) :
    ∃ next, addFloat sum v = .ok next := by
  obtain ⟨code, read⟩ := read
  rw [addFloat, read]
  exact ⟨_, rfl⟩

section Frames

variable {types : List DataType} {f : Frame} {a : Argument} {t : DataType} {c : Call}

theorem countPresent_ok (inside : ∀ row ∈ f.rows, a.Within row.length) :
    ∃ cell, countPresent f a = .ok cell := by
  have each : ∀ row ∈ f.rows, ∃ cell, a.evaluate row = .ok cell := by
    intro row member
    exact Argument.evaluate_ok (inside row member) (Nat.le_refl _)
  rw [countPresent, Argument.foldPresent_eq each, foldlM_count]
  exact ⟨_, rfl⟩

variable (holds : f.Holds types) (known : a.typeIn types = some t)

include holds known

theorem presents_toFloat64 (number : t.isInteger = true ∨ t.isFloating = true ∨ t = .null) :
    ∀ v ∈ a.presents f.rows, ∃ code, v.toFloat64 = .ok code := by
  intro v member
  have type := Argument.presents_type known holds.typed v member
  rcases number with integral | floating | rfl
  · exact Value.toFloat64_of_number (.inl (type ▸ integral))
  · exact Value.toFloat64_of_number (.inr (type ▸ floating))
  · cases v <;> cases type

theorem sumFloat_ok (floating : t.isFloating = true) : ∃ cell, sumFloat f a = .ok cell := by
  have read := presents_toFloat64 holds known (.inr (.inl floating))
  have steps : ∀ v ∈ a.presents f.rows, ∀ s : Option (BitVec 64), ∃ next,
      (some <$> addFloat (s.getD 0) v : Except EvaluationError (Option (BitVec 64))) =
        .ok next := by
    intro v member s
    obtain ⟨sum, step⟩ := addFloat_ok (read v member) (s.getD 0)
    exact ⟨some sum, by rw [step]; rfl⟩
  obtain ⟨sum, done⟩ := foldlM_ok_of_each steps none
  rw [sumFloat, holds.foldPresent known, done]
  exact ⟨_, rfl⟩

theorem avgOver_ok {s : Summation} (supported : c.function.summation t = .ok s) :
    ∃ cell, c.avgOver f a = .ok cell := by
  have number : t.isInteger = true ∨ t.isFloating = true ∨ t = .null := by
    cases s with
    | exact => exact (Function.summation_eq_exact_iff.mp supported).imp_right .inr
    | floating => exact .inr (.inl (Function.summation_eq_floating_iff.mp supported))
  have read := presents_toFloat64 holds known number
  have steps : ∀ v ∈ a.presents f.rows, ∀ p : BitVec 64 × Nat, ∃ next,
      (do return (← addFloat p.1 v, p.2 + 1) : Except EvaluationError (BitVec 64 × Nat)) =
        .ok next := by
    intro v member p
    obtain ⟨sum, step⟩ := addFloat_ok (read v member) p.1
    exact ⟨(sum, p.2 + 1), by rw [step]; rfl⟩
  obtain ⟨⟨sum, count⟩, done⟩ := foldlM_ok_of_each steps (0, 0)
  simp only [avgOver, holds.frameType known, Guarded.lift_eq, Guarded.ofDefect_ok,
    ok_bind, supported]
  rw [holds.foldPresent known]
  simp only [done, Except.mapError, Guarded.ofError_ok, ok_bind]
  split <;> exact ⟨_, rfl⟩

theorem extreme_ok {keep : Ordering} (strict : keep ≠ .eq) :
    ∃ cell, c.extreme keep f a = .ok cell := by
  rw [extreme, holds.foldPresent known]
  rcases foldlM_better strict (Argument.presents_type known holds.typed) with ⟨-, folded⟩ |
    ⟨v, folded, -⟩
  · rw [folded]
    simp only [Guarded.ofError_ok, ok_bind, holds.frameType known, Guarded.lift_eq,
      Guarded.ofDefect_ok]
    exact ⟨_, rfl⟩
  · rw [folded]
    exact ⟨_, rfl⟩

theorem valueAt_ok {offset : Nat} (inside : offset < f.size) :
    ∃ cell, valueAt f offset a = .ok cell := by
  obtain ⟨row, cell, found, value, -⟩ := holds.cell known inside
  refine ⟨cell, ?_⟩
  rw [valueAt, holds.not_isEmpty, if_neg Bool.false_ne_true, found, ok_bind, value]

theorem sumExact_fails (integral : t.isInteger = true ∨ t = .null) {x : Fault EvaluationError}
    (fails : sumExact f a = .error x) : ∃ e, x = .error e ∧ Fails ⟨.sum, [a]⟩ f e := by
  rw [sumExact, holds.foldPresent known] at fails
  rcases bind_eq_error_iff.mp fails with folded | ⟨sum, -, last⟩
  · obtain ⟨e, refused, rfl⟩ := Guarded.ofError_eq_error_iff.mp folded
    refine ⟨e, rfl, ?_⟩
    -- Where the argument has no type but null, there is nothing to add.
    have integers : ∀ v ∈ a.presents f.rows, v.type.isInteger = true := by
      intro v member
      have type := Argument.presents_type known holds.typed v member
      rcases integral with integral | rfl
      · rwa [type]
      · cases v <;> cases type
    rcases foldlM_addExact_eq_error integers refused with ⟨k, n, fits, member, misfit, rfl⟩ |
      ⟨rfl, before, after, parts, misfit⟩
    · exact .unrepresentable rfl member misfit
    · exact .overflow rfl parts misfit
  · cases sum <;> cases last

theorem sumOver_fails {s : Summation} (supported : Function.sum.summation t = .ok s)
    {x : Fault EvaluationError} (fails : sumOver ⟨.sum, [a]⟩ f a = .error x) :
    ∃ e, x = .error e ∧ Fails ⟨.sum, [a]⟩ f e := by
  simp only [sumOver, holds.frameType known, Guarded.lift_eq, Guarded.ofDefect_ok, ok_bind,
    supported] at fails
  cases s with
  | exact => exact sumExact_fails holds known (Function.summation_eq_exact_iff.mp supported) fails
  | floating =>
    obtain ⟨cell, done⟩ := sumFloat_ok holds known (Function.summation_eq_floating_iff.mp supported)
    cases done.symm.trans fails

theorem nth_fails {position : Argument} {u : DataType} (positioned : position.typeIn types = some u)
    (integral : u.isInteger = true) {x : Fault EvaluationError}
    (fails : nth f a position = .error x) :
    ∃ e, x = .error e ∧ Fails ⟨.nthValue, [a, position]⟩ f e := by
  obtain ⟨row, cell, found, value, type⟩ := holds.cell positioned holds.nonempty
  rw [nth, holds.not_isEmpty, if_neg Bool.false_ne_true] at fails
  simp only [found, value, Guarded.lift_eq, Guarded.ofDefect_ok, ok_bind] at fails
  rcases bind_eq_error_iff.mp fails with refused | ⟨n, -, fails⟩
  · obtain ⟨e, place, rfl⟩ := Guarded.ofError_eq_error_iff.mp refused
    refine ⟨e, rfl, ?_⟩
    rcases positionOf_eq_error (type ▸ integral) place with ⟨t, rfl, rfl⟩ |
      ⟨k, n, fits, rfl, ⟨inside, low, rfl⟩ | ⟨misfit, rfl⟩⟩
    · exact .absent rfl found value
    · exact .notPositive rfl found value low
    · exact .tooLarge rfl found value misfit
  · -- A position that is read is beyond the frame, whose argument has a type, or that of one of
    -- its rows.
    simp only [holds.frameType known, Guarded.ofDefect_ok, ok_bind] at fails
    by_cases short : f.size < n
    · rw [if_pos short] at fails
      cases fails
    · rw [if_neg short] at fails
      have nonempty := holds.nonempty
      obtain ⟨row', cell', found', value', -⟩ := holds.cell known (show n - 1 < f.size by omega)
      rw [found', Guarded.ofDefect_ok, ok_bind, value'] at fails
      cases fails

end Frames

theorem Fails.function {c : Call} {f : Frame} {e : EvaluationError} (fails : c.Fails f e) :
    c.function = .sum ∨ c.function = .nthValue := by
  cases fails with
  | unrepresentable call | overflow call => exact .inl (congrArg Call.function call)
  | absent call | notPositive call | tooLarge call => exact .inr (congrArg Call.function call)

theorem Fails.ne_signature {c : Call} {f : Frame} {e : EvaluationError} (fails : c.Fails f e)
    (s : SignatureError) :
    e ≠ .signature s := by
  rintro rfl
  cases fails

variable {c : Call} {schema : Schema} {f : Frame} {t : DataType} {index : Nat}

theorem evaluate_uncounted (uncounted : c.Uncounted index f) :
    c.evaluate index f = .error (.defect .countOutOfRange) := by
  obtain ⟨g, arguments⟩ := c
  cases g with
  | rowNumber | denseRank =>
    simp only [Uncounted] at uncounted
    simp only [evaluate, ordinal_eq_error_iff.mpr ⟨rfl, uncounted⟩, Guarded.lift_eq,
      Guarded.ofDefect_error]
  | rank =>
    simp only [Uncounted] at uncounted
    simp only [evaluate, rankOf_eq_error_iff.mpr ⟨rfl, uncounted⟩, Guarded.lift_eq,
      Guarded.ofDefect_error]
  | count | sum | avg | min | max | firstValue | lastValue | nthValue => cases uncounted

/-- A well-typed call that gives no cell is a sum or a value at a position, or a rank that cannot be
counted. -/
theorem evaluate_fails (typed : WellTyped schema c t) (holds : f.Holds schema.types)
    (inside : ∀ row ∈ f.rows, c.Within row.length) {x : Fault EvaluationError}
    (fails : c.evaluate index f = .error x) :
    (∃ e, x = .error e ∧ c.Fails f e) ∨ x = .defect .countOutOfRange ∧ c.Uncounted index f := by
  cases typed with
  | rowNumber | denseRank =>
    simp only [evaluate, Guarded.lift_eq, Guarded.ofDefect_eq_error_iff,
      ordinal_eq_error_iff] at fails
    obtain ⟨d, ⟨rfl, last⟩, rfl⟩ := fails
    exact .inr ⟨rfl, by simpa only [Uncounted] using last⟩
  | rank =>
    simp only [evaluate, Guarded.lift_eq, Guarded.ofDefect_eq_error_iff,
      rankOf_eq_error_iff] at fails
    obtain ⟨d, ⟨rfl, misplaced⟩, rfl⟩ := fails
    exact .inr ⟨rfl, by simpa only [Uncounted] using misplaced⟩
  | countRows => cases fails
  | count a =>
    have within : ∀ row ∈ f.rows, a.Within row.length := by
      intro row member
      exact inside row member a (List.mem_singleton_self a)
    obtain ⟨cell, done⟩ := countPresent_ok within
    cases done.symm.trans fails
  | sum typed supported =>
    exact .inl (sumOver_fails holds (Argument.typeIn_of_type typed) supported fails)
  | avg typed supported =>
    obtain ⟨cell, done⟩ : ∃ cell, avgOver ⟨.avg, _⟩ f _ = .ok cell :=
      avgOver_ok holds (Argument.typeIn_of_type typed) supported
    cases done.symm.trans fails
  | min typed =>
    obtain ⟨cell, done⟩ : ∃ cell, extreme ⟨.min, _⟩ .lt f _ = .ok cell :=
      extreme_ok holds (Argument.typeIn_of_type typed) (by decide)
    cases done.symm.trans fails
  | max typed =>
    obtain ⟨cell, done⟩ : ∃ cell, extreme ⟨.max, _⟩ .gt f _ = .ok cell :=
      extreme_ok holds (Argument.typeIn_of_type typed) (by decide)
    cases done.symm.trans fails
  | firstValue typed =>
    obtain ⟨cell, done⟩ := valueAt_ok holds (Argument.typeIn_of_type typed) holds.nonempty
    cases (congrArg Guarded.ofDefect done).symm.trans fails
  | lastValue typed =>
    obtain ⟨cell, done⟩ :=
      valueAt_ok holds (Argument.typeIn_of_type typed) (Nat.sub_one_lt_of_lt holds.nonempty)
    cases (congrArg Guarded.ofDefect done).symm.trans fails
  | nthValue typed positioned integral =>
    exact .inl (nth_fails holds (Argument.typeIn_of_type typed) (Argument.typeIn_of_type positioned)
      integral fails)

/-- The typing rules are sound. -/
theorem evaluate_sound {field : Field} (checked : c.outputField schema = .ok field)
    (holds : f.Holds schema.types) (inside : ∀ row ∈ f.rows, c.Within row.length) (index : Nat) :
    (∀ cell, c.evaluate index f = .ok cell → cell.type = field.type) ∧
      (∀ e, c.evaluate index f = .error (.error e) →
        (c.function = .sum ∨ c.function = .nthValue) ∧ (∀ s, e ≠ .signature s) ∧ c.Fails f e) ∧
      ∀ d, c.evaluate index f = .error (.defect d) ↔ d = .countOutOfRange ∧
        c.Uncounted index f := by
  obtain ⟨t, typed, last⟩ := bind_eq_ok_iff.mp checked
  obtain rfl := Except.ok.inj last
  have reasons : ∀ x, c.evaluate index f = .error x →
      (∃ e, x = .error e ∧ c.Fails f e) ∨ x = .defect .countOutOfRange ∧ c.Uncounted index f := by
    intro x
    exact evaluate_fails (wellTyped_of_resultType typed) holds inside
  refine ⟨fun cell => evaluate_type typed holds, ?_, ?_⟩
  · intro e fails
    rcases reasons _ fails with ⟨e', same, fails⟩ | ⟨stops, -⟩
    · obtain rfl := Fault.error.inj same
      exact ⟨fails.function, fails.ne_signature, fails⟩
    · cases stops
  · intro d
    constructor
    · intro stops
      rcases reasons _ stops with ⟨e, same, -⟩ | ⟨same, uncounted⟩
      · cases same
      · exact ⟨Fault.defect.inj same, uncounted⟩
    · rintro ⟨rfl, uncounted⟩
      exact evaluate_uncounted uncounted

/-- A null before an integer that is no signed one. -/
theorem evaluate_sound_unsigned :
    let schema : Schema := ⟨[⟨"x", .integer .uint64, true⟩], []⟩
    let half : Value := .integer .uint64 9223372036854775808 (by decide)
    let f : Frame := ⟨#[[.null (.integer .uint64)], [.value half]], 0, 0, 2, 0, 0, 0⟩
    let firstColumn (g : Function) : Call := ⟨g, [.column 0]⟩
    f.Holds schema.types ∧
      (firstColumn .firstValue).evaluate 0 f = .ok (.null (.integer .uint64)) ∧
      (Cell.null (.integer .uint64)).type = .integer .uint64 ∧
      (firstColumn .sum).evaluate 0 f =
        .error (.error (.cast (.outOfRange "9223372036854775808" .int64))) ∧
      (firstColumn .sum).Fails f (.cast (.outOfRange "9223372036854775808" .int64)) := by
  intro schema half f firstColumn
  have typed : ∀ row ∈ f.rows, Row.HasTypes [.integer .uint64] row := by
    unfold Row.HasTypes
    decide
  have holds : f.Holds schema.types := ⟨⟨by decide, by decide, by decide⟩, by decide, typed⟩
  have inside : ∀ g, ∀ row ∈ f.rows, (firstColumn g).Within row.length := by
    intro g
    change ∀ row ∈ f.rows, ∀ a ∈ [Argument.column 0], a.Within row.length
    decide
  have first : (firstColumn .firstValue).evaluate 0 f = .ok (.null (.integer .uint64)) := rfl
  have fails : (firstColumn .sum).evaluate 0 f =
      .error (.error (.cast (.outOfRange "9223372036854775808" .int64))) := by
    decide +kernel
  obtain ⟨types, -, -⟩ := evaluate_sound (c := firstColumn .firstValue) rfl holds (inside _) 0
  obtain ⟨-, reasons, -⟩ := evaluate_sound (c := firstColumn .sum) rfl holds (inside _) 0
  exact ⟨holds, first, types _ first, fails, (reasons _ fails).2.2⟩

end Call
end Windowing
