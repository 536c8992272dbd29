import Windowing.Proofs.Stopping

/-!
What checking a call against a schema ensures. The typing rules say which calls have a result type;
it means that all columns which the function looks at exist, with one exception: `count` never asks
for the type of its argument.
-/
namespace Windowing

namespace Argument

theorem within_of_type {a : Argument} {schema : Schema} {t : DataType}
    (typed : a.type schema = .ok t) :
    a.Within schema.width := by
  cases a with
  | literal cell => trivial
  | column position =>
    dsimp only [type] at typed
    split at typed
    · rename_i found
      exact (List.getElem?_eq_some_iff.mp found).1
    · cases typed

end Argument

namespace Call

theorem Within.mono {c : Call} {width more : Nat} (le : width ≤ more) (within : c.Within width) :
    c.Within more := fun a member => (within a member).mono le

def countOf (column : Nat) : Call := ⟨.count, [.column column]⟩

theorem oneArgument_eq_ok_iff {c : Call} {a : Argument} :
    c.oneArgument = .ok a ↔ c.arguments = [a] := by
  unfold oneArgument
  split <;> simp_all

theorem twoArguments_eq_ok_iff {c : Call} {a b : Argument} :
    c.twoArguments = .ok (a, b) ↔ c.arguments = [a, b] := by
  unfold twoArguments
  split <;> simp_all

/-- The calls that have a result over rows of a schema, each with its type. -/
inductive WellTyped (schema : Schema) : Call → DataType → Prop
  | rowNumber : WellTyped schema ⟨.rowNumber, []⟩ .int64
  | rank : WellTyped schema ⟨.rank, []⟩ .int64
  | denseRank : WellTyped schema ⟨.denseRank, []⟩ .int64
  | countRows : WellTyped schema ⟨.count, []⟩ .int64
  | count (a : Argument) : WellTyped schema ⟨.count, [a]⟩ .int64
  | sum {a : Argument} {t : DataType} {s : Summation} : a.type schema = .ok t →
      Function.sum.summation t = .ok s →
      WellTyped schema ⟨.sum, [a]⟩ s.type
  | avg {a : Argument} {t : DataType} {s : Summation} : a.type schema = .ok t →
      Function.avg.summation t = .ok s →
      WellTyped schema ⟨.avg, [a]⟩ .float64
  | min {a : Argument} {t : DataType} : a.type schema = .ok t → WellTyped schema ⟨.min, [a]⟩ t
  | max {a : Argument} {t : DataType} : a.type schema = .ok t → WellTyped schema ⟨.max, [a]⟩ t
  | firstValue {a : Argument} {t : DataType} : a.type schema = .ok t →
      WellTyped schema ⟨.firstValue, [a]⟩ t
  | lastValue {a : Argument} {t : DataType} : a.type schema = .ok t →
      WellTyped schema ⟨.lastValue, [a]⟩ t
  | nthValue {a position : Argument} {t u : DataType} : a.type schema = .ok t →
      position.type schema = .ok u →
      u.isInteger = true → WellTyped schema ⟨.nthValue, [a, position]⟩ t

theorem wellTyped_of_resultType {c : Call} {schema : Schema} {t : DataType}
    (checked : c.resultType schema = .ok t) : WellTyped schema c t := by
  obtain ⟨g, arguments⟩ := c
  -- A function of one argument is given just that one.
  have one : ∀ {h : Argument → Except SignatureError DataType},
      (oneArgument ⟨g, arguments⟩ >>= h) = .ok t →
      ∃ a, arguments = [a] ∧ h a = .ok t := by
    intro h done
    obtain ⟨a, single, done⟩ := bind_eq_ok_iff.mp done
    exact ⟨a, oneArgument_eq_ok_iff.mp single, done⟩
  cases g with
  | rowNumber | rank | denseRank =>
    cases arguments with
    | nil =>
      obtain rfl := Except.ok.inj checked
      constructor
    | cons a rest => cases checked
  | count =>
    match arguments with
    | [] =>
      obtain rfl := Except.ok.inj checked
      exact .countRows
    | [a] =>
      obtain rfl := Except.ok.inj checked
      exact .count a
    | a :: b :: rest =>
      rw [resultType, if_pos (by simp)] at checked
      cases checked
  | sum =>
    obtain ⟨a, rfl, checked⟩ := one checked
    obtain ⟨u, typed, checked⟩ := bind_eq_ok_iff.mp checked
    obtain ⟨s, supported, last⟩ := bind_eq_ok_iff.mp checked
    obtain rfl := Except.ok.inj last
    exact .sum typed supported
  | avg =>
    obtain ⟨a, rfl, checked⟩ := one checked
    obtain ⟨u, typed, checked⟩ := bind_eq_ok_iff.mp checked
    obtain ⟨s, supported, last⟩ := bind_eq_ok_iff.mp checked
    obtain rfl := Except.ok.inj last
    exact .avg typed supported
  | min =>
    obtain ⟨a, rfl, typed⟩ := one checked
    exact .min typed
  | max =>
    obtain ⟨a, rfl, typed⟩ := one checked
    exact .max typed
  | firstValue =>
    obtain ⟨a, rfl, typed⟩ := one checked
    exact .firstValue typed
  | lastValue =>
    obtain ⟨a, rfl, typed⟩ := one checked
    exact .lastValue typed
  | nthValue =>
    obtain ⟨⟨a, position⟩, pair, positioned⟩ := bind_eq_ok_iff.mp checked
    obtain ⟨u, known, typed⟩ := bind_eq_ok_iff.mp positioned
    obtain rfl : arguments = [a, position] := twoArguments_eq_ok_iff.mp pair
    by_cases whole : u.isInteger = true
    · rw [if_pos whole] at typed
      exact .nthValue typed known whole
    · rw [if_neg whole] at typed
      cases typed

/-- A checked call looks at columns of the schema, or counts a column. -/
theorem within_of_resultType {c : Call} {schema : Schema} {t : DataType}
    (checked : c.resultType schema = .ok t) :
    c.Within schema.width ∨ ∃ column, c = countOf column := by
  have none : ∀ g, Call.Within schema.width ⟨g, []⟩ := fun _ => List.forall_mem_nil _
  have one : ∀ {g a}, a.Within schema.width → Call.Within schema.width ⟨g, [a]⟩ := by
    intro g a inside
    exact List.forall_mem_singleton.mpr inside
  cases wellTyped_of_resultType checked with
  | rowNumber | rank | denseRank | countRows => exact .inl (none _)
  | count a =>
    cases a with
    | literal cell => exact .inl (one trivial)
    | column position => exact .inr ⟨position, rfl⟩
  | sum typed | avg typed | min typed | max typed | firstValue typed | lastValue typed =>
    exact .inl (one (Argument.within_of_type typed))
  | nthValue typed known =>
    refine .inl (List.forall_mem_cons.mpr ⟨Argument.within_of_type typed, ?_⟩)
    exact List.forall_mem_singleton.mpr (Argument.within_of_type known)

end Call
end Windowing
