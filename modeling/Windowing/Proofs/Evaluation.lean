import Windowing.Function.Evaluation
import Windowing.Proofs.Fault

/-!
What the result of a call depends on. A call whose arguments lie in the first cells of a row cannot
tell frames apart whose rows agree there, and only the ranking functions look at where the current
row stands. Over rows that have those cells a call stops at a defect only if there are too many
rows.
-/
namespace Windowing

variable {width : Nat}

namespace Argument

def Within (width : Nat) : Argument → Prop
  | column position => position < width
  | literal _ => True

instance (width : Nat) : (a : Argument) → Decidable (a.Within width)
  | column position => inferInstanceAs (Decidable (position < width))
  | literal _ => .isTrue trivial

variable {a : Argument}

theorem Within.mono {more : Nat} (le : width ≤ more) (within : a.Within width) : a.Within more := by
  cases a with
  | column position => exact Nat.lt_of_lt_of_le within le
  | literal cell => trivial

theorem evaluate_congr (within : a.Within width) {row other : Row}
    (agree : row.take width = other.take width) : a.evaluate row = a.evaluate other := by
  cases a with
  | column position => exact Row.cellAt_congr agree within
  | literal cell => rfl

theorem evaluate_ok (within : a.Within width) {row : Row} (wide : width ≤ row.length) :
    ∃ cell, a.evaluate row = .ok cell := by
  cases a with
  | column position => exact ⟨_, Row.cellAt_of_lt (Nat.lt_of_lt_of_le within wide)⟩
  | literal cell => exact ⟨cell, rfl⟩

theorem foldPresent_congr (within : a.Within width) (step : σ → Value → Except EvaluationError σ)
    (s : σ) {rows others : List Row}
    (agree : rows.map (List.take width) = others.map (List.take width)) :
    a.foldPresent step s rows = a.foldPresent step s others := by
  induction rows generalizing s others with
  | nil =>
    obtain rfl := List.map_eq_nil_iff.mp agree.symm
    rfl
  | cons row rows ih =>
    obtain ⟨other, others, rfl, first, rest⟩ := List.map_eq_cons_iff.mp agree.symm
    simp only [foldPresent, evaluate_congr within first, fun s => ih s rest.symm]

end Argument

structure Frame.Alike (width : Nat) (f g : Frame) : Prop where
  left : f.Valid
  right : g.Valid
  agree : f.rows.map (List.take width) = g.rows.map (List.take width)

namespace Frame.Alike

variable {f g : Frame}

theorem size_eq (alike : Alike width f g) : f.size = g.size := by
  have lengths := congrArg List.length alike.agree
  rwa [List.length_map, List.length_map, length_rows alike.left, length_rows alike.right] at lengths

theorem isEmpty_eq (alike : Alike width f g) : f.isEmpty = g.isEmpty := by
  rw [isEmpty, isEmpty, alike.size_eq]

/-- Both frames have a row at the offset, or neither has. -/
theorem row (alike : Alike width f g) (offset : Nat) :
    (∃ row other, f.row offset = .ok row ∧ g.row offset = .ok other ∧
      row.take width = other.take width) ∨
    ∃ d, f.row offset = .error d ∧ g.row offset = .error d := by
  by_cases inside : offset < f.size
  · have first : offset < f.rows.length := by rwa [length_rows alike.left]
    have second : offset < g.rows.length := by rwa [length_rows alike.right, ← alike.size_eq]
    refine .inl ⟨f.rows[offset], g.rows[offset], ?_, ?_, ?_⟩
    · exact (row_eq_ok_iff alike.left).mpr (List.getElem?_eq_getElem first)
    · exact (row_eq_ok_iff alike.right).mpr (List.getElem?_eq_getElem second)
    · have agree := congrArg (·[offset]?) alike.agree
      simpa [first, second] using agree
  · refine .inr ⟨.offsetOutsideFrame offset f.size, ?_, ?_⟩
    · rw [Frame.row, if_neg inside]
    · rw [Frame.row, ← alike.size_eq, if_neg inside]

end Frame.Alike

structure Frame.RankedAlike (f g : Frame) : Prop where
  left : f.partitionStart ≤ f.peerStart
  right : g.partitionStart ≤ g.peerStart
  before : f.peerStart - f.partitionStart = g.peerStart - g.partitionStart
  group : f.peerGroup = g.peerGroup

theorem Argument.frameType_congr {a : Argument} (within : a.Within width) {f g : Frame}
    (alike : Frame.Alike width f g) : a.frameType f = a.frameType g := by
  unfold frameType
  rw [alike.isEmpty_eq]
  rcases alike.row 0 with ⟨row, other, first, second, agree⟩ | ⟨d, first, second⟩
  · simp only [first, second, ok_bind, evaluate_congr within agree]
  · simp only [first, second, error_bind]

namespace Call

def Within (width : Nat) (c : Call) : Prop := ∀ a ∈ c.arguments, a.Within width

instance (width : Nat) (c : Call) : Decidable (c.Within width) :=
  inferInstanceAs (Decidable (∀ a ∈ c.arguments, a.Within width))

/-- Some width is enough for all arguments. -/
theorem exists_within (c : Call) : ∃ width, c.Within width := by
  have enough : ∀ arguments : List Argument, ∃ width, ∀ a ∈ arguments, a.Within width := by
    intro arguments
    induction arguments with
    | nil => exact ⟨0, fun a member => by cases member⟩
    | cons a rest ih =>
      obtain ⟨width, inside⟩ := ih
      have one : ∃ more, a.Within more := by
        cases a with
        | column position => exact ⟨position + 1, Nat.lt_succ_self position⟩
        | literal cell => exact ⟨0, trivial⟩
      obtain ⟨more, first⟩ := one
      refine ⟨max width more, List.forall_mem_cons.mpr ⟨first.mono (Nat.le_max_right ..), ?_⟩⟩
      exact fun b member => (inside b member).mono (Nat.le_max_left ..)
  exact enough c.arguments

variable {c : Call} {f g : Frame}

theorem Within.one (within : c.Within width) {a : Argument} (h : c.oneArgument = .ok a) :
    a.Within width := by
  unfold oneArgument at h
  split at h
  · rename_i single
    cases h
    exact within a (by simp [single])
  · cases h

theorem Within.two (within : c.Within width) {a position : Argument}
    (h : c.twoArguments = .ok (a, position)) : a.Within width ∧ position.Within width := by
  unfold twoArguments at h
  split at h
  · rename_i pair
    cases h
    exact ⟨within a (by simp [pair]), within position (by simp [pair])⟩
  · cases h

section Congruence

variable {a : Argument} (within : a.Within width) (alike : Frame.Alike width f g)

include within alike

theorem countPresent_congr : countPresent f a = countPresent g a := by
  unfold countPresent
  rw [Argument.foldPresent_congr within _ _ alike.agree]

theorem sumOver_congr : c.sumOver f a = c.sumOver g a := by
  unfold sumOver sumExact sumFloat
  simp only [Argument.frameType_congr within alike,
    Argument.foldPresent_congr within _ _ alike.agree]

theorem avgOver_congr : c.avgOver f a = c.avgOver g a := by
  simp only [avgOver, Argument.frameType_congr within alike,
    Argument.foldPresent_congr within _ _ alike.agree]

theorem extreme_congr (keep : Ordering) : c.extreme keep f a = c.extreme keep g a := by
  simp only [extreme, Argument.frameType_congr within alike,
    Argument.foldPresent_congr within _ _ alike.agree]

theorem valueAt_congr (offset : Nat) : valueAt f offset a = valueAt g offset a := by
  unfold valueAt
  rw [alike.isEmpty_eq]
  rcases alike.row offset with ⟨row, other, first, second, agree⟩ | ⟨d, first, second⟩
  · simp only [first, second, ok_bind, Argument.evaluate_congr within agree]
  · simp only [first, second, error_bind]

theorem nth_congr {position : Argument} (withinPosition : position.Within width) :
    nth f a position = nth g a position := by
  unfold nth
  rw [alike.isEmpty_eq, alike.size_eq, Argument.frameType_congr within alike]
  have value : ∀ offset,
      (Guarded.ofDefect (f.row offset) >>= fun row => Guarded.ofDefect (a.evaluate row) :
      Guarded EvaluationError Cell) =
      (Guarded.ofDefect (g.row offset) >>= fun row => Guarded.ofDefect (a.evaluate row)) := by
    intro offset
    rcases alike.row offset with ⟨row, other, first, second, agree⟩ | ⟨d, first, second⟩
    · simp only [first, second, Guarded.ofDefect_ok, ok_bind, Argument.evaluate_congr within agree]
    · simp only [first, second, Guarded.ofDefect_error, error_bind]
  rcases alike.row 0 with ⟨row, other, first, second, agree⟩ | ⟨d, first, second⟩
  · simp only [first, second, Guarded.lift_eq, Guarded.ofDefect_ok, ok_bind,
      Argument.evaluate_congr withinPosition agree, value]
  · simp only [first, second, Guarded.lift_eq, Guarded.ofDefect_error, error_bind]

end Congruence

/-- Functions of the frame alone do not even look at the index. -/
theorem evaluate_congr (within : c.Within width) (alike : Frame.Alike width f g) {i j : Nat}
    (ranked : c.function.frameOnly = false → i = j ∧ Frame.RankedAlike f g) :
    c.evaluate i f = c.evaluate j g := by
  have one : ∀ h h' : Argument → Guarded EvaluationError Cell,
      (∀ a : Argument, a.Within width → h a = h' a) → (c.one >>= h) = (c.one >>= h') := by
    intro h h' same
    rw [Call.one]
    cases single : c.oneArgument with
    | error e => rfl
    | ok a => exact same a (within.one single)
  unfold evaluate
  cases function : c.function with
  | rowNumber => rw [(ranked (by rw [function]; rfl)).1]
  | rank =>
    obtain ⟨-, ranks⟩ := ranked (by rw [function]; rfl)
    simp only [rankOf, Nat.not_lt.mpr ranks.left, Nat.not_lt.mpr ranks.right, if_false,
      ranks.before]
  | denseRank => rw [(ranked (by rw [function]; rfl)).2.group]
  | count =>
    dsimp only
    cases arguments : c.arguments with
    | nil => simp only [alike.size_eq]
    | cons a rest => exact countPresent_congr (within a (by simp [arguments])) alike
  | sum => exact one _ _ fun a inside => sumOver_congr inside alike
  | avg => exact one _ _ fun a inside => avgOver_congr inside alike
  | min => exact one _ _ fun a inside => extreme_congr inside alike .lt
  | max => exact one _ _ fun a inside => extreme_congr inside alike .gt
  | firstValue =>
    exact one _ _ fun a inside => by simp only [valueAt_congr inside alike]
  | lastValue =>
    exact one _ _ fun a inside => by simp only [alike.size_eq, valueAt_congr inside alike]
  | nthValue =>
    dsimp only
    cases pair : c.twoArguments with
    | error e => rfl
    | ok p =>
      obtain ⟨inside, insidePosition⟩ := within.two pair
      exact nth_congr inside alike insidePosition

/-- Over the same rows, ranked the same, a call gives the same. -/
theorem evaluate_of_rows_eq (left : f.Valid) (right : g.Valid) (same : f.rows = g.rows)
    (ranked : Frame.RankedAlike f g) (i : Nat) : c.evaluate i f = c.evaluate i g := by
  obtain ⟨width, within⟩ := c.exists_within
  exact evaluate_congr within ⟨left, right, by rw [same]⟩ fun _ => ⟨rfl, ranked⟩

end Call
end Windowing
