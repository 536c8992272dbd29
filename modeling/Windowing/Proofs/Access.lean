import Windowing.Proofs.Frame

/-!
What a frame shows after any steps over its buffer, the refused ones skipped: new frames, and
updates of the bounds and of the current row. Its bounds stand in order and inside the buffer
whatever the arguments were, so it has as many rows as its size tells, and a row read by its offset
is the one that stands there among all of them.
-/
namespace Windowing.Frame

inductive Step
  | range (first last : Nat)
  | update (u : Update)
  deriving DecidableEq

/-- A refused step leaves the frame there is, and there is none before the first one is made. -/
def follow (buffer : Array Row) (f : Option Frame) : Step → Option Frame
  | .range first last => (ofRange buffer first last).toOption.or f
  | .update u => f.map fun f => (f.update u).toOption.getD f

def after (buffer : Array Row) (steps : List Step) : Option Frame :=
  steps.foldl (follow buffer) none

variable {buffer : Array Row} {f g : Frame}

theorem valid_of_range {first last : Nat} (built : ofRange buffer first last = .ok f) :
    f.buffer = buffer ∧ f.Valid := by
  unfold ofRange at built
  split at built
  · rename_i admitted
    obtain rfl := Except.ok.inj built
    exact ⟨rfl, Nat.le_refl first, admitted.1, admitted.2⟩
  · cases built

theorem Valid.update {u : Update} (valid : f.Valid) (accepted : f.update u = .ok g) :
    g.buffer = f.buffer ∧ g.Valid := by
  have stepped : Updated.step ⟨f, none⟩ u = ⟨g, some u⟩ := by simp only [Updated.step, accepted]
  rcases Updated.step_cases ⟨f, none⟩ u with same |
    ⟨start, first, last, -, ⟨partition, ordered, inside⟩, same⟩ |
    ⟨current, peerStart, peerGroup, -, -, same⟩
  all_goals
    rw [stepped] at same
    cases same
  · exact ⟨rfl, partition, ordered, inside⟩
  · exact ⟨rfl, valid.start_le_first, valid.first_le_last, valid.last_le_size⟩

theorem follow_valid {held : Option Frame} (valid : ∀ f ∈ held, f.buffer = buffer ∧ f.Valid)
    (s : Step) :
    ∀ f ∈ follow buffer held s, f.buffer = buffer ∧ f.Valid := by
  intro g reached
  cases s with
  | range first last =>
    cases built : ofRange buffer first last with
    | ok f =>
      rw [follow, built] at reached
      cases reached
      exact valid_of_range built
    | error d =>
      rw [follow, built] at reached
      exact valid g reached
  | update u =>
    obtain ⟨f, present, rfl⟩ := Option.map_eq_some_iff.mp reached
    cases accepted : f.update u with
    | ok g =>
      obtain ⟨same, inside⟩ := valid f present
      obtain ⟨kept, updated⟩ := inside.update accepted
      exact ⟨kept.trans same, updated⟩
    | error d => exact valid f present

theorem after_valid (steps : List Step) :
    ∀ f ∈ after buffer steps, f.buffer = buffer ∧ f.Valid := by
  have kept : ∀ held : Option Frame, (∀ f ∈ held, f.buffer = buffer ∧ f.Valid) →
      ∀ f ∈ steps.foldl (follow buffer) held, f.buffer = buffer ∧ f.Valid := by
    induction steps with
    | nil => exact fun _ valid => valid
    | cons s steps ih => exact fun held valid => ih _ (follow_valid valid s)
  exact kept none nofun

/-- After any steps the bounds of a frame stand in order and inside the buffer, its size is the
exact distance of the two, and it has so many rows. A row is read by its offset just if the offset
is below the size; then it is the row of that offset among the rows of the frame, and in the buffer
counted on from the start of the frame. -/
theorem accessors_of_steps {steps : List Step} (reached : after buffer steps = some f) :
    (f.partitionStart ≤ f.first ∧ f.first ≤ f.last ∧ f.last ≤ buffer.size) ∧
      f.first + f.size = f.last ∧ f.rows.length = f.size ∧
      ∀ k,
        (f.size ≤ k → f.row k = .error (.offsetOutsideFrame k f.size)) ∧
        (k < f.size → f.first + k < buffer.size ∧
          ∃ row, f.row k = .ok row ∧ f.rows[k]? = some row ∧ buffer[f.first + k]? = some row) := by
  obtain ⟨rfl, valid⟩ := after_valid steps f reached
  have exact_size : f.first + f.size = f.last := Nat.add_sub_cancel' valid.first_le_last
  refine ⟨⟨valid.start_le_first, valid.first_le_last, valid.last_le_size⟩, exact_size,
    length_rows valid, fun k => ?_⟩
  constructor
  · intro beyond
    exact if_neg (Nat.not_lt.mpr beyond)
  · intro inside
    have within : f.first + k < f.buffer.size := by
      calc f.first + k < f.first + f.size := Nat.add_lt_add_left inside f.first
        _ = f.last := exact_size
        _ ≤ f.buffer.size := valid.last_le_size
    have there : f.buffer[f.first + k]? = some f.buffer[f.first + k] :=
      Array.getElem?_eq_getElem within
    have listed : f.rows[k]? = some f.buffer[f.first + k] :=
      (getElem?_rows valid inside).trans there
    exact ⟨within, _, (row_eq_ok_iff valid).mpr listed, listed, there⟩

/-- Updates before there is a frame, bounds out of order and out of the buffer, and a range that is
too long: all of them refused around the one update that is taken. -/
theorem accessors_of_steps_refused :
    let row (n : Nat) : Row := [.ofCount n]
    let buffer : Array Row := #[row 0, row 1, row 2]
    let steps : List Step :=
      [.range 0 4, .update (.bounds 0 0 1), .range 0 3, .update (.bounds 1 1 3),
      .update (.bounds 2 1 3), .update (.bounds 1 1 18446744073709551615), .range 3 2,
      .update (.current 2 1 1)]
    let f : Frame := ⟨buffer, 1, 1, 3, 2, 1, 1⟩
    after buffer steps = some f ∧ f.rows.length = f.size ∧ f.row 1 = .ok (row 2) ∧
      f.rows[1]? = some (row 2) ∧ f.row 2 = .error (.offsetOutsideFrame 2 2) := by
  intro row buffer steps f
  have reached : after buffer steps = some f := by decide
  obtain ⟨-, -, length, reads⟩ := accessors_of_steps reached
  obtain ⟨-, found, read, listed, there⟩ := (reads 1).2 (by decide)
  obtain rfl : row 2 = found := Option.some.inj there
  exact ⟨reached, length, read, listed, (reads 2).1 (by decide)⟩

end Windowing.Frame
