import Windowing.Function.Evaluation

/-!
Frames under updates in any order, the refused ones skipped. An update of the current row looks at
the start of the partition; one of the bounds does not look at the current row, so the two may
disagree until the current row is updated next.
-/
namespace Windowing.Frame

inductive Update
  | bounds (partitionStart first last : Nat)
  | current (current peerStart peerGroup : Nat)
  deriving DecidableEq

def update (f : Frame) : Update → Except Defect Frame
  | .bounds partitionStart first last => f.withBounds partitionStart first last
  | .current current peerStart peerGroup => f.withCurrent current peerStart peerGroup

structure Updated where
  frame : Frame
  accepted : Option Update := none
  deriving DecidableEq

namespace Updated

def step (s : Updated) (u : Update) : Updated :=
  match s.frame.update u with
  | .ok f => ⟨f, some u⟩
  | .error _ => s

def through (s : Updated) (updates : List Update) : Updated := updates.foldl step s

/-- The last accepted update moved the start of the partition to `start`. -/
def MovedTo (s : Updated) (start : Nat) : Prop :=
  ∃ first last, s.accepted = some (.bounds start first last)

variable {s : Updated}

/-- All that an update can do: nothing, or what its guard admits. -/
theorem step_cases (s : Updated) (u : Update) :
    s.step u = s ∨
    (∃ partitionStart first last, u = .bounds partitionStart first last ∧
      (partitionStart ≤ first ∧ first ≤ last ∧ last ≤ s.frame.buffer.size) ∧
      s.step u = ⟨{ s.frame with partitionStart, first, last }, some u⟩) ∨
    (∃ current peerStart peerGroup, u = .current current peerStart peerGroup ∧
      (s.frame.partitionStart ≤ peerStart ∧ peerStart ≤ current) ∧
      s.step u = ⟨{ s.frame with current, peerStart, peerGroup }, some u⟩) := by
  cases u with
  | bounds partitionStart first last =>
    by_cases admitted : partitionStart ≤ first ∧ first ≤ last ∧ last ≤ s.frame.buffer.size
    · refine .inr (.inl ⟨partitionStart, first, last, rfl, admitted, ?_⟩)
      simp only [step, update, withBounds, if_pos admitted]
    · refine .inl ?_
      simp only [step, update, withBounds, if_neg admitted]
  | current current peerStart peerGroup =>
    by_cases admitted : s.frame.partitionStart ≤ peerStart ∧ peerStart ≤ current
    · refine .inr (.inr ⟨current, peerStart, peerGroup, rfl, admitted, ?_⟩)
      simp only [step, update, withCurrent, if_pos admitted]
    · refine .inl ?_
      simp only [step, update, withCurrent, if_neg admitted]

/-- What holds of a frame and is kept by each update holds after any of them. -/
theorem through_invariant {holds : Updated → Prop} (kept : ∀ s u, holds s → holds (s.step u))
    (start : holds s) (updates : List Update) : holds (s.through updates) := by
  induction updates generalizing s with
  | nil => exact start
  | cons u updates ih => exact ih (kept s u start)

/-- The peers start no later than the current row, and no earlier than the partition did when the
current row was last updated. -/
structure Settled (s : Updated) : Prop where
  peers : s.frame.peerStart ≤ s.frame.current
  unmoved : (∀ start, ¬ s.MovedTo start) → s.frame.partitionStart ≤ s.frame.peerStart
  moved : ∀ start, s.MovedTo start → s.frame.partitionStart = start

theorem Settled.step (settled : s.Settled) (u : Update) : (s.step u).Settled := by
  rcases step_cases s u with same | ⟨start, first, last, rfl, -, stepped⟩ |
    ⟨current, peerStart, peerGroup, rfl, ⟨partition, peers⟩, stepped⟩
  · rwa [same]
  · rw [stepped]
    constructor
    · exact settled.peers
    · intro unmoved
      exact absurd ⟨first, last, rfl⟩ (unmoved start)
    · rintro _ ⟨_, _, same⟩
      cases same
      rfl
  · rw [stepped]
    constructor
    · exact peers
    · intro _
      exact partition
    · rintro _ ⟨_, _, other⟩
      cases other

theorem settled_of_range {buffer : Array Row} {first last : Nat} {f : Frame}
    (built : ofRange buffer first last = .ok f) : Settled ⟨f, none⟩ := by
  unfold ofRange at built
  split at built
  · obtain rfl := Except.ok.inj built
    exact ⟨Nat.le_refl _, fun _ => Nat.le_refl _, fun _ ⟨_, _, absent⟩ => nomatch absent⟩
  · cases built

theorem Settled.start_le_iff (settled : s.Settled) :
    s.frame.partitionStart ≤ s.frame.peerStart ↔
      ∀ start, s.MovedTo start → start ≤ s.frame.peerStart := by
  constructor
  · intro ordered start moved
    rwa [← settled.moved start moved]
  · intro ordered
    by_cases moved : ∃ start, s.MovedTo start
    · obtain ⟨start, moved⟩ := moved
      rw [settled.moved start moved]
      exact ordered start moved
    · exact settled.unmoved (not_exists.mp moved)

end Updated

/-- Over peers that start in the partition the rank counts from its start, as far as there are
counts; over others there is none. -/
theorem evaluate_rank (f : Frame) (arguments : List Argument) (index : Nat) :
    (f.partitionStart ≤ f.peerStart → f.peerStart - f.partitionStart + 1 < countLimit →
      (⟨.rank, arguments⟩ : Call).evaluate index f =
        .ok (Cell.ofCount (f.peerStart - f.partitionStart + 1))) ∧
    (f.peerStart < f.partitionStart →
      (⟨.rank, arguments⟩ : Call).evaluate index f = .error (.defect .countOutOfRange)) := by
  have rank : (⟨.rank, arguments⟩ : Call).evaluate index f = Guarded.ofDefect (Call.rankOf f) := rfl
  rw [rank]
  constructor
  · intro ordered few
    simp only [Call.rankOf, if_neg (Nat.not_lt.mpr ordered), if_pos few, Guarded.ofDefect_ok]
  · intro early
    simp only [Call.rankOf, if_pos early, Guarded.ofDefect_error]

/-- After any updates the peers start no later than the current row. They start no earlier than the
partition, unless the last accepted update moved the start of the partition past them; so that is
where the rank has nothing to count from, and nowhere else. -/
theorem rank_of_updates {buffer : Array Row} {first last : Nat} {f : Frame}
    (built : ofRange buffer first last = .ok f) (updates : List Update) :
    let s := Updated.through ⟨f, none⟩ updates
    s.frame.peerStart ≤ s.frame.current ∧
      (s.frame.partitionStart ≤ s.frame.peerStart ↔
        ∀ start, s.MovedTo start → start ≤ s.frame.peerStart) ∧
      ∀ arguments index,
        (s.frame.partitionStart ≤ s.frame.peerStart →
          s.frame.peerStart - s.frame.partitionStart + 1 < countLimit →
          (⟨.rank, arguments⟩ : Call).evaluate index s.frame =
            .ok (Cell.ofCount (s.frame.peerStart - s.frame.partitionStart + 1))) ∧
        (s.frame.peerStart < s.frame.partitionStart →
          (⟨.rank, arguments⟩ : Call).evaluate index s.frame =
            .error (.defect .countOutOfRange)) := by
  intro s
  have settled : s.Settled :=
    Updated.through_invariant (fun _ u kept => kept.step u) (Updated.settled_of_range built) updates
  exact ⟨settled.peers, settled.start_le_iff, evaluate_rank s.frame⟩

/-- The second partition of a buffer: its bounds, a current row in front of it, which is refused,
and its first row. -/
theorem rank_of_updates_refused :
    let buffer : Array Row := #[[.untyped], [.untyped]]
    let s := Updated.through ⟨⟨buffer, 0, 0, 2, 0, 0, 0⟩, none⟩
      [.bounds 1 1 2, .current 0 0 0, .current 1 1 0]
    ofRange buffer 0 2 = .ok ⟨buffer, 0, 0, 2, 0, 0, 0⟩ ∧
    s = ⟨⟨buffer, 1, 1, 2, 1, 1, 0⟩, some (.current 1 1 0)⟩ ∧
      s.frame.partitionStart ≤ s.frame.peerStart ∧
      (⟨.rank, []⟩ : Call).evaluate 0 s.frame = .ok (Cell.ofCount 1) := by
  intro buffer s
  have built : ofRange buffer 0 2 = .ok ⟨buffer, 0, 0, 2, 0, 0, 0⟩ := rfl
  have reached : s = ⟨⟨buffer, 1, 1, 2, 1, 1, 0⟩, some (.current 1 1 0)⟩ := by decide
  obtain ⟨-, ordered, rank⟩ := rank_of_updates built [.bounds 1 1 2, .current 0 0 0, .current 1 1 0]
  have inside : s.frame.partitionStart ≤ s.frame.peerStart := by
    refine ordered.mpr ?_
    rintro start ⟨_, _, moved⟩
    rw [show s.accepted = some (.current 1 1 0) by rw [reached]] at moved
    cases moved
  exact ⟨built, reached, inside, (rank [] 0).1 inside (by decide)⟩

/-- Bounds of the second partition while the current row is still that of the first. -/
theorem rank_before_partition :
    let buffer : Array Row := #[[.untyped], [.untyped]]
    let s := Updated.through ⟨⟨buffer, 0, 0, 2, 0, 0, 0⟩, none⟩ [.bounds 1 1 2]
    ofRange buffer 0 2 = .ok ⟨buffer, 0, 0, 2, 0, 0, 0⟩ ∧
    ¬ s.frame.partitionStart ≤ s.frame.peerStart ∧
      (⟨.rank, []⟩ : Call).evaluate 0 s.frame = .error (.defect .countOutOfRange) := by
  refine ⟨rfl, ?_, rfl⟩
  decide

end Windowing.Frame
