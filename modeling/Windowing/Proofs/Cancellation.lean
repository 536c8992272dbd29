import Windowing.Execution
import Windowing.Proofs.Failing

/-!
Executions that are cancelled before they start, or in the poll of an item or of the end of the
input. None of them hands out rows or computes a call: the first item that fails by itself decides,
if it is pulled at all, and else the cancellation does. Whether anything would be sorted makes no
difference.
-/
namespace Windowing

namespace Source

variable {width spare : Nat} {accounting : Accounting} {items : List Item}

/-- A draining in which all items up to the one of the cancellation pass has no error of its own. -/
theorem Sound.drain_during {c : Nat} (sound : Sound width accounting.Refuses items (c + 1))
    (inside : c ≤ items.length) :
    (drain width spare (.during c) 0 accounting items).2 = .error .cancelled ∨
      ∃ rows, (drain width spare (.during c) 0 accounting items).2 = .ok rows := by
  have unseen : ∀ k ≤ c, (Cancellation.during c).seen k = false :=
    fun _ => Cancellation.unseen_during
  rcases Nat.lt_or_eq_of_le inside with before | rfl
  · have drained := sound.drain_eq spare before fun k less => unseen k (Nat.le_of_lt_succ less)
    rw [drained.2, drain_seen (Cancellation.seen_during (Nat.lt_succ_self c))]
    exact .inl rfl
  · have all : Sound width accounting.Refuses items items.length :=
      fun k less => sound k (Nat.lt_succ_of_lt less)
    have drained := all.drain_eq spare (Nat.le_refl _) fun k less => unseen k (Nat.le_of_lt less)
    rw [drained.2, List.drop_length, drain, unseen _ (Nat.le_refl _)]
    exact .inr ⟨_, rfl⟩

end Source

namespace Executor

variable {cancel : Cancellation}

/-- Once a cancellation is seen behind the end of the input, only the error of draining comes before
it. -/
theorem execute_of_seen (x : Executor) (d : Definition) (s : Source) (accounting : Accounting)
    (seen : cancel.seen (s.items.length + 1) = true) :
    (x.execute d s cancel accounting).2 =
      match (s.collect d.width d.calls.length cancel accounting).2 with
      | .error e => .error (.error e)
      | .ok _ => .error (.error .cancelled) := by
  rw [execute]
  rcases s.collect d.width d.calls.length cancel accounting with ⟨after, e | rows⟩
  · rfl
  · simp only [seen, if_true]

/-- Cancelled from the start, an execution is over before the first pull: whatever the items are, it
ends with the cancellation and leaves the accounting as it was. Cancelled in the poll of an item or
of the end of the input, it ends with the error of the first item up to that one that fails by
itself, or else with the cancellation: never with rows, with the error of a call or at a defect. -/
theorem execute_cancelled (x : Executor) (d : Definition) (s : Source) (accounting : Accounting) :
    x.execute d s .fromStart accounting = (accounting, .error (.error .cancelled)) ∧
    ∀ c ≤ s.items.length,
      (∀ f ≤ c, ∀ admitted e, Source.FirstFailure d.width accounting.Refuses s.items f admitted e →
        (x.execute d s (.during c) accounting).2 = .error (.error e)) ∧
      (Source.Sound d.width accounting.Refuses s.items (c + 1) →
        (x.execute d s (.during c) accounting).2 = .error (.error .cancelled)) ∧
      ∃ e, (x.execute d s (.during c) accounting).2 = .error (.error e) ∧
        ∀ f cause, e ≠ .evaluation f cause := by
  refine ⟨?_, fun c inside => ?_⟩
  · rw [execute, Source.collect, Source.drain_seen rfl]
  have seen := Cancellation.seen_during (Nat.lt_succ_of_le inside)
  have answer := execute_of_seen x d s accounting seen
  have failing : ∀ f ≤ c, ∀ admitted e,
      Source.FirstFailure d.width accounting.Refuses s.items f admitted e →
      (x.execute d s (.during c) accounting).2 = .error (.error e) := by
    intro f early admitted e first
    have unseen := Cancellation.unseen_during early
    rw [answer, Source.collect, (first.drain_eq _ unseen).2]
  have passing : Source.Sound d.width accounting.Refuses s.items (c + 1) →
      (x.execute d s (.during c) accounting).2 = .error (.error .cancelled) := by
    intro sound
    rw [answer, Source.collect]
    rcases sound.drain_during inside with cancelled | ⟨rows, drained⟩
    · rw [cancelled]
    · rw [drained]
  refine ⟨failing, passing, ?_⟩
  by_cases sound : Source.Sound d.width accounting.Refuses s.items (c + 1)
  · exact ⟨.cancelled, passing sound, fun _ _ same => by cases same⟩
  · obtain ⟨f, early, admitted, e, first⟩ := Source.exists_firstFailure sound
    exact ⟨e, failing f (Nat.le_of_lt_succ early) admitted e first, first.fails.not_evaluation⟩

/-- No orders, and a token that is set only in the poll of the end of the input. -/
theorem execute_cancelled_at_end :
    let d : Definition := ⟨1, [⟨.rank, []⟩], none, none⟩
    let s : Source := .ofBatches [⟨⟨[⟨"x", .int64, true⟩], []⟩, [[.ofCount 1], [.ofCount 2]]⟩]
    (1 ≤ s.items.length ∧ Source.Sound d.width Accounting.unaccounted.Refuses s.items 2) ∧
      (execute ⟨{}, none⟩ d s (.during 1) .unaccounted).2 = .error (.error .cancelled) := by
  intro d s
  have sound : Source.Sound d.width Accounting.unaccounted.Refuses s.items 2 := by
    rintro k few admitted e ⟨item, pulled, fails⟩
    have bound : k = 0 ∨ k = 1 := by omega
    rcases bound with rfl | rfl
    · obtain rfl := Option.some.inj pulled
      cases fails with
      | width differs => exact differs rfl
      | budget same refused own => cases congrArg Prod.snd refused.chargeAll_eq
    · cases pulled
  have inside : 1 ≤ s.items.length := Nat.le_refl 1
  exact ⟨⟨inside, sound⟩, ((execute_cancelled ⟨{}, none⟩ d s .unaccounted).2 1 inside).2.1 sound⟩

end Executor
end Windowing
