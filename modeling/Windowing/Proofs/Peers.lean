import Windowing.Peers
import Windowing.Proofs.Fault

/-!
Where the search for the end of a run of peers stops: on any data behind a peer and before a row
that is none, or at the end of the range. Where peers stand together, that is the end of the run.
-/
namespace Windowing.Peers

variable {α ε : Type}

/-- A position in `(low, high]` behind a peer and, unless it is `high`, before a row that is
none. -/
structure Boundary (peer : Nat → Bool) (low high e : Nat) : Prop where
  after : low < e
  inside : e ≤ high
  last : peer (e - 1) = true
  next : e < high → peer e = false

/-- A position behind the first row of a range or a peer after it and, unless it is the end of the
range, before a row that is none. -/
structure LocalEnd (isPeer : Nat → Except ε Bool) (low high e : Nat) : Prop where
  after : low < e
  inside : e ≤ high
  last : e = low + 1 ∨ isPeer (e - 1) = .ok true
  next : e = high ∨ isPeer e = .ok false

/-- The search comes to a local end, or a question about a row of the range stops it. -/
inductive Settles (isPeer : Nat → Except ε Bool) (low high : Nat) : Except ε Nat → Prop
  | ends {e : Nat} (boundary : LocalEnd isPeer low high e) : Settles isPeer low high (.ok e)
  | stops {k : Nat} {d : ε} (above : low < k) (below : k < high) (fails : isPeer k = .error d) :
    Settles isPeer low high (.error d)

namespace Settles

variable {isPeer : Nat → Except ε Bool} {low high m : Nat} {r : Except ε Nat}

theorem from_peer (h : Settles isPeer m high r) (later : low < m) (peer : isPeer m = .ok true) :
    Settles isPeer low high r := by
  cases h with
  | stops above below fails => exact .stops (by omega) below fails
  | ends boundary =>
    refine .ends ⟨Nat.lt_trans later boundary.after, boundary.inside, .inr ?_, boundary.next⟩
    rcases boundary.last with rfl | last
    · exact peer
    · exact last

theorem until_other (h : Settles isPeer low m r) (earlier : m < high)
    (other : isPeer m = .ok false) :
    Settles isPeer low high r := by
  cases h with
  | stops above below fails => exact .stops above (by omega) fails
  | ends boundary =>
    refine .ends ⟨boundary.after, by have := boundary.inside; omega, boundary.last, .inr ?_⟩
    rcases boundary.next with rfl | next
    · exact other
    · exact next

theorem bounds {e : Nat} (h : Settles isPeer low high (.ok e)) : low < e ∧ e ≤ high := by
  cases h with
  | ends boundary => exact ⟨boundary.after, boundary.inside⟩

/-- Where every question is answered there is a boundary, if the first row counts as a peer too. -/
theorem boundary {peer : Nat → Bool} (h : Settles isPeer low high r) (found : peer low = true)
    (answers : ∀ k, low < k → k < high → isPeer k = .ok (peer k)) :
    ∃ e, r = .ok e ∧ Boundary peer low high e := by
  cases h with
  | stops above below fails =>
    rw [answers _ above below] at fails
    cases fails
  | @ends e boundary =>
    obtain ⟨after, inside, last, next⟩ := boundary
    refine ⟨e, rfl, after, inside, ?_, fun before => ?_⟩
    · by_cases single : e = low + 1
      · rwa [single]
      · have hit := last.resolve_left single
        rw [answers (e - 1) (by omega) (by omega)] at hit
        exact Except.ok.inj hit
    · have miss := next.resolve_left (Nat.ne_of_lt before)
      rw [answers e after before] at miss
      exact Except.ok.inj miss

end Settles

/-- The first half is searched up to a row that is no peer, the second one from a row that is. -/
theorem search_settles {isPeer : Nat → Except ε Bool} {low high : Nat} (apart : low < high) :
    Settles isPeer low high (search isPeer low high) := by
  induction length : high - low using Nat.strongRecOn generalizing low high with
  | ind length ih =>
    rw [search]
    split
    · have middle : low < low + (high - low) / 2 ∧ low + (high - low) / 2 < high := by omega
      generalize low + (high - low) / 2 = m at middle
      dsimp only
      cases hit : isPeer m with
      | error d => exact .stops middle.1 middle.2 hit
      | ok peer =>
        cases peer with
        | false => exact (ih (m - low) (by omega) middle.1 rfl).until_other middle.2 hit
        | true =>
          simp only [ok_bind, if_true]
          split
          · rename_i last
            exact .ends ⟨by omega, by omega, .inr hit, .inl last⟩
          · cases again : isPeer (m + 1) with
            | error d => exact .stops (by omega) (by omega) again
            | ok peer =>
              cases peer with
              | false => exact .ends ⟨by omega, by omega, .inr hit, .inr again⟩
              | true =>
                exact (ih (high - (m + 1)) (by omega) (by omega) rfl).from_peer (by omega) again
    · exact .ends ⟨apart, Nat.le_refl high, .inl (by omega), .inl rfl⟩

theorem runEnd_settles {cmp : α → α → Except Defect Ordering} {rows : Array α} {start stop : Nat}
    {first : α} (here : rows[start]? = some first) (apart : start < stop) :
    Settles (isPeerOf cmp rows first) start stop (runEnd (some cmp) rows start stop) := by
  simp only [runEnd]
  rw [if_neg (by omega)]
  split
  · exact .ends ⟨apart, Nat.le_refl stop, .inl (by omega), .inl rfl⟩
  · rw [rowAt_eq_ok_iff.mpr here, ok_bind]
    cases second : isPeerOf cmp rows first (start + 1) with
    | error d => exact .stops (by omega) (by omega) second
    | ok peer =>
      cases peer with
      | false => exact .ends ⟨by omega, by omega, .inl rfl, .inr second⟩
      | true => exact (search_settles (by omega)).from_peer (by omega) second

theorem runEnd_boundary {cmp : α → α → Except Defect Ordering} {rows : Array α} {start stop : Nat}
    {first : α} {peer : Nat → Bool} (present : rows[start]? = some first) (apart : start < stop)
    (found : peer start = true)
    (answers : ∀ k, start < k → k < stop → isPeerOf cmp rows first k = .ok (peer k)) :
    ∃ e, runEnd (some cmp) rows start stop = .ok e ∧ Boundary peer start stop e :=
  (runEnd_settles present apart).boundary found answers

/-- Whatever it takes for peers, the search stops in its range. -/
theorem runEnd_bounds {cmp : Option (α → α → Except Defect Ordering)} {rows : Array α}
    {start stop e : Nat} (apart : start < stop) (ends : runEnd cmp rows start stop = .ok e) :
    start < e ∧ e ≤ stop := by
  cases cmp with
  | none =>
    obtain rfl := Except.ok.inj ends
    exact ⟨apart, Nat.le_refl _⟩
  | some cmp =>
    cases here : rows[start]? with
    | some first =>
      have settles :
          Settles (isPeerOf cmp rows first) start stop (runEnd (some cmp) rows start stop) :=
        runEnd_settles here apart
      rw [ends] at settles
      exact settles.bounds
    | none =>
      -- Without a first row only a range that is not searched has an end.
      rw [runEnd, if_neg (by omega)] at ends
      split at ends
      · obtain rfl := Except.ok.inj ends
        exact ⟨apart, Nat.le_refl _⟩
      · rw [rowAt, here] at ends
        cases ends

/-- Where all peers of a range stand in front of the others, the only boundary is the end of the
run. -/
theorem Boundary.peer_iff {peer : Nat → Bool} {low high e : Nat} (h : Boundary peer low high e)
    (together : ∀ j k, low ≤ j → j ≤ k → k < high → peer k = true → peer j = true) {k : Nat}
    (above : low ≤ k) (below : k < high) : peer k = true ↔ k < e := by
  have := h.after
  have := h.inside
  constructor
  · intro hit
    apply Nat.lt_of_not_le
    intro beyond
    have miss := h.next (by omega)
    rw [together e k (by omega) beyond below hit] at miss
    cases miss
  · exact fun before => together k (e - 1) above (by omega) (by omega) h.last

end Windowing.Peers
