import Mathlib.Data.Nat.Log
import Windowing.Proofs.Search

/-!
The search for the end of a run of peers over rows in any order, compared in any way. It ends at a
boundary between a row that compares equal to the first one and a row that does not, unless a
comparison stops it. With the reading of a row as an effect of its own the search can be followed
row by row: it looks at rows of its range only, and at no more than two of them each time it halves
what is left.
-/
namespace Windowing.Peers

variable {α ε : Type}

section Effects

variable {m : Type → Type} [Monad m]

/-- The search with any effect in place of a failure. -/
def searchIn (isPeer : Nat → m Bool) (low high : Nat) : m Nat :=
  if low + 1 < high then do
    let middle := low + (high - low) / 2
    if ← isPeer middle then
      if middle + 1 = high then return middle + 1
      else if ← isPeer (middle + 1) then searchIn isPeer (middle + 1) high
      else return middle + 1
    else searchIn isPeer low middle
  else return high
termination_by high - low

def isPeerIn (cmp : α → α → m Ordering) (read : Nat → m α) (first : α) (k : Nat) : m Bool := do
  let row ← read k
  return (← cmp first row) == .eq

def runEndIn (cmp : α → α → m Ordering) (read : Nat → m α) (start stop : Nat) : m Nat :=
  if stop ≤ start + 1 then return stop
  else do
    let first ← read start
    if ← isPeerIn cmp read first (start + 1) then
      searchIn (isPeerIn cmp read first) (start + 1) stop
    else return start + 1

end Effects

theorem searchIn_eq (isPeer : Nat → Except ε Bool) (low high : Nat) :
    searchIn isPeer low high = search isPeer low high := by
  induction length : high - low using Nat.strongRecOn generalizing low high with
  | ind length ih =>
    rw [searchIn, search]
    split
    · have middle : low < low + (high - low) / 2 ∧ low + (high - low) / 2 < high := by omega
      generalize low + (high - low) / 2 = m at middle
      dsimp only
      rw [ih (high - (m + 1)) (by omega) (m + 1) high rfl, ih (m - low) (by omega) low m rfl]
    · rfl

/-- Read by position, with failures as the only effect, it is the search itself. -/
theorem runEndIn_eq {cmp : α → α → Except Defect Ordering} {rows : Array α} {start stop : Nat}
    (apart : start < stop) :
    runEndIn cmp (rowAt rows) start stop = runEnd (some cmp) rows start stop := by
  have same : ∀ first, isPeerIn cmp (rowAt rows) first = isPeerOf cmp rows first := fun _ => rfl
  simp only [runEndIn, runEnd, same, searchIn_eq]
  rw [if_neg (by omega : ¬ (stop ≤ start ∧ countLimit ≤ start + 1))]
  rfl

/-- An outcome, and the positions of the rows that were looked at on the way, in order. -/
structure Followed (α : Type) where
  outcome : Except Defect α
  looked : List Nat

instance : Monad Followed where
  pure a := ⟨.ok a, []⟩
  bind x f :=
    match x.outcome with
    | .ok a => ⟨(f a).outcome, x.looked ++ (f a).looked⟩
    | .error d => ⟨.error d, x.looked⟩

def look (rows : Array α) (k : Nat) : Followed α := ⟨rowAt rows k, [k]⟩

def followed (cmp : α → α → Except Defect Ordering) (rows : Array α) (start stop : Nat) :
    Followed Nat :=
  runEndIn (fun a b => ⟨cmp a b, []⟩) (look rows) start stop

theorem log2_mono {m n : Nat} (le : m ≤ n) : m.log2 ≤ n.log2 := by
  simp only [Nat.log2_eq_log_two]
  exact Nat.log_mono_right le

/-- What is followed comes out the same, and on the way looks at no more than `most` rows, each of
them `among` those allowed. -/
structure Follows (among : Nat → Prop) (most : Nat) (x : Followed α) (y : Except Defect α) :
    Prop where
  same : x.outcome = y
  allowed : ∀ k ∈ x.looked, among k
  few : x.looked.length ≤ most

namespace Follows

variable {β : Type} {among : Nat → Prop} {most more : Nat} {cmp : α → α → Except Defect Ordering}
  {rows : Array α}

theorem pure (a : α) : Follows among most (Pure.pure a) (.ok a) :=
  ⟨rfl, nofun, Nat.zero_le most⟩

theorem weaken {x : Followed α} {y : Except Defect α} (h : Follows among most x y)
    (le : most ≤ more) :
    Follows among more x y :=
  ⟨h.same, h.allowed, Nat.le_trans h.few le⟩

theorem bind {x : Followed α} {y : Except Defect α} {f : α → Followed β} {g : α → Except Defect β}
    (first : Follows among most x y) (more : Nat) (rest : ∀ a, Follows among more (f a) (g a)) :
    Follows among (most + more) (x >>= f) (y >>= g) := by
  obtain ⟨outcome, looked⟩ := x
  obtain ⟨rfl, allowed, few⟩ := first
  cases outcome with
  | error d => exact ⟨rfl, allowed, Nat.le_add_right_of_le few⟩
  | ok a =>
    refine ⟨(rest a).same, fun k member => ?_, ?_⟩
    · rcases List.mem_append.mp member with early | late
      · exact allowed k early
      · exact (rest a).allowed k late
    · calc (looked ++ (f a).looked).length = looked.length + (f a).looked.length :=
        List.length_append
        _ ≤ most + more := Nat.add_le_add few (rest a).few

theorem look {k : Nat} (inside : among k) : Follows among 1 (look rows k) (rowAt rows k) :=
  ⟨rfl, fun _ member => List.mem_singleton.mp member ▸ inside, Nat.le_refl 1⟩

theorem isPeer {first : α} {k : Nat} (inside : among k) :
    Follows among 1 (isPeerIn (fun a b => ⟨cmp a b, []⟩) (Peers.look rows) first k)
      (isPeerIn cmp (rowAt rows) first k) := by
  have compared : ∀ row,
      Follows among 0 (⟨cmp first row, []⟩ : Followed Ordering) (cmp first row) :=
    fun row => ⟨rfl, nofun, Nat.le_refl 0⟩
  exact (look inside).bind 0 fun row => (compared row).bind 0 fun o => pure (o == .eq)

/-- After one or two looks at most half of the range is left. -/
theorem search {ask : Nat → Followed Bool} {isPeer : Nat → Except Defect Bool} {low high : Nat}
    (each : ∀ k, low < k → k < high → Follows among 1 (ask k) (isPeer k)) :
    Follows among (2 * (high - low).log2) (searchIn ask low high) (searchIn isPeer low high) := by
  induction length : high - low using Nat.strongRecOn generalizing low high with
  | ind n ih =>
    rw [searchIn, searchIn]
    split
    · rename_i several
      have middle : low < low + (high - low) / 2 ∧ low + (high - low) / 2 < high := by omega
      have left : low + (high - low) / 2 - low ≤ n / 2 := by omega
      have right : high - (low + (high - low) / 2 + 1) ≤ n / 2 := by omega
      generalize low + (high - low) / 2 = m at middle left right
      -- Either half is searched with two looks less than the whole.
      have whole : n.log2 = (n / 2).log2 + 1 := by rw [Nat.log2_def, if_pos (by omega)]
      have below : Follows among (2 * (n / 2).log2) (searchIn ask low m) (searchIn isPeer low m) :=
        (ih (m - low) (by omega) (fun k above below => each k above (by omega)) rfl).weaken
          (Nat.mul_le_mul_left 2 (log2_mono left))
      have above :
          Follows among (2 * (n / 2).log2) (searchIn ask (m + 1) high)
            (searchIn isPeer (m + 1) high) :=
        (ih (high - (m + 1)) (by omega) (fun k above below => each k (by omega) below) rfl).weaken
          (Nat.mul_le_mul_left 2 (log2_mono right))
      refine Follows.weaken ((each m middle.1 middle.2).bind (1 + 2 * (n / 2).log2) fun hit => ?_)
        (by omega)
      split
      · split
        · exact pure (m + 1)
        · refine (each (m + 1) (by omega) (by omega)).bind (2 * (n / 2).log2) fun again => ?_
          split
          · exact above
          · exact pure (m + 1)
      · exact below.weaken (by omega)
    · exact pure high

theorem runEnd {start stop : Nat} (apart : start < stop) :
    Follows (fun k => start ≤ k ∧ k < stop) (2 * (stop - start).log2 + 2)
      (followed cmp rows start stop)
      (runEnd (some cmp) rows start stop) := by
  rw [← runEndIn_eq apart, followed, runEndIn, runEndIn]
  split
  · exact pure stop
  · rename_i several
    have shorter : (stop - (start + 1)).log2 ≤ (stop - start).log2 := log2_mono (by omega)
    refine Follows.weaken
        ((look ⟨Nat.le_refl start, apart⟩).bind (1 + 2 * (stop - (start + 1)).log2) fun first =>
      (isPeer ⟨by omega, by omega⟩).bind (2 * (stop - (start + 1)).log2) fun second => ?_)
        (by omega)
    split
    · exact search fun k above below => isPeer ⟨by omega, below⟩
    · exact pure (start + 1)

end Follows

theorem isPeerOf_answers {cmp : α → α → Ordering} {rows : Array α} {first : α} {k : Nat}
    (inside : k < rows.size) :
    isPeerOf (fun a b => .ok (cmp a b)) rows first k = .ok (cmp first rows[k] == .eq) := by
  rw [isPeerOf, rowAt_of_lt inside]
  rfl

/-- On rows in any order and by any comparison the search for the end of the peers of row `start`
ends: behind the first row or one that it compares equal to, and before one that it does not, unless
that is the end of the range. The first row is the left one in all comparisons. The search looks at
rows of the range only, and at few of them. A comparison that fails may stop it, and nothing else
does. -/
theorem runEnd_on_any_rows {α : Type} {rows : Array α} {start stop : Nat} (apart : start < stop)
    (within : stop ≤ rows.size) :
    (∀ cmp : α → α → Ordering, ∃ e, ∃ _ : start < e ∧ e ≤ stop,
      runEnd (some fun a b => .ok (cmp a b)) rows start stop = .ok e ∧
        (e = start + 1 ∨ cmp rows[start] rows[e - 1] = .eq) ∧
        (e = stop ∨ ∃ _ : e < stop, cmp rows[start] rows[e] ≠ .eq)) ∧
    ∀ cmp : α → α → Except Defect Ordering,
      Follows (fun k => start ≤ k ∧ k < stop) (2 * (stop - start).log2 + 2)
        (followed cmp rows start stop)
        (runEnd (some cmp) rows start stop) ∧
      Settles (isPeerOf cmp rows rows[start]) start stop (runEnd (some cmp) rows start stop) := by
  have settles : ∀ cmp,
      Settles (isPeerOf cmp rows rows[start]) start stop (runEnd (some cmp) rows start stop) :=
    fun cmp => runEnd_settles (Array.getElem?_eq_getElem (by omega)) apart
  refine ⟨fun cmp => ?_, fun cmp => ⟨.runEnd apart, settles cmp⟩⟩
  have settled := settles fun a b => .ok (cmp a b)
  generalize runEnd (some fun a b => .ok (cmp a b)) rows start stop = found at settled
  cases settled with
  | stops above below fails =>
    rw [isPeerOf_answers (by omega)] at fails
    cases fails
  | @ends e boundary =>
    obtain ⟨after, inside, last, next⟩ := boundary
    refine ⟨e, ⟨after, inside⟩, rfl, last.imp_right fun peer => ?_, ?_⟩
    · rw [isPeerOf_answers (by omega)] at peer
      simpa using peer
    · rcases Nat.eq_or_lt_of_le inside with same | before
      · exact .inl same
      · refine .inr ⟨before, ?_⟩
        have other := next.resolve_left (Nat.ne_of_lt before)
        rw [isPeerOf_answers (by omega)] at other
        simpa using other

/-- Equal rows that stand apart, under a comparison that looks at the second row alone and does not
find the first row equal to itself. The search passes over a row that is none of its peers. -/
theorem runEnd_on_any_rows_apart :
    let rows : Array Nat := #[9, 7, 2, 3, 2, 2, 5]
    let cmp : Nat → Nat → Ordering := fun _ b => if b = 2 then .eq else .gt
    let run := followed (fun a b => .ok (cmp a b)) rows 1 6
    (1 < 6 ∧ 6 ≤ rows.size) ∧ run.outcome = .ok 6 ∧ run.looked = [1, 2, 4, 5] ∧
      runEnd (some fun a b => .ok (cmp a b)) rows 1 6 = .ok 6 ∧
      cmp rows[1] rows[5] = .eq ∧ cmp rows[1] rows[3] ≠ .eq := by
  intro rows cmp run
  have outcome : run.outcome = .ok 6 := by decide +kernel
  have looked : run.looked = [1, 2, 4, 5] := by decide +kernel
  have apart : 1 < 6 := by decide
  have within : 6 ≤ rows.size := by decide
  obtain ⟨ends, follows⟩ := runEnd_on_any_rows apart within
  have found : runEnd (some fun a b => .ok (cmp a b)) rows 1 6 = .ok 6 := by
    rw [← (follows fun a b => .ok (cmp a b)).1.same]
    exact outcome
  obtain ⟨e, bounds, ended, last, -⟩ := ends cmp
  obtain rfl : 6 = e := Except.ok.inj (found.symm.trans ended)
  exact ⟨⟨apart, within⟩, outcome, looked, found, last.resolve_left (by decide), by decide⟩

end Windowing.Peers
