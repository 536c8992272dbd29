import Windowing.Proofs.Results
import Windowing.Proofs.Signature

/-!
When the walk over sorted rows stops at a defect. A count of a column that no row has, not even
among the reserved cells, does so at the first row, if it is reached there; nothing else does, short
of too many rows.
-/
namespace Windowing

open Guarded (StopsOnly)

variable {d : Definition} {types : List DataType} {snapshot : List Row}

namespace Definition

/-- What a walk keeps whose calls may look at all cells: the source cells, the room in every row,
and the position before. -/
structure Keeps (d : Definition) (snapshot : List Row) (rows : Array Row) (i : Nat)
    (before : Option Position) : Prop where
  source : Agree d.width rows snapshot.toArray
  wide : ∀ (j : Nat) row, rows[j]? = some row → d.width + d.calls.length ≤ row.length
  located : Located d snapshot i before

variable {rows : Array Row} {i : Nat} {before : Option Position}

theorem resultsFrom_stops {allowed : Defect → Prop} {p : Position} {f : Frame} {start : Nat}
    {calls : List Call}
    (each : ∀ (k : Nat) c, calls[k]? = some c →
      StopsOnly allowed (resultAt rows i p f (start + k) c)) :
    StopsOnly allowed (resultsFrom rows i p f start calls) := by
  induction calls generalizing start with
  | nil => exact .ok _
  | cons c calls ih =>
    refine (each 0 c rfl).bind fun cell _ => (ih fun k c' member => ?_).bind fun cells _ => .ok _
    rw [Nat.add_assoc, Nat.add_comm 1 k]
    exact each (k + 1) c' member

/-- A call that looks at cells every row has. -/
theorem resultAt_stops (keeps : Keeps d snapshot rows i before) (hi : i < snapshot.length)
    {p : Position} (exact : p.Exact d snapshot i) {f : Frame} (framed : p.frame rows i = .ok f)
    {k : Nat} (place : k < d.calls.length) {c : Call}
    (within : c.Within (d.width + d.calls.length)) :
    StopsOnly (Overflow snapshot.length) (resultAt rows i p f (d.width + k) c) := by
  have size : rows.size = snapshot.length := keeps.source.size_eq
  obtain ⟨bounds, rfl⟩ := Position.frame_eq_ok_iff.mp framed
  rw [resultAt]
  split
  · have inside : i - 1 < rows.size := by omega
    have wide := keeps.wide (i - 1) rows[i - 1] (Array.getElem?_eq_getElem inside)
    have last : rowAt rows (i - 1) = .ok rows[i - 1] := rowAt_of_lt inside
    have found : rows[i - 1].cellAt (d.width + k) = .ok rows[i - 1][d.width + k] :=
      Row.cellAt_of_lt (by omega)
    simp only [last, found, Guarded.lift_eq, Guarded.ofDefect_ok, ok_bind]
    exact .ok _
  · have := exact.index
    have := exact.peerStart_le
    have groups :=
      Sorting.classes_le_length d.peers ((snapshot.take p.peerStart).drop p.partitionStart)
    rw [← exact.group, List.length_drop, List.length_take] at groups
    refine (Call.evaluate_stops within ⟨⟨Nat.le_refl _, bounds.1, bounds.2.1⟩, fun row member => ?_⟩
      ⟨by omega, bounds.2.2.1, by simp only; omega, by simp only; omega⟩).mapError _
    obtain ⟨j, hj, rfl⟩ := List.mem_iff_getElem.mp member
    have found := List.getElem?_eq_getElem hj
    simp only [Frame.rows, Array.getElem?_toList, Array.getElem?_extract] at found
    split at found
    · exact keeps.wide _ _ found
    · cases found

theorem visit_stops (arranged : d.Arranged types snapshot) (keeps : Keeps d snapshot rows i before)
    (hi : i < snapshot.length) (within : ∀ c ∈ d.calls, c.Within (d.width + d.calls.length)) :
    StopsOnly (Overflow snapshot.length) (d.visit rows i before) := by
  obtain ⟨p, found, exact⟩ := locate_exact arranged hi keeps.located
  have size : rows.size = snapshot.length := keeps.source.size_eq
  have inside : i < rows.size := by omega
  obtain ⟨f, framed⟩ : ∃ f, p.frame rows i = .ok f := by
    rw [p.frame_congr keeps.source.size_eq i, exact.frame_eq]
    exact ⟨_, rfl⟩
  rw [visit, locate_congr arranged.compares keeps.source, found]
  simp only [framed, rowAt_of_lt inside, Guarded.lift_eq, Guarded.ofDefect_ok, ok_bind]
  refine (resultsFrom_stops fun k c member => resultAt_stops keeps hi exact framed
    (List.getElem?_eq_some_iff.mp member).1 (within c (List.mem_of_getElem? member))).bind
      fun results computed => ?_
  have room := keeps.wide i rows[i] (Array.getElem?_eq_getElem inside)
  rw [write_eq_ok (by rw [(resultsFrom_ok computed).1]; exact room)]
  exact .ok _

theorem Keeps.next (arranged : d.Arranged types snapshot) (keeps : Keeps d snapshot rows i before)
    (hi : i < snapshot.length) {p : Position} {row : Row}
    (visited : d.visit rows i before = .ok (p, row)) :
    Keeps d snapshot (rows.setIfInBounds i row) (i + 1) (some p) := by
  obtain ⟨q, found, exact⟩ := locate_exact arranged hi keeps.located
  obtain ⟨located, old, current, alike, length⟩ := visit_ok visited
  rw [locate_congr arranged.compares keeps.source, found] at located
  obtain rfl := Except.ok.inj located
  refine ⟨keeps.source.replace current alike, fun j other present => ?_, Nat.succ_pos i, exact⟩
  by_cases here : i = j
  · subst here
    rw [Array.getElem?_setIfInBounds_self_of_lt (Array.getElem?_eq_some_iff.mp current).1]
      at present
    obtain rfl := Option.some.inj present
    rw [length]
    exact keeps.wide i old current
  · rw [Array.getElem?_setIfInBounds_ne here] at present
    exact keeps.wide j other present

theorem walkFrom_stops (arranged : d.Arranged types snapshot)
    (within : ∀ c ∈ d.calls, c.Within (d.width + d.calls.length)) (remaining : Nat)
    (keeps : Keeps d snapshot rows i before) (rest : i + remaining = snapshot.length) :
    StopsOnly (Overflow snapshot.length) (d.walkFrom remaining i before rows).2 := by
  induction remaining generalizing i before rows with
  | zero => exact .ok ()
  | succ remaining ih =>
    have stops := visit_stops arranged keeps (by omega) within
    rw [walkFrom]
    cases visited : d.visit rows i before with
    | error e =>
      intro defect h
      rw [visited] at stops
      exact stops defect (congrArg Except.error (Except.error.inj h))
    | ok r =>
      obtain ⟨p, row⟩ := r
      exact ih (keeps.next arranged (by omega) visited) (by omega)

/-- A column that lies beyond the cells of every row stops a fold at the first row. -/
theorem foldPresent_beyond {σ : Type} {column width : Nat} (beyond : width ≤ column)
    (step : σ → Value → Except EvaluationError σ) (s : σ) {rows : List Row} (nonempty : rows ≠ [])
    (exactly : ∀ row ∈ rows, row.length = width) :
    (Argument.column column).foldPresent step s rows =
      .error (.defect (.cellOutOfRange column width)) := by
  cases rows with
  | nil => exact absurd rfl nonempty
  | cons row rows =>
    have length := exactly row (List.mem_cons_self ..)
    have absent : row.cellAt column = .error (.cellOutOfRange column width) := by
      rw [Row.cellAt, List.getElem?_eq_none (by omega), length]
    rw [Argument.foldPresent, Argument.evaluate, absent]
    rfl

variable {first : Row} {rest : List Row}

theorem frameMates_ne_nil (arranged : d.Arranged types (first :: rest)) :
    d.frameMates (first :: rest) first ≠ [] := by
  have typed := arranged.typed first (List.mem_cons_self ..)
  have mates : d.mates first first = true := arranged.partitionOrder.tied_refl typed
  have peers : d.peers first first = true := arranged.peerOrder.tied_refl typed
  apply List.ne_nil_of_mem
  exact List.mem_filter.mpr ⟨List.mem_cons_self ..,
    by rw [mates, peers, Bool.or_true, Bool.and_true]⟩

theorem declaredResult_beyond (arranged : d.Arranged types (first :: rest)) {width column : Nat}
    (exactly : ∀ row ∈ first :: rest, row.length = width) (beyond : width ≤ column) :
    d.declaredResult (first :: rest) 0 first (.countOf column) =
      .error (.defect (.cellOutOfRange column width)) := by
  have inFrame : ∀ row ∈ d.frameMates (first :: rest) first, row.length = width := by
    intro row member
    exact exactly row (List.mem_filter.mp member).1
  rw [declaredResult, Call.evaluate, Call.countOf]
  simp only [Call.countPresent, rows_declaredFrame]
  rw [foldPresent_beyond beyond _ _ (frameMates_ne_nil arranged) inFrame]
  rfl

/-- The first visit computes all results itself and finds the rows as they were. -/
theorem visit_first (arranged : d.Arranged types (first :: rest))
    (wide : d.width + d.calls.length ≤ first.length) :
    ∃ p, d.visit (first :: rest).toArray 0 none =
      (d.declaredRow (first :: rest) 0 first).map fun results =>
        (p, first.overwrite d.width results) := by
  have start : Located d (first :: rest) 0 none := rfl
  have current : (first :: rest).toArray[0]? = some first := rfl
  obtain ⟨p, -, visited⟩ := plainVisit_eq arranged (Nat.succ_pos _) start
  rw [List.getElem_cons_zero] at visited
  refine ⟨p, ?_⟩
  rw [visit_eq_plainVisit arranged.compares (.refl ..) current wide, visited]
  · cases d.declaredRow (first :: rest) 0 first <;> rfl
  · intro q f g located framed framed' k c _
    obtain rfl := Except.ok.inj (framed.symm.trans framed')
    have computes : q.sharesFrame = false := Bool.eq_false_iff.mpr fun shares => by
      obtain ⟨_, absent, -⟩ := locate_shares located shares
      cases absent
    rw [resultAt, computes]
    rfl

/-- Every call looks at cells that the rows have, or is a count of a column beyond them. -/
def Checked (d : Definition) : Prop :=
  ∀ c ∈ d.calls, c.Within (d.width + d.calls.length) ∨
    ∃ column, d.width + d.calls.length ≤ column ∧ c = .countOf column

/-- The first row in order comes to a count of a column that it does not have. -/
def CountsBeyond (d : Definition) (rows : List Row) : Prop :=
  ∃ first rest, rows = first :: rest ∧ ∃ (k column : Nat), d.calls[k]? = some (.countOf column) ∧
    d.width + d.calls.length ≤ column ∧
      ∀ (l : Nat) c, l < k → d.calls[l]? = some c →
        ∃ cell, d.declaredResult rows 0 first c = .ok cell

/-- The failure of the first row, if a count lies beyond the rows. -/
theorem walk_first (arranged : d.Arranged types (first :: rest))
    (exactly : ∀ row ∈ first :: rest, row.length = d.width + d.calls.length) {e : Fault WindowError}
    (fails : d.declaredRow (first :: rest) 0 first = .error e) :
    (d.walk (first :: rest).toArray).2 = .error e := by
  obtain ⟨p, visited⟩ :=
    visit_first arranged (Nat.le_of_eq (exactly first (List.mem_cons_self ..)).symm)
  rw [fails] at visited
  rw [walk, List.size_toArray, List.length_cons, walkFrom, visited]
  rfl

theorem walk_defect (arranged : d.Arranged types snapshot)
    (exactly : ∀ row ∈ snapshot, row.length = d.width + d.calls.length) (checked : d.Checked)
    {defect : Defect} (stops : (d.walk snapshot.toArray).2 = .error (.defect defect)) :
    Overflow snapshot.length defect ∨
      d.CountsBeyond snapshot ∧
      ∃ column, defect = .cellOutOfRange column (d.width + d.calls.length) := by
  by_cases within : ∀ c ∈ d.calls, c.Within (d.width + d.calls.length)
  · left
    have start : Keeps d snapshot snapshot.toArray 0 none := by
      refine ⟨.refl .., fun j row present => ?_, rfl⟩
      rw [List.getElem?_toArray] at present
      exact Nat.le_of_eq (exactly row (List.mem_of_getElem? present)).symm
    exact walkFrom_stops arranged within snapshot.length start (Nat.zero_add _) defect stops
  · cases snapshot with
    | nil => cases stops
    | cons first rest =>
      cases row : d.declaredRow (first :: rest) 0 first with
      | ok cells =>
        -- The results are all there, so no call can be a count beyond the rows.
        refine absurd (fun c member => ?_) within
        rcases checked c member with inside | ⟨column, beyond, rfl⟩
        · exact inside
        · obtain ⟨k, hk, found⟩ := List.mem_iff_getElem.mp member
          obtain ⟨cell, value, -⟩ := (declaredRow_ok row).2 k _
            ((List.getElem?_eq_getElem hk).trans (congrArg some found))
          rw [declaredResult_beyond arranged exactly beyond] at value
          cases value
      | error e =>
        rw [walk_first arranged exactly row] at stops
        obtain rfl := Except.error.inj stops
        obtain ⟨k, c, call, fails, earlier⟩ := mapM_eq_error row
        have result := Guarded.mapError_eq_defect_iff.mp fails
        rcases checked c (List.mem_of_getElem? call) with inside | ⟨column, beyond, rfl⟩
        · exact .inl (declaredResult_stops
            (fun row member => Nat.le_of_eq (exactly row member).symm) inside rfl
            defect result)
        · right
          rw [declaredResult_beyond arranged exactly beyond] at result
          cases result
          refine ⟨⟨first, rest, rfl, k, column, call, beyond, fun l c before found => ?_⟩,
            column, rfl⟩
          obtain ⟨cell, value⟩ := earlier l before c found
          exact ⟨cell, Guarded.mapError_eq_ok_iff.mp value⟩

theorem walk_of_countsBeyond (arranged : d.Arranged types snapshot)
    (exactly : ∀ row ∈ snapshot, row.length = d.width + d.calls.length)
    (counts : d.CountsBeyond snapshot) :
    ∃ column, (d.walk snapshot.toArray).2 =
      .error (.defect (.cellOutOfRange column (d.width + d.calls.length))) := by
  obtain ⟨first, rest, rfl, k, column, call, beyond, earlier⟩ := counts
  refine ⟨column, walk_first arranged exactly (mapM_of_error call ?_ fun l before c found => ?_)⟩
  · rw [declaredResult_beyond arranged exactly beyond]
    rfl
  · obtain ⟨cell, value⟩ := earlier l c before found
    exact ⟨cell, Guarded.mapError_eq_ok_iff.mpr value⟩

end Definition
end Windowing
