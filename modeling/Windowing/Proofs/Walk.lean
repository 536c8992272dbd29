import Windowing.Proofs.Evaluation
import Windowing.Proofs.Order
import Windowing.Walk

/-!
The walk against a plain one, which computes every call for every row from the rows as they were and
writes all results at the end. While the walk goes on, the rows ahead are untouched, all source
cells are, and the row just passed holds the results of its calls; this is what the copies are taken
from.
-/
namespace Windowing

def Row.overwrite (start : Nat) (row : Row) (results : List Cell) : Row :=
  row.take start ++ results ++ row.drop (start + results.length)

namespace Definition

/-- Comparisons look at source cells only. -/
structure ComparesSource (d : Definition) : Prop where
  partitionBy : ∀ order, d.partitionBy = some order → order.Within d.width
  orderBy : ∀ order, d.orderBy = some order → order.Within d.width

structure ReadsSource (d : Definition) : Prop extends d.ComparesSource where
  calls : ∀ c ∈ d.calls, c.Within d.width

instance (d : Definition) : Decidable d.ComparesSource :=
  decidable_of_iff ((∀ order ∈ d.partitionBy, order.Within d.width) ∧
    ∀ order ∈ d.orderBy, order.Within d.width)
    ⟨fun h => ⟨h.1, h.2⟩, fun h => ⟨h.partitionBy, h.orderBy⟩⟩

instance (d : Definition) : Decidable d.ReadsSource :=
  decidable_of_iff (d.ComparesSource ∧ ∀ c ∈ d.calls, c.Within d.width)
    ⟨fun h => ⟨h.1, h.2⟩, fun h => ⟨h.toComparesSource, h.calls⟩⟩

variable (d : Definition)

/-- A call for a row at a position, whatever the row before. -/
def plainResult (p : Position) (f : Frame) (c : Call) : Guarded WindowError Cell :=
  Guarded.mapError (WindowError.evaluation c.function) (c.evaluate p.index f)

def plainVisit (rows : Array Row) (i : Nat) (before : Option Position) :
    Guarded WindowError (Position × List Cell) := do
  let p ← d.locate rows i before
  let f ← p.frame rows i
  let results ← d.calls.mapM (plainResult p f)
  return (p, results)

def plainFrom (rows : Array Row) : (remaining i : Nat) → Option Position →
    Guarded WindowError (List (List Cell))
  | 0, _, _ => .ok []
  | remaining + 1, i, before => do
    let (p, results) ← d.plainVisit rows i before
    return results :: (← plainFrom rows remaining (i + 1) (some p))

/-- The rows with the results written into them once all are there. -/
def plainWalk (rows : Array Row) : Guarded WindowError (List Row) :=
  (d.plainFrom rows rows.size 0 none).map (List.zipWith (Row.overwrite d.width) rows.toList)

end Definition

section Writing

variable {row : Row} {start : Nat} {results : List Cell}

theorem Row.take_overwrite (inside : start ≤ row.length) :
    (row.overwrite start results).take start = row.take start := by
  have length : (row.take start).length = start := by rw [List.length_take]; omega
  rw [overwrite, List.append_assoc, List.take_append_of_le_length (Nat.le_of_eq length.symm),
    List.take_take, Nat.min_self]

theorem Row.getElem?_overwrite (inside : start ≤ row.length) {k : Nat}
    (written : k < results.length) :
    (row.overwrite start results)[start + k]? = results[k]? := by
  have length : (row.take start).length = start := by rw [List.length_take]; omega
  rw [overwrite, List.append_assoc, List.getElem?_append_right (by omega), length,
    Nat.add_sub_cancel_left, List.getElem?_append_left written]

theorem Definition.write_eq_ok (room : start + results.length ≤ row.length) :
    write row start results = .ok (row.overwrite start results) := by
  unfold write Row.overwrite
  by_cases none : results = []
  · simp [none]
  · rw [if_neg none, if_pos room]

end Writing

/-- Buffers of one size whose rows agree in their first cells. -/
structure Agree (width : Nat) (rows others : Array Row) : Prop where
  size_eq : rows.size = others.size
  take_eq : ∀ j : Nat, rows[j]?.map (List.take width) = others[j]?.map (List.take width)

theorem Agree.refl (width : Nat) (rows : Array Row) : Agree width rows rows := ⟨rfl, fun _ => rfl⟩

theorem Agree.map_take {width : Nat} {rows others : Array Row} (agree : Agree width rows others) :
    rows.toList.map (List.take width) = others.toList.map (List.take width) := by
  apply List.ext_getElem?
  intro j
  rw [List.getElem?_map, List.getElem?_map, Array.getElem?_toList, Array.getElem?_toList]
  exact agree.take_eq j

/-- Replacing a row by one that begins alike. -/
theorem Agree.replace {width : Nat} {rows others : Array Row} (agree : Agree width rows others)
    {i : Nat} {old row : Row} (current : rows[i]? = some old)
    (alike : row.take width = old.take width) :
    Agree width (rows.setIfInBounds i row) others := by
  have inside : i < rows.size := (Array.getElem?_eq_some_iff.mp current).1
  refine ⟨by rw [Array.size_setIfInBounds, agree.size_eq], fun j => ?_⟩
  by_cases here : i = j
  · subst here
    rw [Array.getElem?_setIfInBounds_self_of_lt inside, Option.map_some, alike,
      ← agree.take_eq, current, Option.map_some]
  · rw [Array.getElem?_setIfInBounds_ne here]
    exact agree.take_eq j

theorem Agree.rowAt {width : Nat} {rows others : Array Row} (agree : Agree width rows others)
    (j : Nat) :
    (∃ row other, Windowing.rowAt rows j = .ok row ∧ Windowing.rowAt others j = .ok other ∧
      row.take width = other.take width) ∨
    ∃ d, Windowing.rowAt rows j = .error d ∧ Windowing.rowAt others j = .error d := by
  have same := agree.take_eq j
  unfold Windowing.rowAt
  rw [agree.size_eq]
  cases first : rows[j]? with
  | none =>
    rw [first, Option.map_none, eq_comm, Option.map_eq_none_iff] at same
    exact .inr ⟨_, rfl, by rw [same]⟩
  | some row =>
    rw [first, Option.map_some, eq_comm, Option.map_eq_some_iff] at same
    obtain ⟨other, second, same⟩ := same
    exact .inl ⟨row, other, rfl, by rw [second], same.symm⟩

theorem Peers.runEnd_congr {width : Nat} {order : Option RowOrder}
    (within : ∀ o, order = some o → o.Within width) {rows others : Array Row}
    (agree : Agree width rows others) (start stop : Nat) :
    runEnd (order.map RowOrder.compare) rows start stop =
      runEnd (order.map RowOrder.compare) others start stop := by
  cases order with
  | none => rfl
  | some order =>
    have peers : ∀ {row other : Row}, row.take width = other.take width →
        isPeerOf order.compare rows row = isPeerOf order.compare others other := by
      intro row other same
      funext k
      unfold isPeerOf
      rcases agree.rowAt k with ⟨row', other', first, second, same'⟩ | ⟨d, first, second⟩
      · rw [first, second, ok_bind, ok_bind, RowOrder.compare_congr (within order rfl) same same']
      · rw [first, second, error_bind, error_bind]
    simp only [Option.map_some, runEnd]
    rcases agree.rowAt start with ⟨row, other, first, second, same⟩ | ⟨d, first, second⟩
    · rw [first, second, ok_bind, ok_bind, peers same]
    · rw [first, second, error_bind, error_bind]

namespace Position

theorem frame_eq_ok_iff {p : Position} {rows : Array Row} {i : Nat} {f : Frame} :
    p.frame rows i = .ok f ↔
      (p.partitionStart ≤ p.frameEnd ∧ p.frameEnd ≤ rows.size ∧ p.partitionStart ≤ p.peerStart ∧
        p.peerStart ≤ i) ∧
      f = ⟨rows, p.partitionStart, p.partitionStart, p.frameEnd, i, p.peerStart, p.peerGroup⟩ := by
  simp only [frame, Frame.ofRange, Nat.zero_le, Nat.le_refl, and_self, if_true, ok_bind,
    Frame.withBounds, true_and]
  by_cases bounds : p.partitionStart ≤ p.frameEnd ∧ p.frameEnd ≤ rows.size
  · rw [if_pos bounds, ok_bind, Frame.withCurrent]
    by_cases current : p.partitionStart ≤ p.peerStart ∧ p.peerStart ≤ i
    · rw [if_pos current, Except.ok.injEq, eq_comm]
      simp only [bounds, current, and_self, true_and]
    · rw [if_neg current]
      simp only [reduceCtorEq, false_iff]
      exact fun h => current h.1.2.2
  · rw [if_neg bounds, error_bind]
    simp only [reduceCtorEq, false_iff]
    exact fun h => bounds ⟨h.1.1, h.1.2.1⟩

theorem frame_congr (p : Position) {rows others : Array Row} (same : rows.size = others.size)
    (i : Nat) :
    p.frame rows i = (p.frame others i).map fun f => { f with buffer := rows } := by
  simp only [frame, Frame.ofRange, Nat.zero_le, Nat.le_refl, and_self, if_true, ok_bind,
    Frame.withBounds, true_and, same]
  split
  · simp only [ok_bind, Frame.withCurrent]
    split <;> rfl
  · rfl

end Position

namespace Definition

variable {d : Definition} {rows snapshot : Array Row}

theorem locate_congr (compares : d.ComparesSource) (agree : Agree d.width rows snapshot) (i : Nat)
    (before : Option Position) : d.locate rows i before = d.locate snapshot i before := by
  have partitions := Peers.runEnd_congr compares.partitionBy agree
  have peers := Peers.runEnd_congr compares.orderBy agree
  cases before <;> simp only [locate, opening, following, runEnd, partitions, peers, agree.size_eq]

/-- Only a row after one of the same partition shares a frame, and then it is that row's. -/
theorem locate_shares {i : Nat} {before : Option Position} {p : Position}
    (h : d.locate rows i before = .ok p) (shares : p.sharesFrame = true) :
    ∃ q, before = some q ∧ p = { q with index := q.index + 1, sharesFrame := true } := by
  have opens : d.opening rows i ≠ .ok p := by
    intro opened
    obtain ⟨partitionEnd, -, rest⟩ := bind_eq_ok_iff.mp opened
    obtain ⟨frameEnd, -, last⟩ := bind_eq_ok_iff.mp rest
    obtain rfl := Except.ok.inj last
    cases shares
  cases before with
  | none => exact absurd h opens
  | some q =>
    by_cases opening : i = q.partitionEnd
    · rw [locate, if_pos opening] at h
      exact absurd h opens
    · rw [locate, if_neg opening, following] at h
      by_cases peer : i < q.frameEnd
      · rw [if_pos peer] at h
        exact ⟨q, rfl, (Except.ok.inj h).symm⟩
      · rw [if_neg peer] at h
        obtain ⟨frameEnd, -, last⟩ := bind_eq_ok_iff.mp h
        obtain rfl := Except.ok.inj last
        cases shares

/-- What the walk keeps before row `i`: the source cells of all rows, the rows ahead as a whole, and
in the row before `i` the results of its calls at its position. -/
structure Follows (d : Definition) (snapshot rows : Array Row) (i : Nat)
    (before : Option Position) :
    Prop where
  source : Agree d.width rows snapshot
  ahead : ∀ j, i ≤ j → rows[j]? = snapshot[j]?
  passed : ∀ p, before = some p → 0 < i ∧ ∃ f row, p.frame snapshot (i - 1) = .ok f ∧
    rows[i - 1]? = some row ∧ ∀ (k : Nat) c, d.calls[k]? = some c →
      ∃ cell, c.evaluate p.index f = .ok cell ∧ row[d.width + k]? = some cell

theorem Follows.start (d : Definition) (rows : Array Row) : Follows d rows rows 0 none :=
  ⟨.refl .., fun _ _ => rfl, fun _ absent => by cases absent⟩

theorem alike_of_agree (agree : Agree d.width rows snapshot) {p q : Position} {i j : Nat}
    {f g : Frame} (first : p.frame rows i = .ok f) (second : q.frame snapshot j = .ok g)
    (start : p.partitionStart = q.partitionStart) (stop : p.frameEnd = q.frameEnd) :
    Frame.Alike d.width f g := by
  obtain ⟨bounds, rfl⟩ := Position.frame_eq_ok_iff.mp first
  obtain ⟨bounds', rfl⟩ := Position.frame_eq_ok_iff.mp second
  refine ⟨⟨Nat.le_refl _, bounds.1, bounds.2.1⟩, ⟨Nat.le_refl _, bounds'.1, bounds'.2.1⟩, ?_⟩
  simp only [Frame.rows, start, stop]
  apply List.ext_getElem?
  intro k
  simp only [List.getElem?_map, Array.getElem?_toList, Array.getElem?_extract, agree.size_eq]
  split
  · exact agree.take_eq _
  · rfl

/-- The result of a call, computed or copied, is the one it has over the snapshot. -/
theorem resultAt_eq (reads : d.ReadsSource) {i : Nat} {before : Option Position}
    (follows : Follows d snapshot rows i before) {p : Position}
    (located : d.locate snapshot i before = .ok p) {f g : Frame} (first : p.frame rows i = .ok f)
    (second : p.frame snapshot i = .ok g) {k : Nat} {c : Call} (member : d.calls[k]? = some c) :
    resultAt rows i p f (d.width + k) c = plainResult p g c := by
  have within := reads.calls c (List.mem_of_getElem? member)
  unfold resultAt plainResult
  split
  · rename_i copies
    obtain ⟨shares, frameOnly⟩ := Bool.and_eq_true_iff.mp copies
    obtain ⟨q, rfl, rfl⟩ := locate_shares located shares
    obtain ⟨-, f', row, before, last, results⟩ := follows.passed q rfl
    obtain ⟨cell, value, found⟩ := results k c member
    have unshared : Agree d.width snapshot snapshot := .refl ..
    have same : c.evaluate (q.index + 1) g = c.evaluate q.index f' :=
      Call.evaluate_congr within (alike_of_agree unshared second before rfl rfl) fun ranking => by
        rw [frameOnly] at ranking
        cases ranking
    simp only [rowAt_eq_ok_iff.mpr last, Row.cellAt_eq_ok_iff.mpr found, same, value,
      Guarded.lift_eq, Guarded.ofDefect_ok, ok_bind, Guarded.mapError_ok]
  · congr 1
    apply Call.evaluate_congr within (alike_of_agree follows.source first second rfl rfl)
    intro _
    obtain ⟨bounds, rfl⟩ := Position.frame_eq_ok_iff.mp first
    obtain ⟨bounds', rfl⟩ := Position.frame_eq_ok_iff.mp second
    exact ⟨rfl, bounds.2.2.1, bounds.2.2.1, rfl, rfl⟩

theorem resultsFrom_ok {i : Nat} {p : Position} {f : Frame} {start : Nat} {calls : List Call}
    {results : List Cell} (computed : resultsFrom rows i p f start calls = .ok results) :
    results.length = calls.length ∧
      ∀ (k : Nat) c, calls[k]? = some c → ∃ cell, resultAt rows i p f (start + k) c = .ok cell ∧
        results[k]? = some cell := by
  induction calls generalizing start results with
  | nil =>
    cases computed
    exact ⟨rfl, fun k c absent => by simp at absent⟩
  | cons c calls ih =>
    obtain ⟨cell, first, rest⟩ := bind_eq_ok_iff.mp computed
    obtain ⟨cells, others, last⟩ := bind_eq_ok_iff.mp rest
    obtain rfl := Except.ok.inj last
    obtain ⟨length, each⟩ := ih others
    refine ⟨by rw [List.length_cons, List.length_cons, length], fun k c' found => ?_⟩
    cases k with
    | zero =>
      obtain rfl := Option.some.inj found
      exact ⟨cell, first, rfl⟩
    | succ k =>
      rw [Nat.add_comm k 1, ← Nat.add_assoc, Nat.add_comm 1 k]
      exact each k c' found

theorem resultsFrom_eq {i : Nat} {p : Position} {f g : Frame} {start : Nat} {calls : List Call}
    (each : ∀ (k : Nat) c, calls[k]? = some c →
      resultAt rows i p f (start + k) c = plainResult p g c) :
    resultsFrom rows i p f start calls = calls.mapM (plainResult p g) := by
  induction calls generalizing start with
  | nil => rfl
  | cons c calls ih =>
    have first := each 0 c rfl
    have rest : ∀ (k : Nat) c, calls[k]? = some c →
        resultAt rows i p f (start + 1 + k) c = plainResult p g c := by
      intro k c' member
      rw [Nat.add_assoc, Nat.add_comm 1 k]
      exact each (k + 1) c' member
    rw [Nat.add_zero] at first
    rw [resultsFrom, List.mapM_cons, first, ih rest]

/-- A visit writes what a plain one computes, if that is what every result is. -/
theorem visit_eq_plainVisit (compares : d.ComparesSource) (source : Agree d.width rows snapshot)
    {i : Nat} {before : Option Position} {row : Row} (current : rows[i]? = some row)
    (wide : d.width + d.calls.length ≤ row.length)
    (each : ∀ p f g, d.locate snapshot i before = .ok p → p.frame rows i = .ok f →
      p.frame snapshot i = .ok g →
      ∀ (k : Nat) c, d.calls[k]? = some c →
        resultAt rows i p f (d.width + k) c = plainResult p g c) :
    d.visit rows i before =
      (d.plainVisit snapshot i before).map fun r => (r.1, row.overwrite d.width r.2) := by
  unfold visit plainVisit
  rw [locate_congr compares source]
  cases located : d.locate snapshot i before with
  | error e => rfl
  | ok p =>
    simp only [Guarded.lift_eq, Guarded.ofDefect_ok, ok_bind]
    have same := p.frame_congr source.size_eq i
    cases framed : p.frame snapshot i with
    | error e =>
      rw [framed] at same
      rw [same]
      rfl
    | ok g =>
      rw [framed] at same
      rw [same]
      simp only [Except.map, Guarded.ofDefect_ok, ok_bind]
      rw [resultsFrom_eq (each p _ g located same framed)]
      cases results : d.calls.mapM (plainResult p g) with
      | error e => rfl
      | ok results =>
        have length := (mapM_eq_ok results).1
        simp only [ok_bind, rowAt_eq_ok_iff.mpr current, Guarded.ofDefect_ok,
          write_eq_ok (length ▸ wide)]
        rfl

theorem visit_eq (reads : d.ReadsSource) {i : Nat} {before : Option Position}
    (follows : Follows d snapshot rows i before) {row : Row} (current : snapshot[i]? = some row)
    (wide : d.width + d.calls.length ≤ row.length) :
    d.visit rows i before =
      (d.plainVisit snapshot i before).map fun r => (r.1, row.overwrite d.width r.2) :=
  visit_eq_plainVisit reads.toComparesSource follows.source
    ((follows.ahead i (Nat.le_refl i)).trans current)
    wide fun _ _ _ located first second _ _ member =>
      resultAt_eq reads follows located first second member

theorem Follows.next {i : Nat} {before : Option Position}
    (follows : Follows d snapshot rows i before) {row : Row} (current : snapshot[i]? = some row)
    (wide : d.width + d.calls.length ≤ row.length) {p : Position} {results : List Cell}
    (visited : d.plainVisit snapshot i before = .ok (p, results)) :
    Follows d snapshot (rows.setIfInBounds i (row.overwrite d.width results)) (i + 1) (some p) := by
  have inside : i < rows.size := by
    rw [follows.source.size_eq]
    exact (Array.getElem?_eq_some_iff.mp current).1
  have untouched : rows[i]? = some row := (follows.ahead i (Nat.le_refl i)).trans current
  refine ⟨follows.source.replace untouched (Row.take_overwrite (by omega)), fun j later => ?_,
    fun q present => ?_⟩
  · rw [Array.getElem?_setIfInBounds_ne (by omega)]
    exact follows.ahead j (by omega)
  · obtain rfl := Option.some.inj present
    obtain ⟨p', -, visited⟩ := bind_eq_ok_iff.mp visited
    obtain ⟨f, framed, visited⟩ := bind_eq_ok_iff.mp visited
    obtain ⟨r, computed, visited⟩ := bind_eq_ok_iff.mp visited
    cases visited
    obtain ⟨length, each⟩ := mapM_eq_ok computed
    refine ⟨Nat.succ_pos i, f, _, Guarded.ofDefect_eq_ok_iff.mp framed,
      Array.getElem?_setIfInBounds_self_of_lt inside, ?_⟩
    intro k c member
    obtain ⟨cell, value, found⟩ := each k c member
    refine ⟨cell, Guarded.mapError_eq_ok_iff.mp value, ?_⟩
    rw [Row.getElem?_overwrite (by omega) (List.getElem?_eq_some_iff.mp found).1, found]

theorem take_write {row written : Row} {start : Nat} {results : List Cell}
    (h : write row start results = .ok written) : written.take start = row.take start := by
  unfold write at h
  split at h
  · obtain rfl := Except.ok.inj h
    rfl
  · split at h
    · rename_i room
      obtain rfl := Except.ok.inj h
      exact Row.take_overwrite (by omega)
    · cases h

/-- All that a visit does. -/
theorem visit_eq_ok {i : Nat} {before : Option Position} {p : Position} {row : Row}
    (visited : d.visit rows i before = .ok (p, row)) :
    d.locate rows i before = .ok p ∧ ∃ f results old, p.frame rows i = .ok f ∧
      resultsFrom rows i p f d.width d.calls = .ok results ∧ rows[i]? = some old ∧
      write old d.width results = .ok row := by
  obtain ⟨q, located, visited⟩ := bind_eq_ok_iff.mp visited
  obtain ⟨f, framed, visited⟩ := bind_eq_ok_iff.mp visited
  obtain ⟨results, computed, visited⟩ := bind_eq_ok_iff.mp visited
  obtain ⟨old, present, visited⟩ := bind_eq_ok_iff.mp visited
  obtain ⟨written, wrote, visited⟩ := bind_eq_ok_iff.mp visited
  obtain ⟨rfl, rfl⟩ := Prod.mk.inj (Except.ok.inj visited)
  exact ⟨Guarded.ofDefect_eq_ok_iff.mp located, f, results, old,
    Guarded.ofDefect_eq_ok_iff.mp framed, computed,
    rowAt_eq_ok_iff.mp (Guarded.ofDefect_eq_ok_iff.mp present), Guarded.ofDefect_eq_ok_iff.mp wrote⟩

/-- Whatever a visit computes, it keeps the source cells of the row, and its number of cells. -/
theorem visit_ok {i : Nat} {before : Option Position} {p : Position} {row : Row}
    (visited : d.visit rows i before = .ok (p, row)) :
    d.locate rows i before = .ok p ∧
      ∃ old, rows[i]? = some old ∧ row.take d.width = old.take d.width ∧
        row.length = old.length := by
  obtain ⟨located, _, _, old, -, -, present, wrote⟩ := visit_eq_ok visited
  exact ⟨located, old, present, take_write wrote, length_write wrote⟩

/-- However a walk ends, it keeps all source cells. -/
theorem walkFrom_agree (remaining : Nat) {i : Nat} {before : Option Position}
    (source : Agree d.width rows snapshot) :
    Agree d.width (d.walkFrom remaining i before rows).1 snapshot := by
  induction remaining generalizing i before rows with
  | zero => exact source
  | succ remaining ih =>
    rw [walkFrom]
    cases visited : d.visit rows i before with
    | error e => exact source
    | ok r =>
      obtain ⟨-, old, current, alike, -⟩ := visit_ok visited
      exact ih (source.replace current alike)

def outcome (r : Array Row × Guarded WindowError Unit) : Guarded WindowError (List Row) :=
  r.2.map fun _ => r.1.toList

theorem outcome_eq_ok_iff {r : Array Row × Guarded WindowError Unit} {rows : List Row} :
    outcome r = .ok rows ↔ r.2 = .ok () ∧ r.1.toList = rows := by
  obtain ⟨buffer, ending⟩ := r
  cases ending <;> simp [outcome, Except.map]

theorem outcome_eq_error_iff {r : Array Row × Guarded WindowError Unit} {e : Fault WindowError} :
    outcome r = .error e ↔ r.2 = .error e := by
  obtain ⟨buffer, ending⟩ := r
  cases ending <;> simp [outcome, Except.map]

theorem walkFrom_outcome (reads : d.ReadsSource) (remaining : Nat) {i : Nat}
    {before : Option Position} (follows : Follows d snapshot rows i before)
    (rest : i + remaining = snapshot.size)
    (wide : ∀ row ∈ snapshot.toList, d.width + d.calls.length ≤ row.length) :
    outcome (d.walkFrom remaining i before rows) =
      (d.plainFrom snapshot remaining i before).map fun results => rows.toList.take i ++
        List.zipWith (Row.overwrite d.width) (snapshot.toList.drop i) results := by
  induction remaining generalizing i before rows with
  | zero =>
    have all : rows.toList.length ≤ i := by
      rw [Array.length_toList, follows.source.size_eq]
      omega
    simp only [outcome, walkFrom, plainFrom, Except.map, List.zipWith_nil_right, List.append_nil,
      List.take_of_length_le all]
  | succ remaining ih =>
    have inside : i < snapshot.size := by omega
    have current : snapshot[i]? = some snapshot[i] := Array.getElem?_eq_getElem inside
    have room := wide snapshot[i] (Array.getElem_mem_toList inside)
    rw [walkFrom, plainFrom, visit_eq reads follows current room]
    cases visited : d.plainVisit snapshot i before with
    | error e => rfl
    | ok r =>
      obtain ⟨p, results⟩ := r
      have next := follows.next current room visited
      simp only [Except.map, ok_bind]
      rw [ih next (by omega)]
      have passed :
          (rows.setIfInBounds i (snapshot[i].overwrite d.width results)).toList.take (i + 1) =
          rows.toList.take i ++ [snapshot[i].overwrite d.width results] := by
        have short : i < rows.toList.length := by
          rw [Array.length_toList, follows.source.size_eq]
          exact inside
        rw [Array.toList_setIfInBounds, List.take_add_one, List.take_set_of_le (Nat.le_refl i),
          List.getElem?_set_self short, Option.toList_some]
      have ahead : snapshot.toList.drop i = snapshot[i] :: snapshot.toList.drop (i + 1) :=
        List.drop_eq_getElem_cons (by rwa [Array.length_toList])
      cases d.plainFrom snapshot remaining (i + 1) (some p) with
      | error e => rfl
      | ok others =>
        simp only [Except.map, ok_bind, pure, Except.pure, passed, ahead, List.zipWith_cons_cons,
          List.append_assoc, List.singleton_append]

/-- Walking in place, with copies for peers and later rows seeing earlier results, ends with the
same rows or the same failure as computing everything from the rows as they were. -/
theorem walk_eq_plainWalk (d : Definition) (rows : Array Row) (reads : d.ReadsSource)
    (wide : ∀ row ∈ rows.toList, d.width + d.calls.length ≤ row.length) :
    outcome (d.walk rows) = d.plainWalk rows := by
  rw [walk, walkFrom_outcome reads rows.size (.start d rows) (Nat.zero_add _) wide, plainWalk]
  simp only [List.take_zero, List.nil_append, List.drop_zero]

/-- Unsorted rows, the first two of them peers, whose result cells hold something before the
walk. -/
theorem walk_eq_plainWalk_unsorted :
    let d : Definition :=
      ⟨1, [⟨.sum, [.column 0]⟩, ⟨.rowNumber, []⟩], none, some (.ascending 0)⟩
    let rows : Array Row :=
      #[[.ofCount 7, .ofBool true, .untyped], [.ofCount 7, .untyped, .untyped],
      [.ofCount 3, .untyped, .ofCount 9]]
    outcome (d.walk rows) = d.plainWalk rows := by
  intro d rows
  have reads : d.ReadsSource := by decide
  exact walk_eq_plainWalk d rows reads (by decide)

end Definition
end Windowing
