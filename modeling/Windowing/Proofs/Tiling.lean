import Windowing.Proofs.Filling
import Windowing.Proofs.Search
import Windowing.Proofs.Stopping

/-!
The walk over rows in any order, as long as they can be compared. A row is located by the rows from
it on, which the walk has not touched yet, and by the position before; so the positions are those of
the rows as they were. They divide the rows into partitions, and these into runs of peers, without
gap or overlap.
-/
namespace Windowing

/-- Ranges of positions that follow each other from `start` to `stop`, none of them empty. -/
def Tiles (stop : Nat) : (start : Nat) → List (Nat × Nat) → Prop
  | start, [] => start = stop
  | start, range :: ranges => range.1 = start ∧ start < range.2 ∧ Tiles stop range.2 ranges

/-- All bounds of a position of row `i`, be the rows sorted or not. -/
structure Position.Lies (size i : Nat) (p : Position) : Prop extends p.Encloses size i where
  start_le_peerStart : p.partitionStart ≤ p.peerStart
  peerStart_le : p.peerStart ≤ i
  index_eq : p.partitionStart + p.index = i

namespace Position.Lies

variable {size i : Nat} {p : Position}

theorem next (lies : p.Lies size i) (peer : i + 1 < p.frameEnd) :
    { p with index := p.index + 1, sharesFrame := true }.Lies size (i + 1) := by
  obtain ⟨⟨start_le, -, frameEnd_le, partitionEnd_le⟩, start_le_peerStart, peerStart_le,
    index_eq⟩ := lies
  exact ⟨⟨Nat.le_succ_of_le start_le, peer, frameEnd_le, partitionEnd_le⟩, start_le_peerStart,
    Nat.le_succ_of_le peerStart_le, congrArg (· + 1) index_eq⟩

/-- No guard refuses its frame, which is not empty and has a rank. -/
theorem frame_ok {rows : Array Row} (lies : p.Lies rows.size i) : ∃ f, p.frame rows i = .ok f ∧
    f.first = p.partitionStart ∧ f.last = p.frameEnd ∧ f.partitionStart = p.partitionStart ∧
    f.peerStart = p.peerStart ∧ f.isEmpty = false ∧
    (rows.size < countLimit → ∃ cell, Call.rankOf f = .ok cell) := by
  obtain ⟨⟨start_le, lt_frameEnd, frameEnd_le, partitionEnd_le⟩, start_le_peerStart,
    peerStart_le, -⟩ := lies
  refine ⟨⟨rows, p.partitionStart, p.partitionStart, p.frameEnd, i, p.peerStart, p.peerGroup⟩,
    Position.frame_eq_ok_iff.mpr ⟨by omega, rfl⟩, rfl, rfl, rfl, rfl, ?_, fun few => ?_⟩
  · simp only [Frame.isEmpty, Frame.size, beq_eq_false_iff_ne]
    omega
  · cases ranked : Call.rankOf ⟨rows, p.partitionStart, p.partitionStart, p.frameEnd, i,
      p.peerStart, p.peerGroup⟩ with
    | ok cell => exact ⟨cell, rfl⟩
    | error defect =>
      obtain ⟨-, out⟩ := Call.rankOf_eq_error_iff.mp ranked
      dsimp only at out
      omega

end Position.Lies

/-! Positions by any two ways to find the end of a run that begins at a row. -/
section Finders

variable (partitionEnd peersEnd : Nat → Nat → Except Defect Nat) (size : Nat)

def openingVia (i : Nat) : Except Defect Position := do
  let stop ← partitionEnd i size
  let frameEnd ← peersEnd i stop
  return ⟨i, stop, 0, i, 0, frameEnd, false⟩

def locateVia (i : Nat) : Option Position → Except Defect Position
  | none => openingVia partitionEnd peersEnd size i
  | some p =>
    if i = p.partitionEnd then openingVia partitionEnd peersEnd size i
    else if i < p.frameEnd then .ok { p with index := p.index + 1, sharesFrame := true }
    else do
      let frameEnd ← peersEnd i p.partitionEnd
      return ⟨p.partitionStart, p.partitionEnd, p.index + 1, i, p.peerGroup + 1, frameEnd, false⟩

def positionVia : (i : Nat) → Except Defect Position
  | 0 => locateVia partitionEnd peersEnd size 0 none
  | i + 1 => do locateVia partitionEnd peersEnd size (i + 1) (some (← positionVia i))

variable {partitionEnd peersEnd size} {find find' : Nat → Nat → Except Defect Nat} {i : Nat}

/-- To locate a row, only ends of runs that begin at it are asked for. -/
theorem locateVia_congr (partitions : ∀ stop, find i stop = partitionEnd i stop)
    (peers : ∀ stop, find' i stop = peersEnd i stop) (before : Option Position) :
    locateVia find find' size i before = locateVia partitionEnd peersEnd size i before := by
  cases before <;> simp only [locateVia, openingVia, partitions, peers]

end Finders

namespace Definition

variable (d : Definition)

def ComparesRows (rows : Array Row) : Prop :=
  ∀ a ∈ rows.toList, ∀ b ∈ rows.toList,
    (∃ o, d.partitionOrder.compare a b = .ok o) ∧ ∃ o, d.peerOrder.compare a b = .ok o

/-- The position of row `i`, told from the rows as they are. -/
def positionAt (rows : Array Row) : Nat → Except Defect Position
  | 0 => d.locate rows 0 none
  | i + 1 => do d.locate rows (i + 1) (some (← positionAt rows i))

theorem locate_eq_locateVia (rows : Array Row) (i : Nat) (before : Option Position) :
    d.locate rows i before =
      locateVia (runEnd d.partitionBy rows) (runEnd d.orderBy rows) rows.size i before := by
  cases before <;> rfl

theorem positionAt_eq_positionVia (rows : Array Row) (i : Nat) :
    d.positionAt rows i =
      positionVia (runEnd d.partitionBy rows) (runEnd d.orderBy rows) rows.size i := by
  induction i with
  | zero => exact d.locate_eq_locateVia rows 0 none
  | succ i ih => simp only [positionAt, positionVia, ih, locate_eq_locateVia]

/-- A range of rows is a partition: runs of peers tile it, and each of its rows has it for its
partition, and for its run of peers the one whose ordinal it has. -/
def IsPartition (rows : Array Row) (range : Nat × Nat) : Prop :=
  ∃ groups, Tiles range.2 range.1 groups ∧ ∀ i, range.1 ≤ i → i < range.2 →
    ∃ p, d.positionAt rows i = .ok p ∧
    p.partitionStart = range.1 ∧ p.partitionEnd = range.2 ∧ range.1 + p.index = i ∧
    p.peerStart ≤ i ∧ i < p.frameEnd ∧ groups[p.peerGroup]? = some (p.peerStart, p.frameEnd)

/-- The walk over `rows` comes to row `i` with the position before it and the buffer as it is
then. -/
inductive Reaches (rows : Array Row) : Nat → Option Position → Array Row → Prop
  | start : Reaches rows 0 none rows
  | next {i : Nat} {before : Option Position} {buffer : Array Row} {p : Position} {row : Row}
      (reached : Reaches rows i before buffer) (visited : d.visit buffer i before = .ok (p, row)) :
      Reaches rows (i + 1) (some p) (buffer.setIfInBounds i row)

variable {d} {rows buffer : Array Row} {i : Nat} {before : Option Position}

/-- Orders on source columns answer for rows that have the types of the source. -/
theorem comparesRows_of_types {types : List DataType} (width : d.width = types.length)
    (compares : d.ComparesSource) (typed : ∀ row ∈ rows.toList, row.HasTypes types) :
    d.ComparesRows rows := by
  intro a first b second
  constructor
  · exact (d.partitionOrder_total width compares).answers (typed a first) (typed b second)
  · exact (d.peerOrder_total width compares).answers (typed a first) (typed b second)

section Ahead

variable (size : buffer.size = rows.size) (ahead : ∀ j, i ≤ j → buffer[j]? = rows[j]?)
  (inside : i < rows.size)

include ahead

theorem runEnd_ahead (order : Option RowOrder) {stop : Nat} (apart : i < stop)
    (within : stop ≤ rows.size) :
    runEnd order buffer i stop = runEnd order rows i stop :=
  Peers.runEnd_local apart within fun j above _ => ahead j above

include size inside

theorem opening_ahead : d.opening buffer i = d.opening rows i := by
  rw [opening, opening, size, runEnd_ahead ahead d.partitionBy inside (Nat.le_refl _)]
  cases partition : runEnd d.partitionBy rows i rows.size with
  | error e => rfl
  | ok stop =>
    obtain ⟨apart, within⟩ := Peers.runEnd_bounds inside partition
    rw [ok_bind, ok_bind, runEnd_ahead ahead d.orderBy apart within]

/-- To locate a row, the walk looks at no row before it. -/
theorem locate_ahead (earlier : ∀ p, before = some p → 0 < i ∧ p.Encloses rows.size (i - 1)) :
    d.locate buffer i before = d.locate rows i before := by
  have opens : d.opening buffer i = d.opening rows i := opening_ahead size ahead inside
  cases before with
  | none => exact opens
  | some p =>
    obtain ⟨positive, encloses⟩ := earlier p rfl
    rw [locate, locate]
    split
    · exact opens
    · have apart : i < p.partitionEnd := by
        have := encloses.lt_frameEnd
        have := encloses.frameEnd_le
        omega
      rw [following, following, runEnd_ahead ahead d.orderBy apart encloses.partitionEnd_le]

end Ahead

/-- What the walk keeps before row `i`: the rows from there on, and the position that the row before
has among the rows as they were. -/
structure Leaves (d : Definition) (rows : Array Row) (i : Nat) (before : Option Position)
    (buffer : Array Row) :
    Prop where
  size_eq : buffer.size = rows.size
  ahead : ∀ j, i ≤ j → buffer[j]? = rows[j]?
  start : before = none → i = 0
  earlier : ∀ p, before = some p → 0 < i ∧ p.Encloses rows.size (i - 1) ∧
    d.positionAt rows (i - 1) = .ok p

namespace Leaves

variable {p : Position} {row : Row} (leaves : Leaves d rows i before buffer)

include leaves

theorem encloses : ∀ q, before = some q → 0 < i ∧ q.Encloses rows.size (i - 1) := by
  intro q here
  obtain ⟨positive, encloses, -⟩ := leaves.earlier q here
  exact ⟨positive, encloses⟩

theorem positionAt_eq (inside : i < rows.size) :
    d.positionAt rows i = d.locate buffer i before := by
  rw [locate_ahead leaves.size_eq leaves.ahead inside leaves.encloses]
  cases before with
  | none =>
    obtain rfl := leaves.start rfl
    rfl
  | some q =>
    obtain ⟨positive, -, found⟩ := leaves.earlier q rfl
    obtain ⟨k, rfl⟩ := Nat.exists_eq_succ_of_ne_zero (Nat.ne_of_gt positive)
    rw [Nat.succ_sub_one] at found
    rw [positionAt, found, ok_bind]

variable (visited : d.visit buffer i before = .ok (p, row))

include visited

theorem inside : i < rows.size := by
  obtain ⟨-, old, current, -⟩ := visit_ok visited
  exact leaves.size_eq ▸ (Array.getElem?_eq_some_iff.mp current).1

theorem next : Leaves d rows (i + 1) (some p) (buffer.setIfInBounds i row) := by
  have located : d.locate buffer i before = .ok p := (visit_ok visited).1
  have found := (leaves.positionAt_eq (leaves.inside visited)).trans located
  rw [locate_ahead leaves.size_eq leaves.ahead (leaves.inside visited) leaves.encloses] at located
  refine ⟨by rw [Array.size_setIfInBounds, leaves.size_eq], fun j later => ?_, nofun, ?_⟩
  · rw [Array.getElem?_setIfInBounds_ne (by omega)]
    exact leaves.ahead j (by omega)
  · rintro _ ⟨⟩
    exact ⟨Nat.succ_pos i, locate_encloses (leaves.inside visited) leaves.encloses located, found⟩

end Leaves

theorem Reaches.leaves (reached : d.Reaches rows i before buffer) :
    Leaves d rows i before buffer := by
  induction reached with
  | start => exact ⟨rfl, fun _ _ => rfl, fun _ => rfl, nofun⟩
  | next _ visited ih => exact ih.next visited

/-- From any row it comes to, the walk goes on as it was. -/
theorem Reaches.walk_eq (reached : d.Reaches rows i before buffer) :
    d.walk rows = d.walkFrom (rows.size - i) i before buffer := by
  induction reached with
  | start => rfl
  | @next i before buffer p row earlier visited ih =>
    have inside : i < rows.size := earlier.leaves.inside visited
    have rest : rows.size - i = rows.size - (i + 1) + 1 := by omega
    rw [ih, rest, walkFrom, visited]

section Positions

variable {p : Position} (compares : d.ComparesRows rows)

/-- Behind the last row of a partition the next one opens. -/
theorem positionAt_opens (found : d.positionAt rows i = .ok p) (last : i + 1 = p.partitionEnd) :
    d.positionAt rows (i + 1) = d.opening rows (i + 1) := by
  rw [positionAt, found, ok_bind, locate, if_pos last]

theorem runEnd_ok {order : Option RowOrder} {start stop : Nat} (apart : start < stop)
    (within : stop ≤ rows.size)
    (answers : ∀ a ∈ rows.toList, ∀ b ∈ rows.toList, ∃ o, (order.getD .equal).compare a b = .ok o) :
    ∃ e, runEnd order rows start stop = .ok e ∧ start < e ∧ e ≤ stop := by
  rw [← RowOrder.compare_getD] at answers
  exact Peers.runEnd_ok apart within answers

include compares

theorem partitionEnd_ok (inside : i < rows.size) :
    ∃ e, runEnd d.partitionBy rows i rows.size = .ok e ∧ i < e ∧ e ≤ rows.size :=
  runEnd_ok inside (Nat.le_refl _) fun a first b second => (compares a first b second).1

theorem peersEnd_ok {start stop : Nat} (apart : start < stop) (within : stop ≤ rows.size) :
    ∃ e, runEnd d.orderBy rows start stop = .ok e ∧ start < e ∧ e ≤ stop :=
  runEnd_ok apart within fun a first b second => (compares a first b second).2

/-- A row that opens a partition is the first of its peers. -/
theorem opening_ok (inside : i < rows.size) : ∃ p, d.opening rows i = .ok p ∧ p.Lies rows.size i ∧
    p.partitionStart = i ∧ p.peerStart = i ∧ p.peerGroup = 0 := by
  obtain ⟨partitionEnd, partition, apart, within⟩ := partitionEnd_ok compares inside
  obtain ⟨frameEnd, run, after, below⟩ := peersEnd_ok compares apart within
  refine ⟨⟨i, partitionEnd, 0, i, 0, frameEnd, false⟩, ?_,
    ⟨⟨Nat.le_refl i, after, below, within⟩, Nat.le_refl i, Nat.le_refl i, rfl⟩, rfl, rfl, rfl⟩
  rw [opening, partition, ok_bind, run, ok_bind]
  rfl

/-- After a row of the same partition, a row belongs to the same run of peers or opens the next
one. -/
theorem positionAt_next (found : d.positionAt rows i = .ok p) (lies : p.Lies rows.size i)
    (more : i + 1 < p.partitionEnd) :
    ∃ q, d.positionAt rows (i + 1) = .ok q ∧ q.Lies rows.size (i + 1) ∧
      q.partitionStart = p.partitionStart ∧ q.partitionEnd = p.partitionEnd ∧
      (q.peerGroup = p.peerGroup ∧ q.peerStart = p.peerStart ∧ q.frameEnd = p.frameEnd ∨
        q.peerGroup = p.peerGroup + 1 ∧ q.peerStart = p.frameEnd ∧ p.frameEnd = i + 1) := by
  rw [positionAt, found, ok_bind, locate, if_neg (Nat.ne_of_lt more), following]
  by_cases peer : i + 1 < p.frameEnd
  · rw [if_pos peer]
    exact ⟨_, rfl, lies.next peer, rfl, rfl, .inl ⟨rfl, rfl, rfl⟩⟩
  · obtain ⟨frameEnd, run, after, below⟩ := peersEnd_ok compares more lies.partitionEnd_le
    have last : p.frameEnd = i + 1 := Nat.le_antisymm (Nat.not_lt.mp peer) lies.lt_frameEnd
    have start_le : p.partitionStart ≤ i + 1 := Nat.le_succ_of_le lies.start_le
    rw [if_neg peer, run, ok_bind]
    exact ⟨_, rfl, ⟨⟨start_le, after, below, lies.partitionEnd_le⟩, start_le, Nat.le_refl _,
      congrArg (· + 1) lies.index_eq⟩, rfl, rfl, .inr ⟨rfl, last.symm, last⟩⟩

theorem positionAt_ok (inside : i < rows.size) :
    ∃ p, d.positionAt rows i = .ok p ∧ p.Lies rows.size i := by
  induction i with
  | zero =>
    obtain ⟨p, opened, lies, -⟩ := opening_ok compares inside
    exact ⟨p, opened, lies⟩
  | succ i ih =>
    obtain ⟨p, found, lies⟩ := ih (Nat.lt_of_succ_lt inside)
    by_cases last : i + 1 = p.partitionEnd
    · obtain ⟨q, opened, lies, -⟩ := opening_ok compares inside
      exact ⟨q, (positionAt_opens found last).trans opened, lies⟩
    · have more : i + 1 < p.partitionEnd :=
        Nat.lt_of_le_of_ne (Nat.le_trans lies.lt_frameEnd lies.frameEnd_le) last
      obtain ⟨q, found', lies', -⟩ := positionAt_next compares found lies more
      exact ⟨q, found', lies'⟩

/-- From a row on, the runs of peers up to the end of its partition. -/
theorem groups_tile (found : d.positionAt rows i = .ok p) (lies : p.Lies rows.size i) :
    ∃ groups, Tiles p.partitionEnd p.frameEnd groups ∧ ∀ j, i ≤ j → j < p.partitionEnd →
      ∃ q k, d.positionAt rows j = .ok q ∧ q.Lies rows.size j ∧
        q.partitionStart = p.partitionStart ∧
        q.partitionEnd = p.partitionEnd ∧ q.peerGroup = p.peerGroup + k ∧
        ((p.peerStart, p.frameEnd) :: groups)[k]? = some (q.peerStart, q.frameEnd) := by
  -- Row by row to the end of the partition; a run that a row opens is in front of those from there
  -- on.
  induction rest : p.partitionEnd - (i + 1) generalizing i p with
  | zero =>
    have within := Nat.le_trans lies.lt_frameEnd lies.frameEnd_le
    refine ⟨[], ?_, fun j above below => ?_⟩
    · exact Nat.le_antisymm lies.frameEnd_le
        (Nat.le_trans (Nat.le_of_sub_eq_zero rest) lies.lt_frameEnd)
    · obtain rfl : j = i := by omega
      exact ⟨p, 0, found, lies, rfl, rfl, rfl, rfl⟩
  | succ rest ih =>
    obtain ⟨q, found', lies', start, stop, alike⟩ := positionAt_next compares found lies (by omega)
    obtain ⟨groups, tiles, later⟩ := ih found' lies' (by omega)
    rw [start, stop] at later
    rw [stop] at tiles
    rcases alike with ⟨group, peers, frame⟩ | ⟨group, opens, last⟩
    · rw [group, peers, frame] at later
      rw [frame] at tiles
      refine ⟨groups, tiles, fun j above below => ?_⟩
      rcases Nat.eq_or_lt_of_le above with rfl | after
      · exact ⟨p, 0, found, lies, rfl, rfl, rfl, rfl⟩
      · exact later j after below
    · refine ⟨(q.peerStart, q.frameEnd) :: groups,
        ⟨opens, by rw [last]; exact lies'.lt_frameEnd, tiles⟩,
        fun j above below => ?_⟩
      rcases Nat.eq_or_lt_of_le above with rfl | after
      · exact ⟨p, 0, found, lies, rfl, rfl, rfl, rfl⟩
      · obtain ⟨r, k, at_, lies'', start', stop', group', place⟩ := later j after below
        exact ⟨r, k + 1, at_, lies'', start', stop', by omega, place⟩

/-- From a row that opens a partition, that partition and whether the next row opens another. -/
theorem partition_ok (inside : i < rows.size) (opens : d.positionAt rows i = d.opening rows i) :
    ∃ stop, i < stop ∧ stop ≤ rows.size ∧ d.IsPartition rows (i, stop) ∧
      d.positionAt rows stop = d.opening rows stop := by
  obtain ⟨p, opened, lies, start, first, ordinal⟩ := opening_ok compares inside
  have found := opens.trans opened
  have within := Nat.lt_of_lt_of_le lies.lt_frameEnd lies.frameEnd_le
  obtain ⟨groups, tiles, each⟩ := groups_tile compares found lies
  refine ⟨p.partitionEnd, within, lies.partitionEnd_le,
    ⟨(p.peerStart, p.frameEnd) :: groups, ⟨first, lies.lt_frameEnd, tiles⟩,
      fun j above below => ?_⟩, ?_⟩
  · obtain ⟨q, k, at_, lies', start', stop', group, place⟩ := each j above below
    rw [ordinal, Nat.zero_add] at group
    subst group
    exact ⟨q, at_, start'.trans start, stop', start ▸ start' ▸ lies'.index_eq, lies'.peerStart_le,
      lies'.lt_frameEnd,
      place⟩
  · obtain ⟨k, last⟩ :=
      Nat.exists_eq_succ_of_ne_zero (Nat.ne_of_gt (Nat.lt_of_le_of_lt (Nat.zero_le i) within))
    obtain ⟨q, _, at_, -, -, stop', -⟩ := each k (by omega) (by omega)
    rw [last, positionAt_opens at_ (by omega)]

theorem partitions_tile (start : Nat) (inside : start ≤ rows.size)
    (opens : d.positionAt rows start = d.opening rows start) :
    ∃ partitions, Tiles rows.size start partitions ∧
      ∀ range ∈ partitions, d.IsPartition rows range := by
  induction rest : rows.size - start using Nat.strongRecOn generalizing start with
  | ind rest ih =>
    rcases Nat.eq_or_lt_of_le inside with rfl | more
    · exact ⟨[], rfl, nofun⟩
    · obtain ⟨stop, after, within, partition, opens'⟩ := partition_ok compares more opens
      obtain ⟨partitions, tiles, each⟩ := ih (rows.size - stop) (by omega) stop within opens' rfl
      exact ⟨(start, stop) :: partitions, ⟨rfl, after, tiles⟩,
        List.forall_mem_cons.mpr ⟨partition, each⟩⟩

end Positions

/-- Whatever the order of the rows, if they can be compared the walk finds the position of each row
it comes to, and it is the one among the rows as they were. No guard refuses the frame of that
position; it holds the row, lies in the partition and begins with it, and the row has a rank in it.
All partitions tile the rows, and in each of them the runs of peers tile it in the order of their
ordinals. -/
theorem walk_tiles (d : Definition) (rows : Array Row) (compares : d.ComparesRows rows) :
    (∀ i before buffer, d.Reaches rows i before buffer →
      d.walk rows = d.walkFrom (rows.size - i) i before buffer ∧
      (i < rows.size → ∃ p f, d.locate buffer i before = .ok p ∧ d.positionAt rows i = .ok p ∧
        p.frame buffer i = .ok f ∧ f.partitionStart = p.partitionStart ∧
        f.first = f.partitionStart ∧
        f.partitionStart ≤ f.peerStart ∧ f.peerStart ≤ i ∧ i < f.last ∧ f.last ≤ p.partitionEnd ∧
        p.partitionEnd ≤ rows.size ∧ f.isEmpty = false ∧
        (rows.size < countLimit → ∃ cell, Call.rankOf f = .ok cell))) ∧
    ∃ partitions, Tiles rows.size 0 partitions ∧
      ∀ range ∈ partitions, d.IsPartition rows range := by
  constructor
  · intro i before buffer reached
    refine ⟨reached.walk_eq, fun inside => ?_⟩
    have leaves := reached.leaves
    obtain ⟨p, found, lies⟩ := positionAt_ok compares inside
    have located := (leaves.positionAt_eq inside).symm.trans found
    have within : p.Lies buffer.size i := leaves.size_eq ▸ lies
    obtain ⟨f, framed, first, last, start, peers, nonempty, ranked⟩ := within.frame_ok
    rw [leaves.size_eq] at ranked
    have := lies.start_le_peerStart
    exact ⟨p, f, located, found, framed, start, first.trans start.symm,
      by omega, peers ▸ lies.peerStart_le,
      last ▸ lies.lt_frameEnd, last ▸ lies.frameEnd_le, lies.partitionEnd_le, nonempty, ranked⟩
  · exact partitions_tile compares 0 (Nat.zero_le _) rfl

/-- Rows that are not sorted: those of the greater key are apart, and so are two partitions. -/
theorem walk_tiles_unsorted :
    let d : Definition := ⟨2, [⟨.rank, []⟩], some (.ascending 0), some (.ascending 1)⟩
    let rows : Array Row :=
      #[[.ofCount 2, .ofCount 5, .untyped], [.ofCount 2, .ofCount 5, .untyped],
      [.ofCount 2, .ofCount 4, .untyped], [.ofCount 1, .ofCount 3, .untyped],
      [.ofCount 2, .ofCount 3, .untyped]]
    d.ComparesRows rows ∧
      (∃ f p, Position.frame p rows 0 = .ok f ∧ f.first = f.partitionStart ∧ f.isEmpty = false ∧
        d.positionAt rows 0 = .ok p) ∧
      [0, 1, 2, 3, 4].map (d.positionAt rows) =
        [.ok ⟨0, 3, 0, 0, 0, 2, false⟩, .ok ⟨0, 3, 1, 0, 0, 2, true⟩,
        .ok ⟨0, 3, 2, 2, 1, 3, false⟩, .ok ⟨3, 4, 0, 3, 0, 4, false⟩,
        .ok ⟨4, 5, 0, 4, 0, 5, false⟩] ∧
      ∃ partitions, Tiles rows.size 0 partitions ∧
        ∀ range ∈ partitions, d.IsPartition rows range := by
  intro d rows
  have typed : ∀ row ∈ rows.toList, row.HasTypes [.int64, .int64] := by
    show ∀ row ∈ rows.toList, (row.take 2).map Cell.type = [.int64, .int64]
    decide
  have compares : d.ComparesRows rows := comparesRows_of_types rfl (by decide) typed
  obtain ⟨reached, partitions⟩ := walk_tiles d rows compares
  obtain ⟨-, located⟩ := reached 0 none rows .start
  obtain ⟨p, f, -, found, framed, -, first, -, -, -, -, -, nonempty, -⟩ := located (by decide)
  exact ⟨compares, ⟨f, p, framed, first, nonempty, found⟩, by decide +kernel, partitions⟩

end Definition
end Windowing
