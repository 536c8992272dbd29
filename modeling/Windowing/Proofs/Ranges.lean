import Windowing.Proofs.Tiling

/-!
What sorting by the joined order gives to the searches of the walk. The rows of a partition stand
together, in the order of the partitions, and in a partition they stand in the order of peers. So
both searches that the walk makes at a row look at ranges sorted by the order they are given, and it
does not matter what they would find in others.
-/
namespace Windowing

namespace Peers

variable {α : Type} {order : Option (α → α → Except Defect Ordering)} {rows others : Array α}
  {start stop : Nat}

/-- A range of rows that is not empty and in the order; an absent order finds all rows equal. -/
structure SortedRange (order : Option (α → α → Except Defect Ordering)) (rows : Array α)
    (start stop : Nat) :
    Prop where
  apart : start < stop
  within : stop ≤ rows.size
  sorted : Sorting.Sorted (order.getD Sorting.ties) (rows.extract start stop).toList

/-- What finds the ends of runs in sorted ranges; elsewhere it may find anything, or nothing. -/
def Finds (order : Option (α → α → Except Defect Ordering)) (rows : Array α)
    (find : Nat → Nat → Except Defect Nat) :
    Prop :=
  ∀ start stop, SortedRange order rows start stop → find start stop = runEnd order rows start stop

theorem SortedRange.ahead (range : SortedRange order rows start stop)
    (size : others.size = rows.size) (ahead : ∀ j, start ≤ j → others[j]? = rows[j]?) :
    SortedRange order others start stop := by
  have same : others.extract start stop = rows.extract start stop := by
    refine Array.ext_getElem? fun k => ?_
    simp only [Array.getElem?_extract, size, ahead (start + k) (Nat.le_add_right ..)]
  refine ⟨range.apart, size ▸ range.within, ?_⟩
  rw [same]
  exact range.sorted

end Peers

/-- Rows sorted by two total preorders joined, either of which may be absent. -/
structure JointlySorted {α : Type} (on : α → Prop)
    (partitionBy orderBy : Option (α → α → Except Defect Ordering)) (rows : List α) : Prop where
  partitions : Sorting.Total (partitionBy.getD Sorting.ties) on
  peers : Sorting.Total (orderBy.getD Sorting.ties) on
  inside : ∀ row ∈ rows, on row
  sorted : Sorting.Sorted ((Sorting.join partitionBy orderBy).getD Sorting.ties) rows

/-- The bounds of a partition hold just the rows that are found equal to row `i`. -/
structure Position.Delimits {α : Type} (partitionBy : Option (α → α → Except Defect Ordering))
    (rows : List α) (i : Nat) (p : Position) : Prop extends p.Encloses rows.length i where
  mates : ∀ (_ : i < rows.length) j (_ : j < rows.length),
    Sorting.tied (partitionBy.getD Sorting.ties) rows[i] rows[j] = true ↔ p.partitionStart ≤ j ∧
    j < p.partitionEnd

namespace JointlySorted

variable {α : Type} {on : α → Prop} {partitionBy orderBy : Option (α → α → Except Defect Ordering)}
  {rows : List α} {i : Nat} {p : Position}

structure FindsAt (partitionBy orderBy : Option (α → α → Except Defect Ordering)) (rows : List α)
    (i : Nat) (partitionEnd peersEnd : Nat → Nat → Except Defect Nat) : Prop where
  partitions : ∀ stop, Peers.SortedRange partitionBy rows.toArray i stop →
    partitionEnd i stop = Peers.runEnd partitionBy rows.toArray i stop
  peers : ∀ stop, Peers.SortedRange orderBy rows.toArray i stop →
    peersEnd i stop = Peers.runEnd orderBy rows.toArray i stop

/-- In a buffer that is as given from row `i` on, they are what they are among the rows as given. -/
theorem FindsAt.of_buffer {buffer : Array α} (size : buffer.size = rows.toArray.size)
    (ahead : ∀ j, i ≤ j → buffer[j]? = rows.toArray[j]?)
    {find find' : Nat → Nat → Except Defect Nat} (finds : Peers.Finds partitionBy buffer find)
    (finds' : Peers.Finds orderBy buffer find') :
    FindsAt partitionBy orderBy rows i find find' := by
  constructor
  · intro stop range
    rw [finds i stop (range.ahead size ahead)]
    exact Peers.runEnd_local range.apart range.within fun k above _ => ahead k above
  · intro stop range
    rw [finds' i stop (range.ahead size ahead)]
    exact Peers.runEnd_local range.apart range.within fun k above _ => ahead k above

def Precedes (partitionBy : Option (α → α → Except Defect Ordering)) (rows : List α) (i : Nat) :
    Option Position → Prop
  | none => i = 0
  | some p => 0 < i ∧ p.Delimits partitionBy rows (i - 1)

variable (joined : JointlySorted on partitionBy orderBy rows)

include joined

theorem refined : Sorting.Sorted
    (Sorting.thenBy (partitionBy.getD Sorting.ties) (orderBy.getD Sorting.ties)) rows := by
  rw [← Sorting.join_getD]
  exact joined.sorted

theorem by_partition : Sorting.Sorted (partitionBy.getD Sorting.ties) rows :=
  joined.refined.of_thenBy

theorem on_at {k : Nat} (hk : k < rows.length) : on rows[k] := joined.inside _ (List.getElem_mem hk)

theorem mates_comm {j k : Nat} (hj : j < rows.length) (hk : k < rows.length) :
    Sorting.tied (partitionBy.getD Sorting.ties) rows[j] rows[k] =
      Sorting.tied (partitionBy.getD Sorting.ties) rows[k] rows[j] :=
  joined.partitions.consistent.tied_comm (joined.on_at hj) (joined.on_at hk)

theorem mates_congr {j k l : Nat} (hj : j < rows.length) (hk : k < rows.length)
    (hl : l < rows.length)
    (tie : Sorting.tied (partitionBy.getD Sorting.ties) rows[j] rows[k] = true) :
    Sorting.tied (partitionBy.getD Sorting.ties) rows[j] rows[l] =
      Sorting.tied (partitionBy.getD Sorting.ties) rows[k] rows[l] :=
  joined.partitions.tied_congr (joined.on_at hj) (joined.on_at hk) (joined.on_at hl) tie

/-- From any row on, the rows are in the order of partitions. -/
theorem sortedRange_partition (hi : i < rows.length) :
    Peers.SortedRange partitionBy rows.toArray i rows.toArray.size := by
  refine ⟨hi, Nat.le_refl _, ?_⟩
  rw [Array.toList_extract]
  exact joined.by_partition.sublist ((List.take_sublist ..).trans (List.drop_sublist ..))

/-- Rows of one partition are in the order of peers. -/
theorem sortedRange_peers {start stop k : Nat} (apart : start < stop) (within : stop ≤ rows.length)
    (hk : k < rows.length) (together : ∀ j (_ : start ≤ j) (_ : j < stop),
      Sorting.tied (partitionBy.getD Sorting.ties) rows[k] rows[j] = true) :
    Peers.SortedRange orderBy rows.toArray start stop := by
  have parts : (rows.toArray.extract start stop).toList = (rows.take stop).drop start := by
    rw [Array.toList_extract, List.extract_eq_take_drop, List.drop_take]
  refine ⟨apart, within, ?_⟩
  rw [parts]
  have refined :=
    joined.refined.sublist ((List.drop_sublist start _).trans (List.take_sublist stop rows))
  refine Sorting.Sorted.second_of_thenBy refined fun x hx y hy => ?_
  obtain ⟨a, ha, above, below, rfl⟩ := mem_drop_take hx
  obtain ⟨b, hb, above', below', rfl⟩ := mem_drop_take hy
  rw [← joined.mates_congr hk ha hb (together a above below)]
  exact together b above' below'

/-- The partition that row `i` opens ends behind the last row that is found equal to it. -/
theorem partition_ends (hi : i < rows.length) :
    ∃ stop, Peers.runEnd partitionBy rows.toArray i rows.length = .ok stop ∧ i < stop ∧
      stop ≤ rows.length ∧
      ∀ k (_ : i ≤ k) (_ : k < rows.length),
        Sorting.tied (partitionBy.getD Sorting.ties) rows[i] rows[k] = true ↔ k < stop :=
  Peers.runEnd_exact joined.partitions joined.inside hi (Nat.le_refl _) fun _ _ hij hjk hk tie =>
    joined.partitions.tied_between joined.inside joined.by_partition hij hjk hk tie

theorem peers_end {start stop : Nat} (apart : start < stop) (within : stop ≤ rows.length) :
    ∃ e, Peers.runEnd orderBy rows.toArray start stop = .ok e ∧ start < e ∧ e ≤ stop :=
  Peers.runEnd_ok apart within fun _ first _ second =>
    joined.peers.answers (joined.inside _ first) (joined.inside _ second)

/-- A row opens its partition if no row before belongs to that. -/
theorem opening_delimits (hi : i < rows.length)
    (first : ∀ j (_ : j < i),
      Sorting.tied (partitionBy.getD Sorting.ties) rows[i] rows[j] = false) :
    ∃ p, p.Delimits partitionBy rows i ∧
      ∀ find find', FindsAt partitionBy orderBy rows i find find' →
      openingVia find find' rows.length i = .ok p := by
  obtain ⟨stop, partition, apart, within, mates⟩ := joined.partition_ends hi
  obtain ⟨frameEnd, run, after, below⟩ := joined.peers_end apart within
  have together : ∀ j (_ : i ≤ j) (_ : j < stop),
      Sorting.tied (partitionBy.getD Sorting.ties) rows[i] rows[j] = true := by
    intro j above before
    exact (mates j above (by omega)).mpr before
  refine ⟨⟨i, stop, 0, i, 0, frameEnd, false⟩, ⟨⟨Nat.le_refl i, after, below, within⟩, ?_⟩, ?_⟩
  · intro _ j hj
    by_cases before : j < i
    · rw [first j before]
      simp only [Bool.false_eq_true, false_iff]
      omega
    · exact (mates j (Nat.not_lt.mp before) hj).trans (by simp only; omega)
  · intro find find' finds
    have found := finds.partitions rows.length (joined.sortedRange_partition hi)
    have found' := finds.peers stop (joined.sortedRange_peers apart within hi together)
    rw [openingVia, found, partition, ok_bind, found', run, ok_bind]
    rfl

/-- A row after one of the same partition. -/
theorem following_delimits (hi : i + 1 < rows.length) (delimits : p.Delimits partitionBy rows i)
    (more : i + 1 ≠ p.partitionEnd) :
    ∃ q, q.Delimits partitionBy rows (i + 1) ∧
      ∀ find find', FindsAt partitionBy orderBy rows (i + 1) find find' →
      locateVia find find' rows.length (i + 1) (some p) = .ok q := by
  obtain ⟨⟨start_le, lt_frameEnd, frameEnd_le, partitionEnd_le⟩, mates⟩ := delimits
  have inside : i + 1 < p.partitionEnd := by omega
  have mates' : ∀ j (_ : j < rows.length),
      Sorting.tied (partitionBy.getD Sorting.ties) rows[i + 1] rows[j] = true ↔
      p.partitionStart ≤ j ∧ j < p.partitionEnd := by
    intro j hj
    have mate := (mates (by omega) (i + 1) hi).mpr (by omega)
    rw [← joined.mates_congr (by omega) hi hj mate]
    exact mates (by omega) j hj
  by_cases peer : i + 1 < p.frameEnd
  · refine ⟨{ p with index := p.index + 1, sharesFrame := true },
      ⟨⟨Nat.le_succ_of_le start_le, peer, frameEnd_le, partitionEnd_le⟩, fun _ => mates'⟩, ?_⟩
    intro find find' _
    rw [locateVia, if_neg more, if_pos peer]
  · obtain ⟨frameEnd, run, after, below⟩ := joined.peers_end inside partitionEnd_le
    refine ⟨⟨p.partitionStart, p.partitionEnd, p.index + 1, i + 1, p.peerGroup + 1,
      frameEnd, false⟩,
      ⟨⟨Nat.le_succ_of_le start_le, after, below, partitionEnd_le⟩, fun _ => mates'⟩, ?_⟩
    intro find find' finds
    have together : ∀ j (_ : i + 1 ≤ j) (_ : j < p.partitionEnd),
        Sorting.tied (partitionBy.getD Sorting.ties) rows[i + 1] rows[j] = true := by
      intro j above below
      exact (mates' j (by omega)).mpr (by omega)
    have found :=
      finds.peers p.partitionEnd (joined.sortedRange_peers inside partitionEnd_le hi together)
    rw [locateVia, if_neg more, if_neg peer, found, run]
    rfl

/-- Behind the last row of a partition no row belongs to it. -/
theorem not_mates_before (hi : i + 1 < rows.length) (delimits : p.Delimits partitionBy rows i)
    (last : i + 1 = p.partitionEnd) {j : Nat} (before : j < i + 1) :
    Sorting.tied (partitionBy.getD Sorting.ties) rows[i + 1] rows[j] = false := by
  refine Bool.eq_false_iff.mpr fun tie => ?_
  rw [joined.mates_comm hi (by omega)] at tie
  have near :=
    joined.partitions.tied_between joined.inside joined.by_partition (Nat.le_of_lt_succ before)
    (Nat.le_succ i) hi tie
  rw [joined.mates_congr (by omega) (by omega) hi near] at tie
  have := (delimits.mates (by omega) (i + 1) hi).mp tie
  omega

theorem locate_delimits (hi : i < rows.length) {before : Option Position}
    (precedes : Precedes partitionBy rows i before) :
    ∃ p, p.Delimits partitionBy rows i ∧
      ∀ find find', FindsAt partitionBy orderBy rows i find find' →
      locateVia find find' rows.length i before = .ok p := by
  cases before with
  | none =>
    obtain rfl : i = 0 := precedes
    exact joined.opening_delimits hi fun j before => absurd before (Nat.not_lt_zero j)
  | some q =>
    obtain ⟨positive, delimits⟩ := precedes
    obtain ⟨k, rfl⟩ := Nat.exists_eq_succ_of_ne_zero (Nat.ne_of_gt positive)
    rw [Nat.succ_sub_one] at delimits
    by_cases last : k + 1 = q.partitionEnd
    · obtain ⟨p, delimits', found⟩ := joined.opening_delimits hi fun j before =>
        joined.not_mates_before hi delimits last before
      refine ⟨p, delimits', fun find find' finds => ?_⟩
      rw [locateVia, if_pos last]
      exact found find find' finds
    · exact joined.following_delimits hi delimits last

/-- Row by row from the first, whatever would be found in ranges that are not sorted. -/
theorem position_delimits (hi : i < rows.length) :
    ∃ p, p.Delimits partitionBy rows i ∧ ∀ find find', Peers.Finds partitionBy rows.toArray find →
      Peers.Finds orderBy rows.toArray find' → positionVia find find' rows.length i = .ok p := by
  induction i with
  | zero =>
    obtain ⟨p, delimits, found⟩ :=
      joined.locate_delimits hi (show Precedes partitionBy rows 0 none from rfl)
    refine ⟨p, delimits, fun find find' finds finds' => found find find' ⟨finds 0, finds' 0⟩⟩
  | succ i ih =>
    obtain ⟨q, earlier, found⟩ := ih (Nat.lt_of_succ_lt hi)
    have precedes : Precedes partitionBy rows (i + 1) (some q) := ⟨Nat.succ_pos i, earlier⟩
    obtain ⟨p, delimits, located⟩ := joined.locate_delimits hi precedes
    refine ⟨p, delimits, fun find find' finds finds' => ?_⟩
    rw [positionVia, found find find' finds finds', ok_bind]
    exact located find find' ⟨finds (i + 1), finds' (i + 1)⟩

/-- Rows have the same partition if they are found equal, and only then. -/
theorem partitionStart_eq_iff {j : Nat} {q : Position} (hi : i < rows.length) (hj : j < rows.length)
    (first : p.Delimits partitionBy rows i) (second : q.Delimits partitionBy rows j) :
    p.partitionStart = q.partitionStart ↔
      Sorting.tied (partitionBy.getD Sorting.ties) rows[i] rows[j] = true := by
  have := first.start_le
  have := second.start_le
  have := Nat.lt_of_lt_of_le first.lt_frameEnd first.frameEnd_le
  have := Nat.lt_of_lt_of_le second.lt_frameEnd second.frameEnd_le
  constructor
  · intro same
    -- Both rows are equal to the one that opens their partition.
    have left := (first.mates hi p.partitionStart (by omega)).mpr (by omega)
    have right := (second.mates hj p.partitionStart (by omega)).mpr (by omega)
    rw [joined.mates_congr hi (by omega) hj left, joined.mates_comm (by omega) hj]
    exact right
  · intro tie
    have same : ∀ k (_ : k < rows.length), p.partitionStart ≤ k ∧ k < p.partitionEnd ↔
        q.partitionStart ≤ k ∧ k < q.partitionEnd := by
      intro k hk
      rw [← first.mates hi k hk, ← second.mates hj k hk, joined.mates_congr hi hj hk tie]
    have left := (same p.partitionStart (by omega)).mp (by omega)
    have right := (same q.partitionStart (by omega)).mpr (by omega)
    omega

/-- The rows from row `i` on are sorted by partition; those of its partition, from it on and all of
them, by peers. -/
theorem sortedRanges (hi : i < rows.length) (delimits : p.Delimits partitionBy rows i) :
    Peers.SortedRange partitionBy rows.toArray i rows.toArray.size ∧
      Peers.SortedRange orderBy rows.toArray i p.partitionEnd ∧
      Peers.SortedRange orderBy rows.toArray p.partitionStart p.partitionEnd := by
  have := delimits.start_le
  have within := delimits.partitionEnd_le
  have apart := Nat.lt_of_lt_of_le delimits.lt_frameEnd delimits.frameEnd_le
  have together : ∀ j (_ : p.partitionStart ≤ j) (_ : j < p.partitionEnd),
      Sorting.tied (partitionBy.getD Sorting.ties) rows[i] rows[j] = true := by
    intro j above below
    exact (delimits.mates hi j (by omega)).mpr ⟨above, below⟩
  refine ⟨joined.sortedRange_partition hi, ?_, ?_⟩
  · exact joined.sortedRange_peers apart within hi fun j above below => together j (by omega) below
  · exact joined.sortedRange_peers (by omega) within hi together

end JointlySorted

/-- The sort by the joined order answers where both orders do, with rows that are jointly sorted. -/
theorem Executor.sort_jointlySorted (x : Executor) (d : Definition) {on : Row → Prop}
    (partitions : Sorting.Total d.partitionOrder.compare on)
    (peers : Sorting.Total d.peerOrder.compare on) {given : List Row}
    (inside : ∀ row ∈ given, on row) :
    ∃ sorted, x.sort (RowOrder.join d.partitionBy d.orderBy) given = .ok sorted ∧
      given.Perm sorted ∧
      JointlySorted on (d.partitionBy.map RowOrder.compare)
        (d.orderBy.map RowOrder.compare) sorted := by
  obtain ⟨sorted, done, sorts⟩ := x.sort_total partitions peers inside
  refine ⟨sorted, done, sorts.arranges.perm, ?_⟩
  constructor
  · rw [RowOrder.compare_getD]
    exact partitions
  · rw [RowOrder.compare_getD]
    exact peers
  · exact sorts.arranges.on_right inside
  · rw [Sorting.join_getD, RowOrder.compare_getD, RowOrder.compare_getD]
    exact sorts.sorted

namespace Definition

variable {d : Definition} {on : Row → Prop} {rows : List Row} {i : Nat} {before : Option Position}
  {buffer : Array Row}

theorem positionAt_delimits
    (joined : JointlySorted on (d.partitionBy.map RowOrder.compare)
      (d.orderBy.map RowOrder.compare) rows) (hi : i < rows.length) :
    ∃ p, d.positionAt rows.toArray i = .ok p ∧
      p.Delimits (d.partitionBy.map RowOrder.compare) rows i := by
  obtain ⟨p, delimits, found⟩ := joined.position_delimits hi
  refine ⟨p, ?_, delimits⟩
  rw [positionAt_eq_positionVia]
  exact found _ _ (fun _ _ _ => rfl) fun _ _ _ => rfl

theorem Reaches.precedes (reached : d.Reaches rows.toArray i before buffer)
    (joined : JointlySorted on (d.partitionBy.map RowOrder.compare)
      (d.orderBy.map RowOrder.compare) rows) (hi : i < rows.length) :
    JointlySorted.Precedes (d.partitionBy.map RowOrder.compare) rows i before := by
  cases before with
  | none => exact reached.leaves.start rfl
  | some q =>
    obtain ⟨positive, -, found⟩ := reached.leaves.earlier q rfl
    obtain ⟨p, found', delimits⟩ :=
      positionAt_delimits joined (Nat.lt_of_le_of_lt (Nat.sub_le i 1) hi)
    obtain rfl := Except.ok.inj (found.symm.trans found')
    exact ⟨positive, delimits⟩

/-- Where the walk over jointly sorted rows stands, the ranges that it may search are sorted. -/
theorem Reaches.searches (reached : d.Reaches rows.toArray i before buffer)
    (joined : JointlySorted on (d.partitionBy.map RowOrder.compare)
      (d.orderBy.map RowOrder.compare) rows) (hi : i < rows.length) :
    ∃ p, d.locate buffer i before = .ok p ∧ p.Delimits (d.partitionBy.map RowOrder.compare) rows i ∧
      Peers.SortedRange (d.partitionBy.map RowOrder.compare) buffer i buffer.size ∧
      Peers.SortedRange (d.orderBy.map RowOrder.compare) buffer i p.partitionEnd ∧
      ∀ find find', Peers.Finds (d.partitionBy.map RowOrder.compare) buffer find →
        Peers.Finds (d.orderBy.map RowOrder.compare) buffer find' →
          locateVia find find' buffer.size i before = .ok p := by
  have size : buffer.size = rows.toArray.size := reached.leaves.size_eq
  have ahead := reached.leaves.ahead
  obtain ⟨p, delimits, located⟩ := joined.locate_delimits hi (reached.precedes joined hi)
  obtain ⟨partitions, peers, -⟩ := joined.sortedRanges hi delimits
  have anyway : ∀ find find', Peers.Finds (d.partitionBy.map RowOrder.compare) buffer find →
      Peers.Finds (d.orderBy.map RowOrder.compare) buffer find' →
        locateVia find find' buffer.size i before = .ok p := by
    intro find find' finds finds'
    rw [size, List.size_toArray]
    exact located find find' (.of_buffer size ahead finds finds')
  refine ⟨p, ?_, delimits, ?_, peers.ahead size ahead, anyway⟩
  · rw [locate_eq_locateVia]
    exact anyway _ _ (fun _ _ _ => rfl) fun _ _ _ => rfl
  · rw [size]
    exact partitions.ahead size ahead

/-- Of rows sorted by two total preorders joined, either of which may be absent: they are sorted by
the first, and the rows that it finds equal to one of them are those between the bounds of a
partition, which are sorted by the second. These bounds come out of any searches that find the ends
of runs in sorted ranges, whatever they find in others; and two rows have the same partition just if
they are found equal. The rows that an execution sorts are such, and at each row that the walk over
them comes to it searches such ranges only. -/
theorem searches_sorted :
    (∀ {α : Type} {on : α → Prop} {partitionBy orderBy : Option (α → α → Except Defect Ordering)}
      {rows : List α},
      JointlySorted on partitionBy orderBy rows →
      Sorting.Sorted (partitionBy.getD Sorting.ties) rows ∧
      (∀ i < rows.length, ∃ p, p.Delimits partitionBy rows i ∧
        Peers.SortedRange orderBy rows.toArray p.partitionStart p.partitionEnd ∧
        Peers.SortedRange partitionBy rows.toArray i rows.toArray.size ∧
        Peers.SortedRange orderBy rows.toArray i p.partitionEnd ∧
        ∀ find find', Peers.Finds partitionBy rows.toArray find →
          Peers.Finds orderBy rows.toArray find' →
          positionVia find find' rows.length i = .ok p) ∧
      ∀ i j (_ : i < rows.length) (_ : j < rows.length) find find',
        Peers.Finds partitionBy rows.toArray find → Peers.Finds orderBy rows.toArray find' →
        ∀ p q, positionVia find find' rows.length i = .ok p →
          positionVia find find' rows.length j = .ok q →
          (p.partitionStart = q.partitionStart ↔
            Sorting.tied (partitionBy.getD Sorting.ties) rows[i] rows[j] = true)) ∧
    (∀ partitionBy orderBy : Option RowOrder,
      (RowOrder.join partitionBy orderBy).map RowOrder.compare =
      Sorting.join (partitionBy.map RowOrder.compare) (orderBy.map RowOrder.compare)) ∧
    ∀ (x : Executor) (d : Definition) {on : Row → Prop} {given : List Row},
      Sorting.Total d.partitionOrder.compare on → Sorting.Total d.peerOrder.compare on →
      (∀ row ∈ given, on row) →
      ∃ sorted, x.sort (RowOrder.join d.partitionBy d.orderBy) given = .ok sorted ∧
        given.Perm sorted ∧
        JointlySorted on (d.partitionBy.map RowOrder.compare)
          (d.orderBy.map RowOrder.compare) sorted ∧
        ∀ i before buffer, d.Reaches sorted.toArray i before buffer → i < sorted.length →
          ∃ p, d.locate buffer i before = .ok p ∧
            p.Delimits (d.partitionBy.map RowOrder.compare) sorted i ∧
            Peers.SortedRange (d.partitionBy.map RowOrder.compare) buffer i buffer.size ∧
            Peers.SortedRange (d.orderBy.map RowOrder.compare) buffer i p.partitionEnd ∧
            ∀ find find', Peers.Finds (d.partitionBy.map RowOrder.compare) buffer find →
              Peers.Finds (d.orderBy.map RowOrder.compare) buffer find' →
                locateVia find find' buffer.size i before = .ok p := by
  refine ⟨?_, RowOrder.map_join, ?_⟩
  · intro α on partitionBy orderBy rows joined
    refine ⟨joined.by_partition, ?_, ?_⟩
    · intro i hi
      obtain ⟨p, delimits, found⟩ := joined.position_delimits hi
      obtain ⟨partitions, peers, whole⟩ := joined.sortedRanges hi delimits
      exact ⟨p, delimits, whole, partitions, peers, found⟩
    · intro i j hi hj find find' finds finds' p q first second
      obtain ⟨p', delimits, found⟩ := joined.position_delimits hi
      obtain ⟨q', delimits', found'⟩ := joined.position_delimits hj
      obtain rfl := Except.ok.inj ((found find find' finds finds').symm.trans first)
      obtain rfl := Except.ok.inj ((found' find find' finds finds').symm.trans second)
      exact joined.partitionStart_eq_iff hi hj delimits delimits'
  · intro x d on given partitions peers inside
    obtain ⟨sorted, done, perm, joined⟩ := x.sort_jointlySorted d partitions peers inside
    refine ⟨sorted, done, perm, joined, ?_⟩
    intro i before buffer reached hi
    exact reached.searches joined hi

/-- Numbers by their tens only, and rows in two partitions, which the sort brings together. -/
theorem searches_sorted_apart :
    let tens : Nat → Nat → Except Defect Ordering := fun a b => .ok (compare (a / 10) (b / 10))
    let numbers := [12, 11, 25, 21, 27]
    let d : Definition := ⟨2, [⟨.rank, []⟩], some (.ascending 0), some (.descending 1)⟩
    let given : List Row := [[.ofCount 1, .ofCount 5, .untyped], [.ofCount 2, .ofCount 5, .untyped],
      [.ofCount 1, .ofCount 7, .untyped]]
    let sorted : List Row :=
      [[.ofCount 1, .ofCount 7, .untyped], [.ofCount 1, .ofCount 5, .untyped],
      [.ofCount 2, .ofCount 5, .untyped]]
    JointlySorted (fun _ => True) (some tens) none numbers ∧
      (∃ p : Position, p.Delimits (some tens) numbers 3 ∧
        Peers.SortedRange (some tens) numbers.toArray 3 5 ∧
        positionVia (Peers.runEnd (some tens) numbers.toArray) (Peers.runEnd none numbers.toArray)
          5 3 = .ok p) ∧
      (Executor.mk {} none).sort (RowOrder.join d.partitionBy d.orderBy) given = .ok sorted ∧
      ∃ p, d.locate sorted.toArray 0 none = .ok p ∧
        p.Delimits (d.partitionBy.map RowOrder.compare) sorted 0 ∧
        Peers.SortedRange (d.orderBy.map RowOrder.compare) sorted.toArray 0 p.partitionEnd := by
  intro tens numbers d given sorted
  have notAfter : ∀ a b, Sorting.NotAfter tens a b ↔ a / 10 ≤ b / 10 := by
    intro a b
    simp only [Sorting.NotAfter, tens, Except.ok.injEq, Nat.compare_eq_lt, Nat.compare_eq_eq]
    omega
  have laws : Sorting.Total tens (fun _ => True) := by
    refine ⟨⟨?_, ?_⟩, fun _ _ => ⟨_, rfl⟩⟩
    · intro a b o _ _ answer
      obtain rfl := Except.ok.inj answer
      exact congrArg Except.ok (Nat.compare_swap _ _).symm
    · intro a b c _ _ _ first second
      exact (notAfter a c).mpr (Nat.le_trans ((notAfter a b).mp first) ((notAfter b c).mp second))
  have joined : JointlySorted (fun _ => True) (some tens) none numbers := by
    refine ⟨laws, .ties, fun _ _ => trivial, ?_⟩
    have ordered : numbers.Pairwise fun a b => a / 10 ≤ b / 10 := by decide
    exact ordered.imp (notAfter _ _).mpr
  obtain ⟨ranges, -, walks⟩ := searches_sorted
  obtain ⟨-, delimited, -⟩ := ranges joined
  obtain ⟨p, delimits, -, searched, -, found⟩ := delimited 3 (by decide)
  have typed : ∀ row ∈ given, row.HasTypes [.int64, .int64] := by
    unfold Row.HasTypes
    decide
  have compares : d.ComparesSource := by decide
  have done : (Executor.mk {} none).sort (RowOrder.join d.partitionBy d.orderBy) given =
      .ok sorted := by
    decide +kernel
  obtain ⟨_, done', -, -, reaches⟩ := walks ⟨{}, none⟩ d (d.partitionOrder_total rfl compares)
    (d.peerOrder_total rfl compares) typed
  obtain rfl := Except.ok.inj (done.symm.trans done')
  obtain ⟨q, located, delimits', -, peers, -⟩ := reaches 0 none _ .start (by decide)
  exact ⟨joined, ⟨p, delimits, searched, found _ _ (fun _ _ _ => rfl) fun _ _ _ => rfl⟩, done, q,
    located, delimits',
    peers⟩

end Definition
end Windowing
