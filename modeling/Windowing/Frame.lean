import Windowing.Defect

/-!
A frame is a view on the sorted buffer for the row being computed: the partition's start, the rows
`[first, last)` the functions see, and where the current row and its peers stand. Both updates are
guarded, and a refused one leaves the frame as it was. These two guards are assertions of a debug
build: one without assertions makes every update. The other guards stand in all builds.
-/
namespace Windowing

structure Frame where
  buffer : Array Row
  partitionStart : Nat
  first : Nat
  last : Nat
  current : Nat
  peerStart : Nat
  peerGroup : Nat
  deriving DecidableEq

namespace Frame

/-- The frame `[first, last)` of a partition that starts with it. -/
def ofRange (buffer : Array Row) (first last : Nat) : Except Defect Frame :=
  if first ≤ last ∧ last ≤ buffer.size then
    .ok ⟨buffer, first, first, last, first, first, 0⟩
  else .error (.frameOutsideBuffer first last buffer.size)

def withBounds (f : Frame) (partitionStart first last : Nat) : Except Defect Frame :=
  if partitionStart ≤ first ∧ first ≤ last ∧ last ≤ f.buffer.size then
    .ok { f with partitionStart, first, last }
  else .error (.disorderedBounds partitionStart first last f.buffer.size)

def withCurrent (f : Frame) (current peerStart peerGroup : Nat) : Except Defect Frame :=
  if f.partitionStart ≤ peerStart ∧ peerStart ≤ current then
    .ok { f with current, peerStart, peerGroup }
  else .error (.currentRowOutsidePartition f.partitionStart peerStart current)

def size (f : Frame) : Nat := f.last - f.first

def isEmpty (f : Frame) : Bool := f.size == 0

def rows (f : Frame) : List Row := (f.buffer.extract f.first f.last).toList

/-- Offsets count from the start of the frame. -/
def row (f : Frame) (offset : Nat) : Except Defect Row :=
  if offset < f.size then rowAt f.buffer (f.first + offset)
  else .error (.offsetOutsideFrame offset f.size)

/-- What the guards of both updates keep: the frame lies in the buffer, after the partition's
start. -/
structure Valid (f : Frame) : Prop where
  start_le_first : f.partitionStart ≤ f.first
  first_le_last : f.first ≤ f.last
  last_le_size : f.last ≤ f.buffer.size

theorem length_rows {f : Frame} (valid : f.Valid) : f.rows.length = f.size := by
  have := valid.last_le_size
  simp only [rows, size, Array.length_toList, Array.size_extract]
  omega

theorem getElem?_rows {f : Frame} (valid : f.Valid) {offset : Nat} (inside : offset < f.size) :
    f.rows[offset]? = f.buffer[f.first + offset]? := by
  have := valid.last_le_size
  simp only [size] at inside
  simp only [rows, Array.getElem?_toList, Array.getElem?_extract]
  rw [if_pos (by omega)]

theorem row_eq_ok_iff {f : Frame} (valid : f.Valid) {offset : Nat} {row : Row} :
    f.row offset = .ok row ↔ f.rows[offset]? = some row := by
  unfold Frame.row
  by_cases inside : offset < f.size
  · rw [if_pos inside, rowAt_eq_ok_iff, getElem?_rows valid inside]
  · rw [if_neg inside, List.getElem?_eq_none (by rw [length_rows valid]; omega)]
    simp

end Frame
end Windowing
