import Windowing.Sorting.Insertion

/-!
Merging many sorted lists. They stand in queues, and the queues in a heap: a tree in which no queue
goes before the one above it. The queue on top gives its head and moves down to its place again.
Heads that are equal go by the number of the queue.
-/
namespace Windowing.Sorting

structure Queue (α : Type) where
  number : Nat
  head : α
  tail : List α

variable {α ε : Type} (cmp : α → α → Except ε Ordering)

def Queue.before (p q : Queue α) : Except ε Bool := do
  match ← cmp p.head q.head with
  | .eq => return p.number < q.number
  | o => return o = .lt

/-- Moves a queue down as long as one below it goes before it. Below position `i` are the positions
`2 * i + 1` and `2 * i + 2`. -/
def moveDown {n : Nat} (heap : Vector (Queue α) n) (i : Nat) : Except ε (Vector (Queue α) n) :=
  if two : 2 * i + 2 < n then do
    let second ← heap[2 * i + 2].before cmp heap[2 * i + 1]
    let ⟨child, below, bound⟩ : { c : Nat // i < c ∧ c < n } :=
      if second then ⟨2 * i + 2, by omega⟩ else ⟨2 * i + 1, by omega⟩
    if ← heap[child].before cmp heap[i] then moveDown (heap.swap i child) child else return heap
  else if one : 2 * i + 1 < n then do
    if ← heap[2 * i + 1].before cmp heap[i] then return heap.swap i (2 * i + 1) else return heap
  else .ok heap
termination_by n - i

/-- Moves the queues before position `i` down, the last of them first. -/
def moveAllDown {n : Nat} (heap : Vector (Queue α) n) : (i : Nat) → Except ε (Vector (Queue α) n)
  | 0 => .ok heap
  | i + 1 => do moveAllDown (← moveDown cmp heap i) i

/-- Takes up to `count` heads. An empty queue leaves its place to the last one. -/
def takeHeads : (count : Nat) → {n : Nat} → Vector (Queue α) n → Except ε (List α)
  | 0, _, _ => .ok []
  | _, 0, _ => .ok []
  | count + 1, n + 1, heap => do
    let ⟨number, x, tail⟩ := heap[0]
    match tail with
    | y :: tail =>
      let heap ← moveDown cmp (heap.set 0 ⟨number, y, tail⟩) 0
      return x :: (← takeHeads count heap)
    | [] =>
      let rest : Vector (Queue α) n := (heap.set 0 heap[n]).pop
      let heap ← moveDown cmp rest 0
      return x :: (← takeHeads count heap)

/-- The queues of the lists that are not empty. -/
def queues (lists : List (List α)) : List (Queue α) :=
  lists.zipIdx.filterMap fun
    | (x :: xs, number) => some ⟨number, x, xs⟩
    | ([], _) => none

def mergeAll (lists : List (List α)) : Except ε (List α) := do
  let all := (queues lists).toArray
  let heap ← moveAllDown cmp all.toVector (all.size / 2)
  takeHeads cmp lists.flatten.length heap

end Windowing.Sorting
