import Windowing.Proofs.Sorting.Merge
import Windowing.Sorting.Queue

/-!
Merging many sorted lists. Queues stand in a heap by their heads and then by their numbers; the head
taken next goes strictly before all of the queues with smaller numbers, so taking it is a stable
rearrangement of the queues' elements in the order of the numbers.
-/
namespace Windowing.Sorting

variable {α β ε : Type} {n : Nat} {cmp : α → α → Except ε Ordering} {on : α → Prop}

namespace Queue

def items (q : Queue α) : List α := q.head :: q.tail

/-- The first queue need not stand behind the second. -/
def Leads (cmp : α → α → Except ε Ordering) (p q : Queue α) : Prop :=
  Before cmp p.head q.head ∨ NotAfter cmp p.head q.head ∧ p.number ≤ q.number

theorem Leads.notAfter {p q : Queue α} (h : p.Leads cmp q) : NotAfter cmp p.head q.head :=
  h.elim Before.notAfter And.left

theorem Leads.before {p q : Queue α} (h : p.Leads cmp q) (later : q.number < p.number) :
    Before cmp p.head q.head :=
  h.resolve_right fun level => absurd level.2 (Nat.not_le_of_lt later)

theorem Leads.trans (laws : Consistent cmp on) {p q r : Queue α} (hp : on p.head) (hq : on q.head)
    (hr : on r.head) (first : p.Leads cmp q) (second : q.Leads cmp r) : p.Leads cmp r := by
  rcases first with first | ⟨first, low⟩
  · exact .inl (laws.before_of_before_of_notAfter hp hq hr first second.notAfter)
  · rcases second with second | ⟨second, high⟩
    · exact .inl (laws.before_of_notAfter_of_before hp hq hr first second)
    · exact .inr ⟨laws.trans hp hq hr first second, Nat.le_trans low high⟩

theorem before_ends (laws : Consistent cmp on) {p q : Queue α} (hp : on p.head) (hq : on q.head) :
    Ends cmp on (fun b => if b then p.Leads cmp q else q.Leads cmp p) (p.before cmp q) := by
  rw [Queue.before]
  cases h : cmp p.head q.head with
  | error e => exact ⟨p.head, q.head, hp, hq, h⟩
  | ok o =>
    have back := laws.swap hp hq h
    cases o with
    | lt => exact .inl h
    | gt => exact .inl back
    | eq =>
      by_cases low : p.number < q.number
      · simpa [bind, Except.bind, pure, Except.pure, low, Leads] using
          Or.inr ⟨.of_eq h, Nat.le_of_lt low⟩
      · simpa [bind, Except.bind, pure, Except.pure, low, Leads] using
          Or.inr ⟨.of_eq back, Nat.not_lt.mp low⟩

end Queue

section heap

variable {n : Nat}

def IsChild (k c : Nat) : Prop := c = 2 * k + 1 ∨ c = 2 * k + 2

theorem IsChild.lt {k c : Nat} (h : IsChild k c) : k < c := by
  unfold IsChild at h
  omega

theorem IsChild.parent_unique {j k c : Nat} (hj : IsChild j c) (hk : IsChild k c) : j = k := by
  unfold IsChild at hj hk
  omega

/-- No queue from position `low` on stands behind one below it. -/
def HeapFrom (cmp : α → α → Except ε Ordering) (heap : Vector (Queue α) n) (low : Nat) : Prop :=
  ∀ k c (hk : k < n) (hc : c < n), low ≤ k → IsChild k c → heap[k].Leads cmp heap[c]

/-- A heap but for position `hole`, whose children do not stand before its parent. -/
structure HeapExcept (cmp : α → α → Except ε Ordering) (heap : Vector (Queue α) n)
    (low hole : Nat) :
    Prop where
  others : ∀ k c (hk : k < n) (hc : c < n), low ≤ k → k ≠ hole → IsChild k c →
    heap[k].Leads cmp heap[c]
  grand : ∀ k c (hk : k < n) (hc : c < n), low ≤ k → IsChild k hole → IsChild hole c →
    heap[k].Leads cmp heap[c]

theorem HeapExcept.heapFrom {heap : Vector (Queue α) n} {low hole : Nat}
    (h : HeapExcept cmp heap low hole)
    (here : ∀ c (hk : hole < n) (hc : c < n), IsChild hole c → heap[hole].Leads cmp heap[c]) :
    HeapFrom cmp heap low := by
  intro k c hk hc above child
  by_cases same : k = hole
  · subst same
    exact here c hk hc child
  · exact h.others k c hk hc above same child

/-- The hole moves down to the child that goes before it and before the other child. -/
theorem HeapExcept.swap {heap : Vector (Queue α) n} {low hole child : Nat}
    (h : HeapExcept cmp heap low hole) (hi : hole < n) (hc : child < n) (above : low ≤ hole)
    (isChild : IsChild hole child) (leads : heap[child].Leads cmp heap[hole])
    (least : ∀ c (hc' : c < n), IsChild hole c → c ≠ child → heap[child].Leads cmp heap[c]) :
    HeapExcept cmp (heap.swap hole child) low child := by
  have far := isChild.lt
  refine ⟨fun k c hk hc' low' other below => ?_, fun k c hk hc' low' parent below => ?_⟩
  · have apart := below.lt
    simp only [Vector.getElem_swap]
    by_cases here : k = hole
    · subst here
      rw [if_pos rfl, if_neg (by omega)]
      by_cases same : c = child
      · subst same
        rw [if_pos rfl]
        exact leads
      · rw [if_neg same]
        exact least c hc' below same
    · rw [if_neg here, if_neg other]
      by_cases grandchild : c = hole
      · subst grandchild
        rw [if_pos rfl]
        exact h.grand k child hk hc low' below isChild
      · rw [if_neg grandchild]
        rw [if_neg fun same : c = child => here (IsChild.parent_unique (same ▸ below) isChild)]
        exact h.others k c hk hc' low' here below
  · obtain rfl := parent.parent_unique isChild
    have deep := below.lt
    simp only [Vector.getElem_swap, if_true]
    rw [if_neg (by omega), if_neg (by omega)]
    exact h.others child c hc hc' (by omega) (by omega) below

/-- A child that goes before the other one changes places with the hole, if it goes before that, and
then moves on; otherwise the hole is in its place. -/
theorem descend_ends (laws : Consistent cmp on) {heap : Vector (Queue α) n} {low hole child : Nat}
    (inside : ∀ q ∈ heap.toList, on q.head) (h : HeapExcept cmp heap low hole) (hi : hole < n)
    (hc : child < n) (above : low ≤ hole) (isChild : IsChild hole child)
    (least : ∀ c (hc' : c < n), IsChild hole c → c ≠ child → heap[child].Leads cmp heap[c])
    {next : Except ε (Vector (Queue α) n)}
    (deeper : (∀ q ∈ (heap.swap hole child).toList, on q.head) →
      HeapExcept cmp (heap.swap hole child) low child →
      Ends cmp on (fun r => r.toList.Perm (heap.swap hole child).toList ∧
        HeapFrom cmp r low) next) :
    Ends cmp on (fun r => r.toList.Perm heap.toList ∧ HeapFrom cmp r low) (do
      if ← heap[child].before cmp heap[hole] then next else return heap) := by
  have on_ : ∀ k (hk : k < n), on heap[k].head := by
    intro k hk
    exact inside _ (by simp)
  apply (Queue.before_ends laws (on_ child hc) (on_ hole hi)).bind
  intro b leads
  have moved : (heap.swap hole child).toList.Perm heap.toList := (Vector.swap_perm hi hc).toList
  cases b with
  | true =>
    refine (deeper (fun q hq => inside q (moved.mem_iff.mp hq))
      (h.swap hi hc above isChild leads least)).weaken fun r done => ?_
    exact ⟨done.1.trans moved, done.2⟩
  | false =>
    refine ⟨.refl _, h.heapFrom fun c hk hc' below => ?_⟩
    by_cases same : c = child
    · subst same
      exact leads
    · exact .trans laws (on_ hole hi) (on_ child hc) (on_ c hc') leads (least c hc' below same)

theorem moveDown_ends (laws : Consistent cmp on) {heap : Vector (Queue α) n} {low hole : Nat}
    (inside : ∀ q ∈ heap.toList, on q.head) (above : low ≤ hole)
    (h : HeapExcept cmp heap low hole) :
    Ends cmp on (fun r => r.toList.Perm heap.toList ∧ HeapFrom cmp r low)
      (moveDown cmp heap hole) := by
  induction heap, hole using moveDown.induct with
  | case1 heap hole two ih =>
    have onLeft : on heap[2 * hole + 1].head := inside _ (by simp)
    have onRight : on heap[2 * hole + 2].head := inside _ (by simp)
    have descend : ∀ child (bound : child < n), IsChild hole child →
        (∀ c (hc : c < n), IsChild hole c → c ≠ child → heap[child].Leads cmp heap[c]) →
        Ends cmp on (fun r => r.toList.Perm heap.toList ∧ HeapFrom cmp r low) (do
          if ← heap[child].before cmp heap[hole] then moveDown cmp (heap.swap hole child) child
          else return heap) := by
      intro child bound isChild least
      apply descend_ends laws inside h (by omega) bound above isChild least
      intro inside' rest
      exact ih child isChild.lt bound inside' (by have := isChild.lt; omega) rest
    rw [moveDown, dif_pos two]
    apply (Queue.before_ends laws onRight onLeft).bind
    intro second leads
    generalize chosen : (if second = true then (⟨2 * hole + 2, _⟩ : { c : Nat // hole < c ∧ c < n })
      else ⟨2 * hole + 1, _⟩) = choice
    obtain ⟨child, below, bound⟩ := choice
    have value := congrArg Subtype.val chosen
    cases second with
    | true =>
      obtain rfl : 2 * hole + 2 = child := value
      apply descend (2 * hole + 2) two (.inr rfl)
      intro c hc below other
      obtain rfl := below.resolve_right other
      exact leads
    | false =>
      obtain rfl : 2 * hole + 1 = child := value
      apply descend (2 * hole + 1) (by omega) (.inl rfl)
      intro c hc below other
      obtain rfl := below.resolve_left other
      exact leads
  | case2 heap hole two one =>
    rw [moveDown, dif_neg two, dif_pos one]
    refine descend_ends laws inside h (by omega) one above (.inl rfl) (fun c hc below other => ?_)
      fun _ rest => ⟨.refl _, rest.heapFrom fun c hk hc below => ?_⟩
    · obtain rfl := below.resolve_left other
      exact absurd hc two
    · unfold IsChild at below
      omega
  | case3 heap hole two one =>
    rw [moveDown, dif_neg two, dif_neg one]
    refine ⟨.refl _, h.heapFrom fun c hk hc below => ?_⟩
    unfold IsChild at below
    omega

theorem moveAllDown_ends (laws : Consistent cmp on) {heap : Vector (Queue α) n} {i : Nat}
    (inside : ∀ q ∈ heap.toList, on q.head) (h : HeapFrom cmp heap i) :
    Ends cmp on (fun r => r.toList.Perm heap.toList ∧ HeapFrom cmp r 0)
      (moveAllDown cmp heap i) := by
  induction i generalizing heap with
  | zero => exact ⟨.refl _, h⟩
  | succ i ih =>
    have hole : HeapExcept cmp heap i i :=
      ⟨fun k c hk hc low other below => h k c hk hc (by omega) below,
        fun k c _ _ low parent _ => by have := parent.lt; omega⟩
    rw [moveAllDown]
    apply (moveDown_ends laws inside (Nat.le_refl i) hole).bind
    intro next done
    refine (ih (fun q hq => inside q (done.1.mem_iff.mp hq)) fun k c hk hc low below =>
      done.2 k c hk hc (by omega) below).weaken fun r whole => ?_
    exact ⟨whole.1.trans done.1, whole.2⟩

theorem HeapFrom.root_leads (laws : Consistent cmp on) {heap : Vector (Queue α) (n + 1)}
    (inside : ∀ q ∈ heap.toList, on q.head) (h : HeapFrom cmp heap 0) (k : Nat) (hk : k < n + 1)
    (below : 0 < k) : heap[0].Leads cmp heap[k] := by
  have on_ : ∀ j (hj : j < n + 1), on heap[j].head := by
    intro j hj
    exact inside _ (by simp)
  induction k using Nat.strongRecOn with
  | ind k ih =>
    have parent : IsChild ((k - 1) / 2) k := by
      rw [IsChild]
      omega
    have bound : (k - 1) / 2 < n + 1 := by omega
    have last := h ((k - 1) / 2) k bound hk (Nat.zero_le _) parent
    by_cases top : (k - 1) / 2 = 0
    · simp only [top] at last
      exact last
    · exact .trans laws (on_ 0 (by omega)) (on_ _ bound) (on_ k hk)
        (ih ((k - 1) / 2) (by omega) bound (by omega)) last

end heap

structure Queue.Ordered (cmp : α → α → Except ε Ordering) (on : α → Prop) (q : Queue α) : Prop where
  on_items : ∀ x ∈ q.items, on x
  sorted : Sorted cmp q.items

theorem Queue.Ordered.on_head {q : Queue α} (h : q.Ordered cmp on) : on q.head :=
  h.on_items q.head List.mem_cons_self

/-- What is left of a queue after its head. -/
theorem Queue.Ordered.rest {number : Nat} {x y : α} {tail : List α}
    (h : (⟨number, x, y :: tail⟩ : Queue α).Ordered cmp on) :
    (⟨number, y, tail⟩ : Queue α).Ordered cmp on :=
  ⟨fun z hz => h.on_items z (List.mem_cons_of_mem _ hz), h.sorted.tail⟩

def elements (qs : List (Queue α)) : List α := qs.flatMap Queue.items

theorem elements_append (xs ys : List (Queue α)) :
    elements (xs ++ ys) = elements xs ++ elements ys :=
  List.flatMap_append

theorem elements_cons (q : Queue α) (qs : List (Queue α)) :
    elements (q :: qs) = q.head :: (q.tail ++ elements qs) := rfl

/-- Taking the head of the leading queue out of all elements. -/
theorem Sorts.takeHead (laws : Consistent cmp on) {before after : List (Queue α)} {q : Queue α}
    {xs : List α} (ordered : ∀ p ∈ before ++ q :: after, p.Ordered cmp on)
    (numbers : (before ++ q :: after).Pairwise (·.number < ·.number))
    (leads : ∀ p ∈ before ++ after, q.Leads cmp p)
    (rest : Sorts cmp on (elements before ++ (q.tail ++ elements after)) xs) :
    Sorts cmp on (elements (before ++ q :: after)) (q.head :: xs) := by
  have here := ordered q (by simp)
  have earlier : ∀ p ∈ before, p.Ordered cmp on := by
    intro p hp
    exact ordered p (by simp [hp])
  have later : ∀ p ∈ after, p.Ordered cmp on := by
    intro p hp
    exact ordered p (by simp [hp])
  have on_before : ∀ x ∈ elements before, on x := by
    intro x hx
    obtain ⟨p, hp, hx⟩ := List.mem_flatMap.mp hx
    exact (earlier p hp).on_items x hx
  have strictly : ∀ x ∈ elements before, Before cmp q.head x := by
    intro x hx
    obtain ⟨p, hp, hx⟩ := List.mem_flatMap.mp hx
    have number := (List.pairwise_append.mp numbers).2.2 p hp q (by simp)
    exact laws.before_all here.on_head (earlier p hp).on_items (earlier p hp).sorted
      ((leads p (by simp [hp])).before number) x hx
  rw [elements_append, elements_cons]
  refine .cons (.takeLater laws on_before here.on_head strictly) (fun x hx => ?_) rest
  rcases List.mem_append.mp hx with hx | hx
  · exact (strictly x hx).notAfter
  rcases List.mem_append.mp hx with hx | hx
  · exact List.rel_of_pairwise_cons here.sorted hx
  · obtain ⟨p, hp, hx⟩ := List.mem_flatMap.mp hx
    exact laws.notAfter_all here.on_head (later p hp).on_items (later p hp).sorted
      (leads p (by simp [hp])).notAfter x hx

theorem toList_eq_head_cons (heap : Vector β (n + 1)) (top : 0 < n + 1) :
    heap.toList = heap[0] :: heap.toList.tail := by
  obtain ⟨x, xs, h⟩ := List.exists_cons_of_length_pos (l := heap.toList) (by simp)
  have first : heap.toList[0]? = some x := by rw [h]; rfl
  rw [Vector.getElem?_toList, Vector.getElem?_eq_getElem (by omega)] at first
  rw [h, Option.some.inj first]
  rfl

theorem toList_set_zero (heap : Vector β (n + 1)) (top : 0 < n + 1) (x : β) :
    (heap.set 0 x).toList = x :: heap.toList.tail := by
  rw [Vector.toList_set, toList_eq_head_cons heap top]
  rfl

/-- The last element fills the place of the first one. -/
theorem tail_perm_pop (heap : Vector β (n + 1)) (top : 0 < n + 1) (last : n < n + 1) :
    heap.toList.tail.Perm ((heap.set 0 heap[n]).pop : Vector β n).toList := by
  rw [Vector.toList_pop, toList_set_zero]
  have ending : heap.toList.getLast? = some heap[n] := by
    rw [List.getLast?_eq_getElem?, Vector.getElem?_toList]
    simp
  rw [toList_eq_head_cons heap top] at ending
  cases more : heap.toList.tail with
  | nil => exact .refl []
  | cons y ys =>
    rw [more, List.getLast?_cons_cons, List.getLast?_eq_some_getLast (by simp)] at ending
    have whole := List.dropLast_concat_getLast (l := y :: ys) (by simp)
    rw [Option.some.inj ending] at whole
    rw [List.dropLast_cons_of_ne_nil (by simp)]
    rw [← whole]
    simp

/-- The last queue fills the place of the first one. -/
theorem HeapFrom.fill {n : Nat} {heap : Vector (Queue α) (n + 1)} (h : HeapFrom cmp heap 0)
    (top : 0 < n + 1) (last : n < n + 1) :
    HeapExcept cmp ((heap.set 0 heap[n]).pop : Vector (Queue α) n) 0 0 := by
  refine ⟨fun k c hk hc low other below => ?_, fun k c _ _ _ parent _ => ?_⟩
  · have := below.lt
    simp only [Vector.getElem_pop, Vector.getElem_set]
    rw [if_neg (by omega), if_neg (by omega)]
    exact h k c (by omega) (by omega) low below
  · have := parent.lt
    omega

/-- Another queue stands in the place of the first one. -/
theorem HeapFrom.replace {n : Nat} {heap : Vector (Queue α) (n + 1)} (h : HeapFrom cmp heap 0)
    (top : 0 < n + 1) (q : Queue α) : HeapExcept cmp (heap.set 0 q) 0 0 := by
  refine ⟨fun k c hk hc low other below => ?_, fun k c _ _ _ parent _ => ?_⟩
  · have := below.lt
    simp only [Vector.getElem_set]
    rw [if_neg (by omega), if_neg (by omega)]
    exact h k c hk hc low below
  · have := parent.lt
    omega

/-- The queue on top leads all others, wherever it stands among them in the order of the numbers. -/
theorem HeapFrom.top_among (laws : Consistent cmp on) {n : Nat} {heap : Vector (Queue α) (n + 1)}
    (h : HeapFrom cmp heap 0) (top : 0 < n + 1) (inside : ∀ q ∈ heap.toList, on q.head)
    {qs : List (Queue α)} (perm : qs.Perm heap.toList) :
    ∃ before after, qs = before ++ heap[0] :: after ∧ (before ++ after).Perm heap.toList.tail ∧
      ∀ p ∈ before ++ after, heap[0].Leads cmp p := by
  have heads := toList_eq_head_cons heap top
  obtain ⟨before, after, rfl⟩ := List.append_of_mem (perm.mem_iff.mpr (heads ▸ List.mem_cons_self))
  rw [heads] at perm
  have others : (before ++ after).Perm heap.toList.tail :=
    (List.perm_middle.symm.trans perm).cons_inv
  refine ⟨before, after, rfl, others, ?_⟩
  intro p hp
  obtain ⟨k, hk, rfl⟩ := List.mem_iff_getElem.mp (others.mem_iff.mp hp)
  have bound : k + 1 < n + 1 := by simpa using hk
  simpa using h.root_leads laws inside (k + 1) bound (Nat.succ_pos k)

theorem takeHeads_ends (laws : Consistent cmp on) (count : Nat) {n : Nat}
    {heap : Vector (Queue α) n} {qs : List (Queue α)} (perm : qs.Perm heap.toList)
    (ordered : ∀ q ∈ qs, q.Ordered cmp on) (numbers : qs.Pairwise (·.number < ·.number))
    (isHeap : HeapFrom cmp heap 0) (enough : (elements qs).length ≤ count) :
    Ends cmp on (Sorts cmp on (elements qs)) (takeHeads cmp count heap) := by
  induction count generalizing n qs with
  | zero =>
    have none : elements qs = [] := List.length_eq_zero_iff.mp (by omega)
    rw [none]
    exact ⟨.refl [], .nil⟩
  | succ count ih =>
    cases n with
    | zero =>
      have none : qs = [] := List.length_eq_zero_iff.mp (by simpa using perm.length_eq)
      subst none
      exact ⟨.refl [], .nil⟩
    | succ n =>
      have inside : ∀ q ∈ heap.toList, on q.head := by
        intro q hq
        exact (ordered q (perm.mem_iff.mpr hq)).on_head
      have top : 0 < n + 1 := Nat.succ_pos n
      have last : n < n + 1 := Nat.lt_succ_self n
      obtain ⟨before, after, rfl, others, leads⟩ := isHeap.top_among laws top inside perm
      rw [takeHeads]
      dsimp only
      generalize heap[0] = q at *
      obtain ⟨number, x, tail⟩ := q
      cases tail with
      | nil =>
        dsimp only
        have left : ∀ q ∈ before ++ after, q.Ordered cmp on := fun q hq => ordered q (by
          rcases List.mem_append.mp hq with hq | hq <;> simp [hq])
        have filled := others.trans (tail_perm_pop heap top last)
        refine (moveDown_ends laws (fun q hq => (left q (filled.mem_iff.mpr hq)).on_head)
          (Nat.le_refl 0) (isHeap.fill top last)).bind fun next done => ?_
        have fewer : (elements (before ++ after)).length ≤ count := by
          rw [elements_append, elements_cons] at enough
          rw [elements_append]
          simp only [List.length_append, List.length_cons, List.nil_append] at enough ⊢
          omega
        refine (ih (filled.trans done.1.symm) left
          (numbers.sublist (List.sublist_cons_self _ _ |>.append_left _)) done.2 fewer).bind
            fun r rest => ?_
        rw [elements_append] at rest
        exact .takeHead laws ordered numbers leads rest
      | cons y tail =>
        dsimp only
        have next : ∀ q ∈ before ++ ⟨number, y, tail⟩ :: after, q.Ordered cmp on := by
          intro q hq
          rcases List.mem_append.mp hq with hq | hq
          · exact ordered q (by simp [hq])
          rcases List.mem_cons.mp hq with rfl | hq
          · exact (ordered ⟨number, x, y :: tail⟩ (by simp)).rest
          · exact ordered q (by simp [hq])
        have replaced : (before ++ ⟨number, y, tail⟩ :: after).Perm
            (heap.set 0 ⟨number, y, tail⟩).toList := by
          rw [toList_set_zero]
          exact List.perm_middle.trans (others.cons _)
        refine (moveDown_ends laws (fun q hq => (next q (replaced.mem_iff.mpr hq)).on_head)
          (Nat.le_refl 0) (isHeap.replace top ⟨number, y, tail⟩)).bind fun heap' done => ?_
        have fewer : (elements (before ++ ⟨number, y, tail⟩ :: after)).length ≤ count := by
          rw [elements_append, elements_cons] at enough ⊢
          simp only [List.length_append, List.length_cons] at enough ⊢
          omega
        refine (ih (replaced.trans done.1.symm) next
          (by simpa [List.pairwise_append] using numbers) done.2 fewer).bind fun r rest => ?_
        rw [elements_append, elements_cons] at rest
        exact .takeHead laws ordered numbers leads rest

def Queue.of? : List α × Nat → Option (Queue α)
  | (x :: xs, number) => some ⟨number, x, xs⟩
  | ([], _) => none

theorem queues_eq (lists : List (List α)) : queues lists = lists.zipIdx.filterMap Queue.of? := by
  rw [queues]
  congr

theorem queues_from (lists : List (List α)) (k : Nat) :
    elements ((lists.zipIdx k).filterMap Queue.of?) = lists.flatten ∧
      ((lists.zipIdx k).filterMap Queue.of?).Pairwise (·.number < ·.number) ∧
      ∀ q ∈ (lists.zipIdx k).filterMap Queue.of?, k ≤ q.number ∧ q.items ∈ lists := by
  induction lists generalizing k with
  | nil => simp [elements]
  | cons xs lists ih =>
    obtain ⟨whole, numbers, each⟩ := ih (k + 1)
    rw [List.zipIdx_cons]
    cases xs with
    | nil =>
      rw [List.filterMap_cons_none rfl, List.flatten_cons, List.nil_append]
      refine ⟨whole, numbers, fun q hq => ?_⟩
      have := each q hq
      exact ⟨by omega, List.mem_cons_of_mem _ this.2⟩
    | cons x xs =>
      have first : Queue.of? (x :: xs, k) = some ⟨k, x, xs⟩ := rfl
      rw [List.filterMap_cons_some first, List.flatten_cons, elements_cons, whole]
      refine ⟨rfl, List.pairwise_cons.mpr ⟨fun q hq => ?_, numbers⟩, fun q hq => ?_⟩
      · exact (each q hq).1
      · rcases List.mem_cons.mp hq with rfl | hq
        · exact ⟨Nat.le_refl k, List.mem_cons_self⟩
        · have := each q hq
          exact ⟨by omega, List.mem_cons_of_mem _ this.2⟩

theorem mergeAll_ends (laws : Consistent cmp on) {lists : List (List α)}
    (inside : ∀ xs ∈ lists, ∀ x ∈ xs, on x) (sorted : ∀ xs ∈ lists, Sorted cmp xs) :
    Ends cmp on (Sorts cmp on lists.flatten) (mergeAll cmp lists) := by
  obtain ⟨whole, numbers, each⟩ := queues_from lists 0
  rw [← queues_eq] at whole numbers each
  have ordered : ∀ q ∈ queues lists, q.Ordered cmp on := by
    intro q hq
    exact ⟨inside _ (each q hq).2, sorted _ (each q hq).2⟩
  unfold mergeAll
  dsimp only
  have none : HeapFrom cmp (queues lists).toArray.toVector ((queues lists).toArray.size / 2) := by
    intro k c hk hc low below
    unfold IsChild at below
    omega
  refine (moveAllDown_ends laws (fun q hq => (ordered q (by simpa using hq)).on_head) none).bind
    fun heap done => ?_
  rw [← whole]
  exact takeHeads_ends laws _ (by simpa using done.1.symm) ordered numbers done.2 (Nat.le_refl _)

end Windowing.Sorting
