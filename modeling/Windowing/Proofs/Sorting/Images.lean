import Windowing.Proofs.Fault
import Windowing.Sorting.Chunked

/-!
Sorting looks at elements through the comparison only. So it commutes with every map that the
comparison goes through, down to the failure that comes first, and comparisons that agree on a list
sort it the same.
-/
namespace Windowing

section Mapped

variable {α α' β β' ε : Type} {h : β → β'}

/-- Two computations go on in step. -/
theorem bind_map_eq {m' : Except ε α'} {m : Except ε α} {g : α → α'} {k' : α' → Except ε β'}
    {k : α → Except ε β} (first : m' = m.map g) (rest : ∀ a, k' (g a) = (k a).map h) :
    (m' >>= k') = (m >>= k).map h := by
  subst first
  cases m with
  | error e => rfl
  | ok a => exact rest a

theorem bind_same_eq {m : Except ε α} {k' : α → Except ε β'} {k : α → Except ε β}
    (rest : ∀ a, k' a = (k a).map h) : (m >>= k') = (m >>= k).map h := by
  cases m with
  | error e => rfl
  | ok a => exact rest a

end Mapped

namespace Sorting

variable {α β ε : Type}

def along (cmp : α → α → Except ε Ordering) (f : β → α) (x y : β) : Except ε Ordering :=
  cmp (f x) (f y)

variable (cmp : α → α → Except ε Ordering) (f : β → α)

theorem less_along (x y : β) : less cmp (f x) (f y) = less (along cmp f) x y := rfl

theorem insertLast_map (x : β) (ys : List β) :
    insertLast cmp (f x) (ys.map f) = (insertLast (along cmp f) x ys).map (List.map f) := by
  induction ys with
  | nil => rfl
  | cons y ys ih =>
    refine bind_same_eq fun before => ?_
    cases before with
    | true => exact bind_map_eq ih fun _ => rfl
    | false => rfl

theorem insertEach_map (done xs : List β) :
    (xs.map f).foldlM (fun done x => insertLast cmp x done) (done.map f) =
      (xs.foldlM (fun done x => insertLast (along cmp f) x done) done).map (List.map f) := by
  induction xs generalizing done with
  | nil => rfl
  | cons x xs ih =>
    rw [List.map_cons, List.foldlM_cons, List.foldlM_cons]
    exact bind_map_eq (insertLast_map cmp f x done) ih

theorem insertAll_map (sorted xs : List β) :
    insertAll cmp (sorted.map f) (xs.map f) =
      (insertAll (along cmp f) sorted xs).map (List.map f) := by
  rw [insertAll, insertAll, ← List.map_reverse]
  refine bind_map_eq (insertEach_map cmp f sorted.reverse xs) fun reversed => ?_
  rw [← List.map_reverse]
  rfl

theorem byInsertion_map (xs : List β) :
    byInsertion cmp (xs.map f) = (byInsertion (along cmp f) xs).map (List.map f) :=
  insertAll_map cmp f [] xs

theorem mergeFront_map (xs ys : List β) :
    mergeFront cmp (xs.map f) (ys.map f) = (mergeFront (along cmp f) xs ys).map (List.map f) := by
  fun_induction mergeFront (along cmp f) xs ys with
  | case1 ys =>
    rw [List.map_nil, mergeFront]
    rfl
  | case2 x xs =>
    rw [List.map_cons, List.map_nil, mergeFront]
    rfl
  | case3 x xs y ys first second =>
    rw [List.map_cons, List.map_cons, mergeFront]
    refine bind_same_eq fun before => ?_
    cases before with
    | true => exact bind_map_eq first fun _ => rfl
    | false => exact bind_map_eq second fun _ => rfl

theorem mergeBack_map (xs ys : List β) :
    mergeBack cmp (xs.map f) (ys.map f) = (mergeBack (along cmp f) xs ys).map (List.map f) := by
  fun_induction mergeBack (along cmp f) xs ys with
  | case1 ys =>
    rw [List.map_nil, mergeBack]
    rfl
  | case2 x xs =>
    rw [List.map_cons, List.map_nil, mergeBack]
    rfl
  | case3 x xs y ys first second =>
    rw [List.map_cons, List.map_cons, mergeBack]
    refine bind_same_eq fun before => ?_
    cases before with
    | true => exact bind_map_eq first fun _ => rfl
    | false => exact bind_map_eq second fun _ => rfl

theorem map_comm {γ δ : Type} {m' : Except ε α} {m : Except ε β} {g : β → α} {k' : α → γ}
    {k : β → δ} {h : δ → γ} (same : m' = m.map g) (commutes : ∀ a, k' (g a) = h (k a)) :
    m'.map k' = (m.map k).map h := by
  subst same
  cases m with
  | error e => rfl
  | ok a => exact congrArg Except.ok (commutes a)

theorem merge_map (xs ys : List β) :
    merge cmp (xs.map f) (ys.map f) = (merge (along cmp f) xs ys).map (List.map f) := by
  simp only [merge, List.length_map]
  split
  · exact mergeFront_map cmp f xs ys
  · rw [← List.map_reverse, ← List.map_reverse]
    exact map_comm (mergeBack_map cmp f xs.reverse ys.reverse) fun zs => List.map_reverse.symm

theorem mergeEnds_map (m n steps : Nat) (xs ys us vs : List β) :
    mergeEnds cmp m n steps (xs.map f) (ys.map f) (us.map f) (vs.map f) =
      (mergeEnds (along cmp f) m n steps xs ys us vs).map (List.map f) := by
  have between : ∀ xs ys us vs : List β,
      (.ok ((xs.map f).take ((xs.map f).length + (us.map f).length - m) ++
      (ys.map f).take ((ys.map f).length + (vs.map f).length - n)) : Except ε (List α)) =
      .ok ((xs.take (xs.length + us.length - m) ++ ys.take (ys.length + vs.length - n)).map f) := by
    intro xs ys us vs
    simp only [List.length_map, List.map_append, List.map_take]
  induction steps generalizing xs ys us vs with
  | zero => exact between xs ys us vs
  | succ steps ih =>
    cases xs with
    | nil => exact between [] ys us vs
    | cons x xs =>
    cases ys with
    | nil => exact between (x :: xs) [] us vs
    | cons y ys =>
    cases us with
    | nil => exact between (x :: xs) (y :: ys) [] vs
    | cons u us =>
    cases vs with
    | nil => exact between (x :: xs) (y :: ys) (u :: us) []
    | cons v vs =>
    refine bind_same_eq fun early => bind_same_eq fun late => ?_
    refine bind_map_eq (g := List.map f) ?_ fun r => ?_
    · rw [← ih]
      cases early <;> cases late <;> rfl
    · cases early <;> cases late <;> exact congrArg Except.ok (by simp)

theorem mergeBoth_map (xs ys : List β) :
    mergeBoth cmp (xs.map f) (ys.map f) = (mergeBoth (along cmp f) xs ys).map (List.map f) := by
  simp only [mergeBoth, List.length_map, ← List.map_reverse]
  exact mergeEnds_map cmp f _ _ _ xs ys xs.reverse ys.reverse

theorem sortFour_map (a b c d : β) :
    sortFour cmp (f a) (f b) (f c) (f d) = (sortFour (along cmp f) a b c d).map (List.map f) := by
  have pair : ∀ (swapped : Bool) (x y : β), (if swapped then (f y, f x) else (f x, f y)) =
      Prod.map f f (if swapped then (y, x) else (x, y)) := by
    intro swapped x y
    cases swapped <;> rfl
  unfold sortFour
  refine bind_same_eq fun first => ?_
  simp only [pair]
  generalize (if first then (b, a) else (a, b)) = ab
  obtain ⟨a, b⟩ := ab
  refine bind_same_eq fun second => ?_
  generalize (if second then (d, c) else (c, d)) = cd
  obtain ⟨c, d⟩ := cd
  refine bind_same_eq fun least => bind_same_eq fun greatest => ?_
  cases least <;> cases greatest
  all_goals
    refine bind_same_eq fun swapped => ?_
    cases swapped <;> rfl

theorem sortBeginning_map (short : Bool) (xs : List β) :
    sortBeginning cmp short (xs.map f) =
      (sortBeginning (along cmp f) short xs).map (List.map f) := by
  match xs with
  | [] | [_] | [_, _] | [_, _, _] => rfl
  | a :: b :: c :: d :: _ =>
    cases short with
    | true => rfl
    | false => exact sortFour_map cmp f a b c d

theorem sortShort_map (xs : List β) :
    sortShort cmp (xs.map f) = (sortShort (along cmp f) xs).map (List.map f) := by
  simp only [sortShort, List.length_map, ← List.map_take, ← List.map_drop]
  refine bind_map_eq (sortBeginning_map cmp f _ _) fun left => ?_
  refine bind_map_eq (sortBeginning_map cmp f _ _) fun right => ?_
  rw [List.length_map, List.length_map]
  refine bind_map_eq (insertAll_map cmp f _ _) fun left => ?_
  exact bind_map_eq (insertAll_map cmp f _ _) fun right => mergeBoth_map cmp f left right

def Run.map (run : Run β) : Run α := ⟨run.items.map f, run.sorted⟩

theorem Run.length_items_map (run : Run β) : (run.map f).items.length = run.items.length :=
  List.length_map f

def Pending.map (p : Pending β) : Pending α := ⟨p.run.map f, p.power⟩

theorem Pending.power_map (p : Pending β) : (p.map f).power = p.power := rfl

theorem continued_map (descending : Bool) (x : β) (ys : List β) :
    continued cmp descending (f x) (ys.map f) = continued (along cmp f) descending x ys := by
  induction ys generalizing x with
  | nil => rfl
  | cons y ys ih =>
    simp only [List.map_cons, continued, ih]
    rfl

theorem leadingRun_map (xs : List β) : leadingRun cmp (xs.map f) = leadingRun (along cmp f) xs := by
  match xs with
  | [] | [_] => rfl
  | x :: y :: r =>
    simp only [List.map_cons, leadingRun, continued_map]
    rfl

/-- Ways to sort what is left for later, of which one sorts the images. -/
inductive Alike : Option (List α → Except ε (List α)) → Option (List β → Except ε (List β)) → Prop
  | none : Alike none none
  | some {sort sort'} : (∀ xs : List β, sort (xs.map f) = (sort' xs).map (List.map f)) →
      Alike (some sort) (some sort')

section Later

variable {f} {later : Option (List α → Except ε (List α))}
  {later' : Option (List β → Except ε (List β))} (alike : Alike f later later')

include alike

theorem nextRun_map (good : Nat) (xs : List β) :
    nextRun cmp later good (xs.map f) = (nextRun (along cmp f) later' good xs).map (Run.map f) := by
  have isSome : later.isSome = later'.isSome := by cases alike <;> rfl
  have rest : ∀ p : Nat × Bool,
      (if good ≤ p.1 then
        .ok ⟨if p.2 then ((xs.map f).take p.1).reverse else (xs.map f).take p.1, true⟩
      else if later.isSome then .ok ⟨(xs.map f).take good, false⟩
      else do return ⟨← sortShort cmp ((xs.map f).take shortLength), true⟩ : Except ε (Run α)) =
      (if good ≤ p.1 then
        .ok ⟨if p.2 then (xs.take p.1).reverse else xs.take p.1, true⟩
      else if later'.isSome then .ok ⟨xs.take good, false⟩
      else do return ⟨← sortShort (along cmp f) (xs.take shortLength), true⟩ : Except ε (Run β)).map
        (Run.map f) := by
    rintro ⟨length, descending⟩
    simp only [isSome, ← List.map_take, ← List.map_reverse]
    split
    · cases descending <;> rfl
    · split
      · rfl
      · exact bind_map_eq (sortShort_map cmp f _) fun _ => rfl
  rw [nextRun, nextRun, List.length_map, leadingRun_map]
  by_cases long : good ≤ xs.length
  · simp only [if_pos long]
    exact bind_same_eq rest
  · simp only [if_neg long]
    exact rest (0, false)

theorem settle_map (run : Run β) :
    (run.map f).settle later = (run.settle later').map (List.map f) := by
  obtain ⟨items, sorted⟩ := run
  cases alike with
  | none => cases sorted <;> rfl
  | some same =>
    cases sorted with
    | true => rfl
    | false => exact same items

theorem joinRuns_map (room : Nat) (a b : Run β) :
    joinRuns cmp later room (a.map f) (b.map f) =
      (joinRuns (along cmp f) later' room a b).map (Run.map f) := by
  simp only [joinRuns, Run.map, List.length_map]
  split
  · exact congrArg Except.ok (by simp [Run.map])
  · refine bind_map_eq (settle_map alike a) fun xs => bind_map_eq (settle_map alike b) fun ys => ?_
    exact bind_map_eq (merge_map cmp f xs ys) fun _ => rfl

theorem collapse_map (room power : Nat) (pending : List (Pending β)) (run : Run β) :
    collapse cmp later room power (pending.map (Pending.map f)) (run.map f) =
      (collapse (along cmp f) later' room power pending run).map
        (Prod.map (List.map (Pending.map f)) (Run.map f)) := by
  induction pending generalizing run with
  | nil => rfl
  | cons p pending ih =>
    rw [List.map_cons, collapse, collapse, Pending.power_map]
    split
    · exact bind_map_eq (joinRuns_map cmp alike room p.run run) ih
    · rfl

theorem joinFrom_map (n : Nat) (pending : List (Pending β)) (run : Run β) (start : Nat)
    (rest : List β) :
    joinFrom cmp later n (pending.map (Pending.map f)) (run.map f) start (rest.map f) =
      (joinFrom (along cmp f) later' n pending run start rest).map (Run.map f) := by
  fun_induction joinFrom (along cmp f) later' n pending run start rest with
  | case1 pending run start =>
    rw [List.map_nil, joinFrom]
    exact map_comm (collapse_map cmp alike _ _ pending run) fun _ => rfl
  | case2 pending run start x rest ih =>
    rw [List.map_cons, joinFrom, ← List.map_cons]
    refine bind_map_eq (nextRun_map cmp alike _ _) fun next => ?_
    simp only [Run.length_items_map, ← List.map_drop]
    refine bind_map_eq (collapse_map cmp alike _ _ pending run) fun r => ?_
    exact ih next r.1 r.2

theorem byRuns_map (xs : List β) :
    byRuns cmp later (xs.map f) = (byRuns (along cmp f) later' xs).map (List.map f) := by
  rw [byRuns, byRuns, List.length_map]
  refine bind_map_eq (nextRun_map cmp alike _ xs) fun first => ?_
  rw [Run.length_items_map, ← List.map_drop]
  exact bind_map_eq (joinFrom_map cmp alike _ [] first 0 _) (settle_map alike)

end Later

theorem getElem_cast_map (xs : List β) (i : Fin xs.length) :
    getElem (xs.map f) (i.cast (List.length_map f).symm) (Fin.isLt _) = f (getElem xs i i.isLt) :=
  List.getElem_map f

theorem median_map (xs : List β) (a b c : Fin xs.length) :
    median cmp (xs.map f) (a.cast (List.length_map f).symm) (b.cast (List.length_map f).symm)
      (c.cast (List.length_map f).symm) =
      (median (along cmp f) xs a b c).map (Fin.cast (List.length_map f).symm) := by
  simp only [median, getElem_cast_map f, less_along]
  refine bind_same_eq fun x => bind_same_eq fun y => ?_
  split
  · refine bind_same_eq fun z => ?_
    split <;> rfl
  · rfl

theorem representative_map (xs : List β) (start length : Nat) (enough : 8 ≤ length)
    (inside : start + length ≤ xs.length) (inside' : start + length ≤ (xs.map f).length) :
    representative cmp (xs.map f) start length enough inside' =
      (representative (along cmp f) xs start length enough inside).map
        (Fin.cast (List.length_map f).symm) := by
  induction length using Nat.strongRecOn generalizing start with
  | ind length ih =>
    rw [representative, representative]
    split
    · refine bind_map_eq (ih _ (by omega) _ _ _ _) fun a => ?_
      refine bind_map_eq (ih _ (by omega) _ _ _ _) fun b => ?_
      refine bind_map_eq (ih _ (by omega) _ _ _ _) fun c => ?_
      exact median_map cmp f xs a b c
    · exact median_map cmp f xs ⟨start, _⟩ ⟨start + 4 * (length / 8), _⟩
        ⟨start + 7 * (length / 8), _⟩

theorem sift_map {test : α → Except ε Bool} {test' : β → Except ε Bool}
    (same : ∀ x, test (f x) = test' x) (xs : List β) :
    sift test (xs.map f) = (sift test' xs).map (Prod.map (List.map f) (List.map f)) := by
  induction xs with
  | nil => rfl
  | cons x xs ih =>
    rw [List.map_cons, sift, sift, same]
    refine bind_same_eq fun passes => bind_map_eq ih fun p => ?_
    cases passes <;> rfl

theorem siftAround_map {test : α → Except ε Bool} {test' : β → Except ε Bool}
    (same : ∀ x, test (f x) = test' x) (xs : List β) (pivot : Fin xs.length) (passes : Bool) :
    siftAround (xs.map f) (pivot.cast (List.length_map f).symm) passes test =
      (siftAround xs pivot passes test').map (Prod.map (List.map f) (List.map f)) := by
  simp only [siftAround, Fin.val_cast, ← List.map_take, ← List.map_drop, getElem_cast_map f]
  refine bind_map_eq (sift_map f same _) fun p => bind_map_eq (sift_map f same _) fun q => ?_
  cases passes <;> exact congrArg Except.ok (by simp)

/-- Parting a list at any value and sorting the parts, in step if sorting is. -/
theorem sortParts_map {sort : Option α → List α → Except ε (List α)}
    {sort' : Option β → List β → Except ε (List β)}
    (same : ∀ bound xs, sort (bound.map f) (xs.map f) = (sort' bound xs).map (List.map f))
    (xs : List β) (pivot : Fin xs.length) (middle : β) (bound : Option β) (repeated : Bool) :
    (do
      let (lesser, rest) ←
        if repeated then Except.ok ([], xs.map f)
        else siftAround (xs.map f) (pivot.cast (List.length_map f).symm) false fun x =>
          less cmp x (f middle)
      if lesser.isEmpty then
        let (equal, greater) ← siftAround (xs.map f) (pivot.cast (List.length_map f).symm) true
          fun x => (less cmp (f middle) x).map not
        return equal ++ (← sort none greater)
      else
        let rest ← sort (some (f middle)) rest
        return (← sort (bound.map f) lesser) ++ rest) =
      (do
        let (lesser, rest) ←
          if repeated then Except.ok ([], xs)
          else siftAround xs pivot false fun x => less (along cmp f) x middle
        if lesser.isEmpty then
          let (equal, greater) ← siftAround xs pivot true fun x =>
            (less (along cmp f) middle x).map not
          return equal ++ (← sort' none greater)
        else
          let rest ← sort' (some middle) rest
          return (← sort' bound lesser) ++ rest).map (List.map f) := by
  have equal : (do
      let (equal, greater) ← siftAround (xs.map f) (pivot.cast (List.length_map f).symm) true
        fun x => (less cmp (f middle) x).map not
      return equal ++ (← sort none greater)) =
      (do
        let (equal, greater) ← siftAround xs pivot true fun x =>
          (less (along cmp f) middle x).map not
        return equal ++ (← sort' none greater)).map (List.map f) := by
    refine bind_map_eq (siftAround_map f (fun x => rfl) xs pivot true) fun q => ?_
    exact bind_map_eq (same none q.2) fun greater => congrArg Except.ok List.map_append.symm
  cases repeated with
  | true => exact equal
  | false =>
    refine bind_map_eq (siftAround_map f (fun x => rfl) xs pivot false) fun p => ?_
    simp only [Prod.map, List.isEmpty_map]
    split
    · exact equal
    · refine bind_map_eq (same (some middle) p.2) fun rest => ?_
      exact bind_map_eq (same bound p.1) fun lesser => congrArg Except.ok List.map_append.symm

theorem byPartition_map (limit : Nat) (bound : Option β) (xs : List β) :
    byPartition cmp limit (bound.map f) (xs.map f) =
      (byPartition (along cmp f) limit bound xs).map (List.map f) := by
  induction limit generalizing bound xs with
  | zero =>
    simp only [byPartition, List.length_map]
    split
    · exact sortShort_map cmp f xs
    · exact byRuns_map cmp (.none (f := f)) xs
  | succ limit ih =>
    rw [byPartition, byPartition]
    by_cases short : xs.length ≤ shortLength
    · rw [dif_pos short, dif_pos (by rwa [List.length_map])]
      exact sortShort_map cmp f xs
    rw [dif_neg short, dif_neg (by rwa [List.length_map])]
    simp only [List.length_map]
    refine bind_map_eq (representative_map cmp f xs 0 xs.length _ _ _) fun pivot => ?_
    simp only [getElem_cast_map f]
    cases bound with
    | none => exact sortParts_map cmp f ih xs pivot _ none false
    | some b =>
      exact bind_same_eq fun repeated => sortParts_map cmp f ih xs pivot _ (some b) repeated

def Queue.map (q : Queue β) : Queue α := ⟨q.number, f q.head, q.tail.map f⟩

theorem Queue.before_map (p q : Queue β) :
    (p.map f).before cmp (q.map f) = p.before (along cmp f) q := rfl

/-- A queue goes down past one that goes before it. -/
theorem descend_map {n : Nat} (heap : Vector (Queue β) n) {i child : Nat} (inside : i < n)
    (below : child < n) {next : Except ε (Vector (Queue α) n)}
    {next' : Except ε (Vector (Queue β) n)} (deeper : next = next'.map (Vector.map (Queue.map f))) :
    (do if ← (heap.map (Queue.map f))[child].before cmp (heap.map (Queue.map f))[i] then next
        else return heap.map (Queue.map f)) =
      (do if ← heap[child].before (along cmp f) heap[i] then next' else return heap).map
        (Vector.map (Queue.map f)) := by
  rw [Vector.getElem_map, Vector.getElem_map, Queue.before_map]
  refine bind_same_eq fun before => ?_
  cases before with
  | true => exact deeper
  | false => rfl

theorem swap_map {n : Nat} (heap : Vector (Queue β) n) {i j : Nat} (hi : i < n) (hj : j < n) :
    (heap.map (Queue.map f)).swap i j = (heap.swap i j).map (Queue.map f) := by
  ext k hk
  all_goals
    simp only [Vector.getElem_swap, Vector.getElem_map]
    split
    · rfl
    · split <;> rfl

theorem moveDown_map {n : Nat} (heap : Vector (Queue β) n) (i : Nat) :
    moveDown cmp (heap.map (Queue.map f)) i =
      (moveDown (along cmp f) heap i).map (Vector.map (Queue.map f)) := by
  induction heap, i using moveDown.induct with
  | case1 heap i two ih =>
    rw [moveDown, moveDown, dif_pos two, dif_pos two, Vector.getElem_map, Vector.getElem_map,
      Queue.before_map]
    refine bind_same_eq fun second => ?_
    generalize (if second = true then (⟨2 * i + 2, _⟩ : { c : Nat // i < c ∧ c < n })
      else ⟨2 * i + 1, _⟩) = choice
    obtain ⟨child, below, bound⟩ := choice
    refine descend_map cmp f heap (Nat.lt_trans below bound) bound ?_
    rw [swap_map]
    exact ih child below bound
  | case2 heap i two one =>
    rw [moveDown, moveDown, dif_neg two, dif_neg two, dif_pos one, dif_pos one, swap_map]
    exact descend_map cmp f heap _ _ rfl
  | case3 heap i two one =>
    rw [moveDown, moveDown, dif_neg two, dif_neg two, dif_neg one, dif_neg one]
    rfl

theorem moveAllDown_map {n : Nat} (heap : Vector (Queue β) n) (i : Nat) :
    moveAllDown cmp (heap.map (Queue.map f)) i =
      (moveAllDown (along cmp f) heap i).map (Vector.map (Queue.map f)) := by
  induction i generalizing heap with
  | zero => rfl
  | succ i ih => exact bind_map_eq (moveDown_map cmp f heap i) ih

theorem takeHeads_map (count : Nat) {n : Nat} (heap : Vector (Queue β) n) :
    takeHeads cmp count (heap.map (Queue.map f)) =
      (takeHeads (along cmp f) count heap).map (List.map f) := by
  induction count generalizing n with
  | zero => rw [takeHeads, takeHeads]; rfl
  | succ count ih =>
    cases n with
    | zero => rfl
    | succ n =>
      have head : (heap.map (Queue.map f))[0] = heap[0].map f := Vector.getElem_map _ _
      have last : (heap.map (Queue.map f))[n] = heap[n].map f := Vector.getElem_map _ _
      rw [takeHeads, takeHeads, head, last]
      obtain ⟨number, x, tail⟩ := heap[0]
      cases tail with
      | nil =>
        rw [← Vector.map_set, ← Vector.map_pop]
        refine bind_map_eq (moveDown_map cmp f _ 0) fun heap => ?_
        exact bind_map_eq (ih heap) fun _ => rfl
      | cons y tail =>
        have rest : (heap.map (Queue.map f)).set 0 (Queue.map f ⟨number, y, tail⟩) =
            (heap.set 0 ⟨number, y, tail⟩).map (Queue.map f) := Vector.map_set.symm
        refine bind_map_eq ((congrArg (moveDown cmp · 0) rest).trans (moveDown_map cmp f _ 0))
          fun heap => ?_
        exact bind_map_eq (ih heap) fun _ => rfl

theorem queues_map (lists : List (List β)) :
    queues (lists.map (List.map f)) = (queues lists).map (Queue.map f) := by
  rw [queues, queues, List.zipIdx_map, List.filterMap_map, List.map_filterMap]
  refine congrArg (lists.zipIdx.filterMap ·) (funext fun p => ?_)
  obtain ⟨xs, number⟩ := p
  cases xs <;> rfl

theorem mergeAll_map (lists : List (List β)) :
    mergeAll cmp (lists.map (List.map f)) = (mergeAll (along cmp f) lists).map (List.map f) := by
  rw [mergeAll, mergeAll, queues_map, ← List.map_flatten, List.length_map]
  have taken : ∀ {m n : Nat} (heap : Vector (Queue α) m) (heap' : Vector (Queue β) n), m = n →
      heap.toArray = heap'.toArray.map (Queue.map f) → ∀ count,
      (moveAllDown cmp heap (m / 2) >>= takeHeads cmp count) =
        (moveAllDown (along cmp f) heap' (n / 2) >>= takeHeads (along cmp f) count).map
          (List.map f) := by
    intro m n heap heap' length same count
    subst length
    obtain rfl : heap = heap'.map (Queue.map f) := Vector.toArray_inj.mp same
    exact bind_map_eq (moveAllDown_map cmp f heap' (m / 2)) (takeHeads_map cmp f count)
  exact taken _ _ (List.length_map _) List.map_toArray.symm _

theorem stable_map (xs : List β) :
    stable cmp (xs.map f) = (stable (along cmp f) xs).map (List.map f) := by
  simp only [stable, List.length_map]
  split
  · exact byInsertion_map cmp f xs
  split
  · exact byRuns_map cmp (.none (f := f)) xs
  · refine byRuns_map cmp (.some fun ys => ?_) xs
    rw [List.length_map]
    exact byPartition_map cmp f _ none ys

theorem cutWithin_map (size fuel : Nat) (xs : List β) :
    cutWithin size fuel (xs.map f) = (cutWithin size fuel xs).map (List.map f) := by
  induction fuel generalizing xs with
  | zero => rfl
  | succ fuel ih =>
    rw [cutWithin, cutWithin, ← List.map_take, ← List.map_drop, ih, List.isEmpty_map]
    split <;> rfl

theorem chunked_map (chunks : Nat) (xs : List β) :
    chunked cmp chunks (xs.map f) = (chunked (along cmp f) chunks xs).map (List.map f) := by
  rw [chunked, chunked, cut, cut, List.length_map, cutWithin_map]
  refine bind_map_eq (g := List.map (List.map f)) ?_ (mergeAll_map cmp f)
  generalize cutWithin _ _ xs = pieces
  induction pieces with
  | nil => rfl
  | cons piece pieces ih =>
    rw [List.map_cons, List.mapM_cons, List.mapM_cons]
    exact bind_map_eq (stable_map cmp f piece) fun sorted => bind_map_eq ih fun rest => rfl

theorem sort_map (minimum workers : Nat) (pooled : Bool) (xs : List β) :
    sort cmp minimum workers pooled (xs.map f) =
      (sort (along cmp f) minimum workers pooled xs).map (List.map f) := by
  simp only [sort, List.length_map]
  split
  · exact chunked_map cmp f _ xs
  · exact stable_map cmp f xs

/-- Comparisons that agree on the elements of a list sort it the same, or fail the same way. -/
theorem sort_congr {cmp cmp' : α → α → Except ε Ordering} {xs : List α}
    (same : ∀ x ∈ xs, ∀ y ∈ xs, cmp x y = cmp' x y) (minimum workers : Nat) (pooled : Bool) :
    sort cmp minimum workers pooled xs = sort cmp' minimum workers pooled xs := by
  have alike : along cmp (Subtype.val (p := (· ∈ xs))) = along cmp' Subtype.val := by
    funext x y
    exact same x.1 x.2 y.1 y.2
  have whole := sort_map cmp Subtype.val minimum workers pooled xs.attach
  rw [alike, ← sort_map cmp' Subtype.val, List.attach_map_subtype_val] at whole
  exact whole

end Sorting
end Windowing
