import Windowing.Proofs.Sorting.Ties

/-!
Comparisons joined: a second one breaks the ties of a first. Two total preorders make one again, a
list sorted by it is sorted by the first, and where the first finds all elements equal it is sorted
by the second.
-/
namespace Windowing.Sorting

variable {α ε : Type}

def ties (_ _ : α) : Except ε Ordering := .ok .eq

def thenBy (major minor : α → α → Except ε Ordering) (x y : α) : Except ε Ordering := do
  match ← major x y with
  | .eq => minor x y
  | o => .ok o

/-- Of two comparisons that may be absent; if both are, so is the joined one. -/
def join : (major minor : Option (α → α → Except ε Ordering)) → Option (α → α → Except ε Ordering)
  | none, none => none
  | some p, none => some p
  | none, some o => some o
  | some p, some o => some (thenBy p (thenBy o ties))

variable {major minor : α → α → Except ε Ordering} {on : α → Prop} {x y : α}

theorem thenBy_eq_ok_iff {o : Ordering} : thenBy major minor x y = .ok o ↔
    major x y = .ok .eq ∧ minor x y = .ok o ∨ o ≠ .eq ∧ major x y = .ok o := by
  simp only [thenBy]
  cases major x y with
  | error e => simp [bind, Except.bind]
  | ok p => cases p <;> cases o <;> simp [bind, Except.bind]

theorem thenBy_ties (cmp : α → α → Except ε Ordering) : thenBy cmp ties = cmp := by
  funext x y
  simp only [thenBy]
  cases cmp x y with
  | error e => rfl
  | ok o => cases o <;> rfl

/-- An absent comparison finds all elements equal. -/
theorem join_getD (partitionBy orderBy : Option (α → α → Except ε Ordering)) :
    (join partitionBy orderBy).getD ties = thenBy (partitionBy.getD ties) (orderBy.getD ties) := by
  cases partitionBy with
  | none => cases orderBy <;> rfl
  | some p =>
    cases orderBy with
    | none => exact (thenBy_ties p).symm
    | some o => rw [join, Option.getD_some, thenBy_ties, Option.getD_some, Option.getD_some]

theorem notAfter_major (h : NotAfter (thenBy major minor) x y) : NotAfter major x y := by
  rcases h with rfl | h | h
  · exact .refl _
  · rcases thenBy_eq_ok_iff.mp h with ⟨tie, -⟩ | ⟨-, h⟩
    · exact .of_eq tie
    · exact Before.notAfter h
  · rcases thenBy_eq_ok_iff.mp h with ⟨tie, -⟩ | ⟨distinct, -⟩
    · exact .of_eq tie
    · exact absurd rfl distinct

theorem notAfter_minor (h : NotAfter (thenBy major minor) x y) (tie : tied major x y = true) :
    NotAfter minor x y := by
  have tie := tied_eq_true_iff.mp tie
  rcases h with rfl | h | h
  · exact .refl _
  · rcases thenBy_eq_ok_iff.mp h with ⟨-, h⟩ | ⟨-, h⟩
    · exact Before.notAfter h
    · rw [tie] at h
      cases h
  · rcases thenBy_eq_ok_iff.mp h with ⟨-, h⟩ | ⟨distinct, -⟩
    · exact .of_eq h
    · exact absurd rfl distinct

namespace Total

theorem ties : Total (ties : α → α → Except ε Ordering) on := by
  constructor
  · constructor
    · intro x y o _ _ h
      obtain rfl := Except.ok.inj h
      rfl
    · intro x y z _ _ _ _ _
      exact .of_eq rfl
  · intro x y _ _
    exact ⟨.eq, rfl⟩

/-- Not after in the joined comparison is before in the first, or equal in it and not after in the
second. -/
theorem notAfter_thenBy_iff (first : Total major on) (second : Total minor on) (hx : on x) :
    NotAfter (Sorting.thenBy major minor) x y ↔ Before major x y ∨ tied major x y = true ∧
    NotAfter minor x y := by
  constructor
  · intro h
    rcases (first.notAfter_iff hx).mp (notAfter_major h) with before | tie
    · exact .inl before
    · exact .inr ⟨tie, notAfter_minor h tie⟩
  · rintro (before | ⟨tie, h⟩)
    · exact .inr (.inl (thenBy_eq_ok_iff.mpr (.inr ⟨by decide, before⟩)))
    · have tie := tied_eq_true_iff.mp tie
      rcases (second.notAfter_iff hx).mp h with before | tie'
      · exact .inr (.inl (thenBy_eq_ok_iff.mpr (.inl ⟨tie, before⟩)))
      · exact .of_eq (thenBy_eq_ok_iff.mpr (.inl ⟨tie, tied_eq_true_iff.mp tie'⟩))

theorem thenBy (first : Total major on) (second : Total minor on) :
    Total (Sorting.thenBy major minor) on := by
  refine ⟨⟨?_, ?_⟩, ?_⟩
  · intro x y o hx hy h
    apply thenBy_eq_ok_iff.mpr
    rcases thenBy_eq_ok_iff.mp h with ⟨tie, h⟩ | ⟨decided, h⟩
    · exact .inl ⟨first.consistent.swap hx hy tie, second.consistent.swap hx hy h⟩
    · exact .inr ⟨by cases o <;> simp_all, first.consistent.swap hx hy h⟩
  · intro x y z hx hy hz left right
    rw [first.notAfter_thenBy_iff second hx] at left ⊢
    rw [first.notAfter_thenBy_iff second hy] at right
    rcases left with before | ⟨tie, left⟩
    · refine .inl (first.consistent.before_of_before_of_notAfter hx hy hz before ?_)
      rcases right with before' | ⟨tie', -⟩
      · exact before'.notAfter
      · exact .of_eq (tied_eq_true_iff.mp tie')
    · rcases right with before | ⟨tie', right⟩
      · refine .inl (first.consistent.before_of_notAfter_of_before hx hy hz ?_ before)
        exact .of_eq (tied_eq_true_iff.mp tie)
      · exact .inr ⟨first.tied_trans hx hy hz tie tie', second.consistent.trans hx hy hz left right⟩
  · intro x y hx hy
    obtain ⟨o, decided⟩ := first.answers hx hy
    obtain ⟨p, refined⟩ := second.answers hx hy
    by_cases tie : o = .eq
    · exact ⟨p, thenBy_eq_ok_iff.mpr (.inl ⟨tie ▸ decided, refined⟩)⟩
    · exact ⟨o, thenBy_eq_ok_iff.mpr (.inr ⟨tie, decided⟩)⟩

end Total

theorem Sorted.of_thenBy {xs : List α} (sorted : Sorted (thenBy major minor) xs) :
    Sorted major xs :=
  sorted.imp notAfter_major

theorem Sorted.second_of_thenBy {xs : List α} (sorted : Sorted (thenBy major minor) xs)
    (tie : ∀ x ∈ xs, ∀ y ∈ xs, tied major x y = true) : Sorted minor xs :=
  sorted.imp_of_mem fun hx hy notAfter => notAfter_minor notAfter (tie _ hx _ hy)

end Windowing.Sorting
