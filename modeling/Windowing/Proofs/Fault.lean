import Windowing.Defect

/-!
How a guarded computation goes on and how it stops. `StopsOnly` bounds the defects at which it may
stop and says nothing about its errors.
-/
namespace Windowing

variable {α β ε δ : Type}

@[simp] theorem ok_bind (a : α) (f : α → Except ε β) : (Except.ok a >>= f) = f a := rfl

@[simp] theorem error_bind (e : ε) (f : α → Except ε β) : (Except.error e >>= f) = .error e := rfl

theorem bind_eq_ok_iff {m : Except ε α} {f : α → Except ε β} {b : β} :
    (m >>= f) = .ok b ↔ ∃ a, m = .ok a ∧ f a = .ok b := by
  cases m <;> simp

theorem bind_eq_error_iff {m : Except ε α} {f : α → Except ε β} {e : ε} :
    (m >>= f) = .error e ↔ m = .error e ∨ ∃ a, m = .ok a ∧ f a = .error e := by
  cases m <;> simp

theorem map_eq_ok_iff {f : α → β} {m : Except ε α} {b : β} :
    m.map f = .ok b ↔ ∃ a, m = .ok a ∧ f a = b := by
  cases m <;> simp [Except.map]

theorem map_eq_error_iff {f : α → β} {m : Except ε α} {e : ε} :
    m.map f = .error e ↔ m = .error e := by
  cases m <;> simp [Except.map]

theorem exists_error_iff {m : Except ε α} : (∃ e, m = .error e) ↔ ¬ ∃ a, m = .ok a := by
  cases m <;> simp

theorem map_inj_iff {f : α → β} (injective : ∀ a b, f a = f b → a = b) {m n : Except ε α} :
    m.map f = n.map f ↔ m = n := by
  cases m with
  | error e => cases n <;> simp [Except.map]
  | ok a =>
    cases n with
    | error e => simp [Except.map]
    | ok b =>
      simp only [Except.map, Except.ok.injEq]
      exact ⟨injective a b, congrArg f⟩

theorem mapError_eq_ok_iff {f : ε → δ} {m : Except ε α} {a : α} :
    m.mapError f = .ok a ↔ m = .ok a := by
  cases m with
  | error e => exact ⟨nofun, nofun⟩
  | ok b =>
    constructor
    · intro h
      rw [Except.ok.inj h]
    · intro h
      rw [Except.ok.inj h]
      rfl

theorem mapError_eq_error_iff {f : ε → δ} {m : Except ε α} {e : δ} :
    m.mapError f = .error e ↔ ∃ e', m = .error e' ∧ e = f e' := by
  cases m with
  | ok a =>
    constructor
    · intro h
      cases h
    · rintro ⟨e', h, -⟩
      cases h
  | error e' =>
    constructor
    · intro h
      exact ⟨e', rfl, (Except.error.inj h).symm⟩
    · rintro ⟨_, same, rfl⟩
      rw [Except.error.inj same]
      rfl

/-- A cell among the first `width`, looked up in rows that agree there. -/
theorem Row.cellAt_congr {row other : Row} {column width : Nat}
    (agree : row.take width = other.take width) (inside : column < width) :
    row.cellAt column = other.cellAt column := by
  have found : row[column]? = other[column]? := by
    rw [← List.getElem?_take_of_lt inside, agree, List.getElem?_take_of_lt inside]
  unfold Row.cellAt
  rw [found]
  cases absent : other[column]? with
  | some cell => rfl
  | none =>
    rw [absent] at found
    have short := List.getElem?_eq_none_iff.mp found
    have short' := List.getElem?_eq_none_iff.mp absent
    rw [List.take_of_length_le (by omega), List.take_of_length_le (by omega)] at agree
    rw [agree]

theorem mapM_eq_ok {f : α → Except ε β} {xs : List α} {ys : List β} (h : xs.mapM f = .ok ys) :
    ys.length = xs.length ∧ ∀ (k : Nat) x, xs[k]? = some x → ∃ y, f x = .ok y ∧
    ys[k]? = some y := by
  induction xs generalizing ys with
  | nil =>
    cases h
    exact ⟨rfl, fun k x absent => by simp at absent⟩
  | cons x xs ih =>
    rw [List.mapM_cons] at h
    obtain ⟨y, first, h⟩ := bind_eq_ok_iff.mp h
    obtain ⟨rest, others, done⟩ := bind_eq_ok_iff.mp h
    cases done
    obtain ⟨length, each⟩ := ih others
    refine ⟨by rw [List.length_cons, List.length_cons, length], fun k z found => ?_⟩
    cases k with
    | zero =>
      obtain rfl := Option.some.inj found
      exact ⟨y, first, rfl⟩
    | succ k => exact each k z found

/-- The failure is that of the first element that fails. -/
theorem mapM_eq_error {f : α → Except ε β} {xs : List α} {e : ε} (h : xs.mapM f = .error e) :
    ∃ (k : Nat) (x : α), xs[k]? = some x ∧ f x = .error e ∧
      ∀ j, j < k → ∀ y, xs[j]? = some y → ∃ b, f y = .ok b := by
  induction xs with
  | nil => cases h
  | cons x xs ih =>
    rw [List.mapM_cons] at h
    cases first : f x with
    | error e' =>
      rw [first] at h
      obtain rfl := Except.error.inj h
      exact ⟨0, x, rfl, first, fun j before => absurd before (Nat.not_lt_zero j)⟩
    | ok b =>
      rw [first, ok_bind] at h
      cases rest : xs.mapM f with
      | ok bs =>
        rw [rest] at h
        cases h
      | error e' =>
        rw [rest] at h
        obtain rfl := Except.error.inj h
        obtain ⟨k, y, member, fails, earlier⟩ := ih rest
        refine ⟨k + 1, y, member, fails, fun j before z found => ?_⟩
        cases j with
        | zero =>
          obtain rfl := Option.some.inj found
          exact ⟨b, first⟩
        | succ j => exact earlier j (by omega) z found

theorem mapM_of_error {f : α → Except ε β} {xs : List α} {k : Nat} {x : α} {e : ε}
    (found : xs[k]? = some x) (fails : f x = .error e)
    (earlier : ∀ j, j < k → ∀ y, xs[j]? = some y → ∃ b, f y = .ok b) :
    xs.mapM f = .error e := by
  induction xs generalizing k with
  | nil => simp at found
  | cons y xs ih =>
    rw [List.mapM_cons]
    cases k with
    | zero =>
      obtain rfl := Option.some.inj found
      rw [fails, error_bind]
    | succ k =>
      obtain ⟨b, first⟩ := earlier 0 (Nat.succ_pos k) y rfl
      rw [first, ok_bind, ih found fun j before z member => earlier (j + 1) (by omega) z member,
        error_bind]

theorem exists_mapM_eq_ok_iff {f : α → Except ε β} {xs : List α} :
    (∃ ys, xs.mapM f = .ok ys) ↔ ∀ x ∈ xs, ∃ y, f x = .ok y := by
  constructor
  · rintro ⟨ys, done⟩ x member
    obtain ⟨k, found⟩ := List.mem_iff_getElem?.mp member
    obtain ⟨y, value, -⟩ := (mapM_eq_ok done).2 k x found
    exact ⟨y, value⟩
  · intro each
    cases done : xs.mapM f with
    | ok ys => exact ⟨ys, rfl⟩
    | error e =>
      obtain ⟨k, x, found, fails, -⟩ := mapM_eq_error done
      obtain ⟨y, value⟩ := each x (List.mem_of_getElem? found)
      rw [fails] at value
      cases value

/-- A function whose results are made from those of another one. -/
theorem mapM_of_ok {γ : Type} {f : α → Except ε β} {g : α → Except ε γ} {k : β → γ} {xs : List α}
    {ys : List β} (done : xs.mapM f = .ok ys) (each : ∀ x y, f x = .ok y → g x = .ok (k y)) :
    xs.mapM g = .ok (ys.map k) := by
  induction xs generalizing ys with
  | nil =>
    cases done
    rfl
  | cons x xs ih =>
    rw [List.mapM_cons] at done
    obtain ⟨y, first, done⟩ := bind_eq_ok_iff.mp done
    obtain ⟨rest, others, done⟩ := bind_eq_ok_iff.mp done
    obtain rfl := Except.ok.inj done
    rw [List.mapM_cons, each x y first, ok_bind, ih others]
    rfl

theorem mapM_congr {f g : α → Except ε β} {xs : List α} (same : ∀ x ∈ xs, f x = g x) :
    xs.mapM f = xs.mapM g := by
  induction xs with
  | nil => rfl
  | cons x xs ih =>
    obtain ⟨first, rest⟩ := List.forall_mem_cons.mp same
    rw [List.mapM_cons, List.mapM_cons, first, ih rest]

theorem mapM_eq_map {f : α → Except ε β} {g : α → β} {xs : List α}
    (each : ∀ x ∈ xs, f x = .ok (g x)) :
    xs.mapM f = .ok (xs.map g) := (mapM_congr each).trans List.mapM_pure

theorem foldlM_ok_of_each {f : β → α → Except ε β} {xs : List α}
    (each : ∀ x ∈ xs, ∀ b, ∃ next, f b x = .ok next) (b : β) :
    ∃ last, xs.foldlM f b = .ok last := by
  induction xs generalizing b with
  | nil => exact ⟨b, rfl⟩
  | cons x xs ih =>
    obtain ⟨first, rest⟩ := List.forall_mem_cons.mp each
    obtain ⟨next, step⟩ := first b
    rw [List.foldlM_cons, step, ok_bind]
    exact ih rest next

/-- The failure is that of the first step that fails. -/
theorem foldlM_eq_error {f : β → α → Except ε β} {xs : List α} {b : β} {e : ε}
    (fails : xs.foldlM f b = .error e) :
    ∃ before x after last, xs = before ++ x :: after ∧ before.foldlM f b = .ok last ∧
      f last x = .error e := by
  induction xs generalizing b with
  | nil => cases fails
  | cons x xs ih =>
    rw [List.foldlM_cons] at fails
    cases step : f b x with
    | error e' =>
      rw [step] at fails
      obtain rfl := Except.error.inj fails
      exact ⟨[], x, xs, b, rfl, rfl, step⟩
    | ok next =>
      rw [step, ok_bind] at fails
      obtain ⟨before, y, after, last, rfl, reached, stops⟩ := ih fails
      exact ⟨x :: before, y, after, last, rfl,
        by rw [List.foldlM_cons, step, ok_bind, reached], stops⟩

namespace Guarded

@[simp] theorem mapError_ok (f : ε → δ) (a : α) : mapError f (.ok a) = .ok a := rfl

@[simp] theorem mapError_error (f : ε → δ) (e : Fault ε) :
    (mapError f (.error e) : Guarded δ α) = .error (e.map f) := rfl

def StopsOnly (allowed : Defect → Prop) (m : Guarded ε α) : Prop :=
  ∀ d, m = .error (.defect d) → allowed d

theorem mapError_eq_ok_iff {f : ε → δ} {m : Guarded ε α} {a : α} :
    mapError f m = .ok a ↔ m = .ok a := by
  cases m <;> simp

theorem mapError_eq_defect_iff {f : ε → δ} {m : Guarded ε α} {d : Defect} :
    mapError f m = .error (.defect d) ↔ m = .error (.defect d) := by
  cases m with
  | ok a => simp
  | error e => cases e <;> simp [Fault.map]

theorem ofDefect_eq_ok_iff {x : Except Defect α} {a : α} :
    (ofDefect x : Guarded ε α) = .ok a ↔ x = .ok a := by
  cases x <;> simp

theorem ofDefect_eq_error_iff {x : Except Defect α} {fault : Fault ε} :
    (ofDefect x : Guarded ε α) = .error fault ↔ ∃ d, x = .error d ∧ fault = .defect d := by
  cases x <;> simp [eq_comm]

theorem ofError_eq_ok_iff {x : Except ε α} {a : α} :
    (ofError x : Guarded ε α) = .ok a ↔ x = .ok a := by
  cases x <;> simp

theorem ofError_eq_error_iff {x : Except ε α} {fault : Fault ε} :
    (ofError x : Guarded ε α) = .error fault ↔ ∃ e, x = .error e ∧ fault = .error e := by
  cases x <;> simp [eq_comm]

/-- A step that may only fail stops nowhere that the computation before it does not. -/
theorem bind_ofError_eq_defect_iff {m : Guarded ε α} {f : α → Except ε β} {d : Defect} :
    (m >>= fun a => ofError (f a)) = .error (.defect d) ↔ m = .error (.defect d) := by
  cases m with
  | error e => simp
  | ok a =>
    rw [ok_bind]
    cases f a <;> simp

namespace StopsOnly

variable {allowed : Defect → Prop}

theorem ok (a : α) : StopsOnly allowed (.ok a : Guarded ε α) := fun _ h => by cases h

theorem ofError (x : Except ε α) : StopsOnly allowed (Guarded.ofError x) := by
  intro d h
  cases x <;> cases h

theorem ofDefect {x : Except Defect α} (h : ∀ d, x = .error d → allowed d) :
    StopsOnly allowed (Guarded.ofDefect x : Guarded ε α) := by
  intro d stops
  cases x with
  | ok a => cases stops
  | error d' =>
    cases stops
    exact h d rfl

theorem bind {m : Guarded ε α} {f : α → Guarded ε β} (first : StopsOnly allowed m)
    (rest : ∀ a, m = .ok a → StopsOnly allowed (f a)) : StopsOnly allowed (m >>= f) := by
  intro d stops
  cases m with
  | ok a => exact rest a rfl d stops
  | error e =>
    cases stops
    exact first d rfl

theorem mapError (f : ε → δ) {m : Guarded ε α} (h : StopsOnly allowed m) :
    StopsOnly allowed (Guarded.mapError f m) := by
  intro d stops
  cases m with
  | ok a => cases stops
  | error e =>
    cases e with
    | error e => cases stops
    | defect d' =>
      cases stops
      exact h d rfl

end StopsOnly
end Guarded
end Windowing
