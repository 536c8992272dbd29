import Windowing.Proofs.Operator.History

/-!
What an operator answers once it was closed. A closing leaves the operator as it was made, but for
the first sender that an accepted message named. From then on it answers as one newly made does, and
puts that sender on all the batches it sends: it answers just as the new one only if no accepted
message named a sender.
-/
namespace Windowing

/-- The message with a claim on the batch it carries, which comes before the sender it names
itself. -/
def Message.claimed (first : Option String) : Message → Message
  | regular sender batch => regular (first.or sender) batch
  | watermark sender value => watermark sender value

namespace Executor

variable (x : Executor)

theorem sort_nil (order : Option RowOrder) : x.sort order [] = .ok [] := by
  have one : ∀ minimum workers, Sorting.chunkCount 0 minimum workers ≤ 1 := by
    intro minimum workers
    rw [Sorting.chunkCount]
    split
    · exact Nat.le_refl 1
    · rw [Nat.zero_div]
      exact Nat.min_le_right _ _
  cases order with
  | none => rfl
  | some order =>
    rw [sort, Sorting.sort, List.length_nil, decide_eq_false (Nat.not_lt.mpr (one _ _)),
      Bool.and_false]
    rfl

theorem compute_nil (d : Definition) : x.compute d [] = .ok [] := by
  rw [compute_eq (x.sort_nil _)]
  rfl

end Executor

namespace Operator

def claimed (op : Operator) (first : Option String) : Operator :=
  { op with sender := first.or op.sender }

/-- Both replies leave the same breaker, and the same operator and answer but for the claim. -/
structure ClaimsOnly (first : Option String) (claiming plain : Reply (Option (List Message))) :
    Prop where
  operator : claiming.operator = plain.operator.claimed first
  breaker : claiming.breaker = plain.breaker
  answer : claiming.answer = plain.answer.map (Option.map (List.map (Message.claimed first)))

variable {op : Operator} {schema : Schema} {d : Definition} {settings : Settings}

section Claims

variable (op : Operator) (first : Option String)

theorem open_claimed (offered : Nat) :
    (op.claimed first).open offered = ((op.open offered).1.claimed first, (op.open offered).2) := by
  obtain ⟨schema, d, settings, output, executor, buffered, sender⟩ := op
  cases executor with
  | some x => rfl
  | none =>
    simp only [«open», claimed]
    cases Executor.ofSettings settings offered <;> rfl

theorem flush_claimed (b : Breaker) : (op.claimed first).flush b =
    ⟨(op.flush b).operator.claimed first, (op.flush b).breaker, (op.flush b).answer⟩ := by
  obtain ⟨schema, d, settings, output, executor, buffered, sender⟩ := op
  cases executor <;> rfl

theorem receive_claimed (b : Breaker) (m : Message) :
    ClaimsOnly first ((op.claimed first).receive b m) (op.receive b m) := by
  cases m with
  | regular sender batch =>
    by_cases expected : batch.schema.fields = op.schema.fields
    · rw [receive_regular_kept _ b expected, receive_regular_kept (op.claimed first) b expected]
      constructor
      · simp only [claimed, Option.or_assoc]
      · rfl
      · rfl
    · rw [receive_regular_refused _ b expected,
        receive_regular_refused (op.claimed first) b expected]
      exact ⟨rfl, rfl, rfl⟩
  | watermark sender value =>
    by_cases last : value = Message.terminal
    · rw [last, receive_terminal, receive_terminal, flush_claimed]
      constructor
      · rfl
      · rfl
      · cases (op.flush b).answer <;> rfl
    · rw [receive_dropped last, receive_dropped last]
      exact ⟨rfl, rfl, rfl⟩

theorem follow_claimed (e : Event) : (op.claimed first).follow e = (op.follow e).claimed first := by
  cases e with
  | closed => rfl
  | step s =>
    cases s with
    | opened offered => exact congrArg Prod.fst (op.open_claimed first offered)
    | received b m => exact (op.receive_claimed first b m).operator

/-- Nothing that happens drops a claim. -/
theorem after_claimed (later : List Event) :
    (op.claimed first).after later = (op.after later).claimed first := by
  induction later with
  | nil => rfl
  | cons e later ih => rw [after, after, ih, follow_claimed]

end Claims

/-- An operator that was closed is the one that was made, with a claim. -/
theorem Accepted.after_closed (accepted : Accepted schema d settings op) (earlier : List Event) :
    op.after (.closed :: earlier) = op.claimed (firstSender schema earlier) := by
  rw [after, accepted.after_eq_recalled]
  obtain ⟨output, rfl⟩ := accepted.fresh
  simp only [follow, close, recalled, claimed, Option.or_none]

/-- Two operators that from now on cannot be told apart. -/
def AnswersAs (op other : Operator) : Prop :=
  ∀ later : List Event,
    (∀ offered, ((op.after later).open offered).2 = ((other.after later).open offered).2) ∧
    ∀ b m, ((op.after later).receive b m).breaker = ((other.after later).receive b m).breaker ∧
      ((op.after later).receive b m).answer = ((other.after later).receive b m).answer

theorem AnswersAs.refl (op : Operator) : op.AnswersAs op := by
  intro later
  constructor
  · intro offered
    rfl
  · intro b m
    exact ⟨rfl, rfl⟩

/-- The end of an input without rows is answered with a batch without rows, that no one sent. -/
theorem Accepted.receive_nothing (accepted : Accepted schema d settings op) {offered : Nat}
    {x : Executor} (available : Executor.ofSettings settings offered = .ok x) (b : Breaker)
    (sender : String) :
    ((op.after [.step (.opened offered)]).receive b (.watermark sender Message.terminal)).answer =
      .ok (some [.regular none ⟨op.outputSchema, []⟩, .watermark sender Message.terminal]) := by
  obtain ⟨-, -, -, answers⟩ := receive_after accepted [.step (.opened offered)] b
  have opened : executorAfter settings [.step (.opened offered)] = some x := by
    simp [executorAfter, Event.closes, Event.opens, available, Except.toOption]
  have nothing : (x.execute d (.ofBatches []) .never (.accounted ⟨label, 0⟩ b)).2 =
      .ok ⟨[], false⟩ := by
    rw [Source.ofBatches, Executor.execute_eq (List.forall_mem_nil _) rfl]
    exact congrArg (Except.map _) (x.compute_nil d)
  rw [answers x opened sender]
  show (Guarded.mapError _ (x.execute d (.ofBatches []) .never (.accounted ⟨label, 0⟩ b)).2 >>= _) =
    _
  rw [nothing]
  rfl

/-- A closed operator answers all that comes as a newly made one does, but for the first sender of
its earlier sessions, which comes before any later one. If its settings are in order then the two
cannot be told apart exactly if no accepted message named a sender. -/
theorem receive_after_reopening (accepted : Accepted schema d settings op) (earlier : List Event) :
    (∀ later : List Event,
      (∀ offered, ((op.after (later ++ .closed :: earlier)).open offered).2 =
        ((op.after later).open offered).2) ∧
      ∀ b m,
        ClaimsOnly (firstSender schema earlier)
          ((op.after (later ++ .closed :: earlier)).receive b m)
        ((op.after later).receive b m)) ∧
    (settings.check = .ok () →
      ((op.after (.closed :: earlier)).AnswersAs op ↔ firstSender schema earlier = none)) := by
  have closed := accepted.after_closed earlier
  constructor
  · intro later
    rw [after_append, closed, after_claimed]
    constructor
    · intro offered
      rw [open_claimed]
    · intro b m
      exact receive_claimed _ _ b m
  · intro checked
    rw [closed]
    constructor
    · intro same
      have available : Executor.ofSettings settings 0 = .ok ⟨settings, settings.pool 0⟩ := by
        rw [Executor.ofSettings, checked]
        rfl
      have plain := accepted.receive_nothing available (Breaker.unlimited label) ""
      have claiming := (receive_claimed (op.after [.step (.opened 0)]) (firstSender schema earlier)
        (Breaker.unlimited label) (.watermark "" Message.terminal)).answer
      rw [← after_claimed, ((same [.step (.opened 0)]).2 _ _).2, plain] at claiming
      simpa [Except.map, Message.claimed] using claiming.symm
    · intro unnamed later
      rw [unnamed, claimed, Option.none_or]
      exact AnswersAs.refl op later

/-- The rows that "a" sent are gone, but what "c" sends later goes on as from "a". -/
theorem receive_after_reopening_claimed :
    let schema : Schema := ⟨[⟨"x", .int64, true⟩], []⟩
    let d : Definition := ⟨1, [⟨.count, []⟩], none, none⟩
    let op : Operator :=
      { schema, definition := d, settings := {},
        outputSchema := schema.extend [⟨"count", .int64, true⟩] }
    let b := Breaker.unlimited label
    let earlier : List Event := [.step (.received b (.regular (some "a") ⟨schema, [[.ofCount 1]]⟩)),
      .step (.opened 1)]
    let later : List Event := [.step (.received b (.regular (some "c") ⟨schema, [[.ofCount 2]]⟩)),
      .step (.opened 1)]
    let out : Batch := ⟨op.outputSchema, [[.ofCount 2, .ofCount 1]]⟩
    Accepted schema d {} op ∧
      ((op.after later).receive b (.watermark "u" Message.terminal)).answer =
        .ok (some [.regular (some "c") out, .watermark "u" Message.terminal]) ∧
      ((op.after (later ++ .closed :: earlier)).receive b
        (.watermark "u" Message.terminal)).answer =
        .ok (some [.regular (some "a") out, .watermark "u" Message.terminal]) ∧
      ¬ (op.after (.closed :: earlier)).AnswersAs op := by
  intro schema d op b earlier later out
  have accepted : Accepted schema d {} op := .inl rfl
  obtain ⟨answers, told⟩ := receive_after_reopening accepted earlier
  have plain : ((op.after later).receive b (.watermark "u" Message.terminal)).answer =
      .ok (some [.regular (some "c") out, .watermark "u" Message.terminal]) := by
    decide +kernel
  refine ⟨accepted, plain, ?_, ?_⟩
  · rw [((answers later).2 b _).answer, plain]
    rfl
  · intro same
    cases (told rfl).mp same

end Operator
end Windowing
