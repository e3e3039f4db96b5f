/-!
# Loops

A loop goes through rounds, each of which ends with an answer or leads to the state of the next one.
`loop` is the answer of the first round that has one; there is none when the loop never ends.
`loopWithin` gives up after a number of rounds.

A loop ends when its states go down in a well-founded order (`isSome_loop`), and within a number of
rounds when they have a measure below it (`isSome_loopWithin`).
-/

namespace TagFilter

/-- What a round of a loop comes to. -/
inductive Round (σ α : Type) where
  /-- The answer of the loop. -/
  | done (answer : α)
  /-- The state of the next round. -/
  | next (state : σ)

section Loop

variable {σ α : Type}

/-- The answer that a round leads to when others like it follow, if they end. -/
def Round.answer (round : σ → Round σ α) : Round σ α → Option α
  | .done answer => some answer
  | .next state => round state |>.answer round
partial_fixpoint

/-- The answer of a loop from a state, if it ends. -/
def loop (round : σ → Round σ α) (state : σ) : Option α :=
  (round state).answer round

/-- The answer of a loop from a state, if it ends within a number of rounds. -/
def loopWithin (round : σ → Round σ α) : Nat → σ → Option α
  | 0, _ => none
  | rounds + 1, state =>
    match round state with
    | .done answer => some answer
    | .next state => loopWithin round rounds state

variable {round : σ → Round σ α} {state next : σ} {answer : α} {rounds : Nat}

theorem loop_done (h : round state = .done answer) : loop round state = some answer := by
  rw [loop, h, Round.answer]

theorem loop_next (h : round state = .next next) : loop round state = loop round next := by
  rw [loop, h, Round.answer, loop]

theorem loopWithin_done (h : round state = .done answer) :
    loopWithin round (rounds + 1) state = some answer := by
  rw [loopWithin, h]

theorem loopWithin_next (h : round state = .next next) :
    loopWithin round (rounds + 1) state = loopWithin round rounds next := by
  rw [loopWithin, h]

/-- An answer within some rounds is the answer of the loop. -/
theorem loop_of_loopWithin (h : loopWithin round rounds state = some answer) :
    loop round state = some answer := by
  induction rounds generalizing state with
  | zero => cases h
  | succ rounds ih =>
    cases hround : round state with
    | done other =>
      rw [loopWithin_done hround] at h
      rw [loop_done hround, h]
    | next next =>
      rw [loopWithin_next hround] at h
      rw [loop_next hround, ih h]

/-- The answer of a loop is its answer within some number of rounds. -/
theorem exists_loopWithin (h : loop round state = some answer) :
    ∃ rounds, loopWithin round rounds state = some answer := by
  refine Round.answer.partial_correctness round
    (fun r answer => ∀ state, round state = r →
      ∃ rounds, loopWithin round rounds state = some answer) ?_ (round state) answer h state rfl
  intro rest ih r answer h state hround
  cases r with
  | done other => exact ⟨1, (loopWithin_done hround).trans h⟩
  | next next =>
    obtain ⟨rounds, hrounds⟩ := ih (round next) answer h next rfl
    exact ⟨rounds + 1, (loopWithin_next hround).trans hrounds⟩

/-- A loop in which each of some states leads to another one of them never ends. -/
theorem loop_eq_none (among : σ → Prop)
    (hnext : ∀ state, among state → ∃ next, round state = .next next ∧ among next)
    (h : among state) : loop round state = none := by
  cases hanswer : loop round state with
  | none => rfl
  | some answer =>
    obtain ⟨rounds, hrounds⟩ := exists_loopWithin hanswer
    clear hanswer
    induction rounds generalizing state with
    | zero => cases hrounds
    | succ rounds ih =>
      obtain ⟨next, hround, hamong⟩ := hnext state h
      rw [loopWithin_next hround] at hrounds
      exact ih hamong hrounds

/-- A loop ends when each round leads down in a well-founded order. -/
theorem isSome_loop {below : σ → σ → Prop} (hwf : WellFounded below)
    (hdown : ∀ state next, round state = .next next → below next state) (state : σ) :
    (loop round state).isSome = true := by
  induction state using hwf.induction with
  | _ state ih =>
    cases hround : round state with
    | done answer =>
      rw [loop_done hround]
      rfl
    | next next =>
      rw [loop_next hround]
      exact ih next (hdown state next hround)

/-- A loop ends within a number of rounds when each round leads to a smaller measure, and the first
one is below this number. -/
theorem isSome_loopWithin (measure : σ → Nat)
    (hdown : ∀ state next, round state = .next next → measure next < measure state)
    (h : measure state < rounds) : (loopWithin round rounds state).isSome = true := by
  induction rounds generalizing state with
  | zero => exact absurd h (Nat.not_lt_zero _)
  | succ rounds ih =>
    cases hround : round state with
    | done answer =>
      rw [loopWithin_done hround]
      rfl
    | next next =>
      rw [loopWithin_next hround]
      exact ih (Nat.lt_of_lt_of_le (hdown state next hround) (Nat.le_of_lt_succ h))

/-- An answer within some rounds is the answer within more rounds. -/
theorem loopWithin_of_le {more : Nat} (hle : rounds ≤ more)
    (h : loopWithin round rounds state = some answer) :
    loopWithin round more state = some answer := by
  induction rounds generalizing state more with
  | zero => cases h
  | succ rounds ih =>
    obtain ⟨more, rfl⟩ : ∃ n, more = n + 1 := ⟨more - 1, by omega⟩
    cases hround : round state with
    | done other =>
      rw [loopWithin_done hround] at h
      rw [loopWithin_done hround, h]
    | next next =>
      rw [loopWithin_next hround] at h
      rw [loopWithin_next hround, ih (Nat.le_of_succ_le_succ hle) h]

end Loop

end TagFilter
