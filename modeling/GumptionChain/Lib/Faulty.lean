import GumptionChain.Lib.Effect

/-!
# Database sessions that may fail

A session works on its own view of the data until it commits.  Every operation counts,
and the world decides which of them fail: a failed operation changes no data, and the
session can do nothing more until it is rolled back.

* `Faulty.ask`, `Faulty.write`, `Faulty.commit`, `Faulty.rollback` — the operations;
* `Faulty.Clean` — a session without changes of its own, as a commit or a rollback
  leaves it;
* `Faulty.Clear` — none of the next operations fails;
* `Faulty.committed_tryCatch` — a handler that commits nothing leaves what was committed.
-/

namespace Faulty

variable {ε σ α β : Type}

/-- A session, its view of the data and the data committed. -/
structure Conn (σ : Type) where
  committed : σ
  session : σ
  fails : ℕ → Bool
  clock : ℕ := 0
  poisoned : Bool := false

namespace Conn

/-- The session after an operation that did not fail. -/
def tick (c : Conn σ) : Conn σ := { c with clock := c.clock + 1 }

/-- The session after an operation that failed. -/
def failed (c : Conn σ) : Conn σ := { c with clock := c.clock + 1, poisoned := true }

/-- A session that looks at the committed data and has changed nothing. -/
def settled (s : σ) (fails : ℕ → Bool) (clock : ℕ) : Conn σ := ⟨s, s, fails, clock, false⟩

/-- The next operation fails. -/
def stops (c : Conn σ) : Bool := c.poisoned || c.fails c.clock

end Conn

/-- A query. -/
def ask (lost : ε) (f : σ → α) : EStateM ε (Conn σ) α := fun c =>
  if c.stops then .error lost c.failed else .ok (f c.session) c.tick

/-- A change to the session's view, which a constraint may refuse. -/
def write (lost : ε) (f : σ → Except ε σ) : EStateM ε (Conn σ) Unit := fun c =>
  if c.stops then .error lost c.failed
  else
    match f c.session with
    | .ok s => .ok () { c.tick with session := s }
    | .error e => .error e c.failed

/-- `session.commit()`. -/
def commit (lost : ε) : EStateM ε (Conn σ) Unit := fun c =>
  if c.stops then .error lost c.failed else .ok () { c.tick with committed := c.session }

/-- `session.rollback()`. -/
def rollback : EStateM ε (Conn σ) Unit := fun c =>
  .ok () { c with session := c.committed, poisoned := false }

/-- A computation without the database. -/
def raising (x : Except ε α) : EStateM ε (Conn σ) α := fun c =>
  match x with
  | .ok a => .ok a c
  | .error e => .error e c

/-- The session has no changes of its own and may go on. -/
def Clean (c : Conn σ) : Prop := c.poisoned = false ∧ c.session = c.committed

/-- None of the `n` operations from `clock` on fails. -/
def Clear (fails : ℕ → Bool) (clock n : ℕ) : Prop := ∀ j < n, fails (clock + j) = false

instance (fails : ℕ → Bool) (clock n : ℕ) : Decidable (Clear fails clock n) :=
  inferInstanceAs (Decidable (∀ j < n, fails (clock + j) = false))

/-- Only the committed data are looked at. -/
def SameCommitted (c c' : Conn σ) : Prop := c'.committed = c.committed

theorem clear_zero (fails : ℕ → Bool) (clock : ℕ) : Clear fails clock 0 :=
  fun _ hj => absurd hj (Nat.not_lt_zero _)

theorem clear_add {fails : ℕ → Bool} {clock m n : ℕ} :
    Clear fails clock (m + n) ↔ Clear fails clock m ∧ Clear fails (clock + m) n := by
  constructor
  · intro h
    refine ⟨fun j hj => h j (by omega), fun j hj => ?_⟩
    simpa only [Nat.add_assoc] using h (m + j) (by omega)
  · rintro ⟨hm, hn⟩ j hj
    by_cases hjm : j < m
    · exact hm j hjm
    · have := hn (j - m) (by omega)
      rwa [show clock + m + (j - m) = clock + j by omega] at this

theorem clear_succ {fails : ℕ → Bool} {clock n : ℕ} :
    Clear fails clock (n + 1) ↔ fails clock = false ∧ Clear fails (clock + 1) n := by
  rw [Nat.add_comm n 1, clear_add]
  simp [Clear]

theorem not_clear {fails : ℕ → Bool} {clock n : ℕ} :
    ¬ Clear fails clock n ↔ ∃ j < n, fails (clock + j) = true := by
  simp only [Clear, not_forall, Bool.not_eq_false, exists_prop]

section Settled

variable (lost : ε) (s : σ) (fails : ℕ → Bool) (clock : ℕ)

theorem ask_bind (f : σ → α) (g : α → EStateM ε (Conn σ) β) :
    (ask lost f >>= g) (.settled s fails clock) =
      if fails clock then .error lost (Conn.settled s fails clock).failed
      else g (f s) (.settled s fails (clock + 1)) := by
  show EStateM.bind (ask lost f) g _ = _
  unfold EStateM.bind ask
  simp only [Conn.stops, Conn.settled, Bool.false_or]
  split_ifs <;> rfl

variable {s fails clock} {f : σ → Except ε σ} {s' : σ}

/-- A change that a constraint refuses. -/
theorem write_bind_refused {e : ε} (h : f s = .error e) (g : Unit → EStateM ε (Conn σ) β) :
    ∃ e' c, (write lost f >>= g) (.settled s fails clock) = .error e' c ∧ c.committed = s := by
  show ∃ e' c, EStateM.bind (write lost f) g _ = _ ∧ _
  simp only [EStateM.bind, write, Conn.stops, Conn.settled, Bool.false_or, h]
  by_cases h0 : fails clock
  · exact ⟨_, _, by rw [if_pos h0], rfl⟩
  · exact ⟨_, _, by rw [if_neg h0], rfl⟩

/-- A change that the constraints let through, and its commit, -/
theorem write_commit_bind (h : f s = .ok s') (hclear : Clear fails clock 2)
    (g : Unit → EStateM ε (Conn σ) β) :
    (write lost f >>= fun _ => commit lost >>= g) (.settled s fails clock) =
      g () (.settled s' fails (clock + 2)) := by
  have h0 : fails clock = false := hclear 0 (by omega)
  have h1 : fails (clock + 1) = false := hclear 1 (by omega)
  show EStateM.bind (write lost f) (fun _ => EStateM.bind (commit lost) g) _ = _
  simp only [EStateM.bind, write, commit, Conn.stops, Conn.settled, Conn.tick, Bool.false_or, h,
    h0, h1, Bool.false_eq_true, if_false]

/-- one of which fails. -/
theorem write_commit_bind_lost (h : f s = .ok s') (hclear : ¬ Clear fails clock 2)
    (g : Unit → EStateM ε (Conn σ) β) :
    ∃ c, (write lost f >>= fun _ => commit lost >>= g) (.settled s fails clock) =
      .error lost c ∧ c.committed = s := by
  show ∃ c, EStateM.bind (write lost f) (fun _ => EStateM.bind (commit lost) g) _ = _ ∧ _
  simp only [EStateM.bind, write, commit, Conn.stops, Conn.settled, Conn.tick, Bool.false_or, h]
  by_cases h0 : fails clock
  · exact ⟨_, by rw [if_pos h0], rfl⟩
  · have h1 : fails (clock + 1) = true := by
      obtain ⟨j, hj, hfails⟩ := not_clear.1 hclear
      obtain rfl | rfl : j = 0 ∨ j = 1 := by omega
      · exact absurd hfails h0
      · exact hfails
    simp only [h0, h1, Bool.false_eq_true, if_false]
    exact ⟨_, rfl, rfl⟩

end Settled

theorem raising_bind (x : Except ε α) (g : α → EStateM ε (Conn σ) β) (c : Conn σ) :
    (raising x >>= g) c = match x with
      | .ok a => g a c
      | .error e => .error e c := by
  show EStateM.bind (raising x) g c = _
  unfold EStateM.bind raising
  cases x <;> rfl

theorem ask_within (lost : ε) (f : σ → α) : Effect.Within SameCommitted (ask lost f) := by
  intro c
  unfold Effect.after ask
  split_ifs <;> rfl

theorem SameCommitted.refl (c : Conn σ) : SameCommitted c c := rfl

theorem SameCommitted.trans {c d e : Conn σ} (h : SameCommitted c d) (h' : SameCommitted d e) :
    SameCommitted c e := Eq.trans h' h

theorem Clean.eq_settled {c : Conn σ} (h : Clean c) :
    c = Conn.settled c.committed c.fails c.clock := by
  obtain ⟨hp, hs⟩ := h
  obtain ⟨committed, session, fails, clock, poisoned⟩ := c
  simp only at hp hs
  subst hp hs
  rfl

theorem committed_tryCatch {x : EStateM ε (Conn σ) α} {handler : ε → EStateM ε (Conn σ) α}
    (h : ∀ e, Effect.Within SameCommitted (handler e)) (c : Conn σ) :
    (Effect.after (tryCatch x handler) c).committed = (Effect.after x c).committed := by
  rw [Effect.after_tryCatch]
  unfold Effect.after
  cases x c with
  | ok a c' => rfl
  | error e c' => exact h e c'

theorem rollback_within : Effect.Within SameCommitted (rollback : EStateM ε (Conn σ) Unit) :=
  fun _ => rfl

end Faulty
