import Mathlib.Tactic.Common

/-!
# Effects that outlive an exception

`EStateM ε σ` changes a state and may raise; a computation that raises hands the
state it had reached to whoever handles the exception.

* `Effect.calling` — a function that changes the state only when it returns;
* `Effect.after` — the state a computation leaves, returned or raised;
* `Effect.Within` — what it leaves is related to what it found, with a rule for each
  way of composing computations;
* `Effect.Clean` — the same of what it leaves when it raises.
-/

namespace Effect

variable {ε σ α β : Type}

/-- A function that changes the state when it returns, and leaves it when it raises. -/
def calling (f : σ → Except ε (α × σ)) : EStateM ε σ α := fun s =>
  match f s with
  | .ok (a, s') => .ok a s'
  | .error e => .error e s

/-- A function that always returns. -/
def asking (f : σ → α × σ) : EStateM ε σ α := fun s => .ok (f s).1 (f s).2

/-- What a computation returns or raises, without the state an exception leaves. -/
def toExcept (x : EStateM ε σ α) (s : σ) : Except ε (α × σ) :=
  match x s with
  | .ok a s' => .ok (a, s')
  | .error e _ => .error e

/-- The state a computation leaves. -/
def after (x : EStateM ε σ α) (s : σ) : σ :=
  match x s with
  | .ok _ s' => s'
  | .error _ s' => s'

/-- What a computation leaves is related to what it found. -/
def Within (R : σ → σ → Prop) (x : EStateM ε σ α) : Prop := ∀ s, R s (after x s)

theorem after_bind (x : EStateM ε σ α) (f : α → EStateM ε σ β) (s : σ) :
    after (x >>= f) s = match x s with
      | .ok a s' => after (f a) s'
      | .error _ s' => s' := by
  show after (EStateM.bind x f) s = _
  unfold after EStateM.bind
  cases x s <;> rfl

/-- A handler goes on from where the exception was raised. -/
theorem after_tryCatch (x : EStateM ε σ α) (handler : ε → EStateM ε σ α) (s : σ) :
    after (tryCatch x handler) s = match x s with
      | .ok _ s' => s'
      | .error e s' => after (handler e) s' := by
  show after (EStateM.tryCatch x handler) s = _
  unfold after EStateM.tryCatch
  cases x s <;> rfl

theorem toExcept_bind (x : EStateM ε σ α) (f : α → EStateM ε σ β) (s : σ) :
    toExcept (x >>= f) s = toExcept x s >>= fun r => toExcept (f r.1) r.2 := by
  show toExcept (EStateM.bind x f) s = _
  unfold toExcept EStateM.bind
  cases x s <;> rfl

@[simp] theorem toExcept_calling (f : σ → Except ε (α × σ)) (s : σ) :
    toExcept (calling f) s = f s := by
  unfold toExcept calling
  rcases f s with e | ⟨a, s'⟩ <;> rfl

namespace Within

variable {R : σ → σ → Prop}

theorem pure (hr : ∀ s, R s s) (a : α) : Within R (Pure.pure a : EStateM ε σ α) := fun s => hr s

theorem throw (hr : ∀ s, R s s) (e : ε) : Within R (throw e : EStateM ε σ α) := fun s => hr s

theorem calling {f : σ → Except ε (α × σ)} (hr : ∀ s, R s s)
    (h : ∀ s a s', f s = .ok (a, s') → R s s') : Within R (calling f) := by
  intro s
  unfold after Effect.calling
  rcases hf : f s with e | ⟨a, s'⟩
  · exact hr s
  · exact h s a s' hf

theorem asking {f : σ → α × σ} (h : ∀ s, R s (f s).2) :
    Within R (Effect.asking f : EStateM ε σ α) := h

theorem bind (ht : ∀ s t u, R s t → R t u → R s u) {x : EStateM ε σ α} {f : α → EStateM ε σ β}
    (hx : Within R x) (hf : ∀ a, Within R (f a)) : Within R (x >>= f) := by
  intro s
  have h := hx s
  rw [after_bind]
  unfold after at h
  cases hs : x s with
  | ok a s' =>
    rw [hs] at h
    exact ht s s' _ h (hf a s')
  | error e s' =>
    rw [hs] at h
    exact h

theorem tryCatch (ht : ∀ s t u, R s t → R t u → R s u) {x : EStateM ε σ α}
    {handler : ε → EStateM ε σ α} (hx : Within R x) (hh : ∀ e, Within R (handler e)) :
    Within R (tryCatch x handler) := by
  intro s
  have h := hx s
  rw [after_tryCatch]
  unfold after at h
  cases hs : x s with
  | ok a s' =>
    rw [hs] at h
    exact h
  | error e s' =>
    rw [hs] at h
    exact ht s s' _ h (hh e s')

end Within

/-- A composition returns what its second part returns from where its first part did. -/
theorem bind_eq_ok {x : EStateM ε σ α} {f : α → EStateM ε σ β} {s s' : σ} {b : β} :
    (x >>= f) s = .ok b s' ↔ ∃ a t, x s = .ok a t ∧ f a t = .ok b s' := by
  show EStateM.bind x f s = _ ↔ _
  unfold EStateM.bind
  cases x s with
  | ok a t => simp
  | error e t => simp

/-- What a computation leaves when it raises is related to what it found. -/
def Clean (R : σ → σ → Prop) (x : EStateM ε σ α) : Prop :=
  ∀ s e s', x s = .error e s' → R s s'

namespace Clean

variable {R : σ → σ → Prop}

theorem of_within {x : EStateM ε σ α} (h : Within R x) : Clean R x := by
  intro s e s' hs
  have := h s
  rwa [after, hs] at this

/-- What comes before the part that may leave a change leaves none. -/
theorem bind (ht : ∀ s t u, R s t → R t u → R s u) {x : EStateM ε σ α} {f : α → EStateM ε σ β}
    (hx : Within R x) (hf : ∀ a, Clean R (f a)) : Clean R (x >>= f) := by
  intro s e s' h
  have hafter := hx s
  change EStateM.bind x f s = _ at h
  unfold EStateM.bind at h
  unfold after at hafter
  cases hs : x s with
  | ok a t =>
    rw [hs] at h hafter
    exact ht s t s' hafter (hf a t e s' h)
  | error e' t =>
    rw [hs] at h hafter
    cases h
    exact hafter

end Clean

end Effect
