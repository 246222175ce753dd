import Mathlib.Tactic.Common

/-!
# Interleaved operations

Operations of one thread that share a state and suspend: an operation runs from one
wait to the next without interruption, and any operation may run whenever another one
waits.  What it waits for is answered by the world.

* `System` — what a call does up to its first wait, and what follows a wait;
* `Pool` — the state and the operations called so far;
* `System.run_keeps` — an invariant of the state, together with one of each operation
  where it waits, holds in every run;
* `System.run_iff_survives` — what turns set and clear is there after a run if it was set
  last;
* `System.alone` — one operation driven on its own, which is a run of the pool.
-/

namespace Interleaving

/-- Operations `Op` that wait at points of `Wait` and end with a value of `Out`. -/
structure System (Op Wait Out σ ε : Type) where
  call : Op → σ → ε → σ × (Wait ⊕ Out)
  resume : Wait → σ → ε → σ × (Wait ⊕ Out)

/-- The shared state, and each operation called so far with where it waits or how it
ended. -/
structure Pool (Op Wait Out σ : Type) where
  state : σ
  tasks : List (Op × (Wait ⊕ Out))

/-- A turn: a call, or the operation of an index going on. -/
inductive Event (Op ε : Type) where
  | call (op : Op) (answer : ε)
  | resume (i : ℕ) (answer : ε)

/-- An event that calls only operations with a property. -/
def Event.CallsOnly {Op ε : Type} (allowed : Op → Prop) : Event Op ε → Prop
  | .call op _ => allowed op
  | .resume _ _ => True

namespace System

variable {Op Wait Out σ ε : Type} (S : System Op Wait Out σ ε)

/-- One turn.  An operation that has ended stays as it is. -/
def step (p : Pool Op Wait Out σ) : Event Op ε → Pool Op Wait Out σ
  | .call op a =>
    let r := S.call op p.state a
    ⟨r.1, p.tasks ++ [(op, r.2)]⟩
  | .resume i a =>
    match p.tasks[i]? with
    | some (op, .inl w) =>
      let r := S.resume w p.state a
      ⟨r.1, p.tasks.set i (op, r.2)⟩
    | _ => p

/-- Turns in a row. -/
def run (p : Pool Op Wait Out σ) (es : List (Event Op ε)) : Pool Op Wait Out σ := es.foldl S.step p

@[simp] theorem run_nil (p : Pool Op Wait Out σ) : S.run p [] = p := rfl

@[simp] theorem run_cons (p : Pool Op Wait Out σ) (e : Event Op ε) (es : List (Event Op ε)) :
    S.run p (e :: es) = S.run (S.step p e) es := rfl

theorem run_append (p : Pool Op Wait Out σ) (es fs : List (Event Op ε)) :
    S.run p (es ++ fs) = S.run (S.run p es) fs := List.foldl_append

theorem step_resume {p : Pool Op Wait Out σ} {i : ℕ} {op : Op} {w : Wait} (a : ε)
    (h : p.tasks[i]? = some (op, .inl w)) :
    S.step p (.resume i a)
      = ⟨(S.resume w p.state a).1, p.tasks.set i (op, (S.resume w p.state a).2)⟩ := by
  simp only [step, h]

/-- Only an operation that waits goes on. -/
theorem step_resume_cases (p : Pool Op Wait Out σ) (i : ℕ) (a : ε) :
    S.step p (.resume i a) = p ∨ ∃ op w, p.tasks[i]? = some (op, .inl w) ∧
      S.step p (.resume i a)
        = ⟨(S.resume w p.state a).1, p.tasks.set i (op, (S.resume w p.state a).2)⟩ := by
  rcases h : p.tasks[i]? with _ | ⟨op, w | out⟩
  · exact .inl (by simp only [step, h])
  · exact .inr ⟨op, w, rfl, S.step_resume a h⟩
  · exact .inl (by simp only [step, h])

/-- Turns add operations and drop none. -/
theorem length_le_step (p : Pool Op Wait Out σ) (e : Event Op ε) :
    p.tasks.length ≤ (S.step p e).tasks.length := by
  cases e with
  | call op a => simp [step]
  | resume i a =>
    obtain h | ⟨op, w, -, h⟩ := S.step_resume_cases p i a
    · exact Nat.le_of_eq (by rw [h])
    · exact Nat.le_of_eq (by rw [h, List.length_set])

/-- A turn of something else leaves an operation where it is. -/
theorem tasks_step_of_ne {p : Pool Op Wait Out σ} {e : Event Op ε} {i : ℕ} {t : Op × (Wait ⊕ Out)}
    (h : p.tasks[i]? = some t) (he : ∀ a, e ≠ .resume i a) :
    (S.step p e).tasks[i]? = some t := by
  cases e with
  | call op a => rw [step, List.getElem?_append_left (List.getElem?_eq_some_iff.1 h).1, h]
  | resume j a =>
    obtain hstep | ⟨op, w, -, hstep⟩ := S.step_resume_cases p j a
    · rw [hstep, h]
    · rw [hstep, List.getElem?_set_ne fun hji : j = i => he a (congrArg (Event.resume · a) hji), h]

/-- An operation that has ended stays so. -/
theorem tasks_run_of_ended {i : ℕ} {op : Op} {out : Out} {es : List (Event Op ε)} :
    ∀ {p : Pool Op Wait Out σ}, p.tasks[i]? = some (op, .inr out) →
      (S.run p es).tasks[i]? = some (op, .inr out) := by
  induction es with
  | nil => exact fun h => h
  | cons e es ih =>
    intro p h
    refine ih ?_
    by_cases he : ∃ a, e = .resume i a
    · obtain ⟨a, rfl⟩ := he
      simp only [step, h]
    · exact S.tasks_step_of_ne h fun a ha => he ⟨a, ha⟩

/-! ## Invariants -/

variable {P : σ → Prop} {Q : ℕ → Op → Wait ⊕ Out → Prop} {allowed : Op → Prop} {n : ℕ}

/-- What a turn keeps: the calls allowed establish the invariant of their operation, whose
index is at least `n`, and an operation that goes on keeps its own. -/
theorem step_keeps
    (hcall : ∀ i op s a, n ≤ i → allowed op → P s →
      P (S.call op s a).1 ∧ Q i op (S.call op s a).2)
    (hresume : ∀ i op w s a, P s → Q i op (.inl w) →
      P (S.resume w s a).1 ∧ Q i op (S.resume w s a).2)
    {p : Pool Op Wait Out σ} {e : Event Op ε} (he : e.CallsOnly allowed) (hn : n ≤ p.tasks.length)
    (hp : P p.state) (hq : ∀ i op t, p.tasks[i]? = some (op, t) → Q i op t) :
    P (S.step p e).state ∧ ∀ i op t, (S.step p e).tasks[i]? = some (op, t) → Q i op t := by
  cases e with
  | call op a =>
    obtain ⟨hp', hq'⟩ := hcall p.tasks.length op p.state a hn he hp
    refine ⟨hp', fun i op' t ht => ?_⟩
    simp only [step] at ht
    rcases Nat.lt_trichotomy i p.tasks.length with hlt | rfl | hgt
    · rw [List.getElem?_append_left hlt] at ht
      exact hq i op' t ht
    · rw [List.getElem?_concat_length] at ht
      obtain ⟨rfl, rfl⟩ := Prod.mk.injEq .. ▸ Option.some.inj ht
      exact hq'
    · rw [List.getElem?_eq_none (by simp; omega)] at ht
      cases ht
  | resume i a =>
    obtain h | ⟨op, w, hw, h⟩ := S.step_resume_cases p i a
    · rw [h]
      exact ⟨hp, hq⟩
    · obtain ⟨hp', hq'⟩ := hresume i op w p.state a hp (hq i op _ hw)
      rw [h]
      refine ⟨hp', fun j op' t ht => ?_⟩
      by_cases hj : i = j
      · subst hj
        rw [List.getElem?_set_self (List.getElem?_eq_some_iff.1 hw).1] at ht
        obtain ⟨rfl, rfl⟩ := Prod.mk.injEq .. ▸ Option.some.inj ht
        exact hq'
      · rw [List.getElem?_set_ne hj] at ht
        exact hq j op' t ht

/-- What every run keeps. -/
theorem run_keeps
    (hcall : ∀ i op s a, n ≤ i → allowed op → P s →
      P (S.call op s a).1 ∧ Q i op (S.call op s a).2)
    (hresume : ∀ i op w s a, P s → Q i op (.inl w) →
      P (S.resume w s a).1 ∧ Q i op (S.resume w s a).2)
    {es : List (Event Op ε)} :
    ∀ {p : Pool Op Wait Out σ}, (∀ e ∈ es, e.CallsOnly allowed) → n ≤ p.tasks.length →
      P p.state → (∀ i op t, p.tasks[i]? = some (op, t) → Q i op t) →
      P (S.run p es).state ∧ ∀ i op t, (S.run p es).tasks[i]? = some (op, t) → Q i op t := by
  induction es with
  | nil => exact fun _ _ hp hq => ⟨hp, hq⟩
  | cons e es ih =>
    intro p hes hn hp hq
    obtain ⟨hp', hq'⟩ := S.step_keeps hcall hresume (hes e (List.mem_cons_self ..)) hn hp hq
    exact ih (fun e he => hes e (List.mem_cons_of_mem _ he)) (Nat.le_trans hn (S.length_le_step p e))
      hp' hq'

/-! ## What a run leaves behind -/

/-- Some turn of the run is one of these. -/
def Happens (turn : Pool Op Wait Out σ → Event Op ε → Prop) :
    Pool Op Wait Out σ → List (Event Op ε) → Prop
  | _, [] => False
  | p, e :: es => turn p e ∨ Happens turn (S.step p e) es

/-- Some turn of the run sets, and none after it clears. -/
def Survives (sets clears : Pool Op Wait Out σ → Event Op ε → Prop) :
    Pool Op Wait Out σ → List (Event Op ε) → Prop
  | _, [] => False
  | p, e :: es =>
    Survives sets clears (S.step p e) es ∨ (sets p e ∧ ¬ S.Happens clears (S.step p e) es)

/-- What is set by some turns, cleared by others and left alone by the rest: it is there
after a run if it was set and not cleared, or was there and was not cleared. -/
theorem run_iff_survives {H : σ → Prop} {sets clears : Pool Op Wait Out σ → Event Op ε → Prop}
    (hset : ∀ p e, sets p e → H (S.step p e).state)
    (hclear : ∀ p e, clears p e → ¬ H (S.step p e).state)
    (hkeep : ∀ p e, ¬ sets p e → ¬ clears p e → (H (S.step p e).state ↔ H p.state))
    {es : List (Event Op ε)} : ∀ {p : Pool Op Wait Out σ}, H (S.run p es).state ↔
      S.Survives sets clears p es ∨ (H p.state ∧ ¬ S.Happens clears p es) := by
  induction es with
  | nil => exact fun {p} => by simp [Survives, Happens]
  | cons e es ih =>
    intro p
    rw [run_cons, ih, Survives, Happens]
    by_cases hs : sets p e
    · have hnow := hset p e hs
      have hc : ¬ clears p e := fun h => hclear p e h hnow
      tauto
    · by_cases hc : clears p e
      · have hgone := hclear p e hc
        tauto
      · have hsame := hkeep p e hs hc
        tauto

/-! ## One operation on its own -/

/-- Where an operation gets, and the state it leaves, when nothing else runs. -/
def alone : σ → Wait ⊕ Out → List ε → σ × (Wait ⊕ Out)
  | s, .inl w, a :: as => alone (S.resume w s a).1 (S.resume w s a).2 as
  | s, t, _ => (s, t)

@[simp] theorem alone_cons (s : σ) (w : Wait) (a : ε) (as : List ε) :
    S.alone s (.inl w) (a :: as) = S.alone (S.resume w s a).1 (S.resume w s a).2 as := rfl

@[simp] theorem alone_nil (s : σ) (t : Wait ⊕ Out) : S.alone s t [] = (s, t) := by
  cases t <;> rfl

@[simp] theorem alone_inr (s : σ) (out : Out) (as : List ε) :
    S.alone s (.inr out) as = (s, .inr out) := by
  cases as <;> rfl

/-- An operation comes to its end when a bound on the turns left drops with every turn. -/
theorem alone_ends (turns : Wait → ℕ)
    (hturns : ∀ w s a w', (S.resume w s a).2 = .inl w' → turns w' < turns w) {as : List ε} :
    ∀ {s : σ} {w : Wait}, turns w ≤ as.length → (∀ w, 0 < turns w) →
      ∃ out, (S.alone s (.inl w) as).2 = .inr out := by
  induction as with
  | nil =>
    intro s w h hpos
    exact absurd h (Nat.not_le_of_lt (hpos w))
  | cons a as ih =>
    intro s w h hpos
    rw [alone_cons]
    cases hw : (S.resume w s a).2 with
    | inr out => exact ⟨out, by rw [alone_inr]⟩
    | inl w' =>
      refine ih (Nat.le_of_lt_succ ?_) hpos
      exact Nat.lt_of_lt_of_le (hturns w s a w' hw) h

/-- Driving an operation of the pool is a run. -/
theorem run_alone {i : ℕ} {op : Op} {as : List ε} :
    ∀ {p : Pool Op Wait Out σ} {t : Wait ⊕ Out}, p.tasks[i]? = some (op, t) →
      (S.run p (as.map (.resume i))).state = (S.alone p.state t as).1 ∧
      (S.run p (as.map (.resume i))).tasks[i]? = some (op, (S.alone p.state t as).2) := by
  induction as with
  | nil =>
    intro p t h
    rw [List.map_nil, run_nil, alone_nil]
    exact ⟨rfl, h⟩
  | cons a as ih =>
    intro p t h
    rw [List.map_cons, run_cons]
    cases t with
    | inl w =>
      rw [S.step_resume a h, alone_cons]
      exact ih (List.getElem?_set_self (List.getElem?_eq_some_iff.1 h).1)
    | inr out =>
      have hstep : S.step p (.resume i a) = p := by simp only [step, h]
      rw [hstep, alone_inr]
      simpa using ih h

/-- A call at the end of a pool, driven on its own. -/
theorem run_call_alone (p : Pool Op Wait Out σ) (op : Op) (a : ε) (as : List ε) :
    (S.run p (.call op a :: as.map (.resume p.tasks.length))).state
        = (S.alone (S.call op p.state a).1 (S.call op p.state a).2 as).1 ∧
    (S.run p (.call op a :: as.map (.resume p.tasks.length))).tasks[p.tasks.length]?
        = some (op, (S.alone (S.call op p.state a).1 (S.call op p.state a).2 as).2) :=
  S.run_alone (p := S.step p (.call op a)) (List.getElem?_concat_length ..)

end System

end Interleaving
