import Mathlib.Data.Nat.Find
import Mathlib.Logic.Function.Iterate
import Mathlib.Tactic.Common

/-!
# Searching by rounds

A generator that runs rounds of a search until one of them is the last, and yields after
every batch of rounds: `while not done: for _ in r: if done: break; round()`, where `r`
is `range(n)`, begun again each time, or `count()`.

* `Rounds.Unfinished` — the rounds run before, none of which was the last;
* `Rounds.Yielded` — the states at the yields;
* `Rounds.yielded_iterate` — each is reached by rounds alone;
* `Rounds.resume_isSome_iff` — when the next yield comes.
-/

namespace Rounds

variable {σ : Type} (finished : σ → Bool) (round : σ → σ)

/-- The loop over `range(n)`. -/
def forRange : ℕ → σ → σ
  | 0, s => s
  | n + 1, s => if finished s then s else forRange n (round s)

/-- The loop over `count()`, as far as `fuel` rounds: `none` when it is still running. -/
def forCount : ℕ → σ → Option σ
  | 0, _ => none
  | fuel + 1, s => if finished s then some s else forCount fuel (round s)

/-- From one yield to the next.  `range(rounds) if rounds else count()`. -/
def resume (rounds fuel : ℕ) (s : σ) : Option σ :=
  if rounds ≠ 0 then some (forRange finished round rounds s) else forCount finished round fuel s

/-- The states at the yields of a generator begun in `s₀`. -/
inductive Yielded (rounds : ℕ) (s₀ : σ) : σ → Prop
  | first {fuel : ℕ} {s : σ} (start : finished s₀ = false)
      (h : resume finished round rounds fuel s₀ = some s) : Yielded rounds s₀ s
  | next {fuel : ℕ} {s s' : σ} (before : Yielded rounds s₀ s) (going : finished s = false)
      (h : resume finished round rounds fuel s = some s') : Yielded rounds s₀ s'

/-- The state after `k` rounds, none of which came after the last. -/
def Unfinished (s₀ : σ) (k : ℕ) : Prop := ∀ j < k, finished (round^[j] s₀) = false

variable {finished round}

/-- Rounds after rounds. -/
theorem Unfinished.add {s : σ} {k j : ℕ} (h : Unfinished finished round s k)
    (h' : Unfinished finished round (round^[k] s) j) : Unfinished finished round s (j + k) := by
  intro i hi
  rcases Nat.lt_or_ge i k with hik | hik
  · exact h i hik
  · obtain ⟨i, rfl⟩ := Nat.exists_eq_add_of_le' hik
    rw [Function.iterate_add_apply]
    exact h' i (by omega)

/-- A loop over a range runs the rounds until one is the last, or all of them. -/
theorem forRange_spec (finished : σ → Bool) (round : σ → σ) :
    ∀ (n : ℕ) (s : σ), ∃ k ≤ n, forRange finished round n s = round^[k] s ∧
    Unfinished finished round s k ∧ (k < n → finished (round^[k] s) = true)
  | 0, s => ⟨0, le_rfl, rfl, fun j hj => absurd hj (Nat.not_lt_zero j),
      fun h => absurd h (Nat.lt_irrefl 0)⟩
  | n + 1, s => by
    cases hs : finished s with
    | true =>
      refine ⟨0, Nat.zero_le _, ?_, fun j hj => absurd hj (Nat.not_lt_zero j), fun _ => hs⟩
      rw [forRange, hs]
      rfl
    | false =>
      obtain ⟨k, hk, heq, hbefore, hlast⟩ := forRange_spec finished round n (round s)
      refine ⟨k + 1, Nat.succ_le_succ hk, ?_, ?_, fun h => hlast (Nat.lt_of_succ_lt_succ h)⟩
      · rw [forRange, hs, if_neg Bool.false_ne_true, heq, Function.iterate_succ_apply]
      · intro j hj
        cases j with
        | zero => exact hs
        | succ j => exact hbefore j (Nat.lt_of_succ_lt_succ hj)

/-- A loop over all the numbers ends after the last round, with fuel enough for it. -/
theorem forCount_eq_some : ∀ {fuel : ℕ} {s s' : σ}, forCount finished round fuel s = some s' ↔
    ∃ k < fuel, s' = round^[k] s ∧ Unfinished finished round s k ∧ finished s' = true
  | 0, s, s' => by simp [forCount]
  | fuel + 1, s, s' => by
    rw [forCount]
    cases hs : finished s with
    | true =>
      rw [if_pos rfl, Option.some.injEq]
      constructor
      · rintro rfl
        exact ⟨0, Nat.succ_pos _, rfl, fun j hj => absurd hj (Nat.not_lt_zero j), hs⟩
      · rintro ⟨k, -, rfl, hbefore, -⟩
        cases k with
        | zero => rfl
        | succ k =>
          have := hbefore 0 (Nat.succ_pos k)
          rw [Function.iterate_zero, id, hs] at this
          cases this
    | false =>
      rw [if_neg Bool.false_ne_true, forCount_eq_some]
      constructor
      · rintro ⟨k, hk, rfl, hbefore, hlast⟩
        refine ⟨k + 1, Nat.succ_lt_succ hk, rfl, fun j hj => ?_, hlast⟩
        cases j with
        | zero => exact hs
        | succ j => exact hbefore j (Nat.lt_of_succ_lt_succ hj)
      · rintro ⟨k, hk, rfl, hbefore, hlast⟩
        cases k with
        | zero =>
          rw [Function.iterate_zero, id, hs] at hlast
          cases hlast
        | succ k =>
          exact ⟨k, Nat.lt_of_succ_lt_succ hk, rfl,
            fun j hj => hbefore (j + 1) (Nat.succ_lt_succ hj), hlast⟩

/-- From one yield to the next only rounds are run, and none after the last. -/
theorem resume_iterate {rounds fuel : ℕ} {s s' : σ}
    (h : resume finished round rounds fuel s = some s') :
    ∃ k, s' = round^[k] s ∧ Unfinished finished round s k := by
  unfold resume at h
  split_ifs at h with hr
  · obtain ⟨k, -, heq, hbefore, -⟩ := forRange_spec finished round rounds s
    exact ⟨k, (Option.some.inj h).symm.trans heq, hbefore⟩
  · obtain ⟨k, -, heq, hbefore, -⟩ := forCount_eq_some.1 h
    exact ⟨k, heq, hbefore⟩

/-- Every yield is reached by rounds alone. -/
theorem yielded_iterate {rounds : ℕ} {s₀ s : σ} (h : Yielded finished round rounds s₀ s) :
    ∃ k, s = round^[k] s₀ ∧ Unfinished finished round s₀ k := by
  induction h with
  | first start h => exact resume_iterate h
  | next before going h ih =>
    obtain ⟨k, rfl, hbefore⟩ := ih
    obtain ⟨k', rfl, hbefore'⟩ := resume_iterate h
    exact ⟨k' + k, (Function.iterate_add_apply round k' k s₀).symm, hbefore.add hbefore'⟩

/-- Batches of rounds follow each other until one comes to the last. -/
theorem yielded_forRange {rounds n : ℕ} {s₀ : σ} (hrounds : rounds ≠ 0)
    (h : ∀ k ≤ n, finished ((forRange finished round rounds)^[k] s₀) = false) :
    Yielded finished round rounds s₀ ((forRange finished round rounds)^[n + 1] s₀) := by
  have hresume : ∀ s, resume finished round rounds 0 s = some (forRange finished round rounds s) :=
    fun s => if_pos hrounds
  induction n with
  | zero => exact .first (h 0 le_rfl) (hresume s₀)
  | succ n ih =>
    rw [Function.iterate_succ_apply']
    exact .next (ih fun k hk => h k (Nat.le_succ_of_le hk)) (h (n + 1) le_rfl) (hresume _)

/-- A batch of rounds comes to its yield; without a bound, when some round is the last. -/
theorem resume_isSome_iff {rounds : ℕ} {s : σ} :
    (∃ fuel s', resume finished round rounds fuel s = some s') ↔
      rounds ≠ 0 ∨ ∃ k, finished (round^[k] s) = true := by
  unfold resume
  by_cases hr : rounds ≠ 0
  · simp only [if_pos hr]
    exact iff_of_true ⟨0, _, rfl⟩ (Or.inl hr)
  · simp only [if_neg hr, forCount_eq_some]
    constructor
    · rintro ⟨fuel, s', k, -, rfl, -, hlast⟩
      exact Or.inr ⟨k, hlast⟩
    · rintro (h | hex)
      · exact absurd h hr
      · classical
        refine ⟨Nat.find hex + 1, _, Nat.find hex, Nat.lt_succ_self _, rfl, fun j hj => ?_,
          Nat.find_spec hex⟩
        exact Bool.eq_false_iff.2 (Nat.find_min hex hj)

/-- A batch that yields before the last round ran all its rounds. -/
theorem resume_of_unfinished {rounds fuel : ℕ} {s s' : σ}
    (h : resume finished round rounds fuel s = some s') (hgoing : finished s' = false) :
    rounds ≠ 0 ∧ s' = round^[rounds] s := by
  unfold resume at h
  split_ifs at h with hr
  · obtain ⟨k, hk, heq, -, hlast⟩ := forRange_spec finished round rounds s
    obtain rfl := (Option.some.inj h).symm.trans heq
    rcases Nat.lt_or_eq_of_le hk with hlt | rfl
    · rw [hlast hlt] at hgoing
      cases hgoing
    · exact ⟨hr, rfl⟩
  · obtain ⟨k, -, -, -, hlast⟩ := forCount_eq_some.1 h
    rw [hlast] at hgoing
    cases hgoing

end Rounds
