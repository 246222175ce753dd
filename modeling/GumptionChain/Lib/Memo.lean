import Mathlib.Logic.Function.Basic
import Mathlib.Tactic.SplitIfs

/-!
# Answers kept under a version

A cache of answers to queries about a state, under keys made of the query and a version
of the state.  An entry is never taken back: what keeps it from being wrong is that the
version changes with the answers.

* `Memo.Coherent` — what is kept under the present version is the present answer;
* `Memo.Coherent.step` — it stays so when the state changes, if the version is a new one
  or the kept answers stay;
* `Memo.Coherent.store`, `Memo.Coherent.shrink` — and when the cache does.
-/

namespace Memo

variable {σ ν κ K β : Type*}

/-- Keys of different versions or queries differ. -/
structure Keyed (key : ν → κ → K) (version : ν → Prop) (query : κ → Prop) : Prop where
  inj : ∀ {n n' q q'}, version n → version n' → query q → query q' → key n q = key n' q' →
    n = n' ∧ q = q'

section

variable (key : ν → κ → K) (version : σ → ν) (past : σ → ν → Prop) (query : κ → Prop)
  (answer : σ → κ → β → Prop)

/-- Entries stand under past versions, and those of the present one are answers. -/
structure Coherent (s : σ) (cache : K → Option β) : Prop where
  past : ∀ k v, cache k = some v → ∃ n q, past s n ∧ query q ∧ k = key n q
  current : ∀ q v, query q → cache (key (version s) q) = some v → answer s q v

end

variable {key : ν → κ → K} {version : σ → ν} {past : σ → ν → Prop} {query : κ → Prop}
  {answer : σ → κ → β → Prop} {valid : ν → Prop} {s s' : σ} {cache cache' : K → Option β}

theorem Coherent.empty : Coherent key version past query answer s fun _ => none :=
  ⟨fun _ _ h => (nomatch h), fun _ _ _ h => (nomatch h)⟩

/-- Entries may be lost. -/
theorem Coherent.shrink (h : Coherent key version past query answer s cache)
    (hcache : ∀ k, cache' k = none ∨ cache' k = cache k) :
    Coherent key version past query answer s cache' := by
  have hold : ∀ {k v}, cache' k = some v → cache k = some v := fun {k v} hk => by
    rcases hcache k with hnone | heq
    · exact absurd (hk.symm.trans hnone) (by simp)
    · exact heq ▸ hk
  exact ⟨fun k v hk => h.past k v (hold hk), fun q v hq hk => h.current q v hq (hold hk)⟩

/-- An answer is kept under the present version. -/
theorem Coherent.store [DecidableEq K] (hkey : Keyed key valid query)
    (hvalid : ∀ n, past s n → valid n) (h : Coherent key version past query answer s cache)
    (hnow : past s (version s)) {q : κ} (hq : query q) {v : β} (hv : answer s q v) :
    Coherent key version past query answer s
      (Function.update cache (key (version s) q) (some v)) := by
  constructor
  · intro k w hk
    rw [Function.update_apply] at hk
    split_ifs at hk with heq
    · exact ⟨version s, q, hnow, hq, heq⟩
    · exact h.past k w hk
  · intro q' w hq' hk
    rw [Function.update_apply] at hk
    split_ifs at hk with heq
    · obtain ⟨-, rfl⟩ := hkey.inj (hvalid _ hnow) (hvalid _ hnow) hq' hq heq
      exact Option.some.inj hk ▸ hv
    · exact h.current q' w hq' hk

/-- **The state changes**: its version stays, and the answers that are kept under it, or
it is none of the past ones. -/
theorem Coherent.step (hkey : Keyed key valid query) (hvalid : ∀ n, past s n → valid n)
    (h : Coherent key version past query answer s cache) (hpast : ∀ n, past s n → past s' n)
    (hstep : (version s' = version s ∧ ∀ q v, query q → cache (key (version s) q) = some v →
        answer s q v → answer s' q v) ∨ (valid (version s') ∧ ¬ past s (version s'))) :
    Coherent key version past query answer s' cache := by
  refine ⟨fun k v hk => ?_, fun q v hq hk => ?_⟩
  · obtain ⟨n, q, hn, hq, rfl⟩ := h.past k v hk
    exact ⟨n, q, hpast n hn, hq, rfl⟩
  · rcases hstep with ⟨hsame, hkept⟩ | ⟨hnew, hnone⟩
    · rw [hsame] at hk
      exact hkept q v hq hk (h.current q v hq hk)
    · obtain ⟨n, q', hn, hq', heq⟩ := h.past _ v hk
      obtain ⟨rfl, -⟩ := hkey.inj hnew (hvalid n hn) hq hq' heq
      exact absurd hn hnone

end Memo
