import GumptionChain.Lib.Table
import Mathlib.Algebra.BigOperators.Group.List.Basic
import Mathlib.Algebra.BigOperators.Ring.List

/-!
# Unspent outputs

A history of outputs: created under a key each, and some keys spent.  A key is
created once, spent once at most, and spent only if it was created.

* `History.worth_eq` — what is unspent is worth what was created less what was
  spent;
* `History.worth_grow` — so more outputs and spends change the worth by what they
  create less what they spend, each spend at the worth of what it spends.
-/

namespace Utxo

variable {κ α : Type*} [DecidableEq κ]

/-- Outputs created and keys spent. -/
structure History (κ α : Type*) [DecidableEq κ] where
  created : List (κ × α)
  spent : List κ
  created_nodup : (created.map Prod.fst).Nodup
  spent_nodup : spent.Nodup
  spent_created : ∀ k ∈ spent, k ∈ created.map Prod.fst

namespace History

/-- The output under a key. -/
def output (h : History κ α) (k : κ) : Option α := (Table.byKey Prod.fst k h.created).map Prod.snd

/-- The outputs whose keys are not spent. -/
def unspent (h : History κ α) : List (κ × α) := h.created.filter fun p => p.1 ∉ h.spent

/-- What the unspent outputs are worth. -/
def worth (w : α → ℤ) (h : History κ α) : ℤ := (h.unspent.map fun p => w p.2).sum

/-- What the spent keys were worth. -/
def cost (w : α → ℤ) (h : History κ α) (ks : List κ) : ℤ :=
  (ks.map fun k => ((h.output k).map w).getD 0).sum

theorem output_eq_some {h : History κ α} {k : κ} {a : α} :
    h.output k = some a ↔ (k, a) ∈ h.created := by
  rw [output, Option.map_eq_some_iff]
  constructor
  · rintro ⟨p, hp, rfl⟩
    obtain ⟨hm, rfl⟩ := Table.byKey_mem hp
    exact hm
  · exact fun hm => ⟨(k, a), (Table.byKey_eq_some h.created_nodup).2 ⟨hm, rfl⟩, rfl⟩

/-- **Unspent is created less spent.** -/
theorem worth_eq (w : α → ℤ) (h : History κ α) :
    h.worth w + h.cost w h.spent = (h.created.map fun p => w p.2).sum := by
  -- the spent outputs, in the order they were created, are those of the spent keys
  have hperm : ((h.created.filter fun p => p.1 ∈ h.spent).map Prod.fst).Perm h.spent := by
    refine (List.perm_ext_iff_of_nodup ?_ h.spent_nodup).2 fun k => ?_
    · exact h.created_nodup.sublist (List.filter_sublist.map _)
    · rw [List.mem_map]
      constructor
      · rintro ⟨p, hp, rfl⟩
        exact of_decide_eq_true (List.mem_filter.1 hp).2
      · intro hk
        obtain ⟨p, hp, rfl⟩ := List.mem_map.1 (h.spent_created k hk)
        exact ⟨p, List.mem_filter.2 ⟨hp, decide_eq_true hk⟩, rfl⟩
  have hcost : h.cost w h.spent =
      ((h.created.filter fun p => p.1 ∈ h.spent).map fun p => w p.2).sum := by
    rw [cost, ← (hperm.map _).sum_eq, List.map_map]
    refine congrArg List.sum (List.map_congr_left fun p hp => ?_)
    rw [Function.comp_apply, output_eq_some.2 (List.mem_filter.1 hp).1]
    rfl
  rw [hcost, worth, unspent]
  have hsplit := List.sum_map_filter_add_sum_map_filter_not (fun p : κ × α => p.1 ∈ h.spent)
    (fun p => w p.2) h.created
  omega

/-- A longer history gives the old keys their old outputs. -/
theorem output_of_subset {h h' : History κ α} (hsub : ∀ p ∈ h.created, p ∈ h'.created) {k : κ}
    (hk : k ∈ h.created.map Prod.fst) : h'.output k = h.output k := by
  obtain ⟨p, hp, rfl⟩ := List.mem_map.1 hk
  rw [output_eq_some.2 (hsub p hp), output_eq_some.2 hp]

/-- **Growth.** -/
theorem worth_grow (w : α → ℤ) {h h' : History κ α} {new : List (κ × α)} {spends : List κ}
    (hc : h'.created = new ++ h.created) (hs : h'.spent = spends ++ h.spent) :
    h'.worth w = h.worth w + (new.map fun p => w p.2).sum - h'.cost w spends := by
  have h1 := h.worth_eq w
  have h2 := h'.worth_eq w
  have hold : h'.cost w h.spent = h.cost w h.spent := by
    refine congrArg List.sum (List.map_congr_left fun k hk => ?_)
    rw [output_of_subset (fun p hp => hc ▸ List.mem_append_right _ hp) (h.spent_created k hk)]
  have hcost : h'.cost w h'.spent = h'.cost w spends + h'.cost w h.spent := by
    rw [cost, cost, cost, hs, List.map_append, List.sum_append]
  rw [hc, List.map_append, List.sum_append] at h2
  omega

end History

end Utxo
