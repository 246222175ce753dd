import GumptionChain.Lib.Table
import Mathlib.Algebra.BigOperators.Group.List.Basic

/-!
# Queries

Select statements over tables kept as lists: inner joins, groups with an
aggregate, limits.

* `join_perm`, `groupBy_perm` — the rows of a statement do not depend on the order
  of the rows it reads;
* `join_eq_map` — a join along a foreign key finds one partner for each row.
-/

namespace Query

variable {α β γ κ : Type*}

/-! ## Joins -/

/-- `FROM as JOIN bs ON on a b`. -/
def join (on : α → β → Bool) (as : List α) (bs : List β) : List (α × β) :=
  as.flatMap fun a => (bs.filter (on a)).map fun b => (a, b)

variable {on : α → β → Bool} {as as' : List α} {bs : List β}

theorem mem_join {p : α × β} : p ∈ join on as bs ↔ p.1 ∈ as ∧ p.2 ∈ bs ∧ on p.1 p.2 = true := by
  simp only [join, List.mem_flatMap, List.mem_map, List.mem_filter]
  constructor
  · rintro ⟨a, ha, b, ⟨hb, hon⟩, rfl⟩
    exact ⟨ha, hb, hon⟩
  · rintro ⟨ha, hb, hon⟩
    exact ⟨p.1, ha, p.2, ⟨hb, hon⟩, rfl⟩

theorem join_perm (h : as.Perm as') : (join on as bs).Perm (join on as' bs) :=
  h.flatMap_right _

theorem join_nodup (ha : as.Nodup) (hb : bs.Nodup) : (join on as bs).Nodup := by
  refine List.nodup_flatMap.2 ⟨fun a _ => (hb.filter _).map fun x y h => (Prod.mk.inj h).2,
    ha.imp fun {a b} hab => ?_⟩
  intro p hp hq
  obtain ⟨x, -, rfl⟩ := List.mem_map.1 hp
  obtain ⟨y, -, heq⟩ := List.mem_map.1 hq
  exact hab (Prod.mk.inj heq).1.symm

/-- Each row has one partner: the join pairs them up. -/
theorem join_eq_map {f : α → β} (h : ∀ a ∈ as, bs.filter (on a) = [f a]) :
    join on as bs = as.map fun a => (a, f a) := by
  induction as with
  | nil => rfl
  | cons a as ih =>
    rw [List.forall_mem_cons] at h
    rw [join, List.flatMap_cons, h.1, List.map_cons, ← join, ih h.2]
    rfl

/-- A join along a key that is unique among the partners. -/
theorem filter_key_eq [DecidableEq κ] {key : β → κ} {b : β} (hn : (bs.map key).Nodup)
    (hb : b ∈ bs) : bs.filter (fun x => decide (key x = key b)) = [b] := by
  induction bs with
  | nil => exact absurd hb List.not_mem_nil
  | cons c bs ih =>
    rw [List.map_cons, List.nodup_cons] at hn
    rcases List.mem_cons.1 hb with rfl | hb
    · rw [List.filter_cons_of_pos (by simp), List.filter_eq_nil_iff.2]
      intro x hx hk
      exact hn.1 (List.mem_map.2 ⟨x, hx, by simpa using hk⟩)
    · rw [List.filter_cons_of_neg, ih hn.2 hb]
      intro hk
      exact hn.1 (List.mem_map.2 ⟨b, hb, (by simpa using hk : key c = key b).symm⟩)

/-! ## Groups -/

/-- `SELECT key, agg(...) GROUP BY key`. -/
def groupBy [DecidableEq κ] (key : α → κ) (agg : List α → γ) (rows : List α) : List (κ × γ) :=
  (rows.map key).dedup.map fun k => (k, agg (rows.filter fun a => key a = k))

section

variable [DecidableEq κ] {key : α → κ} {agg : List α → γ} {rows rows' : List α}

theorem groupBy_perm (hagg : ∀ l l', l.Perm l' → agg l = agg l') (h : rows.Perm rows') :
    (groupBy key agg rows).Perm (groupBy key agg rows') := by
  rw [groupBy, groupBy, List.map_congr_left fun k _ =>
    congrArg (Prod.mk k) (hagg _ _ (h.filter fun a => decide (key a = k)))]
  exact (h.map key).dedup.map _

theorem groupBy_map (key : α → κ) (agg : List α → γ) (f : β → α) (l : List β) :
    groupBy key agg (l.map f) = groupBy (fun b => key (f b)) (fun l => agg (l.map f)) l := by
  rw [groupBy, groupBy, List.map_map]
  refine List.map_congr_left fun k _ => ?_
  rw [List.filter_map]
  rfl

/-- Each key has one group. -/
theorem groupBy_keys_nodup : ((groupBy key agg rows).map Prod.fst).Nodup := by
  rw [groupBy, List.map_map]
  exact (List.map_id _).symm ▸ List.nodup_dedup _

end

/-- `LIMIT`. -/
def limit : Option ℕ → List α → List α
  | none, rows => rows
  | some n, rows => rows.take n

end Query
