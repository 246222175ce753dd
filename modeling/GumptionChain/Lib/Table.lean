import GumptionChain.Lib.Csv

/-!
# Tables

Rows in a list, as a relational store keeps them: looking a row up by a unique
key, ordering rows by a key, and fresh row numbers.

* `byKey_eq_some` — on a unique key, a lookup finds exactly the row that has it.
* `orderBy_eq_of_perm` — rows with distinct keys have one ordering, whatever the
  order they were read in; `first_orderBy` — its first row is the least.
* `fresh_notMem` — a fresh number is none of those in use.
-/

namespace Table

variable {α κ : Type*}

/-! ## Lookup by a unique key -/

/-- The first row with a given key. -/
def byKey [DecidableEq κ] (key : α → κ) (k : κ) (rows : List α) : Option α :=
  rows.find? fun a => key a = k

theorem byKey_mem [DecidableEq κ] {key : α → κ} {k : κ} {rows : List α} {a : α}
    (h : byKey key k rows = some a) : a ∈ rows ∧ key a = k :=
  ⟨List.mem_of_find?_eq_some h, by simpa using List.find?_some h⟩

theorem byKey_eq_none [DecidableEq κ] {key : α → κ} {k : κ} {rows : List α} :
    byKey key k rows = none ↔ ∀ a ∈ rows, key a ≠ k := by
  simp [byKey]

theorem byKey_eq_some [DecidableEq κ] {key : α → κ} {k : κ} {rows : List α} {a : α}
    (h : (rows.map key).Nodup) : byKey key k rows = some a ↔ a ∈ rows ∧ key a = k := by
  refine ⟨byKey_mem, fun ⟨ha, hk⟩ => ?_⟩
  cases hb : byKey key k rows with
  | none => exact absurd hk (byKey_eq_none.1 hb a ha)
  | some b =>
    obtain ⟨hbm, hbk⟩ := byKey_mem hb
    rw [List.inj_on_of_nodup_map h hbm ha (hbk.trans hk.symm)]

/-- Rows that come later do not hide earlier ones. -/
theorem byKey_append [DecidableEq κ] {key : α → κ} {k : κ} {rows new : List α} :
    byKey key k (rows ++ new) = (byKey key k rows).or (byKey key k new) := by
  simp [byKey, List.find?_append]

/-- A lookup by a unique key does not depend on the order of the rows. -/
theorem byKey_perm [DecidableEq κ] {key : α → κ} {k : κ} {rows rows' : List α}
    (h : rows.Perm rows') (hn : (rows.map key).Nodup) : byKey key k rows = byKey key k rows' := by
  refine Option.ext fun a => ?_
  rw [byKey_eq_some hn, byKey_eq_some ((h.map key).nodup_iff.1 hn), h.mem_iff]

/-! ## Ordering by a key -/

/-- `ORDER BY key`. -/
def orderBy [LinearOrder κ] (key : α → κ) (rows : List α) : List α :=
  rows.insertionSort fun a b => key a ≤ key b

section OrderBy

variable [LinearOrder κ] {key : α → κ} {rows rows' : List α}

theorem orderBy_perm (key : α → κ) (rows : List α) : (orderBy key rows).Perm rows :=
  List.perm_insertionSort _ _

@[simp] theorem mem_orderBy {a : α} : a ∈ orderBy key rows ↔ a ∈ rows :=
  (orderBy_perm key rows).mem_iff

theorem pairwise_orderBy (key : α → κ) (rows : List α) :
    (orderBy key rows).Pairwise fun a b => key a ≤ key b := by
  have : IsTrans α fun a b => key a ≤ key b := ⟨fun _ _ _ => le_trans⟩
  have : Std.Total fun a b : α => key a ≤ key b := ⟨fun a b => le_total (key a) (key b)⟩
  exact List.pairwise_insertionSort _ rows

/-- Rows already in order stay as they are. -/
theorem orderBy_eq_self (h : rows.Pairwise fun a b => key a ≤ key b) : orderBy key rows = rows :=
  h.insertionSort_eq

/-- Distinct keys leave no choice: any reading order sorts to the same list. -/
theorem orderBy_eq_of_perm (h : rows.Perm rows') (hkey : (rows.map key).Nodup) :
    orderBy key rows = orderBy key rows' := by
  have hperm : (orderBy key rows).Perm (orderBy key rows') :=
    (orderBy_perm key rows).trans (h.trans (orderBy_perm key rows').symm)
  refine hperm.eq_of_pairwise ?_ (pairwise_orderBy key rows) (pairwise_orderBy key rows')
  intro a b ha hb hab hba
  exact List.inj_on_of_nodup_map hkey (mem_orderBy.1 ha) (h.mem_iff.2 (mem_orderBy.1 hb))
    (le_antisymm hab hba)

/-- The first row in order is a least one. -/
theorem first_orderBy {a : α} (h : (orderBy key rows).head? = some a) :
    a ∈ rows ∧ ∀ b ∈ rows, key a ≤ key b := by
  have hp := pairwise_orderBy key rows
  cases hl : orderBy key rows with
  | nil => rw [hl] at h; exact absurd h (by simp)
  | cons x xs =>
    rw [hl, List.head?_cons, Option.some.injEq] at h
    subst h
    rw [hl, List.pairwise_cons] at hp
    refine ⟨mem_orderBy.1 (hl ▸ List.mem_cons_self ..), fun b hb => ?_⟩
    have hb' : b ∈ x :: xs := hl ▸ mem_orderBy.2 hb
    rcases List.mem_cons.1 hb' with rfl | hb'
    · exact le_refl _
    · exact hp.1 b hb'

theorem first_orderBy_isSome (key : α → κ) (h : rows ≠ []) : ((orderBy key rows).head?).isSome := by
  cases hl : orderBy key rows with
  | nil => exact absurd (List.perm_nil.1 (hl ▸ (orderBy_perm key rows).symm)) h
  | cons x xs => rfl

/-- Rows numbered as they are made are in the order of their numbers. -/
theorem orderBy_mapIdx {β : Type*} {num : α → ℕ} {f : ℕ → β → α} (hf : ∀ k b, num (f k b) = k)
    (l : List β) : orderBy num (l.mapIdx f) = l.mapIdx f := by
  refine orderBy_eq_self (List.pairwise_iff_getElem.2 fun i j hi hj hij => ?_)
  rw [List.getElem_mapIdx, List.getElem_mapIdx, hf, hf]
  exact hij.le

end OrderBy

/-- Rows made one by one from a list, read back one by one. -/
theorem map_mapIdx_eq {β : Type*} {f : ℕ → β → α} {g : α → β} {l : List β}
    (h : ∀ k, ∀ b ∈ l, g (f k b) = b) : (l.mapIdx f).map g = l := by
  refine List.ext_getElem (by simp) fun i h1 h2 => ?_
  rw [List.getElem_map, List.getElem_mapIdx]
  exact h i _ (List.getElem_mem h2)

/-! ## Fresh row numbers -/

/-- One more than the largest number in use. -/
def fresh (ids : List ℕ) : ℕ := ids.foldr max 0 + 1

theorem lt_fresh {ids : List ℕ} {i : ℕ} (h : i ∈ ids) : i < fresh ids := by
  refine Nat.lt_succ_of_le ?_
  induction ids with
  | nil => exact absurd h List.not_mem_nil
  | cons j ids ih =>
    rw [List.foldr_cons]
    rcases List.mem_cons.1 h with rfl | h
    · exact le_max_left ..
    · exact (ih h).trans (le_max_right ..)

theorem fresh_notMem (ids : List ℕ) : fresh ids ∉ ids := fun h => lt_irrefl _ (lt_fresh h)

end Table
