import GumptionChain.Lib.Csv

/-!
# Tallies

Amounts kept by key: a dictionary of integers in which an absent key counts as
zero (`d.get(k, 0)`).

* `get_add`, `get_put` — what the updates do at each key;
* `sum_get` — a sum over the keys does not depend on which list of distinct keys
  is summed over, so long as it has all of them;
* `sum_map_eq` — nor on which finite set;
* `total_add`, `total_put` — how the sum of all amounts moves.
-/

/-- A dictionary of integers. -/
abbrev Tally (κ : Type*) := AList fun _ : κ => ℤ

namespace Tally

variable {κ : Type*} [DecidableEq κ]

/-- `d.get(k, 0)`. -/
def get (t : Tally κ) (k : κ) : ℤ := (t.lookup k).getD 0

/-- `d[k] = v`. -/
def put (t : Tally κ) (k : κ) (v : ℤ) : Tally κ := t.insert k v

/-- `d[k] = d.get(k, 0) + v`. -/
def add (t : Tally κ) (k : κ) (v : ℤ) : Tally κ := t.put k (t.get k + v)

/-- `d.values()`. -/
def values (t : Tally κ) : List ℤ := t.keys.map t.get

/-- The sum of all amounts. -/
def total (t : Tally κ) : ℤ := t.values.sum

@[simp] theorem get_empty (k : κ) : get (∅ : Tally κ) k = 0 := by
  rw [get, AList.lookup_empty]
  rfl

@[simp] theorem total_empty : total (∅ : Tally κ) = 0 := by
  rw [total, values, AList.keys_empty]
  rfl

theorem get_eq_zero {t : Tally κ} {k : κ} (h : k ∉ t.keys) : t.get k = 0 := by
  rw [get, AList.lookup_eq_none.2 h]
  rfl

theorem get_put (t : Tally κ) (k : κ) (v : ℤ) (k' : κ) :
    (t.put k v).get k' = if k' = k then v else t.get k' := by
  split_ifs with h
  · rw [h, get, put, AList.lookup_insert]
    rfl
  · rw [get, put, AList.lookup_insert_ne h, get]

theorem get_add (t : Tally κ) (k : κ) (v : ℤ) (k' : κ) :
    (t.add k v).get k' = t.get k' + if k' = k then v else 0 := by
  rw [add, get_put]
  split_ifs with h
  · rw [h]
  · rw [add_zero]

/-- Any list of distinct keys that has all of a tally's sums to its total. -/
theorem sum_get {t : Tally κ} {ks : List κ} (hn : ks.Nodup) (hsub : t.keys ⊆ ks) :
    (ks.map t.get).sum = t.total := by
  rw [total, values, ← List.sum_toFinset _ hn, ← List.sum_toFinset _ t.keys_nodup]
  refine (Finset.sum_subset (fun k hk => ?_) fun k _ hk => ?_).symm
  · exact List.mem_toFinset.2 (hsub (List.mem_toFinset.1 hk))
  · exact get_eq_zero fun h => hk (List.mem_toFinset.2 h)

/-- A sum over distinct keys is a sum over any finite set, where neither leaves out a
key that counts. -/
theorem sum_map_eq {ks : List κ} (hn : ks.Nodup) {S : Finset κ} {f : κ → ℤ}
    (hks : ∀ k ∉ ks, f k = 0) (hS : ∀ k ∉ S, f k = 0) : (ks.map f).sum = ∑ k ∈ S, f k := by
  rw [← List.sum_toFinset f hn,
    Finset.sum_subset Finset.subset_union_left fun k _ hk => hks k fun h => hk (List.mem_toFinset.2 h),
    ← Finset.sum_subset Finset.subset_union_right fun k _ hk => hS k hk]

theorem total_put (t : Tally κ) (k : κ) (v : ℤ) : (t.put k v).total = t.total - t.get k + v := by
  have hn : (k :: t.keys.erase k).Nodup := by
    have h := (t.put k v).keys_nodup
    rwa [put, AList.keys_insert] at h
  have hold : ((k :: t.keys.erase k).map t.get).sum = t.total :=
    sum_get hn fun x hx => by
      by_cases hxk : x = k
      · exact hxk ▸ List.mem_cons_self ..
      · exact List.mem_cons_of_mem _ ((List.mem_erase_of_ne hxk).2 hx)
  have hrest : (t.keys.erase k).map (t.put k v).get = (t.keys.erase k).map t.get := by
    refine List.map_congr_left fun x hx => ?_
    rw [get_put, if_neg]
    rintro rfl
    exact (List.nodup_cons.1 hn).1 hx
  rw [List.map_cons, List.sum_cons] at hold
  have hput : (t.put k v).total = v + ((t.keys.erase k).map t.get).sum := by
    rw [total, values]
    conv_lhs => rw [put, AList.keys_insert, ← put]
    rw [List.map_cons, List.sum_cons, hrest, get_put, if_pos rfl]
  omega

theorem total_add (t : Tally κ) (k : κ) (v : ℤ) : (t.add k v).total = t.total + v := by
  rw [add, total_put]
  ring

/-- All amounts are zero when every value is. -/
theorem forall_values {t : Tally κ} : (∀ v ∈ t.values, v = 0) ↔ ∀ k, t.get k = 0 := by
  rw [values, List.forall_mem_map]
  refine ⟨fun h k => ?_, fun h k _ => h k⟩
  by_cases hk : k ∈ t.keys
  · exact h k hk
  · exact get_eq_zero hk

theorem total_eq_zero {t : Tally κ} (h : ∀ k, t.get k = 0) : t.total = 0 :=
  List.sum_eq_zero (forall_values.2 h)

end Tally
