import Mathlib.Algebra.BigOperators.Group.List.Basic
import Mathlib.Algebra.Order.BigOperators.Group.List
import Mathlib.Tactic.Ring

/-!
# Pools

A pool is drawn on by a sequence of draws of two kinds: a *claim* takes its amount
whether it is there or not, and may leave the pool in debt; a *use* takes what is
there, up to its amount, and leaves a pool in debt alone.

* `drain_bounds` — what is left lies between all taken and the claims alone taken;
* `drain_claims_first` — with the claims first the pool can be used up exactly when
  it lies between the claims and all amounts;
* `drain_eq_zero_of_perm` — a pool without claims, or with just enough for every
  draw, is used up in any order;
* `drain_uses_first_ne_zero` — any other is not, with the uses first.
-/

namespace Pool

/-- One draw on a pool. -/
inductive Draw where
  | claim (amount : ℤ)
  | use (amount : ℤ)

namespace Draw

/-- The pool after a draw. -/
def apply (pool : ℤ) : Draw → ℤ
  | claim a => pool - a
  | use a => if 0 < pool then max (pool - a) 0 else pool

/-- What a draw claims. -/
def claimed : Draw → ℤ
  | claim a => a
  | use _ => 0

/-- What a draw would use. -/
def used : Draw → ℤ
  | claim _ => 0
  | use a => a

/-- No draw is of a negative amount. -/
def NonNeg (d : Draw) : Prop := 0 ≤ d.claimed ∧ 0 ≤ d.used

/-- The draw is a claim. -/
def isClaim : Draw → Bool
  | claim _ => true
  | use _ => false

@[simp] theorem isClaim_claim (a : ℤ) : (claim a).isClaim = true := rfl

@[simp] theorem isClaim_use (a : ℤ) : (use a).isClaim = false := rfl

end Draw

/-- The pool after a sequence of draws. -/
def drain (pool : ℤ) (ds : List Draw) : ℤ := ds.foldl Draw.apply pool

/-- All that is claimed. -/
def claims (ds : List Draw) : ℤ := (ds.map Draw.claimed).sum

/-- All that would be used. -/
def uses (ds : List Draw) : ℤ := (ds.map Draw.used).sum

variable {ds ds' : List Draw} {pool : ℤ}

@[simp] theorem drain_nil (pool : ℤ) : drain pool [] = pool := rfl

@[simp] theorem drain_cons (pool : ℤ) (d : Draw) (ds : List Draw) :
    drain pool (d :: ds) = drain (d.apply pool) ds := rfl

theorem drain_append (pool : ℤ) (ds ds' : List Draw) :
    drain pool (ds ++ ds') = drain (drain pool ds) ds' := List.foldl_append

@[simp] theorem claims_cons (d : Draw) (ds : List Draw) :
    claims (d :: ds) = d.claimed + claims ds := List.sum_cons

@[simp] theorem uses_cons (d : Draw) (ds : List Draw) : uses (d :: ds) = d.used + uses ds :=
  List.sum_cons

theorem claims_perm (h : ds.Perm ds') : claims ds = claims ds' := (h.map _).sum_eq

theorem uses_perm (h : ds.Perm ds') : uses ds = uses ds' := (h.map _).sum_eq

theorem claims_nonneg (h : ∀ d ∈ ds, d.NonNeg) : 0 ≤ claims ds := by
  refine List.sum_nonneg fun a ha => ?_
  obtain ⟨d, hd, rfl⟩ := List.mem_map.1 ha
  exact (h d hd).1

theorem uses_nonneg (h : ∀ d ∈ ds, d.NonNeg) : 0 ≤ uses ds := by
  refine List.sum_nonneg fun a ha => ?_
  obtain ⟨d, hd, rfl⟩ := List.mem_map.1 ha
  exact (h d hd).2

theorem claims_filter (ds : List Draw) : claims (ds.filter Draw.isClaim) = claims ds ∧
    claims (ds.filter fun d => ! d.isClaim) = 0 := by
  induction ds with
  | nil => exact ⟨rfl, rfl⟩
  | cons d ds ih => cases d <;> simp [List.filter_cons, Draw.claimed, ih]

theorem uses_filter (ds : List Draw) : uses (ds.filter fun d => ! d.isClaim) = uses ds ∧
    uses (ds.filter Draw.isClaim) = 0 := by
  induction ds with
  | nil => exact ⟨rfl, rfl⟩
  | cons d ds ih => cases d <;> simp [List.filter_cons, Draw.used, ih]

/-- **What is left**: no less than if every draw was met, no more than if only the
claims were. -/
theorem drain_bounds (pool : ℤ) (h : ∀ d ∈ ds, d.NonNeg) :
    pool - claims ds - uses ds ≤ drain pool ds ∧ drain pool ds ≤ pool - claims ds := by
  induction ds generalizing pool with
  | nil => simp [claims, uses]
  | cons d ds ih =>
    rw [List.forall_mem_cons] at h
    obtain ⟨hlow, hhigh⟩ := ih (d.apply pool) h.2
    obtain ⟨hc, hu⟩ := h.1
    rw [drain_cons, claims_cons, uses_cons]
    cases d with
    | claim a =>
      simp only [Draw.apply, Draw.claimed, Draw.used] at *
      omega
    | use a =>
      simp only [Draw.apply, Draw.claimed, Draw.used] at *
      split_ifs at * <;> omega

/-- A pool with enough for every draw meets them all. -/
theorem drain_of_le (h : ∀ d ∈ ds, d.NonNeg) (hle : claims ds + uses ds ≤ pool) :
    drain pool ds = pool - claims ds - uses ds := by
  induction ds generalizing pool with
  | nil => simp [claims, uses]
  | cons d ds ih =>
    rw [List.forall_mem_cons] at h
    have hc := claims_nonneg h.2
    have hu := uses_nonneg h.2
    obtain ⟨hdc, hdu⟩ := h.1
    rw [claims_cons, uses_cons] at hle ⊢
    have happly : d.apply pool = pool - d.claimed - d.used := by
      cases d with
      | claim a => simp [Draw.apply, Draw.claimed, Draw.used]
      | use a =>
        simp only [Draw.apply, Draw.claimed, Draw.used] at *
        split_ifs <;> omega
    rw [drain_cons, happly, ih h.2 (by omega)]
    ring

/-- Without claims the pool is used down to nothing, and no further. -/
theorem drain_of_claims_eq_zero (h : ∀ d ∈ ds, d.NonNeg) (hc : claims ds = 0) (hp : 0 ≤ pool) :
    drain pool ds = max (pool - uses ds) 0 := by
  induction ds generalizing pool with
  | nil => simp [uses, hp]
  | cons d ds ih =>
    rw [List.forall_mem_cons] at h
    have hrest := claims_nonneg h.2
    have hu := uses_nonneg h.2
    obtain ⟨hdc, hdu⟩ := h.1
    rw [claims_cons] at hc
    rw [uses_cons, drain_cons]
    cases d with
    | claim a =>
      simp only [Draw.apply, Draw.claimed, Draw.used] at *
      rw [ih h.2 (by omega) (by omega)]
      omega
    | use a =>
      simp only [Draw.apply, Draw.claimed, Draw.used] at *
      split_ifs with hpos
      · rw [ih h.2 (by omega) (by omega)]
        omega
      · rw [ih h.2 (by omega) hp]
        omega

/-- **A pool that is used up lies between the claims and all amounts.** -/
theorem between_of_drain_eq_zero (h : ∀ d ∈ ds, d.NonNeg) (hz : drain pool ds = 0) :
    claims ds ≤ pool ∧ pool ≤ claims ds + uses ds := by
  have := drain_bounds pool h
  omega

theorem nonNeg_filter (h : ∀ d ∈ ds, d.NonNeg) (p : Draw → Bool) :
    ∀ d ∈ ds.filter p, d.NonNeg := fun d hd => h d (List.mem_filter.1 hd).1

/-- **With the claims first** such a pool is used up. -/
theorem drain_claims_first (h : ∀ d ∈ ds, d.NonNeg) (hlow : claims ds ≤ pool)
    (hhigh : pool ≤ claims ds + uses ds) :
    drain pool (ds.filter Draw.isClaim ++ ds.filter fun d => ! d.isClaim) = 0 := by
  obtain ⟨hc, hc'⟩ := claims_filter ds
  obtain ⟨hu, hu'⟩ := uses_filter ds
  have hfirst : drain pool (ds.filter Draw.isClaim) = pool - claims ds := by
    rw [drain_of_le (nonNeg_filter h _) (by omega), hc, hu', sub_zero]
  rw [drain_append, hfirst, drain_of_claims_eq_zero (nonNeg_filter h _) hc' (by omega), hu]
  omega

/-- **With the uses first** a pool that has claims, and not enough for every draw,
ends in debt. -/
theorem drain_uses_first_ne_zero (h : ∀ d ∈ ds, d.NonNeg) (hp : 0 ≤ pool) (hclaim : 0 < claims ds)
    (hshort : pool < claims ds + uses ds) :
    drain pool ((ds.filter fun d => ! d.isClaim) ++ ds.filter Draw.isClaim) ≠ 0 := by
  obtain ⟨hc, hc'⟩ := claims_filter ds
  obtain ⟨hu, hu'⟩ := uses_filter ds
  have hhigh := (drain_bounds (max (pool - uses ds) 0) (nonNeg_filter h Draw.isClaim)).2
  rw [drain_append, drain_of_claims_eq_zero (nonNeg_filter h _) hc' hp, hu]
  omega

/-- **In any order** a pool without claims, or with just enough for every draw, is
used up. -/
theorem drain_eq_zero_of_perm (h : ∀ d ∈ ds, d.NonNeg) (hp : 0 ≤ pool)
    (hhigh : pool ≤ claims ds + uses ds) (hfree : claims ds = 0 ∨ pool = claims ds + uses ds)
    (hperm : ds'.Perm ds) : drain pool ds' = 0 := by
  have h' : ∀ d ∈ ds', d.NonNeg := fun d hd => h d (hperm.mem_iff.1 hd)
  rw [← claims_perm hperm, ← uses_perm hperm] at *
  rcases hfree with hc | heq
  · rw [drain_of_claims_eq_zero h' hc hp]
    omega
  · rw [drain_of_le h' (by omega)]
    omega

end Pool
