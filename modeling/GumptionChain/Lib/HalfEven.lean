import Mathlib.Algebra.Order.Field.Rat
import Mathlib.Algebra.Order.Ring.Abs
import Mathlib.Algebra.Ring.Parity
import Mathlib.Algebra.Order.Group.Unbundled.Int
import Mathlib.Tactic.Linarith
import Mathlib.Tactic.Ring

/-!
# Rounding to the nearest, ties to even

* `HalfEven.Nearest` — the multiple of a unit that is nearest to a number, the even one
  at a tie;
* `HalfEven.nearest_div` — division that rounds so;
* `HalfEven.Nearest.eq_of_even` — an even multiple within half a unit is the nearest.
-/

namespace HalfEven

/-- `m` units are nearest to `w`. -/
structure Nearest (u w : ℚ) (m : ℤ) : Prop where
  close : 2 * |w - m * u| ≤ u
  even : 2 * |w - m * u| = u → Even m

/-- `c / d`, rounded. -/
def div (c d : ℕ) : ℕ :=
  if d < 2 * (c % d) ∨ (d = 2 * (c % d) ∧ c / d % 2 = 1) then c / d + 1 else c / d

theorem div_le (c d : ℕ) : div c d ≤ c / d + 1 := by
  unfold div
  split_ifs <;> omega

theorem nearest_div {c d : ℕ} (hd : 0 < d) : Nearest d c (div c d) := by
  have hmod := Nat.mod_lt c hd
  have hsplit : (c : ℚ) = d * (c / d : ℕ) + (c % d : ℕ) := by
    exact_mod_cast (Nat.div_add_mod c d).symm
  have hmod' : ((c % d : ℕ) : ℚ) < d := by exact_mod_cast hmod
  have hnn : (0 : ℚ) ≤ (c % d : ℕ) := Nat.cast_nonneg _
  unfold div
  generalize c / d = q at *
  generalize c % d = r at *
  split_ifs with h
  · have hdist : |(c : ℚ) - ((q + 1 : ℕ) : ℤ) * d| = d - r := by
      rw [hsplit, abs_of_nonpos]
      · push_cast
        ring
      · push_cast
        linarith
    have hle : (d : ℚ) ≤ 2 * r := by
      rcases h with h | ⟨h, -⟩
      · exact_mod_cast h.le
      · exact_mod_cast h.le
    refine ⟨by rw [hdist]; linarith, fun htie => ?_⟩
    rw [hdist] at htie
    have heq : d = 2 * r := by
      have : (d : ℚ) = 2 * r := by linarith
      exact_mod_cast this
    have hodd : q % 2 = 1 := by
      rcases h with h | ⟨-, h⟩
      · omega
      · exact h
    rw [Int.even_coe_nat, Nat.even_iff]
    omega
  · have hdist : |(c : ℚ) - (q : ℤ) * d| = r := by
      rw [hsplit, abs_of_nonneg]
      · push_cast
        ring
      · push_cast
        linarith
    rw [not_or, not_lt, not_and] at h
    have hle : 2 * (r : ℚ) ≤ d := by exact_mod_cast h.1
    refine ⟨by rw [hdist]; exact hle, fun htie => ?_⟩
    rw [hdist] at htie
    have heq : d = 2 * r := by exact_mod_cast htie.symm
    have hne := h.2 heq
    rw [Int.even_coe_nat, Nat.even_iff]
    omega

namespace Nearest

variable {u w : ℚ} {m : ℤ}

theorem of_eq (hu : 0 < u) (h : w = m * u) : Nearest u w m := by
  have hzero : 2 * |w - m * u| = 0 := by rw [h, sub_self, abs_zero, mul_zero]
  exact ⟨hzero.trans_le hu.le, fun htie => absurd (hzero.symm.trans htie) hu.ne⟩

/-- The nearest multiple is that of the scaled number. -/
theorem scale (h : Nearest u w m) {t : ℚ} (ht : 0 < t) : Nearest (u * t) (w * t) m := by
  have hdist : |w * t - m * (u * t)| = |w - m * u| * t := by
    rw [← abs_of_pos ht, ← abs_mul, abs_of_pos ht]
    congr 1
    ring
  refine ⟨?_, fun htie => h.even ?_⟩
  · rw [hdist, ← mul_assoc]
    exact mul_le_mul_of_nonneg_right h.close ht.le
  · rw [hdist, ← mul_assoc] at htie
    exact mul_right_cancel₀ ht.ne' htie

/-- An even multiple within half a unit is the nearest. -/
theorem eq_of_even (h : Nearest u w m) (hu : 0 < u) {n : ℤ} (hn : Even n)
    (hclose : 2 * |w - n * u| ≤ u) : m = n := by
  have hsum : |((m - n : ℤ) : ℚ)| * u ≤ |w - m * u| + |w - n * u| := by
    have htri := abs_sub (w - n * u) (w - m * u)
    have heq : w - n * u - (w - m * u) = ((m - n : ℤ) : ℚ) * u := by push_cast; ring
    rw [heq, abs_mul, abs_of_pos hu] at htri
    linarith
  have hone : |m - n| ≤ 1 := by
    have : |((m - n : ℤ) : ℚ)| * u ≤ 1 * u := by linarith [h.close]
    have := le_of_mul_le_mul_right this hu
    exact_mod_cast this
  by_contra hne
  have habs : |m - n| = 1 :=
    le_antisymm hone (Int.one_le_abs (sub_ne_zero.2 hne))
  -- a unit apart, both are at a tie
  have htie : 2 * |w - m * u| = u := by
    have hcast : |((m - n : ℤ) : ℚ)| = 1 := by exact_mod_cast habs
    rw [hcast, one_mul] at hsum
    linarith [h.close]
  have hm := h.even htie
  have hdiff : Even (m - n) := hm.sub hn
  rcases (abs_eq (by norm_num)).1 habs with h1 | h1 <;> rw [h1] at hdiff
  · exact absurd hdiff (by decide)
  · exact absurd hdiff (by decide)

/-- A multiple is nearest to itself. -/
theorem eq_of_exact (h : Nearest u w m) (hu : 0 < u) {n : ℤ} (hn : w = n * u) : m = n := by
  have hdist : |((n - m : ℤ) : ℚ)| * u = |w - m * u| := by
    rw [hn, ← abs_of_pos hu, ← abs_mul, abs_of_pos hu]
    congr 1
    push_cast
    ring
  have hlt : |((n - m : ℤ) : ℚ)| * u < 1 * u := by
    rw [hdist]
    linarith [h.close]
  have hlt := lt_of_mul_lt_mul_right hlt hu.le
  have : |n - m| < 1 := by exact_mod_cast hlt
  have := Int.abs_lt_one_iff.1 this
  omega

end Nearest

end HalfEven
