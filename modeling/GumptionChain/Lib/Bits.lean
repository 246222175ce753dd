import Mathlib.Data.List.Basic
import Mathlib.Data.Nat.Bitwise
import Mathlib.Tactic.Ring

/-!
# Bits, the highest first

Numbers of a fixed width as lists of their bits, and a row of such numbers as one list.

* `Bits.toNat_ofNat`, `Bits.ofNat_toNat` — a number and its bits determine each other;
* `Bits.flatMap_eq_of_groups` — a row of numbers whose groups are those of a list;
* `Bits.flatMap_set` — one bit of one number set.
-/

namespace Bits

/-- The `w` lowest bits of a number: `(n >> i) & 1` for `i` from `w - 1` down. -/
def ofNat (w n : ℕ) : List ℕ := (List.range w).reverse.map fun i => (n >>> i) &&& 1

/-- The number that bits spell: `(n << 1) | bit` over the list. -/
def toNat (bits : List ℕ) : ℕ := bits.foldl (fun n bit => (n <<< 1) ||| bit) 0

theorem toNat_append_singleton (bits : List ℕ) (b : ℕ) :
    toNat (bits ++ [b]) = (toNat bits <<< 1) ||| b :=
  List.foldl_append

@[simp] theorem length_ofNat (w n : ℕ) : (ofNat w n).length = w := by simp [ofNat]

theorem ofNat_succ (w n : ℕ) : ofNat (w + 1) n = ((n >>> w) &&& 1) :: ofNat w n := by
  rw [ofNat, List.range_succ, List.reverse_append, List.reverse_singleton, List.singleton_append,
    List.map_cons, ← ofNat]

theorem lt_two_of_mem_ofNat {w n b : ℕ} (h : b ∈ ofNat w n) : b < 2 := by
  obtain ⟨i, -, rfl⟩ := List.mem_map.1 h
  rw [Nat.and_one_is_mod]
  exact Nat.mod_lt _ Nat.two_pos

theorem getElem_ofNat' {w n i : ℕ} (h : i < (ofNat w n).length) :
    (ofNat w n)[i] = (n >>> (w - 1 - i)) &&& 1 := by
  simp only [ofNat, List.getElem_map, List.getElem_reverse, List.length_range, List.getElem_range]

theorem getElem_ofNat {w n i : ℕ} (h : i < (ofNat w n).length) :
    (ofNat w n)[i] = (n.testBit (w - 1 - i)).toNat := by
  rw [getElem_ofNat', Nat.and_one_is_mod, Nat.testBit_eq_decide_div_mod_eq, Nat.shiftRight_eq_div_pow]
  rcases Nat.mod_two_eq_zero_or_one (n / 2 ^ (w - 1 - i)) with h | h <;> simp [h]

theorem shiftLeft_or {n b : ℕ} (hb : b < 2) : (n <<< 1) ||| b = 2 * n + b := by
  have := Nat.two_pow_add_eq_or_of_lt (i := 1) (b := b) hb n
  rw [Nat.shiftLeft_eq, pow_one, Nat.mul_comm, ← this, pow_one]

theorem foldl_eq {bits : List ℕ} (h : ∀ b ∈ bits, b < 2) (n : ℕ) :
    bits.foldl (fun n bit => (n <<< 1) ||| bit) n = n * 2 ^ bits.length + toNat bits := by
  induction bits generalizing n with
  | nil => simp [toNat]
  | cons b bits ih =>
    obtain ⟨hb, hbits⟩ := List.forall_mem_cons.1 h
    rw [toNat, List.foldl_cons, List.foldl_cons, ih hbits, ih hbits, shiftLeft_or hb,
      shiftLeft_or hb, List.length_cons, pow_succ]
    ring

theorem toNat_cons {b : ℕ} {bits : List ℕ} (h : ∀ c ∈ b :: bits, c < 2) :
    toNat (b :: bits) = b * 2 ^ bits.length + toNat bits := by
  obtain ⟨hb, hbits⟩ := List.forall_mem_cons.1 h
  rw [toNat, List.foldl_cons, foldl_eq hbits, shiftLeft_or hb, Nat.mul_zero, Nat.zero_add]

theorem toNat_lt {bits : List ℕ} (h : ∀ b ∈ bits, b < 2) : toNat bits < 2 ^ bits.length := by
  induction bits with
  | nil => exact Nat.one_pos
  | cons b bits ih =>
    obtain ⟨hb, hbits⟩ := List.forall_mem_cons.1 h
    have := ih hbits
    rw [toNat_cons h, List.length_cons, pow_succ]
    rcases Nat.lt_succ_iff_lt_or_eq.1 hb with hb | hb
    · obtain rfl : b = 0 := by omega
      omega
    · rw [hb]
      omega

/-- A number is what its bits spell. -/
theorem toNat_ofNat (w n : ℕ) : toNat (ofNat w n) = n % 2 ^ w := by
  induction w with
  | zero => simp [ofNat, toNat, Nat.mod_one]
  | succ w ih =>
    rw [ofNat_succ, toNat_cons, ih, length_ofNat, Nat.and_one_is_mod, Nat.shiftRight_eq_div_pow,
      pow_succ, Nat.mod_mul, Nat.mul_comm, Nat.add_comm]
    rw [← ofNat_succ]
    exact fun c hc => lt_two_of_mem_ofNat hc

theorem toNat_ofNat_of_lt {w n : ℕ} (h : n < 2 ^ w) : toNat (ofNat w n) = n := by
  rw [toNat_ofNat, Nat.mod_eq_of_lt h]

theorem ofNat_injOn {w m n : ℕ} (hm : m < 2 ^ w) (hn : n < 2 ^ w) (h : ofNat w m = ofNat w n) :
    m = n := by
  rw [← toNat_ofNat_of_lt hm, h, toNat_ofNat_of_lt hn]

/-- The higher bits of a number do not show. -/
theorem ofNat_mod (w n : ℕ) : ofNat w (n % 2 ^ w) = ofNat w n := by
  refine List.ext_getElem (by simp) fun i hi hi' => ?_
  rw [length_ofNat] at hi
  rw [getElem_ofNat, getElem_ofNat, Nat.testBit_mod_two_pow, decide_eq_true (by omega),
    Bool.true_and]

/-- Bits are those of the number that they spell. -/
theorem ofNat_toNat {bits : List ℕ} (h : ∀ b ∈ bits, b < 2) :
    ofNat bits.length (toNat bits) = bits := by
  induction bits with
  | nil => rfl
  | cons b bits ih =>
    obtain ⟨hb, hbits⟩ := List.forall_mem_cons.1 h
    have hlt := toNat_lt hbits
    rw [List.length_cons, ofNat_succ, toNat_cons h, ← ofNat_mod,
      Nat.mul_add_mod', ofNat_mod, ih hbits,
      Nat.shiftRight_eq_div_pow, Nat.add_comm, Nat.add_mul_div_right _ _ (Nat.two_pow_pos _),
      Nat.div_eq_of_lt hlt, Nat.zero_add, Nat.and_one_is_mod, Nat.mod_eq_of_lt hb]

/-- A bit that is clear set by an `or`. -/
theorem ofNat_or {w n j bit : ℕ} (hj : j < w) (hbit : bit < 2) (hclear : (ofNat w n)[j]? = some 0) :
    ofNat w (n ||| (bit <<< (w - 1 - j))) = (ofNat w n).set j bit := by
  have hzero : n.testBit (w - 1 - j) = false := by
    have hlt : j < (ofNat w n).length := by rwa [length_ofNat]
    rw [List.getElem?_eq_getElem hlt, getElem_ofNat, Option.some.injEq, Bool.toNat_eq_zero] at hclear
    exact hclear
  refine List.ext_getElem (by simp) fun i hi hi' => ?_
  rw [length_ofNat] at hi
  rw [getElem_ofNat, List.getElem_set, Nat.testBit_or, Nat.testBit_shiftLeft]
  obtain rfl | rfl : bit = 0 ∨ bit = 1 := by omega
  · rw [Nat.zero_testBit, Bool.and_false, Bool.or_false]
    split
    next h => rw [← h, hzero]; rfl
    next h => rw [getElem_ofNat]
  · split
    next h => rw [← h, hzero, decide_eq_true (le_refl _), Nat.sub_self]; rfl
    next h =>
      rw [getElem_ofNat]
      have hne : w - 1 - i ≠ w - 1 - j := by omega
      by_cases hle : w - 1 - j ≤ w - 1 - i
      · have hpos : w - 1 - i - (w - 1 - j) ≠ 0 := by omega
        have hone : Nat.testBit 1 (w - 1 - i - (w - 1 - j)) = false := by
          rw [Bool.eq_false_iff, ne_eq, Nat.testBit_one_eq_true_iff_self_eq_zero]
          exact hpos
        rw [hone, Bool.and_false, Bool.or_false]
      · simp [hle]

/-! ## Rows of numbers -/

section Rows

variable {α β : Type} {f : α → List β} {w : ℕ}

theorem length_flatMap {l : List α} (hw : ∀ a, (f a).length = w) :
    (l.flatMap f).length = w * l.length := by
  induction l with
  | nil => rfl
  | cons a l ih =>
    rw [List.flatMap_cons, List.length_append, hw, ih, List.length_cons, Nat.mul_succ, Nat.add_comm]

/-- The groups of a row are its numbers. -/
theorem group_of_flatMap (hw : ∀ a, (f a).length = w) : ∀ {l : List α} {k : ℕ} (hk : k < l.length),
    ((l.flatMap f).drop (w * k)).take w = f l[k]
  | a :: l, 0, _ => by
    rw [Nat.mul_zero, List.drop_zero, List.flatMap_cons, List.take_left' (hw a)]
    rfl
  | a :: l, k + 1, hk => by
    have ih := group_of_flatMap hw (l := l) (k := k) (Nat.lt_of_succ_lt_succ hk)
    rw [List.flatMap_cons, Nat.mul_succ, Nat.add_comm, ← List.drop_drop, List.drop_left' (hw a), ih]
    rfl

/-- A row whose groups are those of a list is that list. -/
theorem flatMap_eq_of_groups : ∀ {l : List α} {bits : List β}, bits.length = w * l.length →
    (∀ k (hk : k < l.length), f l[k] = (bits.drop (w * k)).take w) → l.flatMap f = bits
  | [], bits, hlen, _ => (List.eq_nil_of_length_eq_zero hlen).symm
  | a :: l, bits, hlen, h => by
    have hhead : f a = bits.take w := by simpa using h 0 (Nat.succ_pos _)
    have htail : l.flatMap f = bits.drop w := by
      refine flatMap_eq_of_groups ?_ fun k hk => ?_
      · rw [List.length_drop, hlen, List.length_cons, Nat.mul_succ, Nat.add_sub_cancel]
      · rw [List.drop_drop, Nat.add_comm, ← Nat.mul_succ]
        exact h (k + 1) (Nat.succ_lt_succ hk)
    rw [List.flatMap_cons, hhead, htail, List.take_append_drop]

/-- One entry of one number set is one entry of the row set. -/
theorem flatMap_set (hw : ∀ a, (f a).length = w) : ∀ {l : List α} {k j : ℕ} {a : α} {b : β}
    (hk : k < l.length), j < w → f a = (f l[k]).set j b →
    (l.set k a).flatMap f = (l.flatMap f).set (w * k + j) b
  | c :: l, 0, j, a, b, _, hj, h => by
    rw [List.set_cons_zero, List.flatMap_cons, List.flatMap_cons, Nat.mul_zero, Nat.zero_add,
      List.set_append_left _ _ (by rwa [hw]), h]
    rfl
  | c :: l, k + 1, j, a, b, hk, hj, h => by
    have ih := flatMap_set hw (l := l) (Nat.lt_of_succ_lt_succ hk) hj h
    rw [List.set_cons_succ, List.flatMap_cons, List.flatMap_cons, ih,
      List.set_append_right _ _ (by rw [hw, Nat.mul_succ]; omega), hw]
    congr 2
    rw [Nat.mul_succ]
    omega

end Rows

end Bits
