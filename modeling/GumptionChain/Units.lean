import GumptionChain.Decimal
import GumptionChain.Signing

/-!
# GRIT and grains

`units.py`, and `_grit_to_grains` of `node_proxy.py`, over `Decimal`.

* `Units.gritToGrains`, `Units.grainsToGrit`, `Units.proxyGritToGrains` — the conversions;
* `Units.Kept` — the amounts that the rounding to 28 digits does not spoil;
* `Units.grit_conversion_iff` — the conversions are exact for these and no others.
-/

namespace GumptionChain
namespace Units

open Decimal (Raised magnitude unit)

/-! ## The conversions -/

/-- What the conversions are called with. -/
inductive Grit where
  | str (s : Str)
  | int (n : ℤ)
  | decimal (d : Decimal)

/-- `GRAIN_PER_GRIT`. -/
def grainPerGrit : ℕ := 100

section Conversions

variable (U : Unicode)

/-- `Decimal(s)`. -/
def decimalOfStr (s : Str) : Except Raised Decimal :=
  match (Decimal.parse U s).bind Decimal.construct with
  | some d => .ok d
  | none => .error .invalidOperation

/-- `Decimal(str(grit))`.  `str` of a `Decimal` is read back as that number. -/
def toDecimal : Grit → Except Raised Decimal
  | .str s => decimalOfStr U s
  | .int n =>
    match pyStr n with
    | some s => decimalOfStr U s
    | none => .error (.valueError "Exceeds the limit (4300 digits) for integer string conversion")
  | .decimal d => .ok d

/-- The lines that both conversions end with: `finer` is raised below one grain. -/
def toGrains (amount : Decimal) (finer : Raised) : Except Raised ℤ := do
  let grains ← amount.mul grainPerGrit
  if ← grains.ne (← grains.toIntegralValue) then throw finer
  grains.toInt

/-- The handler of `grit_to_grains`: its text shows the value, which fails again for an
integer that has no text. -/
def notValid : Grit → Raised
  | .int _ => .valueError "Exceeds the limit (4300 digits) for integer string conversion"
  | _ => .valueError "not a valid GRIT amount: "

/-- `grit_to_grains`. -/
def gritToGrains (grit : Grit) : Except Raised ℤ :=
  match toDecimal U grit with
  | .error _ => .error (notValid grit)
  | .ok amount => toGrains amount (.valueError "GRIT precision finer than one grain (0.01): ")

/-- `_grit_to_grains`. -/
def proxyGritToGrains (field : String) (value : Grit) : Except Raised ℤ :=
  match toDecimal U value with
  | .error _ => .error (.proxyError 400 (field ++ " must be a number"))
  | .ok grit => do
    if ← grit.leZero then throw (.proxyError 400 (field ++ " must be positive"))
    toGrains grit (.proxyError 400 (field ++ " precision exceeds 0.01 GRIT"))

/-- `grains_to_grit`: the exact quotient, rounded. -/
def grainsToGrit (grains : ℤ) : Except Raised Decimal :=
  Decimal.fix (grains < 0) grains.natAbs (-2)

end Conversions

/-! ## What is exact -/

/-- A hundred times a number, when it is an integer. -/
def hundredfold : Decimal → Option ℤ
  | .finite negative c e =>
    let w := magnitude (c * grainPerGrit) e
    if w.den = 1 then some (Decimal.signed negative w.num) else none
  | _ => none

/-- The amount has 28 digits, or stays more than half a unit of the 28th from every
integer; and its exponents are within the context. -/
def Kept (w : ℚ) : Prop :=
  w = 0 ∨ (Int.log 10 w ≤ Decimal.emax ∧
    ((∃ m : ℤ, w = m * unit w) ∨ ∀ n : ℤ, unit w < 2 * |w - n|))

theorem hundredfold_eq_some {negative : Bool} {c : ℕ} {e n : ℤ}
    (h : magnitude (c * grainPerGrit) e = n) :
    hundredfold (.finite negative c e) = some (Decimal.signed negative n) := by
  unfold hundredfold
  dsimp only
  rw [h, if_pos (Rat.den_intCast n), Rat.num_intCast]

theorem hundredfold_eq_none {negative : Bool} {c : ℕ} {e : ℤ}
    (h : ¬ ∃ n : ℤ, magnitude (c * grainPerGrit) e = n) :
    hundredfold (.finite negative c e) = none := by
  unfold hundredfold
  dsimp only
  exact if_neg fun hden => h ⟨_, ((Rat.den_eq_one_iff _).1 hden).symm⟩

/-- The last lines, by what the multiplication gives. -/
theorem toGrains_of_fix (finer : Raised) {negative : Bool} {c c' : ℕ} {e e' : ℤ}
    (h : Decimal.fix negative (c * grainPerGrit) e = .ok (.finite negative c' e')) :
    (∀ n : ℤ, magnitude c' e' = n →
      toGrains (.finite negative c e) finer = .ok (Decimal.signed negative n)) ∧
    ((¬ ∃ n : ℤ, magnitude c' e' = n) →
      toGrains (.finite negative c e) finer = .error finer) := by
  obtain ⟨d, b, hint, hne, hb⟩ := Decimal.ne_toIntegralValue negative c' e'
  have hrun : toGrains (.finite negative c e) finer =
      if b then .error finer else (Decimal.finite negative c' e').toInt := by
    unfold toGrains
    rw [Decimal.mul, h]
    show ((Decimal.finite negative c' e').toIntegralValue >>= fun d =>
      (Decimal.finite negative c' e').ne d >>= fun b =>
        if b then throw finer else (Decimal.finite negative c' e').toInt) = _
    rw [hint]
    show ((Decimal.finite negative c' e').ne d >>= fun b =>
        if b then throw finer else (Decimal.finite negative c' e').toInt) = _
    rw [hne]
    rfl
  rw [hrun]
  constructor
  · intro n hn
    rw [if_neg fun ht => hb.1 ht ⟨n, hn⟩, Decimal.toInt_eq hn]
  · intro hnone
    rw [if_pos (hb.2 hnone)]

theorem toGrains_of_error {negative : Bool} {c : ℕ} {e : ℤ} {finer err : Raised}
    (h : Decimal.fix negative (c * grainPerGrit) e = .error err) :
    toGrains (.finite negative c e) finer = .error err := by
  unfold toGrains
  rw [Decimal.mul, h]
  rfl

/-- The result is the integer expected, or where there is none an error of some kind. -/
def Right (fails : Raised → Prop) (expected : Option ℤ) (r : Except Raised ℤ) : Prop :=
  match expected with
  | some n => r = .ok n
  | none => ∃ err, fails err ∧ r = .error err

/-- An integer within half a unit of a number is what the number is rounded to. -/
theorem integer_of_near {w : ℚ} {m n : ℤ} (h : HalfEven.Nearest (unit w) w m)
    (hnear : 2 * |w - n| ≤ unit w) : ∃ r : ℤ, m * unit w = r := by
  rcases le_or_gt 0 (Decimal.unitExponent w) with hx | hx
  · -- a unit of one or more is an integer
    refine ⟨m * 10 ^ (Decimal.unitExponent w).toNat, ?_⟩
    push_cast
    rw [unit, ← zpow_natCast, Int.toNat_of_nonneg hx]
  · -- a smaller one divides one evenly
    obtain ⟨k, hk⟩ : ∃ k : ℕ, Decimal.unitExponent w = -((k + 1 : ℕ) : ℤ) :=
      ⟨(-Decimal.unitExponent w).toNat - 1, by omega⟩
    have hone : (10 : ℚ) ^ (k + 1) * unit w = 1 := by
      rw [unit, hk, zpow_neg, zpow_natCast]
      exact mul_inv_cancel₀ (by positivity)
    have hn : (n : ℚ) = ((n * 10 ^ (k + 1) : ℤ) : ℚ) * unit w := by
      push_cast
      rw [mul_assoc, hone, mul_one]
    have heven : Even (n * 10 ^ (k + 1)) := by
      rw [pow_succ]
      exact ((by decide : Even (10 : ℤ)).mul_left _).mul_left _
    have hm := h.eq_of_even (Decimal.unit_pos w) heven (by rwa [← hn])
    exact ⟨n, by rw [hm, hn]⟩

/-- **The last lines are exact for the amounts that are kept**, and for no others. -/
theorem toGrains_right_iff {fails : Raised → Prop} {finer : Raised} (hfiner : fails finer)
    (hoverflow : ¬ fails .overflow) (negative : Bool) (c : ℕ) (e : ℤ) :
    Right fails (hundredfold (.finite negative c e)) (toGrains (.finite negative c e) finer) ↔
      Kept (magnitude (c * grainPerGrit) e) := by
  by_cases hc : c * grainPerGrit = 0
  · -- zero
    have hw := Decimal.magnitude_eq_zero (e := e).2 hc
    refine iff_of_true ?_ (Or.inl hw)
    have hfix : Decimal.fix negative (c * grainPerGrit) e =
        .ok (.finite negative 0 (min (max e Decimal.etiny) Decimal.emax)) := by
      rw [Decimal.fix, if_pos hc]
    rw [hundredfold_eq_some (n := 0) (by rw [hw, Int.cast_zero])]
    exact (toGrains_of_fix finer hfix).1 0 (by rw [Decimal.magnitude_eq_zero.2 rfl, Int.cast_zero])
  have hw0 : magnitude (c * grainPerGrit) e ≠ 0 := fun h => hc (Decimal.magnitude_eq_zero.1 h)
  obtain ⟨hover, hround⟩ := Decimal.fix_spec negative (e := e) hc
  generalize hw : magnitude (c * grainPerGrit) e = w at *
  have hu := Decimal.unit_pos w
  -- an overflow is not what is expected
  have hbad (h : Decimal.fix negative (c * grainPerGrit) e = .error .overflow) :
      ¬ Right fails (hundredfold (.finite negative c e)) (toGrains (.finite negative c e) finer) := by
    rw [toGrains_of_error h]
    unfold Right
    split
    · exact fun h => nomatch h
    · rintro ⟨err, herr, h⟩
      exact hoverflow (by rwa [Except.error.inj h])
  by_cases hlog : Int.log 10 w ≤ Decimal.emax
  swap
  · refine iff_of_false (hbad (hover (not_le.1 hlog))) ?_
    rintro (h | h)
    · exact hw0 h
    · exact hlog h.1
  obtain ⟨m, hnear, hfix⟩ := hround hlog
  have hkept : Kept w ↔ (∃ m : ℤ, w = m * unit w) ∨ ∀ n : ℤ, unit w < 2 * |w - n| := by
    rw [Kept, or_iff_right hw0, and_iff_right hlog]
  rw [hkept]
  by_cases hexact : ∃ m : ℤ, w = m * unit w
  · -- nothing is lost
    obtain ⟨m', hm'⟩ := hexact
    have hm := hnear.eq_of_exact hu hm'
    rw [← hm] at hm'
    refine iff_of_true ?_ (Or.inl ⟨m, hm'⟩)
    rcases hfix with ⟨-, -, hne⟩ | ⟨c', e', hok, hr⟩
    · exact absurd hm' hne
    · rw [← hm'] at hr
      obtain ⟨hint, hfrac⟩ := toGrains_of_fix finer hok
      rw [hr] at hint hfrac
      by_cases hex : ∃ n : ℤ, w = n
      · obtain ⟨n, hn⟩ := hex
        rw [hundredfold_eq_some (hw.trans hn)]
        exact hint n hn
      · rw [hundredfold_eq_none (by rwa [hw])]
        exact ⟨finer, hfiner, hfrac hex⟩
  · rw [or_iff_right hexact]
    by_cases hex : ∃ n : ℤ, w = n
    · -- an integer that is changed
      obtain ⟨n, hn⟩ := hex
      refine iff_of_false ?_ fun hfar => ?_
      · rw [hundredfold_eq_some (hw.trans hn)]
        rcases hfix with ⟨hovf, -, -⟩ | ⟨c', e', hok, hr⟩
        · intro h
          rw [Right, toGrains_of_error hovf] at h
          cases h
        · obtain ⟨hint, hfrac⟩ := toGrains_of_fix finer hok
          intro h
          rw [Right] at h
          by_cases hr' : ∃ r : ℤ, magnitude c' e' = r
          · obtain ⟨r, hr'⟩ := hr'
            rw [hint r hr', Except.ok.injEq, Decimal.signed_inj] at h
            rw [← h] at hn
            exact hexact ⟨m, (hn.trans hr'.symm).trans hr⟩
          · rw [hfrac hr'] at h
            cases h
      · have := hfar n
        rw [hn, sub_self, abs_zero, mul_zero] at this
        rw [← hn] at this
        exact absurd this (not_lt.2 hu.le)
    · rw [hundredfold_eq_none (by rwa [hw])]
      rcases hfix with ⟨hovf, hone, -⟩ | ⟨c', e', hok, hr⟩
      · -- an overflow: the unit is one or more
        refine iff_of_false ?_ fun hfar => ?_
        · have := hbad hovf
          rwa [hundredfold_eq_none (by rwa [hw])] at this
        · have hclose := abs_sub_round w
          have := hfar (round w)
          linarith
      · obtain ⟨hint, hfrac⟩ := toGrains_of_fix finer hok
        by_cases hr' : ∃ r : ℤ, magnitude c' e' = r
        · obtain ⟨r, hr'⟩ := hr'
          refine iff_of_false ?_ fun hfar => ?_
          · rintro ⟨err, -, h⟩
            rw [hint r hr'] at h
            cases h
          · have := hfar r
            rw [← hr', hr] at this
            exact absurd hnear.close (not_le.2 this)
        · refine iff_of_true ⟨finer, hfiner, hfrac hr'⟩ fun n => not_le.1 fun hn => ?_
          obtain ⟨r, hr''⟩ := integer_of_near hnear hn
          exact hr' ⟨r, hr.trans hr''⟩

/-! ## What the texts denote -/

/-- The numeral that an argument denotes. -/
def denotes (U : Unicode) : Grit → Option Decimal
  | .str s => Decimal.parse U s
  | .int n => some (.finite (n < 0) n.natAbs 0)
  | .decimal d => some d

/-- Whether the numeral an argument denotes is read: an integer needs a text, and a numeral
of a text exponents and digits that `Decimal` has. -/
def read : Grit → Decimal → Bool
  | .str _, x => (Decimal.construct x).isSome
  | .int n, _ => (pyStr n).isSome
  | .decimal _, _ => true

theorem construct_eq {x d : Decimal} (h : Decimal.construct x = some d) : d = x := by
  unfold Decimal.construct at h
  split at h
  · split_ifs at h
    exact (Option.some.inj h).symm
  · exact (Option.some.inj h).symm

/-- An integer that has a text is small enough for `Decimal`. -/
theorem construct_int {n : ℤ} (h : pyStr n ≠ none) :
    Decimal.construct (.finite (n < 0) n.natAbs 0) = some (.finite (n < 0) n.natAbs 0) := by
  unfold pyStr at h
  have hlen : (natStr n.natAbs).length ≤ intMaxStrDigits := by
    by_contra hlen
    rw [if_neg hlen] at h
    exact h rfl
  rw [intMaxStrDigits] at hlen
  rw [Decimal.construct, if_pos]
  rw [Decimal.held, Bool.and_eq_true, decide_eq_true_eq, Decimal.minEtiny, Decimal.maxEmax,
    Decimal.numDigits]
  refine ⟨by norm_num, ?_⟩
  split_ifs
  · decide
  · rw [Bool.and_eq_true, decide_eq_true_eq, decide_eq_true_eq]
    omega

/-- An argument that denotes a number is read as that number, or not at all. -/
theorem toDecimal_eq {U : Unicode} {g : Grit} {x : Decimal} (hx : denotes U g = some x) :
    if read g x then toDecimal U g = .ok x else ∃ err, toDecimal U g = .error err := by
  cases g with
  | str s =>
    have hs : Decimal.parse U s = some x := hx
    rw [read, toDecimal, decimalOfStr, hs, Option.bind_some]
    cases hc : Decimal.construct x with
    | none => exact ⟨_, rfl⟩
    | some d =>
      rw [construct_eq hc]
      rfl
  | int n =>
    obtain rfl := Option.some.inj hx
    rw [read, toDecimal]
    cases hn : pyStr n with
    | none => exact ⟨_, rfl⟩
    | some s =>
      have hs : s = intStr n := by
        unfold pyStr at hn
        split_ifs at hn
        exact (Option.some.inj hn).symm
      have hread : decimalOfStr U s = .ok (.finite (n < 0) n.natAbs 0) := by
        rw [decimalOfStr, hs, Decimal.parse_intStr, Option.bind_some,
          construct_int (by rw [hn]; exact Option.some_ne_none s)]
      exact hread
  | decimal d =>
    obtain rfl := Option.some.inj hx
    rfl

/-- The special values are read. -/
theorem read_infinity {U : Unicode} {g : Grit} {negative : Bool}
    (hx : denotes U g = some (.infinity negative)) : read g (.infinity negative) = true := by
  cases g with
  | int n => cases hx
  | _ => rfl

theorem read_nan {U : Unicode} {g : Grit} {signaling : Bool}
    (hx : denotes U g = some (.nan signaling)) : read g (.nan signaling) = true := by
  cases g with
  | int n => cases hx
  | _ => rfl

/-! ## When the conversions are exact -/

/-- When `grit_to_grains` is exact. -/
def GritKept (g : Grit) : Decimal → Prop
  | .nan signaling => signaling = false
  | .infinity _ => False
  | .finite negative c e =>
    if read g (.finite negative c e) then Kept (magnitude (c * grainPerGrit) e)
    else ¬ ∃ n : ℤ, magnitude (c * grainPerGrit) e = n

/-- When `_grit_to_grains` is exact. -/
def ProxyKept (g : Grit) : Decimal → Prop
  | .nan _ => False
  | .infinity negative => negative = true
  | .finite negative c e =>
    if negative ∨ c = 0 then True else GritKept g (.finite negative c e)

/-- A `ValueError`. -/
def IsValueError (err : Raised) : Prop := ∃ message, err = .valueError message

/-- A `_ProxyError` of a bad request. -/
def IsProxyError (err : Raised) : Prop := ∃ message, err = .proxyError 400 message

theorem isValueError_notValid (g : Grit) : IsValueError (notValid g) := by
  cases g <;> exact ⟨_, rfl⟩

/-- `grit_to_grains` gives a hundred times the value, or a `ValueError`, exactly when the
amount is kept. -/
theorem gritToGrains_right_iff {U : Unicode} {g : Grit} {x : Decimal}
    (hx : denotes U g = some x) :
    Right IsValueError (hundredfold x) (gritToGrains U g) ↔ GritKept g x := by
  have hread := toDecimal_eq hx
  unfold gritToGrains
  cases x with
  | finite negative c e =>
    rw [GritKept]
    split_ifs at hread ⊢ with hr
    · rw [hread]
      exact toGrains_right_iff ⟨_, rfl⟩ (fun ⟨_, h⟩ => nomatch h) negative c e
    · obtain ⟨err, herr⟩ := hread
      rw [herr]
      by_cases hex : ∃ n : ℤ, magnitude (c * grainPerGrit) e = n
      · refine iff_of_false ?_ (not_not.2 hex)
        obtain ⟨n, hn⟩ := hex
        rw [hundredfold_eq_some hn]
        exact fun h => nomatch h
      · rw [hundredfold_eq_none hex]
        exact iff_of_true ⟨_, isValueError_notValid g, rfl⟩ hex
  | infinity negative =>
    rw [if_pos (read_infinity hx)] at hread
    rw [hread]
    refine iff_of_false ?_ id
    rintro ⟨err, ⟨message, rfl⟩, h⟩
    cases negative <;> cases h
  | nan signaling =>
    rw [if_pos (read_nan hx)] at hread
    rw [hread]
    cases signaling with
    | false => exact iff_of_true ⟨_, ⟨_, rfl⟩, rfl⟩ rfl
    | true =>
      refine iff_of_false ?_ fun h => nomatch h
      rintro ⟨err, ⟨message, rfl⟩, h⟩
      cases h

/-- The sign of a number is seen by `<= 0`. -/
theorem leZero_finite (negative : Bool) (c : ℕ) (e : ℤ) :
    (Decimal.finite negative c e).leZero = .ok (negative || c = 0) := by
  have hnn := Decimal.magnitude_nonneg c e
  unfold Decimal.leZero Decimal.value
  cases negative with
  | true => simp [hnn]
  | false =>
    have hiff : magnitude c e ≤ 0 ↔ c = 0 := by
      rw [← Decimal.magnitude_eq_zero (e := e)]
      exact ⟨fun h => le_antisymm h hnn, fun h => h.le⟩
    simp [hiff]

/-- A hundred times a number that is not positive is not positive. -/
theorem hundredfold_of_not_pos {negative : Bool} {c : ℕ} {e : ℤ} (h : (negative || c = 0) = true) :
    (hundredfold (.finite negative c e)).filter (0 < ·) = none := by
  by_cases hex : ∃ n : ℤ, magnitude (c * grainPerGrit) e = n
  · obtain ⟨n, hn⟩ := hex
    have hnn : 0 ≤ n := by
      have := Decimal.magnitude_nonneg (c * grainPerGrit) e
      rw [hn] at this
      exact_mod_cast this
    rw [hundredfold_eq_some hn, Option.filter_some, if_neg]
    rw [decide_eq_true_eq, not_lt, Decimal.signed]
    cases negative with
    | true => simpa using hnn
    | false =>
      have hc : c = 0 := by simpa using h
      rw [hc, Nat.zero_mul, Decimal.magnitude_eq_zero.2 rfl] at hn
      have : n = 0 := by exact_mod_cast hn.symm
      simp [this]
  · rw [hundredfold_eq_none hex, Option.filter_none]

theorem hundredfold_of_pos {negative : Bool} {c : ℕ} {e : ℤ} (h : (negative || c = 0) = false) :
    (hundredfold (.finite negative c e)).filter (0 < ·) = hundredfold (.finite negative c e) := by
  obtain ⟨rfl, hc⟩ : negative = false ∧ c ≠ 0 := by simpa using h
  by_cases hex : ∃ n : ℤ, magnitude (c * grainPerGrit) e = n
  · obtain ⟨n, hn⟩ := hex
    have hpos : 0 < n := by
      have := Decimal.magnitude_pos (c := c * grainPerGrit) (e := e)
        (Nat.mul_ne_zero hc (by decide))
      rw [hn] at this
      exact_mod_cast this
    rw [hundredfold_eq_some hn, Option.filter_some]
    exact if_pos (decide_eq_true hpos)
  · rw [hundredfold_eq_none hex, Option.filter_none]

/-- `_grit_to_grains` gives a hundred times a positive value, or a `_ProxyError`, exactly
when the amount is kept. -/
theorem proxyGritToGrains_right_iff {U : Unicode} (field : String) {g : Grit} {x : Decimal}
    (hx : denotes U g = some x) :
    Right IsProxyError ((hundredfold x).filter (0 < ·)) (proxyGritToGrains U field g) ↔
      ProxyKept g x := by
  have hread := toDecimal_eq hx
  unfold proxyGritToGrains
  cases x with
  | finite negative c e =>
    rw [ProxyKept]
    by_cases hpos : (negative || c = 0) = true
    · rw [hundredfold_of_not_pos hpos, if_pos (by simpa using hpos)]
      refine iff_of_true ?_ trivial
      split_ifs at hread
      · rw [hread]
        dsimp only
        rw [leZero_finite, hpos]
        exact ⟨_, ⟨_, rfl⟩, rfl⟩
      · obtain ⟨err, herr⟩ := hread
        rw [herr]
        exact ⟨_, ⟨_, rfl⟩, rfl⟩
    · rw [Bool.not_eq_true] at hpos
      rw [hundredfold_of_pos hpos, if_neg (by simpa using hpos), GritKept]
      split_ifs at hread ⊢ with hr
      · rw [hread]
        dsimp only
        rw [leZero_finite, hpos]
        exact toGrains_right_iff ⟨_, rfl⟩ (fun ⟨_, h⟩ => nomatch h) negative c e
      · obtain ⟨err, herr⟩ := hread
        rw [herr]
        by_cases hex : ∃ n : ℤ, magnitude (c * grainPerGrit) e = n
        · refine iff_of_false ?_ (not_not.2 hex)
          obtain ⟨n, hn⟩ := hex
          rw [hundredfold_eq_some hn]
          exact fun h => nomatch h
        · rw [hundredfold_eq_none hex]
          exact iff_of_true ⟨_, ⟨_, rfl⟩, rfl⟩ hex
  | infinity negative =>
    rw [if_pos (read_infinity hx)] at hread
    rw [hread]
    cases negative with
    | true => exact iff_of_true ⟨_, ⟨_, rfl⟩, rfl⟩ rfl
    | false =>
      refine iff_of_false ?_ Bool.false_ne_true
      rintro ⟨err, ⟨message, rfl⟩, h⟩
      cases h
  | nan signaling =>
    rw [if_pos (read_nan hx)] at hread
    rw [hread]
    refine iff_of_false ?_ id
    rintro ⟨err, ⟨message, rfl⟩, h⟩
    cases h

/-! ## There and back -/

/-- The grains have 28 digits, and are below the largest number. -/
def Fits (n : ℤ) : Prop :=
  n = 0 ∨ (Int.log 10 (n.natAbs : ℚ) ≤ Decimal.emax ∧
    ∃ m : ℤ, (n.natAbs : ℚ) = m * unit (n.natAbs : ℚ))

theorem signed_natAbs (n : ℤ) : Decimal.signed (n < 0) n.natAbs = n := by
  unfold Decimal.signed
  split_ifs with h
  · rw [decide_eq_true_eq] at h
    omega
  · rw [decide_eq_true_eq] at h
    omega

/-- A hundred times a number has the exponent two higher. -/
theorem magnitude_hundredfold (c : ℕ) (e : ℤ) :
    magnitude (c * grainPerGrit) e = magnitude c (e + 2) :=
  Decimal.magnitude_mul_pow c 2 e

/-- An amount that is kept is made into the grains it is a hundredth of. -/
theorem gritToGrains_eq_iff {U : Unicode} {n : ℤ} {c : ℕ} {e : ℤ}
    (hkept : Kept (magnitude (c * grainPerGrit) e)) :
    gritToGrains U (.decimal (.finite (n < 0) c e)) = .ok n ↔
      magnitude (c * grainPerGrit) e = n.natAbs := by
  have hright := (gritToGrains_right_iff (U := U) (g := .decimal (.finite (n < 0) c e)) rfl).2
    (by rw [GritKept, read, if_pos rfl]; exact hkept)
  by_cases hex : ∃ z : ℤ, magnitude (c * grainPerGrit) e = z
  · obtain ⟨z, hz⟩ := hex
    rw [hundredfold_eq_some hz] at hright
    rw [show gritToGrains U (.decimal (.finite (n < 0) c e)) = _ from hright, hz, Except.ok.injEq]
    constructor
    · intro h
      rw [Decimal.signed_inj.1 (h.trans (signed_natAbs n).symm), Int.cast_natCast]
    · intro h
      have hz : z = n.natAbs := Int.cast_injective (h.trans (Int.cast_natCast _).symm)
      rw [hz, signed_natAbs]
  · rw [hundredfold_eq_none hex] at hright
    obtain ⟨err, -, herr⟩ := hright
    rw [herr]
    refine iff_of_false (fun h => nomatch h) fun h => hex ⟨n.natAbs, ?_⟩
    rw [h, Int.cast_natCast]

/-- Grains made into GRIT and back. -/
theorem grains_right_iff (U : Unicode) (n : ℤ) :
    (grainsToGrit n >>= fun d => gritToGrains U (.decimal d)) = .ok n ↔ Fits n := by
  unfold grainsToGrit
  by_cases hn : n = 0
  · subst hn
    refine iff_of_true ?_ (Or.inl rfl)
    exact (gritToGrains_eq_iff (U := U) (n := 0) (c := 0) (e := -2)
      (Or.inl (by rw [Nat.zero_mul, Decimal.magnitude_eq_zero.2 rfl]))).2
      (by rw [Nat.zero_mul, Decimal.magnitude_eq_zero.2 rfl]; rfl)
  have hc : n.natAbs ≠ 0 := Int.natAbs_ne_zero.2 hn
  have hw : magnitude n.natAbs 0 = (n.natAbs : ℚ) := by rw [magnitude, zpow_zero, mul_one]
  rw [Fits, or_iff_right hn, ← hw]
  obtain ⟨hover, hround⟩ := Decimal.fix_spec (n < 0) (e := -2) hc
  have hlog := Decimal.log_magnitude (e := -2) hc
  have hlog0 := Decimal.log_magnitude (e := 0) hc
  have hpos := Decimal.numDigits_pos n.natAbs
  constructor
  · intro h
    have hle : Int.log 10 (magnitude n.natAbs (-2)) ≤ Decimal.emax := by
      by_contra hgt
      rw [hover (not_le.1 hgt)] at h
      cases h
    obtain ⟨m, hnear, ⟨hovf, -, -⟩ | ⟨c', e', hok, hr⟩⟩ := hround hle
    · rw [hovf] at h
      cases h
    obtain ⟨-, hdigits, hexp⟩ := Decimal.fix_digits hc hok
    rw [hok] at h
    replace h : gritToGrains U (.decimal (.finite (n < 0) c' e')) = .ok n := h
    by_cases hc' : c' = 0
    · -- zero is no other number
      have hz : magnitude (c' * grainPerGrit) e' = 0 := by
        rw [hc', Nat.zero_mul, Decimal.magnitude_eq_zero.2 rfl]
      have heq := (gritToGrains_eq_iff (Or.inl hz)).1 h
      rw [hz] at heq
      exact absurd heq.symm (Nat.cast_ne_zero.2 hc)
    · -- the product has as many digits as the quotient
      have hexact := Decimal.exact_of_numDigits (e := e' + 2) hc' hdigits (by omega)
      rw [← magnitude_hundredfold] at hexact
      have hlog' : Int.log 10 (magnitude (c' * grainPerGrit) e') ≤ Decimal.emax := by
        by_contra hgt
        have hmul : c' * grainPerGrit ≠ 0 := Nat.mul_ne_zero hc' (by decide)
        have hovf := (Decimal.fix_spec (n < 0) (e := e') hmul).1 (not_le.1 hgt)
        have herr : gritToGrains U (.decimal (.finite (n < 0) c' e')) = .error .overflow :=
          toGrains_of_error hovf
        rw [herr] at h
        cases h
      have heq := (gritToGrains_eq_iff (Or.inr ⟨hlog', Or.inl hexact⟩)).1 h
      rw [heq, ← hw] at hlog' hexact
      exact ⟨hlog', hexact⟩
  · rintro ⟨hle, m, hm⟩
    have hscale : magnitude n.natAbs 0 = 10 ^ (2 : ℤ) * magnitude n.natAbs (-2) := by
      rw [magnitude, magnitude, mul_left_comm, ← zpow_add₀ (by norm_num)]
      rfl
    have hunit : unit (magnitude n.natAbs 0) = 10 ^ (2 : ℤ) * unit (magnitude n.natAbs (-2)) := by
      rw [unit, unit, ← zpow_add₀ (by norm_num), Decimal.unitExponent, Decimal.unitExponent,
        hlog, hlog0, Decimal.etiny, Decimal.emin, Decimal.prec]
      congr 1
      push_cast
      omega
    have hm' : magnitude n.natAbs (-2) = m * unit (magnitude n.natAbs (-2)) := by
      rw [hunit, hscale, mul_left_comm] at hm
      exact mul_left_cancel₀ (zpow_ne_zero 2 (by norm_num)) hm
    obtain ⟨m', hnear, hfix⟩ := hround (by omega)
    obtain rfl := hnear.eq_of_exact (Decimal.unit_pos _) hm'
    rcases hfix with ⟨-, -, hne⟩ | ⟨c', e', hok, hr⟩
    · exact absurd hm' hne
    · have hback : magnitude (c' * grainPerGrit) e' = magnitude n.natAbs 0 := by
        rw [magnitude_hundredfold, magnitude, zpow_add₀ (by norm_num), ← mul_assoc, ← magnitude,
          hr, ← hm', hscale, mul_comm]
      have hkept : Kept (magnitude (c' * grainPerGrit) e') := by
        rw [hback]
        exact Or.inr ⟨hle, Or.inl ⟨m', hm⟩⟩
      rw [hok]
      exact (gritToGrains_eq_iff (U := U) hkept).2 (hback.trans hw)

/-- **The conversions are exact for the amounts that are kept**: `grit_to_grains` and
`_grit_to_grains` of what denotes a number, and the grains that go there and back. -/
theorem grit_conversion_iff (U : Unicode) :
    (∀ g x, denotes U g = some x →
      (Right IsValueError (hundredfold x) (gritToGrains U g) ↔ GritKept g x)) ∧
    (∀ field g x, denotes U g = some x →
      (Right IsProxyError ((hundredfold x).filter (0 < ·)) (proxyGritToGrains U field g) ↔
        ProxyKept g x)) ∧
    (∀ n, (grainsToGrit n >>= fun d => gritToGrains U (.decimal d)) = .ok n ↔ Fits n) :=
  ⟨fun _ _ hx => gritToGrains_right_iff hx, fun field _ _ hx => proxyGritToGrains_right_iff field hx,
    grains_right_iff U⟩

namespace Sample

/-- An integer of 29 digits. -/
def tooFine : ℕ := 10 ^ 28 + 1

theorem numDigits_hundredfold : Decimal.numDigits (tooFine * grainPerGrit) = 31 := by
  have hle : Decimal.numDigits (tooFine * grainPerGrit) ≤ 31 :=
    (Decimal.numDigits_le_iff (by decide)).2 (by decide)
  have hgt : ¬ Decimal.numDigits (tooFine * grainPerGrit) ≤ 30 := fun h =>
    absurd ((Decimal.numDigits_le_iff (by decide)).1 h) (by decide)
  omega

/-- Its last digit is rounded away. -/
theorem fix_hundredfold :
    Decimal.fix false (tooFine * grainPerGrit) 0 = .ok (.finite false (10 ^ 27) 3) := by
  have hdiv : HalfEven.div (tooFine * grainPerGrit) (10 ^ 3) = 10 ^ 27 := by decide
  have hdigits : Decimal.numDigits (10 ^ 27) ≤ Decimal.prec :=
    (Decimal.numDigits_le_iff (by decide)).2 (by decide)
  unfold Decimal.fix
  rw [if_neg (by decide), numDigits_hundredfold]
  dsimp only
  have hexp : max (((31 : ℕ) : ℤ) + 0 - Decimal.prec) Decimal.etiny = 3 := by decide
  rw [if_neg (by decide), hexp, if_pos (by decide), show ((3 : ℤ) - 0).toNat = 3 from rfl, hdiv,
    if_neg (not_lt.2 hdigits)]
  rfl

end Sample

/-- `10 ^ 28 + 1` GRIT are made into the `10 ^ 30` grains of `10 ^ 28` GRIT. -/
theorem gritToGrains_rounds :
    denotes Sample.asciiTables (.int Sample.tooFine) =
        some (.finite false Sample.tooFine 0) ∧
      hundredfold (.finite false Sample.tooFine 0) = some (10 ^ 30 + 100) ∧
      gritToGrains Sample.asciiTables (.int Sample.tooFine) = .ok (10 ^ 30) := by
  have hread : toDecimal Sample.asciiTables (.int Sample.tooFine) =
      .ok (.finite false Sample.tooFine 0) := by
    have htext : read (.int Sample.tooFine) (.finite false Sample.tooFine 0) = true := by
      have hlen : (natStr Sample.tooFine).length ≤ 29 :=
        (Decimal.numDigits_le_iff (by decide)).2 (by decide)
      have htext : pyStr Sample.tooFine = some (intStr Sample.tooFine) :=
        if_pos (hlen.trans (by decide))
      rw [read, htext]
      rfl
    have h := toDecimal_eq (U := Sample.asciiTables) (g := .int Sample.tooFine)
      (x := .finite false Sample.tooFine 0) rfl
    rwa [if_pos htext] at h
  refine ⟨rfl, hundredfold_eq_some ?_, ?_⟩
  · rw [magnitude, zpow_zero, mul_one]
    norm_num [Sample.tooFine, grainPerGrit]
  · rw [gritToGrains, hread]
    exact (toGrains_of_fix _ Sample.fix_hundredfold).1 (10 ^ 30) (by norm_num [magnitude])

end Units
end GumptionChain
