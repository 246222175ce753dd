import GumptionChain.Codec.Unicode
import GumptionChain.Lib.HalfEven
import Mathlib.Algebra.Order.Round
import Mathlib.Data.Int.Log
import Mathlib.Tactic.FieldSimp
import Mathlib.Tactic.NormNum

/-!
# Decimal numbers

What the conversions use of `decimal`: reading a numeral, which is exact, the arithmetic
of the default context (28 digits, ties to even, exponents up to 999999), and the two
comparisons.

* `Decimal.parse`, `Decimal.construct` — `Decimal(s)`;
* `Decimal.fix` — the rounding that ends an operation;
* `Decimal.fix_spec` — it is to the nearest multiple of `Decimal.unit`;
* `Decimal.ne_toIntegralValue` — a number is its integral value when it is an integer.
-/

namespace GumptionChain

/-- A `Decimal`, without the payload of a NaN. -/
inductive Decimal where
  | finite (negative : Bool) (coefficient : ℕ) (exponent : ℤ)
  | infinity (negative : Bool)
  | nan (signaling : Bool)
  deriving DecidableEq

namespace Decimal

/-- What is raised: two signals of `decimal`, and exceptions with the text that comes
before the value they show. -/
inductive Raised where
  | invalidOperation
  | overflow
  | overflowError
  | valueError (message : String)
  | proxyError (status : ℕ) (message : String)
  deriving DecidableEq

/-! ## The default context -/

def prec : ℕ := 28

/-- `Emax`. -/
def emax : ℤ := 999999

/-- `Emin`. -/
def emin : ℤ := -999999

/-- `Etiny()`. -/
def etiny : ℤ := emin - prec + 1

/-- `Etop()`. -/
def etop : ℤ := emax - prec + 1

/-! ## Values -/

/-- The number of digits of a coefficient. -/
def numDigits (c : ℕ) : ℕ := (natStr c).length

/-- The value without its sign. -/
def magnitude (c : ℕ) (e : ℤ) : ℚ := c * 10 ^ e

/-- The value of a finite number. -/
def value (negative : Bool) (c : ℕ) (e : ℤ) : ℚ :=
  if negative then -magnitude c e else magnitude c e

/-! ## Reading -/

/-- The exponent after an `e`: digits with an optional sign. -/
def parseExponent : Str → Option ℤ
  | '-' :: s => if s ≠ [] ∧ s.all Char.isDigit then some (-(Nat.ofDigitChars 10 s 0 : ℤ)) else none
  | '+' :: s => if s ≠ [] ∧ s.all Char.isDigit then some (Nat.ofDigitChars 10 s 0 : ℤ) else none
  | s => if s ≠ [] ∧ s.all Char.isDigit then some (Nat.ofDigitChars 10 s 0 : ℤ) else none

/-- The digits, the fraction and the exponent of a number, in lower case. -/
def parseDigits (negative : Bool) (s : Str) : Option Decimal :=
  let whole := s.takeWhile Char.isDigit
  let rest := s.dropWhile Char.isDigit
  let (fraction, rest) := match rest with
    | '.' :: r => (r.takeWhile Char.isDigit, r.dropWhile Char.isDigit)
    | r => ([], r)
  let coefficient := Nat.ofDigitChars 10 (whole ++ fraction) 0
  if whole ++ fraction = [] then none
  else
    match rest with
    | [] => some (.finite negative coefficient (-fraction.length))
    | 'e' :: r => (parseExponent r).map fun e => .finite negative coefficient (e - fraction.length)
    | _ => none

/-- An unsigned numeral in lower case. -/
def parseUnsigned (negative : Bool) (s : Str) : Option Decimal :=
  if s = "inf".toList ∨ s = "infinity".toList then some (.infinity negative)
  else if s.take 3 = "nan".toList ∧ (s.drop 3).all Char.isDigit then some (.nan false)
  else if s.take 4 = "snan".toList ∧ (s.drop 4).all Char.isDigit then some (.nan true)
  else parseDigits negative s

/-- A numeral in ASCII. -/
def parseAscii (s : Str) : Option Decimal :=
  match s.map Char.toLower with
  | '-' :: r => parseUnsigned true r
  | '+' :: r => parseUnsigned false r
  | r => parseUnsigned false r

/-- The numeral a text denotes.  Spaces around it and underscores are dropped. -/
def parse (U : Unicode) (s : Str) : Option Decimal :=
  parseAscii (((U.strip s).filter (· ≠ '_')).map U.toAscii)

/-- `MAX_PREC` and `MAX_EMAX`. -/
def maxEmax : ℤ := 999999999999999999

/-- The least exponent of `MIN_EMIN` and `MAX_PREC`. -/
def minEtiny : ℤ := -1999999999999999997

/-- Whether `Decimal` holds a number without a change. -/
def held (c : ℕ) (e : ℤ) : Bool :=
  minEtiny ≤ e && if c = 0 then e ≤ maxEmax else numDigits c ≤ maxEmax && numDigits c + e - 1 ≤ maxEmax

/-- A numeral as a `Decimal`: `InvalidOperation` when it would have to change. -/
def construct : Decimal → Option Decimal
  | .finite negative c e => if held c e then some (.finite negative c e) else none
  | d => some d

/-! ## Operations -/

/-- `_fix`: the rounding of a result. -/
def fix (negative : Bool) (c : ℕ) (e : ℤ) : Except Raised Decimal :=
  if c = 0 then .ok (.finite negative 0 (min (max e etiny) emax))
  else
    let expMin := numDigits c + e - prec
    if etop < expMin then .error .overflow
    else
      let expMin := max expMin etiny
      if e < expMin then
        let coeff := HalfEven.div c (10 ^ (expMin - e).toNat)
        -- rounded up to a power of ten
        let r := if prec < numDigits coeff then (coeff / 10, expMin + 1) else (coeff, expMin)
        if etop < r.2 then .error .overflow else .ok (.finite negative r.1 r.2)
      else .ok (.finite negative c e)

/-- `d * n`. -/
def mul (d : Decimal) (n : ℕ) : Except Raised Decimal :=
  match d with
  | .nan true => .error .invalidOperation
  | .nan false => .ok (.nan false)
  | .infinity negative => if n = 0 then .error .invalidOperation else .ok (.infinity negative)
  | .finite negative c e => fix negative (c * n) e

/-- `d.to_integral_value()`. -/
def toIntegralValue : Decimal → Except Raised Decimal
  | .nan true => .error .invalidOperation
  | .finite negative c e =>
    if 0 ≤ e then .ok (.finite negative c e)
    else .ok (.finite negative (HalfEven.div c (10 ^ (-e).toNat)) 0)
  | d => .ok d

/-- `a != b`.  A quiet NaN differs from everything. -/
def ne : Decimal → Decimal → Except Raised Bool
  | .nan true, _ | _, .nan true => .error .invalidOperation
  | .nan false, _ | _, .nan false => .ok true
  | .finite s c e, .finite s' c' e' => .ok (value s c e ≠ value s' c' e')
  | .infinity s, .infinity s' => .ok (s ≠ s')
  | _, _ => .ok true

/-- `d <= 0`.  A NaN signals. -/
def leZero : Decimal → Except Raised Bool
  | .nan _ => .error .invalidOperation
  | .infinity negative => .ok negative
  | .finite negative c e => .ok (value negative c e ≤ 0)

/-- `int(d)`. -/
def toInt : Decimal → Except Raised ℤ
  | .nan _ => .error (.valueError "cannot convert NaN to integer")
  | .infinity _ => .error .overflowError
  | .finite negative c e =>
    let n := if 0 ≤ e then c * 10 ^ e.toNat else c / 10 ^ (-e).toNat
    .ok (if negative then -(n : ℤ) else n)

/-! ## Numerals of integers -/

theorem toLower_of_digit {c : Char} (h : c.isDigit = true) : c.toLower = c := by
  have hb : 48 ≤ c.toNat ∧ c.toNat ≤ 57 := Char.isDigit_iff_toNat.1 h
  unfold Char.toLower
  rw [dif_neg]
  rintro ⟨hlo, -⟩
  have : 65 ≤ c.toNat := hlo
  omega

/-- Digits are read as a numeral with exponent zero. -/
theorem parseUnsigned_of_isDecimal {s : Str} (h : IsDecimal s) (negative : Bool) :
    parseUnsigned negative s = some (.finite negative (Nat.ofDigitChars 10 s 0) 0) := by
  obtain ⟨hne, hs⟩ := h
  have hletter {c : Char} (hc : c.isDigit = false) {t : Str} (ht : c ∈ t) {k : ℕ} :
      s.take k ≠ t := by
    rintro rfl
    rw [hs c (List.mem_of_mem_take ht)] at hc
    cases hc
  have hwhole : s ≠ "inf".toList ∧ s ≠ "infinity".toList := by
    refine ⟨?_, ?_⟩ <;> rintro rfl <;> exact absurd (hs 'i' (by decide)) (by decide)
  have htake : s.takeWhile Char.isDigit = s := List.takeWhile_eq_self_iff.2 hs
  have hdrop : s.dropWhile Char.isDigit = [] := List.dropWhile_eq_nil_iff.2 hs
  rw [parseUnsigned, if_neg (by tauto),
    if_neg fun hnan => hletter (c := 'n') (by decide) (by decide) hnan.1,
    if_neg fun hnan => hletter (c := 'n') (by decide) (by decide) hnan.1, parseDigits]
  simp only [htake, hdrop, List.append_nil, if_neg hne]
  rfl

theorem parseAscii_intStr (n : ℤ) :
    parseAscii (intStr n) = some (.finite (n < 0) n.natAbs 0) := by
  have hlower {s : Str} (h : IsDecimal s) : s.map Char.toLower = s :=
    (List.map_congr_left fun c hc => toLower_of_digit (h.2 c hc)).trans (List.map_id s)
  have hvalue (m : ℕ) : Nat.ofDigitChars 10 (natStr m) 0 = m := by simp [natStr]
  unfold parseAscii
  cases n with
  | ofNat m =>
    have hd := natStr_digits m
    rw [show intStr (.ofNat m) = natStr m from rfl, hlower hd]
    split
    next r heq => exact absurd (hd.2 '-' (heq ▸ List.mem_cons_self ..)) (by decide)
    next r heq => exact absurd (hd.2 '+' (heq ▸ List.mem_cons_self ..)) (by decide)
    next =>
      rw [parseUnsigned_of_isDecimal hd, hvalue]
      rfl
  | negSucc m =>
    have hd := natStr_digits (m + 1)
    rw [show intStr (.negSucc m) = '-' :: natStr (m + 1) from rfl, List.map_cons, hlower hd]
    show parseUnsigned true (natStr (m + 1)) = _
    rw [parseUnsigned_of_isDecimal hd, hvalue, decide_eq_true (Int.negSucc_lt_zero m)]
    rfl

theorem intStr_plain {n : ℤ} {c : Char} (h : c ∈ intStr n) : c.isDigit = true ∨ c = '-' := by
  cases n with
  | ofNat m => exact Or.inl ((natStr_digits m).2 c h)
  | negSucc m =>
    rcases List.mem_cons.1 h with rfl | h
    · exact Or.inr rfl
    · exact Or.inl ((natStr_digits _).2 c h)

/-- The text of an integer denotes it. -/
theorem parse_intStr (U : Unicode) (n : ℤ) :
    parse U (intStr n) = some (.finite (n < 0) n.natAbs 0) := by
  have hascii : ∀ c ∈ intStr n, c.toNat < 127 ∧ U.isSpace c = false ∧ c ≠ '_' := by
    intro c hc
    rcases intStr_plain hc with hd | rfl
    · have hb : 48 ≤ c.toNat ∧ c.toNat ≤ 57 := Char.isDigit_iff_toNat.1 hd
      refine ⟨by omega, ?_, ?_⟩
      · rw [Bool.eq_false_iff, ne_eq, U.isSpace_ascii c (by omega)]
        rintro (rfl | h | h)
        · exact absurd hd (by decide)
        all_goals omega
      · rintro rfl
        exact absurd hd (by decide)
    · refine ⟨by decide, ?_, by decide⟩
      rw [Bool.eq_false_iff, ne_eq, U.isSpace_ascii '-' (by decide)]
      decide
  have hdrop : ∀ s : Str, (∀ c ∈ s, U.isSpace c = false) → s.dropWhile U.isSpace = s := by
    intro s hs
    cases s with
    | nil => rfl
    | cons c s => exact List.dropWhile_cons_of_neg (by rw [hs c (List.mem_cons_self ..)]; decide)
  have hstrip : U.strip (intStr n) = intStr n := by
    rw [Unicode.strip, hdrop _ fun c hc => (hascii c hc).2.1,
      hdrop _ fun c hc => (hascii c (List.mem_reverse.1 hc)).2.1, List.reverse_reverse]
  have hfilter : (intStr n).filter (· ≠ '_') = intStr n :=
    List.filter_eq_self.2 fun c hc => decide_eq_true (hascii c hc).2.2
  have hmap : (intStr n).map U.toAscii = intStr n :=
    (List.map_congr_left fun c hc => U.toAscii_of_lt (hascii c hc).1).trans (List.map_id _)
  rw [parse, hstrip, hfilter, hmap, parseAscii_intStr]

/-! ## Magnitudes -/

theorem magnitude_eq_zero {c : ℕ} {e : ℤ} : magnitude c e = 0 ↔ c = 0 := by
  rw [magnitude, mul_eq_zero, Nat.cast_eq_zero]
  exact or_iff_left (zpow_ne_zero e (by norm_num))

theorem magnitude_nonneg (c : ℕ) (e : ℤ) : 0 ≤ magnitude c e :=
  mul_nonneg (Nat.cast_nonneg c) (zpow_nonneg (by norm_num) e)

theorem magnitude_pos {c : ℕ} {e : ℤ} (hc : c ≠ 0) : 0 < magnitude c e :=
  lt_of_le_of_ne (magnitude_nonneg c e) fun h => hc (magnitude_eq_zero.1 h.symm)

/-- Zeros appended to the coefficient lower the exponent. -/
theorem magnitude_mul_pow (c k : ℕ) (e : ℤ) : magnitude (c * 10 ^ k) e = magnitude c (e + k) := by
  rw [magnitude, magnitude, zpow_add₀ (by norm_num), zpow_natCast]
  push_cast
  ring

theorem numDigits_le_iff {c k : ℕ} (hk : 0 < k) : numDigits c ≤ k ↔ c < 10 ^ k :=
  Nat.length_toDigits_le_iff (by decide) hk

theorem numDigits_pos (c : ℕ) : 0 < numDigits c :=
  List.length_pos_iff.2 (natStr_ne_nil c)

theorem lt_pow_numDigits (c : ℕ) : c < 10 ^ numDigits c :=
  (numDigits_le_iff (numDigits_pos c)).1 le_rfl

theorem pow_numDigits_le {c : ℕ} (hc : c ≠ 0) : 10 ^ (numDigits c - 1) ≤ c := by
  rcases Nat.eq_zero_or_pos (numDigits c - 1) with h | h
  · rw [h, pow_zero]
    exact Nat.one_le_iff_ne_zero.2 hc
  · by_contra hlt
    have := (numDigits_le_iff h).2 (not_le.1 hlt)
    omega

theorem magnitude_lt (c : ℕ) (e : ℤ) : magnitude c e < 10 ^ (numDigits c + e : ℤ) := by
  rw [magnitude, zpow_add₀ (by norm_num), zpow_natCast]
  exact mul_lt_mul_of_pos_right (by exact_mod_cast lt_pow_numDigits c) (zpow_pos (by norm_num) e)

/-- The exponent of the leading digit. -/
theorem log_magnitude {c : ℕ} {e : ℤ} (hc : c ≠ 0) :
    Int.log 10 (magnitude c e) = numDigits c + e - 1 := by
  have hpos := magnitude_pos (e := e) hc
  have he : (0 : ℚ) < 10 ^ e := zpow_pos (by norm_num) e
  have hd := numDigits_pos c
  apply le_antisymm
  · have := (Int.lt_zpow_iff_log_lt (b := 10) (by norm_num) hpos).1
      (by exact_mod_cast magnitude_lt c e)
    omega
  · have hle : (10 : ℚ) ^ (numDigits c + e - 1 : ℤ) ≤ magnitude c e := by
      rw [show (numDigits c + e - 1 : ℤ) = ((numDigits c - 1 : ℕ) : ℤ) + e by omega,
        zpow_add₀ (by norm_num), zpow_natCast, magnitude]
      exact mul_le_mul_of_nonneg_right (by exact_mod_cast pow_numDigits_le hc) he.le
    exact (Int.zpow_le_iff_le_log (b := 10) (by norm_num) hpos).1 (by exact_mod_cast hle)

/-! ## Rounding -/

/-- The exponent of the last digit that the context keeps of a number. -/
def unitExponent (w : ℚ) : ℤ := max (Int.log 10 w - 27) etiny

/-- The unit of that digit. -/
def unit (w : ℚ) : ℚ := 10 ^ unitExponent w

theorem unit_pos (w : ℚ) : 0 < unit w := zpow_pos (by norm_num) _

theorem unitExponent_magnitude {c : ℕ} {e : ℤ} (hc : c ≠ 0) :
    unitExponent (magnitude c e) = max (numDigits c + e - prec) etiny := by
  rw [unitExponent, log_magnitude hc, prec]
  congr 1
  omega

/-- A coefficient with its last digits rounded away. -/
theorem nearest_magnitude {c : ℕ} {e x : ℤ} (h : e ≤ x) :
    HalfEven.Nearest (10 ^ x) (magnitude c e) (HalfEven.div c (10 ^ (x - e).toNat)) := by
  have hscale := (HalfEven.nearest_div (c := c) (d := 10 ^ (x - e).toNat)
    (by positivity)).scale (t := 10 ^ e) (zpow_pos (by norm_num) e)
  have hunit : ((10 ^ (x - e).toNat : ℕ) : ℚ) * 10 ^ e = 10 ^ x := by
    push_cast
    rw [← zpow_natCast, ← zpow_add₀ (by norm_num), Int.toNat_of_nonneg (by omega)]
    congr 1
    omega
  rw [hunit] at hscale
  exact hscale

/-- A number below the last exponent has its unit there. -/
theorem unitExponent_le_etop {w : ℚ} (h : Int.log 10 w ≤ emax) : unitExponent w ≤ etop := by
  rw [unitExponent, etop, etiny, emin, prec]
  rw [emax] at h ⊢
  omega

/-- Rounding keeps 28 digits, or makes the next power of ten. -/
theorem div_le_pow {c k : ℕ} (h : numDigits c ≤ k + prec) :
    HalfEven.div c (10 ^ k) ≤ 10 ^ prec := by
  have hlt : c < 10 ^ prec * 10 ^ k := by
    rw [← pow_add, Nat.add_comm]
    exact (lt_pow_numDigits c).trans_le (Nat.pow_le_pow_right (by norm_num) h)
  have := (Nat.div_lt_iff_lt_mul (by positivity)).2 hlt
  exact (HalfEven.div_le c (10 ^ k)).trans this

/-- **The rounding of a result.**  Past the last exponent it overflows.  Else it is to the
nearest unit, and overflows only for a unit of one or more, when that is a change. -/
theorem fix_spec (negative : Bool) {c : ℕ} {e : ℤ} (hc : c ≠ 0) :
    (emax < Int.log 10 (magnitude c e) → fix negative c e = .error .overflow) ∧
    (Int.log 10 (magnitude c e) ≤ emax → ∃ m : ℤ,
      HalfEven.Nearest (unit (magnitude c e)) (magnitude c e) m ∧
        ((fix negative c e = .error .overflow ∧ 1 ≤ unit (magnitude c e) ∧
          magnitude c e ≠ m * unit (magnitude c e)) ∨
        ∃ c' e', fix negative c e = .ok (.finite negative c' e') ∧
          magnitude c' e' = m * unit (magnitude c e))) := by
  have hlog := log_magnitude (e := e) hc
  have hexp := unitExponent_magnitude (e := e) hc
  unfold fix
  rw [if_neg hc]
  dsimp only
  constructor
  · intro hover
    rw [hlog, emax] at hover
    rw [if_pos]
    rw [etop, emax, prec]
    push_cast
    omega
  · intro hle
    have hetop := unitExponent_le_etop hle
    rw [hlog, emax] at hle
    rw [if_neg (by rw [etop, emax, prec]; push_cast; omega), ← hexp]
    generalize hx : unitExponent (magnitude c e) = x at *
    have hunit : unit (magnitude c e) = 10 ^ x := by rw [unit, hx]
    rw [hunit]
    have hdigits : numDigits c + e - prec ≤ x := by rw [hexp]; exact le_max_left _ _
    by_cases hex : e < x
    · rw [if_pos hex]
      have hnear := nearest_magnitude (c := c) hex.le
      have hbound : HalfEven.div c (10 ^ (x - e).toNat) ≤ 10 ^ prec :=
        div_le_pow (by omega)
      refine ⟨_, hnear, ?_⟩
      generalize HalfEven.div c (10 ^ (x - e).toNat) = m at *
      by_cases hcarry : prec < numDigits m
      · -- the coefficient is the next power of ten
        have hm : m = 10 ^ prec := by
          refine le_antisymm hbound (not_lt.1 fun hlt => ?_)
          have := (numDigits_le_iff (by decide)).2 hlt
          omega
        rw [if_pos hcarry]
        dsimp only
        by_cases hover : etop < x + 1
        · have hxe : x = etop := by omega
          refine Or.inl ⟨if_pos hover, ?_, ne_of_lt ?_⟩
          · rw [hxe]
            exact one_le_zpow₀ (by norm_num) (by decide)
          · calc magnitude c e < 10 ^ (numDigits c + e : ℤ) := magnitude_lt c e
              _ ≤ 10 ^ (prec + x : ℤ) := zpow_le_zpow_right₀ (by norm_num) (by omega)
              _ = ((m : ℤ) : ℚ) * 10 ^ x := by
                rw [hm, zpow_add₀ (by norm_num), zpow_natCast]
                push_cast
                rfl
        · refine Or.inr ⟨m / 10, x + 1, if_neg hover, ?_⟩
          rw [hm, magnitude, zpow_add₀ (by norm_num), Int.cast_natCast, prec]
          norm_num
          ring
      · rw [if_neg hcarry]
        dsimp only
        exact Or.inr ⟨m, x, if_neg (by omega), by rw [magnitude, Int.cast_natCast]⟩
    · rw [if_neg hex]
      have hm : magnitude c e = ((c * 10 ^ (e - x).toNat : ℕ) : ℤ) * 10 ^ x := by
        have := magnitude_mul_pow c (e - x).toNat x
        rw [Int.toNat_of_nonneg (by omega), add_sub_cancel] at this
        rw [← this, magnitude]
        push_cast
        rfl
      exact ⟨(c * 10 ^ (e - x).toNat : ℕ), .of_eq (zpow_pos (by norm_num) x) hm, Or.inr ⟨c, e, rfl, hm⟩⟩

/-- A result has at most 28 digits, and an exponent of the context. -/
theorem fix_digits {negative s : Bool} {c c' : ℕ} {e e' : ℤ} (hc : c ≠ 0)
    (h : fix negative c e = .ok (.finite s c' e')) :
    s = negative ∧ numDigits c' ≤ prec ∧ etiny ≤ e' := by
  unfold fix at h
  rw [if_neg hc] at h
  dsimp only at h
  split_ifs at h with hover hex hcarry hover' hover'
  · cases h
    refine ⟨rfl, ?_, ?_⟩
    · have hbound : HalfEven.div c (10 ^ (max (numDigits c + e - prec) etiny - e).toNat) ≤
          10 ^ prec := div_le_pow (by omega)
      refine (numDigits_le_iff (by decide)).2 ?_
      have : 10 ^ prec / 10 < 10 ^ prec := by norm_num [prec]
      exact (Nat.div_le_div_right hbound).trans_lt this
    · have := le_max_right (numDigits c + e - prec : ℤ) etiny
      omega
  · cases h
    exact ⟨rfl, not_lt.1 hcarry, le_max_right _ _⟩
  · cases h
    have := le_max_left (numDigits c + e - prec : ℤ) etiny
    have := le_max_right (numDigits c + e - prec : ℤ) etiny
    exact ⟨rfl, by omega, by omega⟩

/-- A number of at most 28 digits is so many units. -/
theorem exact_of_numDigits {c : ℕ} {e : ℤ} (hc : c ≠ 0) (hd : numDigits c ≤ prec)
    (he : etiny ≤ e) : ∃ m : ℤ, magnitude c e = m * unit (magnitude c e) := by
  have hx : unitExponent (magnitude c e) ≤ e := by
    rw [unitExponent_magnitude hc]
    exact max_le (by omega) he
  refine ⟨(c * 10 ^ (e - unitExponent (magnitude c e)).toNat : ℕ), ?_⟩
  have := magnitude_mul_pow c (e - unitExponent (magnitude c e)).toNat (unitExponent (magnitude c e))
  rw [Int.toNat_of_nonneg (by omega), add_sub_cancel] at this
  conv_lhs => rw [← this]
  rw [magnitude, unit, Int.cast_natCast]

/-! ## Integers -/

/-- A natural number with its sign. -/
def signed (negative : Bool) (n : ℤ) : ℤ := if negative then -n else n

theorem signed_inj {negative : Bool} {m n : ℤ} : signed negative m = signed negative n ↔ m = n := by
  cases negative with
  | false => exact Iff.rfl
  | true => exact neg_inj

theorem value_inj {negative : Bool} {c c' : ℕ} {e e' : ℤ} :
    value negative c e = value negative c' e' ↔ magnitude c e = magnitude c' e' := by
  cases negative with
  | false => exact Iff.rfl
  | true => exact neg_inj

/-- The integral value is the number exactly when that is an integer. -/
theorem ne_toIntegralValue (negative : Bool) (c : ℕ) (e : ℤ) : ∃ d b,
    (finite negative c e).toIntegralValue = .ok d ∧ (finite negative c e).ne d = .ok b ∧
      (b = true ↔ ¬ ∃ n : ℤ, magnitude c e = n) := by
  unfold toIntegralValue
  by_cases he : 0 ≤ e
  · refine ⟨finite negative c e, _, if_pos he, rfl, ?_⟩
    refine iff_of_false (by simp) (not_not.2 ⟨c * 10 ^ e.toNat, ?_⟩)
    rw [magnitude]
    push_cast
    rw [← zpow_natCast, Int.toNat_of_nonneg he]
  · refine ⟨finite negative (HalfEven.div c (10 ^ (-e).toNat)) 0, _, if_neg he, rfl, ?_⟩
    rw [decide_eq_true_eq, ne_eq, value_inj, not_iff_not]
    have hnear := nearest_magnitude (c := c) (e := e) (x := 0) (by omega)
    rw [zpow_zero, zero_sub] at hnear
    have hone (m : ℕ) : magnitude m 0 = ((m : ℤ) : ℚ) := by
      rw [magnitude, zpow_zero, mul_one, Int.cast_natCast]
    rw [hone]
    refine ⟨fun h => ⟨_, h⟩, fun ⟨n, hn⟩ => ?_⟩
    rw [hnear.eq_of_exact one_pos (hn.trans (mul_one _).symm), hn]

/-- `int` of an integer. -/
theorem toInt_eq {negative : Bool} {c : ℕ} {e n : ℤ} (h : magnitude c e = n) :
    (finite negative c e).toInt = .ok (signed negative n) := by
  unfold toInt
  have hn : ((if 0 ≤ e then c * 10 ^ e.toNat else c / 10 ^ (-e).toNat : ℕ) : ℤ) = n := by
    by_cases he : 0 ≤ e
    · rw [if_pos he]
      rw [magnitude, ← Int.toNat_of_nonneg he, zpow_natCast] at h
      exact_mod_cast h
    · rw [if_neg he]
      have hc : (c : ℚ) = n * ((10 ^ (-e).toNat : ℕ) : ℚ) := by
        rw [← h, magnitude]
        push_cast
        rw [← zpow_natCast, Int.toNat_of_nonneg (by omega), mul_assoc,
          ← zpow_add₀ (by norm_num), add_neg_cancel, zpow_zero, mul_one]
      have hz : (c : ℤ) = n * ((10 ^ (-e).toNat : ℕ) : ℤ) := by exact_mod_cast hc
      rw [Int.natCast_div, hz]
      exact Int.mul_ediv_cancel _ (by positivity)
  dsimp only
  rw [hn]
  rfl

end Decimal

end GumptionChain
