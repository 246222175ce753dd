import GumptionChain.Codec.CodePoint
import GumptionChain.Codec.Unicode
import GumptionChain.Wire

/-!
# JSON in Python

`json.loads`, as its scanner reads a text: strings with their escapes, numbers within the
interpreter's bound on the digits, containers within its bound on the recursion; and
`json.dumps` of a flat dictionary, with and without `ensure_ascii`.

* `scanOnce_eq_of_fuel` — the scanner's fuel never runs out;
* `loads_short` — the integers that are read are within the bound on the digits;
* `loads_dumps` — a dictionary of texts is read back.
-/

namespace GumptionChain

/-- A Python `float`, by its value. -/
inductive PyFloat where
  | nan
  | infinity (negative : Bool)
  | finite (q : ℚ)

namespace PyFloat

/-- Half to even. -/
def roundHalfEven (q : ℚ) : ℤ :=
  let rest := q - ⌊q⌋
  if rest < 1 / 2 then ⌊q⌋ else if 1 / 2 < rest then ⌊q⌋ + 1
  else if ⌊q⌋ % 2 = 0 then ⌊q⌋ else ⌊q⌋ + 1

/-- The double nearest to a number. -/
def nearest (q : ℚ) : PyFloat :=
  if q = 0 then .finite 0
  else
    let e := max (Int.log 2 |q| - 52) (-1074)
    let v : ℚ := roundHalfEven (q / 2 ^ e) * 2 ^ e
    if 2 ^ 1024 ≤ |v| then .infinity (q < 0) else .finite v

end PyFloat

/-- What `json.loads` returns. -/
inductive PyJson where
  | null
  | bool (b : Bool)
  | int (n : ℤ)
  | float (x : PyFloat)
  | str (s : PyStr)
  | arr (items : List PyJson)
  | obj (fields : List (PyStr × PyJson))

/-- What `json.loads` raises: `JSONDecodeError` is a `ValueError`. -/
inductive JsonError where
  | valueError
  | recursionError
  deriving DecidableEq

/-- A text as code points. -/
abbrev chars (s : Str) : PyStr := PyStr.ofStr s

namespace PyJson

/-- `v.get(key)` of a dictionary. -/
def get (fields : List (PyStr × PyJson)) (key : Str) : Option PyJson :=
  (fields.find? (·.1 = chars key)).map Prod.snd

/-! ## Strings -/

/-- A part of a string: a code point as it stands, or a code unit that was escaped. -/
inductive Piece where
  | raw (x : CodePoint)
  | unit (n : ℕ)
  deriving DecidableEq

/-- The code point of a code unit that is not joined. -/
def ofUnit (n : ℕ) : CodePoint :=
  if h : 0xD800 ≤ n ∧ n < 0xE000 then .surrogate ⟨n - 0xD800, by omega⟩ else .char (Char.ofNat n)

/-- Escaped surrogates that follow one another are joined. -/
def join : List Piece → PyStr
  | [] => []
  | .raw x :: ps => x :: join ps
  | .unit hi :: .unit lo :: ps =>
    if 0xD800 ≤ hi ∧ hi < 0xDC00 ∧ 0xDC00 ≤ lo ∧ lo < 0xE000 then
      .char (Char.ofNat (0x10000 + (hi - 0xD800) * 0x400 + (lo - 0xDC00))) :: join ps
    else ofUnit hi :: join (.unit lo :: ps)
  | .unit n :: ps => ofUnit n :: join ps

/-- The value of a hexadecimal digit. -/
def hexDigit? (x : CodePoint) : Option ℕ := x.char?.bind hexVal?

/-- The value of four hexadecimal digits. -/
def hex4? (a b c d : CodePoint) : Option ℕ := do
  let a ← hexDigit? a
  let b ← hexDigit? b
  let c ← hexDigit? c
  let d ← hexDigit? d
  return a * 0x1000 + b * 0x100 + c * 0x10 + d

/-- An escape of one character. -/
def escaped? : CodePoint → Option Char
  | .char '"' => some '"'
  | .char '\\' => some '\\'
  | .char '/' => some '/'
  | .char 'b' => some (Char.ofNat 8)
  | .char 'f' => some (Char.ofNat 12)
  | .char 'n' => some '\n'
  | .char 'r' => some '\r'
  | .char 't' => some '\t'
  | _ => none

/-- The parts of a string, up to its closing quote, and what follows. -/
def scanPieces : PyStr → Option (List Piece × PyStr)
  | [] => none
  | .char '"' :: s => some ([], s)
  | .char '\\' :: .char 'u' :: a :: b :: c :: d :: s => do
    let n ← hex4? a b c d
    let (ps, rest) ← scanPieces s
    return (.unit n :: ps, rest)
  | .char '\\' :: x :: s => do
    let c ← escaped? x
    let (ps, rest) ← scanPieces s
    return (.raw (.char c) :: ps, rest)
  | x :: s =>
    if x = .char '\\' ∨ x.ord < 0x20 then none
    else do
      let (ps, rest) ← scanPieces s
      return (.raw x :: ps, rest)

/-- `scanstring`, after the opening quote. -/
def scanString (s : PyStr) : Except JsonError (PyStr × PyStr) :=
  match scanPieces s with
  | none => .error .valueError
  | some (ps, rest) => .ok (join ps, rest)

/-! ## Numbers and constants -/

/-- The digits a text starts with. -/
def spanDigits : PyStr → Str × PyStr
  | .char c :: s =>
    if c.isDigit then (c :: (spanDigits s).1, (spanDigits s).2) else ([], .char c :: s)
  | s => ([], s)

/-- A point with digits after it. -/
def fraction : PyStr → Option Str × PyStr
  | .char '.' :: s =>
    if (spanDigits s).1 = [] then (none, .char '.' :: s)
    else (some (spanDigits s).1, (spanDigits s).2)
  | s => (none, s)

/-- A sign, if there is one. -/
def sign : PyStr → Bool × PyStr
  | .char '-' :: s => (true, s)
  | .char '+' :: s => (false, s)
  | s => (false, s)

/-- `e`, a sign and digits. -/
def exponent : PyStr → Option ℤ × PyStr
  | .char c :: s =>
    let digits := spanDigits (sign s).2
    if (c = 'e' ∨ c = 'E') ∧ digits.1 ≠ [] then
      let n : ℤ := Nat.ofDigitChars 10 digits.1 0
      (some (if (sign s).1 then -n else n), digits.2)
    else (none, .char c :: s)
  | s => (none, s)

/-- The digits before the point: a `0` stands alone. -/
def whole : PyStr → Str × PyStr
  | .char '0' :: s => (['0'], s)
  | s => spanDigits s

/-- A minus. -/
def minus : PyStr → Bool × PyStr
  | .char '-' :: s => (true, s)
  | s => (false, s)

/-- `_match_number`: `int` and `float` of what was matched. -/
def scanNumber (s : PyStr) : Except JsonError (PyJson × PyStr) :=
  let (negative, s) := minus s
  let (digits, s) := whole s
  let (frac, s) := fraction s
  let (exp, s) := exponent s
  if digits = [] then .error .valueError
  else
    match frac, exp with
    | none, none =>
      let n : ℤ := Nat.ofDigitChars 10 digits 0
      if digits.length ≤ intMaxStrDigits then .ok (.int (if negative then -n else n), s)
      else .error .valueError
    | frac, exp =>
      let frac := frac.getD []
      let q : ℚ := Nat.ofDigitChars 10 (digits ++ frac) 0 * 10 ^ (exp.getD 0 - frac.length)
      .ok (.float (.nearest (if negative then -q else q)), s)

/-- The constants. -/
def constants : List (Str × PyJson) :=
  [(['n', 'u', 'l', 'l'], .null), (['t', 'r', 'u', 'e'], .bool true),
    (['f', 'a', 'l', 's', 'e'], .bool false), (['N', 'a', 'N'], .float .nan),
    (['I', 'n', 'f', 'i', 'n', 'i', 't', 'y'], .float (.infinity false)),
    (['-', 'I', 'n', 'f', 'i', 'n', 'i', 't', 'y'], .float (.infinity true))]

/-- A constant or a number. -/
def scanScalar (s : PyStr) : Except JsonError (PyJson × PyStr) :=
  match constants.find? fun p => (chars p.1).isPrefixOf s with
  | some (text, v) => .ok (v, s.drop text.length)
  | none => scanNumber s

/-! ## Containers -/

/-- JSON's white space. -/
def skip (s : PyStr) : PyStr :=
  s.dropWhile fun x => x = .char ' ' || x = .char '\t' || x = .char '\n' || x = .char '\r'

/-- `dict(pairs)`: the last value of a key stands, where the key came first. -/
def dict (pairs : List (PyStr × PyJson)) : List (PyStr × PyJson) :=
  pairs.foldl (fun fields p =>
    if fields.any (·.1 = p.1) then fields.map fun q => if q.1 = p.1 then p else q
    else fields ++ [p]) []

mutual

/-- `scan_once`, with the recursion that is left. -/
def scanOnce : ℕ → ℕ → PyStr → Except JsonError (PyJson × PyStr)
  | 0, _, _ => .error .valueError
  | fuel + 1, depth, s =>
    match s with
    | .char '"' :: s => (scanString s).map fun r => (.str r.1, r.2)
    | .char '\x7b' :: s =>
      match depth with
      | 0 => .error .recursionError
      | depth + 1 =>
        match skip s with
        | .char '\x7d' :: s => .ok (.obj [], s)
        | s => (scanMembers fuel depth s).map fun r => (.obj (dict r.1), r.2)
    | .char '[' :: s =>
      match depth with
      | 0 => .error .recursionError
      | depth + 1 =>
        match skip s with
        | .char ']' :: s => .ok (.arr [], s)
        | s => (scanItems fuel depth s).map fun r => (.arr r.1, r.2)
    | s => scanScalar s

/-- The members of an object, to its closing brace. -/
def scanMembers : ℕ → ℕ → PyStr → Except JsonError (List (PyStr × PyJson) × PyStr)
  | 0, _, _ => .error .valueError
  | fuel + 1, depth, s =>
    match s with
    | .char '"' :: s => do
      let (key, s) ← scanString s
      match skip s with
      | .char ':' :: s =>
        let (v, s) ← scanOnce fuel depth (skip s)
        match skip s with
        | .char '\x7d' :: s => .ok ([(key, v)], s)
        | .char ',' :: s => (scanMembers fuel depth (skip s)).map fun r => ((key, v) :: r.1, r.2)
        | _ => .error .valueError
      | _ => .error .valueError
    | _ => .error .valueError

/-- The items of an array, to its closing bracket. -/
def scanItems : ℕ → ℕ → PyStr → Except JsonError (List PyJson × PyStr)
  | 0, _, _ => .error .valueError
  | fuel + 1, depth, s => do
    let (v, s) ← scanOnce fuel depth s
    match skip s with
    | .char ']' :: s => .ok ([v], s)
    | .char ',' :: s => (scanItems fuel depth (skip s)).map fun r => (v :: r.1, r.2)
    | _ => .error .valueError

end

/-- `json.loads`, with the recursion that is left. -/
def loads (depth : ℕ) (s : PyStr) : Except JsonError PyJson :=
  if s.head? = some (.char (Char.ofNat 0xFEFF)) then .error .valueError
  else
    match scanOnce (2 * s.length + 1) depth (skip s) with
    | .error e => .error e
    | .ok (v, rest) => if skip rest = [] then .ok v else .error .valueError

/-! ## What a scan leaves -/

/-- Every integer is within the bound on the digits. -/
inductive Short : PyJson → Prop where
  | null : Short .null
  | bool (b : Bool) : Short (.bool b)
  | int {n : ℤ} : (natStr n.natAbs).length ≤ intMaxStrDigits → Short (.int n)
  | float (x : PyFloat) : Short (.float x)
  | str (s : PyStr) : Short (.str s)
  | arr {items : List PyJson} : (∀ v ∈ items, Short v) → Short (.arr items)
  | obj {fields : List (PyStr × PyJson)} : (∀ p ∈ fields, Short p.2) → Short (.obj fields)

theorem length_skip (s : PyStr) : (skip s).length ≤ s.length :=
  (List.dropWhile_suffix _).length_le

theorem length_spanDigits (s : PyStr) :
    (spanDigits s).1.length + (spanDigits s).2.length = s.length := by
  fun_induction spanDigits s with
  | case1 c s hc ih => simp only [List.length_cons]; omega
  | case2 c s hc => simp
  | case3 s h => simp

theorem spanDigits_isDigit (s : PyStr) : ∀ c ∈ (spanDigits s).1, c.isDigit = true := by
  fun_induction spanDigits s with
  | case1 c s hc ih => exact List.forall_mem_cons.2 ⟨hc, ih⟩
  | case2 c s hc => exact fun _ h => absurd h List.not_mem_nil
  | case3 s h => exact fun _ h => absurd h List.not_mem_nil

theorem length_scanPieces {s rest : PyStr} {ps : List Piece} (h : scanPieces s = some (ps, rest)) :
    rest.length < s.length := by
  fun_induction scanPieces s generalizing ps rest with
  | case1 => cases h
  | case2 s =>
    obtain ⟨rfl, rfl⟩ := Prod.mk.inj (Option.some.inj h)
    simp
  | case3 a b c d s ih =>
    obtain ⟨n, -, ⟨ps', rest'⟩, hrest, heq⟩ := by
      simpa only [Option.bind_eq_bind, Option.bind_eq_some_iff] using h
    obtain ⟨-, rfl⟩ := Prod.mk.inj (Option.some.inj heq)
    have := ih hrest
    simp only [List.length_cons]
    omega
  | case4 x s hx ih =>
    obtain ⟨n, -, ⟨ps', rest'⟩, hrest, heq⟩ := by
      simpa only [Option.bind_eq_bind, Option.bind_eq_some_iff] using h
    obtain ⟨-, rfl⟩ := Prod.mk.inj (Option.some.inj heq)
    have := ih hrest
    simp only [List.length_cons]
    omega
  | case5 => cases h
  | case6 x s _ _ _ hx ih =>
    obtain ⟨⟨ps', rest'⟩, hrest, heq⟩ := by
      simpa only [Option.bind_eq_bind, Option.bind_eq_some_iff] using h
    obtain ⟨-, rfl⟩ := Prod.mk.inj (Option.some.inj heq)
    have := ih hrest
    simp only [List.length_cons]
    omega

theorem length_scanString {s rest t : PyStr} (h : scanString s = .ok (t, rest)) :
    rest.length < s.length := by
  unfold scanString at h
  split at h
  · cases h
  · rename_i ps rest' hps
    obtain ⟨-, rfl⟩ := Prod.mk.inj (Except.ok.inj h)
    exact length_scanPieces hps

theorem length_fraction (s : PyStr) : (fraction s).2.length ≤ s.length := by
  unfold fraction
  split
  · rename_i s
    have := length_spanDigits s
    split_ifs
    · exact le_rfl
    · simp only [List.length_cons]
      omega
  · exact le_rfl

theorem length_sign (s : PyStr) : (sign s).2.length ≤ s.length := by
  unfold sign
  split <;> simp

theorem length_exponent (s : PyStr) : (exponent s).2.length ≤ s.length := by
  unfold exponent
  split
  · rename_i c s
    have := length_spanDigits (sign s).2
    have := length_sign s
    simp only
    by_cases h : (c = 'e' ∨ c = 'E') ∧ (spanDigits (sign s).2).1 ≠ []
    · rw [if_pos h]
      simp only [List.length_cons]
      omega
    · rw [if_neg h]
  · exact Nat.le_refl _

theorem length_whole (s : PyStr) :
    (whole s).1.length + (whole s).2.length = s.length ∧
      ∀ c ∈ (whole s).1, c.isDigit = true := by
  unfold whole
  split
  · exact ⟨by simp [Nat.add_comm], by simp⟩
  · exact ⟨length_spanDigits s, spanDigits_isDigit s⟩

theorem length_minus (s : PyStr) : (minus s).2.length ≤ s.length := by
  unfold minus
  split <;> simp

theorem ofDigitChars_lt {ds : Str} (h : ∀ c ∈ ds, c.isDigit = true) :
    Nat.ofDigitChars 10 ds 0 < 10 ^ ds.length := by
  induction ds using List.reverseRecOn with
  | nil => simp
  | append_singleton ds c ih =>
    have hc := h c (by simp)
    have hb : 48 ≤ c.toNat ∧ c.toNat ≤ 57 := Char.isDigit_iff_toNat.1 hc
    have hzero : '0'.toNat = 48 := rfl
    have ih := ih fun c hc => h c (by simp [hc])
    rw [Nat.ofDigitChars_append, Nat.ofDigitChars_cons, Nat.ofDigitChars_nil, hzero,
      List.length_append, List.length_singleton, pow_succ]
    omega

/-- A number is within the bound, or is no integer. -/
theorem scanNumber_spec {s rest : PyStr} {v : PyJson} (h : scanNumber s = .ok (v, rest)) :
    rest.length ≤ s.length ∧ v.Short := by
  unfold scanNumber at h
  have hminus := length_minus s
  obtain ⟨hwhole, hdigits⟩ := length_whole (minus s).2
  have hfraction := length_fraction (whole (minus s).2).2
  have hexponent := length_exponent (fraction (whole (minus s).2).2).2
  simp only at h
  by_cases hnil : (whole (minus s).2).1 = []
  · rw [if_pos hnil] at h
    cases h
  rw [if_neg hnil] at h
  split at h
  · by_cases hlen : (whole (minus s).2).1.length ≤ intMaxStrDigits
    · rw [if_pos hlen] at h
      obtain ⟨rfl, rfl⟩ := Prod.mk.inj (Except.ok.inj h)
      refine ⟨by omega, .int ?_⟩
      have hpos : 0 < (whole (minus s).2).1.length := List.length_pos_iff.2 hnil
      have hlt := ofDigitChars_lt hdigits
      have habs : ∀ n : ℕ, (if (minus s).1 = true then -(n : ℤ) else n).natAbs = n := by
        intro n
        split_ifs
        · exact Int.natAbs_neg _ |>.trans (Int.natAbs_natCast n)
        · exact Int.natAbs_natCast n
      rw [habs]
      exact ((Nat.length_toDigits_le_iff (by decide) hpos).2 hlt).trans hlen
    · rw [if_neg hlen] at h
      cases h
  · obtain ⟨rfl, rfl⟩ := Prod.mk.inj (Except.ok.inj h)
    exact ⟨by omega, .float _⟩

theorem scanScalar_spec {s rest : PyStr} {v : PyJson} (h : scanScalar s = .ok (v, rest)) :
    rest.length ≤ s.length ∧ v.Short := by
  unfold scanScalar at h
  split at h
  · rename_i text w hfind
    obtain ⟨rfl, rfl⟩ := Prod.mk.inj (Except.ok.inj h)
    refine ⟨by simp, ?_⟩
    have hmem := List.mem_of_find?_eq_some hfind
    simp only [constants, List.mem_cons, Prod.mk.injEq, List.not_mem_nil, or_false] at hmem
    rcases hmem with ⟨-, rfl⟩ | ⟨-, rfl⟩ | ⟨-, rfl⟩ | ⟨-, rfl⟩ | ⟨-, rfl⟩ | ⟨-, rfl⟩
    exacts [.null, .bool _, .bool _, .float _, .float _, .float _]
  · exact scanNumber_spec h

/-- A dictionary holds what was read. -/
theorem mem_dict {pairs : List (PyStr × PyJson)} {p : PyStr × PyJson} (h : p ∈ dict pairs) :
    p ∈ pairs := by
  have hfold : ∀ (pairs fields : List (PyStr × PyJson)), p ∈ pairs.foldl (fun fields p =>
      if fields.any (·.1 = p.1) then fields.map fun q => if q.1 = p.1 then p else q
      else fields ++ [p]) fields → p ∈ fields ∨ p ∈ pairs := by
    intro pairs
    induction pairs with
    | nil => exact fun fields h => Or.inl h
    | cons q pairs ih =>
      intro fields h
      rcases ih _ h with h | h
      · simp only at h
        split_ifs at h
        · obtain ⟨r, hr, heq⟩ := List.mem_map.1 h
          split_ifs at heq
          · exact Or.inr (heq ▸ List.mem_cons_self ..)
          · exact Or.inl (heq ▸ hr)
        · rcases List.mem_append.1 h with h | h
          · exact Or.inl h
          · exact Or.inr (List.mem_singleton.1 h ▸ List.mem_cons_self ..)
      · exact Or.inr (List.mem_cons_of_mem _ h)
  exact (hfold pairs [] h).resolve_left List.not_mem_nil

theorem bind_ok {ε α β : Type} {x : Except ε α} {f : α → Except ε β} {b : β} :
    (x >>= f) = .ok b ↔ ∃ a, x = .ok a ∧ f a = .ok b := by
  cases x with
  | error e =>
    constructor
    · intro h; cases h
    · rintro ⟨_, h, _⟩; cases h
  | ok a => exact ⟨fun h => ⟨a, rfl, h⟩, fun ⟨_, h, hf⟩ => Except.ok.inj h ▸ hf⟩

theorem map_ok {ε α β : Type} {x : Except ε α} {f : α → β} {b : β} :
    x.map f = .ok b ↔ ∃ a, x = .ok a ∧ f a = b := by
  cases x with
  | error e =>
    constructor
    · intro h; cases h
    · rintro ⟨_, h, _⟩; cases h
  | ok a => exact ⟨fun h => ⟨a, rfl, Except.ok.inj h⟩, fun ⟨_, h, hf⟩ => Except.ok.inj h ▸ hf ▸ rfl⟩

/-- What is left is no longer than what was read, and the integers read are within the
bound. -/
theorem scan_spec (fuel : ℕ) :
    (∀ {depth : ℕ} {s rest : PyStr} {v : PyJson}, scanOnce fuel depth s = .ok (v, rest) →
      rest.length ≤ s.length ∧ v.Short) ∧
    (∀ {depth : ℕ} {s rest : PyStr} {ps : List (PyStr × PyJson)},
      scanMembers fuel depth s = .ok (ps, rest) →
        rest.length ≤ s.length ∧ ∀ p ∈ ps, p.2.Short) ∧
    ∀ {depth : ℕ} {s rest : PyStr} {vs : List PyJson}, scanItems fuel depth s = .ok (vs, rest) →
      rest.length ≤ s.length ∧ ∀ v ∈ vs, v.Short := by
  induction fuel with
  | zero =>
    refine ⟨fun h => ?_, fun h => ?_, fun h => ?_⟩
    · rw [scanOnce] at h; cases h
    · rw [scanMembers] at h; cases h
    · rw [scanItems] at h; cases h
  | succ fuel ih =>
    obtain ⟨ihOnce, ihMembers, ihItems⟩ := ih
    refine ⟨fun {depth s rest v} h => ?_, fun {depth s rest ps} h => ?_,
      fun {depth s rest vs} h => ?_⟩
    · unfold scanOnce at h
      split at h
      · obtain ⟨⟨t, r⟩, ht, heq⟩ := map_ok.1 h
        obtain ⟨rfl, rfl⟩ := Prod.mk.inj heq
        have := length_scanString ht
        refine ⟨?_, .str _⟩
        simp only [List.length_cons]
        omega
      · rename_i s
        have hskip := length_skip s
        split at h
        · cases h
        · split at h
          · rename_i s' hs'
            obtain ⟨rfl, rfl⟩ := Prod.mk.inj (Except.ok.inj h)
            rw [hs', List.length_cons] at hskip
            refine ⟨?_, .obj fun p hp => absurd hp List.not_mem_nil⟩
            simp only [List.length_cons]
            omega
          · obtain ⟨⟨ps, r⟩, hps, heq⟩ := map_ok.1 h
            obtain ⟨rfl, rfl⟩ := Prod.mk.inj heq
            obtain ⟨hlen, hshort⟩ := ihMembers hps
            refine ⟨?_, .obj fun p hp => hshort p (mem_dict hp)⟩
            simp only [List.length_cons]
            omega
      · rename_i s
        have hskip := length_skip s
        split at h
        · cases h
        · split at h
          · rename_i s' hs'
            obtain ⟨rfl, rfl⟩ := Prod.mk.inj (Except.ok.inj h)
            rw [hs', List.length_cons] at hskip
            refine ⟨?_, .arr fun p hp => absurd hp List.not_mem_nil⟩
            simp only [List.length_cons]
            omega
          · obtain ⟨⟨vs, r⟩, hvs, heq⟩ := map_ok.1 h
            obtain ⟨rfl, rfl⟩ := Prod.mk.inj heq
            obtain ⟨hlen, hshort⟩ := ihItems hvs
            refine ⟨?_, .arr hshort⟩
            simp only [List.length_cons]
            omega
      · exact scanScalar_spec h
    · unfold scanMembers at h
      simp only at h
      split at h
      · rename_i s
        obtain ⟨⟨key, s₁⟩, hkey, h⟩ := bind_ok.1 h
        have hkeyLen := length_scanString hkey
        have hskip₁ := length_skip s₁
        simp only at h
        split at h
        · rename_i s₂ hs₂
          rw [hs₂, List.length_cons] at hskip₁
          obtain ⟨⟨v, s₃⟩, hv, h⟩ := bind_ok.1 h
          obtain ⟨hvLen, hvShort⟩ := ihOnce hv
          have hskip₂ := length_skip s₂
          have hskip₃ := length_skip s₃
          simp only at h
          split at h
          · rename_i s₄ hs₄
            obtain ⟨rfl, rfl⟩ := Prod.mk.inj (Except.ok.inj h)
            rw [hs₄, List.length_cons] at hskip₃
            refine ⟨?_, List.forall_mem_singleton.2 hvShort⟩
            simp only [List.length_cons]
            omega
          · rename_i s₄ hs₄
            obtain ⟨⟨qs, r⟩, hqs, heq⟩ := map_ok.1 h
            obtain ⟨rfl, rfl⟩ := Prod.mk.inj heq
            obtain ⟨hlen, hshort⟩ := ihMembers hqs
            rw [hs₄, List.length_cons] at hskip₃
            have hskip₄ := length_skip s₄
            refine ⟨?_, List.forall_mem_cons.2 ⟨hvShort, hshort⟩⟩
            simp only [List.length_cons]
            omega
          · cases h
        · cases h
      · cases h
    · unfold scanItems at h
      simp only at h
      obtain ⟨⟨v, s₁⟩, hv, h⟩ := bind_ok.1 h
      obtain ⟨hvLen, hvShort⟩ := ihOnce hv
      have hskip₁ := length_skip s₁
      simp only at h
      split at h
      · rename_i s₂ hs₂
        obtain ⟨rfl, rfl⟩ := Prod.mk.inj (Except.ok.inj h)
        rw [hs₂, List.length_cons] at hskip₁
        exact ⟨by omega, List.forall_mem_singleton.2 hvShort⟩
      · rename_i s₂ hs₂
        obtain ⟨⟨ws, r⟩, hws, heq⟩ := map_ok.1 h
        obtain ⟨rfl, rfl⟩ := Prod.mk.inj heq
        obtain ⟨hlen, hshort⟩ := ihItems hws
        rw [hs₂, List.length_cons] at hskip₁
        have hskip₂ := length_skip s₂
        refine ⟨?_, List.forall_mem_cons.2 ⟨hvShort, hshort⟩⟩
        simp only
        omega
      · cases h

/-- More fuel than twice the text changes nothing. -/
theorem scan_fuel (fuel : ℕ) :
    (∀ {depth : ℕ} {s : PyStr}, 2 * s.length < fuel →
      scanOnce (fuel + 1) depth s = scanOnce fuel depth s) ∧
    (∀ {depth : ℕ} {s : PyStr}, 2 * s.length + 1 < fuel →
      scanMembers (fuel + 1) depth s = scanMembers fuel depth s) ∧
    ∀ {depth : ℕ} {s : PyStr}, 2 * s.length + 1 < fuel →
      scanItems (fuel + 1) depth s = scanItems fuel depth s := by
  induction fuel with
  | zero => exact ⟨fun h => absurd h (by omega), fun h => absurd h (by omega),
      fun h => absurd h (by omega)⟩
  | succ fuel ih =>
    obtain ⟨ihOnce, ihMembers, ihItems⟩ := ih
    refine ⟨fun {depth s} h => ?_, fun {depth s} h => ?_, fun {depth s} h => ?_⟩
    · rw [scanOnce.eq_def (fuel + 1 + 1), scanOnce.eq_def (fuel + 1)]
      simp only
      split
      · rfl
      · rename_i s
        rw [List.length_cons] at h
        have hskip := length_skip s
        cases depth with
        | zero => rfl
        | succ depth =>
          simp only
          split
          · rfl
          · rw [ihMembers (by omega)]
      · rename_i s
        rw [List.length_cons] at h
        have hskip := length_skip s
        cases depth with
        | zero => rfl
        | succ depth =>
          simp only
          split
          · rfl
          · rw [ihItems (by omega)]
      · rfl
    · rw [scanMembers.eq_def (fuel + 1 + 1), scanMembers.eq_def (fuel + 1)]
      simp only
      split
      · rename_i s
        rw [List.length_cons] at h
        cases hkey : scanString s with
        | error e => rfl
        | ok r =>
          obtain ⟨key, s₁⟩ := r
          have hkeyLen := length_scanString hkey
          have hskip₁ := length_skip s₁
          simp only [bind, Except.bind]
          split
          · rename_i s₂ hs₂
            rw [hs₂, List.length_cons] at hskip₁
            have hskip₂ := length_skip s₂
            rw [ihOnce (by omega)]
            cases hv : scanOnce fuel depth (skip s₂) with
            | error e => rfl
            | ok r =>
              obtain ⟨v, s₃⟩ := r
              have hvLen := ((scan_spec fuel).1 hv).1
              have hskip₃ := length_skip s₃
              simp only
              split
              · rfl
              · rename_i s₄ hs₄
                rw [hs₄, List.length_cons] at hskip₃
                have hskip₄ := length_skip s₄
                rw [ihMembers (by omega)]
              · rfl
          · rfl
      · rfl
    · rw [scanItems.eq_def (fuel + 1 + 1), scanItems.eq_def (fuel + 1)]
      simp only
      rw [ihOnce (by omega)]
      cases hv : scanOnce fuel depth s with
      | error e => rfl
      | ok r =>
        obtain ⟨v, s₁⟩ := r
        have hvLen := ((scan_spec fuel).1 hv).1
        have hskip₁ := length_skip s₁
        simp only [bind, Except.bind]
        split
        · rfl
        · rename_i s₂ hs₂
          rw [hs₂, List.length_cons] at hskip₁
          have hskip₂ := length_skip s₂
          rw [ihItems (by omega)]
        · rfl

/-- The scanner's fuel never runs out. -/
theorem scanOnce_eq_of_fuel {depth fuel : ℕ} {s : PyStr} (h : 2 * s.length < fuel) :
    scanOnce fuel depth s = scanOnce (2 * s.length + 1) depth s := by
  induction fuel, h using Nat.le_induction with
  | base => rfl
  | succ fuel hle ih => rw [(scan_fuel fuel).1 hle, ih]

/-- The integers that are read are within the bound. -/
theorem loads_short {depth : ℕ} {s : PyStr} {v : PyJson} (h : loads depth s = .ok v) : v.Short := by
  unfold loads at h
  split_ifs at h
  split at h
  · cases h
  · rename_i w rest hscan
    split_ifs at h
    obtain rfl := Except.ok.inj h
    exact ((scan_spec _).1 hscan).2

/-! ## `json.dumps` -/

/-- The escapes with `ensure_ascii`. -/
def escapeAscii : CodePoint → PyStr
  | .char c => chars (escapeChar c)
  | .surrogate n => chars (unicodeEscape (0xD800 + n))

/-- The escapes without it. -/
def escapePlain : CodePoint → PyStr
  | .char c =>
    if c = '"' ∨ c = '\\' ∨ c.toNat < 0x20 then chars (escapeChar c) else [.char c]
  | x => [x]

/-- A quoted text. -/
def quote (esc : CodePoint → PyStr) (s : PyStr) : PyStr :=
  .char '"' :: (s.flatMap esc ++ [.char '"'])

/-- A text or an integer. -/
inductive Scalar where
  | str (s : PyStr)
  | int (n : ℤ)

/-- The text of a value: `ValueError` for an integer past the bound on the digits. -/
def Scalar.dumps (esc : CodePoint → PyStr) : Scalar → Option PyStr
  | .str s => some (quote esc s)
  | .int n => (pyStr n).map chars

/-- `json.dumps` of a flat dictionary, with its separators. -/
def dumps (esc : CodePoint → PyStr) (comma colon : PyStr) (fields : List (PyStr × Scalar)) :
    Option PyStr :=
  (fields.mapM fun p : PyStr × Scalar =>
    (p.2.dumps esc).map (quote esc p.1 ++ colon ++ ·)).map fun members =>
      .char '\x7b' :: (comma.intercalate members ++ [.char '\x7d'])

/-! ## The round trip of a text -/

theorem hexVal_digitChar : ∀ d : Fin 16, hexVal? (Nat.digitChar d) = some d.val := by decide

theorem unicodeEscape_eq {n : ℕ} (h : n < 0x10000) : unicodeEscape n =
    ['\\', 'u', Nat.digitChar (n / 0x1000), Nat.digitChar (n / 0x100 % 16),
      Nat.digitChar (n / 0x10 % 16), Nat.digitChar (n % 16)] := by
  have hzero : Nat.digitChar 0 = '0' := rfl
  unfold unicodeEscape
  rw [Nat.toDigits_eq_if (by decide)]
  split_ifs with h₁
  · simp [List.replicate, hzero, show n / 0x1000 = 0 by omega, show n / 0x100 = 0 by omega,
      show n / 0x10 = 0 by omega, Nat.mod_eq_of_lt h₁]
  rw [Nat.toDigits_eq_if (by decide)]
  split_ifs with h₂
  · simp [List.replicate, hzero, show n / 0x1000 = 0 by omega, show n / 0x100 = 0 by omega,
      Nat.mod_eq_of_lt h₂]
  rw [Nat.toDigits_eq_if (by decide)]
  split_ifs with h₃
  · simp [hzero, show n / 0x1000 = 0 by omega,
      show n / 16 / 16 = n / 0x100 by omega, show n / 0x100 % 16 = n / 0x100 by omega]
  rw [Nat.toDigits_eq_if (by decide), if_pos (by omega)]
  simp [show n / 16 / 16 = n / 0x100 by omega, show n / 0x100 / 16 = n / 0x1000 by omega]

/-- The digits of an escaped code unit are read back. -/
theorem scanPieces_unicodeEscape {n : ℕ} (h : n < 0x10000) (s : PyStr) :
    scanPieces (chars (unicodeEscape n) ++ s) =
      (scanPieces s).map fun r => (.unit n :: r.1, r.2) := by
  have hdigit : ∀ d : ℕ, d < 16 → hexDigit? (.char (Nat.digitChar d)) = some d :=
    fun d hd => hexVal_digitChar ⟨d, hd⟩
  have hhex : hex4? (.char (Nat.digitChar (n / 0x1000))) (.char (Nat.digitChar (n / 0x100 % 16)))
      (.char (Nat.digitChar (n / 0x10 % 16))) (.char (Nat.digitChar (n % 16))) = some n := by
    simp only [hex4?, hdigit _ (show n / 0x1000 < 16 by omega),
      hdigit _ (Nat.mod_lt _ (by decide : 0 < 16)), Option.bind_eq_bind, Option.bind_some]
    exact congrArg some (by omega)
  rw [unicodeEscape_eq h]
  show scanPieces (.char '\\' :: .char 'u' :: _ :: _ :: _ :: _ :: s) = _
  rw [scanPieces, hhex]
  cases scanPieces s <;> rfl

/-- How an escaped character is read. -/
def pieces (c : Char) : List Piece :=
  if c = '"' ∨ c = '\\' ∨ c = '\n' ∨ c = '\r' ∨ c = '\t' ∨ c.toNat = 8 ∨ c.toNat = 12 ∨
      (' ' ≤ c ∧ c ≤ '~') then [.raw (.char c)]
  else if c.toNat < 0x10000 then [.unit c.toNat]
  else [.unit (0xd800 + (c.toNat - 0x10000) / 0x400), .unit (0xdc00 + (c.toNat - 0x10000) % 0x400)]

theorem scanPieces_escapeChar (c : Char) (s : PyStr) :
    scanPieces (chars (escapeChar c) ++ s) =
      (scanPieces s).map fun r => (pieces c ++ r.1, r.2) := by
  have hshort : ∀ x d : Char, escaped? (.char x) = some d → x ≠ 'u' →
      scanPieces (.char '\\' :: .char x :: s) =
        (scanPieces s).map fun r => (.raw (.char d) :: r.1, r.2) := by
    intro x d hx hu
    rw [scanPieces, hx]
    · cases scanPieces s <;> rfl
    · intro a b c d s' hchars
      exact absurd (CodePoint.char.inj hchars) hu
  have hback : ∀ n, c.toNat = n → Char.ofNat n = c := fun n hn => hn ▸ Char.ofNat_toNat c
  by_cases h₁ : c = '"'
  · subst h₁
    exact hshort '"' '"' rfl (by decide)
  by_cases h₂ : c = '\\'
  · subst h₂
    exact hshort '\\' '\\' rfl (by decide)
  by_cases h₃ : c = '\n'
  · subst h₃
    exact hshort 'n' '\n' rfl (by decide)
  by_cases h₄ : c = '\r'
  · subst h₄
    exact hshort 'r' '\r' rfl (by decide)
  by_cases h₅ : c = '\t'
  · subst h₅
    exact hshort 't' '\t' rfl (by decide)
  by_cases h₆ : c.toNat = 8
  · have hc := hback 8 h₆
    subst hc
    exact hshort 'b' _ rfl (by decide)
  by_cases h₇ : c.toNat = 12
  · have hc := hback 12 h₇
    subst hc
    exact hshort 'f' _ rfl (by decide)
  by_cases h₈ : ' ' ≤ c ∧ c ≤ '~'
  · have hplain : ¬ (CodePoint.char c = .char '\\' ∨ (CodePoint.char c).ord < 0x20) := by
      rintro (h | h)
      · exact h₂ (CodePoint.char.inj h)
      · exact absurd (show 32 ≤ c.toNat from h₈.1) (by simpa [CodePoint.ord] using h)
    have hescape : escapeChar c = [c] := by
      simp only [escapeChar, h₁, h₂, h₃, h₄, h₅, h₆, h₇, h₈, if_false, if_true, and_self]
    have hpieces : pieces c = [.raw (.char c)] := by
      simp only [pieces, h₈, and_self, or_true, if_true]
    rw [hescape, hpieces]
    show scanPieces (.char c :: s) = _
    rw [scanPieces, if_neg hplain]
    · cases scanPieces s <;> rfl
    · exact fun h => h₁ (CodePoint.char.inj h)
    · exact fun _ _ _ _ _ h _ => h₂ (CodePoint.char.inj h)
    · exact fun _ _ h _ => h₂ (CodePoint.char.inj h)
  · have hnot : ¬ (c = '"' ∨ c = '\\' ∨ c = '\n' ∨ c = '\r' ∨ c = '\t' ∨ c.toNat = 8 ∨
        c.toNat = 12 ∨ (' ' ≤ c ∧ c ≤ '~')) := by
      simp only [h₁, h₂, h₃, h₄, h₅, h₆, h₇, h₈, or_self, not_false_iff]
    simp only [escapeChar, pieces, h₁, h₂, h₃, h₄, h₅, h₆, h₇, h₈, if_false, or_self]
    by_cases hlow : c.toNat < 0x10000
    · rw [if_pos hlow, if_pos hlow, scanPieces_unicodeEscape hlow]
      rfl
    · have hc : c.toNat < 0x110000 := by
        rcases c.valid with hv | hv
        · exact hv.trans (by decide)
        · exact hv.2
      rw [if_neg hlow, if_neg hlow, chars, PyStr.ofStr, List.map_append, List.append_assoc]
      show scanPieces (chars (unicodeEscape _) ++ (chars (unicodeEscape _) ++ s)) = _
      rw [scanPieces_unicodeEscape (by omega), scanPieces_unicodeEscape (by omega)]
      cases scanPieces s <;> rfl

theorem ofUnit_toNat (c : Char) : ofUnit c.toNat = .char c := by
  have hnot : ¬ (0xD800 ≤ c.toNat ∧ c.toNat < 0xE000) := by
    have hv : c.toNat < 0xd800 ∨ 0xdfff < c.toNat ∧ c.toNat < 0x110000 := c.valid
    omega
  rw [ofUnit, dif_neg hnot, Char.ofNat_toNat]

/-- A code unit that is no high surrogate is not joined. -/
theorem join_unit {n : ℕ} (h : ¬ (0xD800 ≤ n ∧ n < 0xDC00)) (ps : List Piece) :
    join (.unit n :: ps) = ofUnit n :: join ps := by
  rcases ps with _ | ⟨x | lo, ps⟩
  · rfl
  · rfl
  · rw [join, if_neg fun hjoin => h ⟨hjoin.1, hjoin.2.1⟩]

theorem join_pieces (c : Char) (ps : List Piece) : join (pieces c ++ ps) = .char c :: join ps := by
  have hv : c.toNat < 0xd800 ∨ 0xdfff < c.toNat ∧ c.toNat < 0x110000 := c.valid
  unfold pieces
  split_ifs with hshort hlow
  · rfl
  · rw [List.singleton_append, join_unit (by omega), ofUnit_toNat]
  · rw [List.cons_append, List.singleton_append, join, if_pos (by omega)]
    rw [show 0x10000 + (0xd800 + (c.toNat - 0x10000) / 0x400 - 0xD800) * 0x400 +
      (0xdc00 + (c.toNat - 0x10000) % 0x400 - 0xDC00) = c.toNat by omega, Char.ofNat_toNat]

/-- A quoted text is read back. -/
theorem scanString_quote (t : Str) (rest : PyStr) :
    scanString ((chars t).flatMap escapeAscii ++ .char '"' :: rest) = .ok (chars t, rest) := by
  have hjoin : join (t.flatMap pieces) = chars t := by
    induction t with
    | nil => rfl
    | cons c t ih =>
      rw [List.flatMap_cons, join_pieces, ih]
      rfl
  have hpieces : scanPieces ((chars t).flatMap escapeAscii ++ .char '"' :: rest) =
      some (t.flatMap pieces, rest) := by
    clear hjoin
    induction t with
    | nil => rfl
    | cons c t ih =>
      show scanPieces ((chars (escapeChar c) ++ (chars t).flatMap escapeAscii) ++ _) = _
      rw [List.append_assoc, scanPieces_escapeChar, ih]
      rfl
  rw [scanString, hpieces]
  simp only [hjoin]

/-! ## The round trip of a dictionary of texts -/

/-- A member of a dictionary of texts. -/
def member (p : Str × Str) : PyStr :=
  quote escapeAscii (chars p.1) ++ chars [':', ' '] ++ quote escapeAscii (chars p.2)

/-- Such a dictionary. -/
def texts (fields : List (Str × Str)) : List (PyStr × PyJson) :=
  fields.map fun p => (chars p.1, .str (chars p.2))

theorem dumps_texts (fields : List (Str × Str)) :
    dumps escapeAscii (chars [',', ' ']) (chars [':', ' '])
      (fields.map fun p => (chars p.1, .str (chars p.2))) =
    some (.char '\x7b' :: ((chars [',', ' ']).intercalate (fields.map member) ++
      [.char '\x7d'])) := by
  have hmembers : ((fields.map fun p => (chars p.1, Scalar.str (chars p.2))).mapM
      fun p : PyStr × Scalar => (p.2.dumps escapeAscii).map
        (quote escapeAscii p.1 ++ chars [':', ' '] ++ ·)) = some (fields.map member) := by
    induction fields with
    | nil => rfl
    | cons p fields ih =>
      rw [List.map_cons, List.mapM_cons, ih]
      rfl
  rw [dumps, hmembers]
  rfl

theorem scanOnce_quote (fuel depth : ℕ) (t : Str) (rest : PyStr) :
    scanOnce (fuel + 1) depth (quote escapeAscii (chars t) ++ rest) =
      .ok (.str (chars t), rest) := by
  rw [quote, List.cons_append, List.append_assoc, scanOnce, List.singleton_append,
    scanString_quote]
  rfl

/-- A member is read, and what follows it decides. -/
theorem scanMembers_member (fuel depth : ℕ) (p : Str × Str) (rest : PyStr) :
    scanMembers (fuel + 2) depth (member p ++ rest) =
      match skip rest with
      | .char '\x7d' :: s => .ok ([(chars p.1, .str (chars p.2))], s)
      | .char ',' :: s => (scanMembers (fuel + 1) depth (skip s)).map fun r =>
          ((chars p.1, .str (chars p.2)) :: r.1, r.2)
      | _ => .error .valueError := by
  have hshape : member p ++ rest = .char '"' :: ((chars p.1).flatMap escapeAscii ++ .char '"' ::
      .char ':' :: .char ' ' :: (quote escapeAscii (chars p.2) ++ rest)) := by
    simp [member, quote, chars, PyStr.ofStr]
  have hskip : skip (.char ' ' :: (quote escapeAscii (chars p.2) ++ rest)) =
      quote escapeAscii (chars p.2) ++ rest := rfl
  rw [hshape, scanMembers, scanString_quote]
  simp only [bind, Except.bind]
  rw [show skip (.char ':' :: .char ' ' :: (quote escapeAscii (chars p.2) ++ rest)) =
    .char ':' :: .char ' ' :: (quote escapeAscii (chars p.2) ++ rest) from rfl]
  simp only [hskip, scanOnce_quote]

/-- The members start with a quote. -/
theorem members_head (p : Str × Str) (fields : List (Str × Str)) :
    ∃ t, (chars [',', ' ']).intercalate ((p :: fields).map member) = .char '"' :: t := by
  cases fields with
  | nil => exact ⟨_, by rw [List.map_singleton, List.intercalate_singleton]; rfl⟩
  | cons q fields =>
    exact ⟨_, by rw [List.map_cons, List.intercalate_cons_of_ne_nil (by simp)]; rfl⟩

theorem skip_members (p : Str × Str) (fields : List (Str × Str)) (s : PyStr) :
    skip ((chars [',', ' ']).intercalate ((p :: fields).map member) ++ s) =
      (chars [',', ' ']).intercalate ((p :: fields).map member) ++ s := by
  obtain ⟨t, ht⟩ := members_head p fields
  rw [ht]
  rfl

/-- The members of a dictionary of texts are read back, whatever follows it. -/
theorem scanMembers_texts (p : Str × Str) (fields : List (Str × Str)) {fuel : ℕ} (depth : ℕ)
    (rest : PyStr) (hfuel : fields.length + 2 ≤ fuel) :
    scanMembers fuel depth ((chars [',', ' ']).intercalate ((p :: fields).map member) ++
      .char '\x7d' :: rest) = .ok (texts (p :: fields), rest) := by
  induction fields generalizing p fuel with
  | nil =>
    obtain ⟨fuel, rfl⟩ := Nat.exists_eq_add_of_le' hfuel
    rw [List.map_singleton, List.intercalate_singleton, List.length_nil, scanMembers_member]
    rfl
  | cons q fields ih =>
    obtain ⟨fuel, rfl⟩ := Nat.exists_eq_add_of_le' hfuel
    have hcons : (chars [',', ' ']).intercalate ((p :: q :: fields).map member) =
        member p ++ (.char ',' :: .char ' ' ::
          (chars [',', ' ']).intercalate ((q :: fields).map member)) := by
      rw [List.map_cons, List.intercalate_cons_of_ne_nil (by simp)]
      simp [chars, PyStr.ofStr]
    rw [hcons, List.append_assoc, List.length_cons,
      show fuel + (fields.length + 1 + 2) = fuel + fields.length + 1 + 2 by omega,
      scanMembers_member]
    have hcomma : ∀ s : PyStr, skip (.char ',' :: .char ' ' :: s) = .char ',' :: .char ' ' :: s :=
      fun s => rfl
    have hspace : ∀ s : PyStr, skip (.char ' ' :: s) = skip s := fun s => rfl
    rw [List.cons_append, List.cons_append, hcomma]
    simp only [hspace, skip_members]
    rw [ih q (by omega)]
    rfl

/-- Distinct keys keep their pairs. -/
theorem dict_of_nodup {pairs : List (PyStr × PyJson)} (h : (pairs.map Prod.fst).Nodup) :
    dict pairs = pairs := by
  have hfold : ∀ (pairs fields : List (PyStr × PyJson)),
      ((fields ++ pairs).map Prod.fst).Nodup → pairs.foldl (fun fields p =>
        if fields.any (·.1 = p.1) then fields.map fun q => if q.1 = p.1 then p else q
        else fields ++ [p]) fields = fields ++ pairs := by
    intro pairs
    induction pairs with
    | nil => exact fun fields _ => (List.append_nil fields).symm
    | cons p pairs ih =>
      intro fields hn
      have hnew : fields.any (·.1 = p.1) = false := by
        rw [List.any_eq_false]
        intro q hq heq
        rw [List.map_append, List.nodup_append] at hn
        exact hn.2.2 q.1 (List.mem_map_of_mem hq) p.1 (by simp) (of_decide_eq_true heq)
      rw [List.foldl_cons, if_neg (by rw [hnew]; decide), ih _ (by simpa using hn),
        List.append_assoc]
      rfl
  exact hfold pairs [] h

theorem chars_injective : Function.Injective chars :=
  List.map_injective_iff.2 fun _ _ => CodePoint.char.inj

/-- A dictionary of texts is read back. -/
theorem loads_dumps {fields : List (Str × Str)} {text : PyStr} {depth : ℕ} (hdepth : 0 < depth)
    (hkeys : (fields.map Prod.fst).Nodup)
    (h : dumps escapeAscii (chars [',', ' ']) (chars [':', ' '])
      (fields.map fun p => (chars p.1, .str (chars p.2))) = some text) :
    loads depth text = .ok (.obj (texts fields)) := by
  rw [dumps_texts] at h
  obtain rfl := Option.some.inj h
  obtain ⟨depth, rfl⟩ := Nat.exists_eq_succ_of_ne_zero hdepth.ne'
  have hnodup : ((texts fields).map Prod.fst).Nodup := by
    have hmap : (texts fields).map Prod.fst = (fields.map Prod.fst).map chars := by
      simp [texts]
    rw [hmap]
    exact hkeys.map chars_injective
  cases fields with
  | nil => rfl
  | cons p fields =>
    generalize hI : (chars [',', ' ']).intercalate ((p :: fields).map member) = I
    have hscan : scanOnce (2 * (CodePoint.char '\x7b' :: (I ++ [.char '\x7d'])).length + 1)
        (depth + 1) (.char '\x7b' :: (I ++ [.char '\x7d'])) =
          .ok (.obj (texts (p :: fields)), []) := by
      obtain ⟨t, ht⟩ := members_head p fields
      have hskip : skip (I ++ [.char '\x7d']) = .char '"' :: (t ++ [.char '\x7d']) := by
        rw [← hI, skip_members, ht, List.cons_append]
      have hmembers := @scanMembers_texts p fields
        (2 * (CodePoint.char '\x7b' :: (I ++ [.char '\x7d'])).length + fields.length + 2) depth []
        (by omega)
      rw [ht, List.cons_append] at hmembers
      have hfuel : 2 * (CodePoint.char '\x7b' :: (I ++ [.char '\x7d'])).length <
          2 * (CodePoint.char '\x7b' :: (I ++ [.char '\x7d'])).length + fields.length + 2 + 1 := by
        omega
      rw [← scanOnce_eq_of_fuel hfuel, scanOnce, hskip]
      show (scanMembers _ depth (.char '"' :: (t ++ [.char '\x7d']))).map _ = _
      rw [hmembers]
      simp only [Except.map, dict_of_nodup hnodup]
    have hhead : (CodePoint.char '\x7b' :: (I ++ [.char '\x7d'])).head? ≠
        some (.char (Char.ofNat 0xFEFF)) := by
      simp only [List.head?_cons]
      decide
    rw [loads, if_neg hhead]
    simp only [show ∀ s : PyStr, skip (.char '\x7b' :: s) = .char '\x7b' :: s from fun _ => rfl,
      hscan]
    rfl

end PyJson

end GumptionChain
