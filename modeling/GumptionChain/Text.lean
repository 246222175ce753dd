import GumptionChain.Lib.Csv

/-!
# Text

Python strings are sequences of code points, modelled as lists of characters,
with the few conversions the ledger's hash inputs rest on: `str(int)`,
`int(s, 16)` and `f'{n:064x}'`.

* `intStr_injective` — decimal text determines the integer;
* `natStr_digits` — the text of a natural number is made of decimal digits, so
  it holds no comma and is never an address;
* `fmt064x_length` — a padded hexadecimal numeral below `16 ^ 64` has exactly
  64 digits.
-/

namespace GumptionChain

/-- A Python `str`. -/
abbrev Str := List Char

/-- The truth value of an optional string: `None` and `''` are false. -/
def truthy (s : Option Str) : Bool := s.any (· ≠ [])

@[simp] theorem truthy_none : truthy none = false := rfl

@[simp] theorem truthy_some (s : Str) : truthy (some s) = true ↔ s ≠ [] := by simp [truthy]

/-! ## Decimal text -/

/-- `str(n)` for a natural number. -/
def natStr (n : ℕ) : Str := Nat.toDigits 10 n

/-- `str(n)` for an integer. -/
def intStr : ℤ → Str
  | .ofNat n => natStr n
  | .negSucc n => '-' :: natStr (n + 1)

/-- `str(None)`. -/
def noneStr : Str := ['N', 'o', 'n', 'e']

/-- `str` of an optional value. -/
def optStr {α : Type} (f : α → Str) : Option α → Str
  | none => noneStr
  | some a => f a

theorem natStr_injective : Function.Injective natStr := by
  intro m n h
  have := congrArg (fun s => Nat.ofDigitChars 10 s 0) h
  simpa [natStr] using this

theorem natStr_ne_nil (n : ℕ) : natStr n ≠ [] := Nat.toDigits_ne_nil

/-- The characters `0` to `9`. -/
def IsDecimal (s : Str) : Prop := s ≠ [] ∧ ∀ c ∈ s, c.isDigit = true

theorem natStr_digits (n : ℕ) : IsDecimal (natStr n) :=
  ⟨natStr_ne_nil n, fun _ hc => Nat.isDigit_of_mem_toDigits (by decide) (by decide) hc⟩

theorem IsDecimal.comma_notMem {s : Str} (h : IsDecimal s) : ',' ∉ s :=
  fun hc => absurd (h.2 _ hc) (by decide)

theorem IsDecimal.minus_notMem {s : Str} (h : IsDecimal s) : '-' ∉ s :=
  fun hc => absurd (h.2 _ hc) (by decide)

theorem intStr_comma (n : ℤ) : ',' ∉ intStr n := by
  cases n with
  | ofNat n => exact (natStr_digits n).comma_notMem
  | negSucc n =>
    intro h
    rcases List.mem_cons.1 h with h | h
    · exact absurd h (by decide)
    · exact (natStr_digits _).comma_notMem h

theorem intStr_injective : Function.Injective intStr := by
  intro m n h
  cases m with
  | ofNat m =>
    cases n with
    | ofNat n => exact congrArg Int.ofNat (natStr_injective h)
    | negSucc n =>
      have hmem : '-' ∈ natStr m := by
        rw [show natStr m = '-' :: natStr (n + 1) from h]
        exact List.mem_cons_self ..
      exact absurd hmem (natStr_digits m).minus_notMem
  | negSucc m =>
    cases n with
    | ofNat n =>
      have hmem : '-' ∈ natStr n := by
        rw [show natStr n = '-' :: natStr (m + 1) from h.symm]
        exact List.mem_cons_self ..
      exact absurd hmem (natStr_digits n).minus_notMem
    | negSucc n =>
      have := natStr_injective (List.cons.inj h).2
      rw [Nat.succ_injective this]

/-! ## Hexadecimal text -/

/-- The value of one hexadecimal digit, either case. -/
def hexVal? (c : Char) : Option ℕ :=
  if '0' ≤ c ∧ c ≤ '9' then some (c.toNat - 48)
  else if 'a' ≤ c ∧ c ≤ 'f' then some (c.toNat - 87)
  else if 'A' ≤ c ∧ c ≤ 'F' then some (c.toNat - 55)
  else none

/-- A nonempty run of hexadecimal digits, read with the value so far. -/
def hexDigits : ℕ → Str → Option ℕ
  | acc, [] => some acc
  | acc, c :: cs =>
    match hexVal? c with
    | none => none
    | some v => hexDigits (16 * acc + v) cs

/-- `int(s, 16)`, on the characters a mill hash may contain: an optional `+`,
an optional `0x`, then at least one digit. -/
def int16 (s : Str) : Option ℕ :=
  let body := match s with | '+' :: r => r | r => r
  let body := match body with
    | '0' :: 'x' :: r => r
    | '0' :: 'X' :: r => r
    | r => r
  match body with
  | [] => none
  | c :: cs => hexDigits 0 (c :: cs)

/-- `f'{n:064x}'`. -/
def fmt064x (n : ℕ) : Str :=
  List.replicate (64 - (Nat.toDigits 16 n).length) '0' ++ Nat.toDigits 16 n

theorem fmt064x_length {n : ℕ} (h : n < 16 ^ 64) : (fmt064x n).length = 64 := by
  have hlen : (Nat.toDigits 16 n).length ≤ 64 :=
    (Nat.length_toDigits_le_iff (by decide) (by decide)).2 h
  simp only [fmt064x, List.length_append, List.length_replicate]
  omega

end GumptionChain
