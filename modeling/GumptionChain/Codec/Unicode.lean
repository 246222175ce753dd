import GumptionChain.Text

/-!
# Text of the outside

The methods of `str` that rest on the Unicode tables, `str(n)` and `int(s)` with the
interpreter's bound on the digits, and text in lines.

* `pyInt_intStr` — a number is read back from its text;
* `append_newline_inj`, `newline_append_inj` — a text splits at its first line break, and
  at its last.
-/

namespace GumptionChain

/-- The Unicode tables of the interpreter. -/
structure Unicode where
  /-- The full upper-case mapping of a character. -/
  upperChar : Char → Str
  isSpace : Char → Bool
  /-- The digit that a character of the category `Nd` stands for. -/
  decimal : Char → Option (Fin 10)
  upperChar_newline : ∀ c, '\n' ∈ upperChar c → c = '\n'
  isSpace_ascii : ∀ c : Char, c.toNat < 128 →
    (isSpace c = true ↔ c = ' ' ∨ 9 ≤ c.toNat ∧ c.toNat ≤ 13 ∨ 28 ≤ c.toNat ∧ c.toNat ≤ 31)

/-- `sys.get_int_max_str_digits()`. -/
def intMaxStrDigits : ℕ := 4300

/-- `str(n)`: `ValueError` past the bound on the digits. -/
def pyStr (n : ℤ) : Option Str :=
  if (natStr n.natAbs).length ≤ intMaxStrDigits then some (intStr n) else none

namespace Unicode

variable (U : Unicode)

/-- `s.upper()`. -/
def upper (s : Str) : Str := s.flatMap U.upperChar

/-- `s.strip()`. -/
def strip (s : Str) : Str := ((s.dropWhile U.isSpace).reverse.dropWhile U.isSpace).reverse

/-- What `int` reads for a character: decimals and spaces become ASCII. -/
def toAscii (c : Char) : Char :=
  if c.toNat < 127 then c
  else if U.isSpace c then ' '
  else
    match U.decimal c with
    | some d => Char.ofNat (48 + d)
    | none => '?'

/-- A space of C. -/
def cSpace (c : Char) : Bool := c = ' ' || (9 ≤ c.toNat && c.toNat ≤ 13)

/-- Digits, with single underscores between them: the value and the number of digits. -/
def digits : ℕ → ℕ → Str → Option (ℕ × ℕ)
  | acc, k, [] => some (acc, k)
  | acc, k, '_' :: c :: s =>
    if c.isDigit then digits (10 * acc + (c.toNat - 48)) (k + 1) s else none
  | acc, k, c :: s => if c.isDigit then digits (10 * acc + (c.toNat - 48)) (k + 1) s else none

/-- Digits within the bound. -/
def pyNat : Str → Option ℕ
  | [] => none
  | c :: s =>
    if c.isDigit then
      match digits (c.toNat - 48) 1 s with
      | some (n, k) => if k ≤ intMaxStrDigits then some n else none
      | none => none
    else none

/-- Digits after an optional sign. -/
def signed : Str → Option ℤ
  | '-' :: s => (pyNat s).map fun n : ℕ => -(n : ℤ)
  | '+' :: s => (pyNat s).map fun n : ℕ => (n : ℤ)
  | s => (pyNat s).map fun n : ℕ => (n : ℤ)

/-- `int(s)`: `ValueError` is `none`. -/
def pyInt (s : Str) : Option ℤ :=
  signed (((s.map U.toAscii).dropWhile cSpace).reverse.dropWhile cSpace).reverse

theorem upper_newline {s : Str} (h : '\n' ∉ s) : '\n' ∉ U.upper s := by
  intro hmem
  obtain ⟨c, hc, hup⟩ := List.mem_flatMap.1 hmem
  exact h (U.upperChar_newline c hup ▸ hc)

/-! ## Numbers -/

theorem digits_of_isDigit {s : Str} (h : ∀ c ∈ s, c.isDigit = true) (acc k : ℕ) :
    digits acc k s = some (Nat.ofDigitChars 10 s acc, k + s.length) := by
  induction s generalizing acc k with
  | nil => simp [digits]
  | cons c s ih =>
    rw [List.forall_mem_cons] at h
    have hne : c ≠ '_' := by
      rintro rfl
      exact absurd h.1 (by decide)
    rw [digits, if_pos h.1, ih h.2, Nat.ofDigitChars_cons, List.length_cons]
    · rw [Nat.add_assoc, Nat.add_comm 1]
      rfl
    · rintro c' s' ⟨⟩
      exact absurd rfl hne

/-- Digits without underscores are read as a decimal numeral. -/
theorem pyNat_of_isDecimal {s : Str} (h : IsDecimal s) :
    pyNat s = if s.length ≤ intMaxStrDigits then some (Nat.ofDigitChars 10 s 0) else none := by
  obtain ⟨hne, hs⟩ := h
  cases s with
  | nil => exact absurd rfl hne
  | cons c s =>
    rw [List.forall_mem_cons] at hs
    rw [pyNat, if_pos hs.1, digits_of_isDigit hs.2, Nat.ofDigitChars_cons, List.length_cons,
      Nat.add_comm 1]
    simp only [Nat.mul_zero, Nat.zero_add]
    rfl

theorem pyNat_natStr (n : ℕ) : pyNat (natStr n) =
    if (natStr n).length ≤ intMaxStrDigits then some n else none := by
  have hvalue : Nat.ofDigitChars 10 (natStr n) 0 = n := by simp [natStr]
  rw [pyNat_of_isDecimal (natStr_digits n), hvalue]

theorem toAscii_of_lt {c : Char} (h : c.toNat < 127) : U.toAscii c = c := if_pos h

/-- Text without spaces is not stripped. -/
theorem dropWhile_cSpace {s : Str} (h : ∀ c ∈ s, cSpace c = false) : s.dropWhile cSpace = s := by
  cases s with
  | nil => rfl
  | cons c s => exact List.dropWhile_cons_of_neg (by rw [h c (List.mem_cons_self ..)]; decide)

/-- Plain text is read as it stands. -/
theorem pyInt_of_plain {s : Str} (h : ∀ c ∈ s, c.isDigit = true ∨ c = '-') :
    U.pyInt s = signed s := by
  have hplain : ∀ c ∈ s, c.toNat < 127 ∧ cSpace c = false := by
    intro c hc
    rcases h c hc with hd | rfl
    · have hb : 48 ≤ c.toNat ∧ c.toNat ≤ 57 := Char.isDigit_iff_toNat.1 hd
      have hspace : c ≠ ' ' := by
        rintro rfl
        exact absurd hd (by decide)
      refine ⟨by omega, ?_⟩
      simp only [cSpace, hspace, decide_false, Bool.false_or]
      simp
      omega
    · exact ⟨by decide, by decide⟩
  have hmap : s.map U.toAscii = s :=
    (List.map_congr_left fun c hc => U.toAscii_of_lt (hplain c hc).1).trans (List.map_id _)
  rw [pyInt, hmap, dropWhile_cSpace fun c hc => (hplain c hc).2,
    dropWhile_cSpace fun c hc => (hplain c (List.mem_reverse.1 hc)).2, List.reverse_reverse]

theorem signed_of_isDecimal {s : Str} (h : IsDecimal s) :
    signed s = (pyNat s).map fun n : ℕ => (n : ℤ) := by
  unfold signed
  split
  · exact absurd (h.2 '-' (List.mem_cons_self ..)) (by decide)
  · exact absurd (h.2 '+' (List.mem_cons_self ..)) (by decide)
  · rfl

/-- A number is read back from its text. -/
theorem pyInt_intStr {n : ℤ} {s : Str} (h : pyStr n = some s) : U.pyInt s = some n := by
  unfold pyStr at h
  split_ifs at h with hlen
  obtain rfl := Option.some.inj h
  cases n with
  | ofNat n =>
    have hd := natStr_digits n
    rw [show intStr (.ofNat n) = natStr n from rfl,
      U.pyInt_of_plain fun c hc => Or.inl (hd.2 c hc), signed_of_isDecimal hd, pyNat_natStr]
    exact congrArg (Option.map fun n : ℕ => (n : ℤ)) (if_pos hlen)
  | negSucc n =>
    have hd := natStr_digits (n + 1)
    have hplain : ∀ c ∈ intStr (.negSucc n), c.isDigit = true ∨ c = '-' := by
      intro c hc
      rcases List.mem_cons.1 hc with rfl | hc
      · exact Or.inr rfl
      · exact Or.inl (hd.2 c hc)
    rw [U.pyInt_of_plain hplain, show signed (intStr (.negSucc n)) =
      (pyNat (natStr (n + 1))).map fun n : ℕ => -(n : ℤ) from rfl, pyNat_natStr]
    exact congrArg (Option.map fun n : ℕ => -(n : ℤ)) (if_pos hlen)

theorem intStr_ne_nil (n : ℤ) : intStr n ≠ [] := by
  cases n with
  | ofNat n => exact natStr_ne_nil n
  | negSucc n => exact List.cons_ne_nil _ _

end Unicode

namespace Sample

/-- The ASCII part of the tables. -/
def asciiTables : Unicode where
  upperChar c := if 'a' ≤ c ∧ c ≤ 'z' then [Char.ofNat (c.toNat - 32)] else [c]
  isSpace c := c = ' ' || (9 ≤ c.toNat && c.toNat ≤ 13) || (28 ≤ c.toNat && c.toNat ≤ 31)
  decimal _ := none
  upperChar_newline c h := by
    split_ifs at h with hc
    · have hlo : 97 ≤ c.toNat := hc.1
      have hhi : c.toNat ≤ 122 := hc.2
      have hupper : (Char.ofNat (c.toNat - 32)).toNat = c.toNat - 32 := by
        rw [Char.toNat_ofNat, if_pos (Or.inl (by omega))]
      have hnat : 10 = (Char.ofNat (c.toNat - 32)).toNat :=
        congrArg Char.toNat (List.mem_singleton.1 h)
      omega
    · exact (List.mem_singleton.1 h).symm
  isSpace_ascii c _ := by simp [or_assoc]

end Sample

/-! ## Lines -/

/-- A text splits at its first line break, -/
theorem append_newline_inj {a a' b b' : Str} (ha : '\n' ∉ a) (ha' : '\n' ∉ a')
    (h : a ++ '\n' :: b = a' ++ '\n' :: b') : a = a' ∧ b = b' := by
  induction a generalizing a' with
  | nil =>
    cases a' with
    | nil => exact ⟨rfl, (List.cons.inj h).2⟩
    | cons c a' => exact absurd ((List.cons.inj h).1 ▸ List.mem_cons_self ..) ha'
  | cons c a ih =>
    cases a' with
    | nil => exact absurd ((List.cons.inj h).1 ▸ List.mem_cons_self ..) ha
    | cons c' a' =>
      obtain ⟨rfl, htail⟩ := List.cons.inj h
      obtain ⟨rfl, rfl⟩ := ih (fun hc => ha (List.mem_cons_of_mem _ hc))
        (fun hc => ha' (List.mem_cons_of_mem _ hc)) htail
      exact ⟨rfl, rfl⟩

/-- and at its last. -/
theorem newline_append_inj {a a' b b' : Str} (hb : '\n' ∉ b) (hb' : '\n' ∉ b')
    (h : a ++ '\n' :: b = a' ++ '\n' :: b') : a = a' ∧ b = b' := by
  have hrev : b.reverse ++ '\n' :: a.reverse = b'.reverse ++ '\n' :: a'.reverse := by
    simpa using congrArg List.reverse h
  obtain ⟨hb, ha⟩ := append_newline_inj (by simpa using hb) (by simpa using hb') hrev
  exact ⟨List.reverse_injective ha, List.reverse_injective hb⟩

end GumptionChain
