import GumptionChain.Text

/-!
# Timestamps

`util.iso_2_dt` and `util.dt_2_iso` with the format `%Y-%m-%dT%H:%M:%SZ`.
Timestamps are hashed and signed as text but stored as datetimes, so what
matters is which texts `strptime` reads and which of them `strftime` writes.

* `iso2Dt` — `strptime`, with its leniency: one-digit fields, a blank before a
  one-digit day, either case of the letters and any Unicode decimal digit where
  the pattern says `\d`.
* `dt2Iso` — `strftime`, every field padded with zeros.
* `iso2Dt_dt2Iso` — what is written is read back; the converse fails for the
  lenient spellings (`Canonical` names the texts for which it holds).
* `iso2Dt_comma` — no accepted text holds a comma.
-/

namespace GumptionChain

/-! ## Datetimes -/

/-- Days of a month in the proleptic Gregorian calendar. -/
def daysInMonth (year month : ℕ) : ℕ :=
  if month = 2 then
    if year % 4 = 0 ∧ (year % 100 ≠ 0 ∨ year % 400 = 0) then 29 else 28
  else if month = 4 ∨ month = 6 ∨ month = 9 ∨ month = 11 then 30
  else 31

/-- The field ranges `datetime.datetime` enforces. -/
def ValidFields (year month day hour minute second : ℕ) : Prop :=
  (1 ≤ year ∧ year ≤ 9999) ∧ (1 ≤ month ∧ month ≤ 12) ∧
    (1 ≤ day ∧ day ≤ daysInMonth year month) ∧ hour < 24 ∧ minute < 60 ∧ second < 60

instance (y m d h mi s : ℕ) : Decidable (ValidFields y m d h mi s) := by
  unfold ValidFields
  infer_instance

/-- A `datetime` in UTC with whole seconds, the only kind the ledger stores. -/
structure DateTime where
  year : ℕ
  month : ℕ
  day : ℕ
  hour : ℕ
  minute : ℕ
  second : ℕ
  valid : ValidFields year month day hour minute second
  deriving DecidableEq

namespace DateTime

/-- The constructor `datetime(...)`: `ValueError` outside the field ranges. -/
def ofFields? (y m d h mi s : ℕ) : Option DateTime :=
  if hv : ValidFields y m d h mi s then some ⟨y, m, d, h, mi, s, hv⟩ else none

/-- Days from 0001-01-01 to the first day of the month. -/
def daysBefore (year month : ℕ) : ℕ :=
  (year - 1) * 365 + (year - 1) / 4 - (year - 1) / 100 + (year - 1) / 400 +
    ((List.range (month - 1)).map fun i => daysInMonth year (i + 1)).sum

/-- Seconds since 0001-01-01T00:00:00. -/
def toSeconds (d : DateTime) : ℕ :=
  (daysBefore d.year d.month + (d.day - 1)) * 86400 + d.hour * 3600 + d.minute * 60 + d.second

end DateTime

/-! ## Reading -/

/-- The zero of every run of decimal digits (category `Nd`), the characters
`\d` matches. -/
def ndZeros : List ℕ :=
  [0x30, 0x660, 0x6f0, 0x7c0, 0x966, 0x9e6, 0xa66, 0xae6, 0xb66, 0xbe6, 0xc66, 0xce6, 0xd66,
   0xde6, 0xe50, 0xed0, 0xf20, 0x1040, 0x1090, 0x17e0, 0x1810, 0x1946, 0x19d0, 0x1a80, 0x1a90,
   0x1b50, 0x1bb0, 0x1c40, 0x1c50, 0xa620, 0xa8d0, 0xa900, 0xa9d0, 0xa9f0, 0xaa50, 0xabf0,
   0xff10, 0x104a0, 0x10d30, 0x11066, 0x110f0, 0x11136, 0x111d0, 0x112f0, 0x11450, 0x114d0,
   0x11650, 0x116c0, 0x11730, 0x118e0, 0x11950, 0x11c50, 0x11d50, 0x11da0, 0x11f50, 0x16a60,
   0x16ac0, 0x16b50, 0x1d7ce, 0x1d7d8, 0x1d7e2, 0x1d7ec, 0x1d7f6, 0x1e140, 0x1e2f0, 0x1e4f0,
   0x1e950, 0x1fbf0]

/-- `\d`: any decimal digit, with the value `int` gives it. -/
def digit? (c : Char) : Option ℕ :=
  ndZeros.findSome? fun z => if z ≤ c.toNat ∧ c.toNat < z + 10 then some (c.toNat - z) else none

/-- `[lo-hi]`: an ASCII digit in the given range. -/
def ascii? (lo hi : ℕ) (c : Char) : Option ℕ :=
  if 48 + lo ≤ c.toNat ∧ c.toNat ≤ 48 + hi then some (c.toNat - 48) else none

/-- A tens digit followed by a units digit. -/
def pair? (tens units : Option ℕ) : Option ℕ :=
  match tens, units with
  | some t, some u => some (10 * t + u)
  | _, _ => none

/-- One numeric directive of `strptime`: what it takes as two characters and
what it takes as one. -/
structure Directive where
  two : Char → Char → Option ℕ
  one : Char → Option ℕ

/-- `%m`: `1[0-2]|0[1-9]|[1-9]`. -/
def directiveMonth : Directive where
  two a b := pair? (ascii? 1 1 a) (ascii? 0 2 b) <|> pair? (ascii? 0 0 a) (ascii? 1 9 b)
  one := ascii? 1 9

/-- `%d`: `3[0-1]|[1-2]\d|0[1-9]|[1-9]| [1-9]`. -/
def directiveDay : Directive where
  two a b :=
    pair? (ascii? 3 3 a) (ascii? 0 1 b) <|> pair? (ascii? 1 2 a) (digit? b) <|>
      pair? (ascii? 0 0 a) (ascii? 1 9 b) <|> (if a = ' ' then ascii? 1 9 b else none)
  one := ascii? 1 9

/-- `%H`: `2[0-3]|[0-1]\d|\d`. -/
def directiveHour : Directive where
  two a b := pair? (ascii? 2 2 a) (ascii? 0 3 b) <|> pair? (ascii? 0 1 a) (digit? b)
  one := digit?

/-- `%M`: `[0-5]\d|\d`. -/
def directiveMinute : Directive where
  two a b := pair? (ascii? 0 5 a) (digit? b)
  one := digit?

/-- `%S`: `6[0-1]|[0-5]\d|\d`. -/
def directiveSecond : Directive where
  two a b := pair? (ascii? 6 6 a) (ascii? 0 1 b) <|> pair? (ascii? 0 5 a) (digit? b)
  one := digit?

/-- Read one directive and the literal after it, which `strptime` matches in
either case.  No directive takes a literal's character, so the two-character
reading never has to be given up for the one-character one later on. -/
def readField (p : Directive) (literal : List Char) : Str → Option (ℕ × Str)
  | a :: b :: c :: rest =>
    (if c ∈ literal then (p.two a b).map (·, rest) else none) <|>
      (if b ∈ literal then (p.one a).map (·, c :: rest) else none)
  | [a, b] => if b ∈ literal then (p.one a).map (·, []) else none
  | _ => none

/-- `%Y-`: four decimal digits and a hyphen. -/
def readYear : Str → Option (ℕ × Str)
  | a :: b :: c :: d :: '-' :: rest =>
    match digit? a, digit? b, digit? c, digit? d with
    | some a, some b, some c, some d => some (1000 * a + 100 * b + 10 * c + d, rest)
    | _, _, _, _ => none
  | _ => none

/-- `util.iso_2_dt(s)`: `strptime(s, '%Y-%m-%dT%H:%M:%SZ')`. -/
def iso2Dt (s : Str) : Option DateTime := do
  let (y, s) ← readYear s
  let (m, s) ← readField directiveMonth ['-'] s
  let (d, s) ← readField directiveDay ['T', 't'] s
  let (h, s) ← readField directiveHour [':'] s
  let (mi, s) ← readField directiveMinute [':'] s
  let (sec, s) ← readField directiveSecond ['Z', 'z'] s
  -- "unconverted data remains"
  if s = [] then DateTime.ofFields? y m d h mi sec else none

/-! ## Writing -/

/-- A number below 100 as two digits. -/
def pad2 (n : ℕ) : Str := [Nat.digitChar (n / 10), Nat.digitChar (n % 10)]

/-- A number below 10000 as four digits. -/
def pad4 (n : ℕ) : Str :=
  [Nat.digitChar (n / 1000), Nat.digitChar (n / 100 % 10), Nat.digitChar (n / 10 % 10),
    Nat.digitChar (n % 10)]

/-- `util.dt_2_iso(dt)`: `strftime('%Y-%m-%dT%H:%M:%SZ')`. -/
def dt2Iso (d : DateTime) : Str :=
  pad4 d.year ++ '-' :: pad2 d.month ++ '-' :: pad2 d.day ++ 'T' :: pad2 d.hour ++
    ':' :: pad2 d.minute ++ ':' :: pad2 d.second ++ ['Z']

/-- The texts that survive being stored: reading and writing gives them back. -/
def Canonical (s : Str) : Prop := (iso2Dt s).map dt2Iso = some s

instance (s : Str) : Decidable (Canonical s) := by unfold Canonical; infer_instance

/-! ## What is written is read back -/

theorem digit?_digitChar {n : ℕ} (h : n < 10) : digit? (Nat.digitChar n) = some n := by
  interval_cases n <;> decide

theorem readYear_pad4 {y : ℕ} (h : y ≤ 9999) (rest : Str) :
    readYear (pad4 y ++ '-' :: rest) = some (y, rest) := by
  simp only [pad4, List.cons_append, List.nil_append, readYear,
    digit?_digitChar (show y / 1000 < 10 by omega),
    digit?_digitChar (show y / 100 % 10 < 10 by omega),
    digit?_digitChar (show y / 10 % 10 < 10 by omega),
    digit?_digitChar (show y % 10 < 10 by omega)]
  congr 2
  omega

/-- A directive that reads the two digits of `n` reads `n` before its literal. -/
theorem readField_pad2 {p : Directive} {literal : List Char} {n : ℕ} {c : Char} (hc : c ∈ literal)
    (h : p.two (Nat.digitChar (n / 10)) (Nat.digitChar (n % 10)) = some n) (rest : Str) :
    readField p literal (pad2 n ++ c :: rest) = some (n, rest) := by
  simp [pad2, readField, hc, h]

theorem directiveMonth_pad2 {n : ℕ} (h1 : 1 ≤ n) (h2 : n ≤ 12) :
    directiveMonth.two (Nat.digitChar (n / 10)) (Nat.digitChar (n % 10)) = some n := by
  interval_cases n <;> decide

theorem directiveDay_pad2 {n : ℕ} (h1 : 1 ≤ n) (h2 : n ≤ 31) :
    directiveDay.two (Nat.digitChar (n / 10)) (Nat.digitChar (n % 10)) = some n := by
  interval_cases n <;> decide

theorem directiveHour_pad2 {n : ℕ} (h : n < 24) :
    directiveHour.two (Nat.digitChar (n / 10)) (Nat.digitChar (n % 10)) = some n := by
  interval_cases n <;> decide

theorem directiveMinute_pad2 {n : ℕ} (h : n < 60) :
    directiveMinute.two (Nat.digitChar (n / 10)) (Nat.digitChar (n % 10)) = some n := by
  interval_cases n <;> decide

theorem directiveSecond_pad2 {n : ℕ} (h : n < 60) :
    directiveSecond.two (Nat.digitChar (n / 10)) (Nat.digitChar (n % 10)) = some n := by
  interval_cases n <;> decide

theorem daysInMonth_le (y m : ℕ) : daysInMonth y m ≤ 31 := by
  unfold daysInMonth
  split_ifs <;> omega

/-- What `dt_2_iso` writes, `iso_2_dt` reads back. -/
theorem iso2Dt_dt2Iso (d : DateTime) : iso2Dt (dt2Iso d) = some d := by
  obtain ⟨y, m, dd, h, mi, s, hv⟩ := d
  obtain ⟨⟨-, hy⟩, ⟨hm1, hm2⟩, ⟨hd1, hd2⟩, hh, hmi, hs⟩ := id hv
  have hd31 : dd ≤ 31 := le_trans hd2 (daysInMonth_le y m)
  simp only [dt2Iso, List.append_assoc, List.cons_append, iso2Dt, Option.bind_eq_bind,
    readYear_pad4 hy, Option.bind_some,
    readField_pad2 (List.mem_cons_self ..) (directiveMonth_pad2 hm1 hm2),
    readField_pad2 (List.mem_cons_self ..) (directiveDay_pad2 hd1 hd31),
    readField_pad2 (List.mem_cons_self ..) (directiveHour_pad2 hh),
    readField_pad2 (List.mem_cons_self ..) (directiveMinute_pad2 hmi),
    readField_pad2 (List.mem_cons_self ..) (directiveSecond_pad2 hs), if_true]
  exact dif_pos hv

theorem canonical_dt2Iso (d : DateTime) : Canonical (dt2Iso d) := by
  simp [Canonical, iso2Dt_dt2Iso]

/-- A text is canonical exactly when it is what its datetime is written as. -/
theorem canonical_iff {s : Str} {d : DateTime} (h : iso2Dt s = some d) :
    Canonical s ↔ dt2Iso d = s := by simp [Canonical, h]

/-! ## No accepted text holds a comma -/

theorem digit?_comma : digit? ',' = none := by decide

theorem ascii?_comma {lo hi : ℕ} (c : Char) (h : ascii? lo hi c ≠ none) : c ≠ ',' := by
  rintro rfl
  refine h (if_neg ?_)
  simp only [show (',' : Char).toNat = 44 from rfl]
  omega

theorem pair?_ne_none {a b : Option ℕ} (h : pair? a b ≠ none) : a ≠ none ∧ b ≠ none := by
  cases a <;> cases b <;> simp_all [pair?]

/-- A directive never takes a comma. -/
structure Directive.CommaFree (p : Directive) : Prop where
  two : ∀ a b, p.two a b ≠ none → a ≠ ',' ∧ b ≠ ','
  one : ∀ a, p.one a ≠ none → a ≠ ','

theorem digit?_ne_comma {c : Char} (h : digit? c ≠ none) : c ≠ ',' := by
  rintro rfl
  exact h digit?_comma

theorem orElse_ne_none {a b : Option ℕ} (h : (a <|> b) ≠ none) : a ≠ none ∨ b ≠ none := by
  cases a with
  | none => exact Or.inr (by simpa using h)
  | some x => exact Or.inl (by simp)

theorem directiveMonth_commaFree : directiveMonth.CommaFree where
  two a b h := by
    rcases orElse_ne_none h with h | h <;> obtain ⟨h1, h2⟩ := pair?_ne_none h <;>
      exact ⟨ascii?_comma a h1, ascii?_comma b h2⟩
  one a h := ascii?_comma a h

theorem directiveDay_commaFree : directiveDay.CommaFree where
  two a b h := by
    rcases orElse_ne_none h with h | h
    · obtain ⟨h1, h2⟩ := pair?_ne_none h
      exact ⟨ascii?_comma a h1, ascii?_comma b h2⟩
    rcases orElse_ne_none h with h | h
    · obtain ⟨h1, h2⟩ := pair?_ne_none h
      exact ⟨ascii?_comma a h1, digit?_ne_comma h2⟩
    rcases orElse_ne_none h with h | h
    · obtain ⟨h1, h2⟩ := pair?_ne_none h
      exact ⟨ascii?_comma a h1, ascii?_comma b h2⟩
    · by_cases ha : a = ' '
      · subst ha
        exact ⟨by decide, ascii?_comma b (by simpa using h)⟩
      · exact absurd (if_neg ha) h
  one a h := ascii?_comma a h

theorem directiveHour_commaFree : directiveHour.CommaFree where
  two a b h := by
    rcases orElse_ne_none h with h | h <;> obtain ⟨h1, h2⟩ := pair?_ne_none h
    · exact ⟨ascii?_comma a h1, ascii?_comma b h2⟩
    · exact ⟨ascii?_comma a h1, digit?_ne_comma h2⟩
  one a h := digit?_ne_comma h

theorem directiveMinute_commaFree : directiveMinute.CommaFree where
  two a b h := by
    obtain ⟨h1, h2⟩ := pair?_ne_none h
    exact ⟨ascii?_comma a h1, digit?_ne_comma h2⟩
  one a h := digit?_ne_comma h

theorem directiveSecond_commaFree : directiveSecond.CommaFree where
  two a b h := by
    rcases orElse_ne_none h with h | h <;> obtain ⟨h1, h2⟩ := pair?_ne_none h
    · exact ⟨ascii?_comma a h1, ascii?_comma b h2⟩
    · exact ⟨ascii?_comma a h1, digit?_ne_comma h2⟩
  one a h := digit?_ne_comma h

/-- If a directive and its literal are read off a text, any comma in the text
is in what remains. -/
theorem readField_comma {p : Directive} (hp : p.CommaFree) {literal : List Char}
    (hl : ',' ∉ literal) {s rest : Str} {n : ℕ} (h : readField p literal s = some (n, rest))
    (hs : ',' ∈ s) : ',' ∈ rest := by
  have hne : ∀ {c}, c ∈ literal → c ≠ ',' := fun hc heq => hl (heq ▸ hc)
  match s, h with
  | a :: b :: c :: r, h =>
    unfold readField at h
    rcases (Option.orElse_eq_some _ _ _).1 h with h | ⟨-, h⟩
    · split_ifs at h with hc
      obtain ⟨v, hv, he⟩ := Option.map_eq_some_iff.1 h
      obtain ⟨ha, hb⟩ := hp.two a b (by simp [hv])
      simp only [Prod.mk.injEq] at he
      have hc' := hne hc
      simpa [ha.symm, hb.symm, hc'.symm, he.2] using hs
    · split_ifs at h with hb
      obtain ⟨v, hv, he⟩ := Option.map_eq_some_iff.1 h
      have ha := hp.one a (by simp [hv])
      have hb' := hne hb
      simp only [Prod.mk.injEq] at he
      rw [← he.2]
      simpa [ha.symm, hb'.symm] using hs
  | [a, b], h =>
    simp only [readField] at h
    split_ifs at h with hb
    obtain ⟨v, hv, he⟩ := Option.map_eq_some_iff.1 h
    have ha := hp.one a (by simp [hv])
    have hb' := hne hb
    simp [ha.symm, hb'.symm] at hs

theorem readYear_comma {s rest : Str} {n : ℕ} (h : readYear s = some (n, rest)) (hs : ',' ∈ s) :
    ',' ∈ rest := by
  unfold readYear at h
  split at h
  · rename_i a b c d r
    split at h
    · rename_i va vb vc vd ha hb hc hd
      have hna := digit?_ne_comma (c := a) (by simp [ha])
      have hnb := digit?_ne_comma (c := b) (by simp [hb])
      have hnc := digit?_ne_comma (c := c) (by simp [hc])
      have hnd := digit?_ne_comma (c := d) (by simp [hd])
      simp only [Option.some.injEq, Prod.mk.injEq] at h
      rw [← h.2]
      simpa [hna.symm, hnb.symm, hnc.symm, hnd.symm] using hs
    · exact absurd h (by simp)
  · exact absurd h (by simp)

/-- No text `iso_2_dt` accepts holds a comma. -/
theorem iso2Dt_comma {s : Str} {d : DateTime} (h : iso2Dt s = some d) : ',' ∉ s := by
  intro hs
  simp only [iso2Dt, Option.bind_eq_bind, Option.bind_eq_some_iff, Prod.exists] at h
  obtain ⟨y, s1, h1, m, s2, h2, dd, s3, h3, hh, s4, h4, mi, s5, h5, sec, s6, h6, h7⟩ := h
  have hs1 := readYear_comma h1 hs
  have hs2 := readField_comma directiveMonth_commaFree (by decide) h2 hs1
  have hs3 := readField_comma directiveDay_commaFree (by decide) h3 hs2
  have hs4 := readField_comma directiveHour_commaFree (by decide) h4 hs3
  have hs5 := readField_comma directiveMinute_commaFree (by decide) h5 hs4
  have hs6 := readField_comma directiveSecond_commaFree (by decide) h6 hs5
  split_ifs at h7 with hnil
  rw [hnil] at hs6
  exact absurd hs6 List.not_mem_nil

/-- Minutes past midnight on the first day of 2024, when the samples take place. -/
def Sample.minutesPast (minutes : ℕ) : DateTime where
  year := 2024
  month := 1
  day := 1
  hour := 0
  minute := minutes % 60
  second := 0
  valid := ⟨by decide, by decide, by decide, by decide, Nat.mod_lt _ (by decide), by decide⟩

end GumptionChain
