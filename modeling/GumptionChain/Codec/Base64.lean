import GumptionChain.Text

/-!
# Base64 and UTF-8

`binascii.a2b_base64` and `b2a_base64` as `standard_b64encode`,
`urlsafe_b64encode` and their decoders use them, and UTF-8 text.

The decoder is lenient: it drops characters outside the alphabet, stops at a
completed padding and ignores trailing bits.  The ledger never trusts it alone:
every check compares the re-encoding with the input, so what an accepted text
looks like is read off the encoder (`mem_b64encodeWith`,
`length_b64encodeWith`).  What was encoded is decoded (`a2bBase64_b64encodeWith`), text
of letters without padding is accepted (`b64encode_b64decode`), and text is read back from
its UTF-8 (`utf8Decode_utf8Encode`).
-/

namespace GumptionChain

/-- A Python `bytes`. -/
abbrev Bytes := List UInt8

/-- `n.to_bytes(count, 'big')`. -/
def toBytes (count n : ℕ) : Bytes :=
  (List.range count).map fun k => UInt8.ofNat (n / 256 ^ (count - 1 - k) % 256)

/-! ## Encoding -/

/-- The standard alphabet. -/
def b64Char (n : ℕ) : Char :=
  if n < 26 then Char.ofNat (65 + n)
  else if n < 52 then Char.ofNat (71 + n)
  else if n < 62 then Char.ofNat (n - 4)
  else if n = 62 then '+' else '/'

/-- The URL-safe alphabet. -/
def b64UrlChar (n : ℕ) : Char :=
  if n < 62 then b64Char n else if n = 62 then '-' else '_'

/-- `b2a_base64` over a given alphabet, with padding. -/
def b64encodeWith (ch : ℕ → Char) : Bytes → Str
  | [] => []
  | [a] => [ch (a.toNat / 4), ch (a.toNat % 4 * 16), '=', '=']
  | [a, b] =>
    [ch (a.toNat / 4), ch (a.toNat % 4 * 16 + b.toNat / 16), ch (b.toNat % 16 * 4), '=']
  | a :: b :: c :: rest =>
    ch (a.toNat / 4) :: ch (a.toNat % 4 * 16 + b.toNat / 16) ::
      ch (b.toNat % 16 * 4 + c.toNat / 64) :: ch (c.toNat % 64) :: b64encodeWith ch rest

/-- `signing_key.b64encode`. -/
def b64encode (b : Bytes) : Str := b64encodeWith b64Char b

/-- `base64.urlsafe_b64encode`. -/
def urlsafeB64encode (b : Bytes) : Str := b64encodeWith b64UrlChar b

/-! ## Decoding -/

/-- The value of a character of the standard alphabet. -/
def b64Val? (c : Char) : Option ℕ :=
  if 'A' ≤ c ∧ c ≤ 'Z' then some (c.toNat - 65)
  else if 'a' ≤ c ∧ c ≤ 'z' then some (c.toNat - 71)
  else if '0' ≤ c ∧ c ≤ '9' then some (c.toNat + 4)
  else if c = '+' then some 62
  else if c = '/' then some 63
  else none

/-- `urlsafe_b64decode` translates `-` and `_` and leaves `+` and `/` alone. -/
def b64UrlVal? (c : Char) : Option ℕ :=
  if c = '-' then some 62 else if c = '_' then some 63 else b64Val? c

/-- The loop of `a2b_base64` outside strict mode: the position in the group of
four, the bits left over and the padding seen so far. -/
def a2bBase64 (val : Char → Option ℕ) : ℕ → ℕ → ℕ → Str → Option Bytes
  -- "Incorrect padding"
  | quad, _, _, [] => if quad = 0 then some [] else none
  | quad, left, pads, c :: cs =>
    if c = '=' then
      -- a completed padding ends the input, whatever follows
      if 2 ≤ quad ∧ 4 ≤ quad + (pads + 1) then some []
      else a2bBase64 val quad left (if 2 ≤ quad then pads + 1 else pads) cs
    else
      match val c with
      | none => a2bBase64 val quad left pads cs
      | some v =>
        match quad with
        | 0 => a2bBase64 val 1 v 0 cs
        | 1 => (a2bBase64 val 2 (v % 16) 0 cs).map (UInt8.ofNat (left * 4 + v / 16) :: ·)
        | 2 => (a2bBase64 val 3 (v % 4) 0 cs).map (UInt8.ofNat (left * 16 + v / 4) :: ·)
        | _ => (a2bBase64 val 0 0 0 cs).map (UInt8.ofNat (left * 64 + v) :: ·)

/-- `signing_key.b64decode`. -/
def b64decode (s : Str) : Option Bytes := a2bBase64 b64Val? 0 0 0 s

/-- `base64.urlsafe_b64decode`. -/
def urlsafeB64decode (s : Str) : Option Bytes := a2bBase64 b64UrlVal? 0 0 0 s

/-- `schema.validate_base64`. -/
def validateBase64 (s : Str) : Bool := decide ((b64decode s).map b64encode = some s)

/-! ## What an encoding looks like -/

/-- Every character of an encoding is a letter of the alphabet or padding. -/
theorem mem_b64encodeWith {ch : ℕ → Char} {c : Char} :
    ∀ {b : Bytes}, c ∈ b64encodeWith ch b → c = '=' ∨ ∃ n, c = ch n
  | [], h => absurd h List.not_mem_nil
  | [a], h => by
    simp only [b64encodeWith, List.mem_cons, List.not_mem_nil, or_false] at h
    rcases h with h | h | h | h
    exacts [Or.inr ⟨_, h⟩, Or.inr ⟨_, h⟩, Or.inl h, Or.inl h]
  | [a, b], h => by
    simp only [b64encodeWith, List.mem_cons, List.not_mem_nil, or_false] at h
    rcases h with h | h | h | h
    exacts [Or.inr ⟨_, h⟩, Or.inr ⟨_, h⟩, Or.inr ⟨_, h⟩, Or.inl h]
  | a :: b :: d :: rest, h => by
    simp only [b64encodeWith, List.mem_cons] at h
    rcases h with h | h | h | h | h
    exacts [Or.inr ⟨_, h⟩, Or.inr ⟨_, h⟩, Or.inr ⟨_, h⟩, Or.inr ⟨_, h⟩, mem_b64encodeWith h]

/-- An encoding is its letters, padded to whole groups. -/
theorem b64encodeWith_eq_append (ch : ℕ → Char) :
    ∀ b : Bytes, ∃ body p, b64encodeWith ch b = body ++ List.replicate p '=' ∧ p < 4 ∧
      (body.length + p) % 4 = 0 ∧ ∀ c ∈ body, ∃ n, n < 64 ∧ c = ch n
  | [] => ⟨[], 0, rfl, by omega, rfl, by simp⟩
  | [a] => by
    have ha := a.toNat_lt
    refine ⟨[ch (a.toNat / 4), ch (a.toNat % 4 * 16)], 2, rfl, by omega, by simp, ?_⟩
    simp only [List.forall_mem_cons]
    exact ⟨⟨_, by omega, rfl⟩, ⟨_, by omega, rfl⟩, by simp⟩
  | [a, b] => by
    have ha := a.toNat_lt
    have hb := b.toNat_lt
    refine ⟨[ch (a.toNat / 4), ch (a.toNat % 4 * 16 + b.toNat / 16), ch (b.toNat % 16 * 4)], 1, rfl,
      by omega, by simp, ?_⟩
    simp only [List.forall_mem_cons]
    exact ⟨⟨_, by omega, rfl⟩, ⟨_, by omega, rfl⟩, ⟨_, by omega, rfl⟩, by simp⟩
  | a :: b :: c :: rest => by
    have ha := a.toNat_lt
    have hb := b.toNat_lt
    have hc := c.toNat_lt
    obtain ⟨body, p, heq, hp, hmod, hbody⟩ := b64encodeWith_eq_append ch rest
    refine ⟨ch (a.toNat / 4) :: ch (a.toNat % 4 * 16 + b.toNat / 16) ::
      ch (b.toNat % 16 * 4 + c.toNat / 64) :: ch (c.toNat % 64) :: body, p, ?_, hp, ?_, ?_⟩
    · rw [b64encodeWith, heq]
      rfl
    · simp only [List.length_cons]
      omega
    · simp only [List.forall_mem_cons]
      exact ⟨⟨_, by omega, rfl⟩, ⟨_, by omega, rfl⟩, ⟨_, by omega, rfl⟩, ⟨_, by omega, rfl⟩, hbody⟩

/-- Four characters for every three bytes begun. -/
theorem length_b64encodeWith (ch : ℕ → Char) :
    ∀ b : Bytes, (b64encodeWith ch b).length = 4 * ((b.length + 2) / 3)
  | [] => rfl
  | [_] => by simp [b64encodeWith]
  | [_, _] => by simp [b64encodeWith]
  | a :: b :: c :: rest => by
    have ih := length_b64encodeWith ch rest
    simp only [b64encodeWith, List.length_cons, ih]
    omega

theorem b64Char_ne_comma (n : ℕ) : b64Char n ≠ ',' := by
  unfold b64Char
  split_ifs with h1 h2 h3 h4
  · interval_cases n <;> decide
  · interval_cases n <;> decide
  · interval_cases n <;> decide
  · decide
  · decide

theorem b64UrlChar_ne_comma (n : ℕ) : b64UrlChar n ≠ ',' := by
  unfold b64UrlChar
  split_ifs
  · exact b64Char_ne_comma n
  · decide
  · decide

theorem b64encode_comma (b : Bytes) : ',' ∉ b64encode b := by
  intro h
  rcases mem_b64encodeWith h with h | ⟨n, h⟩
  · exact absurd h (by decide)
  · exact b64Char_ne_comma n h.symm

theorem urlsafeB64encode_comma (b : Bytes) : ',' ∉ urlsafeB64encode b := by
  intro h
  rcases mem_b64encodeWith h with h | ⟨n, h⟩
  · exact absurd h (by decide)
  · exact b64UrlChar_ne_comma n h.symm

theorem validateBase64_comma {s : Str} (h : validateBase64 s = true) : ',' ∉ s := by
  obtain ⟨b, -, hb⟩ := Option.map_eq_some_iff.1 (of_decide_eq_true h)
  exact hb ▸ b64encode_comma b

/-! ## Decoding undoes encoding -/

/-- A letter of the alphabet is the letter of its value. -/
theorem b64Char_of_val {c : Char} {v : ℕ} (h : b64Val? c = some v) :
    v < 64 ∧ b64Char v = c ∧ c ≠ '=' := by
  have hof : ∀ n, n = c.toNat → Char.ofNat n = c := fun n hn => hn ▸ Char.ofNat_toNat c
  have hle : ∀ a b : Char, a ≤ b → a.toNat ≤ b.toNat := fun _ _ hab => hab
  have hpad : c = '=' → c.toNat = 61 := fun hc => hc ▸ rfl
  unfold b64Val? at h
  split_ifs at h with h1 h2 h3 h4 h5
  · have hlo := hle _ _ h1.1
    have hhi := hle _ _ h1.2
    rw [show ('A').toNat = 65 from rfl] at hlo
    rw [show ('Z').toNat = 90 from rfl] at hhi
    obtain rfl := Option.some.inj h
    refine ⟨by omega, ?_, fun hc => absurd (hpad hc) (by omega)⟩
    rw [b64Char, if_pos (by omega)]
    exact hof _ (by omega)
  · have hlo := hle _ _ h2.1
    have hhi := hle _ _ h2.2
    rw [show ('a').toNat = 97 from rfl] at hlo
    rw [show ('z').toNat = 122 from rfl] at hhi
    obtain rfl := Option.some.inj h
    refine ⟨by omega, ?_, fun hc => absurd (hpad hc) (by omega)⟩
    rw [b64Char, if_neg (by omega), if_pos (by omega)]
    exact hof _ (by omega)
  · have hlo := hle _ _ h3.1
    have hhi := hle _ _ h3.2
    rw [show ('0').toNat = 48 from rfl] at hlo
    rw [show ('9').toNat = 57 from rfl] at hhi
    obtain rfl := Option.some.inj h
    refine ⟨by omega, ?_, fun hc => absurd (hpad hc) (by omega)⟩
    rw [b64Char, if_neg (by omega), if_neg (by omega), if_pos (by omega)]
    exact hof _ (by omega)
  · obtain rfl := Option.some.inj h
    exact ⟨by omega, h4 ▸ rfl, by rw [h4]; decide⟩
  · obtain rfl := Option.some.inj h
    exact ⟨by omega, h5 ▸ rfl, by rw [h5]; decide⟩

/-- Whole groups of letters decode to what encodes to them. -/
theorem b64encode_b64decode : ∀ {s : Str}, s.length % 4 = 0 → (∀ c ∈ s, (b64Val? c).isSome) →
    (b64decode s).map b64encode = some s
  | [], _, _ => rfl
  | [_], h, _ | [_, _], h, _ | [_, _, _], h, _ => absurd h (by simp)
  | c1 :: c2 :: c3 :: c4 :: rest, h, hs => by
    simp only [List.forall_mem_cons, Option.isSome_iff_exists] at hs
    obtain ⟨⟨v1, h1⟩, ⟨v2, h2⟩, ⟨v3, h3⟩, ⟨v4, h4⟩, hrest⟩ := hs
    obtain ⟨l1, e1, n1⟩ := b64Char_of_val h1
    obtain ⟨l2, e2, n2⟩ := b64Char_of_val h2
    obtain ⟨l3, e3, n3⟩ := b64Char_of_val h3
    obtain ⟨l4, e4, n4⟩ := b64Char_of_val h4
    have ih := b64encode_b64decode (s := rest) (by simp only [List.length_cons] at h; omega)
      fun c hc => Option.isSome_iff_exists.2 (hrest c hc)
    obtain ⟨b, hb, hbe⟩ := Option.map_eq_some_iff.1 ih
    have hdecode : b64decode (c1 :: c2 :: c3 :: c4 :: rest) =
        some (UInt8.ofNat (v1 * 4 + v2 / 16) :: UInt8.ofNat (v2 % 16 * 16 + v3 / 4) ::
          UInt8.ofNat (v3 % 4 * 64 + v4) :: b) := by
      rw [b64decode] at hb
      simp only [b64decode, a2bBase64, if_neg n1, if_neg n2, if_neg n3, if_neg n4, h1, h2, h3, h4,
        hb, Option.map_some]
    have hbyte : ∀ n, n < 256 → (UInt8.ofNat n).toNat = n := fun n hn => by
      rw [UInt8.toNat_ofNat', Nat.mod_eq_of_lt hn]
    rw [hdecode, Option.map_some, Option.some.injEq, b64encode, b64encodeWith, hbyte _ (by omega),
      hbyte _ (by omega), hbyte _ (by omega),
      show (v1 * 4 + v2 / 16) / 4 = v1 by omega,
      show (v1 * 4 + v2 / 16) % 4 * 16 + (v2 % 16 * 16 + v3 / 4) / 16 = v2 by omega,
      show (v2 % 16 * 16 + v3 / 4) % 16 * 4 + (v3 % 4 * 64 + v4) / 64 = v3 by omega,
      show (v3 % 4 * 64 + v4) % 64 = v4 by omega, e1, e2, e3, e4,
      show b64encodeWith b64Char b = rest from hbe]

theorem b64Val_b64Char : ∀ n : Fin 64, b64Val? (b64Char n) = some n.val ∧ b64Char n ≠ '=' := by
  decide

/-- A letter is read as its number. -/
theorem b64Val_letter {n : ℕ} (hn : n < 64) : b64Val? (b64Char n) = some n ∧ b64Char n ≠ '=' :=
  b64Val_b64Char ⟨n, hn⟩

theorem b64UrlVal_b64UrlChar : ∀ n : Fin 64,
    b64UrlVal? (b64UrlChar n) = some n.val ∧ b64UrlChar n ≠ '=' := by
  decide

theorem byte_of_eq {a : UInt8} {n : ℕ} (h : n = a.toNat) : UInt8.ofNat n = a := by
  rw [h, UInt8.ofNat_toNat]

/-- What is encoded is decoded, over an alphabet whose letters are read as their numbers. -/
theorem a2bBase64_b64encodeWith {val : Char → Option ℕ} {ch : ℕ → Char}
    (letter : ∀ n, n < 64 → val (ch n) = some n ∧ ch n ≠ '=') :
    ∀ b : Bytes, a2bBase64 val 0 0 0 (b64encodeWith ch b) = some b
  | [] => rfl
  | [a] => by
    have ha := a.toNat_lt
    obtain ⟨v1, n1⟩ := letter (a.toNat / 4) (by omega)
    obtain ⟨v2, n2⟩ := letter (a.toNat % 4 * 16) (by omega)
    simp only [b64encodeWith, a2bBase64, if_neg n1, if_neg n2, v1, v2]
    rw [byte_of_eq (a := a) (by omega)]
    rfl
  | [a, b] => by
    have ha := a.toNat_lt
    have hb := b.toNat_lt
    obtain ⟨v1, n1⟩ := letter (a.toNat / 4) (by omega)
    obtain ⟨v2, n2⟩ := letter (a.toNat % 4 * 16 + b.toNat / 16) (by omega)
    obtain ⟨v3, n3⟩ := letter (b.toNat % 16 * 4) (by omega)
    simp only [b64encodeWith, a2bBase64, if_neg n1, if_neg n2, if_neg n3, v1, v2, v3]
    simp only [if_true, if_pos (by decide : 2 ≤ 3 ∧ 4 ≤ 3 + (0 + 1)), Option.map_some]
    rw [byte_of_eq (a := a) (by omega), byte_of_eq (a := b) (by omega)]
  | a :: b :: c :: rest => by
    have ha := a.toNat_lt
    have hb := b.toNat_lt
    have hc := c.toNat_lt
    have ih := a2bBase64_b64encodeWith letter rest
    obtain ⟨v1, n1⟩ := letter (a.toNat / 4) (by omega)
    obtain ⟨v2, n2⟩ := letter (a.toNat % 4 * 16 + b.toNat / 16) (by omega)
    obtain ⟨v3, n3⟩ := letter (b.toNat % 16 * 4 + c.toNat / 64) (by omega)
    obtain ⟨v4, n4⟩ := letter (c.toNat % 64) (by omega)
    simp only [b64encodeWith, a2bBase64, if_neg n1, if_neg n2, if_neg n3, if_neg n4, v1, v2, v3,
      v4, ih, Option.map_some]
    rw [byte_of_eq (a := a) (by omega), byte_of_eq (a := b) (by omega),
      byte_of_eq (a := c) (by omega)]

/-- What is encoded is decoded. -/
theorem b64decode_b64encode (b : Bytes) : b64decode (b64encode b) = some b :=
  a2bBase64_b64encodeWith (fun _ hn => b64Val_letter hn) b

theorem validateBase64_b64encode (b : Bytes) : validateBase64 (b64encode b) = true :=
  decide_eq_true (by rw [b64decode_b64encode, Option.map_some])

/-! ## UTF-8 -/

/-- `str.encode()`. -/
def utf8Encode (s : Str) : Bytes := s.flatMap String.utf8EncodeChar

/-- A continuation byte, with its six bits. -/
def utf8Cont? (b : UInt8) : Option ℕ :=
  if 0x80 ≤ b.toNat ∧ b.toNat < 0xC0 then some (b.toNat - 0x80) else none

/-- A code point in the given range, surrogates excluded. -/
def codePoint? (lo hi n : ℕ) : Option Char :=
  if lo ≤ n ∧ n < hi ∧ n.isValidChar then some (Char.ofNat n) else none

/-- `bytes.decode()`: strict UTF-8, without overlong forms. -/
def utf8Decode : Bytes → Option Str
  | [] => some []
  | a :: rest =>
    if a.toNat < 0x80 then (utf8Decode rest).map (Char.ofNat a.toNat :: ·)
    else if 0xC0 ≤ a.toNat ∧ a.toNat < 0xE0 then
      match rest with
      | b :: rest => do
        let b ← utf8Cont? b
        let c ← codePoint? 0x80 0x800 ((a.toNat - 0xC0) * 64 + b)
        (utf8Decode rest).map (c :: ·)
      | _ => none
    else if 0xE0 ≤ a.toNat ∧ a.toNat < 0xF0 then
      match rest with
      | b :: c :: rest => do
        let b ← utf8Cont? b
        let c ← utf8Cont? c
        let c ← codePoint? 0x800 0x10000 ((a.toNat - 0xE0) * 4096 + b * 64 + c)
        (utf8Decode rest).map (c :: ·)
      | _ => none
    else if 0xF0 ≤ a.toNat then
      match rest with
      | b :: c :: d :: rest => do
        let b ← utf8Cont? b
        let c ← utf8Cont? c
        let d ← utf8Cont? d
        let c ← codePoint? 0x10000 0x110000
          ((a.toNat - 0xF0) * 262144 + b * 4096 + c * 64 + d)
        (utf8Decode rest).map (c :: ·)
      | _ => none
    else none

theorem length_utf8EncodeChar (c : Char) :
    1 ≤ (String.utf8EncodeChar c).length ∧ (String.utf8EncodeChar c).length ≤ 4 := by
  rw [String.length_utf8EncodeChar]
  exact ⟨c.utf8Size_pos, c.utf8Size_le_four⟩

/-- A text takes at least one and at most four bytes a character. -/
theorem length_utf8Encode (s : Str) :
    s.length ≤ (utf8Encode s).length ∧ (utf8Encode s).length ≤ 4 * s.length := by
  induction s with
  | nil => exact ⟨le_rfl, le_rfl⟩
  | cons c s ih =>
    obtain ⟨h1, h2⟩ := length_utf8EncodeChar c
    simp only [utf8Encode, List.flatMap_cons, List.length_append, List.length_cons] at ih ⊢
    omega

theorem toNat_ofNat_byte {n : ℕ} (h : n < 256) : (UInt8.ofNat n).toNat = n := by
  rw [UInt8.toNat_ofNat', Nat.mod_eq_of_lt h]

theorem utf8Cont_ofNat {n : ℕ} (h : n < 64) : utf8Cont? (UInt8.ofNat (n + 128)) = some n := by
  rw [utf8Cont?, toNat_ofNat_byte (by omega), if_pos (by omega)]
  simp

theorem codePoint_toNat {c : Char} {lo hi n : ℕ} (hn : n = c.toNat) (hlo : lo ≤ c.toNat)
    (hhi : c.toNat < hi) : codePoint? lo hi n = some c := by
  subst hn
  rw [codePoint?, if_pos ⟨hlo, hhi, c.valid⟩, Char.ofNat_toNat]

/-- A character is read back from its bytes, whatever follows them. -/
theorem utf8Decode_append (c : Char) (rest : Bytes) :
    utf8Decode (String.utf8EncodeChar c ++ rest) = (utf8Decode rest).map (c :: ·) := by
  have hmax : c.toNat < 0x110000 := by
    rcases c.valid with h | h
    · exact Nat.lt_trans h (by decide)
    · exact h.2
  simp only [String.utf8EncodeChar, show c.val.toNat = c.toNat from rfl]
  generalize hv : c.toNat = v at hmax
  by_cases h1 : v ≤ 0x7f
  · rw [if_pos h1, List.singleton_append, utf8Decode.eq_def]
    dsimp only
    rw [toNat_ofNat_byte (by omega), if_pos (by omega), ← hv, Char.ofNat_toNat]
  rw [if_neg h1]
  by_cases h2 : v ≤ 0x7ff
  · have hlead := toNat_ofNat_byte (n := v / 64 % 32 + 192) (by omega)
    rw [if_pos h2, List.cons_append, List.singleton_append, utf8Decode.eq_def]
    dsimp only
    rw [hlead, if_neg (by omega), if_pos (by omega), utf8Cont_ofNat (by omega), Option.bind_eq_bind,
      Option.bind_some, codePoint_toNat (c := c) (by omega) (by omega) (by omega)]
    rfl
  rw [if_neg h2]
  by_cases h3 : v ≤ 0xffff
  · have hlead := toNat_ofNat_byte (n := v / 4096 % 16 + 224) (by omega)
    rw [if_pos h3, List.cons_append, List.cons_append, List.singleton_append, utf8Decode.eq_def]
    dsimp only
    rw [hlead, if_neg (by omega), if_neg (by omega), if_pos (by omega), utf8Cont_ofNat (by omega),
      utf8Cont_ofNat (by omega), Option.bind_eq_bind, Option.bind_some, Option.bind_eq_bind,
      Option.bind_some, codePoint_toNat (c := c) (by omega) (by omega) (by omega)]
    rfl
  · have hlead := toNat_ofNat_byte (n := v / 262144 % 8 + 240) (by omega)
    rw [if_neg h3, List.cons_append, List.cons_append, List.cons_append, List.singleton_append,
      utf8Decode.eq_def]
    dsimp only
    rw [hlead, if_neg (by omega), if_neg (by omega), if_neg (by omega), if_pos (by omega),
      utf8Cont_ofNat (by omega), utf8Cont_ofNat (by omega), utf8Cont_ofNat (by omega)]
    simp only [Option.bind_eq_bind, Option.bind_some]
    rw [codePoint_toNat (c := c) (by omega) (by omega) (by omega)]
    rfl

/-- Text is read back from its bytes. -/
theorem utf8Decode_utf8Encode (s : Str) : utf8Decode (utf8Encode s) = some s := by
  induction s with
  | nil => rfl
  | cons c s ih =>
    rw [utf8Encode, List.flatMap_cons, ← utf8Encode, utf8Decode_append, ih, Option.map_some]

end GumptionChain
