import GumptionChain.Codec.Bech32
import GumptionChain.DateTime

/-!
# What the ledger takes from outside

The functions the ledger calls but does not define, gathered in one structure
over which the whole development is parametric: the hash, the Merkle tree, the
curve equation, the printability table and the floating-point scaling of the
difficulty.  A result holds for every choice of them; where it rests on the
hash being collision free, or on a signer's signatures verifying, it says so.

`CollisionFree S` is the form collision resistance takes here: no two of the
texts in `S` have the same hash.  `S` is any set that holds the texts a run has
hashed, so the assumption is about finitely many texts of that run.
-/

namespace GumptionChain

/-- The external functions. -/
structure Env where
  /-- `milling.mill_hash_str`: SHA-256 of SHA-512, in hexadecimal. -/
  millHashStr : Str → Str
  /-- The digest of a `pymerkle` tree over the given entries, in hexadecimal;
  `None` for a tree without a root. -/
  merkleDigest : List Str → Option Str
  /-- `ed25519.verify` on a 32-byte key and a 64-byte signature: decoding of the
  points, the order checks and the cofactored equation. -/
  ed25519Rule : Bytes → Bytes → Bytes → Bool
  /-- `str.isprintable` on one character. -/
  isPrintable : Char → Bool
  /-- `int(target * min(max(seconds / 7200, 0.25), 4.0))` in floating point. -/
  scaleTarget : ℕ → ℤ → ℕ
  /-- The largest value of an `Integer` column: `2 ^ 31 - 1` on PostgreSQL,
  `2 ^ 63 - 1` on SQLite. -/
  integerMax : ℕ
  integerMax_ge : 2 ^ 31 - 1 ≤ integerMax

/-- The text whose hash stands for the predecessor of a first block. -/
def genesisText : Str := ['G', 'E', 'N', 'E', 'S', 'I', 'S']

namespace Env

variable (E : Env)

/-- `mill_hash_str('GENESIS')`. -/
def genesisHash : Str := E.millHashStr genesisText

/-- No two of the given texts have the same hash. -/
def CollisionFree (S : Set Str) : Prop := Set.InjOn E.millHashStr S

/-- A hexadecimal digest: 64 lower-case digits (`hexdigest` of SHA-256). -/
def IsHexDigest (s : Str) : Prop :=
  s.length = 64 ∧ ∀ c ∈ s, ('0' ≤ c ∧ c ≤ '9') ∨ ('a' ≤ c ∧ c ≤ 'f')

/-- `ed25519.verify(public_key, signature, message)`. -/
def ed25519Verify (publicKey signature message : Bytes) : Bool :=
  if publicKey.length ≠ 32 ∨ signature.length ≠ 64 then false
  else E.ed25519Rule publicKey signature message

/-- `signing_key.public_key_from_address`: any 32 bytes are taken as a raw
public key. -/
def publicKeyFromAddress (address : Str) : Option Bytes := decodeAddress address

/-- `schema.validate_signature`. -/
def validateSignature (address : Option Str) (signingData : Str) (signature : Option Str) : Bool :=
  match address, signature with
  | some address, some signature =>
    match publicKeyFromAddress address, b64decode signature with
    | some raw, some sig => E.ed25519Verify raw sig (utf8Encode signingData)
    | _, _ => false
  | _, _ => false

/-- A signature verifies for one of the given texts at most, whatever the key: what
the hash inside the scheme gives when it is collision resistant and keys of small
order are refused. -/
def SignaturesBind (T : Set Str) : Prop := ∀ a a' sig m m', m ∈ T → m' ∈ T →
  E.validateSignature a m sig = true → E.validateSignature a' m' sig = true → m = m'

/-- A verified signature decodes to 64 bytes. -/
theorem validateSignature_length {address signature : Option Str} {data : Str}
    (h : E.validateSignature address data signature = true) :
    ∃ a s sig, address = some a ∧ signature = some s ∧ b64decode s = some sig ∧
      sig.length = 64 := by
  unfold validateSignature at h
  split at h
  · rename_i a s
    split at h
    · rename_i raw sig _ hsig
      unfold ed25519Verify at h
      split_ifs at h with hlen
      push Not at hlen
      exact ⟨a, s, sig, rfl, rfl, hsig, hlen.2⟩
    · exact absurd h (by simp)
  · exact absurd h (by simp)

end Env

/-! ## Field checks shared by the wire models -/

/-- `schema.validate_address_format`. -/
def validateAddressFormat (s : Str) : Bool := (Env.publicKeyFromAddress s).isSome

/-- The check behind `MillHashType`. -/
def validateMillHash (s : Str) : Bool := validateBase64 s && s.length = 64

/-- `schema.validate_timestamp`. -/
def validateTimestamp (s : Str) : Bool := (iso2Dt s).isSome

/-- A step of the path to a field in a pydantic error. -/
inductive Loc where
  | key (name : String)
  | index (i : ℕ)
  deriving DecidableEq

/-- The path to a named field. -/
def field (loc : List Loc) (name : String) : List Loc := loc ++ [.key name]

/-- One pydantic error: where, the message, and the input a message quotes. -/
structure ErrorDetail where
  loc : List Loc
  msg : String
  shown : Option Str
  deriving DecidableEq

/-- `schema.truncate`: the first 32 characters of a quoted input; the length
indicator that follows them is left out. -/
def truncate (s : Str) : Str := s.take 32

/-- One check of a field. -/
def check (ok : Bool) (loc : List Loc) (msg : String) (shown : Option Str) : List ErrorDetail :=
  if ok then [] else [⟨loc, msg, shown⟩]

@[simp] theorem check_eq_nil {ok : Bool} {loc : List Loc} {msg : String} {shown : Option Str} :
    check ok loc msg shown = [] ↔ ok = true := by
  cases ok <;> simp [check]

/-- A required field: pydantic's "Field required" when `to_dict` dropped it. -/
def required {α : Type} (loc : List Loc) (f : α → List ErrorDetail) : Option α → List ErrorDetail
  | none => [⟨loc, "Field required", none⟩]
  | some a => f a

@[simp] theorem required_eq_nil {α : Type} {loc : List Loc} {f : α → List ErrorDetail}
    {o : Option α} : required loc f o = [] ↔ ∃ a, o = some a ∧ f a = [] := by
  cases o <;> simp [required]

/-- An optional field is checked only when present. -/
def optional {α : Type} (f : α → List ErrorDetail) : Option α → List ErrorDetail
  | none => []
  | some a => f a

@[simp] theorem optional_eq_nil {α : Type} {f : α → List ErrorDetail} {o : Option α} :
    optional f o = [] ↔ ∀ a, o = some a → f a = [] := by
  cases o <;> simp [optional]

/-- `AddressType`. -/
def checkAddress (loc : List Loc) (s : Str) : List ErrorDetail :=
  check (validateAddressFormat s) loc "Value error, Invalid address format" (some (truncate s))

/-- `Base64Type`. -/
def checkBase64 (loc : List Loc) (s : Str) : List ErrorDetail :=
  check (validateBase64 s) loc "Value error, Invalid base64 value" (some (truncate s))

/-- `MillHashType`. -/
def checkMillHash (loc : List Loc) (s : Str) : List ErrorDetail :=
  check (validateMillHash s) loc "Value error, Invalid mill hash" (some (truncate s))

/-- `TimestampType`. -/
def checkTimestamp (loc : List Loc) (s : Str) : List ErrorDetail :=
  check (validateTimestamp s) loc "Value error, Invalid timestamp" (some (truncate s))

/-- `Literal['1']`. -/
def checkVersion (loc : List Loc) (s : Str) : List ErrorDetail :=
  check (s = ['1']) loc "Input should be '1'" none

theorem validateMillHash_iff {s : Str} :
    validateMillHash s = true ↔ validateBase64 s = true ∧ s.length = 64 := by
  simp [validateMillHash]

theorem validateMillHash_comma {s : Str} (h : validateMillHash s = true) : ',' ∉ s :=
  validateBase64_comma (validateMillHash_iff.1 h).1

/-- A digest is an accepted mill hash. -/
theorem validateMillHash_of_isHexDigest {s : Str} (h : Env.IsHexDigest s) :
    validateMillHash s = true := by
  have hletter : ∀ c ∈ s, (b64Val? c).isSome := by
    intro c hc
    unfold b64Val?
    rcases h.2 c hc with hdigit | hletter
    · split_ifs <;> rfl
    · rw [if_neg, if_pos ⟨hletter.1, hletter.2.trans (by decide)⟩]
      · rfl
      · exact fun hupper => absurd (hletter.1.trans hupper.2) (by decide)
  exact validateMillHash_iff.2
    ⟨decide_eq_true (b64encode_b64decode (by rw [h.1]) hletter), h.1⟩

theorem digitChar_lower : ∀ d : Fin 16, ('0' ≤ Nat.digitChar d ∧ Nat.digitChar d ≤ '9') ∨
    ('a' ≤ Nat.digitChar d ∧ Nat.digitChar d ≤ 'f') := by
  decide

/-- The digits of a hexadecimal numeral are lower case. -/
theorem toDigits16_lower {c : Char} : ∀ (n : ℕ), c ∈ Nat.toDigits 16 n →
    ('0' ≤ c ∧ c ≤ '9') ∨ ('a' ≤ c ∧ c ≤ 'f') := by
  intro n
  induction n using Nat.strong_induction_on with
  | _ n ih =>
    intro hc
    rw [Nat.toDigits_eq_if (by decide)] at hc
    split_ifs at hc with hn
    · rw [List.mem_singleton.1 hc]
      exact digitChar_lower ⟨n, hn⟩
    · rcases List.mem_append.1 hc with hc | hc
      · exact ih (n / 16) (by omega) hc
      · rw [List.mem_singleton.1 hc]
        exact digitChar_lower ⟨n % 16, by omega⟩

/-- A numeral of 64 digits is a digest. -/
theorem isHexDigest_fmt064x {n : ℕ} (h : n < 16 ^ 64) : Env.IsHexDigest (fmt064x n) := by
  refine ⟨fmt064x_length h, fun c hc => ?_⟩
  rcases List.mem_append.1 hc with hc | hc
  · rw [List.eq_of_mem_replicate hc]
    exact Or.inl (by decide)
  · exact toDigits16_lower n hc

/-! ## SHA-256 -/

/-- `hashlib.sha256`. -/
structure Sha256 where
  digest : Bytes → Bytes
  length_digest : ∀ b, (digest b).length = 32

/-- Two digits for a byte. -/
def hexByte (x : UInt8) : Str :=
  [Nat.digitChar (x.toNat / 16), Nat.digitChar (x.toNat % 16)]

namespace Sha256

variable (H : Sha256) (b : Bytes)

/-- `hexdigest()`. -/
def hexdigest : Str := (H.digest b).flatMap hexByte

theorem isHex : Env.IsHexDigest (H.hexdigest b) := by
  refine ⟨?_, fun c hc => ?_⟩
  · have hbyte : ∀ x : UInt8, (hexByte x).length = 2 := fun _ => rfl
    rw [hexdigest, List.length_flatMap, List.map_congr_left fun x _ => hbyte x,
      List.map_const', List.sum_replicate, H.length_digest]
    rfl
  · obtain ⟨x, -, hc⟩ := List.mem_flatMap.1 hc
    have hx := x.toNat_lt
    obtain rfl | hc := List.mem_cons.1 hc
    · exact digitChar_lower ⟨x.toNat / 16, by omega⟩
    · rw [List.mem_singleton.1 hc]
      exact digitChar_lower ⟨x.toNat % 16, by omega⟩

theorem newline : '\n' ∉ H.hexdigest b := by
  intro h
  rcases (H.isHex b).2 _ h with hc | hc
  · exact absurd hc (by decide)
  · exact absurd hc (by decide)

end Sha256

namespace Sample

/-- A digest that is injective on short contents. -/
def shortDigest : Sha256 where
  digest b := toBytes 32 (b.foldl (fun n x => 256 * n + x.toNat) 0)
  length_digest b := by rw [toBytes, List.length_map, List.length_range]

end Sample

end GumptionChain
