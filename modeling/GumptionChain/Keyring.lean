import GumptionChain.Codec.Secret
import GumptionChain.Lib.Effect
import GumptionChain.SessionSigner

/-!
# The keyring of the browser

`clients/sdk/gc-keyring.mjs`: one signing key, encrypted under a data key that is wrapped
once for each way of unlocking, a passphrase or a passkey.

AES-GCM is an ideal authenticated cipher: what was encrypted under a key opens under that
key and under no other.  PBKDF2 hands its password to HMAC as a key, and HMAC pads a key to
a block of 64 bytes, or hashes it first when it is longer.

* `enroll`, `unlock`, `addPasskey`, `addPassphrase`, `removeMethod` — as awaiting functions
  that may be rejected at each wait;
* `Record.Holds` — what every stored record is;
* `keyring_opens` — after any operations, who opens the record.
-/

namespace GumptionChain

namespace Keyring

open SessionSigner (Platform)

/-! ## Cryptography -/

/-- What the keyring uses of WebCrypto. -/
structure Crypto (Key Ct : Type) where
  encrypt : Key → Bytes → Bytes → Ct
  decrypt : Key → Bytes → Ct → Option Bytes
  decrypt_encrypt : ∀ k iv m, decrypt k iv (encrypt k iv m) = some m
  decrypt_other : ∀ {k k' : Key} (iv m), k ≠ k' → decrypt k' iv (encrypt k iv m) = none
  importKey : Bytes → Key
  sha256 : Bytes → Bytes
  pbkdf2 : Bytes → Bytes → ℕ → Key
  hkdf : Bytes → Key

variable {Key Ct : Type}

/-- The key block of HMAC. -/
def Crypto.hmacBlock (C : Crypto Key Ct) (key : Bytes) : Bytes :=
  let key := if 64 < key.length then C.sha256 key else key
  key ++ List.replicate (64 - key.length) 0

/-- The key that `deriveKey` derives from a passphrase. -/
def Crypto.passphraseKey (C : Crypto Key Ct) (passphrase : Str) (salt : Bytes) (iterations : ℕ) :
    Key :=
  C.pbkdf2 (C.hmacBlock (utf8Encode passphrase)) salt iterations

/-- What opens under the key it was encrypted under opens under no other. -/
theorem Crypto.decrypt_eq_some {C : Crypto Key Ct} {k k' : Key} {iv m m' : Bytes} :
    C.decrypt k' iv (C.encrypt k iv m) = some m' ↔ k = k' ∧ m = m' := by
  constructor
  · intro h
    by_cases hk : k = k'
    · subst hk
      rw [C.decrypt_encrypt] at h
      exact ⟨rfl, Option.some.inj h⟩
    · rw [C.decrypt_other iv m hk] at h
      cases h
  · rintro ⟨rfl, rfl⟩
    exact C.decrypt_encrypt k iv m

/-! ## Records -/

/-- `VERSION`. -/
def VERSION : ℕ := 2

/-- `PBKDF2_ITERATIONS`. -/
def PBKDF2_ITERATIONS : ℕ := 600000

/-- What `sealWithKey` gives. -/
structure Sealed (Ct : Type) where
  iv : Bytes
  ciphertext : Ct

/-- `wraps.passphrase`. -/
structure PassphraseWrap (Ct : Type) extends Sealed Ct where
  salt : Bytes
  iterations : ℕ

/-- `wraps.passkey`. -/
structure PasskeyWrap (Ct : Type) extends Sealed Ct where
  credentialId : Str

/-- `wraps`. -/
structure Wraps (Ct : Type) where
  passphrase : Option (PassphraseWrap Ct)
  passkey : Option (PasskeyWrap Ct)

/-- The stored record.  A derived identity's has no wraps. -/
structure Record (Ct : Type) where
  version : ℕ
  kind : String
  address : Str
  signing_key_ct : Sealed Ct
  wraps : Option (Wraps Ct)

/-- A passkey: whether its PRF is there, and the credential that it mints when asked. -/
structure Passkey where
  supported : Bool
  mints : Str

/-- The properties that an object has without having been given them. -/
def objectPrototype : List String :=
  ["constructor", "__defineGetter__", "__defineSetter__", "hasOwnProperty", "__lookupGetter__",
    "__lookupSetter__", "isPrototypeOf", "propertyIsEnumerable", "toString", "valueOf",
    "__proto__", "toLocaleString"]

namespace Wraps

/-- `Object.keys(wraps)`. -/
def keys (wraps : Wraps Ct) : List String :=
  (if wraps.passphrase.isSome then ["passphrase"] else []) ++
    (if wraps.passkey.isSome then ["passkey"] else [])

/-- The truth value of `wraps[name]`. -/
def has (wraps : Wraps Ct) (name : String) : Bool :=
  wraps.keys.contains name || objectPrototype.contains name

/-- `delete wraps[name]`. -/
def delete (wraps : Wraps Ct) (name : String) : Wraps Ct where
  passphrase := if name = "passphrase" then none else wraps.passphrase
  passkey := if name = "passkey" then none else wraps.passkey

end Wraps

/-! ## Awaiting -/

/-- Why a function throws: one of its own errors, or what it awaited was rejected. -/
inductive Rejection where
  | noSigningKey (message : String)
  | unsupported (message : String)
  | badPassphrase (message : String)
  | error (message : String)
  | operation
  | awaited
  deriving DecidableEq

/-- The store, which of the promises to come are rejected, and the random bytes to come. -/
structure World (Ct : Type) where
  store : Option (Record Ct)
  rejects : ℕ → Bool
  waited : ℕ
  random : ℕ → Bytes
  drawn : ℕ

/-- An asynchronous function of the keyring. -/
abbrev Async (Ct : Type) := EStateM Rejection (World Ct)

/-- `await` of something that the world answers. -/
def awaits : Async Ct Unit := fun w =>
  let w' := { w with waited := w.waited + 1 }
  if w.rejects w.waited then .error .awaited w' else .ok () w'

/-- `crypto.getRandomValues`. -/
def getRandomValues : Async Ct Bytes := fun w =>
  .ok (w.random w.drawn) { w with drawn := w.drawn + 1 }

/-- `await store.get()`, which gives a copy. -/
def storeGet : Async Ct (Option (Record Ct)) := do
  awaits
  return (← get).store

/-- `await store.put(record)`. -/
def storePut (record : Record Ct) : Async Ct Unit := do
  awaits
  modify fun w => { w with store := some record }

/-- A value, or an error thrown. -/
def orThrow {α : Type} (e : Rejection) : Option α → Async Ct α
  | none => throw e
  | some a => return a

/-! ## Functions -/

section Functions

variable (C : Crypto Key Ct) (W : Platform)

-- what the PRF of a passkey gives for a credential
variable (prf : Str → Bytes)

/-- `deriveKey` of `gc-backup.mjs`. -/
def deriveKey (passphrase : Str) (salt : Bytes) (iterations : ℕ) : Async Ct Key := do
  awaits
  awaits
  return C.passphraseKey passphrase salt iterations

/-- `deriveAesKey` of `gc-envelope.mjs`. -/
def deriveAesKey (prfOutput : Bytes) : Async Ct Key := do
  awaits
  awaits
  return C.hkdf prfOutput

/-- `sealWithKey`. -/
def sealWithKey (key : Key) (bytes : Bytes) : Async Ct (Sealed Ct) := do
  let iv ← getRandomValues
  awaits
  return ⟨iv, C.encrypt key iv bytes⟩

/-- `openWithKey`. -/
def openWithKey (key : Key) (envelope : Sealed Ct) : Async Ct Bytes := do
  awaits
  orThrow .operation (C.decrypt key envelope.iv envelope.ciphertext)

/-- `importDek`. -/
def importDek (raw : Bytes) : Async Ct Key := do
  awaits
  return C.importKey raw

/-- `newDek`. -/
def newDek : Async Ct (Bytes × Key) := do
  let raw ← getRandomValues
  return (raw, ← importDek C raw)

/-- `passphraseWrap`. -/
def passphraseWrap (passphrase : Str) (dekRaw : Bytes) : Async Ct (PassphraseWrap Ct) := do
  let salt ← getRandomValues
  let kek ← deriveKey C passphrase salt PBKDF2_ITERATIONS
  let envelope ← sealWithKey C kek dekRaw
  return { toSealed := envelope, salt := salt, iterations := PBKDF2_ITERATIONS }

/-- `passkeyWrap`. -/
def passkeyWrap (passkey : Passkey) (dekRaw : Bytes) : Async Ct (PasskeyWrap Ct) := do
  awaits
  if !passkey.supported then throw (.unsupported "passkey PRF is not available on this device")
  else do
    awaits
    let kek ← deriveAesKey C (prf passkey.mints)
    let envelope ← sealWithKey C kek dekRaw
    return { toSealed := envelope, credentialId := passkey.mints }

/-- `exportSecret`: the secret of a key whose seed may leave it. -/
def exportSecret (key : SessionSigner.SigningKey) : Async Ct Str :=
  match key.privateKey with
  | none => throw (.error "no private key")
  | some sk =>
    if sk.extractable then do
      awaits
      orThrow (.error "expected 32 bytes") (encodeSecret sk.seed)
    else throw (.error "sign-only key: the seed is not extractable")

/-- `address`. -/
def address (key : SessionSigner.SigningKey) : Async Ct Str := do
  awaits
  orThrow (.error "expected 32 bytes") key.address

/-- `SigningKey.fromSecret`. -/
def fromSecret (secret : Str) : Async Ct SessionSigner.SigningKey :=
  match decodeSecret secret with
  | none => throw (.error "invalid gcsec secret (bad checksum or HRP)")
  | some seed => do
    awaits
    return SessionSigner.SigningKey.fromSecret W seed

/-- `enroll`. -/
def enroll (signing_key : SessionSigner.SigningKey) (passphrase : Str) : Async Ct SessionSigner.SigningKey := do
  let secret ← exportSecret signing_key
  let (dekRaw, dekKey) ← newDek C
  let signing_key_ct ← sealWithKey C dekKey (utf8Encode secret)
  let wrap ← passphraseWrap C passphrase dekRaw
  let address ← address signing_key
  storePut
    { version := VERSION, kind := "wrap", address := address, signing_key_ct := signing_key_ct,
      wraps := some ⟨some wrap, none⟩ }
  return signing_key

/-- `unwrapDek`. -/
def unwrapDek (record : Record Ct) (passkey : Option Passkey) (passphrase : Option Str) :
    Async Ct Bytes :=
  match record.wraps with
  | none => throw (.noSigningKey
      "this identity has no keyring wraps (a derived identity?) — unlock it with its passkey")
  | some wraps =>
    match passphrase, wraps.passphrase, passkey, wraps.passkey with
    | some passphrase, some wrap, _, _ => do
      let kek ← deriveKey C passphrase wrap.salt wrap.iterations
      try openWithKey C kek wrap.toSealed
      catch _ => throw (.badPassphrase "wrong passphrase")
    | _, _, some _, some wrap => do
      awaits
      let kek ← deriveAesKey C (prf wrap.credentialId)
      openWithKey C kek wrap.toSealed
    | _, _, _, _ => throw (.error "no usable unlock method/secret")

/-- `loadRecord`. -/
def loadRecord (record : Option (Record Ct)) : Async Ct (Record Ct) :=
  match record with
  | none => throw (.noSigningKey "no stored signing_key")
  | some record =>
    if record.version ≠ VERSION then
      throw (.error ("unsupported signing_key record version: " ++ toString record.version))
    else return record

/-- `unlock`. -/
def unlock (passkey : Option Passkey) (passphrase : Option Str) : Async Ct SessionSigner.SigningKey := do
  let record ← loadRecord (← storeGet)
  let dekRaw ← unwrapDek C prf record passkey passphrase
  let dekKey ← importDek C dekRaw
  let secret ← orThrow .operation (utf8Decode (← openWithKey C dekKey record.signing_key_ct))
  fromSecret W secret

/-- `addPasskey`. -/
def addPasskey (passkey : Passkey) (passphrase : Option Str) : Async Ct Str := do
  let record ← loadRecord (← storeGet)
  let dekRaw ← unwrapDek C prf record none passphrase
  let passkeyWrapped ← passkeyWrap C prf passkey dekRaw
  let record := { record with wraps := record.wraps.map ({ · with passkey := some passkeyWrapped }) }
  storePut record
  return record.address

/-- `addPassphrase`. -/
def addPassphrase (passkey : Option Passkey) (passphrase : Str) : Async Ct Str := do
  let record ← loadRecord (← storeGet)
  let dekRaw ← unwrapDek C prf record passkey none
  let wrap ← passphraseWrap C passphrase dekRaw
  let record := { record with wraps := record.wraps.map ({ · with passphrase := some wrap }) }
  storePut record
  return record.address

/-- `removeMethod`. -/
def removeMethod (name : String) : Async Ct Str := do
  let record ← loadRecord (← storeGet)
  -- `wraps[name]` of a record without wraps is a `TypeError`
  let wraps ← orThrow (.error "Cannot read properties of undefined") record.wraps
  if !wraps.has name then throw (.error ("no '" ++ name ++ "' method to remove"))
  else if (wraps.keys.filter (· ≠ name)).length = 0 then
    throw (.error ("refusing to remove the last method ('" ++ name ++ "')"))
  else do
    let record := { record with wraps := some (wraps.delete name) }
    storePut record
    return record.address

/-- The operations that write the record. -/
inductive Op where
  | enroll (signing_key : SessionSigner.SigningKey) (passphrase : Str)
  | addPasskey (passkey : Passkey) (passphrase : Option Str)
  | addPassphrase (passkey : Option Passkey) (passphrase : Str)
  | removeMethod (name : String)

/-- An operation, called. -/
def perform : Op → Async Ct Unit
  | .enroll signing_key passphrase => do
    let _ ← enroll C signing_key passphrase
    return
  | .addPasskey passkey passphrase => do
    let _ ← addPasskey C prf passkey passphrase
    return
  | .addPassphrase passkey passphrase => do
    let _ ← addPassphrase C prf passkey passphrase
    return
  | .removeMethod name => do
    let _ ← removeMethod name
    return

end Functions

/-! ## What was set last -/

/-- The seed enrolled last, and the secret last set since for each method: a passphrase,
the credential of a passkey. -/
structure Secrets where
  seed : Bytes
  passphrase : Option Str
  passkey : Option Str

/-- What an operation sets when it succeeds. -/
def Op.sets (op : Op) (secrets : Option Secrets) : Option Secrets :=
  match op with
  | .enroll signing_key passphrase =>
    signing_key.privateKey.map fun sk => ⟨sk.seed, some passphrase, none⟩
  | .addPasskey passkey _ => secrets.map ({ · with passkey := some passkey.mints })
  | .addPassphrase _ passphrase => secrets.map ({ · with passphrase := some passphrase })
  | .removeMethod name => secrets.map fun s =>
    { s with
      passphrase := if name = "passphrase" then none else s.passphrase
      passkey := if name = "passkey" then none else s.passkey }

/-- The world after an operation, and what has been set by then. -/
def step (C : Crypto Key Ct) (prf : Str → Bytes) (s : World Ct × Option Secrets) (op : Op) :
    World Ct × Option Secrets :=
  match perform C prf op s.1 with
  | .ok _ w => (w, op.sets s.2)
  | .error _ w => (w, s.2)

/-- Operations in a row, from an empty store. -/
def run (C : Crypto Key Ct) (prf : Str → Bytes) (rejects : ℕ → Bool) (random : ℕ → Bytes)
    (ops : List Op) : World Ct × Option Secrets :=
  ops.foldl (step C prf) (⟨none, rejects, 0, random, 0⟩, none)

/-- What `unlock` returns when nothing it awaits is rejected. -/
def unlocked (C : Crypto Key Ct) (W : Platform) (prf : Str → Bytes) (w : World Ct)
    (passkey : Option Passkey) (passphrase : Option Str) : Option SessionSigner.SigningKey :=
  match unlock C W prf passkey passphrase { w with rejects := fun _ => false } with
  | .ok key _ => some key
  | .error _ _ => none

/-! ## Failing -/

/-- The stored record is the same. -/
def SameStore (w w' : World Ct) : Prop := w'.store = w.store

theorem SameStore.refl (w : World Ct) : SameStore w w := rfl

theorem SameStore.trans (w w' w'' : World Ct) (h : SameStore w w') (h' : SameStore w' w'') :
    SameStore w w'' :=
  Eq.trans h' h

/-- A function that writes no record. -/
def Reads {α : Type} (x : Async Ct α) : Prop := Effect.Within SameStore x

/-- A function that has written no record when it throws. -/
def Fails {α : Type} (x : Async Ct α) : Prop := Effect.Clean SameStore x

section Failing

variable {α β : Type} {C : Crypto Key Ct} {prf : Str → Bytes}

theorem Reads.bind {x : Async Ct α} {f : α → Async Ct β} (hx : Reads x) (hf : ∀ a, Reads (f a)) :
    Reads (x >>= f) :=
  Effect.Within.bind SameStore.trans hx hf

theorem Reads.pure (a : α) : Reads (pure a : Async Ct α) := Effect.Within.pure SameStore.refl a

theorem Reads.throw (e : Rejection) : Reads (throw e : Async Ct α) :=
  Effect.Within.throw SameStore.refl e

theorem reads_awaits : Reads (awaits : Async Ct Unit) := by
  intro w
  unfold Effect.after awaits
  cases w.rejects w.waited <;> rfl

theorem reads_getRandomValues : Reads (getRandomValues : Async Ct Bytes) := fun _ => rfl

theorem reads_storeGet : Reads (storeGet : Async Ct _) :=
  reads_awaits.bind fun _ => .bind (fun _ => rfl) fun _ => .pure _

theorem reads_orThrow (e : Rejection) (a : Option α) : Reads (orThrow e a : Async Ct α) := by
  cases a with
  | none => exact .throw e
  | some a => exact .pure a

theorem reads_deriveKey (passphrase : Str) (salt : Bytes) (iterations : ℕ) :
    Reads (deriveKey C passphrase salt iterations) :=
  reads_awaits.bind fun _ => reads_awaits.bind fun _ => .pure _

theorem reads_deriveAesKey (prfOutput : Bytes) : Reads (deriveAesKey C prfOutput) :=
  reads_awaits.bind fun _ => reads_awaits.bind fun _ => .pure _

theorem reads_sealWithKey (key : Key) (bytes : Bytes) : Reads (sealWithKey C key bytes) :=
  reads_getRandomValues.bind fun _ => reads_awaits.bind fun _ => .pure _

theorem reads_openWithKey (key : Key) (envelope : Sealed Ct) :
    Reads (openWithKey C key envelope) :=
  reads_awaits.bind fun _ => reads_orThrow _ _

theorem reads_newDek : Reads (newDek C) :=
  reads_getRandomValues.bind fun _ => .bind (reads_awaits.bind fun _ => .pure _) fun _ => .pure _

theorem reads_passphraseWrap (passphrase : Str) (dekRaw : Bytes) :
    Reads (passphraseWrap C passphrase dekRaw) :=
  reads_getRandomValues.bind fun _ => (reads_deriveKey _ _ _).bind fun _ =>
    (reads_sealWithKey _ _).bind fun _ => .pure _

theorem reads_passkeyWrap (passkey : Passkey) (dekRaw : Bytes) :
    Reads (passkeyWrap C prf passkey dekRaw) := by
  refine reads_awaits.bind fun _ => ?_
  split_ifs
  · exact .throw _
  · exact reads_awaits.bind fun _ => (reads_deriveAesKey _).bind fun _ =>
      (reads_sealWithKey _ _).bind fun _ => .pure _

theorem reads_exportSecret (key : SessionSigner.SigningKey) :
    Reads (exportSecret key : Async Ct Str) := by
  unfold exportSecret
  split
  · exact .throw _
  · split_ifs
    · exact reads_awaits.bind fun _ => reads_orThrow _ _
    · exact .throw _

theorem reads_unwrapDek (record : Record Ct) (passkey : Option Passkey)
    (passphrase : Option Str) : Reads (unwrapDek C prf record passkey passphrase) := by
  unfold unwrapDek
  split
  · exact .throw _
  · split
    · exact (reads_deriveKey _ _ _).bind fun _ =>
        Effect.Within.tryCatch SameStore.trans (reads_openWithKey _ _) fun _ => Reads.throw _
    · exact reads_awaits.bind fun _ => (reads_deriveAesKey _).bind fun _ => reads_openWithKey _ _
    · exact .throw _

theorem reads_loadRecord (record : Option (Record Ct)) : Reads (loadRecord record) := by
  unfold loadRecord
  split
  · exact .throw _
  · split_ifs
    · exact .throw _
    · exact .pure _

theorem Fails.bind {x : Async Ct α} {f : α → Async Ct β} (hx : Reads x) (hf : ∀ a, Fails (f a)) :
    Fails (x >>= f) :=
  Effect.Clean.bind SameStore.trans hx hf

/-- The last thing a function does is to write the record: it throws only before. -/
theorem fails_storePut (record : Record Ct) (a : α) :
    Fails (storePut record >>= fun _ => pure a : Async Ct α) := by
  intro w e w' h
  rcases hr : w.rejects w.waited with _ | _
  · simp [storePut, awaits, bind, EStateM.bind, hr, modify, modifyGet, MonadStateOf.modifyGet,
      EStateM.modifyGet, pure, EStateM.pure] at h
  · simp only [storePut, awaits, bind, EStateM.bind, hr, if_true] at h
    cases h
    rfl

theorem Fails.returning {x : Async Ct α} (hx : Fails x) (b : β) :
    Fails (x >>= fun _ => pure b) := by
  intro w e w' h
  change EStateM.bind x _ w = _ at h
  unfold EStateM.bind at h
  cases hw : x w with
  | ok a w'' =>
    rw [hw] at h
    cases h
  | error e' w'' =>
    rw [hw] at h
    cases h
    exact hx w e w' hw

theorem Fails.throw (e : Rejection) : Fails (throw e : Async Ct α) :=
  Effect.Clean.of_within (Reads.throw e)

theorem fails_enroll (signing_key : SessionSigner.SigningKey) (passphrase : Str) :
    Fails (enroll C signing_key passphrase) :=
  .bind (reads_exportSecret _) fun _ => .bind reads_newDek fun _ =>
    .bind (reads_sealWithKey _ _) fun _ => .bind (reads_passphraseWrap _ _) fun _ =>
      .bind (reads_awaits.bind fun _ => reads_orThrow _ _) fun _ => fails_storePut _ _

theorem fails_addPasskey (passkey : Passkey) (passphrase : Option Str) :
    Fails (addPasskey C prf passkey passphrase) :=
  .bind reads_storeGet fun _ => .bind (reads_loadRecord _) fun _ =>
    .bind (reads_unwrapDek _ _ _) fun _ => .bind (reads_passkeyWrap _ _) fun _ =>
      fails_storePut _ _

theorem fails_addPassphrase (passkey : Option Passkey) (passphrase : Str) :
    Fails (addPassphrase C prf passkey passphrase) :=
  .bind reads_storeGet fun _ => .bind (reads_loadRecord _) fun _ =>
    .bind (reads_unwrapDek _ _ _) fun _ => .bind (reads_passphraseWrap _ _) fun _ =>
      fails_storePut _ _

theorem fails_removeMethod (name : String) : Fails (removeMethod name : Async Ct Str) := by
  refine .bind reads_storeGet fun _ => .bind (reads_loadRecord _) fun _ =>
    .bind (reads_orThrow _ _) fun _ => ?_
  split_ifs
  · exact .throw _
  · exact .throw _
  · exact fails_storePut _ _

/-- An operation that fails leaves the stored record as it was. -/
theorem fails_perform (op : Op) : Fails (perform C prf op) := by
  cases op with
  | enroll signing_key passphrase => exact (fails_enroll signing_key passphrase).returning _
  | addPasskey passkey passphrase => exact (fails_addPasskey passkey passphrase).returning _
  | addPassphrase passkey passphrase => exact (fails_addPassphrase passkey passphrase).returning _
  | removeMethod name => exact (fails_removeMethod name).returning _

end Failing

/-! ## Unlocking -/

/-- Nothing that is awaited will be rejected. -/
def World.Calm (w : World Ct) : Prop := ∀ n, w.rejects n = false

/-- With this record in the store the function returns this value and no other, and when
nothing it awaits is rejected it throws only where there is none. -/
def Computes {α : Type} (store : Option (Record Ct)) (x : Async Ct α) (o : Option α) : Prop :=
  ∀ w : World Ct, w.store = store →
    (∀ a w', x w = .ok a w' → o = some a ∧ w'.store = store ∧ (w.Calm → w'.Calm)) ∧
    ∀ e w', x w = .error e w' → w.Calm → o = none

namespace Computes

variable {α β : Type} {store : Option (Record Ct)} {C : Crypto Key Ct} {prf : Str → Bytes}

theorem bind {x : Async Ct α} {f : α → Async Ct β} {o : Option α} {g : α → Option β}
    (hx : Computes store x o) (hf : ∀ a, o = some a → Computes store (f a) (g a)) :
    Computes store (x >>= f) (o.bind g) := by
  intro w hw
  obtain ⟨hok, herr⟩ := hx w hw
  change (∀ b w', EStateM.bind x f w = _ → _) ∧ ∀ e w', EStateM.bind x f w = _ → _
  unfold EStateM.bind
  cases hr : x w with
  | ok a w1 =>
    obtain ⟨rfl, hstore, hcalm⟩ := hok a w1 hr
    obtain ⟨hok', herr'⟩ := hf a rfl w1 hstore
    exact ⟨fun b w' h => let ⟨h1, h2, h3⟩ := hok' b w' h; ⟨h1, h2, h3 ∘ hcalm⟩,
      fun e w' h hc => herr' e w' h (hcalm hc)⟩
  | error e w1 =>
    refine ⟨fun b w' h => (nomatch h), fun e' w' _ hc => ?_⟩
    rw [herr e w1 hr hc]
    rfl

theorem bind_some {x : Async Ct α} {f : α → Async Ct β} {a : α} {o : Option β}
    (hx : Computes store x (some a)) (hf : Computes store (f a) o) : Computes store (x >>= f) o :=
  hx.bind (g := fun _ => o) fun _ h => Option.some.inj h ▸ hf

theorem pure (a : α) : Computes store (pure a : Async Ct α) (some a) :=
  by
  intro w hw
  refine ⟨fun a' w' h => ?_, fun e w' h => nomatch h⟩
  cases h
  exact ⟨rfl, hw, id⟩

theorem throw (e : Rejection) : Computes store (throw e : Async Ct α) none :=
  fun _ _ => ⟨fun _ _ h => (nomatch h), fun _ _ _ _ => rfl⟩

theorem orThrow (e : Rejection) (o : Option α) : Computes store (orThrow e o : Async Ct α) o := by
  cases o with
  | none => exact .throw e
  | some a => exact .pure a

theorem awaits : Computes store (awaits : Async Ct Unit) (some ()) := by
  intro w hw
  unfold Keyring.awaits
  rcases hr : w.rejects w.waited with _ | _
  · refine ⟨fun a w' h => ?_, fun e w' h => nomatch h⟩
    cases h
    exact ⟨rfl, hw, id⟩
  · refine ⟨fun a w' h => (nomatch h), fun e w' _ hc => ?_⟩
    rw [hc] at hr
    cases hr

theorem awaiting {x : Async Ct α} {o : Option α} (h : Computes store x o) :
    Computes store (do Keyring.awaits; x) o :=
  awaits.bind_some h

/-- A handler that throws changes nothing of what is returned. -/
theorem catching {x : Async Ct α} {o : Option α} (h : Computes store x o) (e : Rejection) :
    Computes store (tryCatch x fun _ => MonadExcept.throw e) o := by
  intro w hw
  obtain ⟨hok, herr⟩ := h w hw
  change (∀ b w', EStateM.tryCatch x _ w = _ → _) ∧ ∀ e w', EStateM.tryCatch x _ w = _ → _
  unfold EStateM.tryCatch
  cases hr : x w with
  | ok a w1 =>
    refine ⟨fun b w' h => ?_, fun e w' h => nomatch h⟩
    cases h
    exact hok a w1 hr
  | error e' w1 => exact ⟨fun b w' h => (nomatch h), fun _ _ _ hc => herr e' w1 hr hc⟩

theorem storeGet : Computes store (storeGet : Async Ct _) (some store) := by
  refine .awaiting fun w hw => ⟨fun a w' h => ?_, fun e w' h => nomatch h⟩
  cases h
  exact ⟨by rw [hw], hw, id⟩

theorem deriveKey (passphrase : Str) (salt : Bytes) (iterations : ℕ) :
    Computes store (deriveKey C passphrase salt iterations)
      (some (C.passphraseKey passphrase salt iterations)) :=
  .awaiting (.awaiting (.pure _))

theorem deriveAesKey (prfOutput : Bytes) :
    Computes store (deriveAesKey C prfOutput) (some (C.hkdf prfOutput)) :=
  .awaiting (.awaiting (.pure _))

theorem openWithKey (key : Key) (envelope : Sealed Ct) :
    Computes store (openWithKey C key envelope) (C.decrypt key envelope.iv envelope.ciphertext) :=
  .awaiting (.orThrow _ _)

theorem loadRecord (record : Option (Record Ct)) :
    Computes store (loadRecord record) (record.filter (·.version = VERSION)) := by
  cases record with
  | none => exact .throw _
  | some record =>
    unfold Keyring.loadRecord
    by_cases hv : record.version = VERSION
    · rw [Option.filter_some, if_pos (decide_eq_true hv)]
      simpa [hv] using Computes.pure record
    · rw [Option.filter_some, if_neg (by simpa using hv)]
      simpa [hv] using Computes.throw _

end Computes

/-- The data key that the secrets given unwrap. -/
def Record.dek (C : Crypto Key Ct) (prf : Str → Bytes) (record : Record Ct)
    (passkey : Option Passkey) (passphrase : Option Str) : Option Bytes :=
  match record.wraps with
  | none => none
  | some wraps =>
    match passphrase, wraps.passphrase, passkey, wraps.passkey with
    | some passphrase, some wrap, _, _ =>
      C.decrypt (C.passphraseKey passphrase wrap.salt wrap.iterations) wrap.iv wrap.ciphertext
    | _, _, some _, some wrap =>
      C.decrypt (C.hkdf (prf wrap.credentialId)) wrap.iv wrap.ciphertext
    | _, _, _, _ => none

theorem computes_unwrapDek {C : Crypto Key Ct} {prf : Str → Bytes} {store : Option (Record Ct)}
    (record : Record Ct) (passkey : Option Passkey) (passphrase : Option Str) :
    Computes store (unwrapDek C prf record passkey passphrase)
      (record.dek C prf passkey passphrase) := by
  unfold unwrapDek Record.dek
  cases record.wraps with
  | none => exact .throw _
  | some wraps =>
    simp only
    split
    · exact (Computes.deriveKey _ _ _).bind_some ((Computes.openWithKey _ _).catching _)
    · exact .awaiting ((Computes.deriveAesKey _).bind_some (Computes.openWithKey _ _))
    · exact .throw _

/-- The key that the secrets given unlock. -/
def Record.key (C : Crypto Key Ct) (W : Platform) (prf : Str → Bytes) (record : Record Ct)
    (passkey : Option Passkey) (passphrase : Option Str) : Option SessionSigner.SigningKey :=
  (record.dek C prf passkey passphrase).bind fun dek =>
    (C.decrypt (C.importKey dek) record.signing_key_ct.iv record.signing_key_ct.ciphertext).bind
      fun bytes => (utf8Decode bytes).bind fun secret => (decodeSecret secret).map (.fromSecret W)

theorem computes_unlock {C : Crypto Key Ct} {W : Platform} {prf : Str → Bytes}
    {store : Option (Record Ct)} (passkey : Option Passkey) (passphrase : Option Str) :
    Computes store (unlock C W prf passkey passphrase)
      ((store.filter (·.version = VERSION)).bind (·.key C W prf passkey passphrase)) := by
  refine Computes.storeGet.bind_some ((Computes.loadRecord store).bind fun record _ => ?_)
  refine (computes_unwrapDek record passkey passphrase).bind fun dek _ => ?_
  refine (Computes.awaiting (.pure _)).bind_some ((Computes.openWithKey _ _).bind fun bytes _ => ?_)
  refine (Computes.orThrow _ _).bind fun secret _ => ?_
  unfold fromSecret
  cases decodeSecret secret with
  | none => exact .throw _
  | some seed => exact .awaiting (.pure _)

theorem unlocked_eq (C : Crypto Key Ct) (W : Platform) (prf : Str → Bytes) (w : World Ct)
    (passkey : Option Passkey) (passphrase : Option Str) :
    unlocked C W prf w passkey passphrase =
      (w.store.filter (·.version = VERSION)).bind (·.key C W prf passkey passphrase) := by
  have hcomputes : Computes w.store (unlock C W prf passkey passphrase) _ :=
    computes_unlock passkey passphrase
  obtain ⟨hok, herr⟩ := hcomputes { w with rejects := fun _ => false } rfl
  unfold unlocked
  cases hr : unlock C W prf passkey passphrase { w with rejects := fun _ => false } with
  | ok key w' => exact (hok key w' hr).1.symm
  | error e w' => exact (herr e w' hr fun _ => rfl).symm

/-! ## What a record holds -/

/-- The wrap of the data key under a passphrase. -/
def PassphraseWrap.Wraps (C : Crypto Key Ct) (dek : Bytes) (wrap : PassphraseWrap Ct)
    (passphrase : Str) : Prop :=
  wrap.ciphertext = C.encrypt (C.passphraseKey passphrase wrap.salt wrap.iterations) wrap.iv dek

/-- The wrap of the data key under what a credential's PRF gives. -/
def PasskeyWrap.Wraps (C : Crypto Key Ct) (prf : Str → Bytes) (dek : Bytes)
    (wrap : PasskeyWrap Ct) (credentialId : Str) : Prop :=
  wrap.credentialId = credentialId ∧
    wrap.ciphertext = C.encrypt (C.hkdf (prf credentialId)) wrap.iv dek

/-- A record of the secrets last set, with this data key. -/
structure Record.HoldsWith (C : Crypto Key Ct) (prf : Str → Bytes) (record : Record Ct)
    (secrets : Secrets) (dek : Bytes) (ws : Wraps Ct) : Prop where
  version : record.version = VERSION
  ct : ∃ secret, encodeSecret secrets.seed = some secret ∧ record.signing_key_ct.ciphertext =
    C.encrypt (C.importKey dek) record.signing_key_ct.iv (utf8Encode secret)
  wraps : record.wraps = some ws
  keys : ws.keys ≠ []
  passphrase : Option.Rel (PassphraseWrap.Wraps C dek) ws.passphrase secrets.passphrase
  passkey : Option.Rel (PasskeyWrap.Wraps C prf dek) ws.passkey secrets.passkey

/-- What every stored record is. -/
def Record.Holds (C : Crypto Key Ct) (prf : Str → Bytes) (record : Record Ct)
    (secrets : Secrets) : Prop :=
  ∃ dek ws, record.HoldsWith C prf secrets dek ws

section Holding

variable {α β : Type} {C : Crypto Key Ct} {prf : Str → Bytes} {w w' : World Ct}

theorem rel_some {R : α → β → Prop} {a : Option α} {b : Option β} (h : Option.Rel R a b) {x : α}
    (ha : a = some x) : ∃ y, b = some y ∧ R x y := by
  subst ha
  cases h with
  | some h => exact ⟨_, rfl, h⟩

theorem rel_erase {R : α → β → Prop} {a : Option α} {b : Option β} {p : Prop} [Decidable p]
    (h : Option.Rel R a b) : Option.Rel R (if p then none else a) (if p then none else b) := by
  split_ifs
  · exact .none
  · exact h

/-- Whatever unwraps a data key unwraps the one that the record was made with. -/
theorem Record.HoldsWith.dek_eq {record : Record Ct} {secrets : Secrets} {dek d : Bytes}
    {ws : Wraps Ct} (h : record.HoldsWith C prf secrets dek ws) {prf' : Str → Bytes}
    {passkey : Option Passkey} {passphrase : Option Str}
    (hd : record.dek C prf' passkey passphrase = some d) : d = dek := by
  simp only [Record.dek, h.wraps] at hd
  split at hd
  · rename_i wrap _ hwrap
    obtain ⟨p, -, hw⟩ := rel_some h.passphrase hwrap
    rw [hw, Crypto.decrypt_eq_some] at hd
    exact hd.2.symm
  · rename_i wrap hwrap _
    obtain ⟨credentialId, -, hw⟩ := rel_some h.passkey hwrap
    rw [hw.2, Crypto.decrypt_eq_some] at hd
    exact hd.2.symm
  · cases hd

theorem Record.HoldsWith.key_eq {W : Platform} {record : Record Ct} {secrets : Secrets}
    {dek : Bytes} {ws : Wraps Ct} (h : record.HoldsWith C prf secrets dek ws)
    (prf' : Str → Bytes) (passkey : Option Passkey) (passphrase : Option Str) :
    record.key C W prf' passkey passphrase =
      (record.dek C prf' passkey passphrase).map fun _ => .fromSecret W secrets.seed := by
  unfold Record.key
  cases hd : record.dek C prf' passkey passphrase with
  | none => rfl
  | some d =>
    obtain ⟨secret, hsecret, hct⟩ := h.ct
    have hback := decodeSecret_encodeSecret hsecret
    rw [Option.bind_some, h.dek_eq hd, hct, C.decrypt_encrypt, Option.bind_some, Option.map_some]
    cases hutf : utf8Decode (utf8Encode secret) with
    | none => rw [hutf] at hback; cases hback
    | some secret' =>
      rw [hutf, Option.bind_some] at hback
      rw [Option.bind_some, hback, Option.map_some]

/-! ## What each function returns -/

/-- What a function returns, when it returns, in a world whose record is its own. -/
theorem Computes.returns {x : Async Ct α} {o : Option α} {a : α} (hx : Computes w.store x o)
    (h : x w = .ok a w') : o = some a ∧ w'.store = w.store :=
  let ⟨ho, hs, _⟩ := (hx w rfl).1 a w' h
  ⟨ho, hs⟩

theorem Reads.store {x : Async Ct α} {a : α} (hx : Reads x) (h : x w = .ok a w') :
    w'.store = w.store := by
  have := hx w
  rwa [Effect.after, h] at this

theorem awaits_then {x : Async Ct α} {a : α} (h : (do awaits; x : Async Ct α) w = .ok a w') :
    ∃ w1, w1.store = w.store ∧ x w1 = .ok a w' := by
  obtain ⟨_, w1, h1, h⟩ := Effect.bind_eq_ok.1 h
  exact ⟨w1, reads_awaits.store h1, h⟩

theorem sealWithKey_ok {key : Key} {bytes : Bytes} {envelope : Sealed Ct}
    (h : sealWithKey C key bytes w = .ok envelope w') :
    envelope.ciphertext = C.encrypt key envelope.iv bytes := by
  obtain ⟨iv, w1, -, h⟩ := Effect.bind_eq_ok.1 h
  obtain ⟨w2, -, h⟩ := awaits_then h
  cases h
  rfl

theorem newDek_ok {r : Bytes × Key} (h : newDek C w = .ok r w') : r.2 = C.importKey r.1 := by
  obtain ⟨raw, w1, -, h⟩ := Effect.bind_eq_ok.1 h
  obtain ⟨key, w2, hkey, h⟩ := Effect.bind_eq_ok.1 h
  obtain ⟨w3, -, hkey⟩ := awaits_then hkey
  cases hkey
  cases h
  rfl

theorem passphraseWrap_ok {passphrase : Str} {dek : Bytes} {wrap : PassphraseWrap Ct}
    (h : passphraseWrap C passphrase dek w = .ok wrap w') : wrap.Wraps C dek passphrase := by
  obtain ⟨salt, w1, -, h⟩ := Effect.bind_eq_ok.1 h
  obtain ⟨kek, w2, hkek, h⟩ := Effect.bind_eq_ok.1 h
  obtain rfl := Option.some.inj ((Computes.deriveKey _ _ _).returns hkek).1
  obtain ⟨envelope, w3, hseal, h⟩ := Effect.bind_eq_ok.1 h
  cases h
  exact sealWithKey_ok hseal

theorem passkeyWrap_ok {passkey : Passkey} {dek : Bytes} {wrap : PasskeyWrap Ct}
    (h : passkeyWrap C prf passkey dek w = .ok wrap w') : wrap.Wraps C prf dek passkey.mints := by
  obtain ⟨w1, -, h⟩ := awaits_then h
  split_ifs at h
  · cases h
  · obtain ⟨w2, -, h⟩ := awaits_then h
    obtain ⟨kek, w3, hkek, h⟩ := Effect.bind_eq_ok.1 h
    obtain rfl := Option.some.inj ((Computes.deriveAesKey _).returns hkek).1
    obtain ⟨envelope, w4, hseal, h⟩ := Effect.bind_eq_ok.1 h
    cases h
    exact ⟨rfl, sealWithKey_ok hseal⟩

theorem exportSecret_ok {key : SessionSigner.SigningKey} {secret : Str}
    (h : exportSecret key w = .ok secret w') :
    ∃ sk, key.privateKey = some sk ∧ encodeSecret sk.seed = some secret := by
  cases hsk : key.privateKey with
  | none =>
    simp only [exportSecret, hsk] at h
    cases h
  | some sk =>
    simp only [exportSecret, hsk] at h
    split_ifs at h
    · obtain ⟨w1, -, h⟩ := awaits_then h
      exact ⟨sk, rfl, ((Computes.orThrow _ _).returns h).1⟩
    · cases h

theorem storePut_ok {record : Record Ct} {a b : α}
    (h : (storePut record >>= fun _ => pure a : Async Ct α) w = .ok b w') :
    w'.store = some record := by
  obtain ⟨_, w1, hput, h⟩ := Effect.bind_eq_ok.1 h
  obtain ⟨w2, -, hput⟩ := awaits_then hput
  cases hput
  cases h
  rfl

/-- What was loaded is the stored record, of the current version. -/
theorem loaded {record : Option (Record Ct)} {r : Record Ct}
    (h : loadRecord record w = .ok r w') : record = some r ∧ r.version = VERSION := by
  have := ((Computes.loadRecord record).returns h).1
  rw [Option.filter_eq_some_iff] at this
  exact ⟨this.1, of_decide_eq_true this.2⟩

/-- `enroll` leaves a record of the key and the passphrase. -/
theorem enroll_ok {key key' : SessionSigner.SigningKey} {passphrase : Str}
    (h : enroll C key passphrase w = .ok key' w') :
    ∃ sk record, key.privateKey = some sk ∧ w'.store = some record ∧
      record.Holds C prf ⟨sk.seed, some passphrase, none⟩ := by
  obtain ⟨secret, w1, hsecret, h⟩ := Effect.bind_eq_ok.1 h
  obtain ⟨⟨dek, dekKey⟩, w2, hdek, h⟩ := Effect.bind_eq_ok.1 h
  obtain ⟨ct, w3, hct, h⟩ := Effect.bind_eq_ok.1 h
  obtain ⟨wrap, w4, hwrap, h⟩ := Effect.bind_eq_ok.1 h
  obtain ⟨address, w5, -, h⟩ := Effect.bind_eq_ok.1 h
  obtain ⟨sk, hsk, hencode⟩ := exportSecret_ok hsecret
  have hsealed := sealWithKey_ok hct
  rw [show dekKey = C.importKey dek from newDek_ok hdek] at hsealed
  exact ⟨sk, _, hsk, storePut_ok h, dek, _, rfl, ⟨secret, hencode, hsealed⟩, rfl,
    by simp [Wraps.keys], .some (passphraseWrap_ok hwrap), .none⟩

/-- `addPasskey` wraps the data key that the passphrase unwraps. -/
theorem addPasskey_ok {passkey : Passkey} {passphrase : Option Str} {address : Str}
    (h : addPasskey C prf passkey passphrase w = .ok address w') :
    ∃ record dek wrap, w.store = some record ∧ record.dek C prf none passphrase = some dek ∧
      wrap.Wraps C prf dek passkey.mints ∧
      w'.store = some { record with
        wraps := record.wraps.map ({ · with passkey := some wrap }) } := by
  obtain ⟨stored, w1, hget, h⟩ := Effect.bind_eq_ok.1 h
  obtain ⟨record, w2, hload, h⟩ := Effect.bind_eq_ok.1 h
  obtain ⟨dek, w3, hdek, h⟩ := Effect.bind_eq_ok.1 h
  obtain ⟨wrap, w4, hwrap, h⟩ := Effect.bind_eq_ok.1 h
  have hstored := Option.some.inj (Computes.storeGet.returns hget).1
  exact ⟨record, dek, wrap, hstored.trans (loaded hload).1, ((computes_unwrapDek _ _ _).returns hdek).1,
    passkeyWrap_ok hwrap, storePut_ok h⟩

/-- `addPassphrase` wraps the data key that the passkey unwraps. -/
theorem addPassphrase_ok {passkey : Option Passkey} {passphrase : Str} {address : Str}
    (h : addPassphrase C prf passkey passphrase w = .ok address w') :
    ∃ record dek wrap, w.store = some record ∧ record.dek C prf passkey none = some dek ∧
      wrap.Wraps C dek passphrase ∧
      w'.store = some { record with
        wraps := record.wraps.map ({ · with passphrase := some wrap }) } := by
  obtain ⟨stored, w1, hget, h⟩ := Effect.bind_eq_ok.1 h
  obtain ⟨record, w2, hload, h⟩ := Effect.bind_eq_ok.1 h
  obtain ⟨dek, w3, hdek, h⟩ := Effect.bind_eq_ok.1 h
  obtain ⟨wrap, w4, hwrap, h⟩ := Effect.bind_eq_ok.1 h
  have hstored := Option.some.inj (Computes.storeGet.returns hget).1
  exact ⟨record, dek, wrap, hstored.trans (loaded hload).1, ((computes_unwrapDek _ _ _).returns hdek).1,
    passphraseWrap_ok hwrap, storePut_ok h⟩

/-- `removeMethod` deletes one wrap and leaves another. -/
theorem removeMethod_ok {name : String} {address : Str}
    (h : removeMethod name w = .ok address w') :
    ∃ record wraps, w.store = some record ∧ record.wraps = some wraps ∧
      wraps.keys.filter (· ≠ name) ≠ [] ∧
      w'.store = some { record with wraps := some (wraps.delete name) } := by
  obtain ⟨stored, w1, hget, h⟩ := Effect.bind_eq_ok.1 h
  obtain ⟨record, w2, hload, h⟩ := Effect.bind_eq_ok.1 h
  obtain ⟨wraps, w3, hwraps, h⟩ := Effect.bind_eq_ok.1 h
  have hstored := Option.some.inj (Computes.storeGet.returns hget).1
  split_ifs at h with hhas hlast
  · cases h
  · cases h
  · exact ⟨record, wraps, hstored.trans (loaded hload).1, ((Computes.orThrow _ _).returns hwraps).1,
      fun hnil => hlast (by rw [hnil]; rfl), storePut_ok h⟩

theorem Wraps.keys_delete (wraps : Wraps Ct) (name : String) :
    (wraps.delete name).keys = wraps.keys.filter (· ≠ name) := by
  unfold Wraps.keys Wraps.delete
  rw [List.filter_append]
  congr 1
  · by_cases hname : name = "passphrase" <;> cases wraps.passphrase <;> simp [hname, eq_comm]
  · by_cases hname : name = "passkey" <;> cases wraps.passkey <;> simp [hname, eq_comm]

end Holding

theorem Record.HoldsWith.withPasskey {C : Crypto Key Ct} {prf : Str → Bytes} {record : Record Ct}
    {secrets : Secrets} {dek : Bytes} {ws : Wraps Ct} (h : record.HoldsWith C prf secrets dek ws)
    {wrap : PasskeyWrap Ct} {credentialId : Str} (hwrap : wrap.Wraps C prf dek credentialId) :
    Record.Holds C prf
      { record with wraps := record.wraps.map ({ · with passkey := some wrap }) }
      { secrets with passkey := some credentialId } :=
  ⟨dek, { ws with passkey := some wrap }, h.version, h.ct, by simp [h.wraps],
    by simp [Wraps.keys], h.passphrase, .some hwrap⟩

theorem Record.HoldsWith.withPassphrase {C : Crypto Key Ct} {prf : Str → Bytes}
    {record : Record Ct} {secrets : Secrets} {dek : Bytes} {ws : Wraps Ct}
    (h : record.HoldsWith C prf secrets dek ws) {wrap : PassphraseWrap Ct} {passphrase : Str}
    (hwrap : wrap.Wraps C dek passphrase) :
    Record.Holds C prf
      { record with wraps := record.wraps.map ({ · with passphrase := some wrap }) }
      { secrets with passphrase := some passphrase } :=
  ⟨dek, { ws with passphrase := some wrap }, h.version, h.ct, by simp [h.wraps],
    by simp [Wraps.keys], .some hwrap, h.passkey⟩

theorem Record.HoldsWith.without {C : Crypto Key Ct} {prf : Str → Bytes} {record : Record Ct}
    {secrets : Secrets} {dek : Bytes} {ws : Wraps Ct} (h : record.HoldsWith C prf secrets dek ws)
    {name : String} (hrest : ws.keys.filter (· ≠ name) ≠ []) :
    Record.Holds C prf { record with wraps := some (ws.delete name) }
      { secrets with
        passphrase := if name = "passphrase" then none else secrets.passphrase
        passkey := if name = "passkey" then none else secrets.passkey } := by
  refine ⟨dek, ws.delete name, h.version, h.ct, rfl, by rwa [Wraps.keys_delete], ?_, ?_⟩
  · exact rel_erase h.passphrase
  · exact rel_erase h.passkey

/-- What an operation keeps: the stored record is one of the secrets last set. -/
theorem step_holds {C : Crypto Key Ct} {prf : Str → Bytes} {s : World Ct × Option Secrets} (op : Op)
    (h : Option.Rel (Record.Holds C prf) s.1.store s.2) :
    Option.Rel (Record.Holds C prf) (step C prf s op).1.store (step C prf s op).2 := by
  unfold step
  cases hr : perform C prf op s.1 with
  | error e w' =>
    show Option.Rel _ w'.store s.2
    rwa [fails_perform op s.1 e w' hr]
  | ok a w' =>
    show Option.Rel _ w'.store (op.sets s.2)
    cases op with
    | enroll key passphrase =>
      obtain ⟨_, w1, hop, hret⟩ := Effect.bind_eq_ok.1 hr
      cases hret
      obtain ⟨sk, record, hsk, hstore, hholds⟩ := enroll_ok hop
      rw [hstore, Op.sets, hsk]
      exact .some hholds
    | addPasskey passkey passphrase =>
      obtain ⟨_, w1, hop, hret⟩ := Effect.bind_eq_ok.1 hr
      cases hret
      obtain ⟨record, dek, wrap, hrecord, hdek, hwrap, hstore⟩ := addPasskey_ok hop
      obtain ⟨secrets, hsecrets, d, ws, hholds⟩ := rel_some h hrecord
      rw [hstore, Op.sets, hsecrets]
      exact .some (hholds.withPasskey (hholds.dek_eq hdek ▸ hwrap))
    | addPassphrase passkey passphrase =>
      obtain ⟨_, w1, hop, hret⟩ := Effect.bind_eq_ok.1 hr
      cases hret
      obtain ⟨record, dek, wrap, hrecord, hdek, hwrap, hstore⟩ := addPassphrase_ok hop
      obtain ⟨secrets, hsecrets, d, ws, hholds⟩ := rel_some h hrecord
      rw [hstore, Op.sets, hsecrets]
      exact .some (hholds.withPassphrase (hholds.dek_eq hdek ▸ hwrap))
    | removeMethod name =>
      obtain ⟨_, w1, hop, hret⟩ := Effect.bind_eq_ok.1 hr
      cases hret
      obtain ⟨record, wraps, hrecord, hwraps, hrest, hstore⟩ := removeMethod_ok hop
      obtain ⟨secrets, hsecrets, d, ws, hholds⟩ := rel_some h hrecord
      obtain rfl : ws = wraps := Option.some.inj (hholds.wraps.symm.trans hwraps)
      rw [hstore, Op.sets, hsecrets]
      exact .some (hholds.without hrest)

/-- After any operations, the stored record is one of the secrets last set. -/
theorem run_holds (C : Crypto Key Ct) (prf : Str → Bytes) (rejects : ℕ → Bool)
    (random : ℕ → Bytes) (ops : List Op) :
    Option.Rel (Record.Holds C prf) (run C prf rejects random ops).1.store
      (run C prf rejects random ops).2 :=
  List.foldlRecOn ops (step C prf) (motive := fun s => Option.Rel (Record.Holds C prf) s.1.store s.2)
    .none fun _ hs op _ => step_holds op hs

/-! ## Who opens the record -/

/-- A stored record can be opened: it has a wrap, and each of its wraps opens to the key
enrolled with a secret that derives the same key as the one last set, and with no other. -/
structure Openable (C : Crypto Key Ct) (W : Platform) (prf : Str → Bytes) (w : World Ct)
    (wraps : Wraps Ct) (secrets : Secrets) : Prop where
  keys : wraps.keys ≠ []
  passphrase : ∀ wrap, wraps.passphrase = some wrap → ∃ p, secrets.passphrase = some p ∧
    ∀ prf' passkey q key, unlocked C W prf' w passkey (some q) = some key ↔
      key = .fromSecret W secrets.seed ∧
        C.passphraseKey q wrap.salt wrap.iterations = C.passphraseKey p wrap.salt wrap.iterations
  passkey : ∀ wrap, wraps.passkey = some wrap → ∃ credentialId,
    secrets.passkey = some credentialId ∧
      ∀ prf' passkey key, unlocked C W prf' w (some passkey) none = some key ↔
        key = .fromSecret W secrets.seed ∧ C.hkdf (prf' credentialId) = C.hkdf (prf credentialId)

theorem Record.HoldsWith.openable {C : Crypto Key Ct} {W : Platform} {prf : Str → Bytes}
    {w : World Ct} {record : Record Ct} {secrets : Secrets} {dek : Bytes} {ws : Wraps Ct}
    (h : record.HoldsWith C prf secrets dek ws) (hw : w.store = some record) :
    Openable C W prf w ws secrets := by
  have hunlocked : ∀ prf' passkey passphrase, unlocked C W prf' w passkey passphrase =
      (record.dek C prf' passkey passphrase).map fun _ => .fromSecret W secrets.seed := by
    intro prf' passkey passphrase
    rw [unlocked_eq, hw, Option.filter_some, if_pos (decide_eq_true h.version), Option.bind_some,
      h.key_eq]
  refine ⟨h.keys, fun wrap hwrap => ?_, fun wrap hwrap => ?_⟩
  · obtain ⟨p, hp, hct⟩ := rel_some h.passphrase hwrap
    refine ⟨p, hp, fun prf' passkey q key => ?_⟩
    have hdek : record.dek C prf' passkey (some q) =
        C.decrypt (C.passphraseKey q wrap.salt wrap.iterations) wrap.iv wrap.ciphertext := by
      simp [Record.dek, h.wraps, hwrap]
    rw [hunlocked, hdek, hct]
    constructor
    · intro hkey
      obtain ⟨d, hd, rfl⟩ := Option.map_eq_some_iff.1 hkey
      exact ⟨rfl, (Crypto.decrypt_eq_some.1 hd).1.symm⟩
    · rintro ⟨rfl, hsame⟩
      rw [hsame, C.decrypt_encrypt, Option.map_some]
  · obtain ⟨credentialId, hcred, hid, hct⟩ := rel_some h.passkey hwrap
    refine ⟨credentialId, hcred, fun prf' passkey key => ?_⟩
    have hdek : record.dek C prf' (some passkey) none =
        C.decrypt (C.hkdf (prf' credentialId)) wrap.iv wrap.ciphertext := by
      simp [Record.dek, h.wraps, hwrap, hid]
    rw [hunlocked, hdek, hct]
    constructor
    · intro hkey
      obtain ⟨d, hd, rfl⟩ := Option.map_eq_some_iff.1 hkey
      exact ⟨rfl, (Crypto.decrypt_eq_some.1 hd).1.symm⟩
    · rintro ⟨rfl, hsame⟩
      rw [hsame, C.decrypt_encrypt, Option.map_some]

/-- **After any operations, failing or not, the stored record can be opened**, and an
operation that fails then leaves it as it is. -/
theorem keyring_opens (C : Crypto Key Ct) (W : Platform) (prf : Str → Bytes) (rejects : ℕ → Bool)
    (random : ℕ → Bytes) (ops : List Op) :
    (∀ record, (run C prf rejects random ops).1.store = some record →
      ∃ wraps secrets, record.wraps = some wraps ∧
        (run C prf rejects random ops).2 = some secrets ∧
        Openable C W prf (run C prf rejects random ops).1 wraps secrets) ∧
    ∀ op e w', perform C prf op (run C prf rejects random ops).1 = .error e w' →
      w'.store = (run C prf rejects random ops).1.store := by
  refine ⟨fun record hrecord => ?_, fun op e w' h => fails_perform op _ e w' h⟩
  obtain ⟨secrets, hsecrets, dek, ws, hholds⟩ :=
    rel_some (run_holds C prf rejects random ops) hrecord
  exact ⟨ws, secrets, hholds.wraps, hsecrets, hholds.openable hrecord⟩

namespace Tab

/-- A key of the cipher, by how it was made. -/
inductive AesKey where
  | raw (bytes : Bytes)
  | pbkdf2 (block salt : Bytes) (iterations : ℕ)
  | hkdf (prfOutput : Bytes)
  deriving DecidableEq

/-- A cipher whose ciphertexts are their key, their nonce and their plaintext. -/
def crypto : Crypto AesKey (AesKey × Bytes × Bytes) where
  encrypt key iv m := (key, iv, m)
  decrypt key iv ct := if ct.1 = key ∧ ct.2.1 = iv then some ct.2.2 else none
  decrypt_encrypt _ _ _ := if_pos ⟨rfl, rfl⟩
  decrypt_other _ _ h := if_neg fun hk => h hk.1
  importKey := .raw
  sha256 bytes := bytes.take 32
  pbkdf2 := .pbkdf2
  hkdf := .hkdf

/-- A key enrolled with the passphrase `pw`. -/
def enrolled : World (AesKey × Bytes × Bytes) :=
  (run crypto utf8Encode (fun _ => false) (fun n => [UInt8.ofNat n])
    [.enroll (.fromSecret SessionSigner.Tab.platform SessionSigner.Tab.seed) ['p', 'w']]).1

end Tab

open Tab

/-- HMAC pads its key with zeros: the passphrase with a NUL at its end opens the record. -/
theorem opens_with_nul :
    ['p', 'w', Char.ofNat 0] ≠ ['p', 'w'] ∧
      unlocked crypto SessionSigner.Tab.platform utf8Encode enrolled none
          (some ['p', 'w', Char.ofNat 0]) =
        some (.fromSecret SessionSigner.Tab.platform SessionSigner.Tab.seed) := by
  refine ⟨by decide, ?_⟩
  decide +kernel

end Keyring

end GumptionChain
