import GumptionChain.Codec.Spelling
import GumptionChain.Lib.Interleaving
import GumptionChain.Sdk

/-!
# The session signer of the browser

`clients/sdk/gc-session-signer.mjs`: the key a document holds in memory beside the handle
in the session store, and the operations on them, each an asynchronous function.  A store
request has a turn of its own between its call and the turn that goes on with its answer.

`keyring.unlock`, the passkey, WebCrypto and the durable store are answered by the world:
none of them touches the session.

* `call`, `resume` — every operation from one `await` to the next;
* `LockWins` — from here on nobody is signed in until somebody signs in;
* `Settled` — nothing is held, and nothing under way is about to write a key:
  `lockWins_iff_settled`, the two are one;
* `Undisturbed` — what goes on from the call of a `lock()` to its completion undoes none of
  it;
* `lock_wins_iff` — so a `lock()` that completes wins just when it was undisturbed.
-/

namespace GumptionChain

open Interleaving

namespace SessionSigner

/-! ## Keys -/

/-- What the signer uses of WebCrypto, and whether its `passkey` has a `discover`. -/
structure Platform where
  publicKey : Bytes → Bytes
  publicKey_length : ∀ seed, (publicKey seed).length = 32
  deriveSeed : Bytes → Bytes
  canDiscover : Bool

/-- A private `CryptoKey`. -/
structure PrivateKey where
  seed : Bytes
  extractable : Bool
  deriving DecidableEq

/-- `SigningKey`. -/
structure SigningKey where
  privateKey : Option PrivateKey
  publicKey : Bytes
  deriving DecidableEq

/-- What the session store keeps. -/
structure SignOnlyHandle where
  address : Str
  privateKey : PrivateKey
  publicKey : Bytes
  deriving DecidableEq

variable (W : Platform)

/-- `fromSecret`, of a secret that decodes to `seed`. -/
def SigningKey.fromSecret (seed : Bytes) : SigningKey := ⟨some ⟨seed, true⟩, W.publicKey seed⟩

/-- `address`. -/
def SigningKey.address (key : SigningKey) : Option Str := encodeAddress key.publicKey

/-- `toSignOnlyHandle`: an extractable key is imported again from its seed. -/
def SigningKey.toSignOnlyHandle (key : SigningKey) : Option SignOnlyHandle :=
  match key.privateKey with
  | none => none
  | some sk => key.address.map fun address =>
    if sk.extractable then ⟨address, ⟨sk.seed, false⟩, W.publicKey sk.seed⟩
    else ⟨address, sk, key.publicKey⟩

/-- `fromSignOnlyHandle`. -/
def SignOnlyHandle.key (handle : SignOnlyHandle) : SigningKey :=
  ⟨some handle.privateKey, handle.publicKey⟩

/-- `deriveSigningKey`. -/
def deriveSigningKey (prfOutput : Bytes) : Option SigningKey :=
  if prfOutput = [] then none else some (.fromSecret W (W.deriveSeed prfOutput))

/-- What `passkey.discover` finds. -/
structure Found where
  prfOutput : Bytes
  userHandle : Option Str
  deriving DecidableEq

/-- The verdicts of `recognize`. -/
inductive Verdict where
  | none
  | wrap
  | derived
  deriving DecidableEq

/-- `classifyRecognition`. -/
def classifyRecognition (userHandle : Option Str) (derivedAddress : Str) : Verdict :=
  match userHandle with
  | .none => .derived
  | .some u => if decodeAddress u ≠ .none ∧ u ≠ derivedAddress then .wrap else .derived

/-! ## Operations -/

/-- What is signed. -/
inductive Signing where
  | login (challenge : Str)
  | transaction (unsigned : Json)

/-- The operations. -/
inductive Op where
  | status
  | signingKey
  | signLogin (challenge : Str)
  | signTransaction (unsigned : Json)
  | adopt (key : SigningKey)
  | unlock
  | recognize
  | createDerived
  | lock
  /-- `broadcast.onmessage`, of a `lock` in another document. -/
  | message

/-- The operations that sign somebody in. -/
def Op.SignsIn : Op → Prop
  | .adopt _ => True
  | .unlock => True
  | .recognize => True
  | .createDerived => True
  | _ => False

/-- Why an operation rejects: `NoSigningKeyError`, or what it awaited rejected or threw. -/
inductive Rejection where
  | noSigningKey (message : String)
  | thrown
  deriving DecidableEq

/-- Who awaits `held()`. -/
inductive Holder where
  | status
  | signingKey
  | sign (what : Signing)

/-- The operations that ask `held` for the key. -/
def Op.holder : Op → Option Holder
  | .status => some .status
  | .signingKey => some .signingKey
  | .signLogin challenge => some (.sign (.login challenge))
  | .signTransaction unsigned => some (.sign (.transaction unsigned))
  | _ => none

/-- How an operation ends. -/
inductive Outcome where
  | status (signedIn : Bool) (address : Option Str)
  | key (key : Option SigningKey)
  | signed (key : SigningKey) (what : Signing)
  | adopted (address : Str)
  | recognized (verdict : Verdict) (address : Option Str)
  | created (address mnemonic : Str)
  | locked
  | cleared
  | rejected (reason : Rejection)

/-- Who awaits `adopt()`, with what it returns itself. -/
inductive Adopter where
  | adopt
  | unlock
  | recognize (derivedAddress : Str)
  | createDerived (address mnemonic : Str)

/-- Where an operation waits. -/
inductive Point where
  /-- `held`: the store has yet to read its record. -/
  | storeGet (who : Holder)
  /-- `held`: the store has read it. -/
  | storeGot (rec : Option SignOnlyHandle) (who : Holder)
  /-- `held` has returned. -/
  | held (key : Option SigningKey) (who : Holder)
  /-- `status`: `k.address()`. -/
  | address (key : SigningKey)
  /-- `signMessage` or `signUnsignedTxn`. -/
  | signing (key : SigningKey) (what : Signing)
  /-- `adopt`: `key.toSignOnlyHandle()`. -/
  | toHandle (key : SigningKey) (who : Adopter)
  /-- `adopt`: the store has yet to write the handle. -/
  | storePut (handle : SignOnlyHandle) (who : Adopter)
  /-- `adopt`: the store has written it. -/
  | storePutDone (handle : SignOnlyHandle) (who : Adopter)
  /-- `adopt` has returned. -/
  | adopted (address : Str) (who : Adopter)
  /-- `unlock`: `keyring.unlock`. -/
  | keyring
  /-- `recognize`: `passkey.discover()`. -/
  | discover
  /-- `recognize`: `deriveSigningKey`. -/
  | derive (found : Found)
  /-- `recognize`: `sk.address()`. -/
  | derivedAddress (found : Found) (sk : SigningKey)
  /-- `durableStore.put`. -/
  | durablePut (sk : SigningKey) (who : Adopter)
  /-- `createDerived`: `derived.enroll`. -/
  | enroll
  /-- `lock`: the store has yet to delete its record. -/
  | storeDelete
  /-- `lock`: the store has deleted it. -/
  | storeDeleted

/-- What the world answers: that an awaited promise resolves, and with what, or rejects.
A function that does not wait may throw: a callback of `lock`. -/
inductive Answer where
  | resolves
  | rejects
  | unlocked (seed : Bytes)
  | found (found : Option Found)
  | enrolled (prfOutput : Bytes) (mnemonic : Str)

/-- What a document holds: the key in memory, and the record of the session store. -/
structure State where
  cached : Option SigningKey
  store : Option SignOnlyHandle
  deriving DecidableEq

/-- An operation at its next wait, or at its end. -/
abbrev Turn : Type := State × (Point ⊕ Outcome)

/-- The promise rejects, or a function throws. -/
def State.throws (s : State) : Turn := (s, .inr (.rejected .thrown))

/-- The first turn of `held`. -/
def State.held (s : State) (who : Holder) : Turn :=
  match s.cached with
  | some key => (s, .inl (.held (some key) who))
  | none => (s, .inl (.storeGet who))

/-- The first turn of an operation. -/
def call (op : Op) (s : State) (a : Answer) : Turn :=
  match op with
  | .status => s.held .status
  | .signingKey => s.held .signingKey
  | .signLogin challenge => s.held (.sign (.login challenge))
  | .signTransaction unsigned => s.held (.sign (.transaction unsigned))
  | .adopt key => (s, .inl (.toHandle key .adopt))
  | .unlock => (s, .inl .keyring)
  | .recognize =>
    if W.canDiscover then (s, .inl .discover) else (s, .inr (.recognized .none none))
  | .createDerived => (s, .inl .enroll)
  | .lock =>
    -- `clearLocal`: the callbacks run after the key is dropped, and one may throw
    let s := { s with cached := none }
    match a with
    | .rejects => s.throws
    | _ => (s, .inl .storeDelete)
  | .message => ({ s with cached := none }, .inr .cleared)

/-- What follows `await held()`. -/
def Holder.goOn (who : Holder) (key : Option SigningKey) : Point ⊕ Outcome :=
  match who, key with
  | .status, some key => .inl (.address key)
  | .status, none => .inr (.status false none)
  | .signingKey, key => .inr (.key key)
  | .sign what, some key => .inl (.signing key what)
  | .sign _, none => .inr (.rejected (.noSigningKey "locked: no session signer"))

/-- What follows `await adopt()`. -/
def Adopter.goOn (who : Adopter) (address : Str) : Outcome :=
  match who with
  | .adopt => .adopted address
  | .unlock => .adopted address
  | .recognize derivedAddress => .recognized .derived (some derivedAddress)
  | .createDerived address mnemonic => .created address mnemonic

/-- A turn of an operation that waits, from where it waits to its next wait. -/
def resume (w : Point) (s : State) (a : Answer) : Turn :=
  match w, a with
  | .storeGet _, .rejects => s.throws
  | .storeGet who, _ => (s, .inl (.storeGot s.store who))
  | .storeGot none who, _ => (s, .inl (.held none who))
  | .storeGot (some rec) who, _ =>
    ({ s with cached := some rec.key }, .inl (.held (some rec.key) who))
  | .held key who, _ => (s, who.goOn key)
  | .address _, .rejects => s.throws
  | .address key, _ => (s, .inr (.status true key.address))
  | .signing _ _, .rejects => s.throws
  | .signing key what, _ => (s, .inr (.signed key what))
  | .toHandle _ _, .rejects => s.throws
  | .toHandle key who, _ =>
    match key.toSignOnlyHandle W with
    | none => s.throws
    | some handle => (s, .inl (.storePut handle who))
  | .storePut _ _, .rejects => s.throws
  | .storePut handle who, _ => ({ s with store := some handle }, .inl (.storePutDone handle who))
  | .storePutDone handle who, _ =>
    ({ s with cached := some handle.key }, .inl (.adopted handle.address who))
  | .adopted address who, _ => (s, .inr (who.goOn address))
  | .keyring, .unlocked seed => (s, .inl (.toHandle (.fromSecret W seed) .unlock))
  | .keyring, _ => s.throws
  | .discover, .found (some found) => (s, .inl (.derive found))
  | .discover, _ => (s, .inr (.recognized .none none))
  | .derive _, .rejects => s.throws
  | .derive found, _ =>
    match deriveSigningKey W found.prfOutput with
    | none => s.throws
    | some sk => (s, .inl (.derivedAddress found sk))
  | .derivedAddress _ _, .rejects => s.throws
  | .derivedAddress found sk, _ =>
    match sk.address with
    | none => s.throws
    | some address =>
      if classifyRecognition found.userHandle address = .wrap then
        (s, .inr (.recognized .wrap found.userHandle))
      else (s, .inl (.durablePut sk (.recognize address)))
  | .durablePut _ _, .rejects => s.throws
  | .durablePut sk who, _ => (s, .inl (.toHandle sk who))
  | .enroll, .enrolled prfOutput mnemonic =>
    match deriveSigningKey W prfOutput with
    | none => s.throws
    | some sk =>
      match sk.address with
      | none => s.throws
      | some address => (s, .inl (.durablePut sk (.createDerived address mnemonic)))
  | .enroll, _ => s.throws
  | .storeDelete, .rejects => s.throws
  | .storeDelete, _ => ({ s with store := none }, .inl .storeDeleted)
  -- `broadcast.postMessage` throws on a closed channel
  | .storeDeleted, .rejects => s.throws
  | .storeDeleted, _ => (s, .inr .locked)

/-- The signer of a document, its operations interleaved at their awaits. -/
def signer : System Op Point Outcome State Answer := ⟨call W, resume W⟩

/-- A signer with the operations called so far. -/
abbrev Document : Type := Pool Op Point Outcome State

/-- A document that opens on a session store. -/
def fresh (store : Option SignOnlyHandle) : Document := ⟨⟨none, store⟩, []⟩

/-! ## The law -/

/-- What an operation called while nobody is signed in reports. -/
def Op.SignedOut (op : Op) (out : Outcome) : Prop :=
  match op with
  | .status => out = .status false none ∨ ∃ r, out = .rejected r
  | .signingKey => out = .key none ∨ ∃ r, out = .rejected r
  | .signLogin _ => ∃ r, out = .rejected r
  | .signTransaction _ => ∃ r, out = .rejected r
  | _ => True

/-- Whatever happens from here on, short of a new call that signs somebody in, no key is
cached again, and the operations called from here on report that nobody is signed in. -/
def LockWins (d : Document) : Prop :=
  ∀ es : List (Event Op Answer), (∀ e ∈ es, e.CallsOnly fun op => ¬ op.SignsIn) →
    ((signer W).run d es).state.cached = none ∧
    ∀ i op out, d.tasks.length ≤ i →
      ((signer W).run d es).tasks[i]? = some (op, .inr out) → op.SignedOut out

/-- A `lock()` that is called in the document `d` completes with the turn `e`, after the
turns `es`. -/
def LockCompletes (d : Document) (a : Answer) (es : List (Event Op Answer))
    (e : Event Op Answer) : Prop :=
  ∃ w a', ((signer W).run d (.call .lock a :: es)).tasks[d.tasks.length]? = some (.lock, .inl w) ∧
    e = .resume d.tasks.length a' ∧
    ((signer W).run d (.call .lock a :: es ++ [e])).tasks[d.tasks.length]?
      = some (.lock, .inr .locked)

/-- A key that `adopt` can take. -/
def SigningKey.Adoptable (key : SigningKey) : Prop := (key.toSignOnlyHandle W).isSome

/-- `recognize` adopts the key it derived. -/
def Found.Adopts (found : Found) (sk : SigningKey) : Prop :=
  sk.Adoptable W ∧ ∃ address, sk.address = some address ∧
    classifyRecognition found.userHandle address ≠ .wrap

/-- An operation that waits here may go on to put a key into the cache or the store: it is
one that signs somebody in and has not failed, or `held` with the record in its hand. -/
def Point.WillWrite : Point → Prop
  | .storeGot (some _) _ => True
  | .toHandle key _ => key.Adoptable W
  | .storePut _ _ => True
  | .storePutDone _ _ => True
  | .keyring => True
  | .discover => True
  | .derive found => ∃ sk, deriveSigningKey W found.prfOutput = some sk ∧ found.Adopts W sk
  | .derivedAddress found sk => found.Adopts W sk
  | .durablePut sk _ => sk.Adoptable W
  | .enroll => True
  | _ => False

/-- An operation that goes on from where it waits, in a turn with a property. -/
def Resumes (turn : Point → Answer → Prop) (d : Document) : Event Op Answer → Prop
  | .call _ _ => False
  | .resume i a => ∃ op w, d.tasks[i]? = some (op, .inl w) ∧ turn w a

/-- `held` has the record, or `adopt` has written the handle: the key goes into the cache. -/
def CachesKey : Document → Event Op Answer → Prop :=
  Resumes fun w _ =>
    (∃ rec who, w = .storeGot (some rec) who) ∨ ∃ handle who, w = .storePutDone handle who

/-- `clearLocal` drops the key from the cache. -/
def DropsKey (_ : Document) : Event Op Answer → Prop
  | .call op _ => op = .lock ∨ op = .message
  | .resume _ _ => False

/-- `store.put` takes effect. -/
def PutsHandle : Document → Event Op Answer → Prop :=
  Resumes fun w a => (∃ handle who, w = .storePut handle who) ∧ a ≠ .rejects

/-- `store.delete` takes effect. -/
def DeletesHandle : Document → Event Op Answer → Prop :=
  Resumes fun w a => w = .storeDelete ∧ a ≠ .rejects

/-- What goes on while a `lock()` is under way leaves it its effect: no key that is cached
in these turns stays, no handle that is put stays, and at their end no operation waits
where it will write one. -/
structure Undisturbed (d : Document) (es : List (Event Op Answer)) : Prop where
  cache : ¬ (signer W).Survives CachesKey DropsKey d es
  store : ¬ (signer W).Survives PutsHandle DeletesHandle d es
  waiting : ∀ (i : ℕ) (op : Op) (w : Point),
    ((signer W).run d es).tasks[i]? = some (op, .inl w) → ¬ w.WillWrite W

/-- Neither the cache nor the store has a key, and nothing under way will write one. -/
def Settled (d : Document) : Prop :=
  d.state = ⟨none, none⟩ ∧
    ∀ (i : ℕ) (op : Op) (w : Point), d.tasks[i]? = some (op, .inl w) → ¬ w.WillWrite W

/-! ## A settled document stays settled -/

variable {W}

/-- An operation that is over, or waits where it will write no key. -/
def Quiet (W : Platform) (t : Point ⊕ Outcome) : Prop :=
  ∀ w : Point, t = .inl w → ¬ w.WillWrite W

theorem quiet_inl {w : Point} : Quiet W (.inl w) ↔ ¬ w.WillWrite W :=
  ⟨fun h => h w rfl, fun h _ hw => Sum.inl.inj hw ▸ h⟩

@[simp] theorem quiet_inr (out : Outcome) : Quiet W (.inr out) := fun _ hw => nomatch hw

theorem Holder.goOn_quiet (who : Holder) (key : Option SigningKey) : Quiet W (who.goOn key) := by
  cases who <;> cases key <;> first | exact quiet_inr _ | exact quiet_inl.2 id

/-! Where a turn makes or opens a key, it goes on unless that fails. -/

theorem Answer.resolves_ne_rejects : Answer.resolves ≠ .rejects := nofun

theorem resume_toHandle {key : SigningKey} {who : Adopter} {s : State} {a : Answer}
    (ha : a ≠ .rejects) : resume W (.toHandle key who) s a =
      match key.toSignOnlyHandle W with
      | none => s.throws
      | some handle => (s, .inl (.storePut handle who)) := by
  cases a <;> first | rfl | exact absurd rfl ha

theorem resume_derive {found : Found} {s : State} {a : Answer} (ha : a ≠ .rejects) :
    resume W (.derive found) s a =
      match deriveSigningKey W found.prfOutput with
      | none => s.throws
      | some sk => (s, .inl (.derivedAddress found sk)) := by
  cases a <;> first | rfl | exact absurd rfl ha

theorem resume_derivedAddress {found : Found} {sk : SigningKey} {s : State} {a : Answer}
    (ha : a ≠ .rejects) : resume W (.derivedAddress found sk) s a =
      match sk.address with
      | none => s.throws
      | some address =>
        if classifyRecognition found.userHandle address = .wrap then
          (s, .inr (.recognized .wrap found.userHandle))
        else (s, .inl (.durablePut sk (.recognize address))) := by
  cases a <;> first | rfl | exact absurd rfl ha

theorem resume_enroll {prfOutput : Bytes} {mnemonic : Str} {s : State} :
    resume W .enroll s (.enrolled prfOutput mnemonic) =
      match deriveSigningKey W prfOutput with
      | none => s.throws
      | some sk =>
        match sk.address with
        | none => s.throws
        | some address => (s, .inl (.durablePut sk (.createDerived address mnemonic))) :=
  rfl

/-- An operation that will write no key leaves the empty session empty, and goes on to
wait where it will write none. -/
theorem resume_quiet {w : Point} (h : ¬ w.WillWrite W) (a : Answer) :
    (resume W w ⟨none, none⟩ a).1 = ⟨none, none⟩ ∧ Quiet W (resume W w ⟨none, none⟩ a).2 := by
  cases w with
  | storeGet who => cases a <;> first | exact ⟨rfl, quiet_inr _⟩ | exact ⟨rfl, quiet_inl.2 id⟩
  | storeGot rec who =>
    cases rec with
    | none => exact ⟨rfl, quiet_inl.2 id⟩
    | some rec => exact absurd trivial h
  | held key who => exact ⟨rfl, who.goOn_quiet key⟩
  | address key => cases a <;> exact ⟨rfl, quiet_inr _⟩
  | signing key what => cases a <;> exact ⟨rfl, quiet_inr _⟩
  | toHandle key who =>
    have hnone : key.toSignOnlyHandle W = none := Option.not_isSome_iff_eq_none.1 h
    by_cases ha : a = .rejects
    · subst ha
      exact ⟨rfl, quiet_inr _⟩
    · rw [resume_toHandle ha, hnone]
      exact ⟨rfl, quiet_inr _⟩
  | storePut handle who => exact absurd trivial h
  | storePutDone handle who => exact absurd trivial h
  | adopted address who => exact ⟨rfl, quiet_inr _⟩
  | keyring => exact absurd trivial h
  | discover => exact absurd trivial h
  | derive found =>
    by_cases ha : a = .rejects
    · subst ha
      exact ⟨rfl, quiet_inr _⟩
    rw [resume_derive ha]
    cases hsk : deriveSigningKey W found.prfOutput with
    | none => exact ⟨rfl, quiet_inr _⟩
    | some sk => exact ⟨rfl, quiet_inl.2 fun hadopts => h ⟨sk, hsk, hadopts⟩⟩
  | derivedAddress found sk =>
    by_cases ha : a = .rejects
    · subst ha
      exact ⟨rfl, quiet_inr _⟩
    rw [resume_derivedAddress ha]
    cases haddr : sk.address with
    | none => exact ⟨rfl, quiet_inr _⟩
    | some address =>
      by_cases hwrap : classifyRecognition found.userHandle address = .wrap
      · simp [hwrap]
      · simp only [if_neg hwrap]
        exact ⟨trivial, quiet_inl.2 fun hadopt => h ⟨hadopt, address, haddr, hwrap⟩⟩
  | durablePut sk who => cases a <;> first | exact ⟨rfl, quiet_inr _⟩ | exact ⟨rfl, quiet_inl.2 h⟩
  | enroll => exact absurd trivial h
  | storeDelete => cases a <;> first | exact ⟨rfl, quiet_inr _⟩ | exact ⟨rfl, quiet_inl.2 id⟩
  | storeDeleted => cases a <;> exact ⟨rfl, quiet_inr _⟩

/-- An operation called while nobody is signed in: it has no key in its hand, and it ends
as one that nobody is signed in for. -/
def Keyless (op : Op) : Point ⊕ Outcome → Prop
  | .inl (.storeGet who) => op.holder = some who
  | .inl (.storeGot none who) => op.holder = some who
  | .inl (.held none who) => op.holder = some who
  | .inl .storeDelete => op = .lock
  | .inl .storeDeleted => op = .lock
  | .inl _ => False
  | .inr out => op.SignedOut out

/-- Where an operation called in an empty session first waits. -/
theorem call_keyless {op : Op} (hop : ¬ op.SignsIn) (a : Answer) :
    (call W op ⟨none, none⟩ a).1 = ⟨none, none⟩ ∧ Keyless op (call W op ⟨none, none⟩ a).2 := by
  cases op with
  | status => exact ⟨rfl, rfl⟩
  | signingKey => exact ⟨rfl, rfl⟩
  | signLogin challenge => exact ⟨rfl, rfl⟩
  | signTransaction unsigned => exact ⟨rfl, rfl⟩
  | adopt key => exact absurd trivial hop
  | unlock => exact absurd trivial hop
  | recognize => exact absurd trivial hop
  | createDerived => exact absurd trivial hop
  | lock => cases a <;> first | exact ⟨rfl, rfl⟩ | exact ⟨rfl, trivial⟩
  | message => exact ⟨rfl, trivial⟩

theorem keyless_rejected {op : Op} {who : Holder} (h : op.holder = some who) (r : Rejection) :
    op.SignedOut (.rejected r) := by
  cases op <;> first | exact ⟨r, rfl⟩ | exact .inr ⟨r, rfl⟩ | trivial

theorem goOn_keyless {op : Op} {who : Holder} (h : op.holder = some who) :
    Keyless op (who.goOn none) := by
  cases op <;> cases h <;> first | exact .inl rfl | exact ⟨_, rfl⟩

/-- A keyless operation stays keyless while the session is empty. -/
theorem resume_keyless {op : Op} {w : Point} (h : Keyless op (.inl w)) (a : Answer) :
    Keyless op (resume W w ⟨none, none⟩ a).2 := by
  match w, h with
  | .storeGet who, h => cases a <;> first | exact h | exact keyless_rejected h _
  | .storeGot none who, h => exact h
  | .held none who, h => exact goOn_keyless h
  | .storeDelete, h => subst h; cases a <;> first | exact rfl | exact trivial
  | .storeDeleted, h => subst h; cases a <;> exact trivial

theorem Keyless.quiet {op : Op} {t : Point ⊕ Outcome} (h : Keyless op t) : Quiet W t := by
  match t, h with
  | .inl (.storeGet _), _ => exact quiet_inl.2 id
  | .inl (.storeGot none _), _ => exact quiet_inl.2 id
  | .inl (.held none _), _ => exact quiet_inl.2 id
  | .inl .storeDelete, _ => exact quiet_inl.2 id
  | .inl .storeDeleted, _ => exact quiet_inl.2 id
  | .inr _, _ => exact quiet_inr _

/-- In a settled document the lock holds. -/
theorem Settled.lockWins {d : Document} (h : Settled W d) : LockWins W d := by
  intro es hes
  -- an operation under way writes no key, and one called from here on has none
  obtain ⟨hempty, htasks⟩ := (signer W).run_keeps (P := (· = ⟨none, none⟩))
    (Q := fun i op t => Quiet W t ∧ (d.tasks.length ≤ i → Keyless op t)) (n := d.tasks.length)
    (fun i op s a _ hop hs => by
      subst hs
      obtain ⟨hs, hkey⟩ := call_keyless hop a
      exact ⟨hs, hkey.quiet, fun _ => hkey⟩)
    (fun i op w s a hs hw => by
      subst hs
      obtain ⟨hs, hquiet⟩ := resume_quiet (quiet_inl.1 hw.1) a
      exact ⟨hs, hquiet, fun hi => resume_keyless (hw.2 hi) a⟩)
    hes le_rfl h.1 fun i op t ht => ⟨fun w hw => h.2 i op w (hw ▸ ht), fun hi => by
      rw [List.getElem?_eq_none hi] at ht
      cases ht⟩
  refine ⟨by rw [hempty], fun i op out hi ht => (htasks i op _ ht).2 hi⟩

/-- The turns that an operation takes from here on, at most. -/
def Point.turns : Point → ℕ
  | .storeGet _ => 4
  | .storeGot _ _ => 3
  | .held _ _ => 2
  | .address _ => 1
  | .signing _ _ => 1
  | .toHandle _ _ => 4
  | .storePut _ _ => 3
  | .storePutDone _ _ => 2
  | .adopted _ _ => 1
  | .keyring => 5
  | .discover => 8
  | .derive _ => 7
  | .derivedAddress _ _ => 6
  | .durablePut _ _ => 5
  | .enroll => 6
  | .storeDelete => 2
  | .storeDeleted => 1

theorem goOn_turns {who : Holder} {key : Option SigningKey} {w : Point}
    (h : who.goOn key = .inl w) : w.turns = 1 := by
  cases who <;> cases key <;> simp [Holder.goOn] at h <;> subst h <;> rfl

theorem resume_turns {w w' : Point} {s : State} {a : Answer}
    (h : (resume W w s a).2 = .inl w') : w'.turns < w.turns := by
  cases w with
  | held key who => rw [goOn_turns h]; simp [Point.turns]
  | storeGot rec who =>
    cases rec <;> cases Sum.inl.inj h <;> simp [Point.turns]
  | toHandle key who =>
    by_cases ha : a = .rejects
    · cases ha ▸ h
    rw [resume_toHandle ha] at h
    cases hhandle : key.toSignOnlyHandle W <;> rw [hhandle] at h <;> cases h
    simp [Point.turns]
  | derive found =>
    by_cases ha : a = .rejects
    · cases ha ▸ h
    rw [resume_derive ha] at h
    cases hsk : deriveSigningKey W found.prfOutput <;> rw [hsk] at h <;> cases h
    simp [Point.turns]
  | derivedAddress found sk =>
    by_cases ha : a = .rejects
    · cases ha ▸ h
    rw [resume_derivedAddress ha] at h
    cases haddr : sk.address with
    | none => rw [haddr] at h; cases h
    | some address =>
      rw [haddr] at h
      by_cases hwrap : classifyRecognition found.userHandle address = .wrap
      · simp only [hwrap, if_true] at h
        cases h
      · simp only [hwrap, if_false] at h
        cases h
        simp [Point.turns]
  | enroll =>
    cases a with
    | enrolled prfOutput mnemonic =>
      rw [resume_enroll] at h
      cases hsk : deriveSigningKey W prfOutput with
      | none => rw [hsk] at h; cases h
      | some sk =>
        rw [hsk] at h
        cases haddr : sk.address <;> simp only [haddr] at h <;> cases h
        simp [Point.turns]
    | _ => cases h
  | discover =>
    cases a with
    | found found => cases found <;> cases h; simp [Point.turns]
    | _ => cases h
  | _ => cases a <;> cases h <;> simp [Point.turns]

/-- An operation that is let go on comes to its end, however its waits are answered. -/
theorem alone_ends {s : State} {w : Point} {as : List Answer} (h : w.turns ≤ as.length) :
    ∃ out, ((signer W).alone s (.inl w) as).2 = .inr out :=
  (signer W).alone_ends Point.turns (fun _ _ _ _ h => resume_turns h) h
    fun w => by cases w <;> simp [Point.turns]

/-! ## A document that is not settled -/

theorem fromSecret_address (seed : Bytes) :
    ∃ address, (SigningKey.fromSecret W seed).address = some address :=
  Option.isSome_iff_exists.1 (encodeAddress_isSome (W.publicKey_length seed))

theorem fromSecret_adoptable (seed : Bytes) : (SigningKey.fromSecret W seed).Adoptable W := by
  obtain ⟨address, haddr⟩ := fromSecret_address (W := W) seed
  rw [SigningKey.Adoptable, SigningKey.toSignOnlyHandle]
  simp [SigningKey.fromSecret, show SigningKey.address ⟨_, W.publicKey seed⟩ = _ from haddr]

/-- Left alone, the operation caches a key. -/
def Caches (W : Platform) (s : State) (t : Point ⊕ Outcome) : Prop :=
  ∃ as, ((signer W).alone s t as).1.cached ≠ none

theorem Caches.resume {s : State} {w : Point} (a : Answer)
    (h : Caches W (resume W w s a).1 (resume W w s a).2) : Caches W s (.inl w) := by
  obtain ⟨as, has⟩ := h
  exact ⟨a :: as, has⟩

theorem caches_now {s : State} {t : Point ⊕ Outcome} (h : s.cached ≠ none) : Caches W s t :=
  ⟨[], by rwa [System.alone_nil]⟩

theorem caches_storePut (s : State) (handle : SignOnlyHandle) (who : Adopter) :
    Caches W s (.inl (.storePut handle who)) :=
  .resume .resolves (.resume .resolves (caches_now (Option.some_ne_none _)))

theorem caches_toHandle (s : State) {key : SigningKey} (h : key.Adoptable W) (who : Adopter) :
    Caches W s (.inl (.toHandle key who)) := by
  obtain ⟨handle, hhandle⟩ := Option.isSome_iff_exists.1 h
  refine .resume .resolves ?_
  rw [resume_toHandle Answer.resolves_ne_rejects, hhandle]
  exact caches_storePut s handle who

theorem caches_durablePut (s : State) {sk : SigningKey} (h : sk.Adoptable W) (who : Adopter) :
    Caches W s (.inl (.durablePut sk who)) :=
  .resume .resolves (caches_toHandle s h who)

theorem caches_derivedAddress (s : State) {found : Found} {sk : SigningKey}
    (h : found.Adopts W sk) : Caches W s (.inl (.derivedAddress found sk)) := by
  obtain ⟨hadopt, address, haddr, hwrap⟩ := h
  refine .resume .resolves ?_
  rw [resume_derivedAddress Answer.resolves_ne_rejects, haddr]
  simp only [hwrap, if_false]
  exact caches_durablePut s hadopt _

theorem caches_derive (s : State) {found : Found} {sk : SigningKey}
    (hsk : deriveSigningKey W found.prfOutput = some sk) (h : found.Adopts W sk) :
    Caches W s (.inl (.derive found)) := by
  refine .resume .resolves ?_
  rw [resume_derive Answer.resolves_ne_rejects, hsk]
  exact caches_derivedAddress s h

/-- An operation that waits where it will write a key needs only to be let go on. -/
theorem caches_of_willWrite (s : State) {w : Point} (h : w.WillWrite W) :
    Caches W s (.inl w) := by
  obtain ⟨address, haddr⟩ := fromSecret_address (W := W) (W.deriveSeed [0])
  have hadopt := fromSecret_adoptable (W := W) (W.deriveSeed [0])
  have hsk : deriveSigningKey W [0] = some (.fromSecret W (W.deriveSeed [0])) := rfl
  match w, h with
  | .storeGot (some rec) who, _ => exact .resume .resolves (caches_now (Option.some_ne_none _))
  | .toHandle key who, h => exact caches_toHandle s h who
  | .storePut handle who, _ => exact caches_storePut s handle who
  | .storePutDone handle who, _ =>
    exact .resume .resolves (caches_now (Option.some_ne_none _))
  | .keyring, _ =>
    exact .resume (.unlocked (W.deriveSeed [0])) (caches_toHandle s hadopt .unlock)
  | .discover, _ =>
    -- a passkey without a user handle is taken for a derived one
    exact .resume (.found (some ⟨[0], none⟩))
      (caches_derive s hsk ⟨hadopt, address, haddr, by simp [classifyRecognition]⟩)
  | .derive found, ⟨sk, hsk, h⟩ => exact caches_derive s hsk h
  | .derivedAddress found sk, h => exact caches_derivedAddress s h
  | .durablePut sk who, h => exact caches_durablePut s h who
  | .enroll, _ =>
    refine .resume (.enrolled [0] []) ?_
    simp only [resume_enroll, hsk, haddr]
    exact caches_durablePut s hadopt _

/-- Where the lock holds, the document is settled. -/
theorem LockWins.settled {d : Document} (h : LockWins W d) : Settled W d := by
  have hcached : d.state.cached = none := (h [] (by simp)).1
  have hstore : d.state.store = none := by
    by_contra hne
    -- `status` would find the record
    obtain ⟨rec, hrec⟩ := Option.ne_none_iff_exists'.1 hne
    have hrun := ((signer W).run_call_alone d .status .resolves [.resolves, .resolves]).1
    have hlaw := (h (.call .status .resolves :: [.resolves, .resolves].map (.resume d.tasks.length))
      (by simp [Event.CallsOnly, Op.SignsIn])).1
    rw [hrun] at hlaw
    simp [signer, call, State.held, hcached, SessionSigner.resume, hrec] at hlaw
  refine ⟨by rw [← hcached, ← hstore], fun i op w hw hwrite => ?_⟩
  obtain ⟨as, has⟩ := caches_of_willWrite d.state hwrite
  refine has (((signer W).run_alone hw).1 ▸ (h (as.map (.resume i)) fun e he => ?_).1)
  obtain ⟨a, -, rfl⟩ := List.mem_map.1 he
  trivial

/-- The lock holds just where nothing is held and nothing will write a key. -/
theorem lockWins_iff_settled (d : Document) : LockWins W d ↔ Settled W d :=
  ⟨LockWins.settled, Settled.lockWins⟩

/-! ## From the call of a lock to its completion -/

/-- Only four turns touch the cache or the store. -/
theorem resume_state {w : Point} (s : State) (a : Answer)
    (hgot : ∀ rec who, w ≠ .storeGot (some rec) who) (hput : ∀ handle who, w ≠ .storePut handle who)
    (hdone : ∀ handle who, w ≠ .storePutDone handle who) (hdelete : w ≠ .storeDelete) :
    (resume W w s a).1 = s := by
  cases w with
  | storeGot rec who =>
    cases rec with
    | none => rfl
    | some rec => exact absurd rfl (hgot rec who)
  | storePut handle who => exact absurd rfl (hput handle who)
  | storePutDone handle who => exact absurd rfl (hdone handle who)
  | storeDelete => exact absurd rfl hdelete
  | toHandle key who =>
    by_cases ha : a = .rejects
    · rw [ha]
      rfl
    · rw [resume_toHandle ha]
      split <;> rfl
  | derive found =>
    by_cases ha : a = .rejects
    · rw [ha]
      rfl
    · rw [resume_derive ha]
      split <;> rfl
  | derivedAddress found sk =>
    by_cases ha : a = .rejects
    · rw [ha]
      rfl
    · rw [resume_derivedAddress ha]
      split
      · rfl
      · split_ifs <;> rfl
  | discover =>
    cases a with
    | found found => cases found <;> rfl
    | _ => rfl
  | enroll =>
    cases a with
    | enrolled prfOutput mnemonic =>
      rw [resume_enroll]
      split
      · rfl
      · split <;> rfl
    | _ => rfl
  | _ => cases a <;> rfl

theorem State.held_state (s : State) (who : Holder) : (s.held who).1 = s := by
  unfold State.held
  split <;> rfl

/-- A call touches no more than the cache. -/
theorem call_store (op : Op) (s : State) (a : Answer) : (call W op s a).1.store = s.store := by
  cases op with
  | lock => cases a <;> rfl
  | recognize =>
    rw [call]
    split <;> rfl
  | _ => first | rfl | exact congrArg State.store (s.held_state _)

/-- It touches that only to drop the key. -/
theorem call_cached {op : Op} (h : ¬ (op = .lock ∨ op = .message)) (s : State) (a : Answer) :
    (call W op s a).1.cached = s.cached := by
  cases op with
  | lock => exact absurd (.inl rfl) h
  | message => exact absurd (.inr rfl) h
  | recognize =>
    rw [call]
    split <;> rfl
  | _ => first | rfl | exact congrArg State.cached (s.held_state _)

theorem call_drops {op : Op} (h : op = .lock ∨ op = .message) (s : State) (a : Answer) :
    (call W op s a).1.cached = none := by
  rcases h with rfl | rfl
  · cases a <;> rfl
  · rfl

/-- The cache has a key after a run if one was cached and not dropped again. -/
theorem run_cached {d : Document} {es : List (Event Op Answer)} :
    ((signer W).run d es).state.cached ≠ none ↔
      (signer W).Survives CachesKey DropsKey d es ∨
        (d.state.cached ≠ none ∧ ¬ (signer W).Happens DropsKey d es) := by
  refine (signer W).run_iff_survives (H := fun s => s.cached ≠ none) (fun p e he => ?_)
    (fun p e he => ?_) (fun p e hset hclear => ?_)
  · cases e with
    | call op a => exact absurd he id
    | resume i a =>
      obtain ⟨op, w, hw, ⟨rec, who, rfl⟩ | ⟨handle, who, rfl⟩⟩ := he
      · rw [(signer W).step_resume a hw]
        exact Option.some_ne_none _
      · rw [(signer W).step_resume a hw]
        exact Option.some_ne_none _
  · cases e with
    | call op a => exact fun h => h (call_drops he _ _)
    | resume i a => exact absurd he id
  · cases e with
    | call op a => exact (call_cached hclear p.state a) ▸ Iff.rfl
    | resume i a =>
      obtain hstep | ⟨op, w, hw, hstep⟩ := (signer W).step_resume_cases p i a
      · rw [hstep]
      · have hkeep : (resume W w p.state a).1.cached = p.state.cached := by
          by_cases hput : ∃ handle who, w = .storePut handle who
          · obtain ⟨handle, who, rfl⟩ := hput
            cases a <;> rfl
          by_cases hdelete : w = .storeDelete
          · subst hdelete
            cases a <;> rfl
          rw [resume_state p.state a (fun rec who h => hset ⟨op, w, hw, .inl ⟨rec, who, h⟩⟩)
            (fun handle who h => hput ⟨handle, who, h⟩)
            (fun handle who h => hset ⟨op, w, hw, .inr ⟨handle, who, h⟩⟩) hdelete]
        rw [hstep]
        exact hkeep ▸ Iff.rfl

/-- The store has a handle after a run if one was put and not deleted again. -/
theorem run_store {d : Document} {es : List (Event Op Answer)} :
    ((signer W).run d es).state.store ≠ none ↔
      (signer W).Survives PutsHandle DeletesHandle d es ∨
        (d.state.store ≠ none ∧ ¬ (signer W).Happens DeletesHandle d es) := by
  refine (signer W).run_iff_survives (H := fun s => s.store ≠ none) (fun p e he => ?_)
    (fun p e he => ?_) (fun p e hset hclear => ?_)
  · cases e with
    | call op a => exact absurd he id
    | resume i a =>
      obtain ⟨op, w, hw, ⟨handle, who, rfl⟩, ha⟩ := he
      rw [(signer W).step_resume a hw]
      cases a <;> first | exact absurd rfl ha | exact Option.some_ne_none _
  · cases e with
    | call op a => exact absurd he id
    | resume i a =>
      obtain ⟨op, w, hw, rfl, ha⟩ := he
      rw [(signer W).step_resume a hw]
      cases a <;> first | exact absurd rfl ha | exact fun h => h rfl
  · cases e with
    | call op a => exact (call_store op p.state a) ▸ Iff.rfl
    | resume i a =>
      obtain hstep | ⟨op, w, hw, hstep⟩ := (signer W).step_resume_cases p i a
      · rw [hstep]
      · have hkeep : (resume W w p.state a).1.store = p.state.store := by
          by_cases ha : a = .rejects ∧ ((∃ handle who, w = .storePut handle who) ∨ w = .storeDelete)
          · obtain ⟨rfl, ⟨handle, who, rfl⟩ | rfl⟩ := ha <;> rfl
          by_cases hgot : ∃ rec who, w = .storeGot (some rec) who
          · obtain ⟨rec, who, rfl⟩ := hgot
            rfl
          by_cases hdone : ∃ handle who, w = .storePutDone handle who
          · obtain ⟨handle, who, rfl⟩ := hdone
            rfl
          rw [resume_state p.state a (fun rec who h => hgot ⟨rec, who, h⟩)
            (fun handle who h =>
              hset ⟨op, w, hw, ⟨handle, who, h⟩, fun hr => ha ⟨hr, .inl ⟨handle, who, h⟩⟩⟩)
            (fun handle who h => hdone ⟨handle, who, h⟩)
            (fun h => hclear ⟨op, w, hw, h, fun hr => ha ⟨hr, .inr h⟩⟩)]
        rw [hstep]
        exact hkeep ▸ Iff.rfl

/-- A `lock()` that gets past the deletion has deleted the record. -/
theorem deletes_of_storeDeleted {i : ℕ} {es : List (Event Op Answer)} : ∀ {d : Document},
    d.tasks[i]? = some (.lock, .inl .storeDelete) →
      ((signer W).run d es).tasks[i]? = some (.lock, .inl .storeDeleted) →
      (signer W).Happens DeletesHandle d es := by
  induction es with
  | nil =>
    intro d h h'
    rw [System.run_nil, h] at h'
    cases h'
  | cons e es ih =>
    intro d h h'
    by_cases he : ∃ a, e = .resume i a
    · obtain ⟨a, rfl⟩ := he
      by_cases ha : a = .rejects
      · -- the deletion fails, and the operation is over
        have hover : ((signer W).step d (.resume i a)).tasks[i]?
            = some (.lock, .inr (.rejected .thrown)) := by
          rw [(signer W).step_resume a h, ha]
          exact List.getElem?_set_self (List.getElem?_eq_some_iff.1 h).1
        rw [System.run_cons, (signer W).tasks_run_of_ended hover] at h'
        cases h'
      · exact Or.inl ⟨_, _, h, rfl, ha⟩
    · exact Or.inr (ih ((signer W).tasks_step_of_ne h fun a ha => he ⟨a, ha⟩) h')

/-- Only the last turn of a `lock()` completes it, and it touches nothing. -/
theorem resume_locked {w : Point} {s : State} {a : Answer}
    (h : (resume W w s a).2 = .inr .locked) : w = .storeDeleted ∧ (resume W w s a).1 = s := by
  cases w with
  | storeDeleted =>
    cases a with
    | rejects => cases h
    | _ => exact ⟨rfl, rfl⟩
  | storeGot rec who => cases rec <;> cases h
  | held key who => cases who <;> cases key <;> cases h
  | adopted address who =>
    cases who with
    | _ => cases h
  | toHandle key who =>
    by_cases ha : a = .rejects
    · cases ha ▸ h
    · rw [resume_toHandle ha] at h
      split at h <;> cases h
  | derive found =>
    by_cases ha : a = .rejects
    · cases ha ▸ h
    · rw [resume_derive ha] at h
      split at h <;> cases h
  | derivedAddress found sk =>
    by_cases ha : a = .rejects
    · cases ha ▸ h
    · rw [resume_derivedAddress ha] at h
      split at h
      · cases h
      · split_ifs at h
        cases h
  | discover =>
    cases a with
    | found found =>
      cases found with
      | none => cases h
      | some found => cases h
    | _ => cases h
  | enroll =>
    cases a with
    | enrolled prfOutput mnemonic =>
      rw [resume_enroll] at h
      split at h
      · cases h
      · split at h <;> cases h
    | _ => cases h
  | _ => cases a <;> cases h

/-- Where no key is cached and the record is deleted, a run that leaves nothing behind is
one that ends in a settled document. -/
theorem settled_iff_undisturbed {d : Document} {es : List (Event Op Answer)}
    (hcached : d.state.cached = none) (hdeleted : (signer W).Happens DeletesHandle d es) :
    Settled W ((signer W).run d es) ↔ Undisturbed W d es := by
  have hcache : ((signer W).run d es).state.cached = none ↔
      ¬ (signer W).Survives CachesKey DropsKey d es := by
    rw [← not_iff_not, not_not, ← ne_eq, run_cached]
    simp [hcached]
  have hstore : ((signer W).run d es).state.store = none ↔
      ¬ (signer W).Survives PutsHandle DeletesHandle d es := by
    rw [← not_iff_not, not_not, ← ne_eq, run_store]
    simp [hdeleted]
  constructor
  · rintro ⟨hstate, hwaiting⟩
    exact ⟨hcache.1 (congrArg State.cached hstate), hstore.1 (congrArg State.store hstate),
      hwaiting⟩
  · rintro ⟨hc, hs, hwaiting⟩
    refine ⟨?_, hwaiting⟩
    rw [← hcache.2 hc, ← hstore.2 hs]

/-- The last turn of a `lock()` settles nothing and unsettles nothing. -/
theorem settled_of_locked {d : Document} {i : ℕ} {w : Point} {a : Answer}
    (hw : d.tasks[i]? = some (.lock, .inl w))
    (hdone : (resume W w d.state a).2 = .inr .locked) :
    Settled W ((signer W).step d (.resume i a)) ↔ Settled W d := by
  obtain ⟨rfl, hsame⟩ := resume_locked hdone
  have hset := (List.getElem?_eq_some_iff.1 hw).1
  rw [(signer W).step_resume a hw]
  simp only [signer, hsame, hdone, Settled]
  refine and_congr_right fun _ => forall_congr' fun j => ?_
  by_cases hj : i = j
  · subst hj
    rw [List.getElem?_set_self hset, hw]
    simp [Point.WillWrite]
  · rw [List.getElem?_set_ne hj]

/-- **A `lock()` that completes wins just when nothing under way undoes it**: from its call
on no key is cached that is not dropped again, no handle is put that is not deleted again,
and when it completes no operation that signs somebody in is still under way and no `held`
has the record in its hand that it read before the deletion. -/
theorem lock_wins_iff {d : Document} {a : Answer} {es : List (Event Op Answer)}
    {e : Event Op Answer} (hlock : LockCompletes W d a es e) :
    LockWins W ((signer W).run d (.call .lock a :: es ++ [e])) ↔
      Undisturbed W ((signer W).step d (.call .lock a)) es := by
  obtain ⟨w, a', hw, rfl, hdone⟩ := hlock
  rw [List.cons_append, System.run_cons, System.run_append, System.run_cons, System.run_nil]
    at hdone ⊢
  rw [System.run_cons] at hw
  have hcached : ((signer W).step d (.call .lock a)).state.cached = none :=
    call_drops (.inl rfl) d.state a
  -- the call goes on to the deletion, or it ends there
  have hcalled : ((signer W).step d (.call .lock a)).tasks[d.tasks.length]?
      = some (.lock, (call W .lock d.state a).2) := List.getElem?_concat_length ..
  have hdelete : ((signer W).step d (.call .lock a)).tasks[d.tasks.length]?
      = some (.lock, .inl .storeDelete) := by
    rw [hcalled]
    cases a with
    | rejects =>
      rw [(signer W).tasks_run_of_ended hcalled] at hw
      cases hw
    | _ => rfl
  generalize (signer W).step d (.call .lock a) = d₀ at hcached hdelete hw hdone ⊢
  have hlast : (resume W w ((signer W).run d₀ es).state a').2 = .inr .locked := by
    rw [(signer W).step_resume a' hw,
      List.getElem?_set_self (List.getElem?_eq_some_iff.1 hw).1] at hdone
    exact congrArg Prod.snd (Option.some.inj hdone)
  rw [lockWins_iff_settled, settled_of_locked hw hlast]
  rw [(resume_locked hlast).1] at hw
  exact settled_iff_undisturbed hcached (deletes_of_storeDeleted hdelete hw)

namespace Tab

/-- The seed of a key. -/
def seed : Bytes :=
  [157, 97, 177, 157, 239, 253, 90, 96, 186, 132, 74, 244, 146, 236, 44, 196, 68, 73, 197, 105,
    123, 50, 105, 25, 112, 59, 172, 3, 28, 174, 127, 96]

/-- Its public key. -/
def publicKey : Bytes :=
  [215, 90, 152, 1, 130, 177, 10, 183, 213, 75, 254, 211, 201, 100, 7, 58, 14, 225, 114, 243,
    218, 166, 35, 37, 175, 2, 26, 104, 247, 7, 81, 26]

/-- A platform that knows this key. -/
def platform : Platform where
  publicKey s := if s = seed then publicKey else List.replicate 32 0
  publicKey_length s := by split <;> rfl
  deriveSeed _ := seed
  canDiscover := true

/-- What the session store keeps of it. -/
def handle : SignOnlyHandle where
  address := "gc16adfsqvzky9t042tlmfujeq88g8wzuhnm2nzxfd0qgdx3ac82ydq5qq48l".toList
  privateKey := ⟨seed, false⟩
  publicKey := publicKey

example : (SigningKey.fromSecret platform seed).toSignOnlyHandle platform = some handle := by
  decide +kernel

/-- A reloaded document. -/
def reloaded : Document := fresh (some handle)

/-- `status()` has the record in its hand. -/
def askedStatus : List (Event Op Answer) := [.call .status .resolves, .resume 0 .resolves]

/-- A login asked for when the lock has completed and `status()` has gone on. -/
def loginAfter : List (Event Op Answer) :=
  [.resume 0 .resolves, .call (.signLogin ['h', 'i']) .resolves, .resume 2 .resolves,
    .resume 2 .resolves]

/-- It goes on, and a message comes before the record is deleted. -/
def dropped : List (Event Op Answer) :=
  [.resume 0 .resolves, .call .message .resolves, .resume 1 .resolves]

end Tab

open Tab

/-- `status()` goes on and caches the key, but a message from another document drops it
before the lock completes. -/
theorem lock_wins_iff_dropped :
    LockCompletes platform ((signer platform).run reloaded askedStatus) .resolves dropped
        (.resume 1 .resolves) ∧
      LockWins platform ((signer platform).run ((signer platform).run reloaded askedStatus)
        (.call .lock .resolves :: dropped ++ [.resume 1 .resolves])) := by
  have hlock : LockCompletes platform ((signer platform).run reloaded askedStatus) .resolves
      dropped (.resume 1 .resolves) := ⟨.storeDeleted, .resolves, rfl, rfl, rfl⟩
  refine ⟨hlock, (lock_wins_iff hlock).2 ⟨?_, ?_, fun i op w hw => ?_⟩⟩
  · rintro (((h | ⟨h, -⟩) | ⟨h, -⟩) | ⟨-, h⟩)
    · exact h
    · obtain ⟨op, w, hw, hgot⟩ := h
      cases hw
      rcases hgot with ⟨rec, who, hgot⟩ | ⟨handle, who, hgot⟩ <;> cases hgot
    · exact h
    · exact h (Or.inl (Or.inr rfl))
  · rintro (((h | ⟨h, -⟩) | ⟨h, -⟩) | ⟨h, -⟩)
    · exact h
    · obtain ⟨op, w, hw, ⟨handle, who, hput⟩, -⟩ := h
      cases hw
      cases hput
    · exact h
    · obtain ⟨op, w, hw, ⟨handle, who, hput⟩, -⟩ := h
      cases hw
      cases hput
  · match i, hw with
    | 0, hw => cases hw; exact id
    | 1, hw => cases hw; exact id
    | 2, hw => cases hw
    | i + 3, hw => cases hw

theorem lock_undone_by_status :
    LockCompletes platform ((signer platform).run reloaded askedStatus) .resolves
        [.resume 1 .resolves] (.resume 1 .resolves) ∧
      ¬ LockWins platform ((signer platform).run ((signer platform).run reloaded askedStatus)
        (.call .lock .resolves :: [.resume 1 .resolves] ++ [.resume 1 .resolves])) := by
  refine ⟨⟨.storeDeleted, .resolves, rfl, rfl, rfl⟩, fun h => ?_⟩
  -- the login is signed with the key that the lock dropped
  obtain ⟨r, hr⟩ : (Op.signLogin ['h', 'i']).SignedOut
      (.signed handle.key (.login ['h', 'i'])) :=
    (h loginAfter (by simp [loginAfter, Event.CallsOnly, Op.SignsIn])).2 2 _ _ le_rfl rfl
  cases hr

end SessionSigner

end GumptionChain
