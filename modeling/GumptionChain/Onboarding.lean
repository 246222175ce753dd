import GumptionChain.Lib.Effect
import GumptionChain.Text

/-!
# Backing up a signing key

`backup` of `clients/sdk/gc-onboarding.mjs`, with what it calls of the controller.  The
controller's `key` is assigned by its own methods only; a step that is awaited changes
the rest of the world, and answers or rejects.

* `Onboarding.status`, `Onboarding.notify` — leave the key;
* `Onboarding.backup` — the recovery phrase, or the encrypted artifact;
* `Onboarding.LeftUnlocked` — the rejections after which a key is held that was not.
-/

namespace GumptionChain
namespace Onboarding

open Effect

/-! ## The record and the status -/

/-- Which of a record's wraps are there. -/
structure Wraps where
  passphrase : Bool
  passkey : Bool

/-- What the controller reads of a stored record. -/
structure Record where
  kind : Option String
  address : Option Str
  wraps : Option Wraps

/-- `recordKind`.  A record without a kind that has wraps is a wrap identity. -/
def recordKind : Option Record → Option String
  | none => none
  | some record => record.kind <|> (if record.wraps.isSome then some "wrap" else none)

/-- `enrolledMethods`. -/
def enrolledMethods (record : Option Record) : List String :=
  match record.bind (·.wraps) with
  | none => []
  | some wraps =>
    (if wraps.passphrase then ["passphrase"] else []) ++
      (if wraps.passkey then ["passkey"] else [])

/-- What `status` reports. -/
structure Status where
  hasKey : Bool
  unlocked : Bool
  kind : Option String
  address : Option Str
  passkeySupported : Bool
  passkeyEnrolled : Bool
  methods : List String
  secureContext : Bool

/-- `backupFilename`. -/
def backupFilename (address : Str) : Str :=
  let slug := ((if address = [] then "signing-key".toList else address).filter
    Char.isAlphanum).take 12
  "gc-signing-key-backup-".toList ++ (if slug = [] then "signing-key".toList else slug) ++
    ".json".toList

/-! ## The controller -/

/-- What `derived.resolve` answers. -/
inductive Resolved (Key : Type) where
  | ok (signing_key : Key)
  | other (status : String)

/-- What `backup` answers. -/
inductive Backup (Artifact : Type) where
  | derived (mnemonic : Str)
  | wrap (artifact : Artifact) (filename : Str)

variable (σ ε Key Artifact : Type)

/-- A step that is awaited: it answers or rejects, and may change the world either way. -/
abbrev Awaited (α : Type) := σ → Except ε α × σ

/-- A passkey adapter, with `resolve` of the identity derived from it. -/
structure Passkey where
  isSupported : Awaited σ ε Bool
  resolve : Option Str → Awaited σ ε (Resolved Key)

/-- What a controller is made of. -/
structure Parts where
  storeGet : Awaited σ ε (Option Record)
  passkey : Option (Passkey σ ε Key)
  isSecureContext : σ → Bool
  unlock : Option Str → Awaited σ ε Key
  exportEncrypted : Key → Option Str → Awaited σ ε Artifact
  address : Key → Awaited σ ε Str
  mnemonic : Key → Awaited σ ε Str
  noSigningKeyError : String → ε

/-- The state of a controller, and the world it awaits. -/
structure Controller where
  key : Option Key
  listeners : List (Status → σ → Except ε Unit × σ)
  world : σ

variable {σ ε Key Artifact : Type}

abbrev Async (σ ε Key α : Type) := EStateM ε (Controller σ ε Key) α

def await {α : Type} (step : Awaited σ ε α) : Async σ ε Key α := fun c =>
  match step c.world with
  | (.ok a, world) => .ok a { c with world := world }
  | (.error e, world) => .error e { c with world := world }

def setKey (key : Option Key) : Async σ ε Key Unit := modify fun c => { c with key := key }

variable (P : Parts σ ε Key Artifact)

/-- `secureContext`. -/
def secureContext : Async σ ε Key Bool := return P.isSecureContext (← get).world

/-- `passkeySupported`.  A rejection of the adapter is caught. -/
def passkeySupported : Async σ ε Key Bool := do
  match P.passkey with
  | none => return false
  | some passkey =>
    if ← secureContext P then
      tryCatch (await passkey.isSupported) fun _ => pure false
    else return false

/-- The address that `status` reports: the held key's, else the record's. -/
def statusAddress (record : Option Record) : Async σ ε Key (Option Str) := do
  match (← get).key with
  | some key => some <$> await (P.address key)
  | none => return record.bind (·.address)

def status : Async σ ε Key Status := do
  let record ← await P.storeGet
  let kind := recordKind record
  let address ← statusAddress P record
  let methods := enrolledMethods record
  let unlocked := (← get).key.isSome
  let supported ← passkeySupported P
  return {
    hasKey := record.isSome
    unlocked := unlocked
    kind := kind
    address := address
    passkeySupported := supported
    passkeyEnrolled := kind = some "derived" || methods.contains "passkey"
    methods := methods
    secureContext := ← secureContext P }

/-- The listeners are called in turn; what one throws is caught. -/
def callListeners (snapshot : Status) :
    List (Status → σ → Except ε Unit × σ) → Async σ ε Key Unit
  | [] => return
  | fn :: rest => do
    tryCatch (await (fn snapshot)) fun _ => pure ()
    callListeners snapshot rest

def notify : Async σ ε Key Unit := do
  let snapshot ← status P
  callListeners snapshot (← get).listeners

/-- The key of a derived identity: the one held, or the one the passkey gives. -/
def derivedKey (record : Option Record) : Async σ ε Key Key := do
  match (← get).key with
  | some key => return key
  | none =>
    match P.passkey with
    | none => throw (P.noSigningKeyError "no passkey adapter to back up a derived identity")
    | some passkey =>
      match ← await (passkey.resolve (record.bind (·.address))) with
      | .ok signing_key => return signing_key
      | .other _ => throw (P.noSigningKeyError "could not rehydrate this passkey identity")

/-- The key of a wrap identity: the one held, or the one unlocked into the controller. -/
def wrapKey (passphrase : Option Str) : Async σ ε Key Key := do
  match (← get).key with
  | some key => return key
  | none =>
    let key ← await (P.unlock passphrase)
    setKey (some key)
    return key

/-- The rest of `backup` of a wrap identity: the key is dropped after two more steps. -/
def exportWrap (wasLocked : Bool) (key : Key) (passphrase : Option Str) :
    Async σ ε Key (Backup Artifact) := do
  let artifact ← await (P.exportEncrypted key passphrase)
  let filename := backupFilename (← await (P.address key))
  if wasLocked then setKey none
  notify P
  return .wrap artifact filename

/-- `backup` of a wrap identity, the record read. -/
def backupWrap (passphrase : Option Str) : Async σ ε Key (Backup Artifact) := do
  let wasLocked := (← get).key.isNone
  let key ← wrapKey P passphrase
  exportWrap P wasLocked key passphrase

def backup (passphrase : Option Str) : Async σ ε Key (Backup Artifact) := do
  let record ← await P.storeGet
  if recordKind record = some "derived" then
    let sk ← derivedKey P record
    let mnemonic ← await (P.mnemonic sk)
    notify P
    return .derived mnemonic
  else backupWrap P passphrase

/-! ## What keeps the key -/

/-- The same key is held after as before. -/
def SameKey (c c' : Controller σ ε Key) : Prop := c'.key = c.key

theorem SameKey.refl (c : Controller σ ε Key) : SameKey c c := rfl

theorem SameKey.trans (c d e : Controller σ ε Key) (h : SameKey c d) (h' : SameKey d e) :
    SameKey c e :=
  Eq.trans h' h

theorem after_await {α : Type} (step : Awaited σ ε α) (c : Controller σ ε Key) :
    after (await step) c = { c with world := (step c.world).2 } := by
  unfold after await
  rcases step c.world with ⟨_ | _, _⟩ <;> rfl

theorem after_await_bind {α β : Type} (step : Awaited σ ε α) (f : α → Async σ ε Key β)
    (c : Controller σ ε Key) :
    after (await step >>= f) c = match step c.world with
      | (.ok a, world) => after (f a) { c with world := world }
      | (.error _, world) => { c with world := world } := by
  rw [after_bind]
  unfold await
  rcases step c.world with ⟨_ | _, _⟩ <;> rfl

theorem within_await {α : Type} (step : Awaited σ ε α) :
    Within SameKey (await step : Async σ ε Key α) := by
  intro c
  rw [after_await]
  rfl

theorem after_get_bind {β : Type} (f : Controller σ ε Key → Async σ ε Key β)
    (c : Controller σ ε Key) : after (get >>= f) c = after (f c) c :=
  after_bind _ f c

theorem within_get : Within SameKey (get : Async σ ε Key (Controller σ ε Key)) :=
  fun c => SameKey.refl c

theorem within_secureContext : Within SameKey (secureContext P) :=
  within_get.bind SameKey.trans fun _ => .pure SameKey.refl _

theorem within_passkeySupported : Within SameKey (passkeySupported P) := by
  unfold passkeySupported
  cases P.passkey with
  | none => exact .pure SameKey.refl _
  | some passkey =>
    refine (within_secureContext P).bind SameKey.trans fun secure => ?_
    cases secure with
    | false => exact .pure SameKey.refl _
    | true => exact (within_await _).tryCatch SameKey.trans fun _ => .pure SameKey.refl _

theorem within_statusAddress (record : Option Record) :
    Within SameKey (statusAddress P record) := by
  refine within_get.bind SameKey.trans fun c => ?_
  cases c.key with
  | none => exact .pure SameKey.refl _
  | some key => exact (within_await _).bind SameKey.trans fun _ => .pure SameKey.refl _

theorem within_status : Within SameKey (status P) := by
  refine (within_await _).bind SameKey.trans fun record => ?_
  refine (within_statusAddress P record).bind SameKey.trans fun address => ?_
  refine within_get.bind SameKey.trans fun c => ?_
  refine (within_passkeySupported P).bind SameKey.trans fun supported => ?_
  exact (within_secureContext P).bind SameKey.trans fun _ => .pure SameKey.refl _

theorem within_callListeners (snapshot : Status)
    (listeners : List (Status → σ → Except ε Unit × σ)) :
    Within SameKey (callListeners snapshot listeners : Async σ ε Key Unit) := by
  induction listeners with
  | nil => exact .pure SameKey.refl _
  | cons fn rest ih =>
    refine Within.bind SameKey.trans ?_ fun _ => ih
    exact (within_await _).tryCatch SameKey.trans fun _ => .pure SameKey.refl _

theorem within_notify : Within SameKey (notify P) := by
  refine (within_status P).bind SameKey.trans fun snapshot => ?_
  exact within_get.bind SameKey.trans fun c => within_callListeners snapshot c.listeners

theorem within_derivedKey (record : Option Record) : Within SameKey (derivedKey P record) := by
  refine within_get.bind SameKey.trans fun c => ?_
  cases c.key with
  | some key => exact .pure SameKey.refl _
  | none =>
    cases P.passkey with
    | none => exact .throw SameKey.refl _
    | some passkey =>
      refine (within_await _).bind SameKey.trans fun r => ?_
      cases r with
      | ok signing_key => exact .pure SameKey.refl _
      | other status => exact .throw SameKey.refl _

theorem within_backupDerived (record : Option Record) :
    Within SameKey (do
      let sk ← derivedKey P record
      let mnemonic ← await (P.mnemonic sk)
      notify P
      return .derived mnemonic : Async σ ε Key (Backup Artifact)) := by
  refine (within_derivedKey P record).bind SameKey.trans fun sk => ?_
  refine (within_await _).bind SameKey.trans fun mnemonic => ?_
  exact (within_notify P).bind SameKey.trans fun _ => .pure SameKey.refl _

/-! ## The key after a backup -/

/-- A step between unlocking and locking again rejects. -/
def ExportRejects (key : Key) (passphrase : Option Str) (world : σ) : Prop :=
  match P.exportEncrypted key passphrase world with
  | (.error _, _) => True
  | (.ok _, world') => ∃ e, (P.address key world').1 = .error e

/-- `backup` unlocks a wrap identity and does not come to lock it again. -/
def LeftUnlocked (passphrase : Option Str) (c : Controller σ ε Key) : Prop :=
  c.key = none ∧ ∃ record world key world',
    P.storeGet c.world = (.ok record, world) ∧ recordKind record ≠ some "derived" ∧
      P.unlock passphrase world = (.ok key, world') ∧ ExportRejects P key passphrase world'

/-- An export step that rejects leaves the key that was held for it. -/
theorem exportWrap_of_rejects {wasLocked : Bool} {key : Key} {passphrase : Option Str}
    {c : Controller σ ε Key} (h : ExportRejects P key passphrase c.world) :
    SameKey c (after (exportWrap P wasLocked key passphrase) c) := by
  unfold ExportRejects at h
  unfold exportWrap
  rw [after_await_bind]
  rcases hx : P.exportEncrypted key passphrase c.world with ⟨e | artifact, world'⟩
  · exact SameKey.refl c
  · rw [hx] at h
    obtain ⟨e, he⟩ := h
    dsimp only at he ⊢
    rw [after_await_bind]
    rcases ha : P.address key world' with ⟨e' | address, world''⟩
    · exact SameKey.refl c
    · rw [ha] at he
      cases he

/-- After export steps that answer, what was locked is locked. -/
theorem exportWrap_of_not_rejects {wasLocked : Bool} {key : Key} {passphrase : Option Str}
    {c : Controller σ ε Key} (h : ¬ ExportRejects P key passphrase c.world) :
    (after (exportWrap P wasLocked key passphrase) c).key =
      if wasLocked then none else c.key := by
  unfold ExportRejects at h
  unfold exportWrap
  rw [after_await_bind]
  rcases hx : P.exportEncrypted key passphrase c.world with ⟨e | artifact, world'⟩
  · rw [hx] at h
    exact absurd trivial h
  · rw [hx] at h
    dsimp only at h ⊢
    rw [after_await_bind]
    rcases ha : P.address key world' with ⟨e | address, world''⟩
    · rw [ha] at h
      exact absurd ⟨e, rfl⟩ h
    · have finished (filename : Str) : Within SameKey
          (do notify P; return .wrap artifact filename : Async σ ε Key (Backup Artifact)) :=
        (within_notify P).bind SameKey.trans fun _ => .pure SameKey.refl _
      cases wasLocked with
      | false => exact finished _ _
      | true => exact finished _ { key := none, listeners := c.listeners, world := world'' }

theorem after_backupWrap (passphrase : Option Str) (c : Controller σ ε Key) :
    after (backupWrap P passphrase) c = match c.key with
      | some key => after (exportWrap P false key passphrase) c
      | none => match P.unlock passphrase c.world with
        | (.error _, world) => { c with world := world }
        | (.ok key, world) =>
          after (exportWrap P true key passphrase) { c with key := some key, world := world } := by
  unfold backupWrap wrapKey
  rw [after_get_bind, bind_assoc, after_get_bind]
  cases hk : c.key with
  | some key =>
    dsimp only [Option.isNone]
    rw [pure_bind]
  | none =>
    dsimp only [Option.isNone]
    rw [bind_assoc, after_await_bind]
    rcases P.unlock passphrase c.world with ⟨e | key, world⟩
    · rw [hk]
    · dsimp only
      rw [bind_assoc, after_bind]
      rfl

/-- A wrap identity keeps its key unless it was locked and an export step rejects. -/
theorem backupWrap_sameKey_iff (passphrase : Option Str) (c : Controller σ ε Key) :
    SameKey c (after (backupWrap P passphrase) c) ↔
      ¬ (c.key = none ∧ ∃ key world, P.unlock passphrase c.world = (.ok key, world) ∧
        ExportRejects P key passphrase world) := by
  rw [after_backupWrap]
  cases hk : c.key with
  | some key =>
    refine iff_of_true ?_ fun h => nomatch h.1
    dsimp only
    by_cases h : ExportRejects P key passphrase c.world
    · exact exportWrap_of_rejects P h
    · exact exportWrap_of_not_rejects P h
  | none =>
    dsimp only
    rcases hu : P.unlock passphrase c.world with ⟨e | key, world⟩
    · refine iff_of_true hk.symm ?_
      rintro ⟨-, key, world', h, -⟩
      cases h
    · dsimp only
      unfold SameKey
      rw [hk]
      by_cases h : ExportRejects P key passphrase world
      · refine iff_of_false ?_ fun hn => hn ⟨rfl, key, world, rfl, h⟩
        have kept : SameKey { c with key := some key, world := world }
            (after (exportWrap P true key passphrase)
              { c with key := some key, world := world }) :=
          exportWrap_of_rejects P h
        rw [show _ = some key from kept]
        exact Option.some_ne_none key
      · refine iff_of_true (exportWrap_of_not_rejects P h) ?_
        rintro ⟨-, key', world', heq, hr⟩
        cases heq
        exact h hr

/-- **When a backup is a read.**  It leaves the key as it was unless it unlocks a wrap
identity and a step of the export then rejects. -/
theorem backup_sameKey_iff (passphrase : Option Str) (c : Controller σ ε Key) :
    SameKey c (after (backup P passphrase) c) ↔ ¬ LeftUnlocked P passphrase c := by
  unfold backup
  rw [after_await_bind]
  rcases hs : P.storeGet c.world with ⟨e | record, world⟩
  · -- the store rejects: nothing is unlocked
    refine iff_of_true (SameKey.refl c) ?_
    rintro ⟨-, record, world', key, world'', h, -⟩
    rw [hs] at h
    cases h
  · dsimp only
    split
    next hkind =>
      refine iff_of_true (within_backupDerived P record { c with world := world }) ?_
      rintro ⟨-, record', world', key, world'', h, hne, -⟩
      rw [hs] at h
      cases h
      exact hne hkind
    next hkind =>
      refine (backupWrap_sameKey_iff P passphrase { c with world := world }).trans
        (not_congr (and_congr_right fun _ => ?_))
      constructor
      · rintro ⟨key, world', hu, hr⟩
        exact ⟨record, world, key, world', hs, hkind, hu, hr⟩
      · rintro ⟨record', world₁, key, world', h, -, hu, hr⟩
        rw [hs] at h
        cases h
        exact ⟨key, world', hu, hr⟩

namespace Sample

/-- A locked controller over a wrap identity, the passphrase `open`; the world says
whether the export is refused. -/
def parts : Parts Bool String Str Str where
  storeGet := fun refused =>
    (.ok (some ⟨some "wrap", some ['g', 'c', '1'], some ⟨true, false⟩⟩), refused)
  passkey := none
  isSecureContext := fun _ => true
  unlock := fun passphrase refused =>
    if passphrase = some "open".toList then (.ok ['k'], refused)
    else (.error "BadPassphraseError", refused)
  exportEncrypted := fun key _ refused =>
    if refused then (.error "OperationError", refused) else (.ok key, refused)
  address := fun _ refused => (.ok ['g', 'c', '1'], refused)
  mnemonic := fun _ refused => (.ok [], refused)
  noSigningKeyError := fun message => message

def locked (refused : Bool) : Controller Bool String Str := ⟨none, [], refused⟩

end Sample

/-- An identity that was locked is left unlocked by a backup whose export rejects. -/
theorem backup_leaves_key :
    ¬ ∀ (P : Parts Bool String Str Str) (passphrase : Option Str)
      (c : Controller Bool String Str), SameKey c (after (backup P passphrase) c) := by
  intro h
  have hkept := h Sample.parts (some "open".toList) (Sample.locked true)
  have hkey : (after (backup Sample.parts (some "open".toList)) (Sample.locked true)).key =
      some ['k'] := by decide
  rw [SameKey, hkey] at hkept
  exact Option.some_ne_none _ hkept

end Onboarding
end GumptionChain
