import GumptionChain.Message

/-!
# Stake attestations

`attestation.py`: the claim in a signed message, its canonical encoding, and the
verification of a claim against a signature and a transaction's provenance.

* `verifyMessage_eq` — the ways a verification ends;
* `parseStakeAttestation_typed_iff`, `verifyMessage_typed_iff`, `verifyStake_typed_iff` —
  when an input makes one of them raise something else than it declares;
* `proof_verification_typed_iff` — the three together.
-/

namespace GumptionChain

open PyJson Signing Message

/-- What `attestation.py` raises; `shown` is the value that a message quotes. -/
inductive AttestationError where
  | badAttestation (message : String) (shown : Option PyJson := none)
  | typeError
  | attributeError
  | valueError
  | unicodeEncodeError
  | recursionError

/-- A claim that was validated: the address of a transfer, or the subject of a stake. -/
structure StakeClaim where
  txid : PyStr
  kind : PyStr
  target : PyStr
  amount : ℤ
  handle : Option PyStr

namespace Attestation

/-- `KINDS`. -/
def KINDS : List PyStr :=
  ["opposition", "support", "rescind", "transfer"].map fun s => chars s.toList

/-- `'transfer'`. -/
def transfer : PyStr := chars "transfer".toList

/-- `_TXID_RE.fullmatch`. -/
def isTxid (s : PyStr) : Bool :=
  s.length = 64 && s.all fun x => x.char?.any fun c =>
    ('0' ≤ c && c ≤ '9') || ('a' ≤ c && c ≤ 'f')

/-- A value that `hash` takes. -/
def hashable : PyJson → Bool
  | .arr _ => false
  | .obj _ => false
  | _ => true

/-- `f'{v}'` does not raise. -/
def showable : PyJson → Bool
  | .int n => (natStr n.natAbs).length ≤ intMaxStrDigits
  | _ => true

/-- The error for a value that is shown. -/
def shown (message : String) (v : PyJson) : AttestationError :=
  if showable v then .badAttestation message (some v) else .valueError

/-- The checks of `handle`. -/
def validateHandle (claim : List (PyStr × PyJson)) : Except AttestationError (Option PyStr) :=
  match (PyJson.get claim "handle".toList).getD .null with
  | .null => .ok none
  | .str handle => .ok (some handle)
  | _ => .error (.badAttestation "handle must be a string")

/-- A text under one key, and nothing under another. -/
def validateTarget (claim : List (PyStr × PyJson)) (key other : Str) (requires forbids : String) :
    Except AttestationError PyStr :=
  match PyJson.get claim key with
  | some (.str target) =>
    if target = [] then .error (.badAttestation requires)
    else if (PyJson.get claim other).isSome then .error (.badAttestation forbids)
    else .ok target
  | _ => .error (.badAttestation requires)

/-- The address of a transfer, or the subject of a stake. -/
def validateSide (claim : List (PyStr × PyJson)) (kind : PyStr) : Except AttestationError PyStr :=
  if kind = transfer then
    validateTarget claim "address".toList "subject".toList "transfer requires address"
      "transfer must not set subject"
  else
    validateTarget claim "subject".toList "address".toList "stake requires subject"
      "stake must not set address"

/-- `_validate_claim`, with what it has checked. -/
def validateClaim : PyJson → Except AttestationError StakeClaim
  | .obj claim =>
    match PyJson.get claim "txid".toList with
    | some (.str txid) =>
      let kind := (PyJson.get claim "kind".toList).getD .null
      if ¬ isTxid txid then .error (.badAttestation "txid must be a 64-char hex digest")
      else if ¬ hashable kind then .error .typeError
      else
        match kind, PyJson.get claim "amount".toList with
        | .str kind, amount =>
          if kind ∉ KINDS then .error (shown "invalid kind: " (.str kind))
          else
            match amount with
            | some (.int amount) =>
              if amount ≤ 0 then
                .error (.badAttestation "amount must be a positive integer (grains)")
              else do
                let target ← validateSide claim kind
                let handle ← validateHandle claim
                return ⟨txid, kind, target, amount, handle⟩
            | _ => .error (.badAttestation "amount must be a positive integer (grains)")
        | kind, _ => .error (shown "invalid kind: " kind)
    | _ => .error (.badAttestation "txid must be a 64-char hex digest")
  | _ => .error (.badAttestation "claim must be an object")

/-- `build_stake_message`, of a validated claim. -/
def buildStakeMessage (claim : StakeClaim) : Except AttestationError PyStr :=
  let target := if claim.kind = transfer then "address" else "subject"
  let handle := claim.handle.toList.map fun handle => (chars "handle".toList, Scalar.str handle)
  match dumps escapePlain (chars [',']) (chars [':'])
    ([(chars "txid".toList, .str claim.txid), (chars "kind".toList, .str claim.kind),
      (chars target.toList, .str claim.target), (chars "amount".toList, .int claim.amount)] ++
        handle) with
  | none => .error .valueError
  | some message => .ok message

/-- The claim in a message, if the message is its canonical encoding. -/
def parseMessage (depth : ℕ) (message : PyStr) : Except AttestationError StakeClaim :=
  match loads depth message with
  | .error .valueError => .error (.badAttestation "message is not a stake claim")
  | .error .recursionError => .error .recursionError
  | .ok claim => do
    let claim ← validateClaim claim
    let canonical ← buildStakeMessage claim
    if canonical = message then return claim
    else .error (.badAttestation "non-canonical stake claim encoding")

/-- `parse_stake_attestation`. -/
def parseStakeAttestation (depth : ℕ) (proof : PyJson) : Except AttestationError StakeClaim :=
  match proof with
  | .obj fields =>
    match PyJson.get fields "message".toList with
    | some (.str message) => parseMessage depth message
    | _ => .error (.badAttestation "proof has no message")
  | _ => .error (.badAttestation "proof has no message")

/-! ## Provenance -/

/-- `bool(v)`. -/
def truthy : PyJson → Bool
  | .null => false
  | .bool b => b
  | .int n => n ≠ 0
  | .float (.finite q) => q ≠ 0
  | .float _ => true
  | .str s => s ≠ []
  | .arr items => !items.isEmpty
  | .obj fields => !fields.isEmpty

/-- `(v or 0) < m`: `TypeError` is `none`. -/
def lessThan (v : PyJson) (m : ℤ) : Option Bool :=
  if truthy v then
    match v with
    | .bool b => some (b.toNat < m)
    | .int n => some (n < m)
    | .float (.finite q) => some (q < m)
    | .float (.infinity negative) => some negative
    | .float .nan => some false
    | _ => none
  else some (0 < m)

/-- `v == n`. -/
def equalsInt (v : Option PyJson) (n : ℤ) : Bool :=
  match v with
  | some (.bool b) => b.toNat = n
  | some (.int m) => m = n
  | some (.float (.finite q)) => q = n
  | _ => false

/-- What `for o in v or []` goes through: `TypeError` is `none`. -/
def iterate (v : PyJson) : Option (List PyJson) :=
  if truthy v then
    match v with
    | .str s => some (s.map fun x => .str [x])
    | .arr items => some items
    | .obj fields => some (fields.map fun p => .str p.1)
    | _ => none
  else some []

/-- An outflow is the claimed one. -/
def matchesClaim (claim : StakeClaim) (o : List (PyStr × PyJson)) : Bool :=
  isText (PyJson.get o "kind".toList) claim.kind &&
    equalsInt (PyJson.get o "amount".toList) claim.amount &&
      isText (PyJson.get o (if claim.kind = transfer then "address" else "subject").toList)
        claim.target

/-- The loop of `_outflow_matches`: what is no dictionary has no `get`. -/
def anyMatches (claim : StakeClaim) : List PyJson → Except AttestationError Bool
  | [] => .ok false
  | .obj o :: rest => if matchesClaim claim o then .ok true else anyMatches claim rest
  | _ :: _ => .error .attributeError

/-- `_outflow_matches`. -/
def outflowMatches (claim : StakeClaim) (outflows : PyJson) : Except AttestationError Bool :=
  match iterate outflows with
  | none => .error .typeError
  | some items => anyMatches claim items

/-- What `verify_stake` finds on the chain: the reason against it. -/
def onchain (minConfirmations : Option ℤ) (provenance : Option (List (PyStr × PyJson))) :
    Except AttestationError (Option String) :=
  match provenance with
  | none => .ok (some "txn-not-found")
  | some provenance =>
    if isText (PyJson.get provenance "status".toList) (chars "canonical".toList) then
      match minConfirmations with
      | none => .ok none
      | some m =>
        match lessThan ((PyJson.get provenance "confirmations".toList).getD .null) m with
        | none => .error .typeError
        | some true => .ok (some "insufficient-confirmations")
        | some false => .ok none
    else .ok (some "not-canonical")

/-- Whether the claim is what the signer staked: the reason against it. -/
def consistent (claim : StakeClaim) (signer : PyStr) (provenance : List (PyStr × PyJson)) :
    Except AttestationError (Option String) :=
  if isText (PyJson.get provenance "address".toList) signer then
    match outflowMatches claim ((PyJson.get provenance "outflows".toList).getD (.arr [])) with
    | .error e => .error e
    | .ok true => .ok none
    | .ok false => .ok (some "claim-mismatch")
  else .ok (some "signer-not-staker")

/-- The same, if the signature is valid and nothing speaks against the transaction. -/
def inconsistency (claim : StakeClaim) (valid : Bool) (signer : PyStr) (missing : Option String)
    (provenance : Option (List (PyStr × PyJson))) :
    Except AttestationError (Option (Option String)) :=
  match valid, missing, provenance with
  | true, none, some provenance => (consistent claim signer provenance).map some
  | _, _, _ => .ok none

/-- What `verify_stake` returns. -/
structure StakeVerdict where
  signature : Bool
  onchain : Bool
  consistent : Bool
  signer : PyStr
  claim : StakeClaim
  provenance : Option (List (PyStr × PyJson))
  reasons : List String

/-- What an error of `verify_message` becomes. -/
def ofMessageError : MessageError → AttestationError
  | .badProof _ => .badAttestation "attestation is not a valid gc-msg-v1 proof"
  | .unicodeEncodeError => .unicodeEncodeError
  | .valueError => .valueError
  | .recursionError => .recursionError

/-- `verify_stake`, with the current time. -/
def verifyStake (E : Env) (H : Sha256) (depth : ℕ) (proof : PyJson)
    (fetchProvenance : PyStr → Option (List (PyStr × PyJson))) (maxAge minConfirmations : Option ℤ)
    (current : ℤ) : Except AttestationError StakeVerdict := do
  let claim ← parseStakeAttestation depth proof
  let sig ← (verifyMessage E H proof maxAge current).mapError ofMessageError
  let provenance := fetchProvenance claim.txid
  let missing ← onchain minConfirmations provenance
  let mismatch ← inconsistency claim sig.valid sig.address missing provenance
  let unsigned := if sig.reason = some "expired" then "expired" else "bad-signature"
  return {
    signature := sig.valid
    onchain := missing.isNone
    consistent := mismatch = some none
    signer := sig.address
    claim := claim
    provenance := provenance
    reasons := (if sig.valid then [] else [unsigned]) ++ missing.toList ++
      (mismatch.bind id).toList }

/-! ## Reading a claim -/

/-- A call returns, or raises `BadAttestationError`. -/
def Typed {α : Type} : Except AttestationError α → Prop
  | .ok _ => True
  | .error (.badAttestation _ _) => True
  | .error _ => False

instance {α : Type} : (x : Except AttestationError α) → Decidable (Typed x)
  | .ok _ => isTrue trivial
  | .error (.badAttestation _ _) => isTrue trivial
  | .error .typeError => isFalse id
  | .error .attributeError => isFalse id
  | .error .valueError => isFalse id
  | .error .unicodeEncodeError => isFalse id
  | .error .recursionError => isFalse id

/-- `json.loads` stays within the interpreter's recursion, and the kind in a claim with a
transaction's identifier can be looked up in a set. -/
structure Readable (depth : ℕ) (message : PyStr) : Prop where
  nesting : loads depth message ≠ .error .recursionError
  kind : ∀ claim txid, loads depth message = .ok (.obj claim) →
    PyJson.get claim "txid".toList = some (.str txid) → isTxid txid = true →
      hashable ((PyJson.get claim "kind".toList).getD .null) = true

variable {depth : ℕ}

theorem short_get {fields : List (PyStr × PyJson)} {key : Str} {v : PyJson}
    (h : Short (.obj fields)) (hv : PyJson.get fields key = some v) : v.Short := by
  obtain ⟨p, hp, rfl⟩ := Option.map_eq_some_iff.1 hv
  cases h with
  | obj hfields => exact hfields p (List.mem_of_find?_eq_some hp)

theorem short_getD {fields : List (PyStr × PyJson)} (key : Str) (h : Short (.obj fields)) :
    ((PyJson.get fields key).getD .null).Short := by
  cases hv : PyJson.get fields key with
  | none => exact .null
  | some v => exact short_get h hv

theorem typed_shown {α : Type} (message : String) {v : PyJson} (h : v.Short) :
    Typed (.error (shown message v) : Except AttestationError α) := by
  have hshow : showable v = true := by
    cases h with
    | int hn => exact decide_eq_true hn
    | _ => rfl
  rw [shown, if_pos hshow]
  trivial

theorem typed_validateTarget (claim : List (PyStr × PyJson)) (key other : Str)
    (requires forbids : String) : Typed (validateTarget claim key other requires forbids) := by
  unfold validateTarget
  split
  · split_ifs <;> trivial
  · trivial

theorem typed_validateSide (claim : List (PyStr × PyJson)) (kind : PyStr) :
    Typed (validateSide claim kind) := by
  unfold validateSide
  split_ifs
  · exact typed_validateTarget _ _ _ _ _
  · exact typed_validateTarget _ _ _ _ _

theorem typed_validateHandle (claim : List (PyStr × PyJson)) : Typed (validateHandle claim) := by
  unfold validateHandle
  split <;> trivial

/-- A step and what follows it. -/
theorem typed_bind {α β : Type} {x : Except AttestationError α}
    {f : α → Except AttestationError β} :
    Typed (x >>= f) ↔ Typed x ∧ ∀ a, x = .ok a → Typed (f a) := by
  cases x with
  | ok a =>
    simp only [Except.ok.injEq, forall_eq']
    exact (and_iff_right trivial).symm
  | error e =>
    rw [and_iff_left fun a h => nomatch h]
    cases e <;> exact Iff.rfl

/-- What follows a call does not raise something else. -/
theorem typed_bind_iff {α β : Type} {x : Except AttestationError α}
    {f : α → Except AttestationError β} (hf : ∀ a, x = .ok a → Typed (f a)) :
    Typed (x >>= f) ↔ Typed x := typed_bind.trans (and_iff_left hf)

theorem Typed.bind {α β : Type} {x : Except AttestationError α} {f : α → Except AttestationError β}
    (hx : Typed x) (hf : ∀ a, x = .ok a → Typed (f a)) : Typed (x >>= f) :=
  (typed_bind_iff hf).2 hx

/-- The checks of a claim raise something else only for a kind that cannot be hashed. -/
theorem typed_validateClaim {claim : List (PyStr × PyJson)} (h : Short (.obj claim)) :
    Typed (validateClaim (.obj claim)) ↔ ∀ txid,
      PyJson.get claim "txid".toList = some (.str txid) → isTxid txid = true →
        hashable ((PyJson.get claim "kind".toList).getD .null) = true := by
  have hkind := short_getD "kind".toList h
  rw [validateClaim]
  cases htxid : PyJson.get claim "txid".toList with
  | none => exact iff_of_true trivial fun _ heq => nomatch heq
  | some v =>
    cases v with
    | str txid =>
      simp only [Option.some.injEq, PyJson.str.injEq, forall_eq']
      generalize (PyJson.get claim "kind".toList).getD .null = kind at hkind ⊢
      by_cases hid : isTxid txid = true
      · rw [if_neg (not_not.2 hid)]
        by_cases hhash : hashable kind = true
        · rw [if_neg (not_not.2 hhash)]
          refine iff_of_true ?_ fun _ => hhash
          cases kind with
          | str kind =>
            by_cases hk : kind ∉ KINDS
            · simp only [if_pos hk]
              exact typed_shown _ hkind
            · simp only [if_neg hk]
              split
              · split_ifs
                · trivial
                · exact (typed_validateSide _ _).bind fun _ _ =>
                    (typed_validateHandle _).bind fun _ _ => trivial
              · trivial
          | _ => exact typed_shown _ hkind
        · rw [if_pos hhash]
          exact iff_of_false id fun hall => hhash (hall hid)
      · rw [if_pos hid]
        exact iff_of_true trivial fun h => absurd h hid
    | _ => exact iff_of_true trivial fun _ heq => nomatch heq

/-- The amount of a claim that was read has a text. -/
theorem amount_of_validateClaim {v : PyJson} {c : StakeClaim} (hv : v.Short)
    (h : validateClaim v = .ok c) : ∃ s, pyStr c.amount = some s := by
  cases v with
  | obj claim =>
    rw [validateClaim] at h
    split at h
    · simp only at h
      split_ifs at h
      split at h
      · split_ifs at h
        split at h
        · rename_i amount hamount
          split_ifs at h
          obtain ⟨target, -, h⟩ := bind_ok.1 h
          obtain ⟨handle, -, h⟩ := bind_ok.1 h
          obtain rfl := Except.ok.inj h
          cases short_get hv hamount with
          | int hn => exact ⟨_, if_pos hn⟩
        · cases h
      · cases h
    · cases h
  | _ => cases h

/-- A validated claim has a message if its amount has a text. -/
theorem buildStakeMessage_ok {c : StakeClaim} {s : Str} (h : pyStr c.amount = some s) :
    ∃ m, buildStakeMessage c = .ok m := by
  have hmembers : ∀ fields : List (PyStr × Scalar),
      (∀ p ∈ fields, ∃ t, p.2.dumps escapePlain = some t) →
        ∃ text, dumps escapePlain (chars [',']) (chars [':']) fields = some text := by
    intro fields hfields
    have hall : ∃ members, (fields.mapM fun p : PyStr × Scalar =>
        (p.2.dumps escapePlain).map (quote escapePlain p.1 ++ chars [':'] ++ ·)) = some members := by
      induction fields with
      | nil => exact ⟨[], rfl⟩
      | cons p fields ih =>
        rw [List.forall_mem_cons] at hfields
        obtain ⟨t, ht⟩ := hfields.1
        obtain ⟨members, hrest⟩ := ih hfields.2
        exact ⟨_, by rw [List.mapM_cons, ht, hrest]; rfl⟩
    obtain ⟨members, hall⟩ := hall
    exact ⟨_, by rw [dumps, hall]; rfl⟩
  have hamount : ∃ t, Scalar.dumps escapePlain (.int c.amount) = some t :=
    ⟨_, congrArg (Option.map chars) h⟩
  have htext : ∀ t, ∃ u, Scalar.dumps escapePlain (.str t) = some u := fun t => ⟨_, rfl⟩
  unfold buildStakeMessage
  obtain ⟨text, htext⟩ := hmembers ([(chars "txid".toList, .str c.txid),
    (chars "kind".toList, .str c.kind),
    (chars (if c.kind = transfer then "address" else "subject").toList, .str c.target),
    (chars "amount".toList, .int c.amount)] ++
      c.handle.toList.map fun handle => (chars "handle".toList, Scalar.str handle)) (by
    intro p hp
    rcases List.mem_append.1 hp with hp | hp
    · simp only [List.mem_cons, List.not_mem_nil, or_false] at hp
      rcases hp with rfl | rfl | rfl | rfl
      exacts [htext _, htext _, htext _, hamount]
    · obtain ⟨handle, -, rfl⟩ := List.mem_map.1 hp
      exact htext _)
  simp only [htext]
  exact ⟨text, rfl⟩

/-- The message of a proof. -/
def messageOf : PyJson → Option PyStr
  | .obj fields =>
    match PyJson.get fields "message".toList with
    | some (.str message) => some message
    | _ => none
  | _ => none

theorem parseStakeAttestation_eq (proof : PyJson) : parseStakeAttestation depth proof =
    match messageOf proof with
    | none => .error (.badAttestation "proof has no message")
    | some message => parseMessage depth message := by
  cases proof with
  | obj fields =>
    rw [parseStakeAttestation, messageOf]
    cases PyJson.get fields "message".toList with
    | none => rfl
    | some v => cases v <;> rfl
  | _ => rfl

theorem parseMessage_typed_iff (message : PyStr) :
    Typed (parseMessage depth message) ↔ Readable depth message := by
  unfold parseMessage
  cases hload : loads depth message with
  | error e =>
    cases e with
    | valueError =>
      refine iff_of_true trivial ⟨fun h => ?_, fun claim txid h => ?_⟩
      · exact absurd (hload.symm.trans h) (by simp)
      · exact absurd (hload.symm.trans h) (by simp)
    | recursionError => exact iff_of_false id fun h => h.nesting hload
  | ok v =>
    have hshort := loads_short hload
    have hreadable : Readable depth message ↔ Typed (validateClaim v) := by
      cases v with
      | obj claim =>
        rw [typed_validateClaim hshort]
        constructor
        · exact fun h txid => h.kind claim txid hload
        · refine fun h => ⟨fun hr => by simp [hload] at hr, fun claim' txid hclaim => ?_⟩
          obtain rfl := PyJson.obj.inj (Except.ok.inj (hload.symm.trans hclaim))
          exact h txid
      | _ =>
        refine iff_of_true ⟨fun hr => ?_, fun claim txid hclaim => ?_⟩ trivial
        · exact absurd (hload.symm.trans hr) (by simp)
        · exact absurd (hload.symm.trans hclaim) (by simp)
    rw [hreadable]
    refine typed_bind_iff fun c hclaim => ?_
    obtain ⟨s, hs⟩ := amount_of_validateClaim hshort hclaim
    obtain ⟨m, hm⟩ := buildStakeMessage_ok hs
    rw [hm]
    show Typed (if m = message then _ else _)
    split_ifs <;> trivial

/-- `parse_stake_attestation` raises something else only for a message that is not readable. -/
theorem parseStakeAttestation_typed_iff (depth : ℕ) (proof : PyJson) :
    Typed (parseStakeAttestation depth proof) ↔
      ∀ message, messageOf proof = some message → Readable depth message := by
  rw [parseStakeAttestation_eq]
  cases messageOf proof with
  | none => exact iff_of_true trivial fun _ heq => nomatch heq
  | some message =>
    simp only [Option.some.injEq, forall_eq']
    exact parseMessage_typed_iff message

/-! ## Verifying a message -/

/-- The parts of a well-formed proof, and the key behind its address. -/
structure Envelope where
  address : PyStr
  timestamp : PyStr
  message : PyStr
  signature : PyStr
  raw : Bytes

/-- The envelope of a proof that is one. -/
def envelopeOf : PyJson → Option Envelope
  | .obj fields =>
    match isText (PyJson.get fields "scheme".toList) (chars MSG_SCHEME) &&
        isText (PyJson.get fields "version".toList) (chars MSG_VERSION),
      PyJson.get fields "address".toList, PyJson.get fields "timestamp".toList,
      PyJson.get fields "message".toList, PyJson.get fields "signature".toList with
    | true, some (.str address), some (.str ts), some (.str message), some (.str sig) =>
      if isDigits ts then address.decodeAddress.map fun raw => ⟨address, ts, message, sig, raw⟩
      else none
    | _, _, _, _, _ => none
  | _ => none

/-- What an envelope's verification does. -/
def verifyEnvelope (E : Env) (H : Sha256) (e : Envelope) (maxAge : Option ℤ) (current : ℤ) :
    Except MessageError Verdict :=
  match messageCanonical H e.address e.timestamp e.message with
  | none => .error .unicodeEncodeError
  | some canonical =>
    if validateSignature E e.raw canonical e.signature then
      match maxAge with
      | none => .ok ⟨e.address, e.timestamp, e.message, true, none⟩
      | some maxAge =>
        match e.timestamp.str?.bind Unicode.pyNat with
        | none => .error .valueError
        | some t =>
          if maxAge < |current - t| then
            .ok ⟨e.address, e.timestamp, e.message, false, some "expired"⟩
          else .ok ⟨e.address, e.timestamp, e.message, true, none⟩
    else .ok ⟨e.address, e.timestamp, e.message, false, some "bad-signature"⟩

variable {E : Env} {H : Sha256} {maxAge : Option ℤ} {current : ℤ}

theorem verifyMessage_eq (maxAge : Option ℤ) (current : ℤ) (proof : PyJson) :
    (∃ message, envelopeOf proof = none ∧
      verifyMessage E H proof maxAge current = .error (.badProof message)) ∨
    ∃ e, envelopeOf proof = some e ∧
      verifyMessage E H proof maxAge current = verifyEnvelope E H e maxAge current := by
  cases proof with
  | obj fields =>
    rw [envelopeOf, verifyMessage]
    generalize (isText (PyJson.get fields "scheme".toList) (chars MSG_SCHEME) &&
      isText (PyJson.get fields "version".toList) (chars MSG_VERSION)) = scheme
    generalize PyJson.get fields "address".toList = address
    generalize PyJson.get fields "timestamp".toList = timestamp
    generalize PyJson.get fields "message".toList = message
    generalize PyJson.get fields "signature".toList = signature
    -- only the right scheme with four texts is not malformed
    obtain _ | _ := scheme
    · exact Or.inl ⟨_, rfl, rfl⟩
    obtain _ | (_ | _ | _ | _ | address | _ | _) := address <;> try exact Or.inl ⟨_, rfl, rfl⟩
    obtain _ | (_ | _ | _ | _ | ts | _ | _) := timestamp <;> try exact Or.inl ⟨_, rfl, rfl⟩
    obtain _ | (_ | _ | _ | _ | message | _ | _) := message <;> try exact Or.inl ⟨_, rfl, rfl⟩
    obtain _ | (_ | _ | _ | _ | sig | _ | _) := signature <;> try exact Or.inl ⟨_, rfl, rfl⟩
    by_cases hdigits : isDigits ts = true
    · cases hraw : address.decodeAddress with
      | none =>
        refine Or.inl ⟨"invalid address", ?_, ?_⟩
        · simp only [hdigits, if_true, hraw, Option.map_none]
        · simp only [hdigits, if_true, hraw]
      | some raw =>
        refine Or.inr ⟨⟨address, ts, message, sig, raw⟩, ?_, ?_⟩
        · simp only [hdigits, if_true, hraw, Option.map_some]
        · simp only [hdigits, if_true, hraw]
          rfl
    · refine Or.inl ⟨"malformed gc-msg-v1 proof", ?_, ?_⟩
      · exact if_neg hdigits
      · exact if_neg hdigits
  | _ => exact Or.inl ⟨_, rfl, rfl⟩

theorem envelopeOf_spec {proof : PyJson} {e : Envelope} (h : envelopeOf proof = some e) :
    isDigits e.timestamp = true ∧ e.address.decodeAddress = some e.raw := by
  cases proof with
  | obj fields =>
    rw [envelopeOf] at h
    split at h
    · rename_i ts _ _ _ _ _ _ _
      by_cases hdigits : isDigits ts = true
      · rw [if_pos hdigits] at h
        obtain ⟨raw, hraw, rfl⟩ := Option.map_eq_some_iff.1 h
        exact ⟨hdigits, hraw⟩
      · rw [if_neg hdigits] at h
        cases h
    · cases h
  | _ => cases h

/-- `verify_message` returns, or raises `BadProofError`. -/
def TypedProof {α : Type} : Except MessageError α → Prop
  | .ok _ => True
  | .error (.badProof _) => True
  | .error _ => False

instance {α : Type} : (x : Except MessageError α) → Decidable (TypedProof x)
  | .ok _ => isTrue trivial
  | .error (.badProof _) => isTrue trivial
  | .error .unicodeEncodeError => isFalse id
  | .error .valueError => isFalse id
  | .error .recursionError => isFalse id

/-- An envelope is validly signed. -/
def Envelope.signed (e : Envelope) (E : Env) (H : Sha256) : Bool :=
  (messageCanonical H e.address e.timestamp e.message).any fun canonical =>
    validateSignature E e.raw canonical e.signature

/-- The message can be encoded, and the timestamp of a validly signed one, where its age counts,
is not longer than the numbers that the interpreter reads. -/
structure Verifiable (E : Env) (H : Sha256) (maxAge : Option ℤ) (e : Envelope) : Prop where
  text : ∀ n, .surrogate n ∉ e.message
  digits : e.signed E H = true → maxAge ≠ none → e.timestamp.length ≤ intMaxStrDigits

theorem exists_text {s : PyStr} : (∃ t, s.str? = some t) ↔ ∀ n, .surrogate n ∉ s := by
  induction s with
  | nil => simp
  | cons x s ih =>
    rw [PyStr.str?_cons]
    cases x with
    | char c => simpa [CodePoint.char?] using ih
    | surrogate n => exact iff_of_false (by simp [CodePoint.char?]) fun h => h n (by simp)

theorem isDecimal_of_isDigits {s : PyStr} (h : isDigits s = true) :
    ∃ t : Str, s = .ofStr t ∧ IsDecimal t := by
  rw [isDigits, Bool.and_eq_true] at h
  obtain ⟨hne, hall⟩ := h
  have hdigit : ∀ x ∈ s, ∃ c, x = .char c ∧ c.isDigit = true := by
    intro x hx
    have hx' := List.all_eq_true.1 hall x hx
    cases x with
    | char c => exact ⟨c, rfl, hx'⟩
    | surrogate n => cases hx'
  obtain ⟨t, ht⟩ := exists_text.2 fun n hn => by
    obtain ⟨c, hc, -⟩ := hdigit _ hn
    cases hc
  obtain rfl := PyStr.str?_eq_some.1 ht
  refine ⟨t, rfl, ?_, fun c hc => ?_⟩
  · rintro rfl
    exact absurd rfl (of_decide_eq_true hne)
  · obtain ⟨d, hd, hdig⟩ := hdigit (.char c) (List.mem_map_of_mem hc)
    obtain rfl := CodePoint.char.inj hd
    exact hdig

/-- There is a text to sign if the message can be encoded. -/
theorem exists_messageCanonical {address timestamp : Str} {message : PyStr} :
    (∃ canonical, messageCanonical H (chars address) (chars timestamp) message = some canonical) ↔
      ∀ n, .surrogate n ∉ message := by
  rw [← exists_text, messageCanonical, PyStr.encode]
  cases hm : message.str? with
  | none => simp
  | some content =>
    refine iff_of_true ?_ ⟨content, rfl⟩
    refine exists_text.2 fun n => ?_
    simp [Csv.join_cons, PyStr.ofStr]

/-- An envelope's verification raises something else only if it is not verifiable. -/
theorem verifyEnvelope_typed_iff {e : Envelope} (hdigits : isDigits e.timestamp = true)
    (hraw : e.address.decodeAddress = some e.raw) :
    TypedProof (verifyEnvelope E H e maxAge current) ↔ Verifiable E H maxAge e := by
  obtain ⟨address, haddress, -⟩ := PyStr.decodeWith_eq_some hraw
  obtain ⟨ts, hts, hdecimal⟩ := isDecimal_of_isDigits hdigits
  have htext : (∃ canonical, messageCanonical H e.address e.timestamp e.message = some canonical) ↔
      ∀ n, .surrogate n ∉ e.message := by
    rw [haddress, hts]
    exact exists_messageCanonical
  have hlength : e.timestamp.length = ts.length := by
    rw [hts, PyStr.ofStr, List.length_map]
  unfold verifyEnvelope
  cases hcanonical : messageCanonical H e.address e.timestamp e.message with
  | none =>
    refine iff_of_false id fun h => ?_
    obtain ⟨canonical, hsome⟩ := htext.2 h.text
    rw [hcanonical] at hsome
    cases hsome
  | some canonical =>
    have hclean := htext.1 ⟨canonical, hcanonical⟩
    have hsigned : e.signed E H = validateSignature E e.raw canonical e.signature := by
      rw [Envelope.signed, hcanonical]
      rfl
    by_cases hsig : validateSignature E e.raw canonical e.signature = true
    · simp only [hsig, if_true]
      cases maxAge with
      | none => exact iff_of_true trivial ⟨hclean, fun _ h => absurd rfl h⟩
      | some m =>
        have hnat : e.timestamp.str?.bind Unicode.pyNat = Unicode.pyNat ts := by
          rw [hts, PyStr.str?_ofStr]
          rfl
        simp only [hnat, Unicode.pyNat_of_isDecimal hdecimal]
        by_cases hlen : ts.length ≤ intMaxStrDigits
        · rw [if_pos hlen]
          refine iff_of_true ?_ ⟨hclean, fun _ _ => hlength ▸ hlen⟩
          show TypedProof (if _ then _ else _)
          split_ifs <;> trivial
        · rw [if_neg hlen]
          refine iff_of_false id fun h => hlen ?_
          exact hlength ▸ h.digits (hsigned.trans hsig) (Option.some_ne_none m)
    · simp only [hsig]
      exact iff_of_true trivial ⟨hclean, fun h => absurd (hsigned.symm.trans h) hsig⟩

/-- `verify_message` raises something else only for an envelope that is not verifiable. -/
theorem verifyMessage_typed_iff (proof : PyJson) :
    TypedProof (verifyMessage E H proof maxAge current) ↔
      ∀ e, envelopeOf proof = some e → Verifiable E H maxAge e := by
  rcases verifyMessage_eq (E := E) (H := H) maxAge current proof with
    ⟨m, hnone, herror⟩ | ⟨e, hsome, heq⟩
  · rw [herror, hnone]
    exact iff_of_true trivial fun _ h => nomatch h
  · obtain ⟨hdigits, hraw⟩ := envelopeOf_spec hsome
    rw [heq, hsome, verifyEnvelope_typed_iff hdigits hraw]
    simp only [Option.some.injEq, forall_eq']

/-! ## Verifying a stake -/

/-- An envelope is validly signed, and not too old where its age counts. -/
def Envelope.accepted (e : Envelope) (E : Env) (H : Sha256) (maxAge : Option ℤ) (current : ℤ) :
    Bool :=
  e.signed E H && maxAge.all fun m =>
    (e.timestamp.str?.bind Unicode.pyNat).any fun t => |current - t| ≤ m

theorem verifyEnvelope_ok {e : Envelope} {v : Verdict}
    (h : verifyEnvelope E H e maxAge current = .ok v) :
    v.address = e.address ∧ v.valid = e.accepted E H maxAge current := by
  unfold verifyEnvelope at h
  unfold Envelope.accepted Envelope.signed
  cases hcanonical : messageCanonical H e.address e.timestamp e.message with
  | none => rw [hcanonical] at h; cases h
  | some canonical =>
    simp only [hcanonical, Option.any_some] at h ⊢
    by_cases hsig : validateSignature E e.raw canonical e.signature = true
    · simp only [hsig, if_true, Bool.true_and] at h ⊢
      cases maxAge with
      | none => obtain rfl := Except.ok.inj h; exact ⟨rfl, rfl⟩
      | some m =>
        cases hnat : e.timestamp.str?.bind Unicode.pyNat with
        | none => simp only [hnat] at h; cases h
        | some t =>
          simp only [hnat] at h
          by_cases hage : m < |current - t|
          · rw [if_pos hage] at h
            obtain rfl := Except.ok.inj h
            exact ⟨rfl, (decide_eq_false (not_le.2 hage)).symm⟩
          · rw [if_neg hage] at h
            obtain rfl := Except.ok.inj h
            exact ⟨rfl, (decide_eq_true (not_lt.1 hage)).symm⟩
    · simp only [hsig] at h ⊢
      obtain rfl := Except.ok.inj h
      exact ⟨rfl, rfl⟩

/-- What an envelope's verification raises is no `BadProofError`. -/
theorem verifyEnvelope_of_typed {e : Envelope}
    (h : TypedProof (verifyEnvelope E H e maxAge current)) :
    ∃ v, verifyEnvelope E H e maxAge current = .ok v := by
  have hbad : ∀ message, verifyEnvelope E H e maxAge current ≠ .error (.badProof message) := by
    intro message heq
    unfold verifyEnvelope at heq
    split at heq
    · cases heq
    · split_ifs at heq
      split at heq
      · cases heq
      · split at heq
        · cases heq
        · split_ifs at heq
  cases hv : verifyEnvelope E H e maxAge current with
  | ok v => exact ⟨v, rfl⟩
  | error err =>
    rw [hv] at h
    cases err with
    | badProof message => exact absurd hv (hbad message)
    | _ => exact h.elim

/-- A value that `(v or 0) < m` compares. -/
def comparable : PyJson → Bool
  | .str s => s = []
  | .arr items => items.isEmpty
  | .obj fields => fields.isEmpty
  | _ => true

theorem lessThan_isSome (v : PyJson) (m : ℤ) : (lessThan v m).isSome = comparable v := by
  unfold lessThan
  cases v with
  | null => rfl
  | bool b => cases b <;> rfl
  | int n => split_ifs <;> rfl
  | float x =>
    cases x with
    | finite q => by_cases hq : q = 0 <;> simp [truthy, comparable, hq]
    | _ => rfl
  | str s => cases s <;> rfl
  | arr items => cases items <;> rfl
  | obj fields => cases fields <;> rfl

/-- An item of `outflows` that is the claimed one. -/
def isMatch (claim : StakeClaim) : PyJson → Bool
  | .obj o => matchesClaim claim o
  | _ => false

/-- A value that has a `get`. -/
def isObject : PyJson → Bool
  | .obj _ => true
  | _ => false

/-- The outflows can be gone through, and are dictionaries up to the claimed one. -/
def Searchable (claim : StakeClaim) (outflows : PyJson) : Prop :=
  ∃ items, iterate outflows = some items ∧
    ∀ o ∈ items.takeWhile fun o => !isMatch claim o, isObject o = true

theorem anyMatches_typed_iff (claim : StakeClaim) (items : List PyJson) :
    Typed (anyMatches claim items) ↔
      ∀ o ∈ items.takeWhile fun o => !isMatch claim o, isObject o = true := by
  induction items with
  | nil => exact iff_of_true trivial fun _ h => nomatch h
  | cons o rest ih =>
    cases o with
    | obj o =>
      rw [anyMatches]
      by_cases hmatch : matchesClaim claim o = true
      · have hstop : (!isMatch claim (.obj o)) = false := by simp [isMatch, hmatch]
        rw [if_pos hmatch, List.takeWhile_cons_of_neg (by simp [hstop])]
        exact iff_of_true trivial fun _ h => nomatch h
      · have hgo : (!isMatch claim (.obj o)) = true := by simp [isMatch, hmatch]
        rw [if_neg hmatch, ih, List.takeWhile_cons_of_pos (p := fun o => !isMatch claim o) hgo,
          List.forall_mem_cons]
        exact (and_iff_right rfl).symm
    | _ =>
      refine iff_of_false id fun h => ?_
      rw [List.takeWhile_cons_of_pos rfl, List.forall_mem_cons] at h
      exact absurd h.1 Bool.false_ne_true

theorem outflowMatches_typed_iff (claim : StakeClaim) (outflows : PyJson) :
    Typed (outflowMatches claim outflows) ↔ Searchable claim outflows := by
  unfold outflowMatches Searchable
  cases iterate outflows with
  | none => exact iff_of_false id fun ⟨_, h, _⟩ => nomatch h
  | some items =>
    simp only [Option.some.injEq, exists_eq_left']
    exact anyMatches_typed_iff claim items

/-- What `verify_stake` looks at in a canonical transaction's provenance has the right types:
the confirmations where some are asked for, and, where there are enough of them, the outflows of
the signer of an accepted envelope. -/
structure Judgeable (claim : StakeClaim) (signer : PyStr) (accepted : Bool)
    (minConfirmations : Option ℤ) (provenance : List (PyStr × PyJson)) : Prop where
  confirmations : ∀ m, minConfirmations = some m →
    comparable ((PyJson.get provenance "confirmations".toList).getD .null) = true
  outflows : accepted = true →
    (∀ m, minConfirmations = some m →
      lessThan ((PyJson.get provenance "confirmations".toList).getD .null) m = some false) →
    isText (PyJson.get provenance "address".toList) signer = true →
      Searchable claim ((PyJson.get provenance "outflows".toList).getD (.arr []))

theorem onchain_typed_iff (minConfirmations : Option ℤ)
    (provenance : Option (List (PyStr × PyJson))) :
    Typed (onchain minConfirmations provenance) ↔ ∀ p, provenance = some p →
      isText (PyJson.get p "status".toList) (chars "canonical".toList) = true →
        ∀ m, minConfirmations = some m →
          comparable ((PyJson.get p "confirmations".toList).getD .null) = true := by
  cases provenance with
  | none => exact iff_of_true trivial fun _ h => nomatch h
  | some p =>
    simp only [Option.some.injEq, forall_eq', onchain]
    by_cases hstatus : isText (PyJson.get p "status".toList) (chars "canonical".toList) = true
    · rw [if_pos hstatus, forall_prop_of_true hstatus]
      cases minConfirmations with
      | none => exact iff_of_true trivial fun _ h => nomatch h
      | some m =>
        simp only [Option.some.injEq, forall_eq', ← lessThan_isSome _ m]
        rcases lessThan ((PyJson.get p "confirmations".toList).getD .null) m with _ | (_ | _)
        · exact iff_of_false id Bool.false_ne_true
        · exact iff_of_true trivial rfl
        · exact iff_of_true trivial rfl
    · rw [if_neg hstatus]
      exact iff_of_true trivial fun h => absurd h hstatus

/-- Nothing speaks against a transaction that is on the chain. -/
theorem onchain_eq_none {minConfirmations : Option ℤ} {p : List (PyStr × PyJson)} :
    onchain minConfirmations (some p) = .ok none ↔
      isText (PyJson.get p "status".toList) (chars "canonical".toList) = true ∧
        ∀ m, minConfirmations = some m →
          lessThan ((PyJson.get p "confirmations".toList).getD .null) m = some false := by
  simp only [onchain]
  by_cases hstatus : isText (PyJson.get p "status".toList) (chars "canonical".toList) = true
  · rw [if_pos hstatus, and_iff_right hstatus]
    cases minConfirmations with
    | none => exact iff_of_true rfl fun _ h => nomatch h
    | some m =>
      simp only [Option.some.injEq, forall_eq']
      rcases lessThan ((PyJson.get p "confirmations".toList).getD .null) m with _ | (_ | _) <;>
        simp
  · rw [if_neg hstatus]
    exact iff_of_false (by simp) fun h => hstatus h.1

theorem consistent_typed_iff (claim : StakeClaim) (signer : PyStr)
    (p : List (PyStr × PyJson)) : Typed (consistent claim signer p) ↔
      (isText (PyJson.get p "address".toList) signer = true →
        Searchable claim ((PyJson.get p "outflows".toList).getD (.arr []))) := by
  rw [consistent, ← outflowMatches_typed_iff]
  by_cases hsigner : isText (PyJson.get p "address".toList) signer = true
  · rw [if_pos hsigner, forall_prop_of_true hsigner]
    rcases outflowMatches claim ((PyJson.get p "outflows".toList).getD (.arr [])) with e | (_ | _)
    · cases e <;> exact Iff.rfl
    · exact Iff.rfl
    · exact Iff.rfl
  · rw [if_neg hsigner]
    exact iff_of_true trivial fun h => absurd h hsigner

theorem typed_mapError {x : Except MessageError Verdict} :
    Typed (x.mapError ofMessageError) ↔ TypedProof x := by
  cases x with
  | ok v => exact Iff.rfl
  | error e => cases e <;> exact Iff.rfl

theorem typed_map {α β : Type} {f : α → β} {x : Except AttestationError α} :
    Typed (x.map f) ↔ Typed x := by
  cases x with
  | ok a => exact Iff.rfl
  | error e => cases e <;> exact Iff.rfl

/-- What is said of a claim's transaction. -/
theorem judgeable_iff (claim : StakeClaim) (valid : Bool) (signer : PyStr)
    (minConfirmations : Option ℤ) (provenance : Option (List (PyStr × PyJson))) :
    (Typed (onchain minConfirmations provenance) ∧
      ∀ missing, onchain minConfirmations provenance = .ok missing →
        Typed (inconsistency claim valid signer missing provenance)) ↔
    ∀ p, provenance = some p →
      isText (PyJson.get p "status".toList) (chars "canonical".toList) = true →
        Judgeable claim signer valid minConfirmations p := by
  cases provenance with
  | none =>
    refine iff_of_true ⟨trivial, fun missing hmissing => ?_⟩ fun _ h => nomatch h
    obtain rfl := Except.ok.inj hmissing
    cases valid <;> trivial
  | some p =>
    rw [onchain_typed_iff]
    simp only [Option.some.injEq, forall_eq']
    constructor
    · refine fun ⟨hconfirmations, houtflows⟩ hstatus => ⟨hconfirmations hstatus, ?_⟩
      intro hvalid henough
      have htyped := houtflows none (onchain_eq_none.2 ⟨hstatus, henough⟩)
      rw [hvalid, inconsistency, typed_map, consistent_typed_iff] at htyped
      exact htyped
    · refine fun h => ⟨fun hstatus => (h hstatus).confirmations, fun missing hmissing => ?_⟩
      rcases missing with _ | reason
      · obtain ⟨hstatus, henough⟩ := onchain_eq_none.1 hmissing
        cases hvalid : valid with
        | false => trivial
        | true =>
          rw [inconsistency, typed_map, consistent_typed_iff]
          exact (h hstatus).outflows hvalid henough
      · cases valid <;> trivial

/-- `verify_stake` raises something else only for a message that is not readable, an envelope that
is not verifiable or a provenance that cannot be judged. -/
theorem verifyStake_typed_iff (proof : PyJson)
    (fetchProvenance : PyStr → Option (List (PyStr × PyJson))) (minConfirmations : Option ℤ) :
    Typed (verifyStake E H depth proof fetchProvenance maxAge minConfirmations current) ↔
      (∀ message, messageOf proof = some message → Readable depth message) ∧
      ∀ claim, parseStakeAttestation depth proof = .ok claim → ∀ e, envelopeOf proof = some e →
        Verifiable E H maxAge e ∧ ∀ p, fetchProvenance claim.txid = some p →
          isText (PyJson.get p "status".toList) (chars "canonical".toList) = true →
            Judgeable claim e.address (e.accepted E H maxAge current) minConfirmations p := by
  rw [verifyStake, typed_bind, parseStakeAttestation_typed_iff]
  refine and_congr_right fun _ => forall_congr' fun claim => forall_congr' fun _ => ?_
  rw [typed_bind, typed_mapError]
  rcases verifyMessage_eq (E := E) (H := H) maxAge current proof with
    ⟨m, hnone, herror⟩ | ⟨e, hsome, heq⟩
  · rw [herror, hnone]
    exact iff_of_true ⟨trivial, fun _ h => nomatch h⟩ fun _ h => nomatch h
  · obtain ⟨hdigits, hraw⟩ := envelopeOf_spec hsome
    rw [heq, hsome, verifyEnvelope_typed_iff hdigits hraw]
    simp only [Option.some.injEq, forall_eq']
    refine and_congr_right fun hverifiable => ?_
    have htyped : TypedProof (verifyEnvelope E H e maxAge current) :=
      (verifyEnvelope_typed_iff hdigits hraw).2 hverifiable
    obtain ⟨sig, hsig⟩ := verifyEnvelope_of_typed htyped
    obtain ⟨haddress, hvalid⟩ := verifyEnvelope_ok hsig
    rw [hsig, ← haddress, ← hvalid, ← judgeable_iff, Except.mapError]
    simp only [Except.ok.injEq, forall_eq']
    rw [typed_bind]
    exact and_congr_right fun _ => forall_congr' fun missing => forall_congr' fun _ =>
      typed_bind_iff fun _ _ => trivial

/-- What escapes from the three functions: a parse of a message that nests too deeply or whose
kind cannot be hashed, a verification of a message that cannot be encoded or of a timestamp that is
too long, and a judgement of values of the wrong types. -/
theorem proof_verification_typed_iff (E : Env) (H : Sha256) (depth : ℕ) (proof : PyJson)
    (maxAge : Option ℤ) (current : ℤ) :
    (Typed (parseStakeAttestation depth proof) ↔
      ∀ message, messageOf proof = some message → Readable depth message) ∧
    (TypedProof (verifyMessage E H proof maxAge current) ↔
      ∀ e, envelopeOf proof = some e → Verifiable E H maxAge e) ∧
    ∀ (fetchProvenance : PyStr → Option (List (PyStr × PyJson))) (minConfirmations : Option ℤ),
      Typed (verifyStake E H depth proof fetchProvenance maxAge minConfirmations current) ↔
        (∀ message, messageOf proof = some message → Readable depth message) ∧
        ∀ claim, parseStakeAttestation depth proof = .ok claim →
          ∀ e, envelopeOf proof = some e →
            Verifiable E H maxAge e ∧ ∀ p, fetchProvenance claim.txid = some p →
              isText (PyJson.get p "status".toList) (chars "canonical".toList) = true →
                Judgeable claim e.address (e.accepted E H maxAge current) minConfirmations p :=
  ⟨parseStakeAttestation_typed_iff depth proof, verifyMessage_typed_iff proof,
    verifyStake_typed_iff proof⟩

end Attestation

namespace Sample

/-- A proof of a message. -/
def proofObject (message : PyStr) : PyJson :=
  .obj [(chars "scheme".toList, .str (chars Message.MSG_SCHEME)),
    (chars "version".toList, .str (chars Message.MSG_VERSION)),
    (chars "address".toList, .str (chars alice)), (chars "timestamp".toList, .str (chars ['0'])),
    (chars "message".toList, .str message), (chars "signature".toList, .str [])]

/-- A claim whose kind is a list. -/
def listKind : PyStr :=
  chars ("\x7b\"txid\":\"".toList ++ List.replicate 64 '0' ++ "\",\"kind\":[]\x7d".toList)

end Sample

namespace Attestation

/-- A list is looked up in a set, and a lone surrogate is encoded. -/
theorem proof_verification_escapes :
    ¬ Typed (parseStakeAttestation 100 (Sample.proofObject Sample.listKind)) ∧
    ¬ Typed (verifyStake Sample.stampEnv Sample.shortDigest 100 (Sample.proofObject Sample.listKind)
      (fun _ => none) none none 0) ∧
    ¬ TypedProof (verifyMessage Sample.stampEnv Sample.shortDigest
      (Sample.proofObject [.surrogate 0]) none 0) := by
  refine ⟨?_, ?_, ?_⟩
  · decide +kernel
  · decide +kernel
  · decide +kernel

end Attestation

end GumptionChain
