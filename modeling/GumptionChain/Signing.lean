import GumptionChain.Codec.Unicode
import GumptionChain.Reachable

/-!
# Signed requests

`signing.py`: the canonical text of a request, the headers that carry its signature, and
their verification by a node.

* `verify_eq_ok` — what a node has checked when it accepts;
* `canonical_injective` — the canonical text of a request without line breaks outside
  its path determines the request;
* `signatures_bind` — signed headers are accepted while they are fresh, and for one
  request only.
-/

namespace GumptionChain

namespace Signing

/-- `SIG_VERSION`. -/
def SIG_VERSION : Str := ['1']

/-- `SIG_SCHEME`. -/
def SIG_SCHEME : Str := ['g', 'c', '-', 's', 'i', 'g', '-', 'v', '1']

/-- `FRESHNESS_SECONDS`. -/
def FRESHNESS_SECONDS : ℕ := 300

/-- The request that is signed. -/
structure Request where
  method : Str
  path : Str
  query : Str
  body : Option Bytes
  nodeHost : Str

/-- The headers of a request, as far as they are read. -/
structure Headers where
  version : Option Str
  address : Option Str
  timestamp : Option Str
  signature : Option Str
  deriving DecidableEq

section Functions

variable (U : Unicode) (H : Sha256) (E : Env)

/-- `body or b''`. -/
def Request.content (r : Request) : Bytes := r.body.getD []

/-- `_canonical`, before it is encoded. -/
def canonical (r : Request) (timestamp address : Str) : Str :=
  Csv.join '\n' [SIG_SCHEME, U.upper r.method, r.path, r.query, H.hexdigest r.content, r.nodeHost,
    timestamp, address]

/-- `sign_headers`, the time in seconds: `None` if the time has no text. -/
def signHeaders (key : SigningKey) (r : Request) (timestamp : ℤ) : Option Headers :=
  (pyStr timestamp).map fun ts =>
    { version := some SIG_VERSION
      address := some key.address
      timestamp := some ts
      signature := some (key.sign (canonical U H r ts key.address)) }

/-- `verify`, with the server's time: the address, or the text of a `SignatureError`. -/
def verify (headers : Headers) (r : Request) (current : ℤ) : Except String Str :=
  if headers.version ≠ some SIG_VERSION then .error "unsupported signature version"
  else
    match headers.address, headers.timestamp, headers.signature with
    | some address, some ts, some sig =>
      if address = [] ∨ ts = [] ∨ sig = [] then .error "missing signature headers"
      else
        match U.pyInt ts with
        | none => .error "malformed timestamp"
        | some tsVal =>
          if FRESHNESS_SECONDS < |current - tsVal| then .error "stale or future timestamp"
          else if Env.publicKeyFromAddress address = none then .error "invalid address"
          else if E.validateSignature (some address) (canonical U H r ts address) (some sig) then
            .ok address
          else .error "signature verification failed"
    | _, _, _ => .error "missing signature headers"

end Functions

variable {U : Unicode} {H : Sha256} {E : Env} {headers : Headers} {r : Request} {current : ℤ}
  {address : Str}

/-- What a node has checked when it accepts a request. -/
theorem verify_eq_ok : verify U H E headers r current = .ok address ↔
    headers.version = some SIG_VERSION ∧ headers.address = some address ∧
      ∃ ts sig tsVal, headers.timestamp = some ts ∧ headers.signature = some sig ∧
        address ≠ [] ∧ ts ≠ [] ∧ sig ≠ [] ∧ U.pyInt ts = some tsVal ∧
        |current - tsVal| ≤ FRESHNESS_SECONDS ∧
        E.validateSignature (some address) (canonical U H r ts address) (some sig) = true := by
  constructor
  · intro h
    unfold verify at h
    split_ifs at h with hversion
    split at h
    · rename_i a ts sig haddress hts hsig
      by_cases hempty : a = [] ∨ ts = [] ∨ sig = []
      · rw [if_pos hempty] at h
        cases h
      rw [if_neg hempty] at h
      push Not at hempty
      cases hint : U.pyInt ts with
      | none =>
        rw [hint] at h
        cases h
      | some tsVal =>
        rw [hint] at h
        simp only at h
        split_ifs at h with hfresh _ hvalid
        obtain rfl := Except.ok.inj h
        exact ⟨not_not.1 hversion, haddress, ts, sig, tsVal, hts, hsig, hempty.1, hempty.2.1,
          hempty.2.2, hint, not_lt.1 hfresh, hvalid⟩
    · exact absurd h (by simp)
  · rintro ⟨hversion, haddress, ts, sig, tsVal, hts, hsig, hne, htsne, hsigne, hint, hfresh,
      hvalid⟩
    have hkey : Env.publicKeyFromAddress address ≠ none := by
      intro hnone
      simp [Env.validateSignature, hnone] at hvalid
    have hempty : ¬ (address = [] ∨ ts = [] ∨ sig = []) := by simp [hne, htsne, hsigne]
    unfold verify
    rw [if_neg (not_not.2 hversion), haddress, hts, hsig]
    simp only
    rw [if_neg hempty, hint]
    simp only
    rw [if_neg (not_lt.2 hfresh), if_neg hkey, if_pos hvalid]

/-- A verified signature and its address are texts. -/
theorem ne_nil_of_validateSignature {a m sig : Str}
    (h : E.validateSignature (some a) m (some sig) = true) : a ≠ [] ∧ sig ≠ [] := by
  obtain ⟨a', s, raw, ha, hs, hraw, hlen⟩ := Env.validateSignature_length E h
  obtain rfl := Option.some.inj ha
  obtain rfl := Option.some.inj hs
  constructor
  · rintro rfl
    simp [Env.validateSignature, Env.publicKeyFromAddress,
      (by decide +kernel : decodeAddress [] = none)] at h
  · rintro rfl
    obtain rfl := Option.some.inj hraw
    exact absurd hlen (by decide)

/-! ## The canonical text -/

/-- The parts of a signed request that must hold no line break. -/
structure Plain (r : Request) (timestamp address : Str) : Prop where
  method : '\n' ∉ r.method
  query : '\n' ∉ r.query
  nodeHost : '\n' ∉ r.nodeHost
  timestamp : '\n' ∉ timestamp
  address : '\n' ∉ address

/-- The canonical text of a request without line breaks outside its path determines its
parts: the scheme and the method are read from the start, the others from the end. -/
theorem canonical_injective {r r' : Request} {ts ts' a a' : Str} (h : Plain r ts a)
    (h' : Plain r' ts' a') (heq : canonical U H r ts a = canonical U H r' ts' a') :
    U.upper r.method = U.upper r'.method ∧ r.path = r'.path ∧ r.query = r'.query ∧
      H.hexdigest r.content = H.hexdigest r'.content ∧ r.nodeHost = r'.nodeHost ∧ ts = ts' ∧
      a = a' := by
  have hshape : ∀ (r : Request) (ts a : Str), canonical U H r ts a =
      SIG_SCHEME ++ '\n' :: (U.upper r.method ++ '\n' :: (((((r.path ++ '\n' :: r.query) ++
        '\n' :: H.hexdigest r.content) ++ '\n' :: r.nodeHost) ++ '\n' :: ts) ++ '\n' :: a)) := by
    intro r ts a
    simp [canonical, Csv.join_cons]
  rw [hshape, hshape, List.append_cancel_left_eq, List.cons.injEq] at heq
  obtain ⟨hmethod, heq⟩ := append_newline_inj (U.upper_newline h.method)
    (U.upper_newline h'.method) heq.2
  obtain ⟨heq, ha⟩ := newline_append_inj h.address h'.address heq
  obtain ⟨heq, hts⟩ := newline_append_inj h.timestamp h'.timestamp heq
  obtain ⟨heq, hhost⟩ := newline_append_inj h.nodeHost h'.nodeHost heq
  obtain ⟨heq, hdigest⟩ := newline_append_inj (H.newline _) (H.newline _) heq
  obtain ⟨hpath, hquery⟩ := newline_append_inj h.query h'.query heq
  exact ⟨hmethod, hpath, hquery, hdigest, hhost, hts, ha⟩

/-- Fresh headers are accepted under the address of the key that signed them. -/
theorem verify_signHeaders {key : SigningKey} {timestamp : ℤ}
    (hsign : signHeaders U H key r timestamp = some headers)
    (hvalid : E.validateSignature (some key.address)
      (canonical U H r (intStr timestamp) key.address)
      (some (key.sign (canonical U H r (intStr timestamp) key.address))) = true)
    (hfresh : |current - timestamp| ≤ FRESHNESS_SECONDS) :
    verify U H E headers r current = .ok key.address := by
  obtain ⟨ts, hts, rfl⟩ := Option.map_eq_some_iff.1 hsign
  have htext : ts = intStr timestamp := by
    unfold pyStr at hts
    split_ifs at hts
    exact (Option.some.inj hts).symm
  subst htext
  obtain ⟨hne, hsigne⟩ := ne_nil_of_validateSignature hvalid
  exact verify_eq_ok.2 ⟨rfl, rfl, _, _, timestamp, rfl, rfl, hne,
    Unicode.intStr_ne_nil timestamp, hsigne, U.pyInt_intStr hts, hfresh, hvalid⟩

/-- Two requests a node reads alike. -/
structure Same (U : Unicode) (r r' : Request) : Prop where
  method : U.upper r.method = U.upper r'.method
  path : r.path = r'.path
  query : r.query = r'.query
  content : r.content = r'.content
  nodeHost : r.nodeHost = r'.nodeHost

end Signing

open Signing in
/-- Signed headers are accepted for their request while they are fresh; the canonical
text determines the parts of a request; and one signature is accepted for one request,
at one time and under one address. -/
theorem signatures_bind (U : Unicode) (H : Sha256) (E : Env) {T : Set Str} {B : Set Bytes}
    (hbind : E.SignaturesBind T) (hcollision : Set.InjOn H.hexdigest B) :
    (∀ (key : SigningKey) (r : Request) (timestamp : ℤ) (headers : Headers) (current : ℤ),
      (∀ m ∈ T, E.validateSignature (some key.address) m (some (key.sign m)) = true) →
      canonical U H r (intStr timestamp) key.address ∈ T →
      signHeaders U H key r timestamp = some headers →
      |current - timestamp| ≤ FRESHNESS_SECONDS →
        verify U H E headers r current = .ok key.address) ∧
    (∀ (r r' : Request) (ts ts' a a' : Str), Plain r ts a → Plain r' ts' a' →
      canonical U H r ts a = canonical U H r' ts' a' →
        U.upper r.method = U.upper r'.method ∧ r.path = r'.path ∧ r.query = r'.query ∧
          H.hexdigest r.content = H.hexdigest r'.content ∧ r.nodeHost = r'.nodeHost ∧
          ts = ts' ∧ a = a') ∧
    ∀ (headers headers' : Headers) (r r' : Request) (current current' : ℤ) (ts ts' a a' : Str),
      verify U H E headers r current = .ok a → verify U H E headers' r' current' = .ok a' →
      headers.timestamp = some ts → headers'.timestamp = some ts' →
      headers.signature = headers'.signature → Plain r ts a → Plain r' ts' a' →
      canonical U H r ts a ∈ T → canonical U H r' ts' a' ∈ T → r.content ∈ B → r'.content ∈ B →
        Same U r r' ∧ ts = ts' ∧ a = a' := by
  refine ⟨?_, fun r r' ts ts' a a' => canonical_injective, ?_⟩
  · intro key r timestamp headers current hverifies hmem hsign hfresh
    exact verify_signHeaders hsign (hverifies _ hmem) hfresh
  · intro headers headers' r r' current current' ts ts' a a' hok hok' hts hts' hsig hplain hplain'
      hmem hmem' hbody hbody'
    obtain ⟨-, -, _, sig, _, hts₁, hsig₁, -, -, -, -, -, hvalid⟩ := verify_eq_ok.1 hok
    obtain ⟨-, -, _, sig', _, hts₂, hsig₂, -, -, -, -, -, hvalid'⟩ := verify_eq_ok.1 hok'
    obtain rfl := Option.some.inj (hts.symm.trans hts₁)
    obtain rfl := Option.some.inj (hts'.symm.trans hts₂)
    obtain rfl := Option.some.inj (hsig₁.symm.trans (hsig.trans hsig₂))
    have heq := hbind _ _ _ _ _ hmem hmem' hvalid hvalid'
    obtain ⟨hmethod, hpath, hquery, hdigest, hhost, htime, haddress⟩ :=
      canonical_injective hplain hplain' heq
    exact ⟨⟨hmethod, hpath, hquery, hcollision hbody hbody' hdigest, hhost⟩, htime, haddress⟩

namespace Sample

/-- The first 64 bytes of a text. -/
def stamp (m : Str) : Bytes := (utf8Encode m ++ List.replicate 64 0).take 64

/-- A scheme whose signature is the start of the text. -/
def stampEnv : Env := { env with ed25519Rule := fun _ sig message =>
  sig = (message ++ List.replicate 64 0).take 64 }

/-- Its key. -/
def stampKey : SigningKey := ⟨alice, fun m => b64encode (stamp m)⟩

theorem length_stamp (m : Str) : (stamp m).length = 64 := by
  simp only [stamp, List.length_take, List.length_append, List.length_replicate]
  omega

theorem stamp_of_validateSignature {a m sig : Str}
    (h : stampEnv.validateSignature (some a) m (some sig) = true) :
    b64decode sig = some (stamp m) := by
  simp only [Env.validateSignature] at h
  split at h
  · rename_i raw s _ hsig
    unfold Env.ed25519Verify at h
    split_ifs at h
    rw [hsig, of_decide_eq_true h]
    rfl
  · exact absurd h (by simp)

theorem validateSignature_stamp (m : Str) :
    stampEnv.validateSignature (some alice) m (some (stampKey.sign m)) = true := by
  obtain ⟨raw, hraw, hlen⟩ : ∃ raw, decodeAddress alice = some raw ∧ raw.length = 32 := by
    have hkey : (decodeAddress alice).map List.length = some 32 := by decide +kernel
    exact Option.map_eq_some_iff.1 hkey
  simp only [Env.validateSignature, Env.publicKeyFromAddress, hraw, stampKey,
    b64decode_b64encode, Env.ed25519Verify, hlen, length_stamp]
  exact decide_eq_true rfl

/-- A request with a line break in its path, -/
def getLines : Signing.Request := ⟨['g', 'e', 't'], ['/', 'b', '\n', 'q'], [], none, ['n']⟩

/-- one that a node reads alike, -/
def getUpper : Signing.Request := { getLines with method := ['G', 'E', 'T'] }

/-- and one that holds the second line in its query. -/
def getQuery : Signing.Request := ⟨['g', 'e', 't'], ['/', 'b'], ['q'], none, ['n']⟩

/-- What was signed. -/
def signedTexts : List Str := [getLines, getUpper, getQuery].map fun r =>
  Signing.canonical asciiTables shortDigest r (intStr 1000) alice

theorem signedTexts_bind : stampEnv.SignaturesBind { m | m ∈ signedTexts } := by
  have hinj : ∀ m ∈ signedTexts, ∀ m' ∈ signedTexts, stamp m = stamp m' → m = m' := by
    decide +kernel
  intro a a' sig m m' hm hm' h h'
  obtain ⟨_, _, _, rfl, rfl, -⟩ := Env.validateSignature_length _ h
  obtain ⟨_, _, _, rfl, -, -⟩ := Env.validateSignature_length _ h'
  exact hinj m hm m' hm' (Option.some.inj
    ((stamp_of_validateSignature h).symm.trans (stamp_of_validateSignature h')))

/-- The headers of the first request. -/
def linesHeaders : Signing.Headers where
  version := some Signing.SIG_VERSION
  address := some alice
  timestamp := some ['1', '0', '0', '0']
  signature := some (stampKey.sign
    (Signing.canonical asciiTables shortDigest getLines (intStr 1000) alice))

theorem plain {r : Signing.Request} (h : r ∈ [getLines, getUpper, getQuery]) :
    Signing.Plain r ['1', '0', '0', '0'] alice := by
  have hparts : ∀ r ∈ [getLines, getUpper, getQuery], '\n' ∉ r.method ∧ '\n' ∉ r.query ∧
      '\n' ∉ r.nodeHost := by decide
  obtain ⟨hmethod, hquery, hhost⟩ := hparts r h
  exact ⟨hmethod, hquery, hhost, by decide, by decide +kernel⟩

end Sample

open Signing Sample in
/-- The headers are accepted at both ends of their window, for the request in either case of
its method, and not for the one whose lines are cut elsewhere. -/
theorem signatures_bind_lines :
    verify asciiTables shortDigest stampEnv linesHeaders getLines 1300 = .ok alice ∧
      verify asciiTables shortDigest stampEnv linesHeaders getUpper 700 = .ok alice ∧
      Same asciiTables getLines getUpper ∧
      canonical asciiTables shortDigest getLines ['1', '0', '0', '0'] alice ≠
        canonical asciiTables shortDigest getQuery ['1', '0', '0', '0'] alice ∧
      verify asciiTables shortDigest stampEnv linesHeaders getQuery 1000 ≠ .ok alice := by
  obtain ⟨haccepts, hdetermines, hbinds⟩ := signatures_bind asciiTables shortDigest stampEnv
    signedTexts_bind (Set.injOn_singleton shortDigest.hexdigest [])
  have htext : ∀ r ∈ [getLines, getUpper, getQuery],
      canonical asciiTables shortDigest r (intStr 1000) alice ∈ signedTexts :=
    fun r hr => List.mem_map_of_mem hr
  have hbody : ∀ r ∈ [getLines, getUpper, getQuery], r.content = [] := by decide
  have hlines := haccepts stampKey getLines 1000 linesHeaders 1300
    (fun m _ => validateSignature_stamp m) (htext _ (by simp)) rfl (by decide)
  have hupper := haccepts stampKey getUpper 1000 linesHeaders 700
    (fun m _ => validateSignature_stamp m) (htext _ (by simp)) (by decide +kernel) (by decide)
  have hsame : ∀ (r : Request) (current : ℤ), r ∈ [getLines, getUpper, getQuery] →
      verify asciiTables shortDigest stampEnv linesHeaders r current = .ok alice →
      Same asciiTables getLines r := fun r current hr hok =>
    (hbinds linesHeaders linesHeaders getLines r 1300 current _ _ _ _ hlines hok rfl rfl rfl
      (plain (by simp)) (plain hr) (htext _ (by simp)) (htext r hr) rfl
      (hbody r hr)).1
  refine ⟨hlines, hupper, hsame getUpper 700 (by simp) hupper, fun h => ?_, fun h => ?_⟩
  · exact absurd (hdetermines _ _ _ _ _ _ (plain (by simp)) (plain (by simp)) h).2.1 (by decide)
  · exact absurd (hsame getQuery 1000 (by simp) h).path (by decide)

end GumptionChain
