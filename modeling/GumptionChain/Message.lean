import GumptionChain.Codec.PyJson
import GumptionChain.Codec.GcBech32
import GumptionChain.Signing

/-!
# Signed messages

`message.py`: proofs that a key signed a message, their verification, and their armored
form, a cleartext copy of the message over the proof in base64.

* `armor_round_trip_iff` — an armored proof is read back exactly if the message has no
  `\r\n`, does not end in `\r` and has no line that is a marker.
-/

namespace GumptionChain

open PyJson Signing

/-- What `message.py` raises. -/
inductive MessageError where
  | badProof (message : String)
  | unicodeEncodeError
  | valueError
  | recursionError
  deriving DecidableEq

/-- `dict[str, str]`. -/
abbrev StrDict := List (PyStr × PyStr)

namespace Message

/-- `MSG_SCHEME`. -/
def MSG_SCHEME : Str := "gc-msg-v1".toList

/-- `MSG_VERSION`. -/
def MSG_VERSION : Str := "1".toList

/-- `ARMOR_HEADER`. -/
def ARMOR_HEADER : PyStr := chars "-----BEGIN GUMPTION SIGNED MESSAGE-----".toList

/-- `ARMOR_SIG`. -/
def ARMOR_SIG : PyStr := chars "-----BEGIN GUMPTION SIGNATURE-----".toList

/-- `ARMOR_FOOTER`. -/
def ARMOR_FOOTER : PyStr := chars "-----END GUMPTION SIGNED MESSAGE-----".toList

/-! ## Signing and verifying -/

/-- `_message_canonical`, before it is encoded: `UnicodeEncodeError` is `none`. -/
def messageCanonical (H : Sha256) (address timestamp message : PyStr) : Option Str := do
  let content ← message.encode
  PyStr.str? (Csv.join (.char '\n') [chars MSG_SCHEME, chars MSG_VERSION, address, timestamp,
    chars (H.hexdigest content)])

/-- `sign_message`. -/
def signMessage (H : Sha256) (key : SigningKey) (message : PyStr) (timestamp : ℤ) :
    Option StrDict := do
  let ts ← pyStr timestamp
  let canonical ← messageCanonical H (chars key.address) (chars ts) message
  return [(chars "scheme".toList, chars MSG_SCHEME), (chars "version".toList, chars MSG_VERSION),
    (chars "address".toList, chars key.address), (chars "timestamp".toList, chars ts),
    (chars "message".toList, message), (chars "signature".toList, chars (key.sign canonical))]

/-- A field is a given text. -/
def isText (v : Option PyJson) (t : PyStr) : Bool :=
  match v with
  | some (.str s) => s = t
  | _ => false

/-- `re.fullmatch(r'[0-9]+', s)`. -/
def isDigits (s : PyStr) : Bool := s ≠ [] && s.all fun x => x.char?.any Char.isDigit

/-- `SigningKey.validate_signature` of a raw public key. -/
def validateSignature (E : Env) (raw : Bytes) (canonical : Str) (signature : PyStr) : Bool :=
  match signature.str?.bind b64decode with
  | none => false
  | some sig => signature ≠ [] && canonical ≠ [] && E.ed25519Verify raw sig (utf8Encode canonical)

/-- What `verify_message` returns. -/
structure Verdict where
  address : PyStr
  timestamp : PyStr
  message : PyStr
  valid : Bool
  reason : Option String := none

/-- `verify_message`, with the current time. -/
def verifyMessage (E : Env) (H : Sha256) (proof : PyJson) (maxAge : Option ℤ) (current : ℤ) :
    Except MessageError Verdict :=
  match proof with
  | .obj fields =>
    match isText (get fields "scheme".toList) (chars MSG_SCHEME) &&
        isText (get fields "version".toList) (chars MSG_VERSION),
      get fields "address".toList, get fields "timestamp".toList, get fields "message".toList,
      get fields "signature".toList with
    | true, some (.str address), some (.str ts), some (.str message), some (.str sig) =>
      if isDigits ts then
        match address.decodeAddress with
        | none => .error (.badProof "invalid address")
        | some raw =>
          match messageCanonical H address ts message with
          | none => .error .unicodeEncodeError
          | some canonical =>
            if validateSignature E raw canonical sig then
              match maxAge with
              | none => .ok ⟨address, ts, message, true, none⟩
              | some maxAge =>
                match ts.str?.bind Unicode.pyNat with
                | none => .error .valueError
                | some t =>
                  if maxAge < |current - t| then .ok ⟨address, ts, message, false, some "expired"⟩
                  else .ok ⟨address, ts, message, true, none⟩
            else .ok ⟨address, ts, message, false, some "bad-signature"⟩
      else .error (.badProof "malformed gc-msg-v1 proof")
    | _, _, _, _, _ => .error (.badProof "malformed gc-msg-v1 proof")
  | _ => .error (.badProof "not a proof object")

/-! ## The armored form -/

/-- `proof['message']`. -/
def lookup (proof : StrDict) (key : Str) : Option PyStr :=
  (proof.find? (·.1 = chars key)).map Prod.snd

/-- `to_armored`. -/
def toArmored (proof : StrDict) : Option PyStr := do
  let text ← dumps escapeAscii (chars [',', ' ']) (chars [':', ' '])
    (proof.map fun p => (p.1, .str p.2))
  let blob ← text.encode.map b64encode
  let message ← lookup proof "message".toList
  return Csv.join (.char '\n') [ARMOR_HEADER, message, ARMOR_SIG, chars blob, ARMOR_FOOTER]

/-- `text.replace('\r\n', '\n')`. -/
def replaceCrLf : PyStr → PyStr
  | .char '\r' :: .char '\n' :: s => .char '\n' :: replaceCrLf s
  | x :: s => x :: replaceCrLf s
  | [] => []

/-- `base64.b64decode(s, validate=True)`: whole groups of the alphabet, padded at the end. -/
def b64decodeStrict (s : Str) : Option Bytes :=
  let data := (s.reverse.dropWhile (· = '=')).reverse
  if s.length % 4 = 0 ∧ s.length ≤ data.length + 2 ∧ data.all fun c => (b64Val? c).isSome then
    b64decode s
  else none

/-- `s.strip()`. -/
def strip (U : Unicode) (s : PyStr) : PyStr :=
  let space (x : CodePoint) : Bool := x.char?.any U.isSpace
  ((s.dropWhile space).reverse.dropWhile space).reverse

/-- The cleartext and the base64 text between the markers. -/
def sections (U : Unicode) (lines : List PyStr) : Option (PyStr × PyStr) :=
  if ARMOR_HEADER ∈ lines ∧ ARMOR_SIG ∈ lines ∧ ARMOR_FOOTER ∈ lines then
    let h := lines.idxOf ARMOR_HEADER
    let s := lines.idxOf ARMOR_SIG
    let f := lines.idxOf ARMOR_FOOTER
    if h < s ∧ s < f then
      some (Csv.join (.char '\n') ((lines.take s).drop (h + 1)),
        strip U ((lines.take f).drop (s + 1)).flatten)
    else none
  else none

/-- The proof in a signature block. -/
def readBlob (depth : ℕ) (blob : PyStr) : Except MessageError (List (PyStr × PyJson)) :=
  match (blob.str?.bind b64decodeStrict).bind utf8Decode with
  | none => .error (.badProof "malformed armored signature block")
  | some text =>
    match loads depth (chars text) with
    | .ok (.obj proof) => .ok proof
    | .error .recursionError => .error .recursionError
    | _ => .error (.badProof "malformed armored signature block")

/-- `from_armored`. -/
def fromArmored (U : Unicode) (depth : ℕ) (text : PyStr) :
    Except MessageError (List (PyStr × PyJson)) :=
  match sections U ((replaceCrLf text).splitOn (.char '\n')) with
  | none => .error (.badProof "malformed armored message")
  | some (cleartext, blob) =>
    match readBlob depth blob with
    | .error e => .error e
    | .ok proof =>
      if isText (get proof "message".toList) cleartext then .ok proof
      else .error (.badProof "armored cleartext does not match signed message")

/-! ## Line breaks -/

/-- What the replacement leaves of a message that a line break follows. -/
def normalized : PyStr → PyStr
  | [] => []
  | [.char '\r'] => []
  | .char '\r' :: .char '\n' :: s => .char '\n' :: normalized s
  | x :: s => x :: normalized s

theorem replaceCrLf_append {x s : PyStr} (h : .char '\r' ∉ x) :
    replaceCrLf (x ++ s) = x ++ replaceCrLf s := by
  induction x with
  | nil => rfl
  | cons c x ih =>
    rw [List.mem_cons, not_or] at h
    rw [List.cons_append, replaceCrLf, ih h.2, List.cons_append]
    rintro s' rfl
    exact absurd rfl h.1

theorem replaceCrLf_newline (m rest : PyStr) :
    replaceCrLf (m ++ .char '\n' :: rest) = normalized m ++ .char '\n' :: replaceCrLf rest := by
  fun_induction normalized m with
  | case1 =>
    rw [List.nil_append, replaceCrLf]
    · rfl
    · rintro s' h _
      exact absurd h (by decide)
  | case2 => rfl
  | case3 s ih =>
    rw [List.cons_append, List.cons_append, replaceCrLf, ih]
    rfl
  | case4 x s hlast hpair ih =>
    rw [List.cons_append, replaceCrLf, ih]
    · rfl
    · intro s' hx hs
      cases s with
      | nil => exact hlast hx rfl
      | cons y s => exact hpair s hx ((List.cons.inj hs).1 ▸ rfl)

theorem length_normalized (m : PyStr) : (normalized m).length ≤ m.length := by
  fun_induction normalized m with
  | case1 => exact le_rfl
  | case2 => exact Nat.zero_le _
  | case3 s ih => simp only [List.length_cons]; omega
  | case4 x s _ _ ih => simp only [List.length_cons]; omega

/-- A message is left alone if it has no `\r\n` and does not end in `\r`. -/
theorem normalized_eq (m : PyStr) : normalized m = m ↔
    ¬ [.char '\r', .char '\n'] <:+: m ∧ m.getLast? ≠ some (.char '\r') := by
  fun_induction normalized m with
  | case1 => simp
  | case2 => simp
  | case3 s ih =>
    have hlen := length_normalized s
    refine iff_of_false (fun h => ?_) fun h => h.1 ⟨[], s, rfl⟩
    have := congrArg List.length h
    simp only [List.length_cons] at this
    omega
  | case4 x s hlast hpair ih =>
    have hprefix : ¬ [.char '\r', .char '\n'] <+: x :: s := by
      rintro ⟨t, ht⟩
      obtain ⟨rfl, hs⟩ := List.cons.inj ht
      exact hpair t rfl hs.symm
    have hend : (x :: s).getLast? = some (.char '\r') ↔ s.getLast? = some (.char '\r') := by
      cases s with
      | nil =>
        refine iff_of_false (fun h => ?_) (by simp)
        exact hlast (Option.some.inj h) rfl
      | cons y s => rw [List.getLast?_cons_cons]
    rw [List.cons.injEq, ih, List.infix_cons_iff, ne_eq, ne_eq, hend]
    simp only [true_and, hprefix, false_or]

/-! ## The signature block -/

theorem isSome_b64Char {n : ℕ} (h : n < 64) :
    (b64Val? (b64Char n)).isSome ∧ b64Char n ≠ '=' := by
  obtain ⟨hval, hne⟩ := b64Val_letter h
  exact ⟨by rw [hval]; rfl, hne⟩

/-- Base64 text: letters of the alphabet, and at most two pads. -/
theorem b64encode_shape : ∀ b : Bytes, ∃ body pads, b64encode b = body ++ List.replicate pads '=' ∧
    pads ≤ 2 ∧ ∀ c ∈ body, (b64Val? c).isSome ∧ c ≠ '='
  | [] => ⟨[], 0, rfl, by omega, fun _ h => absurd h List.not_mem_nil⟩
  | [a] => by
    have ha := a.toNat_lt
    refine ⟨[b64Char (a.toNat / 4), b64Char (a.toNat % 4 * 16)], 2, rfl, by omega, ?_⟩
    rw [List.forall_mem_cons, List.forall_mem_singleton]
    exact ⟨isSome_b64Char (by omega), isSome_b64Char (by omega)⟩
  | [a, b] => by
    have ha := a.toNat_lt
    have hb := b.toNat_lt
    refine ⟨[b64Char (a.toNat / 4), b64Char (a.toNat % 4 * 16 + b.toNat / 16),
      b64Char (b.toNat % 16 * 4)], 1, rfl, by omega, ?_⟩
    rw [List.forall_mem_cons, List.forall_mem_cons, List.forall_mem_singleton]
    exact ⟨isSome_b64Char (by omega), isSome_b64Char (by omega), isSome_b64Char (by omega)⟩
  | a :: b :: c :: rest => by
    have ha := a.toNat_lt
    have hb := b.toNat_lt
    have hc := c.toNat_lt
    obtain ⟨body, pads, hrest, hpads, hbody⟩ := b64encode_shape rest
    refine ⟨b64Char (a.toNat / 4) :: b64Char (a.toNat % 4 * 16 + b.toNat / 16) ::
      b64Char (b.toNat % 16 * 4 + c.toNat / 64) :: b64Char (c.toNat % 64) :: body, pads, ?_, hpads,
      ?_⟩
    · exact congrArg (fun s => b64Char (a.toNat / 4) :: b64Char (a.toNat % 4 * 16 + b.toNat / 16) ::
        b64Char (b.toNat % 16 * 4 + c.toNat / 64) :: b64Char (c.toNat % 64) :: s) hrest
    · simp only [List.forall_mem_cons]
      exact ⟨isSome_b64Char (by omega), isSome_b64Char (by omega), isSome_b64Char (by omega),
        isSome_b64Char (by omega), hbody⟩

/-- Base64 text is read strictly. -/
theorem b64decodeStrict_b64encode (b : Bytes) : b64decodeStrict (b64encode b) = some b := by
  obtain ⟨body, pads, hshape, hpads, hbody⟩ := b64encode_shape b
  have hdata : ((b64encode b).reverse.dropWhile (· = '=')).reverse = body := by
    rw [hshape, List.reverse_append, List.reverse_replicate, List.dropWhile_append_of_pos
      fun c hc => decide_eq_true (List.eq_of_mem_replicate hc)]
    have hkeep : body.reverse.dropWhile (· = '=') = body.reverse := by
      cases hrev : body.reverse with
      | nil => rfl
      | cons c s =>
        have hc : c ∈ body := List.mem_reverse.1 (hrev ▸ List.mem_cons_self ..)
        exact List.dropWhile_cons_of_neg (by simpa using (hbody c hc).2)
    rw [hkeep, List.reverse_reverse]
  have hlen : (b64encode b).length % 4 = 0 := by
    rw [b64encode, length_b64encodeWith]
    omega
  have hpad : (b64encode b).length ≤ body.length + 2 := by
    rw [hshape, List.length_append, List.length_replicate]
    omega
  unfold b64decodeStrict
  simp only [hdata]
  rw [if_pos ⟨hlen, hpad, List.all_eq_true.2 fun c hc => (hbody c hc).1⟩, b64decode_b64encode]

/-- A character of base64 text is printable, and no hyphen. -/
theorem mem_b64encode {b : Bytes} {c : Char} (h : c ∈ b64encode b) :
    43 ≤ c.toNat ∧ c.toNat < 128 ∧ c ≠ '-' := by
  obtain ⟨body, pads, hshape, -, hbody⟩ := b64encode_shape b
  rw [hshape, List.mem_append] at h
  rcases h with h | h
  · have hsome := (hbody c h).1
    unfold b64Val? at hsome
    split_ifs at hsome with h₁ h₂ h₃ h₄ h₅
    · obtain ⟨hlo, hhi⟩ : 65 ≤ c.toNat ∧ c.toNat ≤ 90 := h₁
      exact ⟨by omega, by omega, by rintro rfl; exact absurd hlo (by decide)⟩
    · obtain ⟨hlo, hhi⟩ : 97 ≤ c.toNat ∧ c.toNat ≤ 122 := h₂
      exact ⟨by omega, by omega, by rintro rfl; exact absurd hlo (by decide)⟩
    · obtain ⟨hlo, hhi⟩ : 48 ≤ c.toNat ∧ c.toNat ≤ 57 := h₃
      exact ⟨by omega, by omega, by rintro rfl; exact absurd hlo (by decide)⟩
    · subst h₄
      decide
    · subst h₅
      decide
    · exact absurd hsome (by simp)
  · rw [List.eq_of_mem_replicate h]
    decide

theorem strip_b64encode (U : Unicode) (b : Bytes) :
    strip U (chars (b64encode b)) = chars (b64encode b) := by
  have hspace : ∀ x ∈ chars (b64encode b), x.char?.any U.isSpace = false := by
    intro x hx
    obtain ⟨c, hc, rfl⟩ := List.mem_map.1 hx
    obtain ⟨hlo, hhi, -⟩ := mem_b64encode hc
    have hspace : U.isSpace c = false := by
      rw [Bool.eq_false_iff, ne_eq, U.isSpace_ascii c hhi]
      rintro (rfl | h | h)
      · exact absurd hlo (by decide)
      · omega
      · omega
    exact hspace
  have hkeep : ∀ s : PyStr, (∀ x ∈ s, x.char?.any U.isSpace = false) →
      s.dropWhile (fun x => x.char?.any U.isSpace) = s := by
    intro s hs
    cases s with
    | nil => rfl
    | cons x s =>
      exact List.dropWhile_cons_of_neg (by rw [hs x (List.mem_cons_self ..)]; decide)
  simp only [strip]
  rw [hkeep _ hspace, hkeep _ fun x hx => hspace x (List.mem_reverse.1 hx), List.reverse_reverse]

/-- A text of ASCII characters. -/
def Ascii (s : PyStr) : Prop := ∀ x ∈ s, ∃ c : Char, x = .char c ∧ c.toNat < 128

theorem Ascii.append {s t : PyStr} (hs : Ascii s) (ht : Ascii t) : Ascii (s ++ t) :=
  List.forall_mem_append.2 ⟨hs, ht⟩

theorem Ascii.exists {s : PyStr} (h : Ascii s) : ∃ t, s = chars t ∧ ∀ c ∈ t, c.toNat < 128 := by
  induction s with
  | nil => exact ⟨[], rfl, fun _ hc => absurd hc List.not_mem_nil⟩
  | cons x s ih =>
    obtain ⟨⟨c, rfl, hc⟩, hs⟩ := List.forall_mem_cons.1 h
    obtain ⟨t, rfl, ht⟩ := ih hs
    exact ⟨c :: t, rfl, List.forall_mem_cons.2 ⟨hc, ht⟩⟩

theorem ascii_chars {t : Str} (h : ∀ c ∈ t, c.toNat < 128) : Ascii (chars t) := by
  intro x hx
  obtain ⟨c, hc, rfl⟩ := List.mem_map.1 hx
  exact ⟨c, rfl, h c hc⟩

theorem unicodeEscape_ascii {n : ℕ} (h : n < 0x10000) : ∀ c ∈ unicodeEscape n, c.toNat < 128 := by
  have hdigit : ∀ d : Fin 16, (Nat.digitChar d).toNat < 128 := by decide
  rw [unicodeEscape_eq h]
  simp only [List.forall_mem_cons]
  exact ⟨by decide, by decide, hdigit ⟨_, by omega⟩, hdigit ⟨_, by omega⟩, hdigit ⟨_, by omega⟩,
    hdigit ⟨_, by omega⟩, fun _ hc => absurd hc List.not_mem_nil⟩

/-- Quoted texts are ASCII. -/
theorem ascii_quote (t : Str) : Ascii (quote escapeAscii (chars t)) := by
  have hchar : ∀ c : Char, ∀ d ∈ escapeChar c, d.toNat < 128 := by
    intro c
    unfold escapeChar
    split_ifs with h₁ h₂ h₃ h₄ h₅ h₆ h₇ h₈ h₉
    · simp
    · simp
    · simp
    · simp
    · simp
    · simp
    · simp
    · have hle : c.toNat ≤ 126 := h₈.2
      exact List.forall_mem_singleton.2 (by omega)
    · exact unicodeEscape_ascii h₉
    · have hc : c.toNat < 0x110000 := by
        rcases c.valid with hv | hv
        · exact hv.trans (by decide)
        · exact hv.2
      exact List.forall_mem_append.2 ⟨unicodeEscape_ascii (by omega), unicodeEscape_ascii (by omega)⟩
  have hquote : Ascii [CodePoint.char '"'] := List.forall_mem_singleton.2 ⟨'"', rfl, by decide⟩
  refine hquote.append (Ascii.append ?_ hquote)
  intro x hx
  obtain ⟨y, hy, hx⟩ := List.mem_flatMap.1 hx
  obtain ⟨c, hc, rfl⟩ := List.mem_map.1 hy
  exact ascii_chars (hchar c) x hx

theorem ascii_intercalate {sep : PyStr} (hsep : Ascii sep) :
    ∀ {parts : List PyStr}, (∀ s ∈ parts, Ascii s) → Ascii (sep.intercalate parts)
  | [], _ => fun _ hx => absurd hx List.not_mem_nil
  | [s], h => by
    rw [List.intercalate_singleton]
    exact h s (List.mem_singleton_self s)
  | s :: t :: parts, h => by
    rw [List.forall_mem_cons] at h
    rw [List.intercalate_cons_of_ne_nil (by simp)]
    exact (h.1.append hsep).append (ascii_intercalate hsep h.2)

/-- The JSON of a dictionary of texts is ASCII. -/
theorem ascii_dumps {fields : List (Str × Str)} {text : PyStr}
    (h : dumps escapeAscii (chars [',', ' ']) (chars [':', ' '])
      (fields.map fun p => (chars p.1, .str (chars p.2))) = some text) : Ascii text := by
  rw [dumps_texts] at h
  obtain rfl := Option.some.inj h
  have hopen : Ascii [CodePoint.char '\x7b'] :=
    List.forall_mem_singleton.2 ⟨'\x7b', rfl, by decide⟩
  have hclose : Ascii [CodePoint.char '\x7d'] :=
    List.forall_mem_singleton.2 ⟨'\x7d', rfl, by decide⟩
  have hcomma : Ascii (chars [',', ' ']) := ascii_chars (by simp)
  have hcolon : Ascii (chars [':', ' ']) := ascii_chars (by simp)
  refine hopen.append ((ascii_intercalate hcomma ?_).append hclose)
  intro s hs
  obtain ⟨p, -, rfl⟩ := List.mem_map.1 hs
  exact ((ascii_quote p.1).append hcolon).append (ascii_quote p.2)

/-- The signature block is read back. -/
theorem readBlob_dumps {fields : List (Str × Str)} {text : PyStr} {depth : ℕ} (hdepth : 0 < depth)
    (hkeys : (fields.map Prod.fst).Nodup)
    (h : dumps escapeAscii (chars [',', ' ']) (chars [':', ' '])
      (fields.map fun p => (chars p.1, .str (chars p.2))) = some text) :
    ∃ bytes, text.encode = some bytes ∧
      readBlob depth (chars (b64encode bytes)) = .ok (texts fields) := by
  obtain ⟨t, rfl, -⟩ := (ascii_dumps h).exists
  refine ⟨utf8Encode t, by rw [PyStr.encode, PyStr.str?_ofStr]; rfl, ?_⟩
  rw [readBlob, PyStr.str?_ofStr, Option.bind_some, b64decodeStrict_b64encode, Option.bind_some,
    utf8Decode_utf8Encode]
  simp only [loads_dumps hdepth hkeys h]

/-! ## The markers -/

theorem markers_ne : ARMOR_HEADER ≠ ARMOR_SIG ∧ ARMOR_HEADER ≠ ARMOR_FOOTER ∧
    ARMOR_SIG ≠ ARMOR_FOOTER := by decide +kernel

/-- The lines of an armored proof whose cleartext has the lines `L`. -/
def armorLines (L : List PyStr) (blob : PyStr) : List PyStr :=
  (ARMOR_HEADER :: L) ++ [ARMOR_SIG, blob, ARMOR_FOOTER]

section Markers

variable {U : Unicode} {L : List PyStr} {blob : PyStr}

theorem idxOf_header : (armorLines L blob).idxOf ARMOR_HEADER = 0 := by
  rw [armorLines, List.cons_append, List.idxOf_cons_self]

/-- Without a marker in the cleartext its lines and the block are found. -/
theorem sections_armorLines (hsig : ARMOR_SIG ∉ L) (hfooter : ARMOR_FOOTER ∉ L)
    (hblob : blob ≠ ARMOR_FOOTER) :
    sections U (armorLines L blob) = some (Csv.join (.char '\n') L, strip U blob) := by
  obtain ⟨hhs, hhf, hsf⟩ := markers_ne
  have hs : (armorLines L blob).idxOf ARMOR_SIG = L.length + 1 := by
    rw [armorLines, List.idxOf_append_of_notMem (by simp [hsig, hhs.symm]), List.idxOf_cons_self]
    rfl
  have hf : (armorLines L blob).idxOf ARMOR_FOOTER = L.length + 3 := by
    rw [armorLines, List.idxOf_append_of_notMem (by simp [hfooter, hhf.symm]),
      List.idxOf_cons_ne _ hsf, List.idxOf_cons_ne _ hblob, List.idxOf_cons_self]
    rfl
  have hmem : ARMOR_HEADER ∈ armorLines L blob ∧ ARMOR_SIG ∈ armorLines L blob ∧
      ARMOR_FOOTER ∈ armorLines L blob := by simp [armorLines]
  have htake : ∀ n, (armorLines L blob).take (L.length + 1 + n) =
      (ARMOR_HEADER :: L) ++ [ARMOR_SIG, blob, ARMOR_FOOTER].take n := by
    intro n
    rw [armorLines, List.take_append, List.take_of_length_le (by simp),
      show L.length + 1 + n - (ARMOR_HEADER :: L).length = n by simp]
  have hblock : ((ARMOR_HEADER :: L) ++ [ARMOR_SIG, blob]).drop (L.length + 1 + 1) = [blob] := by
    rw [List.drop_append, List.drop_of_length_le (by simp)]
    simp
  rw [sections, if_pos hmem]
  simp only [idxOf_header, hs, hf]
  rw [if_pos ⟨by omega, by omega⟩, show L.length + 3 = L.length + 1 + 2 by omega, htake 2,
    show L.length + 1 = L.length + 1 + 0 by omega, htake 0]
  simp only [List.take_zero, List.append_nil, List.take_succ_cons, Nat.add_zero, hblock,
    List.flatten_singleton, Nat.zero_add, List.drop_succ_cons, List.drop_zero]

theorem length_join_take {k : ℕ} (hk : k < L.length) (hne : L[k] ≠ []) :
    (Csv.join (.char '\n') (L.take k)).length < (Csv.join (.char '\n') L).length := by
  have hdrop : L.drop k = L[k] :: L.drop (k + 1) := List.drop_eq_getElem_cons hk
  have hlast : 0 < (Csv.join (.char '\n') (L.drop k)).length := by
    rw [hdrop]
    have hpos := List.length_pos_iff.2 hne
    by_cases hrest : L.drop (k + 1) = []
    · rwa [hrest, Csv.join_singleton]
    · rw [Csv.join_cons _ _ hrest, List.length_append]
      omega
  nth_rewrite 2 [← List.take_append_drop k L]
  by_cases htake : L.take k = []
  · rw [htake, List.nil_append]
    exact hlast
  · rw [Csv.join_append _ htake (by rw [hdrop]; exact List.cons_ne_nil _ _), List.length_append,
      List.length_cons]
    omega

/-- A marker in the cleartext cuts it short. -/
theorem length_of_sections (h : ARMOR_SIG ∈ L ∨ ARMOR_FOOTER ∈ L) {cleartext rest : PyStr}
    (hsections : sections U (armorLines L blob) = some (cleartext, rest)) :
    cleartext.length < (Csv.join (.char '\n') L).length := by
  obtain ⟨hhs, hhf, hsf⟩ := markers_ne
  have hidx : ∀ {x : PyStr}, x ∈ L → x ≠ ARMOR_HEADER →
      (armorLines L blob).idxOf x = L.idxOf x + 1 ∧ L.idxOf x < L.length := by
    intro x hx hne
    refine ⟨?_, List.idxOf_lt_length_iff.2 hx⟩
    rw [armorLines, List.cons_append, List.idxOf_cons_ne _ hne.symm, List.idxOf_append_of_mem hx]
  simp only [sections] at hsections
  split_ifs at hsections with hmem horder
  obtain ⟨rfl, -⟩ := Prod.mk.inj (Option.some.inj hsections)
  by_cases hsig : ARMOR_SIG ∈ L
  · obtain ⟨hs, hlt⟩ := hidx hsig hhs.symm
    have htake : (armorLines L blob).take (L.idxOf ARMOR_SIG + 1) =
        ARMOR_HEADER :: L.take (L.idxOf ARMOR_SIG) := by
      rw [armorLines, List.cons_append, List.take_succ_cons, List.take_append_of_le_length hlt.le]
    rw [hs, htake, idxOf_header, Nat.zero_add, List.drop_succ_cons, List.drop_zero]
    refine length_join_take hlt ?_
    rw [List.getElem_idxOf hlt]
    decide
  · -- the footer comes before the signature
    obtain ⟨hf, hlt⟩ := hidx (h.resolve_left hsig) hhf.symm
    have hs : (armorLines L blob).idxOf ARMOR_SIG = L.length + 1 := by
      rw [armorLines, List.idxOf_append_of_notMem (by simp [hsig, hhs.symm]), List.idxOf_cons_self]
      rfl
    rw [hf, hs] at horder
    omega

end Markers

/-- The lines that an armored proof is read as. -/
theorem splitOn_armored {m blob : PyStr} (hcr : .char '\r' ∉ blob) (hlf : .char '\n' ∉ blob) :
    (replaceCrLf (Csv.join (.char '\n') [ARMOR_HEADER, m, ARMOR_SIG, blob, ARMOR_FOOTER])).splitOn
        (.char '\n') =
      armorLines ((normalized m).splitOn (.char '\n')) blob := by
  have hheader : .char '\r' ∉ ARMOR_HEADER ∧ .char '\n' ∉ ARMOR_HEADER := by decide +kernel
  have hsig : .char '\r' ∉ ARMOR_SIG ∧ .char '\n' ∉ ARMOR_SIG := by decide +kernel
  have hfooter : .char '\r' ∉ ARMOR_FOOTER ∧ .char '\n' ∉ ARMOR_FOOTER := by decide +kernel
  have htext : Csv.join (.char '\n') [ARMOR_HEADER, m, ARMOR_SIG, blob, ARMOR_FOOTER] =
      (ARMOR_HEADER ++ [.char '\n']) ++ (m ++ .char '\n' ::
        ((ARMOR_SIG ++ [.char '\n'] ++ (blob ++ [.char '\n']) ++ ARMOR_FOOTER) ++ [])) := by
    simp [Csv.join_cons]
  have hreplaced : replaceCrLf (Csv.join (.char '\n')
      [ARMOR_HEADER, m, ARMOR_SIG, blob, ARMOR_FOOTER]) =
        ARMOR_HEADER ++ .char '\n' :: (normalized m ++ .char '\n' ::
          (ARMOR_SIG ++ .char '\n' :: (blob ++ .char '\n' :: ARMOR_FOOTER))) := by
    rw [htext, replaceCrLf_append (by simp [hheader.1]), replaceCrLf_newline,
      replaceCrLf_append (by simp [hsig.1, hcr, hfooter.1])]
    simp [replaceCrLf]
  rw [hreplaced, List.splitOn_append_cons_self, List.splitOn_append_cons_self,
    List.splitOn_append_cons_self, List.splitOn_append_cons_self,
    List.splitOn_eq_singleton hheader.2, List.splitOn_eq_singleton hsig.2,
    List.splitOn_eq_singleton hlf, List.splitOn_eq_singleton hfooter.2]
  rfl

end Message

open Message

/-- The messages that the armored form keeps. -/
structure Armorable (m : PyStr) : Prop where
  crlf : ¬ [.char '\r', .char '\n'] <:+: m
  last : m.getLast? ≠ some (.char '\r')
  sig : ARMOR_SIG ∉ m.splitOn (.char '\n')
  footer : ARMOR_FOOTER ∉ m.splitOn (.char '\n')

/-- A proof as `json.loads` returns it. -/
def StrDict.asJson (proof : StrDict) : List (PyStr × PyJson) := proof.map fun p => (p.1, .str p.2)

namespace Message

variable {U : Unicode} {H : Sha256} {key : SigningKey} {message : PyStr} {timestamp : ℤ}
  {proof : StrDict}

/-- A signed proof holds texts under six keys. -/
theorem signMessage_eq_some (h : signMessage H key message timestamp = some proof) :
    ∃ fields : List (Str × Str), (fields.map Prod.fst).Nodup ∧
      proof = fields.map (fun p => (chars p.1, chars p.2)) ∧
        lookup proof "message".toList = some message := by
  obtain ⟨ts, -, h⟩ := Option.bind_eq_some_iff.1 h
  obtain ⟨canonical, hcanonical, h⟩ := Option.bind_eq_some_iff.1 h
  obtain ⟨content, hcontent, -⟩ := Option.bind_eq_some_iff.1 hcanonical
  obtain ⟨m, hm, -⟩ := Option.map_eq_some_iff.1 hcontent
  obtain rfl := PyStr.str?_eq_some.1 hm
  obtain rfl := Option.some.inj h
  refine ⟨[("scheme".toList, MSG_SCHEME), ("version".toList, MSG_VERSION),
    ("address".toList, key.address), ("timestamp".toList, ts), ("message".toList, m),
    ("signature".toList, key.sign canonical)],
    (by decide : ["scheme".toList, "version".toList, "address".toList, "timestamp".toList,
      "message".toList, "signature".toList].Nodup), rfl, rfl⟩

/-- What `to_armored` writes for a proof of texts. -/
theorem toArmored_eq {fields : List (Str × Str)} {depth : ℕ} (hkeys : (fields.map Prod.fst).Nodup)
    (hproof : proof = fields.map fun p => (chars p.1, chars p.2))
    (hmessage : lookup proof "message".toList = some message) :
    ∃ bytes, toArmored proof = some (Csv.join (.char '\n') [ARMOR_HEADER, message, ARMOR_SIG,
        chars (b64encode bytes), ARMOR_FOOTER]) ∧
      readBlob (depth + 1) (chars (b64encode bytes)) = .ok proof.asJson := by
  have hscalars : proof.map (fun p => (p.1, Scalar.str p.2)) =
      fields.map fun p => (chars p.1, .str (chars p.2)) := by
    rw [hproof, List.map_map]
    rfl
  have hjson : proof.asJson = texts fields := by
    rw [StrDict.asJson, hproof, List.map_map]
    rfl
  have hdumps := dumps_texts fields
  obtain ⟨bytes, hbytes, hread⟩ := readBlob_dumps (Nat.succ_pos depth) hkeys hdumps
  refine ⟨bytes, ?_, hjson ▸ hread⟩
  rw [toArmored, hscalars, hdumps]
  simp only [Option.bind_eq_bind, Option.bind_some, hbytes, Option.map_some, hmessage, pure]

theorem get_asJson (proof : StrDict) (key : Str) :
    get proof.asJson key = (lookup proof key).map .str := by
  unfold PyJson.get lookup StrDict.asJson
  rw [List.find?_map, Option.map_map, Option.map_map]
  rfl

theorem isText_str {s t : PyStr} : isText (some (.str s)) t = true ↔ s = t := decide_eq_true_iff

/-- An armored proof is read back exactly if the line breaks of the message are left alone
and none of its lines is the second or the third marker. -/
theorem fromArmored_iff (U : Unicode) (depth : ℕ)
    (hsign : signMessage H key message timestamp = some proof) :
    (toArmored proof).map (fromArmored U (depth + 1)) = some (.ok proof.asJson) ↔
      normalized message = message ∧ ARMOR_SIG ∉ message.splitOn (.char '\n') ∧
        ARMOR_FOOTER ∉ message.splitOn (.char '\n') := by
  obtain ⟨fields, hkeys, hproof, hmessage⟩ := signMessage_eq_some hsign
  obtain ⟨bytes, harmored, hread⟩ := @toArmored_eq message proof fields depth hkeys hproof hmessage
  have hget : get proof.asJson "message".toList = some (.str message) := by
    rw [get_asJson, hmessage]
    rfl
  have hplain : ∀ c ∈ b64encode bytes, 43 ≤ c.toNat ∧ c.toNat < 128 ∧ c ≠ '-' :=
    fun c hc => mem_b64encode hc
  have hnot : ∀ {c : Char}, c.toNat < 43 → .char c ∉ chars (b64encode bytes) := by
    intro c hc hmem
    obtain ⟨d, hd, heq⟩ := List.mem_map.1 hmem
    have := (hplain d hd).1
    rw [CodePoint.char.inj heq] at this
    omega
  have hblob : chars (b64encode bytes) ≠ ARMOR_FOOTER := by
    intro heq
    have hmem : .char '-' ∈ chars (b64encode bytes) := heq ▸ (by decide : _ ∈ ARMOR_FOOTER)
    obtain ⟨d, hd, hdash⟩ := List.mem_map.1 hmem
    exact (hplain d hd).2.2 (CodePoint.char.inj hdash)
  have hlines := @splitOn_armored message (chars (b64encode bytes)) (hnot (by decide))
    (hnot (by decide))
  rw [harmored, Option.map_some, Option.some.injEq]
  unfold fromArmored
  rw [hlines]
  generalize hL : (normalized message).splitOn (.char '\n') = L
  have hjoin : Csv.join (.char '\n') L = normalized message := by
    rw [← hL]
    exact List.intercalate_splitOn _
  by_cases hmarker : ARMOR_SIG ∈ L ∨ ARMOR_FOOTER ∈ L
  · refine iff_of_false (fun h => ?_) fun h => ?_
    · -- what is found between the markers is shorter than the message
      split at h
      · cases h
      · rename_i cleartext blob hsections
        have hlt := length_of_sections hmarker hsections
        have hle := length_normalized message
        cases hblobs : readBlob (depth + 1) blob with
        | error e =>
          rw [hblobs] at h
          cases h
        | ok proof' =>
          rw [hblobs] at h
          simp only at h
          split_ifs at h with htext
          obtain rfl := Except.ok.inj h
          rw [hget] at htext
          obtain rfl := isText_str.1 htext
          rw [hjoin] at hlt
          omega
    · rw [h.1] at hL
      exact hmarker.elim (hL ▸ h.2.1) (hL ▸ h.2.2)
  · rw [not_or] at hmarker
    rw [sections_armorLines hmarker.1 hmarker.2 hblob, hjoin, strip_b64encode]
    simp only [hread, hget]
    constructor
    · intro h
      split_ifs at h with htext
      have heq : normalized message = message := (isText_str.1 htext).symm
      rw [heq] at hL
      exact ⟨heq, hL ▸ hmarker.1, hL ▸ hmarker.2⟩
    · intro h
      rw [if_pos (isText_str.2 h.1.symm)]

end Message

/-- An armored proof is read back, its message restored, exactly if the message has no
`\r\n`, does not end in `\r` and has no line that is the second or the third marker. -/
theorem armor_round_trip_iff (U : Unicode) (H : Sha256) (key : SigningKey) (depth : ℕ)
    {message : PyStr} {timestamp : ℤ} {proof : StrDict}
    (hsign : signMessage H key message timestamp = some proof) :
    (toArmored proof).map (fromArmored U (depth + 1)) = some (.ok proof.asJson) ↔
      Armorable message := by
  rw [fromArmored_iff U depth hsign, normalized_eq]
  constructor
  · rintro ⟨⟨hcrlf, hlast⟩, hsig, hfooter⟩
    exact ⟨hcrlf, hlast, hsig, hfooter⟩
  · intro h
    exact ⟨⟨h.crlf, h.last⟩, h.sig, h.footer⟩

namespace Sample

/-- A proof for a message. -/
def proofOf (message : PyStr) : StrDict :=
  (signMessage shortDigest stampKey message 1000).getD []

/-- Two lines as Windows writes them. -/
def twoLines : PyStr := chars "a\r\nb".toList

/-- A line like the markers, with a lone `\r` in it, between two that are none. -/
def dashed : PyStr := chars "---\n-----BEGIN a\rb-----\n---".toList

end Sample

/-- The message comes back with other line breaks than were signed. -/
theorem armor_changes_crlf :
    signMessage Sample.shortDigest Sample.stampKey Sample.twoLines 1000 =
        some (Sample.proofOf Sample.twoLines) ∧
      (toArmored (Sample.proofOf Sample.twoLines)).map (fromArmored Sample.asciiTables 100) ≠
        some (.ok (Sample.proofOf Sample.twoLines).asJson) := by
  have hsign : signMessage Sample.shortDigest Sample.stampKey Sample.twoLines 1000 =
      some (Sample.proofOf Sample.twoLines) := rfl
  refine ⟨hsign, fun h => ?_⟩
  have hkept := ((fromArmored_iff Sample.asciiTables 99 hsign).1 h).1
  exact absurd hkept (by decide +kernel)

/-- Dashes at both ends and a lone `\r` come back. -/
theorem armor_round_trip_iff_dashed :
    (toArmored (Sample.proofOf Sample.dashed)).map (fromArmored Sample.asciiTables 100) =
      some (.ok (Sample.proofOf Sample.dashed).asJson) := by
  have hsign : signMessage Sample.shortDigest Sample.stampKey Sample.dashed 1000 =
      some (Sample.proofOf Sample.dashed) := rfl
  exact (armor_round_trip_iff Sample.asciiTables Sample.shortDigest Sample.stampKey 99 hsign).2
    ⟨by decide, by decide, by decide, by decide⟩

end GumptionChain
