import GumptionChain.Payload
import GumptionChain.Codec.CodePoint

/-!
# Subjects

The subject functions of `payload.py`, over every Python string.

* `decodeSubject_encodeSubject` — an encoded subject is decoded, whatever it encodes;
* `PyStr.encodeSubject`, `PyStr.decodeSubject` — with the surrogates, which have no UTF-8;
* `PyStr.validateSubject_ofStr` — on text they are the ledger's checks;
* `PyStr.validateSubject_iff` — what is accepted is what an acceptable subject encodes to.
-/

namespace GumptionChain

/-! ## Text -/

theorem utf8Encode_length_of_ascii {s : Str} (h : ∀ c ∈ s, c.toNat < 128) :
    (utf8Encode s).length = s.length := by
  induction s with
  | nil => rfl
  | cons c s ih =>
    have hc : c.val.toNat ≤ 0x7f := Nat.lt_succ_iff.1 (h c (List.mem_cons_self ..))
    have hone : (String.utf8EncodeChar c).length = 1 := by
      simp only [String.utf8EncodeChar, if_pos hc, List.length_singleton]
    have hs := ih fun x hx => h x (List.mem_cons_of_mem _ hx)
    rw [utf8Encode] at hs
    rw [utf8Encode, List.flatMap_cons, List.length_append, hone, hs, List.length_cons, Nat.add_comm]

theorem b64UrlChar_ascii : ∀ n : Fin 64, (b64UrlChar n).toNat < 128 := by decide

/-- What is left of an encoding when its padding is dropped. -/
theorem encodeSubject_eq (raw : Str) : ∃ p,
    urlsafeB64encode (utf8Encode raw) = encodeSubject raw ++ List.replicate p '=' ∧ p < 4 ∧
      ((encodeSubject raw).length + p) % 4 = 0 ∧
      ∀ c ∈ encodeSubject raw, ∃ n, n < 64 ∧ c = b64UrlChar n := by
  obtain ⟨body, p, heq, hp, hmod, hbody⟩ := b64encodeWith_eq_append b64UrlChar (utf8Encode raw)
  have hdrop : encodeSubject raw = body := by
    rw [encodeSubject, urlsafeB64encode, heq, List.rdropWhile, List.reverse_append,
      List.reverse_replicate, List.dropWhile_append_of_pos (by simp)]
    have hrev : body.reverse.dropWhile (· = '=') = body.reverse := by
      refine List.dropWhile_eq_self_iff.2 fun hne => ?_
      obtain ⟨n, hn, hc⟩ := hbody _ (List.mem_reverse.1 (List.getElem_mem hne))
      simp only [hc, decide_eq_true_eq]
      exact b64UrlChar_ne_eq n
    rw [hrev, List.reverse_reverse]
  rw [hdrop]
  exact ⟨p, heq, hp, hmod, hbody⟩

/-- An encoded subject is decoded. -/
theorem decodeSubject_encodeSubject (raw : Str) : decodeSubject (encodeSubject raw) = some raw := by
  obtain ⟨p, heq, hp, hmod, hletters⟩ := encodeSubject_eq raw
  have hlast : (encodeSubject raw).getLast? ≠ some '=' := by
    intro h
    obtain ⟨n, hn, hc⟩ := hletters _ (List.mem_of_getLast? h)
    exact b64UrlChar_ne_eq n hc.symm
  have hlen : (utf8Encode (encodeSubject raw)).length = (encodeSubject raw).length := by
    refine utf8Encode_length_of_ascii fun c hc => ?_
    obtain ⟨n, hn, rfl⟩ := hletters c hc
    exact b64UrlChar_ascii ⟨n, hn⟩
  have hpad : (4 - (encodeSubject raw).length % 4) % 4 = p := by omega
  unfold decodeSubject
  rw [if_neg hlast]
  dsimp only
  rw [hlen, hpad, ← heq, urlsafeB64decode, urlsafeB64encode,
    a2bBase64_b64encodeWith fun n hn => b64UrlVal_b64UrlChar ⟨n, hn⟩, Option.bind_some,
    utf8Decode_utf8Encode]

/-! ## Every string -/

namespace PyStr

/-- `encode_subject`: `UnicodeEncodeError` at a surrogate. -/
def encodeSubject (raw : PyStr) : Option PyStr :=
  (str? raw).map fun t => ofStr (GumptionChain.encodeSubject t)

/-- `decode_subject`: a surrogate raises too, `TypeError` after padding and else
`UnicodeEncodeError`. -/
def decodeSubject (subject : PyStr) : Option PyStr :=
  ((str? subject).bind GumptionChain.decodeSubject).map ofStr

/-- `_valid_raw_subject`.  A surrogate is not printable. -/
def validRawSubject (E : Env) (raw : PyStr) : Bool :=
  minSubjectLength ≤ raw.length && raw.length ≤ maxSubjectLength &&
    raw.all fun x => x.char?.any E.isPrintable

/-- `validate_subject`. -/
def validateSubject (E : Env) (subject : PyStr) : Bool :=
  match decodeSubject subject with
  | none => false
  | some raw => validRawSubject E raw && encodeSubject raw = some subject

/-- `validate_raw_subject`. -/
def validateRawSubject (E : Env) (raw : PyStr) : Bool :=
  validRawSubject E raw && (encodeSubject raw).bind decodeSubject = some raw

/-- What is encoded is decoded. -/
theorem decodeSubject_of_encodeSubject {raw s : PyStr} (h : encodeSubject raw = some s) :
    decodeSubject s = some raw := by
  obtain ⟨t, ht, rfl⟩ := Option.map_eq_some_iff.1 h
  rw [decodeSubject, str?_ofStr, Option.bind_some, decodeSubject_encodeSubject, Option.map_some,
    ← str?_eq_some.1 ht]

/-- A string of characters is text. -/
theorem exists_str {s : PyStr} (h : ∀ x ∈ s, x.char?.isSome = true) : ∃ t, str? s = some t := by
  induction s with
  | nil => exact ⟨[], rfl⟩
  | cons x s ih =>
    obtain ⟨hx, hs⟩ := List.forall_mem_cons.1 h
    obtain ⟨c, hc⟩ := Option.isSome_iff_exists.1 hx
    obtain ⟨t, ht⟩ := ih hs
    exact ⟨c :: t, by rw [str?_cons, hc, Option.bind_some, ht, Option.map_some]⟩

@[simp] theorem ofStr_inj {s t : Str} : ofStr s = ofStr t ↔ s = t :=
  List.map_inj_right fun _ _ => CodePoint.char.inj

@[simp] theorem encodeSubject_ofStr (raw : Str) :
    encodeSubject (ofStr raw) = some (ofStr (GumptionChain.encodeSubject raw)) := by
  rw [encodeSubject, str?_ofStr, Option.map_some]

@[simp] theorem validRawSubject_ofStr (E : Env) (raw : Str) :
    validRawSubject E (ofStr raw) = GumptionChain.validRawSubject E raw := by
  simp only [validRawSubject, GumptionChain.validRawSubject, ofStr, List.length_map, List.all_map,
    Function.comp_def, CodePoint.char?, Option.any_some]

/-- On text the check is the ledger's. -/
theorem validateSubject_ofStr (E : Env) (s : Str) :
    validateSubject E (ofStr s) = GumptionChain.validateSubject E s := by
  unfold validateSubject GumptionChain.validateSubject decodeSubject
  rw [str?_ofStr, Option.bind_some]
  cases GumptionChain.decodeSubject s with
  | none => rfl
  | some raw => simp

/-- What the raw rule accepts has an encoding. -/
theorem encodeSubject_of_valid {E : Env} {raw : PyStr} (h : validRawSubject E raw = true) :
    ∃ s, encodeSubject raw = some s := by
  simp only [validRawSubject, Bool.and_eq_true, List.all_eq_true] at h
  obtain ⟨t, ht⟩ := exists_str fun x hx => Option.isSome_of_any (h.2 x hx)
  exact ⟨ofStr (GumptionChain.encodeSubject t), by rw [encodeSubject, ht, Option.map_some]⟩

theorem validateSubject_iff {E : Env} {s : PyStr} : validateSubject E s = true ↔
    ∃ raw, validRawSubject E raw = true ∧ encodeSubject raw = some s := by
  unfold validateSubject
  constructor
  · intro h
    split at h
    · cases h
    · rename_i raw _
      rw [Bool.and_eq_true, decide_eq_true_eq] at h
      exact ⟨raw, h⟩
  · rintro ⟨raw, hvalid, henc⟩
    rw [decodeSubject_of_encodeSubject henc]
    dsimp only
    rw [Bool.and_eq_true, decide_eq_true_eq]
    exact ⟨hvalid, henc⟩

theorem validateRawSubject_iff {E : Env} {raw : PyStr} :
    validateRawSubject E raw = true ↔ validRawSubject E raw = true := by
  rw [validateRawSubject, Bool.and_eq_true, decide_eq_true_eq]
  refine and_iff_left_of_imp fun hvalid => ?_
  obtain ⟨s, hs⟩ := encodeSubject_of_valid hvalid
  rw [hs, Option.bind_some, decodeSubject_of_encodeSubject hs]

/-- **The subject codec.**  A string is accepted exactly when it encodes an acceptable raw
subject, which is then the one it decodes to; a raw subject is accepted exactly when its
encoding is; and two accepted strings of one raw subject are equal. -/
theorem subject_codec (E : Env) (s : PyStr) :
    (validateSubject E s = true ↔ ∃! raw, validRawSubject E raw = true ∧
      encodeSubject raw = some s) ∧
    (∀ raw, validRawSubject E raw = true ∧ encodeSubject raw = some s →
      decodeSubject s = some raw) ∧
    (∀ raw, validateRawSubject E raw = true ↔
      ∃ t, encodeSubject raw = some t ∧ validateSubject E t = true) ∧
    ∀ s', validateSubject E s = true → validateSubject E s' = true →
      decodeSubject s = decodeSubject s' → s = s' := by
  refine ⟨validateSubject_iff.trans ⟨?_, ExistsUnique.exists⟩,
    fun raw h => decodeSubject_of_encodeSubject h.2, fun raw => ?_, fun s' h h' heq => ?_⟩
  · rintro ⟨raw, hvalid, henc⟩
    refine ⟨raw, ⟨hvalid, henc⟩, fun raw' h' => ?_⟩
    exact Option.some.inj ((decodeSubject_of_encodeSubject h'.2).symm.trans
      (decodeSubject_of_encodeSubject henc))
  · rw [validateRawSubject_iff]
    constructor
    · intro hvalid
      obtain ⟨t, ht⟩ := encodeSubject_of_valid hvalid
      exact ⟨t, ht, validateSubject_iff.2 ⟨raw, hvalid, ht⟩⟩
    · rintro ⟨t, ht, hval⟩
      obtain ⟨raw', hvalid, henc⟩ := validateSubject_iff.1 hval
      have := (decodeSubject_of_encodeSubject henc).symm.trans (decodeSubject_of_encodeSubject ht)
      rwa [Option.some.inj this] at hvalid
  · obtain ⟨raw, -, henc⟩ := validateSubject_iff.1 h
    obtain ⟨raw', -, henc'⟩ := validateSubject_iff.1 h'
    rw [decodeSubject_of_encodeSubject henc, decodeSubject_of_encodeSubject henc'] at heq
    rw [← Option.some.inj heq] at henc'
    exact Option.some.inj (henc.symm.trans henc')

end PyStr

end GumptionChain
