import GumptionChain.Exceptions

/-!
# Inflows and outflows

`payload.py`: subjects, the two kinds of flow, their wire models and the fields
they contribute to a transaction's hash input.

* `Outflow.WellFormed`, `Inflow.WellFormed` — what the wire models accept
  (`outflowErrors_eq_nil`, `inflowErrors_eq_nil`);
* `Outflow.dataFields_injective` — six fields determine a well-formed outflow,
  `Inflow.dataFields_injective` two an inflow;
* `validateSubject_comma`, `validateSubject_length` — how an accepted subject
  reads and how long it may be.
-/

namespace GumptionChain

/-! ## Subjects -/

/-- `MIN_SUBJECT_LENGTH`. -/
def minSubjectLength : ℕ := 1

/-- `MAX_SUBJECT_LENGTH`. -/
def maxSubjectLength : ℕ := 79

/-- `encode_subject`. -/
def encodeSubject (raw : Str) : Str := (urlsafeB64encode (utf8Encode raw)).rdropWhile (· = '=')

/-- `decode_subject`: `TypeError` on padding, `ValueError` on bad base64 or
UTF-8. -/
def decodeSubject (subject : Str) : Option Str :=
  if subject.getLast? = some '=' then none
  else
    let padding := (4 - (utf8Encode subject).length % 4) % 4
    (urlsafeB64decode (subject ++ List.replicate padding '=')).bind utf8Decode

/-- `_valid_raw_subject`. -/
def validRawSubject (E : Env) (raw : Str) : Bool :=
  minSubjectLength ≤ raw.length && raw.length ≤ maxSubjectLength && raw.all E.isPrintable

/-- `validate_subject`. -/
def validateSubject (E : Env) (subject : Str) : Bool :=
  match decodeSubject subject with
  | none => false
  | some raw => validRawSubject E raw && encodeSubject raw = subject

/-- `Subject`. -/
def checkSubject (E : Env) (loc : List Loc) (s : Str) : List ErrorDetail :=
  check (validateSubject E s) loc "Value error, Invalid subject" (some (truncate s))

/-- An accepted subject is the encoding of 1 to 79 characters. -/
theorem validateSubject_eq {E : Env} {s : Str} (h : validateSubject E s = true) :
    ∃ raw : Str, 1 ≤ raw.length ∧ raw.length ≤ 79 ∧ encodeSubject raw = s := by
  unfold validateSubject at h
  split at h
  · exact absurd h (by simp)
  · rename_i raw _
    simp only [validRawSubject, minSubjectLength, maxSubjectLength, Bool.and_eq_true] at h
    exact ⟨raw, of_decide_eq_true h.1.1.1, of_decide_eq_true h.1.1.2, of_decide_eq_true h.2⟩

theorem validateSubject_comma {E : Env} {s : Str} (h : validateSubject E s = true) : ',' ∉ s := by
  obtain ⟨raw, -, -, rfl⟩ := validateSubject_eq h
  have hpre := List.rdropWhile_prefix (· = '=') (urlsafeB64encode (utf8Encode raw))
  exact fun hc => urlsafeB64encode_comma _ (hpre.subset hc)

/-- No encoded subject is longer than its column. -/
theorem validateSubject_length {E : Env} {s : Str} (h : validateSubject E s = true) :
    s.length ≤ 500 := by
  obtain ⟨raw, -, h79, rfl⟩ := validateSubject_eq h
  have hpre : (encodeSubject raw).length ≤ (urlsafeB64encode (utf8Encode raw)).length :=
    (List.rdropWhile_prefix (· = '=') (urlsafeB64encode (utf8Encode raw))).length_le
  have henc := length_b64encodeWith b64UrlChar (utf8Encode raw)
  have hutf := (length_utf8Encode raw).2
  rw [urlsafeB64encode, henc] at hpre
  omega

/-- The first letter of an encoding is not padding. -/
theorem b64UrlChar_ne_eq (n : ℕ) : b64UrlChar n ≠ '=' := by
  unfold b64UrlChar b64Char
  split_ifs with h1 h2 h3 h4
  · interval_cases n <;> decide
  · interval_cases n <;> decide
  · interval_cases n <;> decide
  · decide
  · decide

theorem b64encodeWith_head (ch : ℕ → Char) :
    ∀ {b : Bytes}, b ≠ [] → ∃ n rest, b64encodeWith ch b = ch n :: rest
  | [], h => absurd rfl h
  | [_], _ => ⟨_, _, rfl⟩
  | [_, _], _ => ⟨_, _, rfl⟩
  | _ :: _ :: _ :: _, _ => ⟨_, _, rfl⟩

theorem validateSubject_ne_nil {E : Env} {s : Str} (h : validateSubject E s = true) : s ≠ [] := by
  obtain ⟨raw, h1, -, rfl⟩ := validateSubject_eq h
  have hbytes : utf8Encode raw ≠ [] := by
    intro hnil
    have := (length_utf8Encode raw).1
    rw [hnil, List.length_nil] at this
    omega
  obtain ⟨n, rest, hhead⟩ := b64encodeWith_head b64UrlChar hbytes
  intro hnil
  have hall := List.rdropWhile_eq_nil_iff.1 hnil (b64UrlChar n)
    (by rw [urlsafeB64encode, hhead]; exact List.mem_cons_self ..)
  exact b64UrlChar_ne_eq n (by simpa using hall)

/-! ## The dataclasses -/

/-- `StakeKind`. -/
inductive StakeKind where
  | opposition
  | support
  deriving DecidableEq

/-- The literal text of a stake kind. -/
def StakeKind.str : StakeKind → Str
  | .opposition => ['o', 'p', 'p', 'o', 's', 'i', 't', 'i', 'o', 'n']
  | .support => ['s', 'u', 'p', 'p', 'o', 'r', 't']

/-- `Outflow`. -/
structure Outflow where
  amount : Option ℤ := none
  address : Option Str := none
  opposition : Option Str := none
  rescind : Option Str := none
  support : Option Str := none
  rescindKind : Option StakeKind := none
  deriving DecidableEq

/-- `Inflow`.  An index below zero is no `ℕ`; the wire model's `ge=0` is built
into the type. -/
structure Inflow where
  outflowTxid : Option Str := none
  outflowIdx : Option ℕ := none
  deriving DecidableEq

namespace Outflow

/-- The six columns of `Outflow.data_csv`. -/
def dataFields (o : Outflow) : List Str :=
  [optStr intStr o.amount, o.address.getD [], o.opposition.getD [], o.rescind.getD [],
    o.support.getD [], (o.rescindKind.map StakeKind.str).getD []]

/-- `Outflow.data_csv`. -/
def dataCsv (o : Outflow) : Str := Csv.join ',' o.dataFields

end Outflow

namespace Inflow

/-- The two columns of `Inflow.data_csv`. -/
def dataFields (i : Inflow) : List Str := [optStr id i.outflowTxid, optStr natStr i.outflowIdx]

/-- `Inflow.data_csv`. -/
def dataCsv (i : Inflow) : Str := Csv.join ',' i.dataFields

end Inflow

/-! ## The wire models -/

/-- The destinations that are set among `opposition`, `rescind`, `support`. -/
def Outflow.options (o : Outflow) : List Str :=
  o.opposition.toList ++ o.rescind.toList ++ o.support.toList

/-- `OutflowModel.validate_destinations`. -/
def destinationErrors (loc : List Loc) (o : Outflow) : List ErrorDetail :=
  if ¬ ((truthy o.address ∧ o.options = []) ∨ (o.options.length = 1 ∧ ¬ truthy o.address)) then
    [⟨loc, "Value error, Invalid destinations", none⟩]
  else check (o.rescind.isSome = o.rescindKind.isSome) loc
    "Value error, rescind_kind must be set if and only if rescind is set" none

/-- The fields of `OutflowModel`. -/
def outflowFieldErrors (E : Env) (loc : List Loc) (o : Outflow) : List ErrorDetail :=
  required (field loc "amount")
    (fun n => check (1 ≤ n) (field loc "amount")
      "Input should be greater than or equal to 1" none) o.amount ++
  optional (checkAddress (field loc "address")) o.address ++
  optional (checkSubject E (field loc "opposition")) o.opposition ++
  optional (checkSubject E (field loc "rescind")) o.rescind ++
  optional (checkSubject E (field loc "support")) o.support

/-- `OutflowModel`: the model validator runs only when every field is fine. -/
def outflowErrors (E : Env) (loc : List Loc) (o : Outflow) : List ErrorDetail :=
  if outflowFieldErrors E loc o = [] then destinationErrors loc o else outflowFieldErrors E loc o

/-- `InflowModel`. -/
def inflowErrors (loc : List Loc) (i : Inflow) : List ErrorDetail :=
  required (field loc "outflow_txid") (checkMillHash (field loc "outflow_txid"))
    i.outflowTxid ++
  required (field loc "outflow_idx") (fun _ => []) i.outflowIdx

/-- What `OutflowModel` accepts. -/
structure Outflow.WellFormed (E : Env) (o : Outflow) : Prop where
  amount : ∃ n, o.amount = some n ∧ 1 ≤ n
  address : ∀ a, o.address = some a → validateAddressFormat a = true
  opposition : ∀ s, o.opposition = some s → validateSubject E s = true
  rescind : ∀ s, o.rescind = some s → validateSubject E s = true
  support : ∀ s, o.support = some s → validateSubject E s = true
  destination : (truthy o.address ∧ o.options = []) ∨ (o.options.length = 1 ∧ ¬ truthy o.address)
  rescindKind : o.rescind.isSome = o.rescindKind.isSome

/-- What `InflowModel` accepts. -/
structure Inflow.WellFormed (i : Inflow) : Prop where
  outflowTxid : ∃ h, i.outflowTxid = some h ∧ validateMillHash h = true
  outflowIdx : ∃ n, i.outflowIdx = some n

theorem destinationErrors_eq_nil {loc : List Loc} {o : Outflow} :
    destinationErrors loc o = [] ↔
      ((truthy o.address ∧ o.options = []) ∨ (o.options.length = 1 ∧ ¬ truthy o.address)) ∧
        o.rescind.isSome = o.rescindKind.isSome := by
  unfold destinationErrors
  split_ifs with h
  · rw [check_eq_nil, decide_eq_true_eq]
    exact ⟨fun hc => ⟨h, hc⟩, fun hc => hc.2⟩
  · exact ⟨fun hc => absurd hc (by simp), fun hc => absurd hc.1 h⟩

theorem outflowFieldErrors_eq_nil {E : Env} {loc : List Loc} {o : Outflow} :
    outflowFieldErrors E loc o = [] ↔
      (∃ n, o.amount = some n ∧ 1 ≤ n) ∧ (∀ a, o.address = some a → validateAddressFormat a = true) ∧
        (∀ s, o.opposition = some s → validateSubject E s = true) ∧
        (∀ s, o.rescind = some s → validateSubject E s = true) ∧
        ∀ s, o.support = some s → validateSubject E s = true := by
  simp only [outflowFieldErrors, List.append_eq_nil_iff, required_eq_nil, optional_eq_nil,
    check_eq_nil, checkAddress, checkSubject, decide_eq_true_eq, and_assoc]

theorem outflowErrors_eq_nil {E : Env} {loc : List Loc} {o : Outflow} :
    outflowErrors E loc o = [] ↔ o.WellFormed E := by
  unfold outflowErrors
  split_ifs with hf
  · rw [destinationErrors_eq_nil]
    obtain ⟨h1, h2, h3, h4, h5⟩ := outflowFieldErrors_eq_nil.1 hf
    exact ⟨fun ⟨hdest, hkind⟩ => ⟨h1, h2, h3, h4, h5, hdest, hkind⟩,
      fun h => ⟨h.destination, h.rescindKind⟩⟩
  · refine ⟨fun h => absurd h hf, fun ⟨h1, h2, h3, h4, h5, _, _⟩ => ?_⟩
    exact absurd (outflowFieldErrors_eq_nil.2 ⟨h1, h2, h3, h4, h5⟩) hf

theorem inflowErrors_eq_nil {loc : List Loc} {i : Inflow} :
    inflowErrors loc i = [] ↔ i.WellFormed := by
  simp only [inflowErrors, List.append_eq_nil_iff, required_eq_nil, checkMillHash, check_eq_nil,
    and_true]
  exact ⟨fun h => ⟨h.1, h.2⟩, fun h => ⟨h.1, h.2⟩⟩

/-! ## The fields determine the flow -/

/-- An optional text is determined by itself-or-empty when it is never empty. -/
theorem getD_nil_injective {a b : Option Str} (ha : ∀ s, a = some s → s ≠ [])
    (hb : ∀ s, b = some s → s ≠ []) (h : a.getD [] = b.getD []) : a = b := by
  cases a with
  | none =>
    cases b with
    | none => rfl
    | some t => exact absurd h.symm (hb t rfl)
  | some s =>
    cases b with
    | none => exact absurd h (ha s rfl)
    | some t => exact congrArg some h

theorem StakeKind.str_injective : Function.Injective StakeKind.str := by
  intro a b h
  cases a <;> cases b <;> first | rfl | exact absurd h (by decide)

theorem validateAddressFormat_eq {s : Str} (h : validateAddressFormat s = true) :
    ∃ k, decodeAddress s = some k := Option.isSome_iff_exists.1 h

namespace Outflow

variable {E : Env}

theorem WellFormed.address_ne_nil {o : Outflow} (h : o.WellFormed E) {a : Str}
    (ha : o.address = some a) : a ≠ [] := by
  obtain ⟨k, hk⟩ := validateAddressFormat_eq (h.address a ha)
  exact decodeAddress_ne_nil hk

theorem dataFields_injective {o p : Outflow} (ho : o.WellFormed E) (hp : p.WellFormed E)
    (h : o.dataFields = p.dataFields) : o = p := by
  obtain ⟨m, hm, -⟩ := ho.amount
  obtain ⟨n, hn, -⟩ := hp.amount
  simp only [dataFields, List.cons.injEq, and_true, hm, hn, optStr] at h
  obtain ⟨h1, h2, h3, h4, h5, h6⟩ := h
  have e1 : o.amount = p.amount := by rw [hm, hn, intStr_injective h1]
  have e2 := getD_nil_injective (fun _ => ho.address_ne_nil) (fun _ => hp.address_ne_nil) h2
  have e3 := getD_nil_injective (fun s hs => validateSubject_ne_nil (ho.opposition s hs))
    (fun s hs => validateSubject_ne_nil (hp.opposition s hs)) h3
  have e4 := getD_nil_injective (fun s hs => validateSubject_ne_nil (ho.rescind s hs))
    (fun s hs => validateSubject_ne_nil (hp.rescind s hs)) h4
  have e5 := getD_nil_injective (fun s hs => validateSubject_ne_nil (ho.support s hs))
    (fun s hs => validateSubject_ne_nil (hp.support s hs)) h5
  have e6 : o.rescindKind.map StakeKind.str = p.rescindKind.map StakeKind.str := by
    refine getD_nil_injective ?_ ?_ h6 <;>
    · intro s hs
      obtain ⟨k, -, rfl⟩ := Option.map_eq_some_iff.1 hs
      cases k <;> decide
  have e6' := Option.map_injective StakeKind.str_injective e6
  cases o
  cases p
  simp_all

theorem dataFields_comma {o : Outflow} (h : o.WellFormed E) : ∀ f ∈ o.dataFields, ',' ∉ f := by
  have hopt : ∀ {x : Option Str}, (∀ s, x = some s → ',' ∉ s) → ',' ∉ x.getD [] := by
    intro x hx
    cases x with
    | none => exact List.not_mem_nil
    | some s => exact hx s rfl
  obtain ⟨n, hn, -⟩ := h.amount
  intro f hf
  simp only [dataFields, List.mem_cons, List.not_mem_nil, or_false, hn, optStr] at hf
  rcases hf with rfl | rfl | rfl | rfl | rfl | rfl
  · exact intStr_comma n
  · refine hopt fun s hs => ?_
    obtain ⟨k, hk⟩ := validateAddressFormat_eq (h.address s hs)
    exact decodeAddress_comma hk
  · exact hopt fun s hs => validateSubject_comma (h.opposition s hs)
  · exact hopt fun s hs => validateSubject_comma (h.rescind s hs)
  · exact hopt fun s hs => validateSubject_comma (h.support s hs)
  · refine hopt fun s hs => ?_
    obtain ⟨k, -, rfl⟩ := Option.map_eq_some_iff.1 hs
    cases k <;> decide

/-- The second field of an outflow, its address or nothing, is never a
numeral: this is what tells it from an inflow's index. -/
theorem address_not_decimal {o : Outflow} (h : o.WellFormed E) : ¬ IsDecimal (o.address.getD []) := by
  cases ha : o.address with
  | none => exact fun hd => hd.1 rfl
  | some a =>
    obtain ⟨k, hk⟩ := validateAddressFormat_eq (h.address a ha)
    exact decodeAddress_not_decimal hk

end Outflow

namespace Inflow

theorem dataFields_injective {i j : Inflow} (hi : i.WellFormed) (hj : j.WellFormed)
    (h : i.dataFields = j.dataFields) : i = j := by
  obtain ⟨x, hx, -⟩ := hi.outflowTxid
  obtain ⟨y, hy, -⟩ := hj.outflowTxid
  obtain ⟨m, hm⟩ := hi.outflowIdx
  obtain ⟨n, hn⟩ := hj.outflowIdx
  simp only [dataFields, hx, hy, hm, hn, optStr, id_eq, List.cons.injEq, and_true] at h
  have hmn := natStr_injective h.2
  cases i
  cases j
  simp_all

theorem dataFields_comma {i : Inflow} (h : i.WellFormed) : ∀ f ∈ i.dataFields, ',' ∉ f := by
  obtain ⟨x, hx, hmill⟩ := h.outflowTxid
  obtain ⟨n, hn⟩ := h.outflowIdx
  intro f hf
  simp only [dataFields, hx, hn, optStr, id_eq, List.mem_cons, List.not_mem_nil, or_false] at hf
  rcases hf with rfl | rfl
  · exact validateMillHash_comma hmill
  · exact (natStr_digits n).comma_notMem

end Inflow

end GumptionChain
