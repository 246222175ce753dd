import GumptionChain.Payload

/-!
# Transactions

`transaction.py`: the three wire models, the hash input, sealing and validation,
and the coinbase a miller builds.

* `Transaction.validate_eq_ok` — what an accepted transaction is: well formed,
  signed by its address, and named by the hash of its content;
* `Transaction.dataCsv_inj` — the hash input determines every field but the
  identifier and the signature;
* `Transaction.bare_eq_of_txid` — on collision-free texts, two accepted
  transactions with one identifier differ in the signature at most.
-/

namespace GumptionChain

/-- `MAX_FLOWS`. -/
def maxFlows : ℕ := 50

/-! ## Coinbase metrics -/

/-- `CoinbaseMetrics`. -/
structure CoinbaseMetrics where
  schadenfreude : ℤ := 0
  grace : ℤ := 0
  mudita : ℤ := 0
  regret : ℤ := 0
  deriving DecidableEq

namespace CoinbaseMetrics

/-- `CoinbaseMetrics.__add__`. -/
def add (m n : CoinbaseMetrics) : CoinbaseMetrics :=
  ⟨m.schadenfreude + n.schadenfreude, m.grace + n.grace, m.mudita + n.mudita, m.regret + n.regret⟩

/-- `CoinbaseMetrics.nonzero_amounts`. -/
def nonzeroAmounts (m : CoinbaseMetrics) : List ℤ :=
  [m.schadenfreude, m.grace, m.mudita, m.regret].filter (· ≠ 0)

/-- All four metrics together: what a block's coinbase mints beyond the reward. -/
def total (m : CoinbaseMetrics) : ℤ := m.schadenfreude + m.grace + m.mudita + m.regret

@[simp] theorem total_add (m n : CoinbaseMetrics) : (m.add n).total = m.total + n.total := by
  simp only [total, add]
  ring

theorem sum_filter_ne_zero (l : List ℤ) : (l.filter (· ≠ 0)).sum = l.sum := by
  induction l with
  | nil => rfl
  | cons a l ih =>
    by_cases h : a = 0
    · rw [List.filter_cons_of_neg (by simpa using h), List.sum_cons, ih, h, zero_add]
    · rw [List.filter_cons_of_pos (by simpa using h), List.sum_cons, List.sum_cons, ih]

theorem sum_nonzeroAmounts (m : CoinbaseMetrics) : m.nonzeroAmounts.sum = m.total := by
  rw [nonzeroAmounts, sum_filter_ne_zero]
  simp [total, add_assoc]

end CoinbaseMetrics

/-! ## The dataclass -/

/-- `Transaction`. -/
structure Transaction where
  timestamp : Str
  txid : Option Str := none
  address : Option Str := none
  signature : Option Str := none
  inflows : List Inflow := []
  outflows : List Outflow := []
  version : Str := ['1']
  prevHash : Option Str := none
  deriving DecidableEq

/-- The part of `SigningKey` that sealing uses. -/
structure SigningKey where
  address : Str
  sign : Str → Str

namespace Transaction

/-- `timestamp_dt`.  An unreadable timestamp raises in the source; every caller
modelled here has validated it before or checks for it. -/
def timestampDt (t : Transaction) : Option DateTime := iso2Dt t.timestamp

/-- `is_coinbase`. -/
def isCoinbase (t : Transaction) : Bool := t.prevHash.isSome

/-- `data_csv`. -/
def dataCsv (t : Transaction) : Str :=
  let fields :=
    [t.timestamp, optStr id t.address, Csv.join ',' (t.inflows.map Inflow.dataCsv),
      Csv.join ',' (t.outflows.map Outflow.dataCsv), t.version]
  Csv.join ',' (fields ++ t.prevHash.toList)

/-- `signing_data`, before it is encoded. -/
def signingData (t : Transaction) : Str := Csv.join ',' [t.dataCsv, optStr id t.txid]

/-- `get_outflow`. -/
def getOutflow (t : Transaction) (index : ℕ) : Option Outflow := t.outflows[index]?

/-- `calculate_txid`. -/
def calculateTxid (E : Env) (t : Transaction) : Str := E.millHashStr t.dataCsv

/-- `seal`. -/
def sealTxn (E : Env) (t : Transaction) : Transaction := { t with txid := some (t.calculateTxid E) }

/-- `set_signing_key` and `sign`, on a sealed transaction. -/
def sign (key : SigningKey) (t : Transaction) : Transaction :=
  { t with signature := some (key.sign t.signingData) }

/-- The dataclass order: by `(timestamp, txid)`. -/
def lt (t u : Transaction) : Prop :=
  t.timestamp < u.timestamp ∨ (t.timestamp = u.timestamp ∧ t.txid.getD [] < u.txid.getD [])

instance (t u : Transaction) : Decidable (t.lt u) := by
  unfold lt
  infer_instance

/-- A transaction without its signature: all that its identifier commits to. -/
def bare (t : Transaction) : Transaction := { t with signature := none }

/-- A transaction without identifier and signature: what `data_csv` shows. -/
def content (t : Transaction) : Transaction := { t with txid := none, signature := none }

end Transaction

/-! ## The wire models -/

/-- The word pydantic counts with. -/
def itemWord (n : ℕ) : String := if n = 1 then "item" else "items"

/-- pydantic's message for a list of the wrong length. -/
def lengthMsg (bound : String) (limit n : ℕ) : String :=
  s!"List should have at {bound} {limit} {itemWord limit} after validation, not {n}"

/-- The errors of a list's items, each under its index. -/
def itemErrors {α : Type} (loc : List Loc) (item : List Loc → α → List ErrorDetail) (l : List α) :
    List ErrorDetail := l.zipIdx.flatMap fun p => item (loc ++ [.index p.2]) p.1

/-- A length-bounded list: too long is reported alone, then faulty items, then
too short. -/
def checkList {α : Type} (loc : List Loc) (min max : ℕ) (item : List Loc → α → List ErrorDetail)
    (l : List α) : List ErrorDetail :=
  if max < l.length then [⟨loc, lengthMsg "most" max l.length, none⟩]
  else if itemErrors loc item l ≠ [] then itemErrors loc item l
  else if l.length < min then [⟨loc, lengthMsg "least" min l.length, none⟩]
  else []

theorem itemErrors_eq_nil {α : Type} (loc : List Loc) {item : List Loc → α → List ErrorDetail}
    {P : α → Prop} (hitem : ∀ loc a, item loc a = [] ↔ P a) {l : List α} :
    itemErrors loc item l = [] ↔ ∀ a ∈ l, P a := by
  rw [itemErrors, List.flatMap_eq_nil_iff]
  constructor
  · intro h a ha
    obtain ⟨i, hi, rfl⟩ := List.mem_iff_getElem.1 ha
    exact (hitem _ _).1 (h (l[i], i) (List.mem_zipIdx_iff_getElem?.2 (by simp [hi])))
  · intro h p hp
    exact (hitem _ _).2 (h p.1 (List.fst_mem_of_mem_zipIdx hp))

theorem checkList_eq_nil {α : Type} {loc : List Loc} {min max : ℕ}
    {item : List Loc → α → List ErrorDetail} {P : α → Prop}
    (hitem : ∀ loc a, item loc a = [] ↔ P a) {l : List α} :
    checkList loc min max item l = [] ↔ (min ≤ l.length ∧ l.length ≤ max) ∧ ∀ a ∈ l, P a := by
  rw [← itemErrors_eq_nil loc hitem]
  unfold checkList
  split_ifs with hmax hne hmin
  · exact ⟨fun h => absurd h (by simp), fun h => absurd h.1.2 (by omega)⟩
  · exact ⟨fun h => absurd h hne, fun h => absurd h.2 hne⟩
  · exact ⟨fun h => absurd h (by simp), fun h => absurd h.1.1 (by omega)⟩
  · exact ⟨fun _ => ⟨⟨by omega, by omega⟩, not_not.1 hne⟩, fun _ => rfl⟩

/-- What a model says of `prev_hash`. -/
inductive PrevHashRule where
  | optional
  | forbidden
  | required
  deriving DecidableEq

/-- The points in which the three transaction models differ. -/
structure TransactionRules where
  minInflows : ℕ
  maxInflows : ℕ
  maxOutflows : ℕ
  prevHash : PrevHashRule

/-- `TransactionModel`. -/
def transactionModel : TransactionRules := ⟨0, maxFlows, maxFlows, .optional⟩

/-- `RegularTransactionModel`. -/
def regularTransactionModel : TransactionRules := ⟨1, maxFlows, maxFlows, .forbidden⟩

/-- `CoinbaseTransactionModel`. -/
def coinbaseTransactionModel : TransactionRules := ⟨0, 0, 5, .required⟩

/-- The `prev_hash` field of a model. -/
def checkPrevHash (loc : List Loc) : PrevHashRule → Option Str → List ErrorDetail
  | .optional, h => optional (checkMillHash loc) h
  | .required, h => required loc (checkMillHash loc) h
  | .forbidden, none => []
  | .forbidden, some _ => [⟨loc, "Input should be None", none⟩]

/-- A `prev_hash` a model accepts. -/
def PrevHashRule.Accepts : PrevHashRule → Option Str → Prop
  | .optional, h => ∀ s, h = some s → validateMillHash s = true
  | .required, h => ∃ s, h = some s ∧ validateMillHash s = true
  | .forbidden, h => h = none

theorem checkPrevHash_eq_nil {loc : List Loc} {r : PrevHashRule} {h : Option Str} :
    checkPrevHash loc r h = [] ↔ r.Accepts h := by
  cases r with
  | optional => simp [checkPrevHash, PrevHashRule.Accepts, checkMillHash]
  | required => simp [checkPrevHash, PrevHashRule.Accepts, checkMillHash]
  | forbidden => cases h <;> simp [checkPrevHash, PrevHashRule.Accepts]

/-- A transaction model, field by field. -/
def transactionErrors (E : Env) (r : TransactionRules) (loc : List Loc) (t : Transaction) :
    List ErrorDetail :=
  checkTimestamp (field loc "timestamp") t.timestamp ++
  required (field loc "txid") (checkMillHash (field loc "txid")) t.txid ++
  required (field loc "address") (checkAddress (field loc "address")) t.address ++
  optional (checkBase64 (field loc "signature")) t.signature ++
  checkList (field loc "inflows") r.minInflows r.maxInflows inflowErrors t.inflows ++
  checkList (field loc "outflows") 1 r.maxOutflows (outflowErrors E) t.outflows ++
  checkVersion (field loc "version") t.version ++
  checkPrevHash (field loc "prev_hash") r.prevHash t.prevHash

/-- What a transaction model accepts. -/
structure Transaction.WellFormed (E : Env) (r : TransactionRules) (t : Transaction) : Prop where
  timestamp : validateTimestamp t.timestamp = true
  txid : ∃ h, t.txid = some h ∧ validateMillHash h = true
  address : ∃ a, t.address = some a ∧ validateAddressFormat a = true
  signature : ∀ s, t.signature = some s → validateBase64 s = true
  inflowCount : r.minInflows ≤ t.inflows.length ∧ t.inflows.length ≤ r.maxInflows
  inflows : ∀ i ∈ t.inflows, i.WellFormed
  outflowCount : 1 ≤ t.outflows.length ∧ t.outflows.length ≤ r.maxOutflows
  outflows : ∀ o ∈ t.outflows, o.WellFormed E
  version : t.version = ['1']
  prevHash : r.prevHash.Accepts t.prevHash

theorem transactionErrors_eq_nil {E : Env} {r : TransactionRules} {loc : List Loc}
    {t : Transaction} : transactionErrors E r loc t = [] ↔ t.WellFormed E r := by
  simp only [transactionErrors, List.append_eq_nil_iff, required_eq_nil, optional_eq_nil,
    checkTimestamp, checkMillHash, checkAddress, checkBase64, checkVersion, check_eq_nil,
    decide_eq_true_eq, checkPrevHash_eq_nil,
    checkList_eq_nil (P := Inflow.WellFormed) fun _ _ => inflowErrors_eq_nil,
    checkList_eq_nil (P := Outflow.WellFormed E) fun _ _ => outflowErrors_eq_nil]
  constructor
  · rintro ⟨⟨⟨⟨⟨⟨⟨h1, h2⟩, h3⟩, h4⟩, h5, h6⟩, h7, h8⟩, h9⟩, h10⟩
    exact ⟨h1, h2, h3, h4, h5, h6, h7, h8, h9, h10⟩
  · rintro ⟨h1, h2, h3, h4, h5, h6, h7, h8, h9, h10⟩
    exact ⟨⟨⟨⟨⟨⟨⟨h1, h2⟩, h3⟩, h4⟩, h5, h6⟩, h7, h8⟩, h9⟩, h10⟩

namespace Transaction

variable {E : Env} {t u : Transaction}

/-- Both stricter models refine `TransactionModel`. -/
theorem WellFormed.general {r : TransactionRules} (h : t.WellFormed E r)
    (hr : r = regularTransactionModel ∨ r = coinbaseTransactionModel) :
    t.WellFormed E transactionModel := by
  have hin : t.inflows.length ≤ maxFlows := by
    have := h.inflowCount.2
    rcases hr with rfl | rfl
    · exact this
    · exact this.trans (by decide)
  have hout : t.outflows.length ≤ maxFlows := by
    have := h.outflowCount.2
    rcases hr with rfl | rfl
    · exact this
    · exact this.trans (by decide)
  have hprev : ∀ s, t.prevHash = some s → validateMillHash s = true := by
    intro s hs
    have := h.prevHash
    rcases hr with rfl | rfl
    · exact absurd (this.symm.trans hs) (by simp)
    · obtain ⟨s', hs', hmill⟩ := this
      rw [hs, Option.some.injEq] at hs'
      exact hs' ▸ hmill
  exact ⟨h.timestamp, h.txid, h.address, h.signature, ⟨Nat.zero_le _, hin⟩, h.inflows,
    ⟨h.outflowCount.1, hout⟩, h.outflows, h.version, hprev⟩

/-! ## Validation -/

/-- `validate_signature`. -/
def validateSignature (E : Env) (t : Transaction) : Except Err Unit :=
  ensure (E.validateSignature t.address t.signingData t.signature = true) .invalidSignature

/-- `validate_txid`. -/
def validateTxid (E : Env) (t : Transaction) : Except Err Unit :=
  ensure (t.txid = some (t.calculateTxid E)) .invalidTransactionId

/-- `validate`. -/
def validate (E : Env) (t : Transaction) (coinbase : Bool) : Except Err Unit := do
  let model := if coinbase then coinbaseTransactionModel else regularTransactionModel
  let errors := transactionErrors E model [] t
  ensure (errors = []) (.invalidTransaction errors)
  t.validateSignature E
  t.validateTxid E

/-- What `validate` accepts. -/
structure Valid (E : Env) (r : TransactionRules) (t : Transaction) : Prop where
  wellFormed : t.WellFormed E r
  signed : E.validateSignature t.address t.signingData t.signature = true
  named : t.txid = some (t.calculateTxid E)

theorem validate_eq_ok {coinbase : Bool} {x : Unit} :
    t.validate E coinbase = .ok x ↔
      t.Valid E (if coinbase then coinbaseTransactionModel else regularTransactionModel) := by
  simp only [validate, transactionErrors_eq_nil, bind_eq_ok, validateSignature, validateTxid,
    ensure_eq_ok]
  constructor
  · rintro ⟨_, h1, _, h2, h3⟩
    exact ⟨h1, h2, h3⟩
  · rintro ⟨h1, h2, h3⟩
    exact ⟨(), h1, (), h2, h3⟩

/-! ## The hash input determines the content -/

/-- The columns of the inflow part; no inflow at all still takes one. -/
def inflowFields (t : Transaction) : List Str :=
  if t.inflows = [] then [[]] else t.inflows.flatMap Inflow.dataFields

/-- `data_csv` as one row of columns. -/
def fields (t : Transaction) : List Str :=
  t.timestamp :: optStr id t.address ::
    (t.inflowFields ++ (t.outflows.flatMap Outflow.dataFields ++ t.version :: t.prevHash.toList))

theorem dataCsv_eq_join (h : t.outflows ≠ []) : t.dataCsv = Csv.join ',' t.fields := by
  have hin : Csv.join ',' (t.inflows.map Inflow.dataCsv) = Csv.join ',' t.inflowFields := by
    unfold inflowFields
    split_ifs with hnil
    · rw [hnil]
      rfl
    · rw [List.flatMap, ← Csv.join_flatten ',' (by simp [Inflow.dataFields]), List.map_map]
      rfl
  have hout : Csv.join ',' (t.outflows.map Outflow.dataCsv)
      = Csv.join ',' (t.outflows.flatMap Outflow.dataFields) := by
    rw [List.flatMap, ← Csv.join_flatten ',' (by simp [Outflow.dataFields]), List.map_map]
    rfl
  have hinNe : t.inflowFields ≠ [] := by
    unfold inflowFields
    split_ifs with hnil
    · simp
    · cases hl : t.inflows with
      | nil => exact absurd hl hnil
      | cons i is => simp [Inflow.dataFields]
  have houtNe : t.outflows.flatMap Outflow.dataFields ≠ [] := by
    cases hl : t.outflows with
    | nil => exact absurd hl h
    | cons o os => simp [Outflow.dataFields]
  rw [dataCsv, hin, hout]
  exact Csv.join_nested ',' hinNe houtNe

theorem fields_comma (h : t.WellFormed E transactionModel) : ∀ f ∈ t.fields, ',' ∉ f := by
  obtain ⟨d, hd⟩ := Option.isSome_iff_exists.1 h.timestamp
  obtain ⟨a, ha, haddr⟩ := h.address
  obtain ⟨k, hk⟩ := validateAddressFormat_eq haddr
  intro f hf
  simp only [fields, List.mem_cons, List.mem_append] at hf
  rcases hf with rfl | rfl | hf | hf | rfl | hf
  · exact iso2Dt_comma hd
  · rw [ha]
    exact decodeAddress_comma hk
  · unfold inflowFields at hf
    split_ifs at hf with hnil
    · rw [List.mem_singleton.1 hf]
      exact List.not_mem_nil
    · obtain ⟨i, hi, hfi⟩ := List.mem_flatMap.1 hf
      exact Inflow.dataFields_comma (h.inflows i hi) f hfi
  · obtain ⟨o, ho, hfo⟩ := List.mem_flatMap.1 hf
    exact Outflow.dataFields_comma (h.outflows o ho) f hfo
  · rw [h.version]
    decide
  · exact validateMillHash_comma (h.prevHash f (Option.mem_toList.1 hf))

/-- An inflow as the pair of its columns. -/
def inflowPair (i : Inflow) : Str × Str := (optStr id i.outflowTxid, optStr natStr i.outflowIdx)

theorem inflowFields_of_ne_nil (h : t.inflows ≠ []) :
    t.inflowFields = (t.inflows.map inflowPair).flatMap fun p => [p.1, p.2] := by
  rw [inflowFields, if_neg h, List.flatMap_map]
  rfl

/-- The outflow part and what follows it begin with an outflow's two first
columns. -/
theorem outflowPart_cons (h : t.outflows ≠ []) :
    ∃ o ∈ t.outflows, ∃ rest, t.outflows.flatMap Outflow.dataFields ++ t.version :: t.prevHash.toList
      = optStr intStr o.amount :: o.address.getD [] :: rest := by
  cases hl : t.outflows with
  | nil => exact absurd hl h
  | cons o os => exact ⟨o, List.mem_cons_self .., _, rfl⟩

/-- Inflow parts that are followed by outflow parts split at the same place. -/
theorem inflows_eq_of_fields (ht : t.WellFormed E transactionModel)
    (hu : u.WellFormed E transactionModel) (hto : t.outflows ≠ []) (huo : u.outflows ≠ [])
    {rt ru : List Str}
    (hrt : rt = t.outflows.flatMap Outflow.dataFields ++ t.version :: t.prevHash.toList)
    (hru : ru = u.outflows.flatMap Outflow.dataFields ++ u.version :: u.prevHash.toList)
    (h : t.inflowFields ++ rt = u.inflowFields ++ ru) : t.inflows = u.inflows ∧ rt = ru := by
  -- a column list that starts with the empty column has no inflow
  have hhead : ∀ {v w : Transaction} {r r' : List Str}, v.inflows = [] → w.inflows ≠ [] →
      w.WellFormed E transactionModel → v.inflowFields ++ r ≠ w.inflowFields ++ r' := by
    intro v w r r' hv hw hwf heq
    cases hl : w.inflows with
    | nil => exact hw hl
    | cons i is =>
      obtain ⟨x, hx, hmill⟩ := (hwf.inflows i (hl ▸ List.mem_cons_self ..)).outflowTxid
      simp only [inflowFields, hv, if_true, hl, List.flatMap_cons, Inflow.dataFields, hx, optStr,
        id_eq, List.cons_append, List.cons.injEq, reduceCtorEq, if_false] at heq
      have := (validateMillHash_iff.1 hmill).2
      rw [← heq.1] at this
      exact absurd this (by decide)
  by_cases h1 : t.inflows = []
  · by_cases h2 : u.inflows = []
    · refine ⟨h1.trans h2.symm, ?_⟩
      simpa [inflowFields, h1, h2] using h
    · exact absurd h (hhead h1 h2 hu)
  · by_cases h2 : u.inflows = []
    · exact absurd h.symm (hhead h2 h1 ht)
    · rw [inflowFields_of_ne_nil h1, inflowFields_of_ne_nil h2, hrt, hru] at h
      obtain ⟨o, ho, resto, ho'⟩ := outflowPart_cons hto
      obtain ⟨p, hp, restp, hp'⟩ := outflowPart_cons huo
      rw [ho', hp'] at h
      have hmark : ∀ {v : Transaction}, v.WellFormed E transactionModel →
          ∀ q ∈ v.inflows.map inflowPair, IsDecimal q.2 := by
        intro v hv q hq
        obtain ⟨i, hi, rfl⟩ := List.mem_map.1 hq
        obtain ⟨n, hn⟩ := (hv.inflows i hi).outflowIdx
        simp only [inflowPair, hn, optStr]
        exact natStr_digits n
      obtain ⟨hpairs, hrest⟩ := Csv.append_inj_of_stop (hmark ht) (hmark hu)
        (Outflow.address_not_decimal (ht.outflows o ho))
        (Outflow.address_not_decimal (hu.outflows p hp)) h
      refine ⟨Csv.map_inj_of_mem (fun i hi j hj hij => ?_) hpairs, ?_⟩
      · refine Inflow.dataFields_injective (ht.inflows i hi) (hu.inflows j hj) ?_
        rw [inflowPair, inflowPair, Prod.mk.injEq] at hij
        rw [Inflow.dataFields, Inflow.dataFields, hij.1, hij.2]
      · rw [hrt, hru, ho', hp', hrest]

theorem WellFormed.outflows_ne_nil {r : TransactionRules} (h : t.WellFormed E r) :
    t.outflows ≠ [] := List.ne_nil_of_length_pos h.outflowCount.1

/-- The hash input determines everything but identifier and signature. -/
theorem dataCsv_inj (ht : t.WellFormed E transactionModel) (hu : u.WellFormed E transactionModel)
    (h : t.dataCsv = u.dataCsv) : t.content = u.content := by
  rw [dataCsv_eq_join ht.outflows_ne_nil, dataCsv_eq_join hu.outflows_ne_nil] at h
  have hfields := Csv.join_injective (by simp [fields]) (by simp [fields]) (fields_comma ht)
    (fields_comma hu) h
  rw [fields, fields, List.cons.injEq, List.cons.injEq] at hfields
  obtain ⟨htime, haddr, hrest⟩ := hfields
  obtain ⟨hin, htail⟩ := inflows_eq_of_fields ht hu ht.outflows_ne_nil hu.outflows_ne_nil rfl rfl
    hrest
  have hwidth : ∀ o : Outflow, o.dataFields.length = 6 := fun _ => rfl
  have hlen : ∀ v : Transaction, (v.version :: v.prevHash.toList).length < 6 := by
    intro v
    cases v.prevHash <;> simp
  obtain ⟨hout, hend⟩ := Csv.flatMap_append_inj hwidth (hlen t) (hlen u) htail
  have hout' := Csv.map_inj_of_mem
    (fun o ho p hp => Outflow.dataFields_injective (ht.outflows o ho) (hu.outflows p hp)) hout
  obtain ⟨a, ha, -⟩ := ht.address
  obtain ⟨b, hb, -⟩ := hu.address
  have haddr' : t.address = u.address := by
    rw [ha, hb] at haddr ⊢
    exact congrArg some haddr
  rw [List.cons.injEq] at hend
  have hprev : t.prevHash = u.prevHash := by
    have := congrArg List.head? hend.2
    rwa [Option.head?_toList, Option.head?_toList] at this
  simp [content, htime, haddr', hin, hout', hend.1, hprev]

/-- Two accepted transactions with one identifier agree but for the signature,
unless their hash inputs collide. -/
theorem bare_eq_of_txid {S : Set Str} (hS : E.CollisionFree S) {r r' : TransactionRules}
    (hr : r = regularTransactionModel ∨ r = coinbaseTransactionModel)
    (hr' : r' = regularTransactionModel ∨ r' = coinbaseTransactionModel)
    (ht : t.Valid E r) (hu : u.Valid E r') (htS : t.dataCsv ∈ S) (huS : u.dataCsv ∈ S)
    (h : t.txid = u.txid) : t.bare = u.bare := by
  have hhash : t.calculateTxid E = u.calculateTxid E := by
    rw [ht.named, hu.named, Option.some.injEq] at h
    exact h
  have hcontent := dataCsv_inj (ht.wellFormed.general hr) (hu.wellFormed.general hr')
    (hS htS huS hhash)
  simp only [content, mk.injEq] at hcontent
  simp only [bare, mk.injEq, h]
  tauto

/-! ## The coinbase -/

/-- `Transaction.coinbase`, with the clock's text as an argument. -/
def coinbase (E : Env) (key : SigningKey) (reward : ℤ) (m : CoinbaseMetrics) (prevHash : Str)
    (nowIso : Str) : Transaction :=
  let amounts := [reward, m.schadenfreude, m.grace, m.mudita, m.regret].filter (· ≠ 0)
  let cb : Transaction :=
    { timestamp := nowIso, address := some key.address, prevHash := some prevHash,
      outflows := amounts.map fun n => { amount := some n, address := some key.address } }
  (cb.sealTxn E).sign key

end Transaction

end GumptionChain
