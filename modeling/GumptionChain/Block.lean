import GumptionChain.Transaction

/-!
# Blocks

`block.py`: the header, the canonical transaction order, the wire model,
validation of a block on its own, and the steps by which a miller assembles one.

* `Block.validate_eq_ok` — what `Block.validate` accepts, as one structure
  (`Block.Valid`);
* `Block.header_inj` — the header text determines the header;
* `Block.Valid.txns_eq` — a valid block is its regular transactions followed by the
  coinbase.
-/

namespace GumptionChain

/-- `MAX_TRANSACTIONS`. -/
def maxTransactions : ℕ := 100

/-- `TXN_TIMEOUT`, in seconds. -/
def txnTimeout : ℕ := 4 * 3600

/-- `expiry_cutoff`, in seconds since year 1: `OverflowError` before it. -/
def expiryCutoff (reference : DateTime) : Except Err ℕ :=
  if reference.toSeconds < txnTimeout then .error .overflowError
  else .ok (reference.toSeconds - txnTimeout)

/-- `txn_is_expired`. -/
def txnIsExpired (txnTimestamp reference : DateTime) : Except Err Bool := do
  let cutoff ← expiryCutoff reference
  return txnTimestamp.toSeconds < cutoff

/-- No expiry: the cutoff exists and is not past the transaction. -/
theorem txnIsExpired_eq_false {t r : DateTime} :
    txnIsExpired t r = .ok false ↔
      txnTimeout ≤ r.toSeconds ∧ r.toSeconds ≤ t.toSeconds + txnTimeout := by
  unfold txnIsExpired expiryCutoff
  by_cases h : r.toSeconds < txnTimeout
  · rw [if_pos h, error_bind]
    exact ⟨fun hc => absurd hc (by simp), fun hc => absurd h (by omega)⟩
  · rw [if_neg h, ok_bind]
    show Except.ok _ = Except.ok _ ↔ _
    rw [Except.ok.injEq, decide_eq_false_iff_not]
    omega

/-- `validate_hash_diff`; `none` is the `ValueError` of `int(_, 16)`. -/
def validateHashDiff (blockHash target : Str) : Option Bool := do
  let h ← int16 blockHash
  let t ← int16 target
  return h < t

/-- `Block`. -/
structure Block where
  idx : Option ℕ := none
  timestamp : Option Str := none
  blockHash : Option Str := none
  prevHash : Option Str := none
  target : Str := List.replicate 64 'F'
  proofOfWork : Option ℕ := none
  merkleRoot : Option Str := none
  txns : List Transaction := []
  version : Str := ['1']
  deriving DecidableEq

namespace Block

/-- `timestamp_dt`; the empty text reads as no timestamp. -/
def timestampDt (b : Block) : Option DateTime := b.timestamp.bind iso2Dt

/-- `last_txn`. -/
def lastTxn (b : Block) : Option Transaction := b.txns.getLast?

/-- `regular_txns`. -/
def regularTxns (b : Block) : List Transaction := b.txns.dropLast

/-- `is_sealed`. -/
def isSealed (b : Block) : Bool := b.timestamp.isSome

/-- `coinbase`. -/
def coinbase (b : Block) : Option Transaction := if b.isSealed then b.lastTxn else none

/-! ## The header -/

/-- `unproven_header`. -/
def unprovenHeader (b : Block) : Str :=
  Csv.join ',' [optStr natStr b.idx, optStr id b.timestamp, optStr id b.prevHash, b.target,
    optStr id b.merkleRoot, b.version, []]

/-- `potential_header`. -/
def potentialHeader (b : Block) (proofOfWork : Option ℕ) : Str :=
  b.unprovenHeader ++ optStr natStr proofOfWork

/-- `header`. -/
def header (b : Block) : Str := b.potentialHeader b.proofOfWork

/-- `get_header_hash`. -/
def getHeaderHash (E : Env) (b : Block) : Str := E.millHashStr b.header

/-- `validate_proof_of_work`. -/
def validateProofOfWork (E : Env) (b : Block) (proofOfWork : ℕ) : Option Bool :=
  validateHashDiff (E.millHashStr (b.potentialHeader (some proofOfWork))) b.target

/-! ## The canonical order -/

/-- The sort key of `_canonical_order`. -/
def sortKey (t : Transaction) : Bool ×ₗ Str ×ₗ Str :=
  toLex (t.isCoinbase, toLex (t.timestamp, t.txid.getD []))

/-- `_canonical_order`. -/
def canonicalOrder (txns : List Transaction) : List Transaction :=
  txns.insertionSort fun t u => sortKey t ≤ sortKey u

/-- `canonical_txns`. -/
def canonicalTxns (b : Block) : List Transaction := canonicalOrder b.txns

/-- `get_merkle_root`. -/
def getMerkleRoot (E : Env) (b : Block) : Option Str :=
  E.merkleDigest (b.canonicalTxns.filterMap Transaction.txid)

/-! ## The wire model -/

/-- `BlockModel.validate_difficulty`. -/
def difficultyErrors (b : Block) : List ErrorDetail :=
  match validateHashDiff (b.blockHash.getD []) b.target with
  | some true => []
  | some false => [⟨[], "Value error, Missed target", none⟩]
  | none => [⟨[], "Value error, invalid literal for int() with base 16", none⟩]

/-- The fields of `BlockModel`. -/
def fieldErrors (E : Env) (b : Block) : List ErrorDetail :=
  required [.key "idx"] (fun _ => []) b.idx ++
  required [.key "timestamp"] (checkTimestamp [.key "timestamp"]) b.timestamp ++
  required [.key "block_hash"] (checkMillHash [.key "block_hash"]) b.blockHash ++
  required [.key "prev_hash"] (checkMillHash [.key "prev_hash"]) b.prevHash ++
  checkMillHash [.key "target"] b.target ++
  required [.key "proof_of_work"] (fun _ => []) b.proofOfWork ++
  required [.key "merkle_root"] (checkMillHash [.key "merkle_root"]) b.merkleRoot ++
  checkList [.key "txns"] 1 maxTransactions (transactionErrors E transactionModel) b.txns ++
  checkVersion [.key "version"] b.version

/-- `BlockModel`: the model validator runs only when every field is fine. -/
def blockErrors (E : Env) (b : Block) : List ErrorDetail :=
  if b.fieldErrors E = [] then b.difficultyErrors else b.fieldErrors E

/-- What `BlockModel` accepts. -/
structure WellFormed (E : Env) (b : Block) : Prop where
  idx : ∃ n, b.idx = some n
  timestamp : ∃ s, b.timestamp = some s ∧ validateTimestamp s = true
  blockHash : ∃ h, b.blockHash = some h ∧ validateMillHash h = true
  prevHash : ∃ h, b.prevHash = some h ∧ validateMillHash h = true
  target : validateMillHash b.target = true
  proofOfWork : ∃ n, b.proofOfWork = some n
  merkleRoot : ∃ h, b.merkleRoot = some h ∧ validateMillHash h = true
  txnCount : 1 ≤ b.txns.length ∧ b.txns.length ≤ maxTransactions
  txns : ∀ t ∈ b.txns, t.WellFormed E transactionModel
  version : b.version = ['1']
  difficulty : validateHashDiff (b.blockHash.getD []) b.target = some true

variable {E : Env} {b : Block}

theorem difficultyErrors_eq_nil :
    b.difficultyErrors = [] ↔ validateHashDiff (b.blockHash.getD []) b.target = some true := by
  unfold difficultyErrors
  split <;> rename_i h <;> simp [h]

theorem fieldErrors_eq_nil : b.fieldErrors E = [] ↔
    (∃ n, b.idx = some n) ∧ (∃ s, b.timestamp = some s ∧ validateTimestamp s = true) ∧
      (∃ h, b.blockHash = some h ∧ validateMillHash h = true) ∧
      (∃ h, b.prevHash = some h ∧ validateMillHash h = true) ∧
      validateMillHash b.target = true ∧ (∃ n, b.proofOfWork = some n) ∧
      (∃ h, b.merkleRoot = some h ∧ validateMillHash h = true) ∧
      ((1 ≤ b.txns.length ∧ b.txns.length ≤ maxTransactions) ∧
        ∀ t ∈ b.txns, t.WellFormed E transactionModel) ∧ b.version = ['1'] := by
  simp only [fieldErrors, List.append_eq_nil_iff, required_eq_nil, checkTimestamp, checkMillHash,
    checkVersion, check_eq_nil, decide_eq_true_eq, and_true, and_assoc,
    checkList_eq_nil (P := Transaction.WellFormed E transactionModel)
      fun _ _ => transactionErrors_eq_nil]

theorem blockErrors_eq_nil : b.blockErrors E = [] ↔ b.WellFormed E := by
  unfold blockErrors
  split_ifs with hf
  · rw [difficultyErrors_eq_nil]
    obtain ⟨h1, h2, h3, h4, h5, h6, h7, ⟨h8, h9⟩, h10⟩ := fieldErrors_eq_nil.1 hf
    exact ⟨fun h => ⟨h1, h2, h3, h4, h5, h6, h7, h8, h9, h10, h⟩, fun h => h.difficulty⟩
  · refine ⟨fun h => absurd h hf, fun ⟨h1, h2, h3, h4, h5, h6, h7, h8, h9, h10, _⟩ => ?_⟩
    exact absurd (fieldErrors_eq_nil.2 ⟨h1, h2, h3, h4, h5, h6, h7, ⟨h8, h9⟩, h10⟩) hf

/-! ## Validation -/

/-- `validate_block_hash`. -/
def validateBlockHash (E : Env) (b : Block) : Except Err Unit :=
  ensure (b.blockHash = some (b.getHeaderHash E)) .invalidBlockHash

/-- `validate_merkle_root`. -/
def validateMerkleRoot (E : Env) (b : Block) : Except Err Unit :=
  ensure (b.merkleRoot = b.getMerkleRoot E) .invalidMerkleRoot

/-- The two clock checks of `validate_transaction`. -/
def validateWindow (b : Block) (txn : Transaction) : Except Err Unit :=
  match b.timestampDt, txn.timestampDt with
  | some blockTs, some txnTs => do
    ensure (txnTs.toSeconds ≤ blockTs.toSeconds) .futureTransaction
    let expired ← txnIsExpired txnTs blockTs
    ensure (expired = false) .expiredTransaction
  | _, _ => .ok ()

/-- The order check of `validate_transaction`. -/
def validateOrder (txn : Transaction) : Option Transaction → Except Err Unit
  | none => .ok ()
  | some prevTxn => ensure (¬ txn.lt prevTxn) .outOfOrderTransaction

/-- `validate_transaction`. -/
def validateTransaction (E : Env) (b : Block) (txn : Transaction)
    (prevTxn : Option Transaction) : Except Err Unit := do
  txn.validate E false
  b.validateWindow txn
  validateOrder txn prevTxn

/-- `validate_coinbase`. -/
def validateCoinbase (E : Env) (b : Block) : Except Err Unit :=
  match b.coinbase with
  | none => .error .missingCoinbase
  | some cb => cb.validate E true

/-- The loop of `validate` over the regular transactions. -/
def validateTransactions (E : Env) (b : Block) :
    Option Transaction → List Transaction → Except Err Unit
  | _, [] => .ok ()
  | prevTxn, txn :: rest => do
    wrapTransactionError (.transactionInBlock txn.txid) (b.validateTransaction E txn prevTxn)
    b.validateTransactions E (some txn) rest

/-- `validate`. -/
def validate (E : Env) (b : Block) : Except Err Unit := do
  let errors := b.blockErrors E
  ensure (errors = []) (.invalidBlock errors)
  b.validateBlockHash E
  b.validateMerkleRoot E
  b.validateTransactions E none b.regularTxns
  wrapTransactionError .coinbaseInBlock (b.validateCoinbase E)

/-- A transaction no newer than the block and at most `TXN_TIMEOUT` older. -/
def InWindow (b : Block) (t : Transaction) : Prop :=
  ∀ blockTs txnTs, b.timestampDt = some blockTs → t.timestampDt = some txnTs →
    txnTs.toSeconds ≤ blockTs.toSeconds ∧ txnTimeout ≤ blockTs.toSeconds ∧
      blockTs.toSeconds ≤ txnTs.toSeconds + txnTimeout

theorem validateWindow_eq_ok {t : Transaction} {x : Unit} :
    b.validateWindow t = .ok x ↔ b.InWindow t := by
  unfold validateWindow InWindow
  split
  · rename_i blockTs txnTs hb ht
    simp only [bind_eq_ok, ensure_eq_ok]
    constructor
    · rintro ⟨_, h1, expired, hexp, rfl⟩ blockTs' txnTs' hb' ht'
      rw [hb, Option.some.injEq] at hb'
      rw [ht, Option.some.injEq] at ht'
      subst hb' ht'
      exact ⟨h1, txnIsExpired_eq_false.1 hexp⟩
    · intro h
      obtain ⟨h1, h2⟩ := h blockTs txnTs hb ht
      exact ⟨(), h1, false, txnIsExpired_eq_false.2 h2, rfl⟩
  · rename_i hnone
    exact ⟨fun _ blockTs txnTs hb ht => absurd ht (hnone blockTs txnTs hb), fun _ => rfl⟩

theorem validateOrder_eq_ok {t : Transaction} {prev : Option Transaction} {x : Unit} :
    validateOrder t prev = .ok x ↔ ∀ p, prev = some p → ¬ t.lt p := by
  cases prev with
  | none => simp [validateOrder]
  | some p => simp [validateOrder]

theorem validateTransaction_eq_ok {t : Transaction} {prev : Option Transaction} {x : Unit} :
    b.validateTransaction E t prev = .ok x ↔
      t.Valid E regularTransactionModel ∧ b.InWindow t ∧ ∀ p, prev = some p → ¬ t.lt p := by
  simp only [validateTransaction, bind_eq_ok, Transaction.validate_eq_ok, validateWindow_eq_ok,
    validateOrder_eq_ok, Bool.false_eq_true, if_false]
  exact ⟨fun ⟨_, h1, _, h2, h3⟩ => ⟨h1, h2, h3⟩, fun ⟨h1, h2, h3⟩ => ⟨(), h1, (), h2, h3⟩⟩

/-- The loop accepts exactly the lists whose members are accepted and whose
neighbours are in order. -/
theorem validateTransactions_eq_ok {x : Unit} : ∀ {p : Option Transaction}
    {l : List Transaction}, b.validateTransactions E p l = .ok x ↔
      (∀ t ∈ l, t.Valid E regularTransactionModel ∧ b.InWindow t) ∧
        (p.toList ++ l).IsChain fun p t => ¬ t.lt p
  | prev, [] => by cases prev <;> simp [validateTransactions]
  | prev, t :: rest => by
    rw [validateTransactions, bind_eq_ok]
    simp only [wrapTransactionError_eq_ok, validateTransaction_eq_ok,
      validateTransactions_eq_ok (p := some t), List.forall_mem_cons, Option.toList_some,
      List.cons_append, List.nil_append]
    have hchain : (prev.toList ++ t :: rest).IsChain (fun p t => ¬ t.lt p) ↔
        (∀ p, prev = some p → ¬ t.lt p) ∧ (t :: rest).IsChain fun p t => ¬ t.lt p := by
      cases prev with
      | none => simp
      | some p => simp
    rw [hchain]
    constructor
    · rintro ⟨_, ⟨h1, h2, h3⟩, h4, h5⟩
      exact ⟨⟨⟨h1, h2⟩, h4⟩, h3, h5⟩
    · rintro ⟨⟨⟨h1, h2⟩, h4⟩, h3, h5⟩
      exact ⟨(), ⟨h1, h2, h3⟩, h4, h5⟩

/-- What `Block.validate` accepts. -/
structure Valid (E : Env) (b : Block) : Prop where
  wellFormed : b.WellFormed E
  hashed : b.blockHash = some (b.getHeaderHash E)
  rooted : b.merkleRoot = b.getMerkleRoot E
  regular : ∀ t ∈ b.regularTxns, t.Valid E regularTransactionModel ∧ b.InWindow t
  ordered : b.regularTxns.IsChain fun p t => ¬ t.lt p
  coinbase : ∃ cb, b.lastTxn = some cb ∧ cb.Valid E coinbaseTransactionModel

theorem validateCoinbase_eq_ok {x : Unit} (h : b.isSealed = true) :
    b.validateCoinbase E = .ok x ↔
      ∃ cb, b.lastTxn = some cb ∧ cb.Valid E coinbaseTransactionModel := by
  rw [validateCoinbase, Block.coinbase, if_pos h]
  cases b.lastTxn with
  | none => simp
  | some cb => simp [Transaction.validate_eq_ok]

theorem WellFormed.isSealed (h : b.WellFormed E) : b.isSealed = true := by
  obtain ⟨s, hs, -⟩ := h.timestamp
  simp [Block.isSealed, hs]

theorem validate_eq_ok {x : Unit} : b.validate E = .ok x ↔ b.Valid E := by
  simp only [validate, bind_eq_ok, ensure_eq_ok, validateBlockHash, validateMerkleRoot,
    blockErrors_eq_nil, validateTransactions_eq_ok, wrapTransactionError_eq_ok, Option.toList_none,
    List.nil_append]
  constructor
  · rintro ⟨_, h1, _, h2, _, h3, _, ⟨h4, h5⟩, h6⟩
    exact ⟨h1, h2, h3, h4, h5, (validateCoinbase_eq_ok h1.isSealed).1 h6⟩
  · rintro ⟨h1, h2, h3, h4, h5, h6⟩
    exact ⟨(), h1, (), h2, (), h3, (), ⟨h4, h5⟩, (validateCoinbase_eq_ok h1.isSealed).2 h6⟩

/-! ## The header determines its fields -/

theorem header_eq_join (b : Block) : b.header =
    Csv.join ',' [optStr natStr b.idx, optStr id b.timestamp, optStr id b.prevHash, b.target,
      optStr id b.merkleRoot, b.version, optStr natStr b.proofOfWork] := by
  simp [header, potentialHeader, unprovenHeader, Csv.join_cons]

/-- The fields a header shows. -/
def headerFields (b : Block) : Option ℕ × Option Str × Option Str × Str × Option Str × Option ℕ :=
  (b.idx, b.timestamp, b.prevHash, b.target, b.merkleRoot, b.proofOfWork)

theorem header_comma (h : b.WellFormed E) : ∀ f ∈ [optStr natStr b.idx, optStr id b.timestamp,
    optStr id b.prevHash, b.target, optStr id b.merkleRoot, b.version,
    optStr natStr b.proofOfWork], ',' ∉ f := by
  obtain ⟨n, hn⟩ := h.idx
  obtain ⟨s, hs, hts⟩ := h.timestamp
  obtain ⟨d, hd⟩ := Option.isSome_iff_exists.1 hts
  obtain ⟨p, hp, hpm⟩ := h.prevHash
  obtain ⟨m, hm, hmm⟩ := h.merkleRoot
  obtain ⟨w, hw⟩ := h.proofOfWork
  intro f hf
  simp only [hn, hs, hp, hm, hw, h.version, optStr, id_eq, List.mem_cons, List.not_mem_nil,
    or_false] at hf
  rcases hf with rfl | rfl | rfl | rfl | rfl | rfl | rfl
  · exact (natStr_digits n).comma_notMem
  · exact iso2Dt_comma hd
  · exact validateMillHash_comma hpm
  · exact validateMillHash_comma h.target
  · exact validateMillHash_comma hmm
  · decide
  · exact (natStr_digits w).comma_notMem

theorem header_inj {c : Block} (hb : b.WellFormed E) (hc : c.WellFormed E)
    (h : b.header = c.header) : b.headerFields = c.headerFields := by
  rw [header_eq_join, header_eq_join] at h
  have hrow := Csv.join_injective (by simp) (by simp) (header_comma hb) (header_comma hc) h
  obtain ⟨n, hn⟩ := hb.idx
  obtain ⟨n', hn'⟩ := hc.idx
  obtain ⟨s, hs, -⟩ := hb.timestamp
  obtain ⟨s', hs', -⟩ := hc.timestamp
  obtain ⟨p, hp, -⟩ := hb.prevHash
  obtain ⟨p', hp', -⟩ := hc.prevHash
  obtain ⟨m, hm, -⟩ := hb.merkleRoot
  obtain ⟨m', hm', -⟩ := hc.merkleRoot
  obtain ⟨w, hw⟩ := hb.proofOfWork
  obtain ⟨w', hw'⟩ := hc.proofOfWork
  simp only [hn, hn', hs, hs', hp, hp', hm, hm', hw, hw', optStr, id_eq, List.cons.injEq,
    and_true] at hrow
  obtain ⟨h1, h2, h3, h4, h5, -, h7⟩ := hrow
  simp only [headerFields, hn, hn', hs, hs', hp, hp', hm, hm', hw, hw', natStr_injective h1, h2, h3,
    h4, h5, natStr_injective h7]

/-- A header is not the text the genesis hash is made from. -/
theorem header_ne_genesis (b : Block) : b.header ≠ genesisText := by
  intro h
  have hcomma : ',' ∈ b.header := by
    rw [header_eq_join, Csv.join_cons ',' _ (by simp)]
    simp
  rw [h] at hcomma
  exact absurd hcomma (by decide)

/-! ## A valid block's transactions -/

theorem Valid.txns_eq (h : b.Valid E) : ∃ cb, b.lastTxn = some cb ∧
    cb.Valid E coinbaseTransactionModel ∧ b.txns = b.regularTxns ++ [cb] := by
  obtain ⟨cb, hlast, hcb⟩ := h.coinbase
  exact ⟨cb, hlast, hcb, (List.dropLast_append_getLast? cb hlast).symm⟩

/-- Every transaction of a valid block is valid in one of the two ways. -/
theorem Valid.txn_valid (h : b.Valid E) {t : Transaction} (ht : t ∈ b.txns) :
    ∃ r, (r = regularTransactionModel ∨ r = coinbaseTransactionModel) ∧ t.Valid E r := by
  obtain ⟨cb, -, hcb, htxns⟩ := h.txns_eq
  rw [htxns, List.mem_append, List.mem_singleton] at ht
  rcases ht with ht | rfl
  · exact ⟨_, Or.inl rfl, (h.regular t ht).1⟩
  · exact ⟨_, Or.inr rfl, hcb⟩

/-- A valid block's hash is not empty. -/
theorem Valid.blockHash_ne_nil (h : b.Valid E) {x : Str} (hx : b.blockHash = some x) : x ≠ [] := by
  obtain ⟨y, hy, hmill⟩ := h.wellFormed.blockHash
  rw [hx, Option.some.injEq] at hy
  rintro rfl
  rw [← hy] at hmill
  exact absurd (validateMillHash_iff.1 hmill).2 (by simp)

/-! ## Assembling a block -/

/-- `link`, at a height that the wire model accepts (`ge=0`). -/
def link (b : Block) (idx : ℕ) (prevHash target : Str) : Block :=
  { b with idx := some idx, prevHash := some prevHash, target := target }

/-- `add_txn`. -/
def addTxn (E : Env) (b : Block) (txn : Transaction) (isCoinbase : Bool) : Except Err Block := do
  ensure (b.isSealed = false) .sealedBlock
  if isCoinbase then txn.validate E true else b.validateTransaction E txn b.lastTxn
  return { b with txns := b.txns ++ [txn] }

/-- `create_coinbase`. -/
def createCoinbase (E : Env) (b : Block) (key : SigningKey) (reward : ℤ)
    (metrics : CoinbaseMetrics) (nowIso : Str) : Except Err Transaction :=
  match b.prevHash with
  | none => .error .unlinkedBlock
  | some prevHash => .ok (Transaction.coinbase E key reward metrics prevHash nowIso)

/-- `add_coinbase`. -/
def addCoinbase (E : Env) (b : Block) (key : SigningKey) (reward : ℤ) (metrics : CoinbaseMetrics)
    (nowIso : Str) : Except Err Block := do
  let cb ← b.createCoinbase E key reward metrics nowIso
  b.addTxn E cb true

/-- `txns.sort()`. -/
def sortTxns (txns : List Transaction) : List Transaction :=
  txns.insertionSort fun t u => ¬ u.lt t

/-- `seal`, which reads the clock twice: for the coinbase and for the block. -/
def sealWith (E : Env) (b : Block) (key : SigningKey) (reward : ℤ) (metrics : CoinbaseMetrics)
    (coinbaseIso nowIso : Str) : Except Err Block := do
  ensure (b.isSealed = false) .sealedBlock
  ensure (b.prevHash ≠ none ∧ b.idx ≠ none) .unlinkedBlock
  let b ← { b with txns := sortTxns b.txns }.addCoinbase E key reward metrics coinbaseIso
  return { b with merkleRoot := b.getMerkleRoot E, timestamp := some nowIso }

/-- `solve`, with a number that the wire model accepts for a proof of work (`ge=0`). -/
def solve (E : Env) (b : Block) (proofOfWork : ℕ) : Except Err Block :=
  match b.validateProofOfWork E proofOfWork with
  | none => .error .valueError
  | some false => .error .invalidProof
  | some true =>
    let b := { b with proofOfWork := some proofOfWork }
    .ok { b with blockHash := some (b.getHeaderHash E) }

end Block

/-! ## A table of hashes -/

/-- SHA-256 of SHA-512 of `GENESIS`. -/
def firstPrevHash : Str :=
  fmt064x 0x9a5059671ee7d5d35fa1aef3cbd9710cae8433298a71be2e083cdd7cc3d068cf

/-- The environment that knows what the given blocks say of themselves: the
hashes of their headers and transactions, their Merkle digests and the
signatures they carry.  On these inputs it is the real one. -/
def Env.knowing (blocks : List Block) : Env where
  millHashStr s :=
    if s = genesisText then firstPrevHash
    else
      match blocks.find? fun b => b.header = s with
      | some b => b.blockHash.getD []
      | none =>
        (((blocks.flatMap Block.txns).find? fun t => t.dataCsv = s).bind Transaction.txid).getD []
  merkleDigest entries :=
    (blocks.find? fun b => b.canonicalTxns.filterMap Transaction.txid = entries).bind
      Block.merkleRoot
  ed25519Rule publicKey signature message := (blocks.flatMap Block.txns).any fun t =>
    t.address.bind decodeAddress = some publicKey && t.signature.bind b64decode = some signature &&
      utf8Encode t.signingData = message
  isPrintable c := ' ' ≤ c && c ≤ '~'
  scaleTarget target seconds := target * (min (max seconds 1800) 28800).toNat / 7200
  integerMax := 2 ^ 63 - 1
  integerMax_ge := by decide

end GumptionChain
