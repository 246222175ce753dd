import GumptionChain.Block
import GumptionChain.Lib.Forest
import GumptionChain.Lib.Table

/-!
# The tables

`models.py`: the rows of each table, the constraints the schema declares, the
lookups by unique columns, and how rows are read back as inflows, outflows,
transactions and blocks (`from_dao`).

A `Database` is the tables; `Database.Schema` is what the database itself
enforces: primary keys, UNIQUE and NOT NULL columns, foreign keys and column
ranges.  Columns that no modelled function reads (the searchable subject texts)
are left out.
-/

namespace GumptionChain

/-! ## Rows -/

/-- `TransactionDAO`. -/
structure TransactionDAO where
  id : ℕ
  txid : Str
  version : Str
  timestamp : DateTime
  address : Option Str
  signature : Option Str
  prevHash : Option Str
  deriving DecidableEq

/-- `OutflowDAO`. -/
structure OutflowDAO where
  id : ℕ
  txid : Str
  idx : ℕ
  amount : ℤ
  address : Option Str
  opposition : Option Str
  rescind : Option Str
  support : Option Str
  rescindKind : Option StakeKind
  transactionId : ℕ
  deriving DecidableEq

/-- `InflowDAO`.  The constructor leaves `outflow_id` empty when it finds no
outflow; the column is NOT NULL. -/
structure InflowDAO where
  id : ℕ
  txid : Str
  idx : ℕ
  outflowTxid : Str
  outflowIdx : ℕ
  outflowId : Option ℕ
  transactionId : ℕ
  deriving DecidableEq

/-- `BlockDAO`. -/
structure BlockDAO where
  id : ℕ
  blockHash : Str
  version : Str
  idx : ℕ
  prevHash : Str
  timestamp : DateTime
  merkleRoot : Str
  proofOfWork : ℕ
  target : Str
  prevId : Option ℕ
  deriving DecidableEq

/-- `ChainDAO`. -/
structure ChainDAO where
  id : ℕ
  blockHash : Str
  blockId : ℕ
  tipIdx : ℕ
  deriving DecidableEq

/-- `LongestChainBlockDAO`. -/
structure LongestChainBlockDAO where
  blockId : ℕ
  position : ℕ
  deriving DecidableEq

/-- `PendingIOflowDAO`: the stored outflow that an inflow of a pending transaction
spends. -/
structure PendingIOflowDAO where
  txid : Str
  outflowTxid : Str
  outflowIdx : ℕ
  outflowId : ℕ
  deriving DecidableEq

/-- `PendingTxnDAO`, with the transaction that `json_data` spells, the microsecond it
was received and its `ioflows`, which are deleted with it. -/
structure PendingTxnDAO where
  txid : Str
  timestamp : DateTime
  txn : Transaction
  received : ℕ
  ioflows : List PendingIOflowDAO
  deriving DecidableEq

/-- The tables.  A pair of `blockTransactions` is a row of the association table
`block_transaction`: a block's id and a transaction's. -/
structure Database where
  blocks : List BlockDAO := []
  transactions : List TransactionDAO := []
  outflows : List OutflowDAO := []
  inflows : List InflowDAO := []
  blockTransactions : List (ℕ × ℕ) := []
  chains : List ChainDAO := []
  longestChainBlocks : List LongestChainBlockDAO := []
  pendingTxns : List PendingTxnDAO := []
  deriving DecidableEq

namespace Database

/-! ## Lookups -/

/-- `BlockDAO.get(block_hash)`; without a hash the query is for a NULL `idx`. -/
def blockByHash (db : Database) (blockHash : Option Str) : Option BlockDAO :=
  if truthy blockHash then Table.byKey BlockDAO.blockHash (blockHash.getD []) db.blocks else none

/-- `BlockDAO.get(idx)`. -/
def blockByIdx (db : Database) (idx : ℕ) : Except Err (Option BlockDAO) :=
  scalarOneOrNone (db.blocks.filter (·.idx = idx))

/-- A block by primary key. -/
def blockById (db : Database) (id : ℕ) : Option BlockDAO := Table.byKey BlockDAO.id id db.blocks

/-- The relationship `BlockDAO.prev`. -/
def prev (db : Database) (b : BlockDAO) : Option BlockDAO := b.prevId.bind db.blockById

/-- `TransactionDAO.get(txid)`. -/
def transactionByTxid (db : Database) (txid : Str) : Option TransactionDAO :=
  Table.byKey TransactionDAO.txid txid db.transactions

/-- A transaction by primary key. -/
def transactionById (db : Database) (id : ℕ) : Option TransactionDAO :=
  Table.byKey TransactionDAO.id id db.transactions

/-- `OutflowDAO.get(outflow_txid, outflow_idx)`. -/
def outflowByKey (db : Database) (txid : Str) (idx : ℕ) : Option OutflowDAO :=
  Table.byKey (fun o : OutflowDAO => (o.txid, o.idx)) (txid, idx) db.outflows

/-- The relationship `TransactionDAO.outflows`, ordered by `idx`. -/
def outflowsOf (db : Database) (t : TransactionDAO) : List OutflowDAO :=
  Table.orderBy OutflowDAO.idx (db.outflows.filter (·.transactionId = t.id))

/-- The relationship `TransactionDAO.inflows`, ordered by `idx`. -/
def inflowsOf (db : Database) (t : TransactionDAO) : List InflowDAO :=
  Table.orderBy InflowDAO.idx (db.inflows.filter (·.transactionId = t.id))

/-- The transaction rows joined to a block by the association table. -/
def rowsOf (db : Database) (blockId : ℕ) : List TransactionDAO :=
  (db.blockTransactions.filter (·.1 = blockId)).filterMap fun p => db.transactionById p.2

/-- The relationship `BlockDAO.transactions`, ordered by timestamp and txid. -/
def transactionsOf (db : Database) (b : BlockDAO) : List TransactionDAO :=
  Table.orderBy (fun t : TransactionDAO => toLex (t.timestamp.toSeconds, t.txid)) (db.rowsOf b.id)

/-! ## Constraints -/

/-- The values of a `BigInteger` column: signed 64 bit. -/
def FitsBigInteger (n : ℤ) : Prop := -2 ^ 63 ≤ n ∧ n < 2 ^ 63

instance (n : ℤ) : Decidable (FitsBigInteger n) := by
  unfold FitsBigInteger
  infer_instance

/-- What the schema enforces on the block tables. -/
structure Schema (E : Env) (db : Database) : Prop where
  blockIds : (db.blocks.map BlockDAO.id).Nodup
  blockHashes : (db.blocks.map BlockDAO.blockHash).Nodup
  blockPrev : ∀ b ∈ db.blocks, b.prevId = none ∨ ∃ p ∈ db.blocks, b.prevId = some p.id
  blockRange : ∀ b ∈ db.blocks, b.idx ≤ E.integerMax ∧ FitsBigInteger b.proofOfWork
  blockText : ∀ b ∈ db.blocks, b.blockHash.length ≤ 100 ∧ b.version.length ≤ 10 ∧
    b.prevHash.length ≤ 100 ∧ b.merkleRoot.length ≤ 100 ∧ b.target.length ≤ 100
  transactionIds : (db.transactions.map TransactionDAO.id).Nodup
  transactionTxids : (db.transactions.map TransactionDAO.txid).Nodup
  transactionText : ∀ t ∈ db.transactions, t.txid.length ≤ 100 ∧ t.version.length ≤ 10 ∧
    (t.address.getD []).length ≤ 100 ∧ (t.signature.getD []).length ≤ 700 ∧
    (t.prevHash.getD []).length ≤ 100
  outflowIds : (db.outflows.map OutflowDAO.id).Nodup
  outflowKeys : (db.outflows.map fun o => (o.txid, o.idx)).Nodup
  outflowTransaction : ∀ o ∈ db.outflows, ∃ t ∈ db.transactions, t.id = o.transactionId
  outflowRange : ∀ o ∈ db.outflows, o.idx ≤ E.integerMax ∧ FitsBigInteger o.amount
  outflowText : ∀ o ∈ db.outflows, o.txid.length ≤ 100 ∧ (o.address.getD []).length ≤ 100 ∧
    (o.opposition.getD []).length ≤ 500 ∧ (o.rescind.getD []).length ≤ 500 ∧
    (o.support.getD []).length ≤ 500
  inflowIds : (db.inflows.map InflowDAO.id).Nodup
  inflowKeys : (db.inflows.map fun i => (i.txid, i.idx)).Nodup
  inflowTransaction : ∀ i ∈ db.inflows, ∃ t ∈ db.transactions, t.id = i.transactionId
  inflowOutflow : ∀ i ∈ db.inflows, ∃ o ∈ db.outflows, i.outflowId = some o.id
  inflowRange : ∀ i ∈ db.inflows, i.idx ≤ E.integerMax ∧ i.outflowIdx ≤ E.integerMax
  inflowText : ∀ i ∈ db.inflows, i.txid.length ≤ 100 ∧ i.outflowTxid.length ≤ 100
  blockTransactionKeys : db.blockTransactions.Nodup
  blockTransactionBlock : ∀ p ∈ db.blockTransactions, ∃ b ∈ db.blocks, b.id = p.1
  blockTransactionTransaction : ∀ p ∈ db.blockTransactions, ∃ t ∈ db.transactions, t.id = p.2

/-- The violations of range come before those of constraints: a value that does
not fit its column never reaches the table. -/
def InRange (E : Env) (db : Database) : Prop :=
  (∀ b ∈ db.blocks, b.idx ≤ E.integerMax ∧ FitsBigInteger b.proofOfWork) ∧
    (∀ o ∈ db.outflows, o.idx ≤ E.integerMax ∧ FitsBigInteger o.amount) ∧
    ∀ i ∈ db.inflows, i.idx ≤ E.integerMax ∧ i.outflowIdx ≤ E.integerMax

instance (E : Env) (db : Database) : Decidable (db.InRange E) := by
  unfold InRange
  infer_instance

instance (E : Env) (db : Database) : Decidable (db.Schema E) :=
  decidable_of_iff
    ((db.blocks.map BlockDAO.id).Nodup ∧ (db.blocks.map BlockDAO.blockHash).Nodup ∧
      (∀ b ∈ db.blocks, b.prevId = none ∨ ∃ p ∈ db.blocks, b.prevId = some p.id) ∧
      (∀ b ∈ db.blocks, b.idx ≤ E.integerMax ∧ FitsBigInteger b.proofOfWork) ∧
      (∀ b ∈ db.blocks, b.blockHash.length ≤ 100 ∧ b.version.length ≤ 10 ∧
        b.prevHash.length ≤ 100 ∧ b.merkleRoot.length ≤ 100 ∧ b.target.length ≤ 100) ∧
      (db.transactions.map TransactionDAO.id).Nodup ∧
      (db.transactions.map TransactionDAO.txid).Nodup ∧
      (∀ t ∈ db.transactions, t.txid.length ≤ 100 ∧ t.version.length ≤ 10 ∧
        (t.address.getD []).length ≤ 100 ∧ (t.signature.getD []).length ≤ 700 ∧
        (t.prevHash.getD []).length ≤ 100) ∧
      (db.outflows.map OutflowDAO.id).Nodup ∧
      (db.outflows.map fun o => (o.txid, o.idx)).Nodup ∧
      (∀ o ∈ db.outflows, ∃ t ∈ db.transactions, t.id = o.transactionId) ∧
      (∀ o ∈ db.outflows, o.idx ≤ E.integerMax ∧ FitsBigInteger o.amount) ∧
      (∀ o ∈ db.outflows, o.txid.length ≤ 100 ∧ (o.address.getD []).length ≤ 100 ∧
        (o.opposition.getD []).length ≤ 500 ∧ (o.rescind.getD []).length ≤ 500 ∧
        (o.support.getD []).length ≤ 500) ∧
      (db.inflows.map InflowDAO.id).Nodup ∧ (db.inflows.map fun i => (i.txid, i.idx)).Nodup ∧
      (∀ i ∈ db.inflows, ∃ t ∈ db.transactions, t.id = i.transactionId) ∧
      (∀ i ∈ db.inflows, ∃ o ∈ db.outflows, i.outflowId = some o.id) ∧
      (∀ i ∈ db.inflows, i.idx ≤ E.integerMax ∧ i.outflowIdx ≤ E.integerMax) ∧
      (∀ i ∈ db.inflows, i.txid.length ≤ 100 ∧ i.outflowTxid.length ≤ 100) ∧
      db.blockTransactions.Nodup ∧ (∀ p ∈ db.blockTransactions, ∃ b ∈ db.blocks, b.id = p.1) ∧
      ∀ p ∈ db.blockTransactions, ∃ t ∈ db.transactions, t.id = p.2)
    ⟨fun ⟨h1, h2, h3, h4, h5, h6, h7, h8, h9, h10, h11, h12, h13, h14, h15, h16, h17, h18, h19,
        h20, h21, h22⟩ => ⟨h1, h2, h3, h4, h5, h6, h7, h8, h9, h10, h11, h12, h13, h14, h15, h16,
        h17, h18, h19, h20, h21, h22⟩,
      fun ⟨h1, h2, h3, h4, h5, h6, h7, h8, h9, h10, h11, h12, h13, h14, h15, h16, h17, h18, h19,
        h20, h21, h22⟩ => ⟨h1, h2, h3, h4, h5, h6, h7, h8, h9, h10, h11, h12, h13, h14, h15, h16,
        h17, h18, h19, h20, h21, h22⟩⟩

/-- A flush succeeds exactly when the tables meet the schema afterwards. -/
def flush (E : Env) (db : Database) : Except Err Database := do
  ensure (db.InRange E) .dataError
  ensure (db.Schema E) .integrityError
  return db

theorem flush_eq_ok {E : Env} {db db' : Database} :
    db.flush E = .ok db' ↔ db.Schema E ∧ db' = db := by
  simp only [flush, bind_eq_ok, ensure_eq_ok]
  constructor
  · rintro ⟨-, -, -, h, h'⟩
    exact ⟨h, (Except.ok.inj h').symm⟩
  · rintro ⟨h, rfl⟩
    exact ⟨(), ⟨h.blockRange, h.outflowRange, h.inflowRange⟩, (), h, rfl⟩

/-! ## What the lookups find -/

section

variable {E : Env} {db : Database}

theorem blockById_eq_some (h : db.Schema E) {id : ℕ} {b : BlockDAO} :
    db.blockById id = some b ↔ b ∈ db.blocks ∧ b.id = id := Table.byKey_eq_some h.blockIds

theorem blockByHash_eq_some (h : db.Schema E) {s : Str} {b : BlockDAO} :
    db.blockByHash (some s) = some b ↔ s ≠ [] ∧ b ∈ db.blocks ∧ b.blockHash = s := by
  unfold blockByHash
  split_ifs with ht
  · rw [Option.getD_some, Table.byKey_eq_some h.blockHashes]
    exact ⟨fun hb => ⟨(truthy_some s).1 ht, hb⟩, fun hb => hb.2⟩
  · exact ⟨fun hb => absurd hb (by simp), fun hb => absurd ((truthy_some s).2 hb.1) ht⟩

theorem blockByHash_mem {h : Option Str} {b : BlockDAO} (hb : db.blockByHash h = some b) :
    b ∈ db.blocks ∧ h = some b.blockHash := by
  unfold blockByHash at hb
  split_ifs at hb with ht
  obtain ⟨hmem, hkey⟩ := Table.byKey_mem hb
  cases h with
  | none => exact absurd ht (by simp)
  | some s => exact ⟨hmem, congrArg some hkey.symm⟩

theorem transactionByTxid_eq_some (h : db.Schema E) {txid : Str} {t : TransactionDAO} :
    db.transactionByTxid txid = some t ↔ t ∈ db.transactions ∧ t.txid = txid :=
  Table.byKey_eq_some h.transactionTxids

theorem transactionById_eq_some (h : db.Schema E) {id : ℕ} {t : TransactionDAO} :
    db.transactionById id = some t ↔ t ∈ db.transactions ∧ t.id = id :=
  Table.byKey_eq_some h.transactionIds

theorem outflowByKey_eq_some (h : db.Schema E) {txid : Str} {idx : ℕ} {o : OutflowDAO} :
    db.outflowByKey txid idx = some o ↔ o ∈ db.outflows ∧ (o.txid, o.idx) = (txid, idx) :=
  Table.byKey_eq_some h.outflowKeys

theorem prev_mem {b p : BlockDAO} (hp : db.prev b = some p) :
    p ∈ db.blocks ∧ b.prevId = some p.id := by
  obtain ⟨i, hi, hb⟩ := Option.bind_eq_some_iff.1 hp
  obtain ⟨hmem, hid⟩ := Table.byKey_mem hb
  exact ⟨hmem, hid ▸ hi⟩

theorem mem_rowsOf (h : db.Schema E) {id : ℕ} {t : TransactionDAO} :
    t ∈ db.rowsOf id ↔ t ∈ db.transactions ∧ (id, t.id) ∈ db.blockTransactions := by
  simp only [rowsOf, List.mem_filterMap, List.mem_filter, decide_eq_true_eq]
  constructor
  · rintro ⟨⟨i, j⟩, ⟨hp, rfl⟩, ht⟩
    obtain ⟨hmem, rfl⟩ := (transactionById_eq_some h).1 ht
    exact ⟨hmem, hp⟩
  · rintro ⟨ht, hp⟩
    exact ⟨(id, t.id), ⟨hp, rfl⟩, (transactionById_eq_some h).2 ⟨ht, rfl⟩⟩

end

end Database

/-! ## Reading rows back -/

/-- `Outflow.from_dao`. -/
def Outflow.fromDao (o : OutflowDAO) : Outflow :=
  ⟨some o.amount, o.address, o.opposition, o.rescind, o.support, o.rescindKind⟩

/-- `Inflow.from_dao`. -/
def Inflow.fromDao (i : InflowDAO) : Inflow := ⟨some i.outflowTxid, some i.outflowIdx⟩

/-- `Transaction.from_dao`. -/
def Transaction.fromDao (db : Database) (t : TransactionDAO) : Transaction where
  timestamp := dt2Iso t.timestamp
  txid := some t.txid
  address := t.address
  signature := t.signature
  inflows := (db.inflowsOf t).map Inflow.fromDao
  outflows := (db.outflowsOf t).map Outflow.fromDao
  version := t.version
  prevHash := t.prevHash

/-- `Block.from_dao`. -/
def Block.fromDao (db : Database) (b : BlockDAO) : Block where
  idx := some b.idx
  timestamp := some (dt2Iso b.timestamp)
  blockHash := some b.blockHash
  prevHash := some b.prevHash
  target := b.target
  proofOfWork := some b.proofOfWork
  merkleRoot := some b.merkleRoot
  txns := Block.canonicalOrder ((db.transactionsOf b).map (Transaction.fromDao db))
  version := b.version

/-- `Block.from_db`. -/
def Block.fromDb (db : Database) (blockHash : Option Str) : Option Block :=
  (db.blockByHash blockHash).map (Block.fromDao db)

/-- `Block.genesis_from_db`. -/
def Block.genesisFromDb (db : Database) : Except Err (Option Block) := do
  let dao ← db.blockByIdx 0
  return dao.map (Block.fromDao db)

end GumptionChain
