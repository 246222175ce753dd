import GumptionChain.LongestChain
import GumptionChain.Lib.Tally

/-!
# Chains

`chain.py`: a `Chain` is a handle on a tip, perhaps with a row in the `chain`
table.  Here are its block lookups, the difficulty target, the validation of a
block, its transactions and its coinbase on top of a chain, and adding a block.

Reads of a handle go through `toDao`, which may move a chain row to the handle's
tip; functions that call it pass the session on.
-/

namespace GumptionChain

/-- `GRAIN_PER_GRIT`. -/
def grainPerGrit : ℤ := 100

/-- `REWARD`. -/
def blockReward : ℤ := 5 * grainPerGrit

/-- `MAX_TARGET`. -/
def maxTarget : Str := List.replicate 5 '0' ++ List.replicate 59 'F'

/-- `int(MAX_TARGET, 16)`. -/
def maxTargetValue : ℕ := 16 ^ 59 - 1

/-- `TARGET_INTERVAL`. -/
def targetInterval : ℤ := 24

/-- `is_genesis_block`. -/
def isGenesisBlock (E : Env) (b : Block) : Bool := b.prevHash = some E.genesisHash

/-! ## Looking into the ledger -/

/-- The two questions validation asks about the blocks up to the one validated:
which transaction has a txid, and how many inflows reference an outpoint. -/
structure Ledger where
  getTransaction : Str → Except Err (Option Transaction)
  getInflowsCount : Str → ℕ → ℕ

namespace Ledger

/-- `Chain.get_transaction` with a start block.  The loop leaves a block that is
not stored for its predecessor, which is: two rounds are enough. -/
def getTransactionFrom (db : Database) (txid : Str) : ℕ → Block → Except Err (Option Transaction)
  | 0, _ => .ok none
  | fuel + 1, block =>
    match db.blockByHash block.blockHash with
    | some dao => do
      let txnDao ← db.getTransactionInChain dao txid
      return txnDao.map (Transaction.fromDao db)
    | none =>
      match block.txns.find? fun t => t.txid = some txid with
      | some t => .ok (some t)
      | none =>
        match Block.fromDb db block.prevHash with
        | none => .ok none
        | some p => getTransactionFrom db txid fuel p

/-- The inflows of some transactions that reference an outpoint. -/
def countInflows (txns : List Transaction) (txid : Str) (idx : ℕ) : ℕ :=
  (txns.flatMap Transaction.inflows).countP fun i =>
    i.outflowTxid = some txid ∧ i.outflowIdx = some idx

/-- `Chain.get_inflows_count`. -/
def getInflowsCountFrom (db : Database) (txid : Str) (idx : ℕ) : ℕ → Block → ℕ
  | 0, _ => 0
  | fuel + 1, block =>
    match db.blockByHash block.blockHash with
    | some dao => db.inflowsInChainCount dao txid idx
    | none =>
      countInflows block.txns txid idx +
        match Block.fromDb db block.prevHash with
        | none => 0
        | some p => getInflowsCountFrom db txid idx fuel p

/-- The ledger a chain shows from a block down. -/
def ofDb (db : Database) (b : Block) : Ledger :=
  ⟨fun txid => getTransactionFrom db txid 2 b, fun txid idx => getInflowsCountFrom db txid idx 2 b⟩

end Ledger

/-! ## One transaction's accounting -/

/-- The dictionaries `validate_block_txn` keeps for one stake kind:
`*_amounts`, `in_*`, `out_*` and `resc_*`. -/
structure KindTally where
  amounts : Tally Str := ∅
  consumed : Tally Str := ∅
  staked : Tally Str := ∅
  rescinded : Tally Str := ∅

/-- All of `validate_block_txn`'s variables. -/
structure TxnTally where
  opposition : KindTally := {}
  support : KindTally := {}
  otherAmounts : ℤ := 0

namespace KindTally

/-- An inflow from a stake. -/
def consume (k : KindTally) (subject : Str) (amount : ℤ) : KindTally :=
  { k with
    amounts := k.amounts.add subject amount
    consumed := k.consumed.add subject amount }

/-- A rescind outflow. -/
def rescind (k : KindTally) (subject : Str) (amount : ℤ) : KindTally :=
  { k with
    amounts := k.amounts.add subject (-amount)
    rescinded := k.rescinded.add subject amount }

/-- A stake outflow: it draws on the subject's consumed stake first, and on the
plain amounts for the rest. -/
def stake (k : KindTally) (subject : Str) (amount otherAmounts : ℤ) : KindTally × ℤ :=
  let pool := k.amounts.get subject
  let staked := k.staked.add subject amount
  if 0 < pool then
    if pool < amount then
      ({ k with amounts := k.amounts.put subject 0, staked := staked },
        otherAmounts - (amount - pool))
    else
      ({ k with amounts := k.amounts.put subject (pool - amount), staked := staked }, otherAmounts)
  else ({ k with staked := staked }, otherAmounts - amount)

/-- `_net_stake_mint`. -/
def netStakeMint (out consumed rescinded : Tally Str) : ℤ :=
  ((out.keys ++ consumed.keys ++ rescinded.keys).dedup.map fun s =>
    max 0 (out.get s - consumed.get s + rescinded.get s) / 2).sum

/-- The mint-side metric of a kind: schadenfreude or mudita. -/
def mint (k : KindTally) : ℤ := netStakeMint k.staked k.consumed k.rescinded

/-- The rescind-side metric of a kind: grace or regret. -/
def halfRescinded (k : KindTally) : ℤ := (k.rescinded.values.map (· / 2)).sum

end KindTally

namespace TxnTally

/-- One inflow, routed by the kind of the outflow it consumes. -/
def addInflow (t : TxnTally) (amount : ℤ) (opposition support : Option Str) : TxnTally :=
  if truthy opposition then { t with opposition := t.opposition.consume (opposition.getD []) amount }
  else if truthy support then { t with support := t.support.consume (support.getD []) amount }
  else { t with otherAmounts := t.otherAmounts + amount }

/-- One outflow. -/
def addOutflow (t : TxnTally) (o : Outflow) : Except Err TxnTally :=
  let amount := o.amount.getD 0
  if truthy o.rescind then
    match o.rescindKind with
    | some .support => .ok { t with support := t.support.rescind (o.rescind.getD []) amount }
    | some .opposition =>
      .ok { t with opposition := t.opposition.rescind (o.rescind.getD []) amount }
    | none => .error .imbalancedTransaction
  else if truthy o.opposition then
    let r := t.opposition.stake (o.opposition.getD []) amount t.otherAmounts
    .ok { t with opposition := r.1, otherAmounts := r.2 }
  else if truthy o.support then
    let r := t.support.stake (o.support.getD []) amount t.otherAmounts
    .ok { t with support := r.1, otherAmounts := r.2 }
  else .ok { t with otherAmounts := t.otherAmounts - amount }

/-- The loop over the outflows. -/
def addOutflows (t : TxnTally) : List Outflow → Except Err TxnTally
  | [] => .ok t
  | o :: rest => do
    let t ← t.addOutflow o
    t.addOutflows rest

/-- Everything consumed has been spent. -/
def Balanced (t : TxnTally) : Prop :=
  t.otherAmounts = 0 ∧ (∀ v ∈ t.opposition.amounts.values, v = 0) ∧
    ∀ v ∈ t.support.amounts.values, v = 0

instance (t : TxnTally) : Decidable t.Balanced := by
  unfold Balanced
  infer_instance

/-- The metrics the transaction adds to its block's coinbase. -/
def metrics (t : TxnTally) : CoinbaseMetrics :=
  ⟨t.opposition.mint, t.opposition.halfRescinded, t.support.mint, t.support.halfRescinded⟩

end TxnTally

/-! ## Validating a block's transactions -/

namespace Ledger

/-- The transaction an inflow refers to. -/
def outflowTxn (L : Ledger) : Option Str → Except Err (Option Transaction)
  | none => .ok none
  | some txid => L.getTransaction txid

/-- `Chain.validate_txn_inflow`: amount, opposition and support of the outflow
consumed. -/
def validateTxnInflow (L : Ledger) (txn : Transaction) (i : Inflow) (txnInBlock : Bool) :
    Except Err (ℤ × Option Str × Option Str) := do
  let ioflowTxn ← L.outflowTxn i.outflowTxid
  match ioflowTxn.bind fun t => t.getOutflow (i.outflowIdx.getD 0) with
  | none => .error .missingInflowOutflow
  | some ioflow => do
    ensure (ioflow.rescind = none) .invalidInflowOutflow
    let address := if truthy ioflow.address then ioflow.address else ioflowTxn.bind (·.address)
    ensure (address = txn.address) .inflowOutflowAddressMismatch
    let numInflows := L.getInflowsCount (i.outflowTxid.getD []) (i.outflowIdx.getD 0)
    ensure (¬ (1 < numInflows ∨ (0 < numInflows ∧ txnInBlock = false))) .spentTransaction
    return (ioflow.amount.getD 0, ioflow.opposition, ioflow.support)

/-- The loop over a transaction's inflows. -/
def validateTxnInflows (L : Ledger) (txn : Transaction) (txnInBlock : Bool) :
    TxnTally → List Inflow → Except Err TxnTally
  | tally, [] => .ok tally
  | tally, i :: rest => do
    let (amount, opposition, support) ← L.validateTxnInflow txn i txnInBlock
    L.validateTxnInflows txn txnInBlock (tally.addInflow amount opposition support) rest

/-- `Chain.validate_block_txn`. -/
def validateBlockTxn (L : Ledger) (txn : Transaction) (txnInBlock : Bool) :
    Except Err CoinbaseMetrics := do
  let tally ← L.validateTxnInflows txn txnInBlock {} txn.inflows
  let tally ← tally.addOutflows txn.outflows
  ensure tally.Balanced .imbalancedTransaction
  return tally.metrics

/-- The loop of `validate_block` over the regular transactions. -/
def validateBlockTxns (L : Ledger) :
    CoinbaseMetrics → List Transaction → Except Err CoinbaseMetrics
  | metrics, [] => .ok metrics
  | metrics, txn :: rest => do
    let m ← L.validateBlockTxn txn true
    L.validateBlockTxns (metrics.add m) rest

/-- The reward is the first outflow, if there is one. -/
def validateReward : Option Outflow → Except Err Unit
  | none => .ok ()
  | some o => ensure (o.amount = some blockReward) .invalidCoinbaseReward

/-- `Chain.validate_block_coinbase`. -/
def validateBlockCoinbase (E : Env) (b : Block) (metrics : CoinbaseMetrics) : Except Err Unit :=
  match b.coinbase with
  | none => .error .missingCoinbase
  | some cb => do
    cb.validate E true
    ensure (metrics.nonzeroAmounts.map some = (cb.outflows.drop 1).map Outflow.amount)
      .invalidCoinbase
    ensure (cb.prevHash = b.prevHash) .mismatchedCoinbase
    validateReward (cb.getOutflow 0)

/-- The handler around it: a plain `InvalidCoinbaseError` becomes an
`InvalidBlockError`, its subclasses pass. -/
def wrapCoinbaseError : Except Err Unit → Except Err Unit
  | .error .invalidCoinbase => .error (.coinbaseInBlock .invalidCoinbase)
  | x => x

end Ledger

/-! ## Handles -/

/-- `Chain`. -/
structure Chain where
  cid : Option ℕ := none
  blockHash : Option Str := none
  deriving DecidableEq

namespace Chain

/-- `last_block`. -/
def lastBlock (db : Database) (c : Chain) : Option Block := Block.fromDb db c.blockHash

/-- `block_chain`, asked for its `i`-th block: the generator checks the link it
is about to follow. -/
def nthBlock (E : Env) (db : Database) : ℕ → ℤ → Block → Except Err (Option Block)
  | 0, _, _ => .ok none
  | fuel + 1, i, block =>
    if i = 0 then .ok (some block)
    else
      match Block.fromDb db block.prevHash with
      | none =>
        if isGenesisBlock E block then .ok none else .error .missingPreviousBlock
      | some prevBlock =>
        if isGenesisBlock E block then .error (.invalidBlock [])
        else nthBlock E db fuel (i - 1) prevBlock

/-- `to_dao()`: without a row for the tip, the row the handle was read from is
moved to it. -/
def toDao (c : Chain) (s : Session) : Except Err (Option ChainDAO × Session) :=
  match c.blockHash with
  | none => .ok (none, s)
  | some blockHash =>
    match s.db.chainDao (some blockHash) none with
    | some dao => .ok (some dao, s)
    | none =>
      match c.cid.bind fun cid => s.db.chainDao none (some cid) with
      | none => .ok (none, s)
      | some dao => do
        let (dao, s) ← s.setBlockHash dao blockHash
        return (some dao, s)

/-- `to_dao(create=True)`. -/
def toDaoCreate (depth : Option ℕ) (c : Chain) (s : Session) : Except Err (ChainDAO × Session) :=
  match c.blockHash with
  | none => .error .invalidChain
  | some blockHash => do
    let (dao, s) ← c.toDao s
    match dao with
    | some dao => return (dao, s)
    | none => do
      let (dao, s) ← s.insertChain blockHash
      return (dao, s.syncLongestChainBlocks depth dao)

/-- `to_db`. -/
def toDb (depth : Option ℕ) (c : Chain) (s : Session) : Except Err (Chain × Session) := do
  let (dao, s) ← c.toDaoCreate depth s
  return ({ c with cid := some dao.id }, s.syncLongestChainBlocks depth dao)

/-- `get_block_by_reverse_index`. -/
def getBlockByReverseIndex (E : Env) (c : Chain) (i : ℤ) (s : Session) :
    Except Err (Option Block × Session) := do
  let (dao, s) ← c.toDao s
  match dao with
  | some dao =>
    let index : ℤ := (((c.lastBlock s.db).bind Block.idx).getD 0 : ℕ) - i
    match s.db.blockById dao.blockId with
    | none => .error .attributeError
    | some block => do
      let blockDao ← if index < 0 then .ok none else s.db.getBlockInChain block none (some index.toNat)
      return (blockDao.map (Block.fromDao s.db), s)
  | none =>
    match c.lastBlock s.db with
    | none => return (none, s)
    | some last => do
      let block ← nthBlock E s.db (last.idx.getD 0 + 1) i last
      return (block, s)

/-- The retarget: the previous target scaled by the time the interval took. -/
def scaledTarget (E : Env) (prevBlock startBlock : Block) : Except Err Str :=
  match prevBlock.timestampDt, startBlock.timestampDt with
  | some prevTs, some startTs =>
    match int16 prevBlock.target with
    | none => .error .valueError
    | some prevTarget =>
      let newTarget := E.scaleTarget prevTarget ((prevTs.toSeconds : ℤ) - startTs.toSeconds)
      .ok (if maxTargetValue < newTarget then maxTarget else fmt064x newTarget)
  | _, _ => .ok prevBlock.target

/-- `block_target`. -/
def blockTarget (E : Env) (c : Chain) (block : Option Block) (s : Session) :
    Except Err (Str × Session) :=
  match c.lastBlock s.db with
  | none => .ok (maxTarget, s)
  | some last =>
    let lastIndex : ℤ := (last.idx.getD 0 : ℕ)
    let index : ℤ := match block with
      | some b => (b.idx.getD 0 : ℕ)
      | none => lastIndex + 1
    if index = 0 then .ok (maxTarget, s)
    else do
      let i := lastIndex - index
      let (prevBlock, s) ← c.getBlockByReverseIndex E (i + 1) s
      match prevBlock with
      | none => return (maxTarget, s)
      | some prevBlock =>
        if index % targetInterval = 0 then do
          let (startBlock, s) ← c.getBlockByReverseIndex E (i + targetInterval) s
          match startBlock with
          | none => return (prevBlock.target, s)
          | some startBlock => do
            let target ← scaledTarget E prevBlock startBlock
            return (target, s)
        else return (prevBlock.target, s)

/-! ## Validating and adding a block -/

/-- `block.timestamp_dt > now()`. -/
def validateClock (now : DateTime) (b : Block) : Except Err Unit :=
  match b.timestampDt with
  | none => .ok ()
  | some ts => ensure (ts.toSeconds ≤ now.toSeconds) .futureBlock

/-- The check that there is one genesis. -/
def validateGenesis (E : Env) (db : Database) (b : Block) : Except Err Unit :=
  if isGenesisBlock E b ∧ b.idx = some 0 then do
    let existing ← Block.genesisFromDb db
    match existing with
    | none => .ok ()
    | some genesis => ensure (genesis.blockHash = b.blockHash) .duplicateGenesis
  else .ok ()

/-- A block is not earlier than the one before it. -/
def validateNotEarlier (prevBlock : Option Block) (b : Block) : Except Err Unit :=
  match prevBlock.bind Block.timestampDt, b.timestampDt with
  | some prevTs, some ts => ensure (prevTs.toSeconds ≤ ts.toSeconds) .outOfOrderBlock
  | _, _ => .ok ()

/-- The index before the one a block must have. -/
def prevIndex (prevBlock : Option Block) : ℤ :=
  match prevBlock.bind Block.idx with
  | some n => n
  | none => -1

/-- The link to the previous block: it exists unless this is a genesis, is not
later, and has the index before this one's. -/
def validateLink (E : Env) (prevBlock : Option Block) (b : Block) : Except Err Unit := do
  ensure (¬ (prevBlock = none ∧ isGenesisBlock E b = false)) .invalidPreviousHash
  validateNotEarlier prevBlock b
  ensure (¬ (b.prevHash ≠ prevBlock.bind Block.blockHash ∧ isGenesisBlock E b = false))
    .invalidPreviousHash
  ensure ((b.idx.map fun n : ℕ => (n : ℤ)) = some (prevIndex prevBlock + 1)) .invalidBlockIndex

/-- `validate_block`. -/
def validateBlock (E : Env) (now : DateTime) (c : Chain) (b : Block) (s : Session) :
    Except Err Session := do
  b.validate E
  validateClock now b
  validateGenesis E s.db b
  validateLink E (Block.fromDb s.db b.prevHash) b
  let (target, s) ← c.blockTarget E (some b) s
  ensure (b.target = target) .invalidTarget
  let metrics ← (Ledger.ofDb s.db b).validateBlockTxns {} b.regularTxns
  Ledger.wrapCoinbaseError (Ledger.validateBlockCoinbase E b metrics)
  return s

/-- `add_block`. -/
def addBlock (E : Env) (now : DateTime) (c : Chain) (b : Block) (s : Session) :
    Except Err (Chain × Session) := do
  let s ← c.validateBlock E now b s
  let db ← b.toDb E s.db
  return ({ c with blockHash := b.blockHash }, { s with db := db })

/-- `except InvalidBlockError` around the validation of one block of a chain. -/
def wrapBlockError {α : Type} (b : Block) : Except Err α → Except Err α
  | .error e => .error (if e.isBlockError then .blockInChain b.idx e else e)
  | x => x

/-- The loop of `validate` over the blocks of the chain, from one block down.  A walk
that is longer than the fuel counts as an error, so success means that the loop came
to its end. -/
def validateBlocks (E : Env) (now : DateTime) (c : Chain) :
    ℕ → Block → Session → Except Err Session
  | 0, _, _ => .error .invalidChain
  | fuel + 1, block, s => do
    let s ← wrapBlockError block (c.validateBlock E now block s)
    match Block.fromDb s.db block.prevHash with
    | none => if isGenesisBlock E block then .ok s else .error .missingPreviousBlock
    | some prevBlock =>
      if isGenesisBlock E block then .error (.invalidBlock [])
      else c.validateBlocks E now fuel prevBlock s

/-- `validate`. -/
def validate (E : Env) (now : DateTime) (c : Chain) (s : Session) : Except Err Session :=
  match c.lastBlock s.db with
  | none => .error .emptyChain
  | some last => c.validateBlocks E now (last.idx.getD 0 + 1) last s

/-- `from_dao`. -/
def fromDao (dao : ChainDAO) : Chain := ⟨some dao.id, some dao.blockHash⟩

/-- `from_db(block_hash=...)`. -/
def fromDb (db : Database) (blockHash : Option Str) : Option Chain :=
  (db.chainDao blockHash none).map fun dao => ⟨some dao.id, some dao.blockHash⟩

end Chain

end GumptionChain
