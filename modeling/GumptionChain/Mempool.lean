import GumptionChain.RowCache
import GumptionChain.Balances
import GumptionChain.Wire

/-!
# The mempool

`PendingTxnSet`, `Node.receive_transaction` and `Node.process_block`, with what a
node's pool goes through.  Gossip to peers is left out: it reads the state and
swallows its errors.

* `Node.receiveTransaction_eq_ok` — the steps of an admission;
* `Node.processBlock_eq_ok` — a processed block is added, and its regular
  transactions leave the pool;
* `PoolRun` — what a node goes through; `PoolRun.sound` — and keeps.
-/

namespace GumptionChain

open Database

/-! ## Reading a transaction -/

/-- `Transaction.from_json`. -/
def Transaction.fromJson (J : JsonLib) (E : Env) (j : Str) : Except Err Transaction :=
  match J.loads j with
  | .error msg => .error (.invalidTransaction [⟨[], msg, none⟩])
  | .ok v =>
    match readTransaction J E [] v with
    | .ok t => .ok t
    | .error errors => .error (.invalidTransaction errors)

/-- `Transaction.to_json`. -/
def Transaction.toJson (t : Transaction) : Str := t.toDict.dumps

/-- What a wire model accepts is read back. -/
theorem Transaction.fromJson_of_loads {J : JsonLib} {E : Env} {t : Transaction} {j : Str}
    (h : t.WellFormed E transactionModel) (hload : J.loads j = .ok t.toDict) :
    fromJson J E j = .ok t := by
  rw [fromJson, hload]
  simp only [readTransaction_toDict, transactionErrors_eq_nil.2 h]
  rfl

/-! ## `PendingTxnSet` -/

namespace Database

variable (db : Database)

/-- `PendingTxnDAO.get`. -/
def pendingByTxid (txid : Str) : Option PendingTxnDAO :=
  Table.byKey PendingTxnDAO.txid txid db.pendingTxns

/-- The outflow an inflow spends, if its transaction is stored and has one there. -/
def pendingIOflow (txid : Str) (i : Inflow) : Option PendingIOflowDAO := do
  let outflowTxid ← i.outflowTxid
  let outflowIdx ← i.outflowIdx
  let ioflowTxn ← db.transactionByTxid outflowTxid
  let ioflow ← (db.outflowsOf ioflowTxn)[outflowIdx]?
  return ⟨txid, outflowTxid, outflowIdx, ioflow.id⟩

/-- `PendingTxnSet.add`: the row, committed, and then a `PendingIOflowDAO` for each
inflow whose outflow is stored; their values are those of a stored outflow, and fit. -/
def addPending (received : ℕ) (txn : Transaction) : Except Err Database := do
  let (txid, timestamp) ← txn.identity
  ensure (txid.length ≤ 100 ∧ db.pendingByTxid txid = none) .integrityError
  return { db with
    pendingTxns := db.pendingTxns ++
      [⟨txid, timestamp, txn, received, txn.inflows.filterMap (db.pendingIOflow txid)⟩] }

/-- `PendingTxnSet.discard`. -/
def discardPending (txn : Transaction) : Database :=
  { db with pendingTxns := db.pendingTxns.filter fun p => txn.txid ≠ some p.txid }

/-- `PendingTxnSet.discard_expired`, the cutoff in seconds. -/
def discardExpiredPending (cutoff : ℕ) : Database :=
  { db with pendingTxns := db.pendingTxns.filter fun p => ¬ p.timestamp.toSeconds < cutoff }

/-- `OutflowDAO.pending.any()`. -/
def isReserved (o : OutflowDAO) : Bool :=
  db.pendingTxns.any fun p => p.ioflows.any fun q => q.outflowId = o.id

variable {db} {db' : Database} {txn : Transaction} {p : PendingTxnDAO}

theorem addPending_eq_ok {received : ℕ} : db.addPending received txn = .ok db' ↔
    ∃ txid timestamp, txn.identity = .ok (txid, timestamp) ∧ txid.length ≤ 100 ∧
      db.pendingByTxid txid = none ∧ db' = { db with
        pendingTxns := db.pendingTxns ++
          [⟨txid, timestamp, txn, received, txn.inflows.filterMap (db.pendingIOflow txid)⟩] } := by
  simp only [addPending, bind_eq_ok, ensure_eq_ok]
  constructor
  · rintro ⟨⟨txid, timestamp⟩, hid, -, ⟨hlen, hnew⟩, heq⟩
    exact ⟨txid, timestamp, hid, hlen, hnew, (Except.ok.inj heq).symm⟩
  · rintro ⟨txid, timestamp, hid, hlen, hnew, rfl⟩
    exact ⟨(txid, timestamp), hid, (), ⟨hlen, hnew⟩, rfl⟩

end Database

/-- `unspent_outflows` with `filter_pending`. -/
def Session.unreservedOutflows (s : Session) (row : ChainDAO) (address : Str) :
    List OutflowDAO × Session :=
  s.ask row fun db v => ChainView.execute ((v.unspentOutflows address).filter fun p =>
    !db.isReserved p.2)

/-! ## The node -/

namespace Node

/-- `receive_transaction`: the transaction if it was added, `none` if it was there.
A database error is swallowed when the transaction is in the pool all the same. -/
def receiveTransaction (E : Env) (J : JsonLib) (maxPendingTxns received : ℕ) (txid txnJson : Str)
    (s : Session) : Except Err (Option Transaction × Session) := do
  let txn ← Transaction.fromJson J E txnJson
  ensure (some txid = txn.txid) .invalidTransactionId
  txn.validate E false
  ensure (s.db.transactionByTxid txid = none) .duplicateMinedTransaction
  match s.db.pendingByTxid txid with
  | some _ => return (none, s)
  | none =>
    ensure (¬ maxPendingTxns ≤ s.db.pendingTxns.length) .mempoolFull
    match s.db.addPending received txn with
    | .ok db => return (some txn, { s with db := db })
    | .error e =>
      if e.isSqlError ∧ (s.db.pendingByTxid txid).isSome then return (some txn, s) else .error e

/-- `_discard_confirmed_pending`. -/
def discardConfirmedPending (b : Block) (db : Database) : Database :=
  b.regularTxns.foldl discardPending db

/-- `process_block`. -/
def processBlock (E : Env) (depth : Option ℕ) (now : DateTime) (b : Block) (s : Session) :
    Except Err (Option Block × Session) :=
  if (Block.fromDb s.db b.blockHash).isSome then .ok (none, s)
  else do
    let (r, s) ← addBlock E depth now true b s
    match r with
    | none => return (none, s)
    | some b => return (some b, { s with db := discardConfirmedPending b s.db })

/-- What reaches a node from outside. -/
inductive Message where
  | transaction (received : ℕ) (txid txnJson : Str)
  | block (now : DateTime) (b : Block)

/-- A message as its sender sees it: one that is refused leaves the session as it was. -/
def handle (E : Env) (J : JsonLib) (maxPendingTxns : ℕ) (depth : Option ℕ) (s : Session) :
    Message → Session
  | .transaction received txid txnJson =>
    match receiveTransaction E J maxPendingTxns received txid txnJson s with
    | .ok r => r.2
    | .error _ => s
  | .block now b =>
    match processBlock E depth now b s with
    | .ok r => r.2
    | .error _ => s

/-- A sequence of messages. -/
def handleAll (E : Env) (J : JsonLib) (maxPendingTxns : ℕ) (depth : Option ℕ) (s : Session)
    (messages : List Message) : Session :=
  messages.foldl (handle E J maxPendingTxns depth) s

variable {E : Env} {J : JsonLib} {maxPendingTxns received : ℕ} {txid txnJson : Str}
  {depth : Option ℕ} {now : DateTime} {b : Block} {s s' : Session}

/-- The steps of an admission: the text is a valid transaction of that txid, stored
in no block; and it was in the pool, or there is room and it is added. -/
theorem receiveTransaction_eq_ok {r : Option Transaction} :
    receiveTransaction E J maxPendingTxns received txid txnJson s = .ok (r, s') ↔
      ∃ txn, Transaction.fromJson J E txnJson = .ok txn ∧ txn.txid = some txid ∧
        txn.Valid E regularTransactionModel ∧ s.db.transactionByTxid txid = none ∧
        (((s.db.pendingByTxid txid).isSome ∧ r = none ∧ s' = s) ∨
          (s.db.pendingByTxid txid = none ∧ s.db.pendingTxns.length < maxPendingTxns ∧
            ∃ db, s.db.addPending received txn = .ok db ∧ r = some txn ∧
              s' = { s with db := db })) := by
  have hvalid : ∀ txn : Transaction, txn.validate E false = .ok () ↔
      txn.Valid E regularTransactionModel := fun txn => Transaction.validate_eq_ok
  simp only [receiveTransaction, bind_eq_ok, ensure_eq_ok]
  refine exists_congr fun txn => and_congr_right fun _ => ?_
  rw [← hvalid]
  constructor
  · rintro ⟨_, hid, _, hv, _, hnew, h⟩
    refine ⟨hid.symm, hv, hnew, ?_⟩
    cases hpool : s.db.pendingByTxid txid with
    | some p =>
      rw [hpool] at h
      cases h
      exact Or.inl ⟨rfl, rfl, rfl⟩
    | none =>
      rw [hpool] at h
      obtain ⟨_, hroom, h⟩ := bind_eq_ok.1 h
      refine Or.inr ⟨rfl, Nat.lt_of_not_le (ensure_eq_ok.1 hroom), ?_⟩
      cases hadd : s.db.addPending received txn with
      | ok db =>
        rw [hadd] at h
        cases h
        exact ⟨db, rfl, rfl, rfl⟩
      | error e =>
        rw [hadd] at h
        simp at h
  · rintro ⟨hid, hv, hnew, h⟩
    refine ⟨(), hid.symm, (), hv, (), hnew, ?_⟩
    rcases h with ⟨hpool, rfl, rfl⟩ | ⟨hpool, hroom, db, hadd, rfl, rfl⟩
    · obtain ⟨p, hp⟩ := Option.isSome_iff_exists.1 hpool
      rw [hp]
      rfl
    · rw [hpool, ensure_of (Nat.not_le_of_lt hroom), hadd]
      rfl

/-- Pruning leaves the rows of other transactions. -/
theorem discardConfirmedPending_eq (b : Block) (db : Database) : discardConfirmedPending b db =
    { db with pendingTxns := db.pendingTxns.filter fun p =>
        ∀ t ∈ b.regularTxns, t.txid ≠ some p.txid } := by
  have hall : ∀ (ts : List Transaction) (db : Database), ts.foldl discardPending db =
      { db with pendingTxns := db.pendingTxns.filter fun p => ∀ t ∈ ts, t.txid ≠ some p.txid } := by
    intro ts
    induction ts with
    | nil => intro db; simp
    | cons t ts ih =>
      intro db
      rw [List.foldl_cons, ih, discardPending, List.filter_filter]
      simp only [List.forall_mem_cons, Bool.decide_and, Bool.and_comm]
  exact hall b.regularTxns db

/-- A block that is processed was stored before, when nothing happens, or is added,
and its regular transactions leave the pool. -/
theorem processBlock_eq_ok {r : Option Block} (h : processBlock E depth now b s = .ok (r, s')) :
    ((s.db.blockByHash b.blockHash).isSome ∧ r = none ∧ s' = s) ∨
      (s.db.blockByHash b.blockHash = none ∧ r = some b ∧ ∃ s₁,
        addBlock E depth now true b s = .ok (some b, s₁) ∧
          tryAddBlock E depth now b s = .ok s₁ ∧
          s' = { s₁ with db := discardConfirmedPending b s₁.db }) := by
  unfold processBlock at h
  rw [Block.fromDb, Option.isSome_map] at h
  split_ifs at h with hstored
  · cases h
    exact Or.inl ⟨hstored, rfl, rfl⟩
  · obtain ⟨⟨r', s₁⟩, hadd, h⟩ := bind_eq_ok.1 h
    refine Or.inr ⟨Option.not_isSome_iff_eq_none.1 hstored, ?_⟩
    have hr : r' = some b ∧ tryAddBlock E depth now b s = .ok s₁ := by
      unfold addBlock at hadd
      split at hadd
      · cases hadd
        exact ⟨rfl, ‹_›⟩
      · rw [if_neg fun hc => hstored hc.2.2] at hadd
        exact absurd hadd (by simp)
    obtain ⟨rfl, htry⟩ := hr
    cases h
    exact ⟨rfl, s₁, hadd, htry, rfl⟩

end Node

/-! ## The pool in a run -/

namespace Session

variable {E : Env} {S : Set Str} {depth : Option ℕ} {now : DateTime} {b : Block} {s s' : Session}
  {row : ChainDAO}

theorem syncMaterialization_pendingTxns (s : Session) (tip : BlockDAO) :
    (s.syncMaterialization tip).db.pendingTxns = s.db.pendingTxns := by
  unfold syncMaterialization
  simp only
  split_ifs
  · rfl
  · rfl
  · split <;> rfl

/-- Looking after the table leaves the pool alone. -/
theorem sync_pendingTxns (s : Session) (depth : Option ℕ) (row : ChainDAO) :
    (s.syncLongestChainBlocks depth row).db.pendingTxns = s.db.pendingTxns := by
  have hprune : ∀ s : Session, (s.pruneStaleForks depth row).db.pendingTxns = s.db.pendingTxns := by
    intro s
    unfold pruneStaleForks
    split <;> rfl
  have hdb := congrArg Database.pendingTxns (isLongest_db s row)
  unfold syncLongestChainBlocks
  simp only
  split_ifs
  · split
    · rw [hprune, hdb]
    · rw [hprune, syncMaterialization_pendingTxns, hdb]
  · exact hdb

/-- An addition leaves the pool alone. -/
theorem Inv.tryAddBlock_pendingTxns (hS : E.CollisionFree (insert genesisText S)) (h : s.Inv E S)
    (hb : b.Hashed S) (hadd : Node.tryAddBlock E depth now b s = .ok s') :
    s'.db.pendingTxns = s.db.pendingTxns := by
  obtain ⟨db, blk, s₁, row, n, -, hto, -, -, hp, -, rfl⟩ := h.tryAddBlock_steps hS hb hadd
  have hsync : ∀ n : ℕ, ((syncLongestChainBlocks · depth row)^[n] s₁).db.pendingTxns =
      s₁.db.pendingTxns := by
    intro n
    induction n with
    | zero => rfl
    | succ n ih => rw [Function.iterate_succ_apply', sync_pendingTxns, ih]
  have hplaced : s₁.db.pendingTxns = db.pendingTxns := by cases hp <;> rfl
  rw [hsync, hplaced]
  rcases Block.toDb_spec h.ledger.schema hto with ⟨-, -, rfl⟩ | ⟨-, row, ids, ha⟩
  · rfl
  · exact ha.pendingTxns

end Session

/-- What a node goes through from empty tables: transactions received, discarded or
expired, blocks processed or, in batches, filled in, questions to rows, and row
objects dropped.  `Q` says in which states a block may arrive, and whether it
prunes the pool. -/
inductive PoolRun (E : Env) (J : JsonLib) (maxPendingTxns : ℕ) (Q : Session → Bool → Block → Prop)
    (depth : Option ℕ) : Session → Prop
  | empty : PoolRun E J maxPendingTxns Q depth {}
  | receive {s s' : Session} {received : ℕ} {txid txnJson : Str} {r : Option Transaction} :
      PoolRun E J maxPendingTxns Q depth s →
      Node.receiveTransaction E J maxPendingTxns received txid txnJson s = .ok (r, s') →
      PoolRun E J maxPendingTxns Q depth s'
  | discard {s : Session} {txn : Transaction} : PoolRun E J maxPendingTxns Q depth s →
      PoolRun E J maxPendingTxns Q depth { s with db := s.db.discardPending txn }
  | expire {s : Session} {cutoff : ℕ} : PoolRun E J maxPendingTxns Q depth s →
      PoolRun E J maxPendingTxns Q depth { s with db := s.db.discardExpiredPending cutoff }
  | process {s s' : Session} {now : DateTime} {b : Block} {r : Option Block} :
      PoolRun E J maxPendingTxns Q depth s → Q s true b →
      Node.processBlock E depth now b s = .ok (r, s') → PoolRun E J maxPendingTxns Q depth s'
  | fill {s s' : Session} {now : DateTime} {commit : Bool} {b : Block} {r : Option Block} :
      PoolRun E J maxPendingTxns Q depth s → Q s false b →
      Node.addBlock E depth now commit b s = .ok (r, s') → PoolRun E J maxPendingTxns Q depth s'
  | ask {s : Session} {row : ChainDAO} : PoolRun E J maxPendingTxns Q depth s →
      row ∈ s.db.chains → PoolRun E J maxPendingTxns Q depth (s.isLongest row).2
  | forget {s : Session} {cache : ℕ → Option (ℕ × Bool)} : PoolRun E J maxPendingTxns Q depth s →
      (∀ i, cache i = none ∨ cache i = s.cache i) →
      PoolRun E J maxPendingTxns Q depth { s with cache := cache }

namespace PoolRun

variable {E : Env} {S : Set Str} {J : JsonLib} {maxPendingTxns : ℕ}
  {Q : Session → Bool → Block → Prop} {depth : Option ℕ} {s : Session}

/-- The pool aside, it is a run of the session. -/
theorem sessionRun (hQ : ∀ s prunes b, Q s prunes b → b.Hashed S)
    (h : PoolRun E J maxPendingTxns Q depth s) :
    SessionRun E (fun _ _ b => b.Hashed S) depth {} s := by
  induction h with
  | empty => exact .refl
  | receive _ hrec ih =>
    obtain ⟨txn, -, -, -, -, ⟨-, -, rfl⟩ | ⟨-, -, db, hadd, -, rfl⟩⟩ :=
      Node.receiveTransaction_eq_ok.1 hrec
    · exact ih
    · obtain ⟨-, -, -, -, -, rfl⟩ := addPending_eq_ok.1 hadd
      exact ih.pool
  | discard _ ih => exact ih.pool
  | expire _ ih => exact ih.pool
  | process _ hq hp ih =>
    rcases Node.processBlock_eq_ok hp with ⟨-, -, rfl⟩ | ⟨-, -, s₁, hadd, -, rfl⟩
    · exact ih
    · rw [Node.discardConfirmedPending_eq]
      exact (ih.add (hQ _ _ _ hq) hadd).pool
  | fill _ hq hadd ih => exact ih.add (hQ _ _ _ hq) hadd
  | ask _ hrow ih => exact ih.ask hrow
  | forget _ hcache ih => exact ih.forget hcache

theorem sound (hS : E.CollisionFree (insert genesisText S))
    (hQ : ∀ s prunes b, Q s prunes b → b.Hashed S) (h : PoolRun E J maxPendingTxns Q depth s) :
    s.Sound E S :=
  (h.sessionRun hQ).sound hS (fun _ _ _ hb => hb) Session.Sound.empty

/-- Whatever reaches a node, its run goes on. -/
theorem handle {message : Node.Message} (h : PoolRun E J maxPendingTxns Q depth s)
    (hq : ∀ now b, message = .block now b → Q s true b) :
    PoolRun E J maxPendingTxns Q depth (Node.handle E J maxPendingTxns depth s message) := by
  cases message with
  | transaction received txid txnJson =>
    rw [Node.handle]
    split
    · rename_i r hr
      exact h.receive hr
    · exact h
  | block now b =>
    rw [Node.handle]
    split
    · rename_i r hr
      exact h.process (hq now b rfl) hr
    · exact h

theorem handleAll {messages : List Node.Message} : ∀ {s : Session},
    PoolRun E J maxPendingTxns Q depth s →
    (∀ s, ∀ now b, Node.Message.block now b ∈ messages → Q s true b) →
    PoolRun E J maxPendingTxns Q depth
      (Node.handleAll E J maxPendingTxns depth s messages) := by
  induction messages with
  | nil => exact fun h _ => h
  | cons m rest ih =>
    intro s h hall
    refine ih (h.handle ?_) fun s now b hb => hall s now b (List.mem_cons_of_mem _ hb)
    rintro now b rfl
    exact hall s now b List.mem_cons_self

end PoolRun

end GumptionChain
