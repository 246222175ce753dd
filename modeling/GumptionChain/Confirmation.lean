import GumptionChain.Mempool
import GumptionChain.ForkChoice

/-!
# Admission and confirmation

Which transactions get into the pool, and which leave it when a block arrives.

* `Session.Sound.confirmed_tryAddBlock` — what a block does to the canonical chain;
* `Node.admits_iff` — a valid transaction can be submitted just when no stored block
  holds it, on the canonical chain or not;
* `Node.prunes_confirmed_iff` — the transactions that leave the pool with a block are
  confirmed just when the block becomes the tip or they were confirmed before.
-/

namespace GumptionChain

open Database

/-! ## Confirmation -/

theorem Database.SameLedger.pathRows {db db' : Database} (h : db.SameLedger db') (r : BlockDAO) :
    db'.pathRows r = db.pathRows r := by
  obtain ⟨_, _, _, rfl⟩ := h
  rfl

/-- The transaction is in a block of the canonical chain. -/
def Session.Confirmed (s : Session) (txid : Str) : Prop :=
  ∃ t, s.db.longestTip = some t ∧ ∃ u ∈ s.db.pathRows t, u.txid = txid

/-- The block ranks before the tip, or there is none. -/
def Session.Wins (s : Session) (b : Block) : Prop :=
  ∀ t, s.db.longestTip = some t → b.rankKey < Database.rankKey t

instance (s : Session) (txid : Str) : Decidable (s.Confirmed txid) :=
  decidable_of_iff (∃ t ∈ s.db.longestTip.toList, ∃ u ∈ s.db.pathRows t, u.txid = txid)
    (by simp [Session.Confirmed])

instance (s : Session) (b : Block) : Decidable (s.Wins b) :=
  decidable_of_iff (∀ t ∈ s.db.longestTip.toList, b.rankKey < Database.rankKey t)
    (by simp [Session.Wins])

namespace Session

variable {E : Env} {S : Set Str} {depth : Option ℕ} {now : DateTime} {b : Block} {s s' : Session}

/-- While there are blocks, the canonical chain has a tip, the best of them. -/
theorem Sound.exists_longestTip (h : s.Sound E S) {c : BlockDAO} (hc : c ∈ s.db.blocks) :
    ∃ t, s.db.longestTip = some t ∧ s.db.IsBest t := by
  have hs := h.inv.ledger.schema
  obtain ⟨-, ⟨-, row, hrow, -⟩, -⟩ := h.crowned c hc
  obtain ⟨best, hbest⟩ := longest_isSome hs h.inv.chains (List.ne_nil_of_mem hrow)
  obtain ⟨-, t, -, ht, -⟩ := longest_spec hs h.inv.chains hbest
  have htip : s.db.longestTip = some t := by rw [longestTip, hbest]; exact ht
  exact ⟨t, htip, (longestTip_eq_some hs h.inv.chains h.crowned).1 htip⟩

/-- **What an accepted block does to the canonical chain.**  A block that ranks before
the tip is the new one, with its transactions; after any other the chain is what it
was. -/
theorem Sound.confirmed_tryAddBlock (hS : E.CollisionFree (insert genesisText S))
    (h : s.Sound E S) (hb : b.Hashed S) (hnew : s.db.blockByHash b.blockHash = none)
    (hadd : Node.tryAddBlock E depth now b s = .ok s') :
    (s.Wins b → ∀ t ∈ b.txns, ∀ txid, t.txid = some txid → s'.Confirmed txid) ∧
      (¬ s.Wins b → ∀ txid, s'.Confirmed txid ↔ s.Confirmed txid) := by
  have h' := h.tryAddBlock hS hb hadd
  obtain ⟨db, blk, s₁, row, habove, hto, hinv, hblk, hp, hup⟩ := h.inv.tryAddBlock_spec hS hb hadd
  have hs := h.inv.ledger.schema
  have hv := (Chain.validateAbove_eq_ok.1 habove).1
  have hl := hp.sameLedger.1.trans hup.ledger
  have hmem := (Block.mem_blocks_toDb hs hv hto hblk).2
  have hrank : b.rankKey = Database.rankKey blk :=
    (hinv.ledger.shows hS hv hb hblk).rankKey
  obtain ⟨x, hx, -⟩ | ⟨-, r, ids, ha⟩ := Block.toDb_spec hs hto
  · exact absurd (hnew.symm.trans hx) (by simp)
  obtain ⟨hblkm, hhash⟩ := blockByHash_mem hblk
  obtain rfl : r = blk := List.inj_on_of_nodup_map ha.schema.blockHashes ha.row_mem hblkm
    (Option.some.inj (ha.blockHash_row.symm.trans hhash))
  have hmem' : ∀ c, c ∈ s'.db.blocks ↔ c ∈ s.db.blocks ∨ c = r := fun c => hl.blocks ▸ hmem c
  have htip : ∀ t, s'.db.IsBest t → s'.db.longestTip = some t := fun t =>
    (longestTip_eq_some h'.inv.ledger.schema h'.inv.chains h'.crowned).2
  constructor
  · intro hwins t ht txid hid
    have hbest : s'.db.IsBest r := by
      refine ⟨(hmem' r).2 (Or.inr rfl), fun c hc => ?_⟩
      rcases (hmem' c).1 hc with hold | rfl
      · obtain ⟨q, hq, hqbest⟩ := h.exists_longestTip hold
        exact (hrank ▸ hwins q hq).le.trans (hqbest.2 c hold)
      · exact AtLeast.refl c
    obtain ⟨u, hu, hst⟩ := ha.exists_row hs ht
    refine ⟨r, htip r hbest, u, ?_, Option.some.inj (hst.1.symm.trans hid)⟩
    rw [hl.pathRows]
    exact mem_pathRows.2 ⟨r, Forest.self_mem_path r, hu⟩
  · intro hlose txid
    obtain ⟨t, ht, hle⟩ : ∃ t, s.db.longestTip = some t ∧ ¬ b.rankKey < Database.rankKey t := by
      simpa [Wins] using hlose
    have hbest := (longestTip_eq_some hs h.inv.chains h.crowned).1 ht
    have hbest' : s'.db.IsBest t := by
      refine ⟨(hmem' t).2 (Or.inl hbest.1), fun c hc => ?_⟩
      rcases (hmem' c).1 hc with hold | rfl
      · exact hbest.2 c hold
      · show Database.rankKey t ≤ Database.rankKey c
        rw [← hrank]
        exact not_lt.1 hle
    have hrows : s'.db.pathRows t = s.db.pathRows t := by
      rw [hl.pathRows, (ha.frame hs).pathRows (h.inv.tree hS) hbest.1]
    simp only [Confirmed, htip t hbest', ht, Option.some.injEq, exists_eq_left', hrows]

end Session

/-! ### A losing fork -/

namespace Sample

/-- A library that reads back what was written of the given transactions. -/
def txnLib (written : List Transaction) : JsonLib where
  loads s :=
    match written.find? fun t => t.toJson = s with
    | some t => .ok t.toDict
    | none => .error "Invalid JSON"
  asInt := strictInt
  asStr := strictStr
  asInt_int := strictInt_int
  asStr_str := strictStr_str

theorem loads_txnLib (t : Transaction) (written : List Transaction) :
    (txnLib (t :: written)).loads t.toJson = .ok t.toDict := by
  simp only [txnLib, List.find?_cons, decide_true]

/-- Half an hour into the first day, when the spend is not expired. -/
def halfHour : DateTime := minutesPast 31

/-- The right branch, and then the spend. -/
def pooledMessages : List Node.Message :=
  [.block halfHour genesis, .block halfHour right, .block halfHour top,
    .transaction 0 (spend.txid.getD []) spend.toJson]

/-- The node that waits for a block with the spend. -/
def pooledState : Session := Node.handleAll env (txnLib [spend]) 10 none {} pooledMessages

/-- The node once `left` came, on the fork that lost. -/
def prunedState : Session := Node.handle env (txnLib [spend]) 10 none pooledState (.block halfHour left)

theorem pooledState_run : PoolRun env (txnLib [spend]) 10 (fun _ _ b => b.Hashed texts) none
    pooledState := by
  refine PoolRun.empty.handleAll fun _ now b hb => ?_
  simp only [pooledMessages, List.mem_cons, Node.Message.block.injEq, List.not_mem_nil,
    or_false, reduceCtorEq] at hb
  rcases hb with ⟨-, rfl⟩ | ⟨-, rfl⟩ | ⟨-, rfl⟩ <;> exact Block.hashed_of_mem (by simp [blocks])

theorem prunedState_run : PoolRun env (txnLib [spend]) 10 (fun _ _ b => b.Hashed texts) none
    prunedState := by
  refine pooledState_run.handle fun now b hb => ?_
  obtain ⟨-, rfl⟩ := Node.Message.block.inj hb
  exact Block.hashed_of_mem (by simp [blocks])

/-- The tables before `left`, -/
def pooledDb : Database where
  blocks := [blockRow 1 none (minutesPast 0) genesis,
    blockRow 2 (some 1) (minutesPast 20) right,
    blockRow 3 (some 2) (minutesPast 30) top]
  transactions := [txnRow 1 (minutesPast 0) mint,
    txnRow 2 (minutesPast 20) rightCoinbase,
    txnRow 3 (minutesPast 30) topCoinbase]
  outflows := [outflowRow 1 1 0 mint, outflowRow 2 2 0 rightCoinbase, outflowRow 3 3 0 topCoinbase]
  blockTransactions := [(1, 1), (2, 2), (3, 3)]
  chains := [⟨1, top.blockHash.getD [], 3, 2⟩]
  longestChainBlocks := [⟨1, 0⟩, ⟨2, 1⟩, ⟨3, 2⟩]
  pendingTxns := [⟨spend.txid.getD [], minutesPast 5, spend, 0,
    [⟨spend.txid.getD [], mint.txid.getD [], 0, 1⟩]⟩]

/-- and after it. -/
def prunedDb : Database :=
  { pooledDb with
    blocks := pooledDb.blocks ++ [blockRow 4 (some 1) (minutesPast 10) left]
    transactions := pooledDb.transactions ++
      [txnRow 4 (minutesPast 5) spend,
        txnRow 5 (minutesPast 10) leftCoinbase]
    outflows := pooledDb.outflows ++ [outflowRow 4 4 0 spend, outflowRow 5 4 1 spend,
      outflowRow 6 5 0 leftCoinbase, outflowRow 7 5 1 leftCoinbase]
    inflows := [⟨1, spend.txid.getD [], 0, mint.txid.getD [], 0, some 1, 4⟩]
    blockTransactions := pooledDb.blockTransactions ++ [(4, 4), (4, 5)]
    chains := pooledDb.chains ++ [⟨2, left.blockHash.getD [], 4, 1⟩]
    pendingTxns := [] }

theorem states_db : pooledState.db = pooledDb ∧ prunedState.db = prunedDb := by decide +kernel

theorem processBlock_left :
    ∃ r, Node.processBlock env none halfHour left pooledState = .ok (r, prunedState) := by
  have hpruned := prunedState.eq_1
  rw [Node.handle] at hpruned
  cases h : Node.processBlock env none halfHour left pooledState with
  | ok r =>
    rw [h] at hpruned
    exact ⟨r.1, by rw [hpruned]⟩
  | error e =>
    -- a block that is refused would leave the spend in the pool
    rw [h] at hpruned
    have hsame := congrArg (fun s : Session => s.db.pendingTxns.length) hpruned
    simp only [states_db.1, states_db.2] at hsame
    exact absurd hsame (by decide)

theorem spend_valid : spend.Valid env regularTransactionModel :=
  Transaction.validate_eq_ok.1 (by decide +kernel : spend.validate env false = .ok ())

end Sample

/-! ## Admission -/

theorem validateTimestamp_ne_nil {s : Str} (h : validateTimestamp s = true) : s ≠ [] := by
  rintro rfl
  exact absurd h (by decide)

/-- What a wire model accepts can be stored. -/
theorem Transaction.WellFormed.identity {E : Env} {r : TransactionRules} {t : Transaction}
    (h : t.WellFormed E r) : ∃ txid timestamp, t.identity = .ok (txid, timestamp) ∧
      t.txid = some txid ∧ txid.length = 64 := by
  obtain ⟨txid, htxid, hhash⟩ := h.txid
  obtain ⟨timestamp, htime⟩ := Option.isSome_iff_exists.1 h.timestamp
  refine ⟨txid, timestamp, Transaction.identity_eq_ok.2 ⟨htxid,
    validateTimestamp_ne_nil h.timestamp, htime, fun i hi => ?_, fun o ho => ?_⟩, htxid,
    (validateMillHash_iff.1 hhash).2⟩
  · obtain ⟨⟨x, hx, -⟩, n, hn⟩ := h.inflows i hi
    exact ⟨hx ▸ Option.some_ne_none x, hn ▸ Option.some_ne_none n⟩
  · obtain ⟨n, hn, -⟩ := (h.outflows o ho).amount
    exact hn ▸ Option.some_ne_none n

namespace Node

variable {E : Env} {J : JsonLib} {maxPendingTxns received : ℕ} {txid txnJson : Str}
  {depth : Option ℕ} {now : DateTime} {b : Block} {s s' : Session} {txn : Transaction}

/-- A valid transaction that is stored is answered to be mined, whatever block it is
stored with. -/
theorem receiveTransaction_mined (hv : txn.Valid E regularTransactionModel)
    (hid : txn.txid = some txid) (hload : J.loads txnJson = .ok txn.toDict)
    (hmined : s.db.transactionByTxid txid ≠ none) :
    receiveTransaction E J maxPendingTxns received txid txnJson s =
      .error .duplicateMinedTransaction := by
  have hread := Transaction.fromJson_of_loads (hv.wellFormed.general (Or.inl rfl)) hload
  have hvalid : txn.validate E false = .ok () := Transaction.validate_eq_ok.2 hv
  rw [receiveTransaction, hread, ok_bind, ensure_of hid.symm, ok_bind, hvalid, ok_bind, ensure,
    if_neg hmined, error_bind]

/-- **A valid transaction is admitted just when it is stored with no block.**  On
whatever chain a block that holds it may be, the node answers that it is mined. -/
theorem admits_iff (hv : txn.Valid E regularTransactionModel) (hid : txn.txid = some txid)
    (hload : J.loads txnJson = .ok txn.toDict) (hpool : s.db.pendingByTxid txid = none)
    (hroom : s.db.pendingTxns.length < maxPendingTxns) :
    (∃ s', receiveTransaction E J maxPendingTxns received txid txnJson s = .ok (some txn, s') ∧
        ∃ p ∈ s'.db.pendingTxns, p.txid = txid ∧ p.txn = txn) ↔
      s.db.transactionByTxid txid = none := by
  constructor
  · rintro ⟨s', hrec, -⟩
    obtain ⟨-, -, -, -, hnew, -⟩ := receiveTransaction_eq_ok.1 hrec
    exact hnew
  · intro hnew
    obtain ⟨txid', timestamp, hident, hid', hlen⟩ := hv.wellFormed.identity
    obtain rfl := Option.some.inj (hid.symm.trans hid')
    have hread := Transaction.fromJson_of_loads (hv.wellFormed.general (Or.inl rfl)) hload
    have hadd : s.db.addPending received txn = .ok _ :=
      addPending_eq_ok.2 ⟨txid, timestamp, hident, by omega, hpool, rfl⟩
    refine ⟨_, receiveTransaction_eq_ok.2 ⟨txn, hread, hid, hv, hnew,
      Or.inr ⟨hpool, hroom, _, hadd, rfl, rfl⟩⟩, _, List.mem_append_right _
        (List.mem_singleton_self _), rfl, rfl⟩

end Node

/-- The spend, offered to a node without blocks. -/
theorem Node.admits_iff_spend :
    (∃ s', Node.receiveTransaction Sample.env (Sample.txnLib [Sample.spend]) 10 0
        (Sample.spend.txid.getD []) Sample.spend.toJson {} = .ok (some Sample.spend, s') ∧
        ∃ p ∈ s'.db.pendingTxns, p.txid = Sample.spend.txid.getD [] ∧ p.txn = Sample.spend) ↔
      Database.transactionByTxid {} (Sample.spend.txid.getD []) = none :=
  Node.admits_iff Sample.spend_valid rfl (Sample.loads_txnLib _ _) rfl (by decide)

/-- The spend left the pool with a block of the fork that lost.  It is valid, not
expired, not on the canonical chain, and the canonical chain would take it; the node
answers that it is mined. -/
theorem Node.admits_orphan :
    PoolRun Sample.env (Sample.txnLib [Sample.spend]) 10 (fun _ _ b => b.Hashed Sample.texts) none
        Sample.prunedState ∧
      Sample.spend.Valid Sample.env regularTransactionModel ∧
      txnIsExpired ⟨2024, 1, 1, 0, 5, 0, by decide⟩ Sample.halfHour = .ok false ∧
      ¬ Sample.prunedState.Confirmed (Sample.spend.txid.getD []) ∧
      (∀ i ∈ Sample.spend.inflows, ∃ r, (Ledger.ofDb Sample.prunedState.db
        Sample.top).validateTxnInflow Sample.spend i false = .ok r) ∧
      Sample.prunedState.db.pendingTxns = [] ∧
      ∀ received, Node.receiveTransaction Sample.env (Sample.txnLib [Sample.spend]) 10 received
        (Sample.spend.txid.getD []) Sample.spend.toJson Sample.prunedState =
          .error .duplicateMinedTransaction := by
  obtain ⟨-, hdb⟩ := Sample.states_db
  refine ⟨Sample.prunedState_run, Sample.spend_valid, by decide, ?_, ?_, ?_, fun received => ?_⟩
  · simp only [Session.Confirmed, hdb]
    decide +kernel
  · rw [hdb]
    intro i hi
    obtain rfl : i = ⟨Sample.mint.txid, some 0⟩ := List.mem_singleton.1 hi
    exact ⟨(500, none, none), by decide +kernel⟩
  · rw [hdb]
    rfl
  · have hmined : Sample.prunedDb.transactionByTxid (Sample.spend.txid.getD []) ≠ none := by
      decide +kernel
    exact Node.receiveTransaction_mined Sample.spend_valid rfl (Sample.loads_txnLib _ _) (hdb ▸ hmined)

namespace Node

variable {E : Env} {S : Set Str} {J : JsonLib} {maxPendingTxns : ℕ} {depth : Option ℕ}
  {now : DateTime} {b : Block} {s s' : Session}

/-- The rows that leave the pool with a block are those of its regular transactions. -/
theorem pruned_iff {p : PendingTxnDAO} (hp : p ∈ s.db.pendingTxns) {db : Database}
    (hsame : db.pendingTxns = s.db.pendingTxns) :
    p ∉ (discardConfirmedPending b db).pendingTxns ↔ ∃ t ∈ b.regularTxns, t.txid = some p.txid := by
  rw [discardConfirmedPending_eq, hsame]
  simp [hp]

/-- **Only confirmed transactions leave the pool when the block wins.**  In every state
a node can be in, the transactions that leave the pool because of a processed block are
all confirmed afterwards just when the block was stored before, becomes the tip, or
holds no pending transaction that was not confirmed already. -/
theorem prunes_confirmed_iff {r : Option Block} (hS : E.CollisionFree (insert genesisText S))
    (hrun : PoolRun E J maxPendingTxns (fun _ _ b => b.Hashed S) depth s) (hb : b.Hashed S)
    (h : processBlock E depth now b s = .ok (r, s')) :
    (∀ p ∈ s.db.pendingTxns, p ∉ s'.db.pendingTxns → s'.Confirmed p.txid) ↔
      (s.db.blockByHash b.blockHash).isSome ∨ s.Wins b ∨
        ∀ p ∈ s.db.pendingTxns, (∃ t ∈ b.regularTxns, t.txid = some p.txid) →
          s.Confirmed p.txid := by
  have hsound := hrun.sound hS fun _ _ _ hb => hb
  rcases processBlock_eq_ok h with ⟨hstored, -, rfl⟩ | ⟨hnew, -, s₁, -, htry, rfl⟩
  · exact ⟨fun _ => Or.inl hstored, fun _ p hp hgone => absurd hp hgone⟩
  have hpool := hsound.inv.tryAddBlock_pendingTxns hS hb htry
  obtain ⟨hwins, hloses⟩ := hsound.confirmed_tryAddBlock hS hb hnew htry
  have hsame : ∀ txid, { s₁ with db := discardConfirmedPending b s₁.db }.Confirmed txid ↔
      s₁.Confirmed txid := by
    intro txid
    rw [discardConfirmedPending_eq]
    exact Iff.rfl
  simp only [hsame, hnew, Option.isSome_none, Bool.false_eq_true, false_or]
  constructor
  · intro hconf
    refine or_iff_not_imp_left.2 fun hlose p hp hmem => ?_
    exact (hloses hlose p.txid).1 (hconf p hp ((pruned_iff hp hpool).2 hmem))
  · rintro hcond p hp hgone
    obtain ⟨t, ht, hid⟩ := (pruned_iff hp hpool).1 hgone
    by_cases hw : s.Wins b
    · exact hwins hw t (List.mem_of_mem_dropLast ht) p.txid hid
    · exact (hloses hw p.txid).2 ((hcond.resolve_left hw) p hp ⟨t, ht, hid⟩)

end Node

/-- `left` arrives where the right branch has won. -/
theorem Node.prunes_confirmed_iff_left :
    (∀ p ∈ Sample.pooledState.db.pendingTxns, p ∉ Sample.prunedState.db.pendingTxns →
        Sample.prunedState.Confirmed p.txid) ↔
      (Sample.pooledState.db.blockByHash Sample.left.blockHash).isSome ∨
        Sample.pooledState.Wins Sample.left ∨
          ∀ p ∈ Sample.pooledState.db.pendingTxns,
            (∃ t ∈ Sample.left.regularTxns, t.txid = some p.txid) →
              Sample.pooledState.Confirmed p.txid := by
  obtain ⟨r, hok⟩ := Sample.processBlock_left
  exact Node.prunes_confirmed_iff Sample.collisionFree Sample.pooledState_run
    (Block.hashed_of_mem (by simp [Sample.blocks])) hok

/-- There it takes the spend out of the pool, and no canonical block has it. -/
theorem Node.prunes_unconfirmed :
    PoolRun Sample.env (Sample.txnLib [Sample.spend]) 10 (fun _ _ b => b.Hashed Sample.texts) none
        Sample.pooledState ∧
      (∃ r, Node.processBlock Sample.env none Sample.halfHour Sample.left Sample.pooledState =
        .ok (r, Sample.prunedState)) ∧
      ∃ p ∈ Sample.pooledState.db.pendingTxns, p ∉ Sample.prunedState.db.pendingTxns ∧
        ¬ Sample.prunedState.Confirmed p.txid := by
  obtain ⟨hdb, hdb'⟩ := Sample.states_db
  refine ⟨Sample.pooledState_run, Sample.processBlock_left, ?_⟩
  simp only [Session.Confirmed, hdb, hdb']
  decide +kernel

end GumptionChain
