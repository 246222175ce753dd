import GumptionChain.Lib.Memo
import GumptionChain.Confirmation
import GumptionChain.Materialization

/-!
# Provenance

Where a transaction stands: in a block of the canonical chain, in one of a losing fork,
in the pool, or nowhere; and `TransactionProvenanceView`, which keeps the answers under
the tip's hash.

* `Chain.transactionProvenance`, `Api.provenanceView` — the read and the view;
* `Database.provenanceAt` — the answer as a function of the tables and the tip;
* `ApiRun` — requests between what a node goes through;
* `provenance_current` — the view answers what the read does as long as no answer that
  is kept goes out of date under the same tip.
-/

namespace GumptionChain

open Database

/-! ## Views -/

/-- `_outflow_view`. -/
inductive OutflowView where
  | opposition (subject : Str) (amount : ℤ)
  | support (subject : Str) (amount : ℤ)
  | rescind (subject : Str) (rescindKind : Option StakeKind) (amount : ℤ)
  | transfer (address : Option Str) (amount : ℤ)
  deriving DecidableEq

/-- `_outflow_view` of the fields of an outflow. -/
def outflowView (amount : ℤ) (o : Outflow) : OutflowView :=
  match o.opposition, o.support, o.rescind with
  | some subject, _, _ => .opposition subject amount
  | none, some subject, _ => .support subject amount
  | none, none, some subject => .rescind subject o.rescindKind amount
  | none, none, none => .transfer o.address amount

/-- The values of `status`. -/
inductive ProvenanceStatus where
  | pending
  | canonical
  | orphaned
  deriving DecidableEq

/-- The dictionary a provenance is. -/
structure Provenance where
  address : Option Str
  outflows : List OutflowView
  timestamp : Str
  status : ProvenanceStatus
  blockHash : Option Str
  height : Option ℕ
  confirmations : ℤ
  deriving DecidableEq

/-- What a provenance may raise: a `KeyError`, or an exception of the reads. -/
inductive ProvenanceError where
  | keyError
  | read (e : Err)
  deriving DecidableEq

/-- `datetime.isoformat()` of a datetime without a zone: no `Z` follows. -/
def DateTime.isoformat (d : DateTime) : Str := (dt2Iso d).dropLast

namespace Database

variable (db : Database) (txid : Str)

/-- An outflow of a transaction's JSON; `o['amount']` has to be there. -/
def pendingOutflow (o : Outflow) : Except ProvenanceError OutflowView :=
  match o.amount with
  | some amount => .ok (outflowView amount o)
  | none => .error .keyError

/-- `_pending_provenance`. -/
def pendingProvenance : Except ProvenanceError (Option Provenance) :=
  match db.pendingByTxid txid with
  | none => .ok none
  | some pending => do
    let outflows ← pending.txn.outflows.mapM pendingOutflow
    return some ⟨pending.txn.address, outflows, pending.txn.timestamp, .pending, none, none, 0⟩

/-- The relationship `TransactionDAO.blocks`. -/
def blocksOf (t : TransactionDAO) : List BlockDAO :=
  (db.blockTransactions.filter (·.2 = t.id)).filterMap fun p => db.blockById p.1

/-- The blocks of the longest-chain table that hold the transaction. -/
def materializedBlocks : List BlockDAO :=
  (db.longestChainBlocks.filterMap fun r => db.blockById r.blockId).filter fun b =>
    (db.rowsOf b.id).any (·.txid = txid)

/-- The outflows of a stored transaction. -/
def outflowViews (t : TransactionDAO) : List OutflowView :=
  (db.outflowsOf t).map fun o => outflowView o.amount (Outflow.fromDao o)

/-- The answer for a transaction of the chain whose tip has the height. -/
def canonicalProvenance (tipHeight : ℕ) (txn : TransactionDAO) : Provenance :=
  let block := (db.materializedBlocks txid).head?
  { address := txn.address
    outflows := db.outflowViews txn
    timestamp := txn.timestamp.isoformat
    status := .canonical
    blockHash := block.map BlockDAO.blockHash
    height := block.map BlockDAO.idx
    confirmations := (block.map fun b => (tipHeight : ℤ) - b.idx + 1).getD 0 }

/-- The answer for a transaction of other blocks only. -/
def orphanedProvenance (orphan : TransactionDAO) : Provenance where
  address := orphan.address
  outflows := db.outflowViews orphan
  timestamp := orphan.timestamp.isoformat
  status := .orphaned
  blockHash := (db.blocksOf orphan).head?.map BlockDAO.blockHash
  height := none
  confirmations := 0

/-- `ChainDAO.transaction_provenance`, of the row with the tip. -/
def transactionProvenance (tip : BlockDAO) : Except ProvenanceError (Option Provenance) := do
  let txn ← (db.getTransactionInChain tip txid).mapError .read
  match txn with
  | some txn => return some (db.canonicalProvenance txid tip.idx txn)
  | none =>
    match db.transactionByTxid txid with
    | some orphan => return some (db.orphanedProvenance orphan)
    | none => db.pendingProvenance txid

end Database

/-- `Chain.transaction_provenance`. -/
def Chain.transactionProvenance (c : Chain) (txid : Str) (s : Session) :
    Except ProvenanceError (Option Provenance × Session) := do
  let (dao, s) ← (c.toDao s).mapError .read
  match dao with
  | some dao =>
    match s.db.blockById dao.blockId with
    | some tip => return (← s.db.transactionProvenance txid tip, s)
    | none => .error (.read .attributeError)
  | none => return (← s.db.pendingProvenance txid, s)

/-- `node_lc_dao`, without the row it ends with. -/
def nodeLcDao (s : Session) : Except ProvenanceError (Option Chain × Session) :=
  match s.db.longest.map Chain.fromDao with
  | none => .ok (none, s)
  | some lc => do
    let (_, s) ← (lc.toDao s).mapError .read
    return (some lc, s)

/-- What the tables answer: `transaction_provenance` of the longest chain, or
`pending_provenance` when there is none. -/
def chainProvenance (lc : Option Chain) (txid : Str) (s : Session) :
    Except ProvenanceError (Option Provenance × Session) :=
  match lc with
  | some lc => lc.transactionProvenance txid s
  | none => do return (← s.db.pendingProvenance txid, s)

/-- The answer computed at the moment, from the tables. -/
def currentProvenance (txid : Str) (s : Session) : Except ProvenanceError (Option Provenance) := do
  let (lc, s) ← nodeLcDao s
  let (prov, _) ← chainProvenance lc txid s
  return prov

/-! ## The view -/

/-- A node behind its API: the session and the cache. -/
structure Api where
  session : Session
  cache : Str → Option Provenance

/-- `f'{tip}.{txid}.txn-provenance'`. -/
def provenanceKey (tip : Option Str) (txid : Str) : Str :=
  tip.getD "None".toList ++ '.' :: txid ++ ".txn-provenance".toList

/-- `TransactionProvenanceView.get`: the answer (or 404, for none), and `as_of_block`. -/
def Api.provenanceView (txid : Str) (a : Api) :
    Except ProvenanceError ((Option Provenance × Option Str) × Api) := do
  let (lc, s) ← nodeLcDao a.session
  let tip := lc.bind Chain.blockHash
  let key := provenanceKey tip txid
  match a.cache key with
  | some prov => return ((some prov, tip), ⟨s, a.cache⟩)
  | none => do
    let (prov, s) ← chainProvenance lc txid s
    match prov with
    | some prov => return ((some prov, tip), ⟨s, Function.update a.cache key (some prov)⟩)
    | none => return ((none, tip), ⟨s, a.cache⟩)

/-! ## What the tables answer -/

namespace Database

/-- The answer under a tip. -/
def provenanceAt (db : Database) (txid : Str) :
    Option BlockDAO → Except ProvenanceError (Option Provenance)
  | none => db.pendingProvenance txid
  | some tip =>
    match db.walkTransaction tip txid with
    | some u => .ok (some (db.canonicalProvenance txid tip.idx u))
    | none =>
      match db.transactionByTxid txid with
      | some u => .ok (some (db.orphanedProvenance u))
      | none => db.pendingProvenance txid

end Database

/-- The hash of the tip. -/
def Session.tip (s : Session) : Option Str := s.db.longestTip.map BlockDAO.blockHash

section

variable {E : Env} {S : Set Str} {s : Session} {a : Api} {txid : Str}

@[simp] theorem ProvenanceError.ok_bind {α β : Type} (x : α) (f : α → Except ProvenanceError β) :
    (Except.ok x >>= f) = f x := rfl

/-- Stored hashes are hashes. -/
theorem Session.Sound.blockHash_valid (h : s.Sound E S) {c : BlockDAO} (hc : c ∈ s.db.blocks) :
    validateMillHash c.blockHash = true := by
  obtain ⟨b, bs, -, hon, hsame, -⟩ := h.inv.ledger.accepted_cons hc
  obtain ⟨hash, hhash, hmill⟩ := hon.valid.wellFormed.blockHash
  rwa [Option.some.inj (hsame.blockHash.trans hhash)]

/-- The handle of the longest chain finds its row again. -/
theorem Session.Sound.nodeLcDao_eq (h : s.Sound E S) :
    nodeLcDao s = .ok (s.db.longest.map Chain.fromDao, s) ∧
      ∀ c, s.db.longest = some c → (Chain.fromDao c).toDao s = .ok (some c, s) := by
  have hrow : ∀ c, s.db.longest = some c → (Chain.fromDao c).toDao s = .ok (some c, s) := by
    intro c hc
    obtain ⟨hcm, -⟩ := longest_spec h.inv.ledger.schema h.inv.chains hc
    obtain ⟨t, ht, -, hhash, -⟩ := h.inv.chains.tip c hcm
    have hne : c.blockHash ≠ [] := by
      intro hnil
      have := h.blockHash_valid ht
      rw [← hhash, hnil] at this
      exact absurd this (by decide)
    have hdao := (chainDao_eq_some h.inv.chains hne).2 ⟨hcm, rfl⟩
    simp only [Chain.toDao, Chain.fromDao, hdao]
  refine ⟨?_, hrow⟩
  unfold nodeLcDao
  cases hl : s.db.longest with
  | none => rfl
  | some c =>
    simp only [Option.map_some, hrow c hl]
    rfl

theorem Session.Sound.tip_eq (h : s.Sound E S) :
    ((s.db.longest.map Chain.fromDao).bind Chain.blockHash) = s.tip := by
  unfold Session.tip longestTip
  cases hl : s.db.longest with
  | none => rfl
  | some c =>
    obtain ⟨hcm, b, hb, hid, -⟩ := longest_spec h.inv.ledger.schema h.inv.chains hl
    obtain ⟨t, ht, htid, hhash, -⟩ := h.inv.chains.tip c hcm
    obtain rfl : b = t := id_injOn h.inv.ledger.schema hb ht
      (((blockById_eq_some h.inv.ledger.schema).1 hid).2.trans htid)
    simp only [Option.map_some, Option.bind_some, hid, Chain.fromDao, hhash]

/-- The read is the answer under the tip. -/
theorem Session.Sound.chainProvenance_eq (hS : E.CollisionFree (insert genesisText S))
    (h : s.Sound E S) : chainProvenance (s.db.longest.map Chain.fromDao) txid s =
      (s.db.provenanceAt txid s.db.longestTip).map fun prov => (prov, s) := by
  have hs := h.inv.ledger.schema
  unfold chainProvenance
  cases hl : s.db.longest with
  | none =>
    have htip : s.db.longestTip = none := by rw [longestTip, hl]; rfl
    rw [htip]
    rfl
  | some c =>
    obtain ⟨hcm, b, hb, hid, -⟩ := longest_spec hs h.inv.chains hl
    have htip : s.db.longestTip = some b := by rw [longestTip, hl]; exact hid
    rw [htip]
    have hread : (Chain.fromDao c).transactionProvenance txid s =
        (s.db.transactionProvenance txid b).map fun prov => (prov, s) := by
      unfold Chain.transactionProvenance
      rw [h.nodeLcDao_eq.2 c hl]
      simp only [Except.mapError, ProvenanceError.ok_bind, hid]
      cases s.db.transactionProvenance txid b <;> rfl
    rw [Option.map_some]
    refine hread.trans ?_
    congr 1
    unfold Database.transactionProvenance
    rw [(h.inv.tree hS).getTransactionInChain_eq hs hb]
    simp only [Except.mapError, ProvenanceError.ok_bind, provenanceAt]
    cases s.db.walkTransaction b txid with
    | some u => rfl
    | none => cases s.db.transactionByTxid txid <;> rfl

theorem Session.Sound.currentProvenance_eq (hS : E.CollisionFree (insert genesisText S))
    (h : s.Sound E S) : currentProvenance txid s = s.db.provenanceAt txid s.db.longestTip := by
  unfold currentProvenance
  rw [h.nodeLcDao_eq.1, ProvenanceError.ok_bind]
  simp only [h.chainProvenance_eq hS]
  cases s.db.provenanceAt txid s.db.longestTip <;> rfl

/-- The view answers from the cache, or from the tables and keeps the answer. -/
theorem Session.Sound.provenanceView_eq (hS : E.CollisionFree (insert genesisText S))
    (h : a.session.Sound E S) : a.provenanceView txid =
      match a.cache (provenanceKey a.session.tip txid) with
      | some prov => .ok ((some prov, a.session.tip), a)
      | none => (currentProvenance txid a.session).map fun prov => ((prov, a.session.tip),
          match prov with
          | some prov => { a with
              cache := Function.update a.cache (provenanceKey a.session.tip txid) (some prov) }
          | none => a) := by
  unfold Api.provenanceView
  rw [h.nodeLcDao_eq.1, ProvenanceError.ok_bind]
  simp only [h.tip_eq, h.chainProvenance_eq hS, h.currentProvenance_eq hS]
  cases a.cache (provenanceKey a.session.tip txid) with
  | some prov => rfl
  | none =>
    cases a.session.db.provenanceAt txid a.session.db.longestTip with
    | error e => rfl
    | ok prov => cases prov <;> rfl

end

/-! ## A block and the tip -/

namespace Session

/-- The row that the block goes to, or extends, says it is the longest. -/
def Rewrites (s : Session) (b : Block) : Prop :=
  ∃ row, (s.db.chainDao b.blockHash none).or (s.db.chainDao b.prevHash none) = some row ∧
    (s.isLongest row).1 = true

variable {E : Env} {S : Set Str} {depth : Option ℕ} {now : DateTime} {b : Block} {s s' : Session}
  {row : ChainDAO} {blk : BlockDAO}

/-- What an addition does to the tables. -/
theorem Sound.tables_tryAddBlock (hS : E.CollisionFree (insert genesisText S)) (h : s.Sound E S)
    (hb : b.Hashed S) (hadd : Node.tryAddBlock E depth now b s = .ok s') :
    ∃ db, db.SameLedger s'.db ∧ ((db = s.db ∧ (s.db.blockByHash b.blockHash).isSome) ∨
      (s.db.blockByHash b.blockHash = none ∧ ∃ r ids, Block.Added E s.db db b r ids)) := by
  obtain ⟨db, blk, s₁, row, -, hto, -, -, hp, hup⟩ := h.inv.tryAddBlock_spec hS hb hadd
  refine ⟨db, hp.sameLedger.1.trans hup.ledger, ?_⟩
  rcases Block.toDb_spec h.inv.ledger.schema hto with ⟨r, hr, rfl⟩ | hadded
  · exact Or.inl ⟨rfl, Option.isSome_iff_exists.2 ⟨r, hr⟩⟩
  · exact Or.inr hadded

/-- The transactions of a new block are stored with it. -/
theorem Sound.stored_tryAddBlock (hS : E.CollisionFree (insert genesisText S)) (h : s.Sound E S)
    (hb : b.Hashed S) (hnew : s.db.blockByHash b.blockHash = none)
    (hadd : Node.tryAddBlock E depth now b s = .ok s') {t : Transaction} (ht : t ∈ b.txns)
    {txid : Str} (htxid : t.txid = some txid) : s'.db.transactionByTxid txid ≠ none := by
  intro hnone
  obtain ⟨db, hl, ⟨-, hsome⟩ | ⟨-, r, ids, ha⟩⟩ := h.tables_tryAddBlock hS hb hadd
  · rw [hnew] at hsome
    cases hsome
  · obtain ⟨u, hu, hst⟩ := ha.exists_row h.inv.ledger.schema ht
    obtain ⟨_, _, _, heq⟩ := hl
    rw [heq] at hnone
    exact Table.byKey_eq_none.1 hnone u (rowsOf_subset hu)
      (Option.some.inj (hst.1.symm.trans htxid))

/-- The best block is the tip. -/
theorem Sound.tip_of_best (h : s.Sound E S) {t : BlockDAO} (ht : s.db.IsBest t) :
    s.db.longestTip = some t :=
  (longestTip_eq_some h.inv.ledger.schema h.inv.chains h.crowned).2 ht

theorem Sound.best_of_tip (h : s.Sound E S) {t : BlockDAO} (ht : s.db.longestTip = some t) :
    s.db.IsBest t :=
  (longestTip_eq_some h.inv.ledger.schema h.inv.chains h.crowned).1 ht

/-- A stored block does not rank before the tip. -/
theorem Sound.not_wins_of_stored (hS : E.CollisionFree (insert genesisText S)) (h : s.Sound E S)
    (hb : b.Hashed S) (hadd : Node.tryAddBlock E depth now b s = .ok s')
    (hstored : s.db.blockByHash b.blockHash ≠ none) : ¬ s.Wins b := by
  obtain ⟨db, blk, -, -, habove, hto, hinv, hblk, -⟩ := h.inv.tryAddBlock_spec hS hb hadd
  have hdb : db = s.db := by
    rcases Block.toDb_spec h.inv.ledger.schema hto with ⟨-, -, rfl⟩ | ⟨hnone, -⟩
    · rfl
    · exact absurd hnone hstored
  subst hdb
  have hv := (Chain.validateAbove_eq_ok.1 habove).1
  have hblkm := (blockByHash_mem hblk).1
  obtain ⟨t, ht, hbest⟩ := h.exists_longestTip hblkm
  intro hwins
  have hlt := hwins t ht
  rw [(hinv.ledger.shows hS hv hb hblk).rankKey] at hlt
  exact absurd hlt (not_lt.2 (hbest.2 blk hblkm))

/-- **A new block that ranks before the tip becomes it; any other leaves it.** -/
theorem Sound.tip_tryAddBlock (hS : E.CollisionFree (insert genesisText S)) (h : s.Sound E S)
    (hb : b.Hashed S) (hadd : Node.tryAddBlock E depth now b s = .ok s') :
    (s.db.blockByHash b.blockHash = none → s.Wins b → b.blockHash ≠ none ∧ s'.tip = b.blockHash) ∧
      (¬ s.Wins b → s'.db.longestTip = s.db.longestTip) := by
  have h' := h.tryAddBlock hS hb hadd
  obtain ⟨db, blk, s₁, row, habove, hto, hinv, hblk, hp, hup⟩ := h.inv.tryAddBlock_spec hS hb hadd
  have hv := (Chain.validateAbove_eq_ok.1 habove).1
  have hl := hp.sameLedger.1.trans hup.ledger
  have hmem : ∀ c, c ∈ s'.db.blocks ↔ c ∈ s.db.blocks ∨ c = blk := fun c =>
    hl.blocks ▸ (Block.mem_blocks_toDb h.inv.ledger.schema hv hto hblk).2 c
  have hrank : b.rankKey = Database.rankKey blk := (hinv.ledger.shows hS hv hb hblk).rankKey
  constructor
  · intro hnew hwins
    have hbest : s'.db.IsBest blk := by
      refine ⟨(hmem blk).2 (Or.inr rfl), fun c hc => ?_⟩
      rcases (hmem c).1 hc with hold | rfl
      · obtain ⟨q, hq, hqbest⟩ := h.exists_longestTip hold
        exact (hrank ▸ hwins q hq).le.trans (hqbest.2 c hold)
      · exact AtLeast.refl c
    rw [tip, h'.tip_of_best hbest, (blockByHash_mem hblk).2]
    exact ⟨Option.some_ne_none _, rfl⟩
  · intro hlose
    obtain ⟨t, ht, hle⟩ : ∃ t, s.db.longestTip = some t ∧ ¬ b.rankKey < Database.rankKey t := by
      simpa [Wins] using hlose
    have hbest := h.best_of_tip ht
    rw [ht]
    refine h'.tip_of_best ⟨(hmem t).2 (Or.inl hbest.1), fun c hc => ?_⟩
    rcases (hmem c).1 hc with hold | rfl
    · exact hbest.2 c hold
    · rw [hrank] at hle
      exact not_lt.1 hle

/-- A row that says no goes on saying so, and its upkeep does nothing. -/
theorem sync_of_no (hno : (s.isLongest row).1 = false) (n : ℕ) :
    ((syncLongestChainBlocks · depth row)^[n] s).db = s.db := by
  have hsync : ∀ s : Session, (s.isLongest row).1 = false →
      s.syncLongestChainBlocks depth row = (s.isLongest row).2 := by
    intro s hno
    unfold syncLongestChainBlocks
    simp [hno]
  have hall : ((syncLongestChainBlocks · depth row)^[n] s).db = s.db ∧
      (((syncLongestChainBlocks · depth row)^[n] s).isLongest row).1 = false := by
    induction n with
    | zero => exact ⟨rfl, hno⟩
    | succ n ih =>
      rw [Function.iterate_succ_apply', hsync _ ih.2, isLongest_db, isLongest_again]
      exact ih
  exact hall.1

/-- **The table stays** when the row of a block that does not become the tip says no. -/
theorem Sound.table_tryAddBlock (hS : E.CollisionFree (insert genesisText S)) (h : s.Sound E S)
    (hb : b.Hashed S) (hlose : ¬ s.Wins b) (hno : ¬ s.Rewrites b)
    (hadd : Node.tryAddBlock E depth now b s = .ok s') :
    s'.db.longestChainBlocks = s.db.longestChainBlocks := by
  have htip' := (h.tip_tryAddBlock hS hb hadd).2 hlose
  have h' := h.tryAddBlock hS hb hadd
  obtain ⟨db, blk, s₁, row, n, habove, hto, hinv, hblk, hp, -, rfl⟩ :=
    h.inv.tryAddBlock_steps hS hb hadd
  have hs := h.inv.ledger.schema
  have hv := (Chain.validateAbove_eq_ok.1 habove).1
  have h₁ := h.placed hS hb hv hto hinv hblk hp
  have hchains := (Block.mem_blocks_toDb hs hv hto hblk).1
  have hstored : db.longestChainBlocks = s.db.longestChainBlocks ∧
      ((s.db.blockByHash b.blockHash).isSome → db = s.db) := by
    rcases Block.toDb_spec hs hto with ⟨r, hr, rfl⟩ | ⟨hnone, r, ids, ha⟩
    · exact ⟨rfl, fun _ => rfl⟩
    · exact ⟨ha.longestChainBlocks, fun hsome => by rw [hnone] at hsome; cases hsome⟩
  obtain ⟨hl, htable⟩ := hp.sameLedger
  obtain ⟨-, hrow, hat⟩ := hp.chainRows hinv.ledger.schema hinv.chains hblk
  have hblkm := (blockByHash_mem hblk).1
  suffices hno₁ : (s₁.isLongest row).1 = false by
    rw [sync_of_no hno₁, htable]
    exact hstored.1
  rw [Bool.eq_false_iff]
  intro hyes
  -- a row that says so for the first time would have the best block for its tip
  have hfresh : (s₁.db.longest.any (·.id = row.id)) = true →
      s.db.chainDao b.blockHash none ≠ none := by
    intro hany
    obtain ⟨d, hd, hid⟩ := (Option.any_eq_true _ _).1 hany
    obtain ⟨hdm, -⟩ := longest_spec h₁.inv.ledger.schema h₁.inv.chains hd
    obtain rfl := List.inj_on_of_nodup_map h₁.inv.chains.ids hdm hrow (by simpa using hid)
    obtain ⟨t, -, hbest₁⟩ := h₁.exists_longestTip (hl.blocks ▸ hblkm)
    have hdt := blockId_of_longest h₁.inv.ledger.schema h₁.inv.chains h₁.crowned hd hbest₁
    obtain rfl : blk = t := id_injOn h₁.inv.ledger.schema (hl.blocks ▸ hblkm) hbest₁.1
      ((congrArg ChainDAO.blockId hat).symm.trans hdt)
    have hup : Upkeep d blk s₁ ((syncLongestChainBlocks · depth d)^[n] s₁) :=
      Session.sync_iterate h₁.inv.ledger.schema (h₁.inv.tree hS) h₁.inv.ledger.linked.root
        ((blockById_eq_some h₁.inv.ledger.schema).2
          ⟨hbest₁.1, (congrArg ChainDAO.blockId hat).symm⟩) n
    have hbest' : ((syncLongestChainBlocks · depth d)^[n] s₁).db.IsBest blk :=
      ⟨hup.ledger.blocks ▸ hbest₁.1, fun c hc => hbest₁.2 c (hup.ledger.blocks ▸ hc)⟩
    rw [h'.tip_of_best hbest'] at htip'
    have hbest := h.best_of_tip htip'.symm
    obtain ⟨q, ⟨hq, e, he, heid⟩, hqb⟩ := h.crowned blk hbest.1
    obtain rfl := AtLeast.antisymm hs hq hbest.1 hqb (hbest.2 q hq)
    obtain ⟨q', hq', hid', hhash', -⟩ := h.inv.chains.tip e he
    obtain rfl := id_injOn hs hq' hq (hid'.symm.trans heid)
    have hhash := (blockByHash_mem hblk).2
    have hne : q'.blockHash ≠ [] := blockByHash_ne_nil (hhash ▸ hblk)
    rw [hhash, (chainDao_eq_some h.inv.chains hne).2 ⟨he, hhash'⟩]
    exact Option.some_ne_none e
  have hdao : ∀ x y, db.chainDao x y = s.db.chainDao x y := fun x y => by
    unfold Database.chainDao
    rw [hchains]
  cases hp with
  | found _ hd =>
    replace hd : s.db.chainDao b.blockHash none = some row := (hdao _ _).symm.trans hd
    obtain ⟨hrm, hhash⟩ := mem_of_chainDao_hash hd
    obtain ⟨q, hq, -, hqh, -⟩ := h.inv.chains.tip row hrm
    have hne : q.blockHash ≠ [] := fun hnil =>
      absurd (h.blockHash_valid hq) (by rw [hnil]; decide)
    have hsome : (s.db.blockByHash b.blockHash).isSome := by
      rw [hhash, hqh, (blockByHash_eq_some hs).2 ⟨hne, hq, rfl⟩]
      rfl
    obtain rfl := hstored.2 hsome
    exact hno ⟨row, by rw [hd]; rfl, hyes⟩
  | moved old hnone hcid =>
    have hprev := chainDao_of_cid hinv.chains hchains hcid
    rcases isLongest_cases (Session.withMoved { s with db := db } old.id blk) (rowAt old.id blk)
      with ⟨v, hcache, heq⟩ | ⟨-, heq⟩
    · rw [heq] at hyes
      refine hno ⟨old, ?_, ?_⟩
      · rw [← hdao, hnone]
        exact hprev
      · replace hcache : s.cache old.id = some (s.generation, v) := hcache
        rcases isLongest_cases s old with ⟨w, hcache', heq'⟩ | ⟨hno', -⟩
        · rw [hcache] at hcache'
          rw [heq', ← (Prod.mk.inj (Option.some.inj hcache')).2]
          exact hyes
        · exact absurd hcache (hno' v)
    · rw [heq] at hyes
      exact hfresh hyes ((hdao _ _).symm.trans hnone)
  | added hnone hcid =>
    rcases isLongest_cases (Session.withAdded { s with db := db } blk)
      (rowAt (Table.fresh (db.chains.map ChainDAO.id)) blk) with ⟨v, hcache, -⟩ | ⟨-, heq⟩
    · rw [withAdded_cache] at hcache
      simp [rowAt] at hcache
    · rw [heq] at hyes
      exact hfresh hyes ((hdao _ _).symm.trans hnone)

end Session

/-! ## Answers that stay -/

namespace Database

variable {E : Env} {db db' : Database} {txid : Str} {b : Block} {tip r : BlockDAO} {ids : List ℕ}
  {u : TransactionDAO}

/-- Every stored transaction is in a block. -/
def Mined (db : Database) : Prop := ∀ u ∈ db.transactions, ∃ c ∈ db.blocks, u ∈ db.rowsOf c.id

/-- What a block leaves of the answers: the stored blocks and their transactions are as
they were, and no transactions are new but the block's. -/
structure Grown (b : Block) (db db' : Database) : Prop where
  frame : db.Frame db'
  firstBlock : ∀ u ∈ db.transactions, (db'.blocksOf u).head? = (db.blocksOf u).head?
  found : ∀ txid u, db.transactionByTxid txid = some u → db'.transactionByTxid txid = some u
  fresh : ∀ txid, db.transactionByTxid txid = none → (∀ t ∈ b.txns, t.txid ≠ some txid) →
    db'.transactionByTxid txid = none
  mined : db'.Mined

theorem Grown.refl (b : Block) (hm : db.Mined) : Grown b db db :=
  ⟨Frame.refl db, fun _ _ => rfl, fun _ _ h => h, fun _ h _ => h, hm⟩

theorem Grown.congr {db₁ : Database} (h : Grown b db db₁) (hl : db₁.SameLedger db') :
    Grown b db db' := by
  obtain ⟨_, _, _, rfl⟩ := hl
  exact ⟨⟨⟨h.frame.extends_.transactions, h.frame.extends_.outflows, h.frame.extends_.inflows⟩,
    h.frame.blocks, h.frame.prev, h.frame.rows⟩, h.firstBlock, h.found, h.fresh, h.mined⟩

theorem mem_blocksOf (hs : db.Schema E) {c : BlockDAO} :
    c ∈ db.blocksOf u ↔ c ∈ db.blocks ∧ (c.id, u.id) ∈ db.blockTransactions := by
  simp only [blocksOf, List.mem_filterMap, List.mem_filter, decide_eq_true_eq]
  constructor
  · rintro ⟨⟨i, j⟩, ⟨hp, rfl⟩, hc⟩
    obtain ⟨hmem, rfl⟩ := (blockById_eq_some hs).1 hc
    exact ⟨hmem, hp⟩
  · rintro ⟨hc, hp⟩
    exact ⟨_, ⟨hp, rfl⟩, (blockById_eq_some hs).2 ⟨hc, rfl⟩⟩

/-- A new block's joins come after the others. -/
theorem Grown.of_added (hs : db.Schema E) (hm : db.Mined) (ha : Block.Added E db db' b r ids) :
    Grown b db db' := by
  have hframe := ha.frame hs
  refine ⟨hframe, fun u hu => ?_, fun txid u hu => ?_, fun txid hnone hb => ?_, fun u hu => ?_⟩
  · have hold : (db.blockTransactions.filter (·.2 = u.id)).filterMap
        (fun p => db'.blockById p.1) = db.blocksOf u := by
      refine List.filterMap_congr fun p hp => ?_
      obtain ⟨c, hc, hid⟩ := hs.blockTransactionBlock p (List.mem_filter.1 hp).1
      rw [(blockById_eq_some hs).2 ⟨hc, hid⟩, blockById_eq_some ha.schema]
      exact ⟨hframe.blocks c hc, hid⟩
    obtain ⟨c, hc, hrow⟩ := hm u hu
    have hmem := (mem_blocksOf hs (u := u)).2 ⟨hc, ((mem_rowsOf hs).1 hrow).2⟩
    rw [blocksOf, ha.blockTransactions, List.filter_append, List.filterMap_append, hold,
      List.head?_append_of_ne_nil _ (List.ne_nil_of_mem hmem)]
  · obtain ⟨hmem, htxid⟩ := (transactionByTxid_eq_some hs).1 hu
    exact (transactionByTxid_eq_some ha.schema).2 ⟨ha.extends_.mem_transactions hmem, htxid⟩
  · refine Table.byKey_eq_none.2 fun u hu htxid => ?_
    rcases ha.sourced u hu with hold | ⟨t, ht, hst⟩
    · exact Table.byKey_eq_none.1 hnone u hold htxid
    · exact hb t ht (htxid ▸ hst.1)
  · rcases ha.sourced u hu with hold | ⟨t, ht, hst⟩
    · obtain ⟨c, hc, hrow⟩ := hm u hold
      exact ⟨c, hframe.blocks c hc, (hframe.rows c hc).symm ▸ hrow⟩
    · obtain ⟨v, hv, hst'⟩ := ha.exists_row hs ht
      have htxid : u.txid = v.txid := Option.some.inj (hst.1.symm.trans hst'.1)
      obtain rfl := List.inj_on_of_nodup_map ha.schema.transactionTxids hu (rowsOf_subset hv) htxid
      exact ⟨r, ha.row_mem, hv⟩

/-- The table's blocks that hold a transaction are the same one. -/
theorem mem_materializedBlocks (hs : db.Schema E) {c : BlockDAO} :
    c ∈ db.materializedBlocks txid ↔ (∃ l ∈ db.longestChainBlocks, c ∈ db.blocks ∧ c.id = l.blockId) ∧
      ∃ u ∈ db.rowsOf c.id, u.txid = txid := by
  simp only [materializedBlocks, List.mem_filter, List.mem_filterMap, List.any_eq_true,
    decide_eq_true_eq, blockById_eq_some hs]

theorem materializedBlocks_unique (hs : db.Schema E) (ht : db.Tree) {c d : BlockDAO}
    (hc : c ∈ db.materializedBlocks txid) (hd : d ∈ db.materializedBlocks txid) : c = d := by
  obtain ⟨⟨l, hl, hcm, hcl⟩, u, hu, hut⟩ := (mem_materializedBlocks hs).1 hc
  obtain ⟨⟨m, hm, hdm, hdm'⟩, v, hv, hvt⟩ := (mem_materializedBlocks hs).1 hd
  rcases ht.materialized with hnil | ⟨t, htm, hmat⟩
  · rw [hnil] at hl
    exact absurd hl List.not_mem_nil
  have hpath : ∀ {x : BlockDAO} {l : LongestChainBlockDAO}, l ∈ db.longestChainBlocks →
      x ∈ db.blocks → x.id = l.blockId → x ∈ db.path t := by
    intro x l hl hx hid
    obtain ⟨y, hy, rfl⟩ := List.mem_map.1 (hmat.mem_iff.1 hl)
    rwa [id_injOn hs hx (ht.mem_blocks htm hy) hid]
  obtain rfl : u = v := List.inj_on_of_nodup_map hs.transactionTxids (rowsOf_subset hu)
    (rowsOf_subset hv) (hut.trans hvt.symm)
  exact ht.block_unique htm (hpath hl hcm hcl) (hpath hm hdm hdm') hu hv

/-- The same table finds the same block. -/
theorem Grown.materializedBlocks (hs : db.Schema E) (ht : db.Tree) (hs' : db'.Schema E)
    (h : Grown b db db')
    (htable : db'.longestChainBlocks.Perm db.longestChainBlocks) :
    (db'.materializedBlocks txid).head? = (db.materializedBlocks txid).head? := by
  have hmem : ∀ c, c ∈ db'.materializedBlocks txid ↔ c ∈ db.materializedBlocks txid := by
    intro c
    rw [mem_materializedBlocks hs, mem_materializedBlocks hs']
    constructor
    · rintro ⟨⟨l, hl, hc, hid⟩, hrow⟩
      have hl' := htable.mem_iff.1 hl
      -- a row of the table stands for a stored block
      obtain ⟨d, hd, hdid⟩ : ∃ d ∈ db.blocks, d.id = l.blockId := by
        rcases ht.materialized with hnil | ⟨t, htm, hmat⟩
        · rw [hnil] at hl'
          exact absurd hl' List.not_mem_nil
        · obtain ⟨y, hy, rfl⟩ := List.mem_map.1 (hmat.mem_iff.1 hl')
          exact ⟨y, ht.mem_blocks htm hy, rfl⟩
      obtain rfl := id_injOn hs' hc (h.frame.blocks d hd) (hid.trans hdid.symm)
      rw [h.frame.rows c hd] at hrow
      exact ⟨⟨l, hl', hd, hid⟩, hrow⟩
    · rintro ⟨⟨l, hl, hc, hid⟩, hrow⟩
      rw [← h.frame.rows c hc] at hrow
      exact ⟨⟨l, htable.mem_iff.2 hl, h.frame.blocks c hc, hid⟩, hrow⟩
  cases hfirst : (db.materializedBlocks txid).head? with
  | none =>
    rw [List.head?_eq_none_iff] at hfirst ⊢
    exact List.eq_nil_iff_forall_not_mem.2 fun c hc => by simpa [hfirst] using (hmem c).1 hc
  | some c =>
    have hc := List.mem_of_head? hfirst
    cases hfirst' : (db'.materializedBlocks txid).head? with
    | none =>
      rw [List.head?_eq_none_iff] at hfirst'
      exact absurd ((hmem c).2 hc) (by simp [hfirst'])
    | some d =>
      rw [materializedBlocks_unique hs ht ((hmem d).1 (List.mem_of_head? hfirst')) hc]

/-- **An answer stays** when a block grows the tables under the same tip, if the table
stays for a transaction of the chain, and a transaction of the pool is not the block's. -/
theorem Grown.provenanceAt (hs : db.Schema E) (ht : db.Tree) (hs' : db'.Schema E)
    (h : Grown b db db') (htip : tip ∈ db.blocks)
    (htable : db.walkTransaction tip txid ≠ none →
      db'.longestChainBlocks.Perm db.longestChainBlocks)
    (hpending : db.transactionByTxid txid = none → (∀ t ∈ b.txns, t.txid ≠ some txid) ∧
      db'.pendingByTxid txid = db.pendingByTxid txid) :
    db'.provenanceAt txid (some tip) = db.provenanceAt txid (some tip) := by
  have hviews : ∀ u ∈ db.transactions, db'.outflowViews u = db.outflowViews u := fun u hu => by
    rw [outflowViews, h.frame.extends_.outflowsOf hu, outflowViews]
  have hwalk : db'.walkTransaction tip txid = db.walkTransaction tip txid := by
    rw [walkTransaction, h.frame.pathRows ht htip, walkTransaction]
  simp only [Database.provenanceAt, hwalk]
  cases hu : db.walkTransaction tip txid with
  | some u =>
    obtain ⟨hmem, -⟩ := (walkTransaction_eq_some hs).1 hu
    obtain ⟨c, -, hrow⟩ := mem_pathRows.1 hmem
    simp only [canonicalProvenance, hviews u (rowsOf_subset hrow),
      h.materializedBlocks hs ht hs' (htable (by rw [hu]; exact Option.some_ne_none u))]
  | none =>
    cases hv : db.transactionByTxid txid with
    | some v =>
      have hmem := ((transactionByTxid_eq_some hs).1 hv).1
      simp only [h.found txid v hv, orphanedProvenance, hviews v hmem, h.firstBlock v hmem]
    | none =>
      obtain ⟨hnew, hpool⟩ := hpending hv
      simp only [h.fresh txid hv hnew, pendingProvenance, hpool]

/-- A change of the pool leaves the answers for the transactions it does not touch. -/
theorem provenanceAt_pool {pending : List PendingTxnDAO} {tip : Option BlockDAO}
    (hpending : tip = none ∨ db.transactionByTxid txid = none →
      Table.byKey PendingTxnDAO.txid txid pending = db.pendingByTxid txid) :
    ({ db with pendingTxns := pending } : Database).provenanceAt txid tip =
      db.provenanceAt txid tip := by
  have hpool (h : tip = none ∨ db.transactionByTxid txid = none) :
      ({ db with pendingTxns := pending } : Database).pendingProvenance txid =
        db.pendingProvenance txid := by
    unfold pendingProvenance
    rw [← hpending h]
    rfl
  cases tip with
  | none => exact hpool (Or.inl rfl)
  | some t =>
    have hwalk : ({ db with pendingTxns := pending } : Database).walkTransaction t txid =
        db.walkTransaction t txid := rfl
    have hfound : ({ db with pendingTxns := pending } : Database).transactionByTxid txid =
        db.transactionByTxid txid := rfl
    simp only [Database.provenanceAt, hwalk, hfound]
    cases db.walkTransaction t txid with
    | some u => rfl
    | none =>
      cases hu : db.transactionByTxid txid with
      | some u => rfl
      | none => exact hpool (Or.inr hu)

/-- Discarding rows leaves the others to be found. -/
theorem byKey_filter {pending : List PendingTxnDAO} {keep : PendingTxnDAO → Bool}
    (h : ∀ p ∈ pending, p.txid = txid → keep p = true) :
    Table.byKey PendingTxnDAO.txid txid (pending.filter keep) =
      Table.byKey PendingTxnDAO.txid txid pending := by
  unfold Table.byKey
  rw [List.find?_filter]
  refine List.find?_congr fun p hp => ?_
  by_cases htxid : p.txid = txid
  · simp [htxid, h p hp htxid]
  · simp [htxid]

end Database

/-! ## Runs -/

namespace Api

/-- An answer is kept under the present tip. -/
def Keeps (a : Api) (txid : Str) : Prop := a.cache (provenanceKey a.session.tip txid) ≠ none

/-- What may put an answer out of date. -/
inductive Event where
  | discard (txn : Transaction)
  | expire (cutoff : ℕ)
  | block (prunes : Bool) (b : Block)

/-- No kept answer goes out of date under the same tip.  No transaction leaves the pool
that an answer is kept for, unless it is in a block.  A block becomes the tip; or it
brings no transaction of the pool that an answer is kept for, and where an answer is kept
for a canonical transaction the longest-chain table is in order or not written. -/
def Steady (S : Set Str) (a : Api) : Event → Prop
  | .discard txn => ∀ p ∈ a.session.db.pendingTxns, txn.txid = some p.txid →
      a.session.db.transactionByTxid p.txid = none → ¬ a.Keeps p.txid
  | .expire cutoff => ∀ p ∈ a.session.db.pendingTxns, p.timestamp.toSeconds < cutoff →
      a.session.db.transactionByTxid p.txid = none → ¬ a.Keeps p.txid
  | .block prunes b => b.Hashed S ∧
      ((prunes = true ∧ (a.session.db.blockByHash b.blockHash).isSome) ∨
        (a.session.db.blockByHash b.blockHash = none ∧ a.session.Wins b) ∨
        ((∀ t ∈ b.txns, ∀ txid, t.txid = some txid →
            a.session.db.transactionByTxid txid = none → ¬ a.Keeps txid) ∧
          (a.session.Tracks ∨ ¬ a.session.Rewrites b ∨
            ∀ txid, a.session.Confirmed txid → ¬ a.Keeps txid)))

end Api

/-- What a node behind its API goes through: what a node does, requests, and losses of
cache entries.  `Q` says in which states the events may occur. -/
inductive ApiRun (E : Env) (J : JsonLib) (maxPendingTxns : ℕ) (Q : Api → Api.Event → Prop)
    (depth : Option ℕ) : Api → Prop
  | empty : ApiRun E J maxPendingTxns Q depth ⟨{}, fun _ => none⟩
  | receive {a : Api} {s' : Session} {received : ℕ} {txid txnJson : Str} {r : Option Transaction} :
      ApiRun E J maxPendingTxns Q depth a →
      Node.receiveTransaction E J maxPendingTxns received txid txnJson a.session = .ok (r, s') →
      ApiRun E J maxPendingTxns Q depth ⟨s', a.cache⟩
  | discard {a : Api} {txn : Transaction} : ApiRun E J maxPendingTxns Q depth a →
      Q a (.discard txn) →
      ApiRun E J maxPendingTxns Q depth
        ⟨{ a.session with db := a.session.db.discardPending txn }, a.cache⟩
  | expire {a : Api} {cutoff : ℕ} : ApiRun E J maxPendingTxns Q depth a →
      Q a (.expire cutoff) →
      ApiRun E J maxPendingTxns Q depth
        ⟨{ a.session with db := a.session.db.discardExpiredPending cutoff }, a.cache⟩
  | process {a : Api} {s' : Session} {now : DateTime} {b : Block} {r : Option Block} :
      ApiRun E J maxPendingTxns Q depth a → Q a (.block true b) →
      Node.processBlock E depth now b a.session = .ok (r, s') →
      ApiRun E J maxPendingTxns Q depth ⟨s', a.cache⟩
  | fill {a : Api} {s' : Session} {now : DateTime} {commit : Bool} {b : Block}
      {r : Option Block} : ApiRun E J maxPendingTxns Q depth a → Q a (.block false b) →
      Node.addBlock E depth now commit b a.session = .ok (r, s') →
      ApiRun E J maxPendingTxns Q depth ⟨s', a.cache⟩
  | ask {a : Api} {row : ChainDAO} : ApiRun E J maxPendingTxns Q depth a →
      row ∈ a.session.db.chains →
      ApiRun E J maxPendingTxns Q depth ⟨(a.session.isLongest row).2, a.cache⟩
  | forget {a : Api} {rows : ℕ → Option (ℕ × Bool)} : ApiRun E J maxPendingTxns Q depth a →
      (∀ i, rows i = none ∨ rows i = a.session.cache i) →
      ApiRun E J maxPendingTxns Q depth ⟨{ a.session with cache := rows }, a.cache⟩
  | request {a a' : Api} {txid : Str} {r : Option Provenance × Option Str} :
      ApiRun E J maxPendingTxns Q depth a → validateMillHash txid = true →
      a.provenanceView txid = .ok (r, a') → ApiRun E J maxPendingTxns Q depth a'
  | drop {a : Api} {cache : Str → Option Provenance} : ApiRun E J maxPendingTxns Q depth a →
      (∀ k, cache k = none ∨ cache k = a.cache k) →
      ApiRun E J maxPendingTxns Q depth ⟨a.session, cache⟩

/-! ## The cache in a run -/

/-- A tip as it stands in a key. -/
def ValidTip (tip : Option Str) : Prop := ∀ hash, tip = some hash → validateMillHash hash = true

/-- The tip may have been the present one before. -/
def Session.PastTip (s : Session) (tip : Option Str) : Prop :=
  tip = none ∨ ∃ c ∈ s.db.blocks, tip = some c.blockHash

/-- Keys are told apart by their lengths: a hash has 64 characters, `None` has 4. -/
theorem provenanceKey_keyed :
    Memo.Keyed provenanceKey ValidTip fun txid => validateMillHash txid = true := by
  constructor
  intro n n' q q' hn hn' hq hq' heq
  have hlen : (n.getD "None".toList).length = (n'.getD "None".toList).length := by
    have := congrArg List.length heq
    simp only [provenanceKey, List.length_append, List.length_cons,
      (validateMillHash_iff.1 hq).2, (validateMillHash_iff.1 hq').2] at this
    omega
  simp only [provenanceKey, List.append_assoc] at heq
  obtain ⟨htip, hrest⟩ := List.append_inj heq hlen
  refine ⟨?_, ?_⟩
  · cases n with
    | none =>
      cases n' with
      | none => rfl
      | some h =>
        have := (validateMillHash_iff.1 (hn' h rfl)).2
        exact absurd (hlen.trans this) (by decide)
    | some h =>
      cases n' with
      | none =>
        have := (validateMillHash_iff.1 (hn h rfl)).2
        exact absurd (hlen.symm.trans this) (by decide)
      | some h' => exact congrArg some htip
  · exact List.append_cancel_right (List.cons.inj hrest).2

namespace Database

variable {db : Database} {txid : Str} {tip : Option BlockDAO}

/-- A transaction in no block is in the pool or nowhere. -/
theorem provenanceAt_of_unstored (hu : db.transactionByTxid txid = none) :
    db.provenanceAt txid tip = db.pendingProvenance txid := by
  cases tip with
  | none => rfl
  | some t =>
    have hwalk : db.walkTransaction t txid = none := by
      refine List.find?_eq_none.2 fun u hu' htxid => ?_
      obtain ⟨c, -, hrow⟩ := mem_pathRows.1 hu'
      exact Table.byKey_eq_none.1 hu u (rowsOf_subset hrow) (by simpa using htxid)
    simp only [Database.provenanceAt, hwalk, hu]

end Database

namespace Session

variable {E : Env} {S : Set Str} {s : Session}

/-- Tips are hashes. -/
theorem Sound.validTip (h : s.Sound E S) (tip : Option Str) (ht : s.PastTip tip) :
    ValidTip tip := by
  rintro hash rfl
  rcases ht with hnone | ⟨c, hc, heq⟩
  · cases hnone
  · exact Option.some.inj heq ▸ h.blockHash_valid hc

/-- The present tip is a block's. -/
theorem Sound.pastTip (h : s.Sound E S) : s.PastTip s.tip := by
  unfold Session.tip
  cases ht : s.db.longestTip with
  | none => exact Or.inl rfl
  | some t => exact Or.inr ⟨t, (h.best_of_tip ht).1, rfl⟩

end Session

namespace Api

/-- What every run keeps. -/
structure Kept (E : Env) (S : Set Str) (a : Api) : Prop where
  sound : a.session.Sound E S
  mined : a.session.db.Mined
  coherent : Memo.Coherent provenanceKey Session.tip Session.PastTip
    (fun txid => validateMillHash txid = true)
    (fun s txid prov => currentProvenance txid s = .ok (some prov)) a.session a.cache

variable {E : Env} {S : Set Str} {a : Api} {s' : Session} {depth : Option ℕ} {now : DateTime}
  {b : Block} {txid : Str}

/-- Without a tip nothing is stored. -/
theorem Kept.unstored (h : Kept E S a) (htip : a.session.db.longestTip = none) (txid : Str) :
    a.session.db.transactionByTxid txid = none := by
  refine Table.byKey_eq_none.2 fun u hu _ => ?_
  obtain ⟨c, hc, -⟩ := h.mined u hu
  obtain ⟨t, ht, -⟩ := h.sound.exists_longestTip hc
  exact absurd (ht.symm.trans htip) (by simp)

/-- An event that leaves the tip and the kept answers. -/
theorem Kept.stay (hS : E.CollisionFree (insert genesisText S)) (h : Kept E S a)
    (hs' : s'.Sound E S) (hm' : s'.db.Mined) (hblocks : ∀ c ∈ a.session.db.blocks, c ∈ s'.db.blocks)
    (htip : s'.db.longestTip = a.session.db.longestTip)
    (hkept : ∀ txid prov, a.Keeps txid →
      a.session.db.provenanceAt txid a.session.db.longestTip = .ok (some prov) →
      s'.db.provenanceAt txid a.session.db.longestTip = .ok (some prov)) :
    Kept E S ⟨s', a.cache⟩ := by
  refine ⟨hs', hm', h.coherent.step provenanceKey_keyed h.sound.validTip ?_ (Or.inl ⟨?_, ?_⟩)⟩
  · rintro n (hnone | ⟨c, hc, heq⟩)
    · exact Or.inl hnone
    · exact Or.inr ⟨c, hblocks c hc, heq⟩
  · rw [Session.tip, htip, Session.tip]
  · intro txid prov _ hcache hcur
    rw [h.sound.currentProvenance_eq hS] at hcur
    rw [hs'.currentProvenance_eq hS, htip]
    refine hkept txid prov (fun hnone => ?_) hcur
    rw [hnone] at hcache
    cases hcache

/-- The pool changes. -/
theorem Kept.pool (hS : E.CollisionFree (insert genesisText S)) (h : Kept E S a)
    {pending : List PendingTxnDAO}
    (hkeep : ∀ txid, a.Keeps txid → a.session.db.transactionByTxid txid = none →
      a.session.db.pendingByTxid txid ≠ none →
      Table.byKey PendingTxnDAO.txid txid pending = a.session.db.pendingByTxid txid) :
    Kept E S ⟨{ a.session with db := { a.session.db with pendingTxns := pending } }, a.cache⟩ := by
  refine h.stay hS (h.sound.pool pending) h.mined (fun _ hc => hc) rfl fun txid prov hk hans => ?_
  rw [← hans]
  refine provenanceAt_pool fun hnone => ?_
  have hu : a.session.db.transactionByTxid txid = none :=
    hnone.elim (fun htip => h.unstored htip txid) id
  refine hkeep txid hk hu fun hpool => ?_
  rw [provenanceAt_of_unstored hu, pendingProvenance, hpool] at hans
  cases hans

/-- A block is added. -/
theorem Kept.block (hS : E.CollisionFree (insert genesisText S)) (h : Kept E S a)
    (hb : b.Hashed S) (hadd : Node.tryAddBlock E depth now b a.session = .ok s')
    (hcond : (a.session.db.blockByHash b.blockHash = none ∧ a.session.Wins b) ∨
      ((∀ t ∈ b.txns, ∀ txid, t.txid = some txid →
          a.session.db.transactionByTxid txid = none → ¬ a.Keeps txid) ∧
        (a.session.Tracks ∨ ¬ a.session.Rewrites b ∨
          ∀ txid, a.session.Confirmed txid → ¬ a.Keeps txid))) :
    Kept E S ⟨s', a.cache⟩ := by
  have hs := h.sound.inv.ledger.schema
  have hs' := h.sound.tryAddBlock hS hb hadd
  have hgrown : Grown b a.session.db s'.db := by
    obtain ⟨db, hl, ⟨rfl, -⟩ | ⟨-, r, ids, ha⟩⟩ := h.sound.tables_tryAddBlock hS hb hadd
    · exact (Grown.refl b h.mined).congr hl
    · exact (Grown.of_added hs h.mined ha).congr hl
  obtain ⟨hwin, hlose⟩ := h.sound.tip_tryAddBlock hS hb hadd
  by_cases hnew : a.session.db.blockByHash b.blockHash = none ∧ a.session.Wins b
  · -- no answer is kept under the new tip
    obtain ⟨hhash, htip⟩ := hwin hnew.1 hnew.2
    refine ⟨hs', hgrown.mined, h.coherent.step provenanceKey_keyed h.sound.validTip ?_
      (Or.inr ⟨hs'.validTip _ hs'.pastTip, ?_⟩)⟩
    · rintro n (hnone | ⟨c, hc, heq⟩)
      · exact Or.inl hnone
      · exact Or.inr ⟨c, hgrown.frame.blocks c hc, heq⟩
    · rw [htip]
      rintro (hnone | ⟨c, hc, heq⟩)
      · exact hhash hnone
      · have hne : c.blockHash ≠ [] := fun hnil =>
          absurd (h.sound.blockHash_valid hc) (by rw [hnil]; decide)
        have := hnew.1
        rw [heq, (blockByHash_eq_some hs).2 ⟨hne, hc, rfl⟩] at this
        cases this
  · have hloses : ¬ a.session.Wins b := fun hwins =>
      h.sound.not_wins_of_stored hS hb hadd (fun hnone => hnew ⟨hnone, hwins⟩) hwins
    obtain ⟨hpool, htable⟩ := hcond.resolve_left hnew
    refine h.stay hS hs' hgrown.mined hgrown.frame.blocks (hlose hloses) fun txid prov hk hans => ?_
    obtain ⟨t, ht⟩ : ∃ t, a.session.db.longestTip = some t := by
      obtain ⟨t, ht, -⟩ : ∃ t, a.session.db.longestTip = some t ∧
          ¬ b.rankKey < Database.rankKey t := by simpa [Session.Wins] using hloses
      exact ⟨t, ht⟩
    have htm := (h.sound.best_of_tip ht).1
    rw [ht] at hans ⊢
    rw [← hans]
    refine hgrown.provenanceAt hs (h.sound.inv.tree hS) hs'.inv.ledger.schema htm
      (fun hwalk => ?_) fun hu => ?_
    · -- the table, for a transaction of the chain
      obtain ⟨u, hwalk⟩ := Option.ne_none_iff_exists'.1 hwalk
      obtain ⟨humem, htxid⟩ := (walkTransaction_eq_some hs).1 hwalk
      rcases htable with htracks | hno | hnone
      · have htracks' := htracks.tryAddBlock hS h.sound hb
          (fun ⟨_, _, _, hwins⟩ => hloses hwins) hadd
        have hperm := htracks t ht
        have hperm' := htracks' t ((hlose hloses).trans ht)
        rw [Materializes, hgrown.frame.path (h.sound.inv.tree hS) htm] at hperm'
        exact hperm'.trans hperm.symm
      · rw [h.sound.table_tryAddBlock hS hb hloses hno hadd]
      · exact absurd hk (hnone txid ⟨t, ht, u, humem, htxid⟩)
    · refine ⟨fun t ht heq => hpool t ht txid heq hu hk, ?_⟩
      rw [pendingByTxid, h.sound.inv.tryAddBlock_pendingTxns hS hb hadd, pendingByTxid]

end Api

namespace ApiRun

variable {E : Env} {S : Set Str} {J : JsonLib} {maxPendingTxns : ℕ} {depth : Option ℕ} {a : Api}

/-- **A run without an event that puts a kept answer out of date.** -/
theorem kept (hS : E.CollisionFree (insert genesisText S))
    (h : ApiRun E J maxPendingTxns (Api.Steady S) depth a) : a.Kept E S := by
  induction h with
  | empty => exact ⟨Session.Sound.empty, fun _ hu => absurd hu List.not_mem_nil, .empty⟩
  | receive _ hrec ih =>
    obtain ⟨txn, -, htxid, -, hnew, ⟨-, -, rfl⟩ | ⟨hpool, -, db, hadd, -, rfl⟩⟩ :=
      Node.receiveTransaction_eq_ok.1 hrec
    · exact ih
    · obtain ⟨txid, timestamp, -, -, hnone, rfl⟩ := addPending_eq_ok.1 hadd
      refine ih.pool hS fun q _ _ hq => ?_
      obtain ⟨p, hp⟩ := Option.ne_none_iff_exists'.1 hq
      rw [Table.byKey_append]
      rw [pendingByTxid] at hp ⊢
      rw [hp, Option.some_or]
  | discard _ hq ih =>
    refine ih.pool hS fun txid hk hu _ => byKey_filter fun p hp htxid => ?_
    exact decide_eq_true fun heq => hq p hp heq (htxid ▸ hu) (htxid ▸ hk)
  | expire _ hq ih =>
    refine ih.pool hS fun txid hk hu _ => byKey_filter fun p hp htxid => ?_
    exact decide_eq_true fun hlt => hq p hp hlt (htxid ▸ hu) (htxid ▸ hk)
  | @process a s' now b r _ hq hp ih =>
    obtain ⟨hb, hcond⟩ := hq
    rcases Node.processBlock_eq_ok hp with ⟨-, -, rfl⟩ | ⟨hnew, -, s₁, -, htry, rfl⟩
    · exact ih
    · have h₁ := ih.block hS hb htry
        (hcond.resolve_left fun hstored => by rw [hnew] at hstored; cases hstored.2)
      rw [Node.discardConfirmedPending_eq]
      refine h₁.pool hS fun txid _ hu _ => byKey_filter fun p _ htxid => ?_
      refine decide_eq_true fun t ht heq => ?_
      exact ih.sound.stored_tryAddBlock hS hb hnew htry (List.mem_of_mem_dropLast ht) (htxid ▸ heq) hu
  | fill _ hq hadd ih =>
    obtain ⟨hb, hcond⟩ := hq
    rcases Node.addBlock_eq_ok hadd with ⟨-, htry⟩ | ⟨-, rfl⟩
    · exact ih.block hS hb htry (hcond.resolve_left fun hprunes => Bool.false_ne_true hprunes.1)
    · exact ih
  | @ask a row _ hrow ih =>
    have hdb := Session.isLongest_db a.session row
    refine ih.stay hS (ih.sound.isLongest row) ?_ ?_ ?_ fun txid prov _ hans => ?_
    · rw [hdb]
      exact ih.mined
    · rw [hdb]
      exact fun _ hc => hc
    · rw [hdb]
    · rw [hdb]
      exact hans
  | forget _ hrows ih =>
    exact ih.stay hS (ih.sound.forget hrows) ih.mined (fun _ hc => hc) rfl fun _ _ _ hans => hans
  | @request a a' txid r _ hid hreq ih =>
    rw [ih.sound.provenanceView_eq hS] at hreq
    split at hreq
    · cases hreq
      exact ih
    · cases hcur : currentProvenance txid a.session with
      | error e =>
        rw [hcur] at hreq
        cases hreq
      | ok prov =>
        rw [hcur] at hreq
        cases hreq
        cases prov with
        | none => exact ih
        | some prov =>
          exact ⟨ih.sound, ih.mined, ih.coherent.store provenanceKey_keyed ih.sound.validTip
            ih.sound.pastTip hid hcur⟩
  | drop _ hcache ih => exact ⟨ih.sound, ih.mined, ih.coherent.shrink hcache⟩

end ApiRun

/-- **Kept answers are current.**  In every run whose events put no kept answer out of
date, the view answers what the tables do, as of their tip. -/
theorem provenance_current {E : Env} {S : Set Str} {J : JsonLib} {maxPendingTxns : ℕ}
    {depth : Option ℕ} {a : Api} {txid : Str} (hS : E.CollisionFree (insert genesisText S))
    (h : ApiRun E J maxPendingTxns (Api.Steady S) depth a) (hid : validateMillHash txid = true) :
    (a.provenanceView txid).map Prod.fst =
      (currentProvenance txid a.session).map fun prov => (prov, a.session.tip) := by
  have hkept := h.kept hS
  rw [hkept.sound.provenanceView_eq hS]
  cases hcache : a.cache (provenanceKey a.session.tip txid) with
  | some prov =>
    rw [hkept.coherent.current txid prov hid hcache]
    rfl
  | none => cases currentProvenance txid a.session <;> rfl

/-! ### A request before and after a losing fork -/

theorem ApiRun.handle {E : Env} {J : JsonLib} {maxPendingTxns : ℕ}
    {Q : Api → Api.Event → Prop} {depth : Option ℕ} {a : Api} {message : Node.Message}
    (h : ApiRun E J maxPendingTxns Q depth a)
    (hq : ∀ now b, message = .block now b → Q a (.block true b)) :
    ApiRun E J maxPendingTxns Q depth
      ⟨Node.handle E J maxPendingTxns depth a.session message, a.cache⟩ := by
  cases message with
  | transaction received txid txnJson =>
    rw [Node.handle]
    split
    · rename_i r hr
      exact h.receive hr
    · exact h
  | block now b =>
    rw [Node.handle]
    split
    · rename_i r hr
      exact h.process (hq now b rfl) hr
    · exact h

/-- The node after a request. -/
def Api.serve (txid : Str) (a : Api) : Api :=
  match a.provenanceView txid with
  | .ok r => r.2
  | .error _ => a

theorem ApiRun.serve {E : Env} {J : JsonLib} {maxPendingTxns : ℕ}
    {Q : Api → Api.Event → Prop} {depth : Option ℕ} {a : Api} {txid : Str}
    (h : ApiRun E J maxPendingTxns Q depth a) (hid : validateMillHash txid = true) :
    ApiRun E J maxPendingTxns Q depth (a.serve txid) := by
  unfold Api.serve
  split
  · rename_i r hr
    exact h.request hid hr
  · exact h

/-- A first request is answered from the tables, and the answer kept. -/
theorem Api.serve_of_empty {E : Env} {S : Set Str} {s : Session} {txid : Str} {prov : Provenance}
    (hS : E.CollisionFree (insert genesisText S)) (hs : s.Sound E S)
    (h : currentProvenance txid s = .ok (some prov)) : Api.serve txid ⟨s, fun _ => none⟩ =
      ⟨s, Function.update (fun _ => none) (provenanceKey s.tip txid) (some prov)⟩ := by
  have hview : Api.provenanceView txid ⟨s, fun _ => none⟩ = _ :=
    Session.Sound.provenanceView_eq (a := ⟨s, fun _ => none⟩) hS hs
  simp only [h, Except.map] at hview
  rw [Api.serve, hview]

namespace Sample

/-- The txid of the spend. -/
def spendTxid : Str := spend.txid.getD []

/-- The node that waits for a block with the spend, once it was asked for it. -/
def servedApi : Api := Api.serve spendTxid ⟨pooledState, fun _ => none⟩

/-- It, once `left` came. -/
def staleApi : Api := ⟨Node.handle env (txnLib [spend]) 10 none servedApi.session (.block halfHour left),
  servedApi.cache⟩

theorem spendTxid_valid : validateMillHash spendTxid = true := by decide +kernel

/-- The node after one block, -/
def atGenesis : Session := Node.handle env (txnLib [spend]) 10 none {} (.block halfHour genesis)

/-- after two -/
def atRight : Session :=
  Node.handle env (txnLib [spend]) 10 none atGenesis (.block halfHour right)

/-- and after three. -/
def atTop : Session :=
  Node.handle env (txnLib [spend]) 10 none atRight (.block halfHour top)

theorem pooledState_eq : pooledState = Node.handle env (txnLib [spend]) 10 none atTop
    (.transaction 0 (spend.txid.getD []) spend.toJson) := by
  simp only [pooledState, pooledMessages, Node.handleAll, List.foldl_cons, List.foldl_nil,
    atGenesis, atRight, atTop]

theorem pooledApi_run {Q : Api → Api.Event → Prop}
    (hgenesis : Q ⟨{}, fun _ => none⟩ (.block true genesis))
    (hright : Q ⟨atGenesis, fun _ => none⟩ (.block true right))
    (htop : Q ⟨atRight, fun _ => none⟩ (.block true top)) :
    ApiRun env (txnLib [spend]) 10 Q none ⟨pooledState, fun _ => none⟩ := by
  have hstep {s : Session} {m : Node.Message}
      (h : ApiRun env (txnLib [spend]) 10 Q none ⟨s, fun _ => none⟩)
      (hq : ∀ now b, m = .block now b → Q ⟨s, fun _ => none⟩ (.block true b)) :
      ApiRun env (txnLib [spend]) 10 Q none
        ⟨Node.handle env (txnLib [spend]) 10 none s m, fun _ => none⟩ := h.handle hq
  have hblock {s : Session} {b : Block} (hq : Q ⟨s, fun _ => none⟩ (.block true b)) (now : DateTime)
      (c : Block) (hc : Node.Message.block halfHour b = .block now c) :
      Q ⟨s, fun _ => none⟩ (.block true c) := by
    obtain ⟨-, rfl⟩ := Node.Message.block.inj hc
    exact hq
  have h₁ : ApiRun env (txnLib [spend]) 10 Q none ⟨atGenesis, fun _ => none⟩ :=
    hstep .empty (hblock hgenesis)
  have h₂ : ApiRun env (txnLib [spend]) 10 Q none ⟨atRight, fun _ => none⟩ :=
    hstep h₁ (hblock hright)
  have h₃ : ApiRun env (txnLib [spend]) 10 Q none ⟨atTop, fun _ => none⟩ :=
    hstep h₂ (hblock htop)
  rw [pooledState_eq]
  exact hstep h₃ fun _ _ hb => Node.Message.noConfusion hb

end Sample

/-- The request for the spend, while it waits. -/
theorem provenance_current_spend :
    (Sample.servedApi.provenanceView Sample.spendTxid).map Prod.fst =
      (currentProvenance Sample.spendTxid Sample.servedApi.session).map
        fun prov => (prov, Sample.servedApi.session.tip) := by
  have hashed : ∀ b ∈ Sample.blocks, b.Hashed Sample.texts := fun b hb => Block.hashed_of_mem hb
  refine provenance_current Sample.collisionFree (ApiRun.serve (Sample.pooledApi_run ?_ ?_ ?_)
    Sample.spendTxid_valid) Sample.spendTxid_valid
  · exact ⟨hashed _ (by simp [Sample.blocks]), Or.inr (Or.inl (by decide +kernel))⟩
  · exact ⟨hashed _ (by simp [Sample.blocks]), Or.inr (Or.inl (by decide +kernel))⟩
  · exact ⟨hashed _ (by simp [Sample.blocks]), Or.inr (Or.inl (by decide +kernel))⟩

namespace Sample

/-- Any event, over the blocks of the fork. -/
def AnyEvent (_ : Api) (e : Api.Event) : Prop := ∀ prunes b, e = .block prunes b → b.Hashed texts

theorem anyEvent {a : Api} {b : Block} (hb : b ∈ blocks) : AnyEvent a (.block true b) := by
  intro prunes c hc
  obtain ⟨-, rfl⟩ := Api.Event.block.inj hc
  exact Block.hashed_of_mem hb

theorem staleApi_run : ApiRun env (txnLib [spend]) 10 AnyEvent none staleApi := by
  have hserved : ApiRun env (txnLib [spend]) 10 AnyEvent none servedApi :=
    ApiRun.serve (pooledApi_run (anyEvent (by simp [blocks])) (anyEvent (by simp [blocks]))
      (anyEvent (by simp [blocks]))) spendTxid_valid
  refine hserved.handle fun now b hb => ?_
  obtain ⟨-, rfl⟩ := Node.Message.block.inj hb
  exact anyEvent (by simp [blocks])

theorem states_sound : pooledState.Sound env texts ∧ prunedState.Sound env texts := by
  have hQ : ∀ (s : Session) (prunes : Bool) (b : Block), b.Hashed texts → b.Hashed texts :=
    fun _ _ _ h => h
  exact ⟨pooledState_run.sound collisionFree hQ, prunedState_run.sound collisionFree hQ⟩

/-- What the tables answer before `left` and after it. -/
theorem current_spend :
    (∃ prov, currentProvenance spendTxid pooledState = .ok (some prov) ∧ prov.status = .pending) ∧
      ∃ prov, currentProvenance spendTxid prunedState = .ok (some prov) ∧
        prov.status = .orphaned := by
  have hstatus {s : Session} (hs : s.Sound env texts) {db : Database} (hdb : s.db = db)
      {status : ProvenanceStatus}
      (h : (db.provenanceAt spendTxid db.longestTip).toOption.bind (·.map Provenance.status) =
        some status) :
      ∃ prov, currentProvenance spendTxid s = .ok (some prov) ∧ prov.status = status := by
    rw [hs.currentProvenance_eq collisionFree, hdb]
    cases hp : db.provenanceAt spendTxid db.longestTip with
    | error e => rw [hp] at h; cases h
    | ok prov =>
      rw [hp] at h
      obtain ⟨prov', rfl, hprov⟩ := Option.map_eq_some_iff.1 h
      exact ⟨prov', rfl, hprov⟩
  exact ⟨hstatus states_sound.1 states_db.1 (by decide +kernel),
    hstatus states_sound.2 states_db.2 (by decide +kernel)⟩

/-- `left` leaves the tip. -/
theorem tip_pruned : prunedState.tip = pooledState.tip := by
  rw [Session.tip, Session.tip, states_db.1, states_db.2]
  decide +kernel

theorem servedApi_eq {prov : Provenance}
    (h : currentProvenance spendTxid pooledState = .ok (some prov)) : servedApi =
      ⟨pooledState, Function.update (fun _ => none) (provenanceKey pooledState.tip spendTxid)
        (some prov)⟩ := Api.serve_of_empty collisionFree states_sound.1 h

end Sample

/-- The spend was asked for while it waited.  Then `left` mines it on the fork that lost:
the tip is the same, the tables call the spend orphaned, and the view pending. -/
theorem provenance_stale :
    ApiRun Sample.env (Sample.txnLib [Sample.spend]) 10 Sample.AnyEvent none Sample.staleApi ∧
      validateMillHash Sample.spendTxid = true ∧
      ∃ served tip current, (Sample.staleApi.provenanceView Sample.spendTxid).map Prod.fst =
          .ok (some served, tip) ∧
        currentProvenance Sample.spendTxid Sample.staleApi.session = .ok (some current) ∧
        served.status = .pending ∧ current.status = .orphaned := by
  obtain ⟨⟨served, hserved, hpending⟩, current, hcurrent, horphaned⟩ := Sample.current_spend
  have hapi := Sample.servedApi_eq hserved
  have hsession : Sample.staleApi.session = Sample.prunedState := by
    rw [Sample.staleApi, hapi, Sample.prunedState]
  have hcache : Sample.staleApi.cache
      (provenanceKey Sample.staleApi.session.tip Sample.spendTxid) = some served := by
    rw [hsession, Sample.tip_pruned, Sample.staleApi, hapi]
    simp only [Function.update_self]
  have hsound : Sample.staleApi.session.Sound Sample.env Sample.texts := by
    rw [hsession]
    exact Sample.states_sound.2
  refine ⟨Sample.staleApi_run, Sample.spendTxid_valid, served, Sample.staleApi.session.tip, current,
    ?_, ?_, hpending, horphaned⟩
  · rw [hsound.provenanceView_eq Sample.collisionFree, hcache]
    rfl
  · rw [hsession]
    exact hcurrent

end GumptionChain
