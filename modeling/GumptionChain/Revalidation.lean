import GumptionChain.RoundTrip

/-!
# Validating a chain again

`Chain.validate` runs every stored block of a chain through `validate_block` again,
from the tip the chain has by now.  Where all timestamps are canonical the stored
blocks read back with all that was hashed and signed, and the second verdict is
the first.

* `Block.Valid.withTxns`, `AcceptedOn.withTxns` — a block stays accepted when its
  transactions are exchanged for others of the same content, validly signed;
* `Audited` — what a run over canonical timestamps keeps of its blocks, and
  `NodeRun.audited`, that it does;
* `Chain.validateBlock_stored` — the second verdict on one block;
* `Chain.validate_accepts` — so a chain passes its audit at any later height.
-/

namespace GumptionChain

open Database

/-! ## Transactions of the same content -/

namespace Block

variable {E : Env} {b : Block} {ts : List Transaction}

theorem mem_of_map_bare (h : ts.map Transaction.bare = b.txns.map Transaction.bare)
    {t : Transaction} (ht : t ∈ ts) : ∃ u ∈ b.txns, u.bare = t.bare :=
  List.mem_map.1 (h ▸ List.mem_map.2 ⟨t, ht, rfl⟩)

theorem mem_dropLast_of_map_bare (h : ts.map Transaction.bare = b.txns.map Transaction.bare)
    {t : Transaction} (ht : t ∈ ts.dropLast) : ∃ u ∈ b.regularTxns, u.bare = t.bare := by
  have hd : ts.dropLast.map Transaction.bare = b.regularTxns.map Transaction.bare := by
    rw [List.map_dropLast, h, ← List.map_dropLast]
    rfl
  exact List.mem_map.1 (hd ▸ List.mem_map.2 ⟨t, ht, rfl⟩)

/-- A transaction with the content of a regular one can only be valid as one. -/
theorem Valid.regular_of_bare (hb : b.Valid E) {t u : Transaction} (hu : u ∈ b.regularTxns)
    (hut : u.bare = t.bare)
    (ht : ∃ r, (r = regularTransactionModel ∨ r = coinbaseTransactionModel) ∧ t.Valid E r) :
    t.Valid E regularTransactionModel := by
  obtain ⟨r, rfl | rfl, hv⟩ := ht
  · exact hv
  · obtain ⟨p, hp, -⟩ := hv.wellFormed.prevHash
    have hnone : u.prevHash = none := (hb.regular u hu).1.wellFormed.prevHash
    have := (congrArg Transaction.prevHash hut).symm.trans hnone
    exact absurd (hp.symm.trans this) (by simp)

/-- A transaction with the content of a coinbase can only be valid as one. -/
theorem Valid.coinbase_of_bare {t cb : Transaction} (hcb : cb.Valid E coinbaseTransactionModel)
    (hut : cb.bare = t.bare)
    (ht : ∃ r, (r = regularTransactionModel ∨ r = coinbaseTransactionModel) ∧ t.Valid E r) :
    t.Valid E coinbaseTransactionModel := by
  obtain ⟨r, rfl | rfl, hv⟩ := ht
  · obtain ⟨p, hp, -⟩ := hcb.wellFormed.prevHash
    have hnone : t.prevHash = none := hv.wellFormed.prevHash
    have := (congrArg Transaction.prevHash hut).trans hnone
    exact absurd (hp.symm.trans this) (by simp)
  · exact hv

/-- The Merkle root is made from what the identifiers commit to. -/
theorem getMerkleRoot_withTxns (h : ts.map Transaction.bare = b.txns.map Transaction.bare) :
    ({ b with txns := ts } : Block).getMerkleRoot E = b.getMerkleRoot E := by
  have hids : ∀ l : List Transaction, (canonicalOrder l).filterMap Transaction.txid =
      (canonicalOrder (l.map Transaction.bare)).filterMap Transaction.txid := by
    intro l
    have hsort : (canonicalOrder l).map Transaction.bare = canonicalOrder (l.map Transaction.bare) :=
      List.map_insertionSort _ _ Transaction.bare l fun _ _ _ _ => Iff.rfl
    rw [← hsort, List.filterMap_map]
    rfl
  rw [getMerkleRoot, getMerkleRoot, canonicalTxns, canonicalTxns, hids, h, ← hids]

/-- **A valid block stays valid with transactions of the same content.** -/
theorem Valid.withTxns (hb : b.Valid E)
    (h : ts.map Transaction.bare = b.txns.map Transaction.bare)
    (hv : ∀ t ∈ ts, ∃ r, (r = regularTransactionModel ∨ r = coinbaseTransactionModel) ∧
      t.Valid E r) : ({ b with txns := ts } : Block).Valid E := by
  obtain ⟨w1, w2, w3, w4, w5, w6, w7, w8, -, w10, w11⟩ := hb.wellFormed
  have hlen : ts.length = b.txns.length := by simpa using congrArg List.length h
  have hdrop : ts.dropLast.map Transaction.bare = b.regularTxns.map Transaction.bare := by
    rw [List.map_dropLast, h, ← List.map_dropLast]
    rfl
  refine ⟨⟨w1, w2, w3, w4, w5, w6, w7, by rwa [hlen], fun t ht => ?_, w10, w11⟩, hb.hashed,
    hb.rooted.trans (getMerkleRoot_withTxns h).symm, fun t ht => ?_, ?_, ?_⟩
  · obtain ⟨r, hr, hvt⟩ := hv t ht
    exact hvt.wellFormed.general hr
  · obtain ⟨u, hu, hut⟩ := mem_dropLast_of_map_bare h ht
    refine ⟨hb.regular_of_bare hu hut (hv t (List.mem_of_mem_dropLast ht)), ?_⟩
    have hwin := (hb.regular u hu).2
    intro blockTs txnTs hblock htxn
    have hts : u.bare.timestamp = t.bare.timestamp := congrArg _ hut
    exact hwin blockTs txnTs hblock ((congrArg iso2Dt hts).trans htxn)
  · have hchain : ∀ l : List Transaction, l.IsChain (fun p t => ¬ t.lt p) ↔
        (l.map Transaction.bare).IsChain fun p t => ¬ t.lt p := fun l => by
      rw [List.isChain_map]
      rfl
    show ts.dropLast.IsChain _
    rw [hchain, hdrop, ← hchain]
    exact hb.ordered
  · obtain ⟨cb, hlast, hcb⟩ := hb.coinbase
    have hlast' : (ts.map Transaction.bare).getLast? = some cb.bare := by
      rw [h, List.getLast?_map, show b.txns.getLast? = some cb from hlast]
      rfl
    rw [List.getLast?_map, Option.map_eq_some_iff] at hlast'
    obtain ⟨t, ht, htb⟩ := hlast'
    exact ⟨t, ht, Valid.coinbase_of_bare hcb htb.symm (hv t (List.mem_of_getLast? ht))⟩

end Block

namespace Ledger

variable {L : Ledger} {ts us : List Transaction} {cs : List Block}

/-- Which transactions a block itself has matters up to what stays of them. -/
theorem above_agrees_of_core (h : ts.map Transaction.core = us.map Transaction.core) :
    (above ts cs).Agrees (above us cs) := by
  have hfind : ∀ (l : List Transaction) txid, (l.find? fun t => t.txid = some txid).map
      Transaction.core = (l.map Transaction.core).find? fun t => t.txid = some txid := by
    intro l txid
    rw [List.find?_map]
    rfl
  refine ⟨fun txid => ?_, funext fun txid => funext fun idx => ?_⟩
  · show Except.ok _ = Except.ok _
    rw [Except.ok.injEq, hfind, hfind, List.map_append, List.map_append, h]
  · have hflat : ∀ l : List Transaction, l.flatMap Transaction.inflows =
        (l.map Transaction.core).flatMap Transaction.inflows := fun l => by
      rw [List.flatMap_map]
      rfl
    have hcount : countInflows ts txid idx = countInflows us txid idx := by
      rw [countInflows_eq_count, countInflows_eq_count, hflat ts, hflat us, h]
    show countInflows ts txid idx + _ = countInflows us txid idx + _
    rw [hcount]

theorem validateBlockTxns_of_core : ∀ {ts us : List Transaction} {m : CoinbaseMetrics},
    ts.map Transaction.core = us.map Transaction.core →
    L.validateBlockTxns m ts = L.validateBlockTxns m us
  | [], [], _, _ => rfl
  | [], _ :: _, _, h => absurd h (by simp)
  | _ :: _, [], _, h => absurd h (by simp)
  | t :: ts, u :: us, m, h => by
    rw [List.map_cons, List.map_cons, List.cons.injEq] at h
    rw [validateBlockTxns, validateBlockTxns, validateBlockTxn_of_core h.1]
    exact congrArg _ (funext fun x => validateBlockTxns_of_core h.2)

end Ledger

/-- **An accepted block stays accepted with transactions of the same content.** -/
theorem AcceptedOn.withTxns {E : Env} {S : Set Str} {bs : List Block} {b : Block}
    {ts : List Transaction} (hon : AcceptedOn E S bs b)
    (h : ts.map Transaction.bare = b.txns.map Transaction.bare)
    (hv : ∀ t ∈ ts, ∃ r, (r = regularTransactionModel ∨ r = coinbaseTransactionModel) ∧
      t.Valid E r) : AcceptedOn E S bs { b with txns := ts } := by
  have hvalid := hon.valid.withTxns h hv
  have hcore : ts.map Transaction.core = b.txns.map Transaction.core := by
    have hc : ∀ l : List Transaction, l.map Transaction.core =
        (l.map Transaction.bare).map Transaction.core := fun l => by
      rw [List.map_map]
      rfl
    rw [hc, h, ← hc]
  have hdrop : ts.dropLast.map Transaction.core = b.regularTxns.map Transaction.core := by
    rw [List.map_dropLast, hcore, ← List.map_dropLast]
    rfl
  refine ⟨hvalid, ⟨hon.hashed.1, fun t ht => ?_⟩, hon.prev, hon.link, ?_⟩
  · obtain ⟨u, hu, hut⟩ := Block.mem_of_map_bare h ht
    have hcsv : u.bare.dataCsv = t.bare.dataCsv := congrArg _ hut
    exact Set.mem_of_eq_of_mem hcsv.symm (hon.hashed.2 u hu)
  · obtain ⟨m, hm, hcoin⟩ := hon.metrics
    refine ⟨m, ?_, ?_⟩
    · show (Ledger.above ts bs).validateBlockTxns {} ts.dropLast = .ok m
      rw [(Ledger.above_agrees_of_core hcore).validateBlockTxns_eq,
        Ledger.validateBlockTxns_of_core hdrop]
      exact hm
    · obtain ⟨cb, hcb, -, hside, hprev, hreward⟩ := Ledger.validateBlockCoinbase_eq_ok.1 hcoin
      obtain ⟨cb', hlast, hcb', -⟩ := hvalid.txns_eq
      rw [Block.coinbase, if_pos hon.valid.wellFormed.isSealed] at hcb
      have hlastCore : cb'.core = cb.core := by
        have hl := congrArg List.getLast? hcore
        rw [List.getLast?_map, List.getLast?_map, show ts.getLast? = some cb' from hlast,
          show b.txns.getLast? = some cb from hcb] at hl
        exact Option.some.inj hl
      obtain ⟨-, -, -, hout, -, hp⟩ := Transaction.core_eq_iff.1 hlastCore
      refine Ledger.validateBlockCoinbase_eq_ok.2 ⟨cb', ?_, hcb', ?_, hp.trans hprev, ?_⟩
      · rw [Block.coinbase, if_pos hvalid.wellFormed.isSealed]
        exact hlast
      · rw [hout]
        exact hside
      · intro o ho
        rw [Transaction.getOutflow, hout] at ho
        exact hreward o ho

/-! ## What a run over canonical timestamps keeps -/

/-- Every timestamp of the block survives being stored. -/
structure Block.Canonical (b : Block) : Prop where
  timestamp : ∀ s, b.timestamp = some s → GumptionChain.Canonical s
  txns : ∀ t ∈ b.txns, GumptionChain.Canonical t.timestamp

instance (b : Block) : Decidable b.Canonical :=
  decidable_of_iff ((∀ s ∈ b.timestamp, Canonical s) ∧ ∀ t ∈ b.txns, Canonical t.timestamp)
    ⟨fun h => ⟨h.1, h.2⟩, fun h => ⟨h.1, h.2⟩⟩

/-- What the audit of a chain needs of the tables: they read back as what was
accepted, every block at its target and not later than `now`. -/
structure Audited (E : Env) (S : Set Str) (now : DateTime) (db : Database) : Prop where
  txnRows : ∀ u ∈ db.transactions, ∃ r,
    (r = regularTransactionModel ∨ r = coinbaseTransactionModel) ∧
      (Transaction.fromDao db u).Valid E r ∧ (Transaction.fromDao db u).dataCsv ∈ S
  accepted : ∀ r ∈ db.blocks, AcceptedChain E S (db.pathBlocks r)
  target : ∀ r ∈ db.blocks, Chain.targetAfter E (db.pathBlocks r).tail = .ok r.target
  clock : ∀ r ∈ db.blocks, r.timestamp.toSeconds ≤ now.toSeconds

namespace Audited

variable {E : Env} {S : Set Str} {now : DateTime} {db db' : Database} {b : Block} {row : BlockDAO}
  {ids : List ℕ}

theorem congr (h : Audited E S now db) (hl : db.SameLedger db') : Audited E S now db' := by
  obtain ⟨_, _, _, rfl⟩ := hl
  exact ⟨h.txnRows, h.accepted, h.target, h.clock⟩

/-- A transaction's row reads back with the transaction's content. -/
theorem bare_storedAs (hS : E.CollisionFree (insert genesisText S)) (h : Audited E S now db)
    (hext : db.Extends db') (hv : b.Valid E) (hb : b.Hashed S) (hcan : b.Canonical)
    {t : Transaction} (ht : t ∈ b.txns) {u : TransactionDAO} (hst : StoredAs db db' t u) :
    (Transaction.fromDao db' u).bare = t.bare ∧
      ∃ r, (r = regularTransactionModel ∨ r = coinbaseTransactionModel) ∧
        (Transaction.fromDao db' u).Valid E r ∧ (Transaction.fromDao db' u).dataCsv ∈ S := by
  obtain ⟨r, hr, hvt⟩ := hv.txn_valid ht
  obtain ⟨htx, hold | ⟨-, hts, hread, -⟩⟩ := hst
  · have hu := (Table.byKey_mem hold).1
    rw [hext.fromDao hu]
    obtain ⟨r', hr', hvu, huS⟩ := h.txnRows u hu
    refine ⟨?_, r', hr', hvu, huS⟩
    exact Transaction.bare_eq_of_txid hS hr' hr hvu hvt (Set.mem_insert_of_mem _ huS)
      (Set.mem_insert_of_mem _ (hb.2 t ht)) htx.symm
  · have heq : t.restamped u.timestamp = t := by
      have hstamp := (canonical_iff hts).1 (hcan.txns t ht)
      cases t
      simp_all [Transaction.restamped]
    rw [hread, heq]
    exact ⟨rfl, r, hr, hvt, hb.2 t ht⟩

/-- Storing an accepted block with canonical timestamps keeps it. -/
theorem added (hS : E.CollisionFree (insert genesisText S)) (h : Audited E S now db)
    (hl : LedgerInv E S db) (htree : db.Tree) (hb : b.Hashed S) (hcan : b.Canonical)
    (hnow : ∀ ts, b.timestampDt = some ts → ts.toSeconds ≤ now.toSeconds)
    (htarget : Chain.targetAfter E (db.ancestors b) = .ok b.target)
    (hlink : Chain.validateLink E (db.ancestors b).head? b = .ok ())
    (hm : ∃ m, (Ledger.above b.txns (db.ancestors b)).validateBlockTxns {} b.regularTxns = .ok m ∧
      Ledger.validateBlockCoinbase E b m = .ok ())
    (hv : b.Valid E) (ha : Block.Added E db db' b row ids) : Audited E S now db' := by
  have hlink' := hlink
  rw [Chain.head?_ancestors] at hlink'
  have hanc : AcceptedChain E S (db.ancestors b) := by
    unfold Database.ancestors
    cases hp : db.blockByHash b.prevHash with
    | none => exact .nil
    | some p => exact h.accepted p (blockByHash_mem hp).1
  have hprev : ∀ c, (db.ancestors b).head? = some c → b.prevHash = c.blockHash := by
    intro c hc
    rw [Chain.head?_ancestors] at hc
    obtain ⟨p, hp, rfl⟩ := Option.map_eq_some_iff.1 hc
    exact (blockByHash_mem hp).2
  have hon : AcceptedOn E S (db.ancestors b) b := ⟨hv, hb, hprev, hlink, hm⟩
  have hids : (b.txns.map Transaction.txid).Nodup := by
    have hall := hon.txids hS hanc (hanc.sound hS)
    rw [List.map_append] at hall
    exact (List.nodup_append.1 hall).1
  have htxns := ha.map_txns Transaction.bare (fun _ => rfl) hl.schema hv hids fun t ht u _ hst =>
    (h.bare_storedAs hS ha.extends_ hv hb hcan ht hst).1
  have hread : ∀ t ∈ (Block.fromDao db' row).txns, ∃ r,
      (r = regularTransactionModel ∨ r = coinbaseTransactionModel) ∧ t.Valid E r := by
    intro t ht
    obtain ⟨u, hu, rfl⟩ := mem_fromDao_txns.1 ht
    obtain ⟨t, ht', hst⟩ := ha.exists_txn hl.schema hu
    obtain ⟨-, r, hr, hvu, -⟩ := h.bare_storedAs hS ha.extends_ hv hb hcan ht' hst
    exact ⟨r, hr, hvu⟩
  -- the new row is the block with transactions of the same content
  have hrow : Block.fromDao db' row = { b with txns := (Block.fromDao db' row).txns } := by
    rw [← ha.header_eq hcan.timestamp]
  have hnew : AcceptedOn E S (db.ancestors b) (Block.fromDao db' row) := by
    rw [hrow]
    exact hon.withTxns htxns hread
  refine ⟨fun u hu => ?_, fun r hr => ?_, fun r hr => ?_, fun r hr => ?_⟩
  · rcases ha.sourced u hu with hu' | ⟨t, ht, hst⟩
    · rw [ha.extends_.fromDao hu']
      exact h.txnRows u hu'
    · exact (h.bare_storedAs hS ha.extends_ hv hb hcan ht hst).2
  all_goals rw [ha.blocks, List.mem_append, List.mem_singleton] at hr
  · rcases hr with hr | rfl
    · rw [hl.pathBlocks_old ha htree hr]
      exact h.accepted r hr
    · rw [hl.pathBlocks_new ha htree hlink']
      exact hanc.cons hnew
  · rcases hr with hr | rfl
    · rw [hl.pathBlocks_old ha htree hr]
      exact h.target r hr
    · rw [hl.pathBlocks_new ha htree hlink', List.tail_cons, htarget]
      exact congrArg Except.ok (congrArg Block.target hrow).symm
  · rcases hr with hr | rfl
    · exact h.clock r hr
    · obtain ⟨-, -, -, hdt, -⟩ := Block.toRow_eq_ok ha.toRow
      exact hnow _ hdt

end Audited

/-- The additions that an audit at `now` is about. -/
def AuditedAddition (S : Set Str) (now t : DateTime) (b : Block) : Prop :=
  b.Hashed S ∧ b.Canonical ∧ t.toSeconds ≤ now.toSeconds

/-- **A run over canonical timestamps keeps what its audit needs.** -/
theorem NodeRun.audited {E : Env} {S : Set Str} {now : DateTime} {depth : Option ℕ} {s : Session}
    (hS : E.CollisionFree (insert genesisText S)) (h : NodeRun E (AuditedAddition S now) depth s) :
    Audited E S now s.db := by
  refine ledger_induction (motive := Audited E S now) hS (fun _ _ hb => hb.1) ?_ ?_ ?_ h
  · exact ⟨by simp, by simp, by simp, by simp⟩
  · exact fun hl ih => ih.congr hl
  · intro s t b db row ids hinv hP _ hval ha ih
    obtain ⟨hv, hclock, -, hlink, htarget, hm⟩ := Chain.validateAbove_eq_ok.1 hval
    refine ih.added hS hinv.ledger (hinv.tree hS) hP.1 hP.2.1 (fun ts hts => ?_) htarget hlink hm
      hv ha
    rw [Chain.validateClock, hts] at hclock
    exact (ensure_eq_ok.1 hclock).trans hP.2.2

/-! ## The second verdict -/

namespace Chain

variable {E : Env} {S : Set Str} {now : DateTime} {s : Session} {c : ChainDAO} {t r : BlockDAO}

/-- What `validate_block` asks for, as one rule. -/
theorem validateBlock_of {c : Chain} {b : Block} (hv : b.Valid E)
    (hclock : validateClock now b = .ok ()) (hgen : validateGenesis E s.db b = .ok ())
    (hlink : validateLink E (Block.fromDb s.db b.prevHash) b = .ok ())
    (htarget : c.blockTarget E (some b) s = .ok (b.target, s))
    (hm : ∃ m, (Ledger.ofDb s.db b).validateBlockTxns {} b.regularTxns = .ok m ∧
      Ledger.validateBlockCoinbase E b m = .ok ()) : c.validateBlock E now b s = .ok s := by
  obtain ⟨m, hm, hcoin⟩ := hm
  have hwrap := Ledger.wrapCoinbaseError_eq_ok.2 hcoin
  unfold validateBlock
  refine bind_eq_ok.2 ⟨(), Block.validate_eq_ok.2 hv, bind_eq_ok.2 ⟨(), hclock, ?_⟩⟩
  refine bind_eq_ok.2 ⟨(), hgen, bind_eq_ok.2 ⟨(), hlink, bind_eq_ok.2 ⟨_, htarget, ?_⟩⟩⟩
  exact ensure_bind.2 ⟨rfl, bind_eq_ok.2 ⟨m, hm, bind_eq_ok.2 ⟨(), hwrap, rfl⟩⟩⟩

/-- A chain row's handle finds its row, and moves nothing. -/
theorem toDao_fromDao (hr : s.db.ChainRows) (hc : c ∈ s.db.chains)
    (ht : s.db.blockByHash (some c.blockHash) = some t) :
    (fromDao c).toDao s = .ok (s.db.chainDao (fromDao c).blockHash none, s) := by
  have hd : s.db.chainDao (some c.blockHash) none = some c :=
    (chainDao_eq_some hr (blockByHash_ne_nil ht)).2 ⟨hc, rfl⟩
  show toDao ⟨some c.id, some c.blockHash⟩ s = .ok (s.db.chainDao (some c.blockHash) none, s)
  rw [toDao]
  simp only
  rw [hd]

/-- **The second verdict on a stored block is the first**, whatever stands above
it. -/
theorem validateBlock_stored (hS : E.CollisionFree (insert genesisText S)) (hinv : s.Inv E S)
    (hone : ∀ x ∈ s.db.blocks, ∀ y ∈ s.db.blocks, x.idx = 0 → y.idx = 0 → x = y)
    (h : Audited E S now s.db) (hc : c ∈ s.db.chains)
    (ht : s.db.blockByHash (some c.blockHash) = some t) (hr : r ∈ s.db.path t) :
    (fromDao c).validateBlock E now (Block.fromDao s.db r) s = .ok s := by
  have hs := hinv.ledger.schema
  have htree := hinv.tree hS
  have htm := (blockByHash_mem ht).1
  have hrm := htree.mem_blocks htm hr
  have hstored : s.db.blockByHash (some r.blockHash) = some r := by
    exact (blockByHash_eq_some hs).2 ⟨hinv.ledger.blockHash_ne_nil hrm, hrm, rfl⟩
  obtain ⟨-, -, -, -, -, hcons, -⟩ := hinv.ledger.accepted_cons hrm
  have hon : AcceptedOn E S (s.db.ancestors (Block.fromDao s.db r)) (Block.fromDao s.db r) := by
    have hchain := h.accepted r hrm
    rw [hcons] at hchain
    cases hchain with
    | cons _ hon => exact hon
  have hlink := hon.link
  rw [head?_ancestors] at hlink
  refine validateBlock_of hon.valid ?_ ?_ hlink ?_ ?_
  · have hdt : (Block.fromDao s.db r).timestampDt = some r.timestamp := iso2Dt_dt2Iso r.timestamp
    rw [validateClock, hdt]
    exact ensure_of (h.clock r hrm)
  · -- the genesis that the check finds is this one
    unfold validateGenesis
    split_ifs with hg
    · have hz : r.idx = 0 := Option.some.inj hg.2
      have hfind : s.db.blockByIdx 0 = .ok (some r) := by
        refine scalarOneOrNone_of_mem ((List.Nodup.of_map _ hs.blockIds).filter _) fun x => ?_
        rw [List.mem_filter, decide_eq_true_eq, Option.some.injEq]
        exact ⟨fun hx => hone r hrm x hx.1 hz hx.2, fun hx => hx ▸ ⟨hrm, hz⟩⟩
      rw [Block.genesisFromDb, hfind]
      exact ensure_of rfl
    · rfl
  · -- the target is asked for from the tip, `d` places above
    have htarget := h.target r hrm
    rw [hcons, List.tail_cons] at htarget
    obtain ⟨above, hsplit, -⟩ := Forest.path_split htree.ranked htm hr
    cases hp : s.db.prev r with
    | none =>
      have hz : r.idx = 0 := hinv.ledger.linked.root r hrm hp
      have hnil : s.db.ancestors (Block.fromDao s.db r) = [] := by
        have hlen := congrArg List.length hcons
        rw [pathBlocks, List.length_map, path, Forest.path_none hp] at hlen
        exact List.eq_nil_of_length_eq_zero (Nat.succ.inj hlen).symm
      rw [hnil] at htarget
      have hlast : (fromDao c).lastBlock s.db = some (Block.fromDao s.db t) := by
        rw [lastBlock, Block.fromDb]
        exact congrArg (Option.map (Block.fromDao s.db)) ht
      rw [show (Block.fromDao s.db r).target = maxTarget from (Except.ok.inj htarget).symm,
        blockTarget, hlast]
      simp only
      rw [show (Block.fromDao s.db r).idx = some 0 from congrArg some hz]
      exact if_pos rfl
    | some p =>
      have hidx := hinv.ledger.idx r hrm p hp
      have hpath : s.db.path r = r :: s.db.path p := Forest.path_some htree.ranked hrm hp
      have hlen : above.length + r.idx = t.idx := by
        have hl := congrArg List.length hsplit
        rw [← path, ← path, List.length_append, htree.length_path hinv.ledger.linked.root htm,
          htree.length_path hinv.ledger.linked.root hrm] at hl
        omega
      have hdrop : (s.db.pathBlocks t).drop (above.length + 1) =
          s.db.ancestors (Block.fromDao s.db r) := by
        have hd : (s.db.pathBlocks t).drop above.length = s.db.pathBlocks r := by
          rw [pathBlocks, pathBlocks, path, hsplit, ← List.map_drop, List.drop_left]
          rfl
        rw [← List.drop_drop, hd, hcons, List.drop_one, List.tail_cons]
      rw [blockTarget_below hs htree hinv.ledger.linked hinv.chains
        (toDao_fromDao hinv.chains hc ht) ht (congrArg some hidx)
        (show t.idx = p.idx + (above.length + 1) by omega), hdrop, htarget]
      rfl
  · obtain ⟨m, hm, hcoin⟩ := hon.metrics
    obtain ⟨ms, hms, rfl⟩ := Ledger.validateBlockTxns_eq_ok.1 hm
    refine ⟨_, ?_, hcoin⟩
    rw [Ledger.ofDb_saved hs htree hstored, hcons]
    exact Ledger.validateBlockTxns_eq_ok.2 ⟨ms, Ledger.validateBlockTxns_settled hms, rfl⟩

theorem wrapBlockError_ok {α : Type} (b : Block) (a : α) : wrapBlockError b (.ok a) = .ok a := rfl

/-- The loop over a chain comes to its end. -/
theorem validateBlocks_path (hinv : s.Inv E S) (htree : s.db.Tree) {c : Chain}
    (hall : ∀ x ∈ s.db.path t, c.validateBlock E now (Block.fromDao s.db x) s = .ok s)
    (htm : t ∈ s.db.blocks) : ∀ fuel, t.idx < fuel →
    c.validateBlocks E now fuel (Block.fromDao s.db t) s = .ok s := by
  refine Forest.path_induction htree.ranked
    (motive := fun t => (∀ x ∈ s.db.path t, c.validateBlock E now (Block.fromDao s.db x) s = .ok s) →
      ∀ fuel, t.idx < fuel → c.validateBlocks E now fuel (Block.fromDao s.db t) s = .ok s)
    ?_ ?_ t htm hall
  · intro t htm hp hall fuel hf
    obtain ⟨n, rfl⟩ : ∃ n, fuel = n + 1 := ⟨fuel - 1, by omega⟩
    have hprev : Block.fromDb s.db (Block.fromDao s.db t).prevHash = none := by
      rw [Block.fromDb, show (Block.fromDao s.db t).prevHash = some t.prevHash from rfl,
        hinv.ledger.linked.prev t htm, hp]
      rfl
    have hgen : isGenesisBlock E (Block.fromDao s.db t) = true :=
      decide_eq_true (congrArg some ((hinv.ledger.linked.genesis t htm).1 hp))
    rw [validateBlocks, hall t (Forest.self_mem_path t), wrapBlockError_ok, ok_bind, hprev]
    exact if_pos hgen
  · intro t p htm hpm hp ih hall fuel hf
    obtain ⟨n, rfl⟩ : ∃ n, fuel = n + 1 := ⟨fuel - 1, by omega⟩
    have hprev : Block.fromDb s.db (Block.fromDao s.db t).prevHash =
        some (Block.fromDao s.db p) := by
      rw [Block.fromDb, show (Block.fromDao s.db t).prevHash = some t.prevHash from rfl,
        hinv.ledger.linked.prev t htm, hp]
      rfl
    have hgen : isGenesisBlock E (Block.fromDao s.db t) ≠ true := by
      intro hg
      have hnone := (hinv.ledger.linked.genesis t htm).2 (Option.some.inj (of_decide_eq_true hg))
      exact absurd (hp.symm.trans hnone) (by simp)
    have hpath : s.db.path t = t :: s.db.path p := Forest.path_some htree.ranked htm hp
    have hidx := htree.idx t htm p hp
    rw [validateBlocks, hall t (Forest.self_mem_path t), wrapBlockError_ok, ok_bind, hprev]
    simp only
    rw [if_neg hgen]
    exact ih (fun x hx => hall x (hpath ▸ List.mem_cons_of_mem _ hx)) n (by omega)

/-- **Validating again accepts what was accepted.**  After any run of
`Node.add_block` over blocks with canonical timestamps, `validate` succeeds on every
chain row, at a clock not earlier than those the blocks were added at. -/
theorem validate_accepts {depth : Option ℕ} (hS : E.CollisionFree (insert genesisText S))
    (h : NodeRun E (AuditedAddition S now) depth s) (hc : c ∈ s.db.chains) :
    (fromDao c).validate E now s = .ok s := by
  have hinv := h.inv hS fun _ _ hb => hb.1
  have hs := hinv.ledger.schema
  have haud := h.audited hS
  obtain ⟨t, htm, -, hhash, -⟩ := hinv.chains.tip c hc
  have hne : t.blockHash ≠ [] := hinv.ledger.blockHash_ne_nil htm
  have ht : s.db.blockByHash (some c.blockHash) = some t :=
    (blockByHash_eq_some hs).2 ⟨hhash ▸ hne, htm, hhash.symm⟩
  have hlast : (fromDao c).lastBlock s.db = some (Block.fromDao s.db t) := by
    show (s.db.blockByHash (some c.blockHash)).map (Block.fromDao s.db) = _
    rw [ht, Option.map_some]
  rw [validate, hlast]
  refine validateBlocks_path hinv (hinv.tree hS) (fun r hr => ?_) htm _ (Nat.lt_succ_self _)
  exact validateBlock_stored hS hinv (h.oneGenesis hS fun _ _ hb => hb.1) haud hc ht hr

/-- The chain of the left branch. -/
theorem validate_accepts_left :
    (fromDao ⟨1, Sample.left.blockHash.getD [], 2, 1⟩).validate Sample.env Sample.day Sample.state =
      .ok Sample.state := by
  have hadd : ∀ call ∈ [Sample.genesis, Sample.left, Sample.right].map Sample.call,
      AuditedAddition Sample.texts Sample.day call.now call.block := by
    intro call hcall
    have hhash := Sample.hashed (by simp [Sample.blocks]) call hcall
    obtain ⟨b, hb, rfl⟩ := List.mem_map.1 hcall
    have hcan : ∀ b ∈ [Sample.genesis, Sample.left, Sample.right], b.Canonical := by decide +kernel
    exact ⟨hhash, hcan b hb, le_refl _⟩
  have hrun : NodeRun Sample.env (AuditedAddition Sample.texts Sample.day) none Sample.state :=
    NodeRun.empty.processAll hadd
  exact validate_accepts Sample.collisionFree hrun (by rw [Sample.state_db]; decide +kernel)

end Chain

end GumptionChain
