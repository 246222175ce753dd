import GumptionChain.Accepted
import GumptionChain.ChainRows

/-!
# Reachable states

The invariant of the tables, and the states that additions of blocks lead to.

* `LedgerInv` — every stored root path reads back as a chain of accepted blocks,
  every transaction row as an accepted transaction, and the links between rows
  are those the hashes name;
* `LedgerInv.added` — storing an accepted block keeps it;
* `ReachableBy`, `Reachable` — empty tables, then any additions through
  `Node.add_block` or `Chain.add_block`, on any handles, with any row objects kept
  or dropped;
* `Reachable.inv` — the invariant holds in every reachable state;
* `utxo_sound` — so every root path is UTXO sound.
-/

namespace GumptionChain

open Database

/-! ## Blocks read back -/

/-- A block as it reads back: the same header, and the same transactions up to
order, signatures and the spelling of timestamps. -/
structure Block.Same (c b : Block) : Prop where
  idx : c.idx = b.idx
  blockHash : c.blockHash = b.blockHash
  prevHash : c.prevHash = b.prevHash
  target : c.target = b.target
  timestamp : c.timestampDt = b.timestampDt
  txns : (c.txns.map Transaction.core).Perm (b.txns.map Transaction.core)

/-- Chains that read back the same have the same transactions. -/
theorem Block.Same.txnsOf {cs bs : List Block} (h : List.Forall₂ Block.Same cs bs) :
    ((txnsOf cs).map Transaction.core).Perm ((txnsOf bs).map Transaction.core) := by
  induction h with
  | nil => exact List.Perm.refl _
  | cons h _ ih =>
    rw [Database.txnsOf, Database.txnsOf, List.flatMap_cons, List.flatMap_cons, List.map_append,
      List.map_append]
    exact h.txns.append ih

theorem Block.Same.validateLink {E : Env} {c c' b : Block} (h : c.Same c') :
    Chain.validateLink E (some c) b = Chain.validateLink E (some c') b := by
  unfold Chain.validateLink Chain.validateNotEarlier Chain.prevIndex
  rw [Option.bind_some, Option.bind_some, Option.bind_some, Option.bind_some, Option.bind_some,
    Option.bind_some, h.timestamp, h.idx, h.blockHash,
    ensure_congr (d := ¬ (some c' = none ∧ isGenesisBlock E b = false)) (by simp)]

/-- Chains that read back the same have the same block on top. -/
theorem Block.Same.head {cs bs : List Block} (h : List.Forall₂ Block.Same cs bs) :
    (cs.head? = none ∧ bs.head? = none) ∨
      ∃ c q, cs.head? = some c ∧ bs.head? = some q ∧ c.Same q := by
  cases h with
  | nil => exact Or.inl ⟨rfl, rfl⟩
  | cons hc _ => exact Or.inr ⟨_, _, rfl, rfl, hc⟩

/-! ## The invariant of the block tables -/

/-- What holds of the block tables in every reachable state.  `S` holds the texts
that the run has hashed. -/
structure LedgerInv (E : Env) (S : Set Str) (db : Database) : Prop where
  schema : db.Schema E
  named : db.FlowNames
  spends : ∀ i ∈ db.inflows, ∃ o ∈ db.outflows, i.outflowId = some o.id ∧
    (o.txid, o.idx) = (i.outflowTxid, i.outflowIdx)
  idx : ∀ b ∈ db.blocks, ∀ p, db.prev b = some p → b.idx = p.idx + 1
  linked : db.Linked E
  txnRows : ∀ u ∈ db.transactions, ∃ (t : Transaction) (r : TransactionRules),
    (r = regularTransactionModel ∨ r = coinbaseTransactionModel) ∧ t.Valid E r ∧ t.dataCsv ∈ S ∧
      (Transaction.fromDao db u).core = t.core
  accepted : ∀ r ∈ db.blocks, ∃ bs, AcceptedChain E S bs ∧
    List.Forall₂ Block.Same (db.pathBlocks r) bs

namespace LedgerInv

variable {E : Env} {S : Set Str} {db db' : Database} {b : Block} {row : BlockDAO} {ids : List ℕ}

theorem empty : LedgerInv E S {} where
  schema := by constructor <;> simp
  named := ⟨by simp, by simp⟩
  spends := by simp
  idx := by simp
  linked := ⟨by simp, by simp, by simp [RootsAtZero]⟩
  txnRows := by simp
  accepted := by simp

theorem congr (h : LedgerInv E S db) (hl : db.SameLedger db') : LedgerInv E S db' := by
  have hs := hl.schema h.schema
  obtain ⟨_, _, _, rfl⟩ := hl
  exact ⟨hs, ⟨h.named.outflows, h.named.inflows⟩, h.spends, h.idx,
    ⟨h.linked.prev, h.linked.genesis, h.linked.root⟩, h.txnRows, h.accepted⟩

/-- A stored block with its path, as the chain of accepted blocks it reads back as. -/
theorem accepted_cons (h : LedgerInv E S db) {r : BlockDAO} (hr : r ∈ db.blocks) :
    ∃ b bs, AcceptedChain E S bs ∧ AcceptedOn E S bs b ∧ (Block.fromDao db r).Same b ∧
      db.pathBlocks r = Block.fromDao db r :: db.ancestors (Block.fromDao db r) ∧
      List.Forall₂ Block.Same (db.ancestors (Block.fromDao db r)) bs := by
  have hcons : db.pathBlocks r = Block.fromDao db r :: db.ancestors (Block.fromDao db r) := by
    have hranked : Forest.Ranked (· ∈ db.blocks) db.prev BlockDAO.idx :=
      fun c p hc hp => ⟨(prev_mem hp).1, h.idx c hc p hp⟩
    unfold Database.ancestors
    rw [show (Block.fromDao db r).prevHash = some r.prevHash from rfl, h.linked.prev r hr]
    cases hp : db.prev r with
    | none =>
      rw [pathBlocks, path, Forest.path_none hp]
      rfl
    | some p =>
      rw [pathBlocks, path, Forest.path_some hranked hr hp]
      rfl
  obtain ⟨bs, hbs, hsame⟩ := h.accepted r hr
  rw [hcons] at hsame
  cases hsame with
  | @cons _ b _ bs hhead hrest =>
    cases hbs with
    | cons hbs hon => exact ⟨b, bs, hbs, hon, hhead, hcons, hrest⟩

/-- A stored block's hash is not empty. -/
theorem blockHash_ne_nil (h : LedgerInv E S db) {r : BlockDAO} (hr : r ∈ db.blocks) :
    r.blockHash ≠ [] := by
  obtain ⟨b, bs, -, hon, hhead, -⟩ := h.accepted_cons hr
  exact hon.valid.blockHash_ne_nil hhead.blockHash.symm

/-- The paths of the tables are sound. -/
theorem sound (hS : E.CollisionFree (insert genesisText S)) (h : LedgerInv E S db) {r : BlockDAO}
    (hr : r ∈ db.blocks) : UtxoSound (txnsOf (db.pathBlocks r)) := by
  obtain ⟨bs, hbs, hsame⟩ := h.accepted r hr
  exact (hbs.sound hS).of_core (Block.Same.txnsOf hsame).symm

/-- The block tables are fit for the fast queries, with any root path in the
table. -/
theorem tree (hS : E.CollisionFree (insert genesisText S)) (h : LedgerInv E S db)
    (htable : db.longestChainBlocks = [] ∨ ∃ t ∈ db.blocks, db.Materializes t) : db.Tree := by
  refine ⟨h.idx, fun r hr => ?_, htable⟩
  have hnodup := (h.sound hS hr).txids
  have hperm : ((txnsOf (db.pathBlocks r)).map Transaction.txid).Perm
      ((db.pathRows r).map fun u => (some u.txid : Option Str)) := by
    refine ((txnsOf_pathBlocks_perm db r).map Transaction.txid).trans (List.Perm.of_eq ?_)
    rw [List.map_map]
    rfl
  refine List.Nodup.of_map some ?_
  rw [List.map_map]
  exact hperm.nodup_iff.1 hnodup

/-- No stored block has the hash that stands before a first block. -/
theorem blockHash_ne_genesis (hS : E.CollisionFree (insert genesisText S)) (h : LedgerInv E S db)
    {r : BlockDAO} (hr : r ∈ db.blocks) : r.blockHash ≠ E.genesisHash := by
  obtain ⟨b, bs, -, hon, hhead, -⟩ := h.accepted_cons hr
  intro heq
  refine AcceptedChain.blockHash_ne_genesis hS hon.valid hon.hashed ?_
  rw [← hhead.blockHash, ← heq]
  rfl

/-- The ancestors of a block read back as an accepted chain. -/
theorem ancestors (h : LedgerInv E S db) (b : Block) : ∃ bs, AcceptedChain E S bs ∧
    List.Forall₂ Block.Same (db.ancestors b) bs := by
  unfold Database.ancestors
  cases hp : db.blockByHash b.prevHash with
  | none => exact ⟨[], .nil, .nil⟩
  | some p => exact h.accepted p (blockByHash_mem hp).1

/-- **An accepted block is accepted on top of an accepted chain.** -/
theorem acceptedOn (hS : E.CollisionFree (insert genesisText S)) (h : LedgerInv E S db)
    (hv : b.Valid E) (hb : b.Hashed S)
    (hlink : Chain.validateLink E (Block.fromDb db b.prevHash) b = .ok ())
    (hm : ∃ m, (Ledger.above b.txns (db.ancestors b)).validateBlockTxns {} b.regularTxns = .ok m ∧
      Ledger.validateBlockCoinbase E b m = .ok ()) :
    ∃ bs, AcceptedChain E S bs ∧ List.Forall₂ Block.Same (db.ancestors b) bs ∧
      AcceptedOn E S bs b := by
  obtain ⟨bs, hbs, hsame⟩ := h.ancestors b
  have hperm := Block.Same.txnsOf hsame
  have hagree : (Ledger.above b.txns (db.ancestors b)).Agrees (Ledger.above b.txns bs) :=
    Ledger.above_agrees hperm ((hbs.sound hS).of_core hperm.symm).txids
  rw [← Chain.head?_ancestors] at hlink
  have hprev : ∀ c, (db.ancestors b).head? = some c → b.prevHash = c.blockHash := by
    intro c hc
    rw [Chain.head?_ancestors] at hc
    obtain ⟨p, hp, rfl⟩ := Option.map_eq_some_iff.1 hc
    exact (blockByHash_mem hp).2
  have hon : (∀ q, bs.head? = some q → b.prevHash = q.blockHash) ∧
      Chain.validateLink E bs.head? b = .ok () := by
    rcases Block.Same.head hsame with ⟨hc, hq⟩ | ⟨c, q, hc, hq, hcq⟩
    · rw [hq, ← hc]
      exact ⟨fun q' hq' => absurd (hc.symm.trans hq') (by simp), hlink⟩
    · rw [hc, hcq.validateLink] at hlink
      rw [hq]
      refine ⟨fun q' hq' => ?_, hlink⟩
      rw [← Option.some.inj hq', ← hcq.blockHash]
      exact hprev c hc
  obtain ⟨m, hm, hcb⟩ := hm
  exact ⟨bs, hbs, hsame, hv, hb, hon.1, hon.2, m, hagree.validateBlockTxns_eq _ _ ▸ hm, hcb⟩

/-! ## Storing an accepted block -/

section Added

variable (hS : E.CollisionFree (insert genesisText S)) (h : LedgerInv E S db)
  (ha : Block.Added E db db' b row ids) (hv : b.Valid E) (hb : b.Hashed S)

include hS h hv hb in
/-- A transaction of the block reads back with its own content, shared row or
not. -/
theorem storedAs_core {t : Transaction} {u : TransactionDAO} (hext : db.Extends db')
    (ht : t ∈ b.txns) (hst : StoredAs db db' t u) : (Transaction.fromDao db' u).core = t.core := by
  rcases hst.2 with hold | ⟨-, -, hread, -⟩
  · have hu := (Table.byKey_mem hold).1
    obtain ⟨t₀, r₀, hr₀, hv₀, hS₀, hcore⟩ := h.txnRows u hu
    obtain ⟨r, hr, hvt⟩ := hv.txn_valid ht
    have htxid : t.txid = t₀.txid := hst.1.trans (Transaction.core_eq_iff.1 hcore).1
    rw [hext.fromDao hu, hcore]
    exact (Transaction.core_eq_of_bare (Transaction.bare_eq_of_txid hS hr hr₀ hvt hv₀
      (Set.mem_insert_of_mem _ (hb.2 t ht)) (Set.mem_insert_of_mem _ hS₀) htxid)).symm
  · rw [hread, Transaction.core_restamped]

include hS h ha hv hb in
/-- The new row reads back as the block. -/
theorem same_row (hids : (b.txns.map Transaction.txid).Nodup) :
    (Block.fromDao db' row).Same b := by
  obtain ⟨hhash, hidx, hprev, hts, -, -, htarget, -⟩ := Block.toRow_eq_ok ha.toRow
  refine ⟨hidx.symm, hhash.symm, hprev.symm, htarget.symm, ?_, ?_⟩
  · rw [hts]
    exact iso2Dt_dt2Iso row.timestamp
  · have horder : (Block.fromDao db' row).txns.Perm
        ((db'.rowsOf row.id).map (Transaction.fromDao db')) :=
      (List.perm_insertionSort _ _).trans ((Table.orderBy_perm _ _).map _)
    refine (horder.map _).trans ?_
    rw [List.map_map]
    refine (List.perm_ext_iff_of_nodup ?_ ?_).2 fun x => ?_
    · refine List.Nodup.map_on (fun u hu v hv heq => ?_) (rowsOf_nodup ha.schema _)
      refine List.inj_on_of_nodup_map ha.schema.transactionTxids (rowsOf_subset hu)
        (rowsOf_subset hv) ?_
      exact Option.some.inj (Transaction.core_eq_iff.1 heq).1
    · refine List.Nodup.of_map Transaction.txid ?_
      rw [List.map_map]
      exact hids
    · rw [List.mem_map, List.mem_map]
      constructor
      · rintro ⟨u, hu, rfl⟩
        obtain ⟨t, ht, hst⟩ := ha.exists_txn h.schema hu
        exact ⟨t, ht, (storedAs_core hS h hv hb ha.extends_ ht hst).symm⟩
      · rintro ⟨t, ht, rfl⟩
        obtain ⟨u, hu, hst⟩ := ha.exists_row h.schema ht
        exact ⟨u, hu, storedAs_core hS h hv hb ha.extends_ ht hst⟩

include h ha in
/-- Every inflow row is linked to the row of the outflow it names. -/
theorem spends_added : ∀ i ∈ db'.inflows, ∃ o ∈ db'.outflows, i.outflowId = some o.id ∧
    (o.txid, o.idx) = (i.outflowTxid, i.outflowIdx) := by
  intro i hi
  obtain ⟨u, hu, hid⟩ := ha.schema.inflowTransaction i hi
  have hiu : i ∈ db'.inflowsOf u := mem_inflowsOf.2 ⟨hi, hid.symm⟩
  have hold : u ∈ db.transactions → ∃ o ∈ db'.outflows, i.outflowId = some o.id ∧
      (o.txid, o.idx) = (i.outflowTxid, i.outflowIdx) := by
    intro hu'
    rw [ha.extends_.inflowsOf hu'] at hiu
    obtain ⟨o, ho, hlink⟩ := h.spends i (mem_inflowsOf.1 hiu).1
    exact ⟨o, ha.extends_.mem_outflows ho, hlink⟩
  rcases ha.sourced u hu with hu' | ⟨t, -, -, hstored | ⟨-, -, -, hlinks⟩⟩
  · exact hold hu'
  · exact hold (Table.byKey_mem hstored).1
  · obtain ⟨o', -, hsome⟩ := ha.schema.inflowOutflow i hi
    have hlink := hlinks i hiu
    rw [hsome] at hlink
    obtain ⟨o, ho, hoid⟩ := Option.map_eq_some_iff.1 hlink.symm
    obtain ⟨hom, hkey⟩ := Table.byKey_mem ho
    exact ⟨o, ha.extends_.mem_outflows hom, by rw [hsome, hoid], hkey⟩

include hS h ha hv hb in
/-- Links go on following the hashes. -/
theorem linked_added (hnew : db.blockByHash b.blockHash = none)
    (hlink : Chain.validateLink E (Block.fromDb db b.prevHash) b = .ok ()) : db'.Linked E := by
  have hframe := ha.frame h.schema
  have hgen : row.blockHash ≠ E.genesisHash := fun heq =>
    AcceptedChain.blockHash_ne_genesis hS hv hb (ha.blockHash_row.trans (congrArg some heq))
  have hnone : db.blockByHash b.prevHash = none → row.prevHash = E.genesisHash ∧ row.idx = 0 := by
    intro hp
    obtain ⟨hg, hi⟩ := (Chain.validateLink_eq_ok hlink).1 (by rw [Block.fromDb, hp]; rfl)
    rw [isGenesisBlock, decide_eq_true_eq, ha.prevHash_row, Option.some.injEq] at hg
    rw [ha.idx_row, Option.some.injEq] at hi
    exact ⟨hg, hi⟩
  have hfirst : db.blockByHash (some E.genesisHash) = none := by
    cases hp : db.blockByHash (some E.genesisHash) with
    | none => rfl
    | some p =>
      obtain ⟨hpm, hph⟩ := blockByHash_mem hp
      exact absurd (Option.some.inj hph).symm (h.blockHash_ne_genesis hS hpm)
  have hother : ∀ x, x = E.genesisHash ∨ db.blockByHash (some x) ≠ none →
      db'.blockByHash (some x) = db.blockByHash (some x) := by
    rintro x hx
    refine ha.blockByHash_of_ne fun heq => ?_
    obtain rfl := Option.some.inj heq
    rcases hx with hx | hx
    · exact hgen hx
    · exact hx (ha.blockHash_row ▸ hnew)
  refine ⟨fun r hr => ?_, fun r hr => ?_, fun r hr hp => ?_⟩
  all_goals rw [ha.blocks, List.mem_append, List.mem_singleton] at hr
  · rcases hr with hr | rfl
    · rw [hframe.prev r hr, ← h.linked.prev r hr]
      refine hother _ ?_
      by_cases hp : db.blockByHash (some r.prevHash) = none
      · exact Or.inl ((h.linked.genesis r hr).1 ((h.linked.prev r hr).symm.trans hp))
      · exact Or.inr hp
    · rw [ha.prev_row, ha.prevHash_row]
      refine hother _ ?_
      by_cases hp : db.blockByHash (some r.prevHash) = none
      · exact Or.inl (hnone (ha.prevHash_row ▸ hp)).1
      · exact Or.inr hp
  · rcases hr with hr | rfl
    · rw [hframe.prev r hr]
      exact h.linked.genesis r hr
    · rw [ha.prev_row]
      refine ⟨fun hp => (hnone hp).1, fun hp => ?_⟩
      rw [ha.prevHash_row, hp]
      exact hfirst
  · rcases hr with hr | rfl
    · rw [hframe.prev r hr] at hp
      exact h.linked.root r hr hp
    · rw [ha.prev_row] at hp
      exact (hnone hp).2

include h ha in
/-- Indices go on counting. -/
theorem idx_added (hlink : Chain.validateLink E (Block.fromDb db b.prevHash) b = .ok ()) :
    ∀ r ∈ db'.blocks, ∀ p, db'.prev r = some p → r.idx = p.idx + 1 := by
  intro r hr p hp
  rw [ha.blocks, List.mem_append, List.mem_singleton] at hr
  rcases hr with hr | rfl
  · exact h.idx r hr p ((ha.frame h.schema).prev r hr ▸ hp)
  · rw [ha.prev_row] at hp
    have hidx := Chain.idx_of_validateLink hlink hp
    rw [ha.idx_row, Option.some.injEq] at hidx
    exact hidx

include h ha in
/-- The old blocks read back as before, down to their roots. -/
theorem pathBlocks_old (htree : db.Tree) {r : BlockDAO} (hr : r ∈ db.blocks) :
    db'.pathBlocks r = db.pathBlocks r := by
  have hframe := ha.frame h.schema
  rw [pathBlocks, pathBlocks, hframe.path htree hr]
  exact List.map_congr_left fun c hc => hframe.fromDao (htree.mem_blocks hr hc)

include h ha in
/-- The new block stands on top of its ancestors. -/
theorem pathBlocks_new (htree : db.Tree)
    (hlink : Chain.validateLink E (Block.fromDb db b.prevHash) b = .ok ()) :
    db'.pathBlocks row = Block.fromDao db' row :: db.ancestors b := by
  have hframe := ha.frame h.schema
  have hranked : Forest.Ranked (· ∈ db'.blocks) db'.prev BlockDAO.idx :=
    fun r p hr hp => ⟨(prev_mem hp).1, h.idx_added ha hlink r hr p hp⟩
  unfold Database.ancestors
  cases hp : db.blockByHash b.prevHash with
  | none =>
    rw [pathBlocks, path, Forest.path_none (ha.prev_row.trans hp)]
    rfl
  | some p =>
    rw [pathBlocks, path, Forest.path_some hranked ha.row_mem (ha.prev_row.trans hp), List.map_cons]
    exact congrArg _ (h.pathBlocks_old ha htree (blockByHash_mem hp).1)

include hS h ha hv hb in
/-- **Storing an accepted block keeps the invariant.** -/
theorem added (htree : db.Tree) (hnew : db.blockByHash b.blockHash = none)
    (hlink : Chain.validateLink E (Block.fromDb db b.prevHash) b = .ok ())
    (hm : ∃ m, (Ledger.above b.txns (db.ancestors b)).validateBlockTxns {} b.regularTxns = .ok m ∧
      Ledger.validateBlockCoinbase E b m = .ok ()) : LedgerInv E S db' := by
  obtain ⟨bs, hbs, hsame, hon⟩ := h.acceptedOn hS hv hb hlink hm
  have hids : (b.txns.map Transaction.txid).Nodup := by
    have := hon.txids hS hbs (hbs.sound hS)
    rw [List.map_append] at this
    exact (List.nodup_append.1 this).1
  refine ⟨ha.schema, ha.named h.named, h.spends_added ha, h.idx_added ha hlink,
    h.linked_added hS ha hv hb hnew hlink, fun u hu => ?_, fun r hr => ?_⟩
  · have hold : u ∈ db.transactions → ∃ (t : Transaction) (r : TransactionRules),
        (r = regularTransactionModel ∨ r = coinbaseTransactionModel) ∧ t.Valid E r ∧
          t.dataCsv ∈ S ∧ (Transaction.fromDao db' u).core = t.core := fun hu' => by
      rw [ha.extends_.fromDao hu']
      exact h.txnRows u hu'
    rcases ha.sourced u hu with hu' | ⟨t, ht, hst⟩
    · exact hold hu'
    · obtain ⟨r, hr, hvt⟩ := hv.txn_valid ht
      exact ⟨t, r, hr, hvt, hb.2 t ht, h.storedAs_core hS hv hb ha.extends_ ht hst⟩
  · rw [ha.blocks, List.mem_append, List.mem_singleton] at hr
    rcases hr with hr | rfl
    · rw [h.pathBlocks_old ha htree hr]
      exact h.accepted r hr
    · refine ⟨b :: bs, hbs.cons hon, ?_⟩
      rw [h.pathBlocks_new ha htree hlink]
      exact List.Forall₂.cons (h.same_row hS ha hv hb hids) hsame

end Added

end LedgerInv

/-! ## Sessions -/

/-- The invariant of a session: that of its block tables, chain rows that stand
for stored tips, and some root path, or nothing, in the longest-chain table. -/
structure Session.Inv (E : Env) (S : Set Str) (s : Session) : Prop where
  ledger : LedgerInv E S s.db
  chains : s.db.ChainRows
  table : s.db.longestChainBlocks = [] ∨ ∃ t ∈ s.db.blocks, s.db.Materializes t

namespace Session

variable {E : Env} {S : Set Str} {s s' : Session} {b : Block} {depth : Option ℕ} {now : DateTime}

theorem Inv.empty : Inv E S {} := ⟨LedgerInv.empty, ⟨by simp, by simp, by simp⟩, Or.inl rfl⟩

theorem Inv.tree (hS : E.CollisionFree (insert genesisText S)) (h : Inv E S s) : s.db.Tree :=
  h.ledger.tree hS h.table

theorem Inv.moved (h : Inv E S s) (hm : s.Moved s') : Inv E S s' := by
  have hl := hm.sameLedger
  obtain ⟨_, rfl, hr⟩ := hm
  exact ⟨h.ledger.congr hl, hr h.chains, h.table⟩

/-- A block accepted on any handle is accepted on top of its ancestors. -/
theorem Inv.accepts (hS : E.CollisionFree (insert genesisText S)) (h : Inv E S s)
    (hb : b.Hashed S) (hnew : s.db.blockByHash b.blockHash = none) {c : Chain}
    (hval : c.validateBlock E now b s = .ok s') :
    ∃ bs, AcceptedChain E S bs ∧ List.Forall₂ Block.Same (s.db.ancestors b) bs ∧
      AcceptedOn E S bs b := by
  obtain ⟨hmoved, hv, -, hlink, m, hm, hcb⟩ := Chain.validateBlock_spec hval
  have h' := h.moved hmoved
  have htree := h'.tree hS
  obtain ⟨_, rfl, -⟩ := hmoved
  rw [Ledger.ofDb_unsaved h'.ledger.schema htree hnew] at hm
  exact h.ledger.acceptedOn hS hv hb hlink ⟨m, hm, Ledger.wrapCoinbaseError_eq_ok.1 hcb⟩

/-- Accepting a block on any handle and storing it keeps the invariant. -/
theorem Inv.stored (hS : E.CollisionFree (insert genesisText S)) (h : Inv E S s)
    (hb : b.Hashed S) {c : Chain} (hval : c.validateBlock E now b s = .ok s') {db : Database}
    (hto : b.toDb E s'.db = .ok db) :
    Inv E S { s' with db := db } ∧ ∃ r, db.blockByHash b.blockHash = some r := by
  obtain ⟨hmoved, hv, -, hlink, m, hm, hcb⟩ := Chain.validateBlock_spec hval
  have h' := h.moved hmoved
  have htree := h'.tree hS
  have hfrom : Block.fromDb s'.db b.prevHash = Block.fromDb s.db b.prevHash := by
    obtain ⟨_, rfl, -⟩ := hmoved
    rfl
  rcases Block.toDb_spec h'.ledger.schema hto with ⟨r, hr, rfl⟩ | ⟨hnew, row, ids, ha⟩
  · exact ⟨h', r, hr⟩
  · rw [Ledger.ofDb_unsaved h'.ledger.schema htree hnew] at hm
    have hledger := h'.ledger.added hS ha hv hb htree hnew (hfrom ▸ hlink)
      ⟨m, hm, Ledger.wrapCoinbaseError_eq_ok.1 hcb⟩
    have hsub : ∀ c ∈ s'.db.blocks, c ∈ db.blocks := (ha.frame h'.ledger.schema).blocks
    refine ⟨⟨hledger, ⟨?_, ?_, fun c hc => ?_⟩, ?_⟩, row, ?_⟩
    · rw [ha.chains]
      exact h'.chains.ids
    · rw [ha.chains]
      exact h'.chains.hashes
    · obtain ⟨t, ht, rest⟩ := h'.chains.tip c (ha.chains ▸ hc)
      exact ⟨t, hsub t ht, rest⟩
    · show db.longestChainBlocks = [] ∨ _
      rw [ha.longestChainBlocks]
      refine h'.table.imp_right fun ⟨t, ht, hmat⟩ => ⟨t, hsub t ht, ?_⟩
      rw [Materializes, ha.longestChainBlocks, (ha.frame h'.ledger.schema).path htree ht]
      exact hmat
    · rw [ha.blockHash_row, blockByHash_eq_some ha.schema]
      exact ⟨hv.blockHash_ne_nil ha.blockHash_row, ha.row_mem, rfl⟩

/-- Saving a handle keeps the invariant. -/
theorem Inv.saved (hS : E.CollisionFree (insert genesisText S)) (h : Inv E S s) {c c' : Chain}
    {blk : BlockDAO} (hb : s.db.blockByHash c.blockHash = some blk)
    (hto : c.toDb depth s = .ok (c', s')) : Inv E S s' := by
  obtain ⟨s₁, row, s₂, hp, hup, heq⟩ :=
    toDb_upkeep h.ledger.schema (h.tree hS) h.ledger.linked.root h.chains hb depth
  rw [hto, Except.ok.injEq, Prod.mk.injEq] at heq
  obtain ⟨-, rfl⟩ := heq
  obtain ⟨hl, htable⟩ := hp.sameLedger
  have hledger := hl.trans hup.ledger
  obtain ⟨hrows, -, -⟩ := hp.chainRows h.ledger.schema h.chains hb
  refine ⟨h.ledger.congr hledger, hrows.sublist hup.ledger hup.sublist, ?_⟩
  have hblocks := hledger.blocks
  rcases hup.table with hsame | hm
  · rw [hsame, htable]
    refine h.table.imp_right fun ⟨t, ht, hmat⟩ => ⟨t, hblocks ▸ ht, ?_⟩
    rw [Materializes, hsame, htable, hledger.path]
    exact hmat
  · exact Or.inr ⟨blk, hblocks ▸ (blockByHash_mem hb).1, hm⟩

/-- A successful `Node.add_block` keeps the invariant. -/
theorem Inv.tryAddBlock (hS : E.CollisionFree (insert genesisText S)) (h : Inv E S s)
    (hb : b.Hashed S) (hadd : Node.tryAddBlock E depth now b s = .ok s') : Inv E S s' := by
  obtain ⟨s₁, db, c', hval, hto, hsave⟩ := Node.tryAddBlock_eq_ok.1 hadd
  obtain ⟨hinv, r, hr⟩ := h.stored hS hb hval hto
  exact hinv.saved hS hr hsave

end Session

/-! ## Reachable states -/

/-- The states that additions of blocks lead to from empty tables: through
`Node.add_block`, or `Chain.add_block` on any handle, of blocks that satisfy `P` at
the clock they are added at.  In between row objects may be dropped from the
session, and the mempool may change. -/
inductive ReachableBy (E : Env) (P : DateTime → Block → Prop) (depth : Option ℕ) : Session → Prop
  | empty : ReachableBy E P depth {}
  | node {s s' : Session} {now : DateTime} {commit : Bool} {b : Block} {r : Option Block} :
      ReachableBy E P depth s → P now b →
      Node.addBlock E depth now commit b s = .ok (r, s') → ReachableBy E P depth s'
  | chain {s s' : Session} {now : DateTime} {c c' : Chain} {b : Block} :
      ReachableBy E P depth s → P now b → c.addBlock E now b s = .ok (c', s') →
      ReachableBy E P depth s'
  | forget {s : Session} {cache : ℕ → Option (ℕ × Bool)} : ReachableBy E P depth s →
      (∀ i, cache i = none ∨ cache i = s.cache i) → ReachableBy E P depth { s with cache := cache }
  | pool {s : Session} {pending : List PendingTxnDAO} : ReachableBy E P depth s →
      ReachableBy E P depth { s with db := { s.db with pendingTxns := pending } }

/-- The states that blocks with texts in `S` lead to. -/
abbrev Reachable (E : Env) (S : Set Str) : Option ℕ → Session → Prop :=
  ReachableBy E fun _ b => b.Hashed S

theorem ReachableBy.mono {E : Env} {P Q : DateTime → Block → Prop} {depth : Option ℕ} {s : Session}
    (hPQ : ∀ now b, P now b → Q now b) (h : ReachableBy E P depth s) : ReachableBy E Q depth s := by
  induction h with
  | empty => exact .empty
  | node _ hb hadd ih => exact ih.node (hPQ _ _ hb) hadd
  | chain _ hb hadd ih => exact ih.chain (hPQ _ _ hb) hadd
  | forget _ hcache ih => exact ih.forget hcache
  | pool _ ih => exact ih.pool

/-- **The invariant holds in every reachable state.** -/
theorem Reachable.inv {E : Env} {S : Set Str} {depth : Option ℕ} {s : Session}
    (hS : E.CollisionFree (insert genesisText S)) (h : Reachable E S depth s) : s.Inv E S := by
  induction h with
  | empty => exact Session.Inv.empty
  | node _ hb hadd ih =>
    rcases Node.addBlock_eq_ok hadd with ⟨-, htry⟩ | ⟨-, rfl⟩
    · exact ih.tryAddBlock hS hb htry
    · exact ih
  | chain _ hb hadd ih =>
    obtain ⟨s₁, hval, hadd⟩ := bind_eq_ok.1 hadd
    obtain ⟨db, hto, hadd⟩ := bind_eq_ok.1 hadd
    cases hadd
    exact (ih.stored hS hb hval hto).1
  | forget _ _ ih => exact ⟨ih.ledger, ih.chains, ih.table⟩
  | pool _ ih =>
    refine ⟨ih.ledger.congr ⟨_, _, _, rfl⟩, ⟨ih.chains.ids, ih.chains.hashes, ih.chains.tip⟩, ?_⟩
    exact ih.table

/-- Whatever is offered to a node, its state stays reachable. -/
theorem ReachableBy.processAll {E : Env} {P : DateTime → Block → Prop} {depth : Option ℕ}
    {calls : List Node.Call} : ∀ {s : Session}, ReachableBy E P depth s →
      (∀ call ∈ calls, P call.now call.block) →
      ReachableBy E P depth (Node.processAll E depth s calls) := by
  induction calls with
  | nil => exact fun h _ => h
  | cons call rest ih =>
    intro s h hb
    rw [List.forall_mem_cons] at hb
    refine ih ?_ hb.2
    unfold Node.process
    split
    · rename_i r hr
      exact h.node hb.1 hr
    · exact h

/-- **UTXO soundness on every root path.**  In every reachable state, over the
transactions of the path from a stored block to the root: no outpoint is
referenced by two inflows, every referenced outflow is an outflow of a
transaction of that path, is no rescind, and belongs to the spender. -/
theorem utxo_sound {E : Env} {S : Set Str} {depth : Option ℕ} {s : Session} {r : BlockDAO}
    (hS : E.CollisionFree (insert genesisText S)) (h : Reachable E S depth s)
    (hr : r ∈ s.db.blocks) :
    ((txnsOf (s.db.pathBlocks r)).flatMap Transaction.inflows).Nodup ∧
      ∀ t ∈ txnsOf (s.db.pathBlocks r), ∀ i ∈ t.inflows,
        ∃ u ∈ txnsOf (s.db.pathBlocks r), ∃ n o, i = ⟨u.txid, some n⟩ ∧
          u.getOutflow n = some o ∧ o.rescind = none ∧
          (if truthy o.address then o.address else u.address) = t.address := by
  have hsound := (h.inv hS).ledger.sound hS hr
  exact ⟨hsound.spentOnce, hsound.resolved⟩

/-! ### A fork -/

namespace Sample

/-- An address. -/
def alice : Str :=
  ['g', 'c', '1', '3', '2', 'y', 'w', '8', 'h', 't', '5', 'p', '8', 'c', 'e', 't', 'l', '2', 'j',
   'm', 'v', 'k', 'n', 'e', 'w', 'j', 'a', 'w', 't', '9', 'x', 'w', 'z', 'd', 'l', 'r', 'k', '2',
   'p', 'y', 'x', 'l', 'n', 'w', 'j', 'y', 'q', 'r', 'd', 'q', '0', 'd', 'a', 'w', 'q', 'm', 'r',
   '3', 'f', 'd', 'j']

/-- Another one. -/
def bob : Str :=
  ['g', 'c', '1', 's', 'y', 'u', 'h', 'w', 'r', '4', 'g', '0', '5', 't', '4', '7', '4', '4', 'r',
   '2', '3', 'n', 'v', 'x', 'n', 'r', '7', 'e', 'n', '9', 'c', 'm', 'z', '5', '3', 'k', 'n', 'h',
   'r', '0', 'g', 'j', 'a', '7', 'c', '8', '4', 'h', 'r', '7', 'f', 'k', 'w', '2', 'q', '8', 't',
   'u', 'y', 't', 'y']

/-- The reward of a first block. -/
def mint : Transaction where
  timestamp := dt2Iso (minutesPast 0)
  txid := some (fmt064x 0x08c24cb73aa8b7b6ebfd6c248e3576cf392c86ff7a68e3ec96f156834ba032b5)
  address := some alice
  signature := some (b64encode
    (toBytes 32 0xd24990003fd42b95f223d7cd2e08ad97d146835becbe6524380af6b4522113f8 ++
      toBytes 32 0xe5921cc6109c64b150733bfb0c0b3b8aab64331f41d80f4ab0b9702243cfd501))
  outflows := [{ amount := some 500, address := some alice }]
  prevHash := some firstPrevHash

/-- A first block. -/
def genesis : Block where
  idx := some 0
  timestamp := some (dt2Iso (minutesPast 0))
  blockHash := some (fmt064x 0x00000a2dd7034245b6c9635945a8b701fc8ec94514998323e757f285eab9b926)
  prevHash := some firstPrevHash
  target := maxTarget
  proofOfWork := some 1242414
  merkleRoot := some (fmt064x 0x9bdce64385365a7917d9c411caedde25b6f80bb60b936c84d4159d158a88b5d7)
  txns := [mint]

/-- A transfer and a stake from that reward. -/
def spend : Transaction where
  timestamp := dt2Iso (minutesPast 5)
  txid := some (fmt064x 0x61a8ca4aaa74a6f77194cd836ec46d4a373681de10471c38b657a94343584b1d)
  address := some alice
  signature := some (b64encode
    (toBytes 32 0x9cba5ff3e7ebcbef34ab8333af64d62d4e897313662e7cb779f340cca80b1eb5 ++
      toBytes 32 0x35f16462b43ad8043821d5a66077529c64bb71db58d1579653093831c54bec0b))
  inflows := [⟨mint.txid, some 0⟩]
  outflows := [{ amount := some 300, address := some bob },
    { amount := some 200, opposition := some ['b', 'G', 'V', 'h', 'b', 'g'] }]

/-- A reward, with what the stake mints. -/
def leftCoinbase : Transaction where
  timestamp := dt2Iso (minutesPast 10)
  txid := some (fmt064x 0xfaddbc1f28fc17df7448c47c8e6caca6f8448c3f72e739776d37fa4ed7c2e6ab)
  address := some alice
  signature := some (b64encode
    (toBytes 32 0xd7947cfa13a6a84e90a4ad1bfb77e4085d8182009d9c567fd253cc84a2a0bc88 ++
      toBytes 32 0xe16b1feb737310a1b6d8b596ba802d3852a813d0fa180418d5c6f615f230450e))
  outflows := [{ amount := some 500, address := some alice },
    { amount := some 100, address := some alice }]
  prevHash := genesis.blockHash

/-- A block on the first one, with the spend. -/
def left : Block where
  idx := some 1
  timestamp := some (dt2Iso (minutesPast 10))
  blockHash := some (fmt064x 0x00000e2cdcc9ab89fa49751d052550d7bed846be4dbb1caf06a2af09cca0b053)
  prevHash := genesis.blockHash
  target := maxTarget
  proofOfWork := some 7465
  merkleRoot := some (fmt064x 0x491ee509992a96f00d2a1000171801dde8b1ecef003f6a928a2313e22fb8c436)
  txns := [spend, leftCoinbase]

/-- A plain reward. -/
def rightCoinbase : Transaction where
  timestamp := dt2Iso (minutesPast 20)
  txid := some (fmt064x 0xf1d1953dd8aaacff2d7bb3b0d961bf354c2d6bce52098bc3aea663424dec9e2e)
  address := some bob
  signature := some (b64encode
    (toBytes 32 0x3913276c0535b4552bb127ec8c6f13c9ddb1ff7a9bc06066e07766c48cad2309 ++
      toBytes 32 0xa660d2303a2c2976a62c9a6b492f293e1852939d0d6b1408712cf899dc3a390e))
  outflows := [{ amount := some 500, address := some bob }]
  prevHash := genesis.blockHash

/-- A later block on the first one. -/
def right : Block where
  idx := some 1
  timestamp := some (dt2Iso (minutesPast 20))
  blockHash := some (fmt064x 0x00000c46f8da774384c1bc4a708d62f5d1dd400040ca44f3e1f3c01fc272e10d)
  prevHash := genesis.blockHash
  target := maxTarget
  proofOfWork := some 938121
  merkleRoot := some (fmt064x 0xc038b75ff09a3018f1bc2f3cd57ced7965490723c3f1d382015f7eb1cfefa73a)
  txns := [rightCoinbase]

/-- A plain reward. -/
def topCoinbase : Transaction where
  timestamp := dt2Iso (minutesPast 30)
  txid := some (fmt064x 0x52c5599819f45a214a1d6b3e3563652a436fafc6d1075d13e6551c124344ce09)
  address := some bob
  signature := some (b64encode
    (toBytes 32 0xada0d4ccf8408a9d368538334cc59d1d3fe7f131df153c7a04a215fe485d73e7 ++
      toBytes 32 0x0189aa96276ba36fba274d8e349165fc7b33f1793e4643028016627f3417d900))
  outflows := [{ amount := some 500, address := some bob }]
  prevHash := right.blockHash

/-- A block on that one. -/
def top : Block where
  idx := some 2
  timestamp := some (dt2Iso (minutesPast 30))
  blockHash := some (fmt064x 0x00000f47ecbae54e9398996d01ff095cf4b66c04d85e317099c8cb7c9903c5b6)
  prevHash := right.blockHash
  target := maxTarget
  proofOfWork := some 686102
  merkleRoot := some (fmt064x 0x9a9c8f0062159fbfd119500638871c7f19f7e9e7eafc2262ad1ecd54176f6cc9)
  txns := [topCoinbase]

/-- The blocks of the fork. -/
def blocks : List Block := [genesis, left, right, top]

/-- The hashes and signatures of the fork. -/
def env : Env := Env.knowing blocks

/-- The texts of the fork. -/
def texts : Set Str := { x | x ∈ hashedTexts blocks }

/-- The day after. -/
def day : DateTime := ⟨2024, 1, 2, 0, 0, 0, by decide⟩

/-- A node that hears of a block on that day. -/
def call (b : Block) : Node.Call := ⟨day, true, b⟩

/-- The node with the first block and both of its successors. -/
def state : Session := Node.processAll env none {} ([genesis, left, right].map call)

theorem collisionFree : env.CollisionFree (insert genesisText texts) :=
  collisionFree_of_nodup (by decide +kernel)

theorem hashed {bs : List Block} (h : bs ⊆ blocks) :
    ∀ c ∈ bs.map call, c.block.Hashed texts := by
  intro c hc
  obtain ⟨b, hb, rfl⟩ := List.mem_map.1 hc
  exact Block.hashed_of_mem (h hb)

theorem reachable : Reachable env texts none state :=
  ReachableBy.empty.processAll (hashed (by simp [blocks]))

/-- The row of `left`. -/
def leftRow : BlockDAO where
  id := 2
  blockHash := left.blockHash.getD []
  version := ['1']
  idx := 1
  prevHash := genesis.blockHash.getD []
  timestamp := minutesPast 10
  merkleRoot := left.merkleRoot.getD []
  proofOfWork := 7465
  target := maxTarget
  prevId := some 1

/-- A block's row, as its constructor fills it. -/
def blockRow (id : ℕ) (prevId : Option ℕ) (timestamp : DateTime) (b : Block) : BlockDAO where
  id := id
  blockHash := b.blockHash.getD []
  version := b.version
  idx := b.idx.getD 0
  prevHash := b.prevHash.getD []
  timestamp := timestamp
  merkleRoot := b.merkleRoot.getD []
  proofOfWork := b.proofOfWork.getD 0
  target := b.target
  prevId := prevId

/-- A transaction's row. -/
def txnRow (id : ℕ) (timestamp : DateTime) (t : Transaction) : TransactionDAO :=
  ⟨id, t.txid.getD [], t.version, timestamp, t.address, t.signature, t.prevHash⟩

/-- An outflow's row. -/
def outflowRow (id transactionId idx : ℕ) (t : Transaction) : OutflowDAO :=
  ((t.getOutflow idx).getD {}).toDao id (t.txid.getD []) idx transactionId

/-- The tables of the fork. -/
def stateDb : Database where
  blocks := [blockRow 1 none (minutesPast 0) genesis, leftRow,
    blockRow 3 (some 1) (minutesPast 20) right]
  transactions := [txnRow 1 (minutesPast 0) mint,
    txnRow 2 (minutesPast 5) spend,
    txnRow 3 (minutesPast 10) leftCoinbase,
    txnRow 4 (minutesPast 20) rightCoinbase]
  outflows := [outflowRow 1 1 0 mint, outflowRow 2 2 0 spend, outflowRow 3 2 1 spend,
    outflowRow 4 3 0 leftCoinbase, outflowRow 5 3 1 leftCoinbase, outflowRow 6 4 0 rightCoinbase]
  inflows := [⟨1, spend.txid.getD [], 0, mint.txid.getD [], 0, some 1, 2⟩]
  blockTransactions := [(1, 1), (2, 2), (2, 3), (3, 4)]
  chains := [⟨1, left.blockHash.getD [], 2, 1⟩, ⟨2, right.blockHash.getD [], 3, 1⟩]
  longestChainBlocks := [⟨1, 0⟩, ⟨2, 1⟩]

theorem state_db : state.db = stateDb := by decide +kernel

end Sample

/-- The path that ends in the spend. -/
theorem utxo_sound_left :
    ((txnsOf (Sample.state.db.pathBlocks Sample.leftRow)).flatMap Transaction.inflows).Nodup ∧
      ∀ t ∈ txnsOf (Sample.state.db.pathBlocks Sample.leftRow), ∀ i ∈ t.inflows,
        ∃ u ∈ txnsOf (Sample.state.db.pathBlocks Sample.leftRow), ∃ n o,
          i = ⟨u.txid, some n⟩ ∧ u.getOutflow n = some o ∧ o.rescind = none ∧
          (if truthy o.address then o.address else u.address) = t.address :=
  utxo_sound Sample.collisionFree Sample.reachable (by rw [Sample.state_db]; decide +kernel)

end GumptionChain
