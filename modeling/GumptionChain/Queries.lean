import GumptionChain.Supply
import GumptionChain.Lib.Query

/-!
# Ledger queries

The reads of `ChainDAO`: outflows, balances and leaderboards of one chain row,
over the blocks of its tip.  A row that is the longest reads the
`longest_chain_block` table, any other walks its ancestry.

* `ChainView` — the three selects a row routes, and the queries over them;
* `Session.ask` — a query on a row, which asks `_is_longest` for the route;
* `Coin`, `unspentCoins` — the same in terms of a list of transactions;
* `Database.Shows` — a view that holds what a root path holds, and
  `Database.Shows.unspent`: its queries are folds over the path's transactions.
-/

namespace GumptionChain

open Database

/-! ## Selects -/

namespace Database

/-- `longest_chain_blocks_q`. -/
def longestChainBlocksQ (db : Database) : List BlockDAO :=
  (Table.orderBy (fun p : LongestChainBlockDAO × BlockDAO => OrderDual.toDual p.1.position)
    (Query.join (fun l b => decide (b.id = l.blockId)) db.longestChainBlocks db.blocks)).map Prod.snd

/-- `select(TransactionDAO).join(blocks, TransactionDAO.blocks)`, by timestamp from
the latest, then by id. -/
def transactionsQ (db : Database) (blocks : List BlockDAO) : List TransactionDAO :=
  Table.orderBy
    (fun t : TransactionDAO => toLex (OrderDual.toDual t.timestamp.toSeconds, t.id))
    ((Query.join (fun b t => decide ((b.id, t.id) ∈ db.blockTransactions)) blocks
      db.transactions).map Prod.snd)

/-- `select(OutflowDAO).join(txns, OutflowDAO.transaction)`, each row with its
transaction. -/
def outflowsQ (db : Database) (txns : List TransactionDAO) : List (TransactionDAO × OutflowDAO) :=
  Query.join (fun t o => decide (o.transactionId = t.id)) txns db.outflows

/-- `select(InflowDAO).join(txns, InflowDAO.transaction)`. -/
def inflowsQ (db : Database) (txns : List TransactionDAO) : List (TransactionDAO × InflowDAO) :=
  Query.join (fun t i => decide (i.transactionId = t.id)) txns db.inflows

/-- `longest_chain_transactions_q`. -/
def longestChainTransactionsQ (db : Database) : List TransactionDAO :=
  db.transactionsQ db.longestChainBlocksQ

/-- `ancestry_transactions_q`. -/
def ancestryTransactionsQ (db : Database) (b : BlockDAO) : List TransactionDAO :=
  db.transactionsQ (db.ancestryBlocksQ b)

/-- `longest_chain_outflows_q`. -/
def longestChainOutflowsQ (db : Database) : List (TransactionDAO × OutflowDAO) :=
  db.outflowsQ db.longestChainTransactionsQ

/-- `ancestry_outflows_q`. -/
def ancestryOutflowsQ (db : Database) (b : BlockDAO) : List (TransactionDAO × OutflowDAO) :=
  db.outflowsQ (db.ancestryTransactionsQ b)

/-- `longest_chain_inflows_q`. -/
def longestChainInflowsQ (db : Database) : List (TransactionDAO × InflowDAO) :=
  db.inflowsQ db.longestChainTransactionsQ

/-- `ancestry_inflows_q`. -/
def ancestryInflowsQ (db : Database) (b : BlockDAO) : List (TransactionDAO × InflowDAO) :=
  db.inflowsQ (db.ancestryTransactionsQ b)

end Database

/-! ## A chain row's queries -/

/-- The properties `transactions`, `outflows` and `inflows` of a chain row. -/
structure ChainView where
  transactions : List TransactionDAO
  outflows : List (TransactionDAO × OutflowDAO)
  inflows : List (TransactionDAO × InflowDAO)

/-- The column of a stake kind. -/
def OutflowDAO.stake (kind : StakeKind) (o : OutflowDAO) : Option Str :=
  match kind with
  | .support => o.support
  | .opposition => o.opposition

/-- An entry of the subject leaderboard. -/
structure SubjectTotals where
  subject : Str
  opposition : ℤ
  support : ℤ
  net : ℤ
  total : ℤ
  deriving DecidableEq

/-- The keys of `subject_leaderboard`'s `order_map`; any other text means the total. -/
inductive SubjectOrder where
  | subject
  | opposition
  | support
  | net
  | total
  deriving DecidableEq

/-- The column of an ordering. -/
def SubjectTotals.column : SubjectOrder → SubjectTotals → ℤ
  | .opposition, e => e.opposition
  | .support, e => e.support
  | .net, e => e.net
  | _, e => e.total

/-- `ORDER BY col asc | desc, subject`. -/
def SubjectTotals.sort (sortBy : SubjectOrder) (ascending : Bool) (rows : List SubjectTotals) :
    List SubjectTotals :=
  match sortBy, ascending with
  | .subject, true => Table.orderBy SubjectTotals.subject rows
  | .subject, false => Table.orderBy (fun e => OrderDual.toDual e.subject) rows
  | by_, true => Table.orderBy (fun e => toLex (e.column by_, e.subject)) rows
  | by_, false => Table.orderBy (fun e => toLex (OrderDual.toDual (e.column by_), e.subject)) rows

/-- The sums `subject_leaderboard` selects for a group of stakes. -/
def SubjectTotals.of (subject : Str) (stakes : List (StakeKind × ℤ)) : SubjectTotals :=
  let sum (kind : StakeKind) := (stakes.map fun p => if p.1 = kind then p.2 else 0).sum
  { subject := subject
    opposition := sum .opposition
    support := sum .support
    net := sum .support - sum .opposition
    total := (stakes.map Prod.snd).sum }

/-- A transaction's timestamp lies in the window of `signing_key_leaderboard`. -/
def inWindow (earliest latest : Option DateTime) (timestamp : ℕ) : Bool :=
  earliest.all (fun d => d.toSeconds ≤ timestamp) && latest.all fun d => timestamp < d.toSeconds

/-- `ORDER BY ct desc, address`. -/
def sortTotals (rows : List (Str × ℤ)) : List (Str × ℤ) :=
  Table.orderBy (fun p : Str × ℤ => toLex (OrderDual.toDual p.2, p.1)) rows

namespace ChainView

/-- `_unspent_clause`: no inflow of the view has the outflow's id. -/
def unspentClause (v : ChainView) (o : OutflowDAO) : Bool :=
  !v.inflows.any fun p => p.2.outflowId = some o.id

/-- The rows of a select on outflows, ordered as `outflows` is. -/
def execute (rows : List (TransactionDAO × OutflowDAO)) : List OutflowDAO :=
  (Table.orderBy (fun p : TransactionDAO × OutflowDAO =>
    toLex (OrderDual.toDual p.1.timestamp.toSeconds, toLex (p.1.txid, p.2.idx))) rows).map Prod.snd

/-- `SELECT sum(amount)` over the rows of a subquery, joined to the table again. -/
def sumAmounts (db : Database) (rows : List (TransactionDAO × OutflowDAO)) : ℤ :=
  ((Query.join (fun p o => decide (o.id = p.2.id)) rows db.outflows).map fun q => q.2.amount).sum

/-- `unspent_outflows`, with `filter_pending` left at its default. -/
def unspentOutflows (v : ChainView) (address : Str) : List (TransactionDAO × OutflowDAO) :=
  v.outflows.filter fun p => p.2.address = some address && v.unspentClause p.2

/-- `signing_key_balance`. -/
def signingKeyBalance (db : Database) (v : ChainView) (address : Str) : ℤ :=
  sumAmounts db (v.unspentOutflows address)

/-- `unrescinded_outflows`, with `filter_pending` left at its default. -/
def unrescindedOutflows (v : ChainView) (subject : Str) (kind : StakeKind)
    (address : Option Str) : List (TransactionDAO × OutflowDAO) :=
  let stmt := v.outflows.filter fun p => p.2.stake kind = some subject && v.unspentClause p.2
  match address with
  | none => stmt
  | some address =>
    ((Query.join (fun p t => decide (p.2.transactionId = t.id)) stmt v.transactions).filter
      fun q => q.2.address = some address).map Prod.fst

/-- `_stake_balance`. -/
def stakeBalance (db : Database) (v : ChainView) (subject : Str) (kind : StakeKind) : ℤ :=
  sumAmounts db
    (v.outflows.filter fun p => p.2.stake kind = some subject && v.unspentClause p.2)

/-- `signing_key_leaderboard`. -/
def signingKeyLeaderboard (v : ChainView) (earliest latest : Option DateTime) (limit : Option ℕ) :
    List (Str × ℤ) :=
  let stmt := v.outflows.filter fun p =>
    p.2.address.isSome && v.unspentClause p.2 && inWindow earliest latest p.1.timestamp.toSeconds
  Query.limit limit (sortTotals (Query.groupBy (fun p => p.2.address.getD [])
    (fun l => (l.map fun p => p.2.amount).sum) stmt))

/-- A leg of `subject_leaderboard`'s union. -/
def subjectLeg (v : ChainView) (kind : StakeKind) : List (Str × StakeKind × ℤ) :=
  (v.outflows.filter fun p => (p.2.stake kind).isSome && v.unspentClause p.2).map fun p =>
    ((p.2.stake kind).getD [], kind, p.2.amount)

/-- `subject_leaderboard`. -/
def subjectLeaderboard (v : ChainView) (sortBy : SubjectOrder) (ascending : Bool)
    (limit : Option ℕ) : List SubjectTotals :=
  let union := v.subjectLeg .opposition ++ v.subjectLeg .support
  Query.limit limit (SubjectTotals.sort sortBy ascending
    ((Query.groupBy Prod.fst (fun l => l.map Prod.snd) union).map fun g =>
      SubjectTotals.of g.1 g.2))

end ChainView

namespace Session

/-- The view of a row: the longest reads the table, another walks its ancestry.  The
properties ask `_is_longest` one by one; it answers from its cache after the first. -/
def view (s : Session) (row : ChainDAO) : ChainView × Session :=
  let (longest, s) := s.isLongest row
  let view := if longest then
      ⟨s.db.longestChainTransactionsQ, s.db.longestChainOutflowsQ, s.db.longestChainInflowsQ⟩
    else
      match s.db.blockById row.blockId with
      | none => ⟨[], [], []⟩
      | some b => ⟨s.db.ancestryTransactionsQ b, s.db.ancestryOutflowsQ b, s.db.ancestryInflowsQ b⟩
  (view, s)

/-- A query on a row. -/
def ask {α : Type} (s : Session) (row : ChainDAO) (query : Database → ChainView → α) :
    α × Session :=
  let (view, s) := s.view row
  (query s.db view, s)

/-- Asking once more gives the same answer, and changes nothing. -/
theorem isLongest_again (s : Session) (row : ChainDAO) :
    (s.isLongest row).2.isLongest row = s.isLongest row := by
  cases hc : s.cache row.id with
  | none => simp [isLongest, hc]
  | some g =>
    by_cases hg : g.1 = s.generation
    · simp [isLongest, hc, hg]
    · simp [isLongest, hc, hg]

end Session

/-! ## The fold over a path's transactions -/

/-- An output of a transaction. -/
structure Coin where
  txn : Transaction
  idx : ℕ
  outflow : Outflow

namespace Coin

/-- The reference by which an inflow spends it. -/
def outpoint (c : Coin) : Inflow := ⟨c.txn.txid, some c.idx⟩

def amount (c : Coin) : ℤ := c.outflow.amount.getD 0

/-- When its transaction was made. -/
def seconds (c : Coin) : ℕ := (c.txn.timestampDt.map DateTime.toSeconds).getD 0

/-- As the iterators of `Chain` yield it. -/
def shown (c : Coin) : Str × ℕ × Outflow := (c.txn.txid.getD [], c.idx, c.outflow)

/-- From the latest transaction, then by outpoint. -/
def sortKey (c : Coin) : ℕᵒᵈ ×ₗ Str ×ₗ ℕ :=
  toLex (OrderDual.toDual c.seconds, toLex (c.txn.txid.getD [], c.idx))

end Coin

/-- The outputs of some transactions. -/
def coins (txns : List Transaction) : List Coin :=
  txns.flatMap fun t => t.outflows.mapIdx fun k o => ⟨t, k, o⟩

/-- The outputs that no inflow references. -/
def unspentCoins (txns : List Transaction) : List Coin :=
  (coins txns).filter fun c => c.outpoint ∉ txns.flatMap Transaction.inflows

/-- The grains in unspent outputs of a kind. -/
def coinAmount (p : Coin → Bool) (txns : List Transaction) : ℤ :=
  (((unspentCoins txns).filter fun c => p c).map Coin.amount).sum

/-- The unspent outputs of a kind, in the order of `ChainDAO.outflows`. -/
def listCoins (p : Coin → Bool) (txns : List Transaction) : List (Str × ℕ × Outflow) :=
  (Table.orderBy Coin.sortKey ((unspentCoins txns).filter fun c => p c)).map Coin.shown

/-- Each address with the grains it holds in transactions of a window. -/
def addressTotals (earliest latest : Option DateTime) (txns : List Transaction) :
    List (Str × ℤ) :=
  (((unspentCoins txns).filter fun c => inWindow earliest latest c.seconds).filterMap fun c =>
    c.outflow.address).dedup.map fun a =>
      (a, coinAmount (fun c => c.outflow.address = some a && inWindow earliest latest c.seconds) txns)

/-- Each subject with the grains staked against it and for it. -/
def subjectTotals (txns : List Transaction) : List SubjectTotals :=
  ((unspentOutflows txns).filterMap Outflow.opposition ++
    (unspentOutflows txns).filterMap Outflow.support).dedup.map fun x =>
      let opposition := unspentAmount (fun o => o.opposition = some x) txns
      let support := unspentAmount (fun o => o.support = some x) txns
      ⟨x, opposition, support, support - opposition, opposition + support⟩

theorem map_outflow_unspentCoins (txns : List Transaction) :
    (unspentCoins txns).map Coin.outflow = unspentOutflows txns := by
  have hpairs : txns.flatMap Transaction.outpoints =
      (coins txns).map fun c => (c.outpoint, c.outflow) := by
    rw [coins, List.map_flatMap]
    refine List.flatMap_congr fun t _ => ?_
    exact List.ext_getElem (by simp [Transaction.outpoints]) fun k h1 h2 => by
      simp [Transaction.outpoints, Coin.outpoint]
  rw [unspentOutflows, hpairs, List.filter_map, List.map_map, unspentCoins]
  rfl

theorem coinAmount_outflow (p : Outflow → Bool) (txns : List Transaction) :
    coinAmount (fun c => p c.outflow) txns = unspentAmount p txns := by
  rw [coinAmount, unspentAmount, ← map_outflow_unspentCoins, List.filter_map, List.map_map]
  rfl

/-! ## Views of a root path -/

namespace Database

variable {E : Env} {S : Set Str} {db : Database} {r : BlockDAO} {v : ChainView}

/-- Outflow rows are numbered by their place in the transaction. -/
def Numbered (db : Database) : Prop :=
  ∀ u ∈ db.transactions, ∀ (k : ℕ) (o : OutflowDAO), (db.outflowsOf u)[k]? = some o → o.idx = k

/-- A view holds the rows of a root path, each once. -/
structure Shows (db : Database) (r : BlockDAO) (v : ChainView) : Prop where
  transactions : v.transactions.Perm (db.pathRows r)
  outflows : v.outflows.Perm (db.outflowsQ (db.pathRows r))
  inflows : v.inflows.Perm (db.inflowsQ (db.pathRows r))

/-- A joined row, read back. -/
def toCoin (db : Database) (p : TransactionDAO × OutflowDAO) : Coin :=
  ⟨Transaction.fromDao db p.1, p.2.idx, Outflow.fromDao p.2⟩

theorem mem_outflowsQ {txns : List TransactionDAO} {p : TransactionDAO × OutflowDAO} :
    p ∈ db.outflowsQ txns ↔ p.1 ∈ txns ∧ p.2 ∈ db.outflows ∧ p.2.transactionId = p.1.id := by
  rw [outflowsQ, Query.mem_join, decide_eq_true_eq]

theorem mem_inflowsQ {txns : List TransactionDAO} {p : TransactionDAO × InflowDAO} :
    p ∈ db.inflowsQ txns ↔ p.1 ∈ txns ∧ p.2 ∈ db.inflows ∧ p.2.transactionId = p.1.id := by
  rw [inflowsQ, Query.mem_join, decide_eq_true_eq]

theorem pathRows_subset {u : TransactionDAO} (hu : u ∈ db.pathRows r) : u ∈ db.transactions := by
  obtain ⟨c, -, hc⟩ := mem_pathRows.1 hu
  exact rowsOf_subset hc

/-- **The outputs of a path are its outflow rows, read back.** -/
theorem coins_perm (hnum : db.Numbered) :
    (coins (txnsOf (db.pathBlocks r))).Perm ((db.outflowsQ (db.pathRows r)).map db.toCoin) := by
  have hcoins : ∀ u ∈ db.pathRows r, ((Transaction.fromDao db u).outflows.mapIdx fun k o =>
      (⟨Transaction.fromDao db u, k, o⟩ : Coin)) = (db.outflowsOf u).map fun o => db.toCoin (u, o) := by
    intro u hu
    show ((db.outflowsOf u).map Outflow.fromDao).mapIdx _ = _
    refine List.ext_getElem (by simp) fun k h1 h2 => ?_
    rw [List.length_map] at h2
    simp only [List.getElem_mapIdx, List.getElem_map]
    rw [toCoin, hnum u (pathRows_subset hu) k _ (List.getElem?_eq_getElem h2)]
  refine ((txnsOf_pathBlocks_perm db r).flatMap_right _).trans ?_
  rw [List.flatMap_map, List.flatMap_congr hcoins, outflowsQ, Query.join, List.map_flatMap]
  refine List.Perm.flatMap_left _ fun u _ => ?_
  rw [List.map_map]
  exact (Table.orderBy_perm _ _).map _

/-- An outflow row repeats the txid of the transaction it is joined to. -/
theorem txid_outflow (hs : db.Schema E) (hn : db.FlowNames) {u : TransactionDAO}
    {o : OutflowDAO} (hu : u ∈ db.transactions) (ho : o ∈ db.outflows)
    (hid : o.transactionId = u.id) : o.txid = u.txid := by
  obtain ⟨t, ht, htid, htx⟩ := hn.outflows o ho
  rw [← htx, List.inj_on_of_nodup_map hs.transactionIds ht hu (htid.trans hid)]

/-- **The anti-join finds what the inflows of the path spend.** -/
theorem Shows.unspentClause (h : LedgerInv E S db) (hv : db.Shows r v)
    {p : TransactionDAO × OutflowDAO} (hp : p ∈ v.outflows) : v.unspentClause p.2 = true ↔
      (db.toCoin p).outpoint ∉ (txnsOf (db.pathBlocks r)).flatMap Transaction.inflows := by
  obtain ⟨hu, ho, hid⟩ := mem_outflowsQ.1 (hv.outflows.subset hp)
  have htx := txid_outflow h.schema h.named (pathRows_subset hu) ho hid
  rw [ChainView.unspentClause, Bool.not_eq_true', Bool.eq_false_iff, ne_eq, not_iff_not,
    List.any_eq_true]
  simp only [decide_eq_true_eq, List.mem_flatMap, mem_pathBlocks_txns]
  have hlink : ∀ i ∈ db.inflows, i.outflowId = some p.2.id ↔
      Inflow.fromDao i = (db.toCoin p).outpoint := by
    intro i hi
    obtain ⟨o, hom, hoid, hkey⟩ := h.spends i hi
    have hout : (db.toCoin p).outpoint = ⟨some p.2.txid, some p.2.idx⟩ := by rw [htx]; rfl
    rw [hoid, hout, Inflow.fromDao, Inflow.mk.injEq, Option.some.injEq, Option.some.injEq,
      Option.some.injEq]
    rw [Prod.mk.injEq] at hkey
    rw [← hkey.1, ← hkey.2]
    constructor
    · intro heq
      rw [List.inj_on_of_nodup_map h.schema.outflowIds hom ho heq]
      exact ⟨rfl, rfl⟩
    · rintro ⟨h1, h2⟩
      rw [List.inj_on_of_nodup_map h.schema.outflowKeys hom ho (Prod.ext h1 h2)]
  constructor
  · rintro ⟨q, hq, hqid⟩
    obtain ⟨hw, hi, hiw⟩ := mem_inflowsQ.1 (hv.inflows.subset hq)
    refine ⟨_, ⟨q.1, hw, rfl⟩, ?_⟩
    rw [← (hlink q.2 hi).1 hqid]
    exact List.mem_map.2 ⟨q.2, mem_inflowsOf.2 ⟨hi, hiw⟩, rfl⟩
  · rintro ⟨-, ⟨w, hw, rfl⟩, hmem⟩
    obtain ⟨i, hi, hout⟩ := List.mem_map.1 hmem
    obtain ⟨him, hiw⟩ := mem_inflowsOf.1 hi
    exact ⟨(w, i), hv.inflows.symm.subset (mem_inflowsQ.2 ⟨hw, him, hiw⟩), (hlink i him).2 hout⟩

/-- **A view's unspent rows of a kind are the path's unspent outputs of that kind.** -/
theorem Shows.unspent (h : LedgerInv E S db) (hnum : db.Numbered) (hv : db.Shows r v)
    {p : Coin → Bool} {q : TransactionDAO × OutflowDAO → Bool}
    (hpq : ∀ x ∈ v.outflows, q x = p (db.toCoin x)) :
    ((v.outflows.filter fun x => q x && v.unspentClause x.2).map db.toCoin).Perm
      ((unspentCoins (txnsOf (db.pathBlocks r))).filter fun c => p c) := by
  have hfilter : (v.outflows.filter fun x => q x && v.unspentClause x.2) =
      v.outflows.filter ((fun c => p c && decide (c.outpoint ∉
        (txnsOf (db.pathBlocks r)).flatMap Transaction.inflows)) ∘ db.toCoin) := by
    refine List.filter_congr fun x hx => ?_
    rw [Function.comp_apply, hpq x hx]
    congr 1
    rw [Bool.eq_iff_iff, decide_eq_true_eq]
    exact hv.unspentClause h hx
  rw [hfilter, ← List.filter_map, unspentCoins, List.filter_filter]
  exact (((hv.outflows.map _).trans (coins_perm hnum).symm).filter _)

end Database

end GumptionChain
