import GumptionChain.Node

/-!
# A block is judged by its ancestors

What validation reads of the tables, said in terms of the ancestors alone: the
list of blocks from the previous one down to the root.

* `Ledger.above` — the two questions of validation, answered from a list of
  transactions that are not stored yet and the blocks below them;
* `Ledger.ofDb_unsaved`, `Ledger.ofDb_saved` — the queries over the tables answer
  the same;
* `Chain.targetAfter` — the target as a function of the ancestors, and
  `Chain.blockTarget_eq`: whichever way the chain handle reaches them;
* `Chain.validateAbove` — validation as a function of the ancestors, and
  `Chain.validateBlock_eq`: it is what `validate_block` computes on the handle
  that `Node.add_block` chooses.
-/

namespace GumptionChain

namespace Database

/-- The blocks of a root path, read back. -/
def pathBlocks (db : Database) (r : BlockDAO) : List Block := (db.path r).map (Block.fromDao db)

/-- The stored ancestors of a block, its previous block first. -/
def ancestors (db : Database) (b : Block) : List Block :=
  match db.blockByHash b.prevHash with
  | none => []
  | some p => db.pathBlocks p

/-- The transactions of a list of blocks. -/
def txnsOf (blocks : List Block) : List Transaction := blocks.flatMap Block.txns

/-- `prev` links by hash: a block's predecessor is the stored block with its
`prev_hash`, and a block without one is a genesis block. -/
structure Linked (E : Env) (db : Database) : Prop where
  prev : ∀ r ∈ db.blocks, db.blockByHash (some r.prevHash) = db.prev r
  genesis : ∀ r ∈ db.blocks, db.prev r = none ↔ r.prevHash = E.genesisHash
  root : db.RootsAtZero

variable {E : Env} {db : Database}

theorem mem_fromDao_txns {r : BlockDAO} {t : Transaction} :
    t ∈ (Block.fromDao db r).txns ↔ ∃ u ∈ db.rowsOf r.id, Transaction.fromDao db u = t := by
  show t ∈ Block.canonicalOrder _ ↔ _
  rw [Block.canonicalOrder, (List.perm_insertionSort _ _).mem_iff, List.mem_map]
  simp only [transactionsOf, Table.mem_orderBy]

/-- A root path's transactions are its rows, read back. -/
theorem txnsOf_pathBlocks_perm (db : Database) (r : BlockDAO) :
    (txnsOf (db.pathBlocks r)).Perm ((db.pathRows r).map (Transaction.fromDao db)) := by
  rw [pathRows, txnsOf, pathBlocks, List.flatMap_map, List.map_flatMap]
  exact List.Perm.flatMap_left _ fun c _ =>
    (List.perm_insertionSort _ _).trans ((Table.orderBy_perm _ _).map _)

theorem mem_pathBlocks_txns {r : BlockDAO} {t : Transaction} :
    t ∈ txnsOf (db.pathBlocks r) ↔ ∃ u ∈ db.pathRows r, Transaction.fromDao db u = t := by
  simp only [txnsOf, pathBlocks, List.mem_flatMap, List.mem_map, mem_pathRows]
  constructor
  · rintro ⟨-, ⟨c, hc, rfl⟩, ht⟩
    obtain ⟨u, hu, rfl⟩ := mem_fromDao_txns.1 ht
    exact ⟨u, ⟨c, hc, hu⟩, rfl⟩
  · rintro ⟨u, ⟨c, hc, hu⟩, rfl⟩
    exact ⟨_, ⟨c, hc, rfl⟩, mem_fromDao_txns.2 ⟨u, hu, rfl⟩⟩

/-- What the walk finds is what is found among the blocks read back. -/
theorem find_pathBlocks (hs : db.Schema E) {r : BlockDAO} (txid : Str) :
    (txnsOf (db.pathBlocks r)).find? (fun t => t.txid = some txid) =
      (db.walkTransaction r txid).map (Transaction.fromDao db) := by
  cases hw : db.walkTransaction r txid with
  | none =>
    refine List.find?_eq_none.2 fun t ht hx => ?_
    obtain ⟨u, hu, rfl⟩ := mem_pathBlocks_txns.1 ht
    have hux : u.txid = txid := by simpa [Transaction.fromDao] using hx
    rw [(walkTransaction_eq_some hs).2 ⟨hu, hux⟩] at hw
    exact absurd hw (Option.some_ne_none u)
  | some u =>
    obtain ⟨hu, hux⟩ := (walkTransaction_eq_some hs).1 hw
    have hmem := mem_pathBlocks_txns.2 ⟨u, hu, rfl⟩
    cases hf : (txnsOf (db.pathBlocks r)).find? (fun t => t.txid = some txid) with
    | none =>
      exact absurd (List.find?_eq_none.1 hf _ hmem) (by simp [Transaction.fromDao, hux])
    | some t =>
      obtain ⟨v, hv, rfl⟩ := mem_pathBlocks_txns.1 (List.mem_of_find?_eq_some hf)
      have hvx : v.txid = txid := by simpa [Transaction.fromDao] using List.find?_some hf
      rw [(walkTransaction_eq_some hs).2 ⟨hv, hvx⟩, Option.some.injEq] at hw
      rw [hw]
      rfl

end Database

namespace Ledger

open Database

/-- The ledger of some transactions on top of a list of blocks. -/
def above (txns : List Transaction) (ancestors : List Block) : Ledger where
  getTransaction txid := .ok ((txns ++ txnsOf ancestors).find? fun t => t.txid = some txid)
  getInflowsCount txid idx :=
    countInflows txns txid idx + if 0 < countInflows (txnsOf ancestors) txid idx then 1 else 0

theorem countInflows_pos {txns : List Transaction} {txid : Str} {idx : ℕ} :
    0 < countInflows txns txid idx ↔ ∃ t ∈ txns, ⟨some txid, some idx⟩ ∈ t.inflows := by
  rw [countInflows, List.countP_pos_iff]
  constructor
  · rintro ⟨⟨x, n⟩, hi, hp⟩
    obtain ⟨t, ht, hit⟩ := List.mem_flatMap.1 hi
    obtain ⟨rfl, rfl⟩ : x = some txid ∧ n = some idx := by simpa using hp
    exact ⟨t, ht, hit⟩
  · rintro ⟨t, ht, hi⟩
    exact ⟨_, List.mem_flatMap.2 ⟨t, ht, hi⟩, by simp⟩

variable {E : Env} {db : Database} {b : Block}

theorem spentOnWalk_iff {r : BlockDAO} {txid : Str} {idx : ℕ} :
    db.SpentOnWalk r txid idx ↔ 0 < countInflows (txnsOf (db.pathBlocks r)) txid idx := by
  rw [countInflows_pos, SpentOnWalk]
  constructor
  · rintro ⟨u, hu, i, hi, rfl, rfl⟩
    exact ⟨_, mem_pathBlocks_txns.2 ⟨u, hu, rfl⟩, List.mem_map.2 ⟨i, hi, rfl⟩⟩
  · rintro ⟨t, ht, hi⟩
    obtain ⟨u, hu, rfl⟩ := mem_pathBlocks_txns.1 ht
    obtain ⟨i, hi, heq⟩ := List.mem_map.1 hi
    rw [Inflow.fromDao, Inflow.mk.injEq, Option.some.injEq, Option.some.injEq] at heq
    exact ⟨u, hu, i, hi, heq.1, heq.2⟩

/-- From a stored block down, the queries answer from its root path. -/
theorem from_saved (hs : db.Schema E) (h : db.Tree) {r : BlockDAO} (fuel : ℕ)
    (hr : db.blockByHash b.blockHash = some r) :
    (∀ txid, getTransactionFrom db txid (fuel + 1) b =
        .ok ((txnsOf (db.pathBlocks r)).find? fun t => t.txid = some txid)) ∧
      ∀ txid idx, getInflowsCountFrom db txid idx (fuel + 1) b =
        if 0 < countInflows (txnsOf (db.pathBlocks r)) txid idx then 1 else 0 := by
  have hmem := (blockByHash_mem hr).1
  refine ⟨fun txid => ?_, fun txid idx => ?_⟩
  · rw [getTransactionFrom, hr]
    simp only
    rw [h.getTransactionInChain_eq hs hmem, ok_bind, find_pathBlocks hs]
    rfl
  · rw [getInflowsCountFrom, hr]
    simp only
    rw [h.inflowsInChainCount_eq hs hmem, if_congr spentOnWalk_iff rfl rfl]

/-- A stored block shows the ledger of its root path. -/
theorem ofDb_saved (hs : db.Schema E) (h : db.Tree) {r : BlockDAO}
    (hr : db.blockByHash b.blockHash = some r) : ofDb db b = above [] (db.pathBlocks r) := by
  obtain ⟨hfind, hcount⟩ := from_saved hs h 1 hr
  rw [ofDb, above, mk.injEq]
  refine ⟨funext fun txid => hfind txid, funext fun txid => funext fun idx => ?_⟩
  rw [hcount]
  exact (Nat.zero_add _).symm

theorem blockByHash_fromDao {h : Option Str} {p : BlockDAO} (hp : db.blockByHash h = some p) :
    db.blockByHash (Block.fromDao db p).blockHash = some p := by
  rw [show (Block.fromDao db p).blockHash = some p.blockHash from rfl, ← (blockByHash_mem hp).2]
  exact hp

/-- A block that is not stored shows its own transactions on top of its
ancestors. -/
theorem ofDb_unsaved (hs : db.Schema E) (h : db.Tree) (hnew : db.blockByHash b.blockHash = none) :
    ofDb db b = above b.txns (db.ancestors b) := by
  rw [ofDb, above, mk.injEq]
  refine ⟨funext fun txid => ?_, funext fun txid => funext fun idx => ?_⟩
  · rw [getTransactionFrom, hnew]
    simp only
    rw [List.find?_append]
    cases b.txns.find? fun t => t.txid = some txid with
    | some t => rfl
    | none =>
      rw [Option.none_or]
      unfold ancestors Block.fromDb
      cases hp : db.blockByHash b.prevHash with
      | none => rfl
      | some p => exact (from_saved hs h 0 (blockByHash_fromDao hp)).1 txid
  · rw [getInflowsCountFrom, hnew]
    simp only
    unfold ancestors Block.fromDb
    cases hp : db.blockByHash b.prevHash with
    | none => rfl
    | some p => exact congrArg _ ((from_saved hs h 0 (blockByHash_fromDao hp)).2 txid idx)

end Ledger

/-! ## The target -/

namespace Database

variable {E : Env} {db : Database}

/-- Along a root path the index falls by one. -/
theorem Tree.idx_getElem (h : db.Tree) {k : ℕ} : ∀ {p c : BlockDAO}, p ∈ db.blocks →
    (db.path p)[k]? = some c → c.idx + k = p.idx := by
  induction k with
  | zero =>
    intro p c _ hc
    rw [path, Forest.path, Forest.walk, List.getElem?_cons_zero, Option.some.injEq] at hc
    rw [hc, add_zero]
  | succ k ih =>
    intro p c hp hc
    cases hq : db.prev p with
    | none =>
      rw [path, Forest.path_none hq] at hc
      exact absurd hc (by simp)
    | some q =>
      rw [path, Forest.path_some h.ranked hp hq, List.getElem?_cons_succ] at hc
      have := ih (prev_mem hq).1 hc
      have := h.idx p hp q hq
      omega

/-- Asking a stored block's ancestry for an index is asking its root path for a
place. -/
theorem Tree.walkBlock_idx (hs : db.Schema E) (h : db.Tree) (hz : db.RootsAtZero) {p : BlockDAO}
    (hp : p ∈ db.blocks) {k : ℕ} (hk : k ≤ p.idx) :
    db.walkBlock p none (some (p.idx - k)) = (db.path p)[k]? := by
  have hlt : k < (db.path p).length := by
    rw [h.length_path hz hp]
    omega
  have hget := List.getElem?_eq_getElem hlt
  have hidx := h.idx_getElem hp hget
  rw [hget, h.walkBlock_eq_some hs hp (Or.inr (by simp))]
  refine ⟨List.getElem_mem hlt, matchesBlock_iff.2 ⟨by simp, fun i hi => ?_⟩⟩
  rw [Option.some.injEq] at hi
  omega

end Database

namespace Chain

open Database

variable {E : Env} {db : Database} {s : Session} {b : Block}

/-- The `i`-th block of a stored block's chain. -/
theorem nthBlock_eq (h : db.Tree) (hl : db.Linked E) {k : ℕ} : ∀ {fuel : ℕ} {p : BlockDAO},
    p ∈ db.blocks → p.idx < fuel →
    nthBlock E db fuel k (Block.fromDao db p) = .ok ((db.pathBlocks p)[k]?) := by
  induction k with
  | zero =>
    intro fuel p _ hf
    obtain ⟨n, rfl⟩ : ∃ n, fuel = n + 1 := ⟨fuel - 1, by omega⟩
    rw [nthBlock, if_pos Nat.cast_zero, pathBlocks, path, Forest.path, Forest.walk, List.map_cons,
      List.getElem?_cons_zero]
  | succ k ih =>
    intro fuel p hp hf
    obtain ⟨n, rfl⟩ : ∃ n, fuel = n + 1 := ⟨fuel - 1, by omega⟩
    have hgen : isGenesisBlock E (Block.fromDao db p) = true ↔ db.prev p = none := by
      rw [hl.genesis p hp, isGenesisBlock, decide_eq_true_eq]
      exact Option.some_inj
    have hprev : Block.fromDb db (Block.fromDao db p).prevHash =
        (db.prev p).map (Block.fromDao db) := by
      rw [← hl.prev p hp]
      rfl
    rw [nthBlock, if_neg (by omega), hprev]
    cases hq : db.prev p with
    | none =>
      simp only [Option.map_none]
      rw [if_pos (hgen.2 hq), pathBlocks, path, Forest.path_none hq]
      rfl
    | some q =>
      have hngen : ¬ isGenesisBlock E (Block.fromDao db p) = true :=
        fun hc => absurd (hgen.1 hc) (by rw [hq]; exact Option.some_ne_none q)
      have hqi := h.idx p hp q hq
      simp only [Option.map_some]
      rw [if_neg hngen, Nat.cast_succ, add_sub_cancel_right, ih (prev_mem hq).1 (by omega),
        pathBlocks, pathBlocks, path, path, Forest.path_some h.ranked hp hq, List.map_cons,
        List.getElem?_cons_succ]

/-- `Node.add_block`'s handle has the previous block for its tip; looking for its
row moves nothing. -/
theorem toDao_chainFor :
    ((Node.chainFor s.db b).toDao s = .ok (s.db.chainDao b.prevHash none, s)) ∧
      (Node.chainFor s.db b).blockHash = b.prevHash := by
  unfold Node.chainFor fromDb
  cases hc : s.db.chainDao b.prevHash none with
  | none =>
    refine ⟨?_, rfl⟩
    cases hp : b.prevHash with
    | none => rfl
    | some h =>
      rw [hp] at hc
      simp [toDao, hc]
  | some dao =>
    have hhash : b.prevHash = some dao.blockHash := by
      unfold chainDao at hc
      split_ifs at hc with ht
      · obtain ⟨-, hkey⟩ := Table.byKey_mem hc
        cases hp : b.prevHash with
        | none => rw [hp] at ht; exact absurd ht (by simp)
        | some h => rw [hp] at hkey; exact congrArg some hkey.symm
      · exact absurd hc (by simp)
    refine ⟨?_, hhash.symm⟩
    rw [hhash] at hc
    simp [toDao, hc]

/-- The row of a handle whose tip is stored stands for that tip. -/
theorem chainDao_tip (hs : s.db.Schema E) (hr : s.db.ChainRows) {h : Option Str} {p : BlockDAO}
    {dao : ChainDAO} (hp : s.db.blockByHash h = some p) (hd : s.db.chainDao h none = some dao) :
    s.db.blockById dao.blockId = some p := by
  obtain ⟨hpm, rfl⟩ := blockByHash_mem hp
  unfold chainDao at hd
  split_ifs at hd
  · obtain ⟨hdm, hkey⟩ := Table.byKey_mem hd
    obtain ⟨q, hq, hqid, hqh, -⟩ := hr.tip dao hdm
    rw [Option.getD_some, hqh] at hkey
    rw [blockById_eq_some hs, hqid]
    exact ⟨hpm, congrArg BlockDAO.id
      (List.inj_on_of_nodup_map hs.blockHashes hpm hq hkey.symm)⟩
  · exact absurd hd (by simp)

/-- Looking into the chain of a handle whose row, if it has one, stands for its tip:
the places of the tip's root path, through the row as through a walk. -/
theorem getBlockByReverseIndex_eq (hs : s.db.Schema E) (h : s.db.Tree) (hl : s.db.Linked E)
    (hr : s.db.ChainRows) {c : Chain} {p : BlockDAO}
    (hdao : c.toDao s = .ok (s.db.chainDao c.blockHash none, s))
    (hp : s.db.blockByHash c.blockHash = some p) (k : ℕ) :
    c.getBlockByReverseIndex E k s = .ok ((s.db.pathBlocks p)[k]?, s) := by
  have hpm := (blockByHash_mem hp).1
  have hlast : c.lastBlock s.db = some (Block.fromDao s.db p) := by
    rw [lastBlock, Block.fromDb, hp]
    rfl
  rw [getBlockByReverseIndex, hdao, ok_bind]
  cases hd : s.db.chainDao c.blockHash none with
  | none =>
    simp only
    rw [hlast]
    simp only
    rw [show (Block.fromDao s.db p).idx = some p.idx from rfl, Option.getD_some,
      nthBlock_eq h hl hpm (Nat.lt_succ_self _), ok_bind]
    rfl
  | some dao =>
    simp only
    rw [chainDao_tip hs hr hp hd, hlast]
    simp only [Option.bind_some]
    rw [show (Block.fromDao s.db p).idx = some p.idx from rfl, Option.getD_some]
    by_cases hk : k ≤ p.idx
    · rw [if_neg (by omega), show ((p.idx : ℤ) - k).toNat = p.idx - k by omega,
        h.getBlockInChain_eq hs hpm (Or.inr (by simp)), h.walkBlock_idx hs hl.root hpm hk, ok_bind,
        pathBlocks, List.getElem?_map]
      rfl
    · rw [if_pos (by omega), ok_bind, List.getElem?_eq_none]
      · rfl
      · rw [pathBlocks, List.length_map, h.length_path hl.root hpm]
        omega

/-- The target of the block after some ancestors. -/
def targetAfter (E : Env) (ancestors : List Block) : Except Err Str :=
  match ancestors with
  | [] => .ok maxTarget
  | prevBlock :: _ =>
    if ((prevBlock.idx.getD 0 + 1 : ℕ) : ℤ) % targetInterval = 0 then
      match ancestors[23]? with
      | none => .ok prevBlock.target
      | some startBlock => scaledTarget E prevBlock startBlock
    else .ok prevBlock.target

/-- **The target below a tip** is that after the blocks that far down, at whatever
height the handle stands by now. -/
theorem blockTarget_below (hs : s.db.Schema E) (h : s.db.Tree) (hl : s.db.Linked E)
    (hr : s.db.ChainRows) {c : Chain} {p : BlockDAO}
    (hdao : c.toDao s = .ok (s.db.chainDao c.blockHash none, s))
    (hp : s.db.blockByHash c.blockHash = some p) {n d : ℕ} (hidx : b.idx = some (n + 1))
    (hd : p.idx = n + d) : c.blockTarget E (some b) s =
      (targetAfter E ((s.db.pathBlocks p).drop d)).map fun t => (t, s) := by
  have hpm := (blockByHash_mem hp).1
  have hget := getBlockByReverseIndex_eq hs h hl hr hdao hp
  have hlt : d < (s.db.path p).length := by
    rw [h.length_path hl.root hpm]
    omega
  -- the block `d` places down has the index before the block's
  have hq := List.getElem?_eq_getElem hlt
  have hqidx := h.idx_getElem hpm hq
  have hdrop : (s.db.pathBlocks p).drop d =
      Block.fromDao s.db (s.db.path p)[d] :: (s.db.pathBlocks p).drop (d + 1) := by
    rw [pathBlocks, ← List.map_drop, List.drop_eq_getElem_cons hlt, List.map_cons, List.map_drop]
  have hfirst : (s.db.pathBlocks p)[d]? = some (Block.fromDao s.db (s.db.path p)[d]) := by
    rw [pathBlocks, List.getElem?_map, hq]
    rfl
  unfold blockTarget
  rw [lastBlock, Block.fromDb, hp]
  simp only [Option.map_some, hidx, Option.getD_some]
  rw [show (Block.fromDao s.db p).idx = some p.idx from rfl, Option.getD_some, if_neg (by omega),
    show (p.idx : ℤ) - ((n + 1 : ℕ) : ℤ) + 1 = (d : ℕ) by omega, hget d, ok_bind, hfirst]
  simp only
  rw [hdrop, targetAfter, show (Block.fromDao s.db (s.db.path p)[d]).idx = some (s.db.path p)[d].idx from rfl,
    Option.getD_some, show (s.db.path p)[d].idx = n by omega]
  split_ifs with h24
  · rw [show (p.idx : ℤ) - ((n + 1 : ℕ) : ℤ) + targetInterval = (d + 23 : ℕ) by
      rw [targetInterval]; omega, hget (d + 23), ok_bind, ← hdrop, List.getElem?_drop]
    cases (s.db.pathBlocks p)[d + 23]? with
    | none => rfl
    | some startBlock =>
      simp only
      cases scaledTarget E (Block.fromDao s.db (s.db.path p)[d]) startBlock <;> rfl
  · rfl

/-- **The target depends on the ancestors alone**, whether they are reached
through a chain row or through a walk. -/
theorem blockTarget_eq (hs : s.db.Schema E) (h : s.db.Tree) (hl : s.db.Linked E)
    (hr : s.db.ChainRows)
    (hidx : ∀ p, s.db.blockByHash b.prevHash = some p → b.idx = some (p.idx + 1)) :
    (Node.chainFor s.db b).blockTarget E (some b) s =
      (targetAfter E (s.db.ancestors b)).map fun t => (t, s) := by
  obtain ⟨hdao, hhash⟩ := toDao_chainFor (s := s) (b := b)
  cases hp : s.db.blockByHash b.prevHash with
  | none =>
    unfold blockTarget ancestors
    rw [lastBlock, Block.fromDb, hhash, hp]
    rfl
  | some p =>
    rw [← hhash] at hdao
    rw [blockTarget_below hs h hl hr hdao (hhash ▸ hp) (hidx p hp) (add_zero _).symm, ancestors, hp]
    rfl

/-! ## Validation -/

/-- `validate_block` as a function of the ancestors: of the check for another
genesis, of the ledger shown from the block, and of the blocks below it. -/
def validateAbove (E : Env) (now : DateTime) (genesis : Except Err Unit) (L : Ledger)
    (ancestors : List Block) (b : Block) : Except Err Unit := do
  b.validate E
  validateClock now b
  genesis
  validateLink E ancestors.head? b
  let target ← targetAfter E ancestors
  ensure (b.target = target) .invalidTarget
  let metrics ← L.validateBlockTxns {} b.regularTxns
  Ledger.wrapCoinbaseError (Ledger.validateBlockCoinbase E b metrics)

theorem head?_ancestors (db : Database) (b : Block) :
    (db.ancestors b).head? = Block.fromDb db b.prevHash := by
  unfold ancestors Block.fromDb
  cases db.blockByHash b.prevHash with
  | none => rfl
  | some p =>
    show (db.pathBlocks p).head? = some (Block.fromDao db p)
    rw [pathBlocks, path, Forest.path, Forest.walk]
    rfl

/-- What an accepted link says. -/
theorem validateLink_eq_ok {prevBlock : Option Block} {x : Unit}
    (h : validateLink E prevBlock b = .ok x) :
    (prevBlock = none → isGenesisBlock E b = true ∧ b.idx = some 0) ∧
      ∀ p, prevBlock = some p →
        (∀ n, p.idx = some n → b.idx = some (n + 1)) ∧
        (isGenesisBlock E b = true ∨ b.prevHash = p.blockHash) ∧
        ∀ prevTs ts, p.timestampDt = some prevTs → b.timestampDt = some ts →
          prevTs.toSeconds ≤ ts.toSeconds := by
  unfold validateLink at h
  obtain ⟨u, h1, h⟩ := bind_eq_ok.1 h
  obtain ⟨v, h2, h⟩ := bind_eq_ok.1 h
  obtain ⟨w, h3, h4⟩ := bind_eq_ok.1 h
  rw [ensure_eq_ok] at h1 h3 h4
  obtain ⟨m, hm, hidx⟩ := Option.map_eq_some_iff.1 h4
  constructor
  · rintro rfl
    refine ⟨?_, ?_⟩
    · by_contra hg
      exact h1 ⟨rfl, Bool.not_eq_true _ ▸ hg⟩
    · rw [prevIndex, Option.bind_none] at hidx
      rw [hm, show m = 0 by simpa using hidx]
  · rintro p rfl
    refine ⟨fun n hn => ?_, ?_, fun prevTs ts hprev hts => ?_⟩
    · rw [prevIndex, Option.bind_some, hn] at hidx
      rw [hm, show m = n + 1 by simp only at hidx; omega]
    · by_cases hg : isGenesisBlock E b = true
      · exact Or.inl hg
      · rw [Bool.not_eq_true] at hg
        exact Or.inr (by simpa [hg] using h3)
    · rw [validateNotEarlier, Option.bind_some, hprev, hts] at h2
      exact ensure_eq_ok.1 h2

/-- The link check of a block with a stored predecessor fixes its index. -/
theorem idx_of_validateLink {x : Unit}
    (h : validateLink E (Block.fromDb db b.prevHash) b = .ok x) {p : BlockDAO}
    (hp : db.blockByHash b.prevHash = some p) : b.idx = some (p.idx + 1) := by
  have hprev : Block.fromDb db b.prevHash = some (Block.fromDao db p) := by
    rw [Block.fromDb, hp]
    rfl
  exact ((validateLink_eq_ok h).2 _ hprev).1 p.idx rfl

/-- **`validate_block` looks at the ancestors only**, on the handle that
`Node.add_block` chooses. -/
theorem validateBlock_eq (hs : s.db.Schema E) (h : s.db.Tree) (hl : s.db.Linked E)
    (hr : s.db.ChainRows) (now : DateTime) :
    (Node.chainFor s.db b).validateBlock E now b s =
      (validateAbove E now (validateGenesis E s.db b) (Ledger.ofDb s.db b) (s.db.ancestors b) b).map
        fun _ => s := by
  unfold validateBlock validateAbove
  rw [head?_ancestors]
  cases b.validate E with
  | error e => rfl
  | ok u =>
    cases validateClock now b with
    | error e => rfl
    | ok u =>
      cases validateGenesis E s.db b with
      | error e => rfl
      | ok u =>
        cases hlink : validateLink E (Block.fromDb s.db b.prevHash) b with
        | error e => rfl
        | ok u =>
          simp only [ok_bind]
          rw [blockTarget_eq hs h hl hr fun p hp => idx_of_validateLink hlink hp]
          cases targetAfter E (s.db.ancestors b) with
          | error e => rfl
          | ok target =>
            show (ensure (b.target = target) .invalidTarget >>= _) = _
            rw [ok_bind]
            cases ensure (b.target = target) .invalidTarget with
            | error e => rfl
            | ok u =>
              simp only [ok_bind]
              cases (Ledger.ofDb s.db b).validateBlockTxns {} b.regularTxns with
              | error e => rfl
              | ok m =>
                simp only [ok_bind]
                cases Ledger.wrapCoinbaseError (Ledger.validateBlockCoinbase E b m) <;> rfl

end Chain

end GumptionChain
