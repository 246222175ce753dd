import GumptionChain.Node

/-!
# What saving a chain does to the rows

Handles move or add chain rows, and a row's upkeep rewrites the longest-chain
table and prunes.  None of it touches the block tables.

* `Database.SameLedger` — two databases with the same block tables;
* `Session.Moved` — the reads of a handle may move a chain row, no more;
* `Chain.toDb_spec` — saving a handle finds, moves or adds the row of its tip
  (`Placed`), then looks after the table; it fails on no stored tip;
* `Session.sync_spec` — what the upkeep may change.
-/

namespace GumptionChain

namespace Database

variable {E : Env} {db db' db'' : Database}

/-- The block tables are the same. -/
def SameLedger (db db' : Database) : Prop :=
  ∃ chains table pending, db' = { db with
    chains := chains, longestChainBlocks := table, pendingTxns := pending }

theorem SameLedger.refl (db : Database) : db.SameLedger db := ⟨_, _, _, rfl⟩

theorem SameLedger.symm (h : db.SameLedger db') : db'.SameLedger db := by
  obtain ⟨_, _, _, rfl⟩ := h
  exact ⟨db.chains, db.longestChainBlocks, db.pendingTxns, rfl⟩

theorem SameLedger.trans (h : db.SameLedger db') (h' : db'.SameLedger db'') :
    db.SameLedger db'' := by
  obtain ⟨_, _, _, rfl⟩ := h
  obtain ⟨c, t, p, rfl⟩ := h'
  exact ⟨c, t, p, rfl⟩

theorem SameLedger.blocks (h : db.SameLedger db') : db'.blocks = db.blocks := by
  obtain ⟨_, _, _, rfl⟩ := h
  rfl

theorem SameLedger.blockByHash (h : db.SameLedger db') : db'.blockByHash = db.blockByHash := by
  obtain ⟨_, _, _, rfl⟩ := h
  rfl

theorem SameLedger.blockById (h : db.SameLedger db') : db'.blockById = db.blockById := by
  obtain ⟨_, _, _, rfl⟩ := h
  rfl

theorem SameLedger.path (h : db.SameLedger db') : db'.path = db.path := by
  obtain ⟨_, _, _, rfl⟩ := h
  rfl

theorem SameLedger.schema (h : db.SameLedger db') (hs : db.Schema E) : db'.Schema E := by
  obtain ⟨_, _, _, rfl⟩ := h
  cases hs
  constructor <;> assumption

theorem SameLedger.rootsAtZero (h : db.SameLedger db') (hz : db.RootsAtZero) :
    db'.RootsAtZero := by
  obtain ⟨_, _, _, rfl⟩ := h
  exact hz

/-- The tree of blocks is the same, and still has some root path for its table. -/
theorem SameLedger.tree (h : db.SameLedger db') (ht : db.Tree)
    (htable : db'.longestChainBlocks = db.longestChainBlocks ∨
      ∃ t ∈ db.blocks, db'.Materializes t) : db'.Tree := by
  obtain ⟨_, _, _, rfl⟩ := h
  refine ⟨ht.idx, ht.txidOnce, ?_⟩
  rcases htable with hsame | hm
  · have hsame' : _ = db.longestChainBlocks := hsame
    rcases ht.materialized with hnil | ⟨t, htm, hm⟩
    · exact Or.inl (hsame'.trans hnil)
    · exact Or.inr ⟨t, htm, (List.Perm.of_eq hsame').trans hm⟩
  · exact Or.inr hm

/-- Rows about stored blocks stay so when some rows go. -/
theorem ChainRows.sublist (hr : db.ChainRows) (h : db.SameLedger db')
    (hsub : db'.chains.Sublist db.chains) : db'.ChainRows :=
  ⟨hr.ids.sublist (hsub.map _), hr.hashes.sublist (hsub.map _), fun c hc => by
    rw [h.blocks]
    exact hr.tip c (hsub.subset hc)⟩

/-- A row is found by its tip's hash. -/
theorem chainDao_eq_some (hr : db.ChainRows) {h : Str} (hne : h ≠ []) {row : ChainDAO} :
    db.chainDao (some h) none = some row ↔ row ∈ db.chains ∧ row.blockHash = h := by
  rw [chainDao, if_pos ((truthy_some h).2 hne), Option.getD_some]
  exact Table.byKey_eq_some hr.hashes

theorem chainDao_eq_none {h : Str} (hne : h ≠ []) :
    db.chainDao (some h) none = none ↔ ∀ c ∈ db.chains, c.blockHash ≠ h := by
  rw [chainDao, if_pos ((truthy_some h).2 hne), Option.getD_some]
  exact Table.byKey_eq_none

theorem mem_of_chainDao_id {i : ℕ} {row : ChainDAO} (h : db.chainDao none (some i) = some row) :
    row ∈ db.chains ∧ row.id = i := by
  rw [chainDao, if_neg (by simp)] at h
  exact Table.byKey_mem h

theorem mem_of_chainDao_hash {h : Option Str} {row : ChainDAO} (hd : db.chainDao h none = some row) :
    row ∈ db.chains ∧ h = some row.blockHash := by
  unfold chainDao at hd
  split_ifs at hd with ht
  · obtain ⟨hmem, hkey⟩ := Table.byKey_mem hd
    cases h with
    | none => exact absurd ht (by simp)
    | some x => exact ⟨hmem, congrArg some hkey.symm⟩
  · exact absurd hd (by simp)

theorem blockByHash_ne_nil {h : Str} {blk : BlockDAO} (hb : db.blockByHash (some h) = some blk) :
    h ≠ [] := by
  rintro rfl
  exact absurd hb (by simp [blockByHash])

end Database

namespace Session

open Database

variable {E : Env} {s s' s'' : Session} {blk : BlockDAO}

/-- The row of a tip. -/
def rowAt (id : ℕ) (blk : BlockDAO) : ChainDAO := ⟨id, blk.blockHash, blk.id, blk.idx⟩

/-- The session with a row moved to a tip. -/
def withMoved (s : Session) (id : ℕ) (blk : BlockDAO) : Session :=
  { s with db := { s.db with
    chains := s.db.chains.map fun c => if c.id = id then rowAt id blk else c } }

/-- The session with a new row for a tip. -/
def withAdded (s : Session) (blk : BlockDAO) : Session :=
  let id := Table.fresh (s.db.chains.map ChainDAO.id)
  { s with
    db := { s.db with chains := s.db.chains ++ [rowAt id blk] }
    cache := Function.update s.cache id none }

theorem setBlockHash_eq {row : ChainDAO} {h : Str} (hb : s.db.blockByHash (some h) = some blk) :
    s.setBlockHash row h = .ok (rowAt row.id blk, s.withMoved row.id blk) := by
  have hh : h = blk.blockHash := Option.some.inj (blockByHash_mem hb).2
  rw [setBlockHash, hb, hh]
  rfl

theorem insertChain_eq {h : Str} (hb : s.db.blockByHash (some h) = some blk) :
    s.insertChain h = .ok (rowAt (Table.fresh (s.db.chains.map ChainDAO.id)) blk,
      s.withAdded blk) := by
  have hh : h = blk.blockHash := Option.some.inj (blockByHash_mem hb).2
  rw [insertChain, hb, hh]
  rfl

theorem mem_withMoved {id : ℕ} {c : ChainDAO} : c ∈ (s.withMoved id blk).db.chains ↔
    (c ∈ s.db.chains ∧ c.id ≠ id) ∨ (c = rowAt id blk ∧ ∃ d ∈ s.db.chains, d.id = id) := by
  rw [withMoved, List.mem_map]
  constructor
  · rintro ⟨d, hd, rfl⟩
    split_ifs with hid
    · exact Or.inr ⟨rfl, d, hd, hid⟩
    · exact Or.inl ⟨hd, hid⟩
  · rintro (⟨hc, hid⟩ | ⟨rfl, d, hd, hid⟩)
    · exact ⟨c, hc, if_neg hid⟩
    · exact ⟨d, hd, if_pos hid⟩

/-- Moving a row to a tip that has none keeps the rows in order. -/
theorem chainRows_withMoved (hr : s.db.ChainRows) (hb : blk ∈ s.db.blocks) {id : ℕ}
    (hfree : ∀ c ∈ s.db.chains, c.blockHash ≠ blk.blockHash) :
    (s.withMoved id blk).db.ChainRows := by
  refine ⟨?_, ?_, fun c hc => ?_⟩
  · have hids : (s.withMoved id blk).db.chains.map ChainDAO.id = s.db.chains.map ChainDAO.id := by
      rw [withMoved, List.map_map]
      refine List.map_congr_left fun c _ => ?_
      by_cases hid : c.id = id
      · rw [Function.comp_apply, if_pos hid, hid]
        rfl
      · rw [Function.comp_apply, if_neg hid]
    rw [hids]
    exact hr.ids
  · rw [withMoved, List.map_map]
    refine List.pairwise_map.2 (((List.pairwise_map.1 hr.ids).and
      (List.pairwise_map.1 hr.hashes)).imp_of_mem ?_)
    rintro c d hc hd ⟨hids, hhash⟩
    simp only [Function.comp_apply]
    split_ifs with h1 h2 h2
    · exact absurd (h1.trans h2.symm) hids
    · exact fun heq => hfree d hd heq.symm
    · exact hfree c hc
    · exact hhash
  · rcases mem_withMoved.1 hc with ⟨hc, -⟩ | ⟨rfl, -⟩
    · exact hr.tip c hc
    · exact ⟨blk, hb, rfl, rfl, rfl⟩

theorem chainRows_withAdded (hr : s.db.ChainRows) (hb : blk ∈ s.db.blocks)
    (hfree : ∀ c ∈ s.db.chains, c.blockHash ≠ blk.blockHash) : (s.withAdded blk).db.ChainRows := by
  refine ⟨?_, ?_, fun c hc => ?_⟩
  · rw [withAdded, List.map_append, List.nodup_append]
    refine ⟨hr.ids, List.nodup_singleton _, ?_⟩
    rintro x hx y hy rfl
    rw [List.map_singleton, List.mem_singleton] at hy
    subst hy
    exact Table.fresh_notMem (s.db.chains.map ChainDAO.id) hx
  · rw [withAdded, List.map_append, List.nodup_append]
    refine ⟨hr.hashes, List.nodup_singleton _, ?_⟩
    rintro x hx y hy rfl
    rw [List.map_singleton, List.mem_singleton] at hy
    obtain ⟨c, hc, rfl⟩ := List.mem_map.1 hx
    exact hfree c hc hy
  · rcases List.mem_append.1 hc with hc | hc
    · exact hr.tip c hc
    · rw [List.mem_singleton.1 hc]
      exact ⟨blk, hb, rfl, rfl, rfl⟩

/-! ## Reads of a handle -/

/-- No more happened than that a chain row was moved. -/
def Moved (s s' : Session) : Prop :=
  ∃ chains, s' = { s with db := { s.db with chains := chains } } ∧
    (s.db.ChainRows → s'.db.ChainRows)

theorem Moved.refl (s : Session) : s.Moved s := ⟨_, rfl, id⟩

theorem Moved.trans (h : s.Moved s') (h' : s'.Moved s'') : s.Moved s'' := by
  obtain ⟨c, rfl, hr⟩ := h
  obtain ⟨c', rfl, hr'⟩ := h'
  exact ⟨c', rfl, fun h => hr' (hr h)⟩

theorem Moved.sameLedger (h : s.Moved s') : s.db.SameLedger s'.db := by
  obtain ⟨c, rfl, -⟩ := h
  exact ⟨_, _, _, rfl⟩

end Session

namespace Chain

open Database

variable {E : Env} {c : Chain} {s s' : Session}

theorem toDao_moved {dao : Option ChainDAO} (h : c.toDao s = .ok (dao, s')) : s.Moved s' := by
  unfold toDao at h
  split at h
  · cases h
    exact Session.Moved.refl s
  · rename_i hash _
    split at h
    · cases h
      exact Session.Moved.refl s
    · rename_i hnone
      split at h
      · cases h
        exact Session.Moved.refl s
      · rename_i row _
        obtain ⟨⟨moved, s1⟩, hset, h⟩ := bind_eq_ok.1 h
        cases h
        cases hb : s.db.blockByHash (some hash) with
        | none =>
          rw [Session.setBlockHash, hb] at hset
          exact absurd hset (by simp)
        | some blk =>
          rw [Session.setBlockHash_eq hb] at hset
          cases hset
          obtain ⟨hbm, hhash⟩ := blockByHash_mem hb
          refine ⟨_, rfl, fun hr => Session.chainRows_withMoved hr hbm ?_⟩
          rw [← Option.some.inj hhash]
          exact (chainDao_eq_none (blockByHash_ne_nil hb)).1 hnone

theorem getBlockByReverseIndex_moved {i : ℤ} {r : Option Block}
    (h : c.getBlockByReverseIndex E i s = .ok (r, s')) : s.Moved s' := by
  unfold getBlockByReverseIndex at h
  obtain ⟨⟨dao, s1⟩, hdao, h⟩ := bind_eq_ok.1 h
  have hm := toDao_moved hdao
  cases dao with
  | some dao =>
    simp only at h
    split at h
    · exact absurd h (by simp)
    · split_ifs at h
      all_goals
        obtain ⟨x, -, h⟩ := bind_eq_ok.1 h
        cases h
        exact hm
  | none =>
    simp only at h
    split at h
    · cases h
      exact hm
    · obtain ⟨x, -, h⟩ := bind_eq_ok.1 h
      cases h
      exact hm

theorem blockTarget_moved {b : Option Block} {t : Str} (h : c.blockTarget E b s = .ok (t, s')) :
    s.Moved s' := by
  unfold blockTarget at h
  split at h
  · cases h
    exact Session.Moved.refl s
  · simp only at h
    split_ifs at h with h0 h24
    · cases h
      exact Session.Moved.refl s
    · obtain ⟨⟨prevBlock, s1⟩, hprev, h⟩ := bind_eq_ok.1 h
      have hm := getBlockByReverseIndex_moved hprev
      cases prevBlock with
      | none =>
        cases h
        exact hm
      | some prevBlock =>
        obtain ⟨⟨startBlock, s2⟩, hstart, h⟩ := bind_eq_ok.1 h
        have hm' := hm.trans (getBlockByReverseIndex_moved hstart)
        cases startBlock with
        | none =>
          cases h
          exact hm'
        | some startBlock =>
          obtain ⟨x, -, h⟩ := bind_eq_ok.1 h
          cases h
          exact hm'
    · obtain ⟨⟨prevBlock, s1⟩, hprev, h⟩ := bind_eq_ok.1 h
      have hm := getBlockByReverseIndex_moved hprev
      cases prevBlock <;> cases h <;> exact hm

/-- What an accepted block passed, on whatever handle. -/
theorem validateBlock_spec {b : Block} {now : DateTime} (h : c.validateBlock E now b s = .ok s') :
    s.Moved s' ∧ b.Valid E ∧ validateGenesis E s.db b = .ok () ∧
      validateLink E (Block.fromDb s.db b.prevHash) b = .ok () ∧
      ∃ m, (Ledger.ofDb s'.db b).validateBlockTxns {} b.regularTxns = .ok m ∧
        Ledger.wrapCoinbaseError (Ledger.validateBlockCoinbase E b m) = .ok () := by
  unfold validateBlock at h
  obtain ⟨_, h1, h⟩ := bind_eq_ok.1 h
  obtain ⟨_, -, h⟩ := bind_eq_ok.1 h
  obtain ⟨_, h3, h⟩ := bind_eq_ok.1 h
  obtain ⟨_, h4, h⟩ := bind_eq_ok.1 h
  obtain ⟨⟨t, s1⟩, h5, h⟩ := bind_eq_ok.1 h
  obtain ⟨_, -, h⟩ := bind_eq_ok.1 h
  obtain ⟨m, h7, h⟩ := bind_eq_ok.1 h
  obtain ⟨_, h8, h⟩ := bind_eq_ok.1 h
  cases h
  exact ⟨blockTarget_moved h5, Block.validate_eq_ok.1 h1, h3, h4, m, h7, h8⟩

end Chain

/-! ## Upkeep of the table and of the rows -/

namespace Session

open Database

variable {E : Env} {s s' s'' : Session} {row : ChainDAO} {tip : BlockDAO} {depth : Option ℕ}

theorem isLongest_db (s : Session) (row : ChainDAO) : (s.isLongest row).2.db = s.db := by
  unfold isLongest
  simp only
  split
  · rfl
  · split_ifs <;> rfl

theorem pruneStaleForks_sublist (s : Session) (depth : Option ℕ) (row : ChainDAO) :
    (s.pruneStaleForks depth row).db.chains.Sublist s.db.chains := by
  cases depth with
  | none => exact List.Sublist.refl _
  | some d => exact List.filter_sublist

/-- Pruning spares the row itself and every row at least as high. -/
theorem mem_pruneStaleForks {c : ChainDAO} (hc : c ∈ s.db.chains)
    (h : c.id = row.id ∨ row.tipIdx ≤ c.tipIdx) : c ∈ (s.pruneStaleForks depth row).db.chains := by
  cases depth with
  | none => exact hc
  | some d =>
    refine List.mem_filter.2 ⟨hc, decide_eq_true fun hlow => ?_⟩
    rcases h with h | h
    · exact hlow.1 h
    · have := hlow.2
      omega

theorem pruneStaleForks_sameLedger (s : Session) (depth : Option ℕ) (row : ChainDAO) :
    s.db.SameLedger (s.pruneStaleForks depth row).db ∧
      (s.pruneStaleForks depth row).db.longestChainBlocks = s.db.longestChainBlocks := by
  cases depth with
  | none => exact ⟨SameLedger.refl _, rfl⟩
  | some d => exact ⟨⟨_, _, _, rfl⟩, rfl⟩

/-- What the upkeep of a row may have changed: rows lower than it may be gone, and
the table may hold its root path. -/
structure Upkeep (row : ChainDAO) (tip : BlockDAO) (s s' : Session) : Prop where
  ledger : s.db.SameLedger s'.db
  sublist : s'.db.chains.Sublist s.db.chains
  kept : ∀ c ∈ s.db.chains, c.id = row.id ∨ row.tipIdx ≤ c.tipIdx → c ∈ s'.db.chains
  table : s'.db.longestChainBlocks = s.db.longestChainBlocks ∨ s'.db.Materializes tip

theorem Upkeep.refl (row : ChainDAO) (tip : BlockDAO) (s : Session) : Upkeep row tip s s :=
  ⟨SameLedger.refl _, List.Sublist.refl _, fun _ hc _ => hc, Or.inl rfl⟩

theorem Upkeep.trans (h : Upkeep row tip s s') (h' : Upkeep row tip s' s'') :
    Upkeep row tip s s'' := by
  refine ⟨h.ledger.trans h'.ledger, h'.sublist.trans h.sublist,
    fun c hc hk => h'.kept c (h.kept c hc hk) hk, ?_⟩
  rcases h'.table with hsame | hm
  · rcases h.table with hsame' | hm
    · exact Or.inl (hsame.trans hsame')
    · refine Or.inr ?_
      rw [Materializes, hsame, h'.ledger.path]
      exact hm
  · exact Or.inr hm

theorem upkeep_prune (s : Session) (depth : Option ℕ) (row : ChainDAO) (tip : BlockDAO) :
    Upkeep row tip s (s.pruneStaleForks depth row) :=
  ⟨(pruneStaleForks_sameLedger s depth row).1, pruneStaleForks_sublist s depth row,
    fun _ hc hk => mem_pruneStaleForks hc hk, Or.inl (pruneStaleForks_sameLedger s depth row).2⟩

/-- The smart-reorg walk changes nothing but the table. -/
theorem upkeep_syncMaterialization (hs : s.db.Schema E) (h : s.db.Tree) (hz : s.db.RootsAtZero)
    (ht : tip ∈ s.db.blocks) (row : ChainDAO) : Upkeep row tip s (s.syncMaterialization tip) := by
  rcases syncMaterialization_spec hs h hz ht with ⟨rows, heq, hperm⟩ | ⟨heq, -⟩
  · rw [heq]
    exact ⟨⟨_, _, _, rfl⟩, List.Sublist.refl _, fun _ hc _ => hc, Or.inr hperm⟩
  · rw [heq]
    exact Upkeep.refl row tip s

theorem sync_eq (htip : s.db.blockById row.blockId = some tip) :
    s.syncLongestChainBlocks depth row =
      if (s.isLongest row).1 then
        ((s.isLongest row).2.syncMaterialization tip).pruneStaleForks depth row
      else (s.isLongest row).2 := by
  unfold syncLongestChainBlocks
  simp only [isLongest_db, htip]

/-- **The upkeep of a row**, whatever its cached answer. -/
theorem sync_spec (hs : s.db.Schema E) (h : s.db.Tree) (hz : s.db.RootsAtZero)
    (htip : s.db.blockById row.blockId = some tip) :
    Upkeep row tip s (s.syncLongestChainBlocks depth row) := by
  have hdb := isLongest_db s row
  have hcache : Upkeep row tip s (s.isLongest row).2 := by
    refine ⟨?_, ?_, fun c hc _ => ?_, Or.inl ?_⟩
    · rw [hdb]
      exact SameLedger.refl _
    · rw [hdb]
    · rwa [hdb]
    · rw [hdb]
  rw [sync_eq htip]
  split_ifs
  · refine hcache.trans (Upkeep.trans ?_ (upkeep_prune _ depth row tip))
    refine upkeep_syncMaterialization (E := E) ?_ ?_ ?_ ?_ row
    · exact hdb.symm ▸ hs
    · exact hdb.symm ▸ h
    · exact hdb.symm ▸ hz
    · exact hdb.symm ▸ ((blockById_eq_some hs).1 htip).1
  · exact hcache

/-! ## Saving a handle -/

/-- How the row of a tip came about: it was there, the handle's row was moved to
it, or it was added. -/
inductive Placed (c : Chain) (blk : BlockDAO) (s : Session) : Session → ChainDAO → Prop
  | found (row : ChainDAO) : s.db.chainDao c.blockHash none = some row → Placed c blk s s row
  | moved (old : ChainDAO) : s.db.chainDao c.blockHash none = none →
      (c.cid.bind fun cid => s.db.chainDao none (some cid)) = some old →
      Placed c blk s (s.withMoved old.id blk) (rowAt old.id blk)
  | added : s.db.chainDao c.blockHash none = none →
      (c.cid.bind fun cid => s.db.chainDao none (some cid)) = none →
      Placed c blk s (s.withAdded blk) (rowAt (Table.fresh (s.db.chains.map ChainDAO.id)) blk)

/-- **Saving a handle whose tip is stored** places its row and looks after the
table, once, or twice when the row is new. -/
theorem toDb_spec {c : Chain} {blk : BlockDAO} (hb : s.db.blockByHash c.blockHash = some blk)
    (depth : Option ℕ) : ∃ s₁ row n, Placed c blk s s₁ row ∧ (n = 1 ∨ n = 2) ∧
      c.toDb depth s =
        .ok ({ c with cid := some row.id }, (syncLongestChainBlocks · depth row)^[n] s₁) := by
  obtain ⟨hbm, hhash⟩ := blockByHash_mem hb
  have hb' := hb
  rw [hhash] at hb'
  unfold Chain.toDb Chain.toDaoCreate Chain.toDao
  rw [hhash]
  simp only
  cases hd : s.db.chainDao (some blk.blockHash) none with
  | some row =>
    refine ⟨s, row, 1, Placed.found row ?_, Or.inl rfl, rfl⟩
    rw [hhash]
    exact hd
  | none =>
    cases hc : c.cid.bind fun cid => s.db.chainDao none (some cid) with
    | some old =>
      refine ⟨_, _, 1, Placed.moved old ?_ hc, Or.inl rfl, ?_⟩
      · rw [hhash]
        exact hd
      · simp only [setBlockHash_eq hb', ok_bind]
        rfl
    | none =>
      refine ⟨_, _, 2, Placed.added ?_ hc, Or.inr rfl, ?_⟩
      · rw [hhash]
        exact hd
      · simp only [ok_bind, insertChain_eq hb']
        rfl

variable {c : Chain} {blk : BlockDAO}

theorem Placed.sameLedger (h : Placed c blk s s' row) :
    s.db.SameLedger s'.db ∧ s'.db.longestChainBlocks = s.db.longestChainBlocks := by
  cases h
  · exact ⟨SameLedger.refl _, rfl⟩
  · exact ⟨⟨_, _, _, rfl⟩, rfl⟩
  · exact ⟨⟨_, _, _, rfl⟩, rfl⟩

/-- The rows afterwards are in order, and the one placed is the tip's. -/
theorem Placed.chainRows (hs : s.db.Schema E) (hr : s.db.ChainRows) (hb : s.db.blockByHash c.blockHash = some blk)
    (h : Placed c blk s s' row) : s'.db.ChainRows ∧ row ∈ s'.db.chains ∧
      row = rowAt row.id blk := by
  obtain ⟨hbm, hhash⟩ := blockByHash_mem hb
  have hne : blk.blockHash ≠ [] := blockByHash_ne_nil (hhash ▸ hb)
  cases h with
  | found _ hd =>
    rw [hhash, chainDao_eq_some hr hne] at hd
    refine ⟨hr, hd.1, ?_⟩
    obtain ⟨d, hdm, hid, hh, hidx⟩ := hr.tip row hd.1
    obtain rfl := List.inj_on_of_nodup_map hs.blockHashes hdm hbm (hh.symm.trans hd.2)
    obtain ⟨i, x, y, z⟩ := row
    obtain ⟨rfl, rfl, rfl⟩ : x = d.blockHash ∧ y = d.id ∧ z = d.idx := ⟨hh, hid, hidx⟩
    rfl
  | moved old hd hc =>
    rw [hhash, chainDao_eq_none hne] at hd
    obtain ⟨cid, -, hold⟩ := Option.bind_eq_some_iff.1 hc
    refine ⟨chainRows_withMoved hr hbm hd, mem_withMoved.2 (Or.inr ⟨rfl, old, ?_, rfl⟩), rfl⟩
    exact (mem_of_chainDao_id hold).1
  | added hd hc =>
    rw [hhash, chainDao_eq_none hne] at hd
    exact ⟨chainRows_withAdded hr hbm hd, List.mem_append_right _ (List.mem_singleton_self _), rfl⟩

/-- Any number of upkeeps. -/
theorem sync_iterate (hs : s.db.Schema E) (h : s.db.Tree) (hz : s.db.RootsAtZero)
    (htip : s.db.blockById row.blockId = some tip) (n : ℕ) :
    Upkeep row tip s ((syncLongestChainBlocks · depth row)^[n] s) := by
  induction n with
  | zero => exact Upkeep.refl row tip s
  | succ n ih =>
    rw [Function.iterate_succ_apply']
    have hl := ih.ledger
    have hmem := ((blockById_eq_some hs).1 htip).1
    refine ih.trans (sync_spec (hl.schema hs) (hl.tree h ?_) ?_ ?_)
    · exact ih.table.imp_right fun hm => ⟨tip, hmem, hm⟩
    · exact hl.rootsAtZero hz
    · rw [hl.blockById]
      exact htip

/-- **Saving a handle**: its row is placed, and looked after. -/
theorem toDb_upkeep (hs : s.db.Schema E) (h : s.db.Tree) (hz : s.db.RootsAtZero)
    (hr : s.db.ChainRows) (hb : s.db.blockByHash c.blockHash = some blk) (depth : Option ℕ) :
    ∃ s₁ row s', Placed c blk s s₁ row ∧ Upkeep row blk s₁ s' ∧
      c.toDb depth s = .ok ({ c with cid := some row.id }, s') := by
  obtain ⟨s₁, row, n, hp, -, hto⟩ := toDb_spec hb depth
  obtain ⟨hl, htable⟩ := hp.sameLedger
  obtain ⟨-, -, hrow⟩ := hp.chainRows hs hr hb
  refine ⟨s₁, row, _, hp, sync_iterate (hl.schema hs) (hl.tree h (Or.inl htable))
    (hl.rootsAtZero hz) ?_ n, hto⟩
  rw [hrow, hl.blockById, blockById_eq_some hs]
  exact ⟨(blockByHash_mem hb).1, rfl⟩

end Session

end GumptionChain
