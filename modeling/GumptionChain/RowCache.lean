import GumptionChain.Balances
import GumptionChain.ForkChoice

/-!
# What row objects remember

A chain row's object keeps its last answer to `_is_longest`, with the generation of
the table it was given in.

* `Session.Answered` — an answer of yes is not stale while the table holds the best
  block's path;
* `Session.Sound` — with the invariants of the tables, what every run keeps;
* `SessionRun` — runs in which rows are also asked in between, and `SessionRun.sound`.
-/

namespace GumptionChain

open Database

/-! ## Numbers of outflow rows -/

namespace Database

variable {E : Env} {db db' flushed : Database} {t : Transaction} {txid : Str} {timestamp : DateTime}

theorem Numbered.addTransaction {P : TransactionDAO → Str → Prop} (hk : db.FlowKeys P)
    (h : db.Numbered) : (db.addTransaction flushed t txid timestamp).1.Numbered := by
  intro u hu k o ho
  rcases List.mem_append.1 hu with hold | hnew
  · rw [addTransaction_extends.outflowsOf hold] at ho
    exact h u hold k o ho
  · obtain rfl : u = db.newRow t txid timestamp := List.mem_singleton.1 hnew
    rw [addTransaction_outflowsOf hk, List.getElem?_mapIdx] at ho
    obtain ⟨x, -, rfl⟩ := Option.map_eq_some_iff.1 ho
    rfl

theorem Numbered.enroll {P : TransactionDAO → Str → Prop} (hP : ∀ t, P t t.txid) :
    ∀ {ts : List Transaction} {db db' : Database} {ids : List ℕ}, db.FlowKeys P → db.Numbered →
      enroll flushed db ts = .ok (db', ids) → db'.Numbered
  | [], _, _, _, _, h, heq => by
    cases heq
    exact h
  | t :: ts, db, db', ids, hk, h, heq => by
    rw [Database.enroll, bind_eq_ok] at heq
    obtain ⟨⟨txid, timestamp⟩, -, heq⟩ := heq
    simp only at heq
    split at heq
    · obtain ⟨⟨db1, rest⟩, hrest, heq⟩ := bind_eq_ok.1 heq
      cases heq
      exact Numbered.enroll hP hk h hrest
    · obtain ⟨⟨db1, rest⟩, hrest, heq⟩ := bind_eq_ok.1 heq
      cases heq
      exact Numbered.enroll hP (addTransaction_flowKeys hP hk) (h.addTransaction hk) hrest

/-- Storing a block numbers its outflow rows. -/
theorem Numbered.toDb {b : Block} (hs : db.Schema E) (h : db.Numbered)
    (hto : b.toDb E db = .ok db') : db'.Numbered := by
  unfold Block.toDb at hto
  obtain ⟨row, -, hto⟩ := bind_eq_ok.1 hto
  split at hto
  · cases hto
    exact h
  · obtain ⟨⟨db1, ids⟩, henroll, hto⟩ := bind_eq_ok.1 hto
    obtain ⟨-, rfl⟩ := flush_eq_ok.1 hto
    have hnum : db1.Numbered := Numbered.enroll (fun _ => trivial) hs.flowKeys h henroll
    exact hnum

theorem Numbered.congr (h : db.Numbered) (hl : db.SameLedger db') : db'.Numbered := by
  obtain ⟨_, _, _, rfl⟩ := hl
  exact h

end Database

/-! ## Remembered answers -/

namespace Session

variable {E : Env} {S : Set Str} {s s' : Session} {row : ChainDAO} {blk : BlockDAO}
  {depth : Option ℕ}

/-- Remembered answers are not from the future, and a row that remembers that it is
the longest stands for the best block, if the table holds that block's path. -/
structure Answered (s : Session) : Prop where
  dated : ∀ i g v, s.cache i = some (g, v) → g ≤ s.generation
  longest : ∀ c ∈ s.db.chains, s.cache c.id = some (s.generation, true) →
    ∀ t, s.db.IsBest t → s.db.Materializes t → c.blockId = t.id

/-- The session once a row has been answered. -/
def remember (s : Session) (id : ℕ) (v : Bool) : Session :=
  { s with cache := Function.update s.cache id (some (s.generation, v)) }

@[simp] theorem remember_db (s : Session) (id : ℕ) (v : Bool) : (s.remember id v).db = s.db := rfl

@[simp] theorem remember_generation (s : Session) (id : ℕ) (v : Bool) :
    (s.remember id v).generation = s.generation := rfl

theorem remember_cache (s : Session) (id : ℕ) (v : Bool) (i : ℕ) : (s.remember id v).cache i =
    if i = id then some (s.generation, v) else s.cache i := Function.update_apply ..

/-- `_is_longest` answers from memory, or asks the database and remembers. -/
theorem isLongest_cases (s : Session) (row : ChainDAO) :
    (∃ v, s.cache row.id = some (s.generation, v) ∧ s.isLongest row = (v, s)) ∨
      (∀ v, s.cache row.id ≠ some (s.generation, v)) ∧
        s.isLongest row = (s.db.longest.any (·.id = row.id),
          s.remember row.id (s.db.longest.any (·.id = row.id))) := by
  cases hc : s.cache row.id with
  | none => exact Or.inr ⟨by simp, by simp [isLongest, remember, hc]⟩
  | some g =>
    obtain ⟨g, v⟩ := g
    by_cases hg : g = s.generation
    · subst hg
      exact Or.inl ⟨v, rfl, by simp [isLongest, hc]⟩
    · refine Or.inr ⟨fun w hw => hg ?_, by simp [isLongest, remember, hc, hg]⟩
      simpa using congrArg (Option.map Prod.fst) hw

/-- The row that `longest` picks stands for the best block. -/
theorem blockId_of_longest (hs : s.db.Schema E) (hr : s.db.ChainRows) (hc : s.db.Crowned)
    {c : ChainDAO} (h : s.db.longest = some c) {t : BlockDAO} (ht : s.db.IsBest t) :
    c.blockId = t.id := by
  have htip := (longestTip_eq_some hs hr hc).2 ht
  rw [longestTip, h, Option.bind_some, blockById_eq_some hs] at htip
  exact htip.2.symm

/-- Remembering an answer, if yes is only remembered of the longest row. -/
theorem Answered.remember (h : s.Answered) (hs : s.db.Schema E) (hr : s.db.ChainRows)
    (hc : s.db.Crowned) {v : Bool}
    (hv : v = true → ∃ d, s.db.longest = some d ∧ d.id = row.id) :
    (s.remember row.id v).Answered := by
  constructor
  · intro i g w hi
    rw [remember_cache] at hi
    split_ifs at hi
    · rw [Option.some.injEq, Prod.mk.injEq] at hi
      exact hi.1.symm.le
    · exact h.dated i g w hi
  · intro c hcm hcache t ht hm
    rw [remember_cache] at hcache
    split_ifs at hcache with hid
    · rw [Option.some.injEq, Prod.mk.injEq] at hcache
      obtain ⟨d, hd, hdid⟩ := hv hcache.2
      rw [List.inj_on_of_nodup_map hr.ids hcm (longest_spec hs hr hd).1 (hid.trans hdid.symm)]
      exact blockId_of_longest hs hr hc hd ht
    · exact h.longest c hcm hcache t ht hm

theorem Answered.isLongest (h : s.Answered) (hs : s.db.Schema E) (hr : s.db.ChainRows)
    (hc : s.db.Crowned) : (s.isLongest row).2.Answered := by
  rcases isLongest_cases s row with ⟨v, -, heq⟩ | ⟨-, heq⟩
  · rw [heq]
    exact h
  · rw [heq]
    refine h.remember hs hr hc fun hv => ?_
    obtain ⟨d, hd, hdid⟩ := (Option.any_eq_true _ _).1 hv
    exact ⟨d, hd, by simpa using hdid⟩

/-- A new generation forgets every answer. -/
theorem Answered.setLongestChainBlocks (h : s.Answered) (rows : List LongestChainBlockDAO) :
    (s.setLongestChainBlocks rows).Answered := by
  refine ⟨fun i g v hi => (h.dated i g v hi).trans (Nat.le_succ _), fun c _ hcache => ?_⟩
  have := h.dated _ _ _ hcache
  exact absurd this (Nat.not_succ_le_self _)

theorem Answered.prune (h : s.Answered) : (s.pruneStaleForks depth row).Answered := by
  cases depth with
  | none => exact h
  | some d => exact ⟨h.dated, fun c hc => h.longest c (List.mem_of_mem_filter hc)⟩

/-- What every run keeps. -/
structure Sound (E : Env) (S : Set Str) (s : Session) : Prop where
  inv : s.Inv E S
  crowned : s.db.Crowned
  numbered : s.db.Numbered
  answered : s.Answered

theorem Sound.empty : Sound E S {} :=
  ⟨Inv.empty, fun _ hc => absurd hc List.not_mem_nil, fun _ hu => absurd hu List.not_mem_nil,
    ⟨by simp, by simp⟩⟩

theorem Inv.upkeep (h : s.Inv E S) (hblk : blk ∈ s.db.blocks) (hup : Upkeep row blk s s') :
    s'.Inv E S := by
  refine ⟨h.ledger.congr hup.ledger, h.chains.sublist hup.ledger hup.sublist, ?_⟩
  rcases hup.table with hsame | hm
  · rw [hsame]
    refine h.table.imp_right fun ⟨t, ht, hmat⟩ => ⟨t, hup.ledger.blocks ▸ ht, ?_⟩
    rw [Materializes, hsame, hup.ledger.path]
    exact hmat
  · exact Or.inr ⟨blk, hup.ledger.blocks ▸ hblk, hm⟩

/-- Looking after a row keeps the best block a tip. -/
theorem Inv.crowned_upkeep (h : s.Inv E S) (hc : s.db.Crowned) (hrow : row ∈ s.db.chains)
    (hblk : blk ∈ s.db.blocks) (htip : row.blockHash = blk.blockHash)
    (hup : Upkeep row blk s s') : s'.db.Crowned := by
  have hne := h.ledger.blockHash_ne_nil hblk
  have hfound : Placed ⟨none, some blk.blockHash⟩ blk s s row :=
    Placed.found row ((chainDao_eq_some h.chains hne).2 ⟨hrow, htip⟩)
  obtain ⟨hblkTip, hkept⟩ := tips_kept h
    ((blockByHash_eq_some h.ledger.schema).2 ⟨hne, hblk, rfl⟩) hfound hup (by simp)
  intro c hcm
  obtain ⟨t, ht, htc⟩ := hc c (hup.ledger.blocks ▸ hcm)
  rcases hkept t ht with ht' | hle
  · exact ⟨t, ht', htc⟩
  · exact ⟨blk, hblkTip, hle.trans htc⟩

/-- Looking after a row leaves no stale answer behind. -/
theorem Answered.sync (h : s.Answered) (hs : s.db.Schema E) (ht : s.db.Tree)
    (hz : s.db.RootsAtZero) (hr : s.db.ChainRows) (hc : s.db.Crowned)
    (htip : s.db.blockById row.blockId = some blk) :
    (s.syncLongestChainBlocks depth row).Answered := by
  have hask : (s.isLongest row).2.Answered := h.isLongest hs hr hc
  have hdb := isLongest_db s row
  rw [sync_eq htip]
  split_ifs
  · refine Answered.prune ?_
    rcases syncMaterialization_spec (s := (s.isLongest row).2) (E := E) (hdb.symm ▸ hs)
      (hdb.symm ▸ ht) (hdb.symm ▸ hz) (hdb.symm ▸ ((blockById_eq_some hs).1 htip).1)
      with ⟨rows, heq, -⟩ | ⟨heq, -⟩
    · rw [heq]
      exact hask.setLongestChainBlocks rows
    · rw [heq]
      exact hask
  · exact hask

theorem Sound.sync (hS : E.CollisionFree (insert genesisText S)) (h : s.Sound E S)
    (hrow : row ∈ s.db.chains) (hblk : blk ∈ s.db.blocks) (hat : row = rowAt row.id blk) :
    (s.syncLongestChainBlocks depth row).Sound E S := by
  have hs := h.inv.ledger.schema
  have htip : s.db.blockById row.blockId = some blk :=
    (blockById_eq_some hs).2 ⟨hblk, (congrArg ChainDAO.blockId hat).symm⟩
  have hup : Upkeep row blk s (s.syncLongestChainBlocks depth row) :=
    sync_spec hs (h.inv.tree hS) h.inv.ledger.linked.root htip
  have hhash : row.blockHash = blk.blockHash := by rw [hat]; rfl
  exact ⟨h.inv.upkeep hblk hup, h.inv.crowned_upkeep h.crowned hrow hblk hhash hup,
    h.numbered.congr hup.ledger,
    h.answered.sync hs (h.inv.tree hS) h.inv.ledger.linked.root h.inv.chains h.crowned htip⟩

theorem withAdded_cache (s : Session) (blk : BlockDAO) (i : ℕ) : (s.withAdded blk).cache i =
    if i = Table.fresh (s.db.chains.map ChainDAO.id) then none else s.cache i :=
  Function.update_apply ..

/-- Storing a block and placing its row leaves no stale answer behind. -/
theorem Answered.placed (hS : E.CollisionFree (insert genesisText S)) (h : s.Answered)
    (hi : s.Inv E S) {b : Block} (hb : b.Hashed S) (hv : b.Valid E) {db : Database}
    (hto : b.toDb E s.db = .ok db) (hinv : { s with db := db }.Inv E S)
    (hblk : db.blockByHash b.blockHash = some blk)
    (hp : Placed ⟨(Node.chainFor s.db b).cid, b.blockHash⟩ blk { s with db := db } s' row) :
    s'.Answered := by
  have hs := hinv.ledger.schema
  obtain ⟨hl, htable⟩ := hp.sameLedger
  have hstored := Block.mem_blocks_toDb hi.ledger.schema hv hto hblk
  -- the best block, if the table holds its path, was so before
  have hback : ∀ t, s'.db.IsBest t → s'.db.Materializes t →
      s.db.IsBest t ∧ s.db.Materializes t := by
    intro t ht hm
    rw [Materializes, htable, hl.path] at hm
    have htm : t ∈ s.db.blocks ∧ s.db.Materializes t := by
      rcases Block.toDb_spec hi.ledger.schema hto with ⟨r, -, rfl⟩ | ⟨-, r, ids, ha⟩
      · exact ⟨hl.blocks ▸ ht.1, hm⟩
      · have hframe := ha.frame hi.ledger.schema
        simp only [ha.longestChainBlocks] at hm
        have htb : t ∈ db.blocks := hl.blocks ▸ ht.1
        have hold : t ∈ s.db.blocks := by
          -- the table holds the block, so it held it before the block was stored
          have hrow : (⟨t.id, t.idx⟩ : LongestChainBlockDAO) ∈ s.db.longestChainBlocks :=
            hm.symm.subset (List.mem_map.2 ⟨t, Forest.self_mem_path t, rfl⟩)
          rcases hi.table with hnil | ⟨q, hq, hmat⟩
          · rw [hnil] at hrow
            exact absurd hrow List.not_mem_nil
          · obtain ⟨d, hd, heq⟩ := List.mem_map.1 (hmat.subset hrow)
            have hdm := (hi.tree hS).mem_blocks hq hd
            rw [← id_injOn hs (hframe.blocks d hdm) htb (congrArg LongestChainBlockDAO.blockId heq)]
            exact hdm
        refine ⟨hold, ?_⟩
        rw [Materializes, ← hframe.path (hi.tree hS) hold]
        exact hm
    refine ⟨⟨htm.1, fun c hc => ht.2 c ?_⟩, htm.2⟩
    rw [hl.blocks]
    exact (hstored.2 c).2 (Or.inl hc)
  have hlongest : ∀ c ∈ db.chains, s.cache c.id = some (s.generation, true) →
      ∀ t, s'.db.IsBest t → s'.db.Materializes t → c.blockId = t.id := by
    intro c hc hcache t ht hm
    obtain ⟨ht', hm'⟩ := hback t ht hm
    exact h.longest c (hstored.1 ▸ hc) hcache t ht' hm'
  cases hp with
  | found => exact ⟨h.dated, hlongest⟩
  | moved old hnone hold =>
    refine ⟨h.dated, fun c hc hcache t ht hm => ?_⟩
    rcases mem_withMoved.1 hc with ⟨hc, -⟩ | ⟨rfl, -⟩
    · exact hlongest c hc hcache t ht hm
    · obtain ⟨cid, -, hrow⟩ := Option.bind_eq_some_iff.1 hold
      have holdm := (mem_of_chainDao_id hrow).1
      have htb : t ∈ db.blocks := ht.1
      have habove := Inv.moved_above hS hinv hstored.1 hv hb hblk hold htb
        (hlongest old holdm hcache t ht hm)
      rw [show t = blk from (AtLeast.antisymm hs (blockByHash_mem hblk).1 htb habove
        (ht.2 blk (blockByHash_mem hblk).1)).symm]
      rfl
  | added hnone hcid =>
    constructor
    · intro i g v hi
      rw [withAdded_cache] at hi
      split_ifs at hi
      exact h.dated i g v hi
    · intro c hc hcache t ht hm
      rw [withAdded_cache] at hcache
      split_ifs at hcache with hid
      rcases List.mem_append.1 hc with hc | hc
      · exact hlongest c hc hcache t ht hm
      · rw [List.mem_singleton.1 hc] at hid
        exact absurd rfl hid

theorem Sound.placed (hS : E.CollisionFree (insert genesisText S)) (h : s.Sound E S) {b : Block}
    (hb : b.Hashed S) (hv : b.Valid E) {db : Database} (hto : b.toDb E s.db = .ok db)
    (hinv : { s with db := db }.Inv E S) (hblk : db.blockByHash b.blockHash = some blk)
    (hp : Placed ⟨(Node.chainFor s.db b).cid, b.blockHash⟩ blk { s with db := db } s' row) :
    s'.Sound E S := by
  obtain ⟨hl, htable⟩ := hp.sameLedger
  obtain ⟨hrows, -, -⟩ := hp.chainRows hinv.ledger.schema hinv.chains hblk
  refine ⟨⟨hinv.ledger.congr hl, hrows, ?_⟩, h.inv.crowned_placed hS hb h.crowned hv hto hinv hblk
    hp (Upkeep.refl row blk s'), (h.numbered.toDb h.inv.ledger.schema hto).congr hl,
    h.answered.placed hS h.inv hb hv hto hinv hblk hp⟩
  rw [htable]
  refine hinv.table.imp_right fun ⟨t, ht, hmat⟩ => ⟨t, hl.blocks ▸ ht, ?_⟩
  rw [Materializes, htable, hl.path]
  exact hmat

theorem Sound.sync_iterate (depth : Option ℕ) (hS : E.CollisionFree (insert genesisText S))
    (h : s.Sound E S) (hrow : row ∈ s.db.chains) (hblk : blk ∈ s.db.blocks)
    (hat : row = rowAt row.id blk) (n : ℕ) : ((syncLongestChainBlocks · depth row)^[n] s).Sound E S ∧
      row ∈ ((syncLongestChainBlocks · depth row)^[n] s).db.chains ∧
      blk ∈ ((syncLongestChainBlocks · depth row)^[n] s).db.blocks := by
  induction n with
  | zero => exact ⟨h, hrow, hblk⟩
  | succ n ih =>
    obtain ⟨hsound, hrow', hblk'⟩ := ih
    rw [Function.iterate_succ_apply']
    have htip : ((syncLongestChainBlocks · depth row)^[n] s).db.blockById row.blockId = some blk :=
      (blockById_eq_some hsound.inv.ledger.schema).2 ⟨hblk', (congrArg ChainDAO.blockId hat).symm⟩
    have hup : Upkeep row blk _ (syncLongestChainBlocks _ depth row) :=
      sync_spec hsound.inv.ledger.schema (hsound.inv.tree hS) hsound.inv.ledger.linked.root htip
    exact ⟨hsound.sync hS hrow' hblk' hat, hup.kept row hrow' (Or.inl rfl),
      hup.ledger.blocks ▸ hblk'⟩

/-- **An addition keeps what every run keeps.** -/
theorem Sound.tryAddBlock (hS : E.CollisionFree (insert genesisText S)) (h : s.Sound E S)
    {now : DateTime} {b : Block} (hb : b.Hashed S)
    (hadd : Node.tryAddBlock E depth now b s = .ok s') : s'.Sound E S := by
  obtain ⟨db, blk, s₁, row, n, habove, hto, hinv, hblk, hp, -, rfl⟩ :=
    h.inv.tryAddBlock_steps hS hb hadd
  have hv := (Chain.validateAbove_eq_ok.1 habove).1
  obtain ⟨-, hrowm, hat⟩ := hp.chainRows hinv.ledger.schema hinv.chains hblk
  have hblkm : blk ∈ s₁.db.blocks := hp.sameLedger.1.blocks ▸ (blockByHash_mem hblk).1
  exact ((h.placed hS hb hv hto hinv hblk hp).sync_iterate depth hS hrowm hblkm hat n).1

end Session

/-! ## Runs in which rows are asked -/

/-- What a session goes through from a given state: additions through
`Node.add_block`, each in a state where `Q` allows it, questions to rows, and in
between row objects dropped and changes of the mempool. -/
inductive SessionRun (E : Env) (Q : Session → DateTime → Block → Prop) (depth : Option ℕ)
    (s₀ : Session) : Session → Prop
  | refl : SessionRun E Q depth s₀ s₀
  | add {s s' : Session} {now : DateTime} {commit : Bool} {b : Block} {r : Option Block} :
      SessionRun E Q depth s₀ s → Q s now b → Node.addBlock E depth now commit b s = .ok (r, s') →
      SessionRun E Q depth s₀ s'
  | ask {s : Session} {row : ChainDAO} : SessionRun E Q depth s₀ s → row ∈ s.db.chains →
      SessionRun E Q depth s₀ (s.isLongest row).2
  | forget {s : Session} {cache : ℕ → Option (ℕ × Bool)} : SessionRun E Q depth s₀ s →
      (∀ i, cache i = none ∨ cache i = s.cache i) →
      SessionRun E Q depth s₀ { s with cache := cache }
  | pool {s : Session} {pending : List PendingTxnDAO} : SessionRun E Q depth s₀ s →
      SessionRun E Q depth s₀ { s with db := { s.db with pendingTxns := pending } }

namespace Session

variable {E : Env} {S : Set Str} {s : Session} {row : ChainDAO}

theorem Sound.isLongest (h : s.Sound E S) (row : ChainDAO) : (s.isLongest row).2.Sound E S := by
  have hdb := isLongest_db s row
  refine ⟨⟨?_, ?_, ?_⟩, ?_, ?_, h.answered.isLongest h.inv.ledger.schema h.inv.chains h.crowned⟩
  all_goals rw [hdb]
  · exact h.inv.ledger
  · exact h.inv.chains
  · exact h.inv.table
  · exact h.crowned
  · exact h.numbered

/-- Dropping row objects drops their answers. -/
theorem Sound.forget (h : s.Sound E S) {cache : ℕ → Option (ℕ × Bool)}
    (hcache : ∀ i, cache i = none ∨ cache i = s.cache i) :
    { s with cache := cache }.Sound E S := by
  refine ⟨⟨h.inv.ledger, h.inv.chains, h.inv.table⟩, h.crowned, h.numbered, fun i g v hi => ?_,
    fun c hc hi => ?_⟩
  · rcases hcache i with hnone | hold
    · exact absurd (hnone.symm.trans hi) (by simp)
    · exact h.answered.dated i g v (hold ▸ hi)
  · rcases hcache c.id with hnone | hold
    · exact absurd (hnone.symm.trans hi) (by simp)
    · exact h.answered.longest c hc (hold ▸ hi)

theorem Sound.pool (h : s.Sound E S) (pending : List PendingTxnDAO) :
    { s with db := { s.db with pendingTxns := pending } }.Sound E S :=
  ⟨⟨h.inv.ledger.congr ⟨_, _, _, rfl⟩, ⟨h.inv.chains.ids, h.inv.chains.hashes, h.inv.chains.tip⟩,
    h.inv.table⟩, h.crowned, h.numbered, h.answered.dated, h.answered.longest⟩

end Session

/-- **Every run keeps what it must.** -/
theorem SessionRun.sound {E : Env} {S : Set Str} {Q : Session → DateTime → Block → Prop}
    {depth : Option ℕ} {s₀ s : Session} (hS : E.CollisionFree (insert genesisText S))
    (hQ : ∀ s now b, Q s now b → b.Hashed S) (h₀ : s₀.Sound E S)
    (h : SessionRun E Q depth s₀ s) : s.Sound E S := by
  induction h with
  | refl => exact h₀
  | add _ hq hadd ih =>
    rcases Node.addBlock_eq_ok hadd with ⟨-, htry⟩ | ⟨-, rfl⟩
    · exact ih.tryAddBlock hS (hQ _ _ _ hq) htry
    · exact ih
  | ask _ _ ih => exact ih.isLongest _
  | forget _ hcache ih => exact ih.forget hcache
  | pool _ ih => exact ih.pool _

end GumptionChain
