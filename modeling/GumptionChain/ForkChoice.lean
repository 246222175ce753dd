import GumptionChain.BlockTree
import GumptionChain.RoundTrip

/-!
# Fork choice

Which block `ChainDAO.longest()` ends up with.  Rows are moved, added and pruned
in an order that depends on how the blocks arrive, so different runs leave
different rows.  What all runs share is that the best stored block is some row's
tip, and the best block depends on the stored blocks only.

* `Database.Crowned` — every stored block is outranked by the tip of some row, or
  is one; `NodeRun.crowned`: at any pruning depth a node keeps it so;
* `NodeRun.longestTip_eq_some` — hence `longest` has the best stored block for its
  tip;
* `Node.turn_kept` — a call, a question to a chain row, row objects dropped and a change
  of the mempool keep the invariants and the best block a tip;
* `fork_choice_converges` — two orders of the same blocks end on the same tip, the
  best of them;
* `Node.turns_beside` — a node has the block tables of any other that goes through the
  same calls, at whatever depth and with whatever else in between;
* `pruning_keeps_tip` — at every moment of a run, pruning or not makes no difference
  to the tip.
-/

namespace GumptionChain

open Database

/-! ## The best block -/

namespace Database

variable {E : Env} {db db' : Database} {b c d : BlockDAO}

/-- A stored block that no other outranks. -/
def IsBest (db : Database) (b : BlockDAO) : Prop := b ∈ db.blocks ∧ ∀ c ∈ db.blocks, AtLeast b c

/-- Every stored block has a tip that ranks at least as high. -/
def Crowned (db : Database) : Prop := ∀ c ∈ db.blocks, ∃ t, db.IsTip t ∧ AtLeast t c

theorem AtLeast.refl (b : BlockDAO) : AtLeast b b := le_refl _

theorem AtLeast.trans (h : AtLeast b c) (h' : AtLeast c d) : AtLeast b d := le_trans h h'

/-- A higher block outranks a lower one. -/
theorem atLeast_of_idx_lt (h : c.idx < b.idx) : AtLeast b c := by
  rw [AtLeast, rankKey, rankKey, Prod.Lex.toLex_le_toLex]
  exact Or.inl (OrderDual.toDual_lt_toDual.2 h)

theorem blockHash_eq_of_rankKey (h : rankKey b = rankKey c) : b.blockHash = c.blockHash := by
  rw [rankKey, rankKey, toLex_inj, Prod.mk.injEq, toLex_inj, Prod.mk.injEq] at h
  exact h.2.2

/-- Stored blocks of the same rank are the same. -/
theorem AtLeast.antisymm (hs : db.Schema E) (hb : b ∈ db.blocks) (hc : c ∈ db.blocks)
    (h : AtLeast b c) (h' : AtLeast c b) : b = c := by
  exact List.inj_on_of_nodup_map hs.blockHashes hb hc (blockHash_eq_of_rankKey (le_antisymm h h'))

/-- **Where the best block is a tip, `longest` finds it.** -/
theorem longestTip_eq_some (hs : db.Schema E) (hr : db.ChainRows) (hc : db.Crowned) :
    db.longestTip = some b ↔ db.IsBest b := by
  have hfound : ∀ {row : ChainDAO}, db.longest = some row → ∃ t, db.longestTip = some t ∧
      db.IsBest t := by
    intro row hrow
    obtain ⟨-, t, ht, hid, -, hmax⟩ := longest_spec hs hr hrow
    refine ⟨t, ?_, ht, fun x hx => ?_⟩
    · rw [longestTip, hrow]
      exact hid
    · obtain ⟨u, hu, hux⟩ := hc x hx
      exact (hmax u hu).trans hux
  constructor
  · intro h
    obtain ⟨row, hrow, -⟩ := Option.bind_eq_some_iff.1 h
    obtain ⟨t, ht, hbest⟩ := hfound hrow
    rw [h, Option.some.injEq] at ht
    exact ht ▸ hbest
  · intro h
    have hrows : db.chains ≠ [] := by
      obtain ⟨t, ⟨-, row, hrow, -⟩, -⟩ := hc b h.1
      exact List.ne_nil_of_mem hrow
    obtain ⟨row, hrow⟩ := longest_isSome hs hr hrows
    obtain ⟨t, ht, hbest⟩ := hfound hrow
    rw [ht, Option.some.injEq]
    exact AtLeast.antisymm hs hbest.1 h.1 (hbest.2 b h.1) (h.2 t hbest.1)

/-- Databases with the same blocks have the same tip. -/
theorem longestTip_congr (hs : db.Schema E) (hr : db.ChainRows) (hc : db.Crowned)
    (hs' : db'.Schema E) (hr' : db'.ChainRows) (hc' : db'.Crowned) (h : db'.blocks = db.blocks) :
    db'.longestTip = db.longestTip := by
  refine Option.ext fun b => ?_
  rw [longestTip_eq_some hs' hr' hc', longestTip_eq_some hs hr hc, IsBest, IsBest, h]

end Database

/-! ## A node keeps the best block as a tip -/

/-- A row shows a block: its hash, link, index and time are the block's. -/
structure BlockDAO.Shows (r : BlockDAO) (b : Block) : Prop where
  blockHash : b.blockHash = some r.blockHash
  prevHash : b.prevHash = some r.prevHash
  idx : b.idx = some r.idx
  timestamp : b.timestampDt = some r.timestamp

/-- A stored block with a valid block's hash shows that block. -/
theorem LedgerInv.shows {E : Env} {S : Set Str} {db : Database} {b : Block} {r : BlockDAO}
    (hS : E.CollisionFree (insert genesisText S)) (h : LedgerInv E S db) (hv : b.Valid E)
    (hb : b.Hashed S) (hr : db.blockByHash b.blockHash = some r) : r.Shows b := by
  obtain ⟨hrm, hhash⟩ := blockByHash_mem hr
  obtain ⟨c, bs, -, hon, hsame, -⟩ := h.accepted_cons hrm
  have hfields : c.headerFields = b.headerFields := by
    refine AcceptedChain.header_eq hS hon.valid hv hon.hashed hb ?_
    rw [← hsame.blockHash, hhash]
    rfl
  have hts : c.timestamp = b.timestamp := congrArg (fun f => f.2.1) hfields
  refine ⟨hhash, ?_, ?_, ?_⟩
  · exact (congrArg (fun f => f.2.2.1) hfields).symm.trans hsame.prevHash.symm
  · exact (congrArg Prod.fst hfields).symm.trans hsame.idx.symm
  · rw [Block.timestampDt, ← hts, ← Block.timestampDt, ← hsame.timestamp]
    exact iso2Dt_dt2Iso r.timestamp

/-- Storing a block adds its row, or finds it there. -/
theorem Block.mem_blocks_toDb {E : Env} {db db' : Database} {b : Block} {blk : BlockDAO}
    (hs : db.Schema E) (hv : b.Valid E) (hto : b.toDb E db = .ok db')
    (hblk : db'.blockByHash b.blockHash = some blk) :
    db'.chains = db.chains ∧ ∀ c, c ∈ db'.blocks ↔ c ∈ db.blocks ∨ c = blk := by
  rcases Block.toDb_spec hs hto with ⟨r, hr, rfl⟩ | ⟨-, r, ids, ha⟩
  · refine ⟨rfl, fun c => ⟨Or.inl, ?_⟩⟩
    rintro (hc | rfl)
    · exact hc
    · exact (blockByHash_mem hblk).1
  · rw [Block.Added.blockByHash ha hv, Option.some.injEq] at hblk
    refine ⟨ha.chains, fun c => ?_⟩
    rw [ha.blocks, List.mem_append, List.mem_singleton, hblk]

namespace Session

variable {E : Env} {S : Set Str} {depth : Option ℕ} {now : DateTime} {s s' : Session} {b : Block}

/-- A row that is moved to a block had the block before it for its tip. -/
theorem Inv.moved_above (hS : E.CollisionFree (insert genesisText S)) {db : Database}
    (hinv : { s with db := db }.Inv E S) (hchains : db.chains = s.db.chains) (hv : b.Valid E)
    (hb : b.Hashed S) {blk : BlockDAO} (hblk : db.blockByHash b.blockHash = some blk)
    {old : ChainDAO}
    (hold : ((Node.chainFor s.db b).cid.bind fun cid => db.chainDao none (some cid)) = some old)
    {t : BlockDAO} (ht : t ∈ db.blocks) (hid : old.blockId = t.id) : AtLeast blk t := by
  have hs := hinv.ledger.schema
  obtain ⟨cid, hcid, hrow⟩ := Option.bind_eq_some_iff.1 hold
  obtain ⟨holdm, holdid⟩ := mem_of_chainDao_id hrow
  have hprev : b.prevHash = some t.blockHash := by
    unfold Node.chainFor Chain.fromDb at hcid
    cases hd : s.db.chainDao b.prevHash none with
    | none => rw [hd] at hcid; exact absurd hcid (by simp)
    | some dao =>
      rw [hd, Option.map_some, Option.getD_some, Option.some.injEq] at hcid
      obtain ⟨hdm, hdh⟩ := mem_of_chainDao_hash hd
      obtain rfl : dao = old := List.inj_on_of_nodup_map hinv.chains.ids (hchains ▸ hdm) holdm
        (hcid.trans holdid.symm)
      obtain ⟨q, hq, hqid, hqh, -⟩ := hinv.chains.tip dao holdm
      rw [hdh, hqh, id_injOn hs hq ht (hqid.symm.trans hid)]
  have hshows := hinv.ledger.shows hS hv hb hblk
  have hbm := (blockByHash_mem hblk).1
  have hlink : db.prev blk = some t := by
    rw [← hinv.ledger.linked.prev blk hbm, ← hshows.prevHash, hprev]
    exact (blockByHash_eq_some hs).2 ⟨hinv.ledger.blockHash_ne_nil ht, ht, rfl⟩
  refine atLeast_of_idx_lt ?_
  rw [hinv.ledger.idx blk hbm t hlink]
  exact Nat.lt_succ_self t.idx

/-- Placing the row of a tip and looking after it leaves every tip in place, or
outranked by that one. -/
theorem tips_kept {c : Chain} {blk : BlockDAO} {row : ChainDAO} {s₁ : Session}
    (hinv : s.Inv E S) (hblk : s.db.blockByHash c.blockHash = some blk)
    (hp : Placed c blk s s₁ row) (hup : Upkeep row blk s₁ s')
    (hmoved : ∀ old, (c.cid.bind fun cid => s.db.chainDao none (some cid)) = some old →
      ∀ t ∈ s.db.blocks, old.blockId = t.id → AtLeast blk t) :
    s'.db.IsTip blk ∧ ∀ t, s.db.IsTip t → s'.db.IsTip t ∨ AtLeast blk t := by
  obtain ⟨hrows, hrowm, hrow⟩ := hp.chainRows hinv.ledger.schema hinv.chains hblk
  have hblocks : s'.db.blocks = s.db.blocks := (hp.sameLedger.1.trans hup.ledger).blocks
  have hkeep : ∀ r ∈ s₁.db.chains, ∀ t ∈ s.db.blocks, r.blockId = t.id →
      s'.db.IsTip t ∨ AtLeast blk t := by
    intro r hr t ht hid
    by_cases hlow : row.tipIdx ≤ r.tipIdx
    · exact Or.inl ⟨hblocks ▸ ht, r, hup.kept r hr (Or.inr hlow), hid⟩
    · refine Or.inr (atLeast_of_idx_lt ?_)
      obtain ⟨q, hq, hqid, -, hqi⟩ := hrows.tip r hr
      rw [hp.sameLedger.1.blocks] at hq
      rw [hrow] at hlow
      rw [← id_injOn hinv.ledger.schema hq ht (hqid.symm.trans hid), ← hqi]
      exact not_le.1 hlow
  refine ⟨⟨hblocks ▸ (blockByHash_mem hblk).1, row, hup.kept row hrowm (Or.inl rfl), ?_⟩, ?_⟩
  · rw [hrow]
    rfl
  · rintro t ⟨ht, r, hr, hid⟩
    cases hp with
    | found => exact hkeep r hr t ht hid
    | moved old hnone hold =>
      by_cases hr' : r.id = old.id
      · obtain ⟨cid, -, hrow'⟩ := Option.bind_eq_some_iff.1 hold
        obtain rfl := List.inj_on_of_nodup_map hinv.chains.ids hr (mem_of_chainDao_id hrow').1 hr'
        exact Or.inr (hmoved r hold t ht hid)
      · exact hkeep r (mem_withMoved.2 (Or.inl ⟨hr, hr'⟩)) t ht hid
    | added => exact hkeep r (List.mem_append_left _ hr) t ht hid

/-- Storing a block, placing its row and looking after it keeps the best block a
tip. -/
theorem Inv.crowned_placed (hS : E.CollisionFree (insert genesisText S)) (h : s.Inv E S)
    (hb : b.Hashed S) (hc : s.db.Crowned) (hv : b.Valid E) {db : Database} {blk : BlockDAO}
    {row : ChainDAO} {s₁ : Session} (hto : b.toDb E s.db = .ok db)
    (hinv : { s with db := db }.Inv E S) (hblk : db.blockByHash b.blockHash = some blk)
    (hp : Placed ⟨(Node.chainFor s.db b).cid, b.blockHash⟩ blk { s with db := db } s₁ row)
    (hup : Upkeep row blk s₁ s') : s'.db.Crowned := by
  have hblocks : s'.db.blocks = db.blocks := (hp.sameLedger.1.trans hup.ledger).blocks
  have hstored := Block.mem_blocks_toDb h.ledger.schema hv hto hblk
  obtain ⟨htip, hkept⟩ := tips_kept hinv hblk hp hup fun old hold t ht hid =>
    Inv.moved_above hS hinv hstored.1 hv hb hblk hold ht hid
  intro c hcm
  rw [hblocks, hstored.2] at hcm
  rcases hcm with hcm | rfl
  · obtain ⟨t, ⟨htm, row, hrow, hid⟩, htc⟩ := hc c hcm
    rcases hkept t ⟨(hstored.2 t).2 (Or.inl htm), row, hstored.1 ▸ hrow, hid⟩ with ht' | hle
    · exact ⟨t, ht', htc⟩
    · exact ⟨blk, htip, hle.trans htc⟩
  · exact ⟨c, htip, AtLeast.refl c⟩

/-- **An addition keeps the best block a tip.** -/
theorem Inv.crowned_tryAddBlock (hS : E.CollisionFree (insert genesisText S)) (h : s.Inv E S)
    (hb : b.Hashed S) (hc : s.db.Crowned) (hadd : Node.tryAddBlock E depth now b s = .ok s') :
    s'.db.Crowned := by
  obtain ⟨db, blk, s₁, row, habove, hto, hinv, hblk, hp, hup⟩ := h.tryAddBlock_spec hS hb hadd
  exact h.crowned_placed hS hb hc (Chain.validateAbove_eq_ok.1 habove).1 hto hinv hblk hp hup

end Session

/-- **A node keeps the best block a tip**, at any pruning depth. -/
theorem NodeRun.crowned {E : Env} {S : Set Str} {P : DateTime → Block → Prop}
    {depth : Option ℕ} {s : Session} (hS : E.CollisionFree (insert genesisText S))
    (hP : ∀ now b, P now b → b.Hashed S) (h : NodeRun E P depth s) : s.db.Crowned := by
  induction h with
  | empty => exact fun c hc => absurd hc List.not_mem_nil
  | add hrun hb hadd ih =>
    rcases Node.addBlock_eq_ok hadd with ⟨-, htry⟩ | ⟨-, rfl⟩
    · exact (hrun.inv hS hP).crowned_tryAddBlock hS (hP _ _ hb) ih htry
    · exact ih
  | forget _ _ ih => exact ih
  | pool _ ih => exact ih

/-! ## Runs side by side -/

namespace Database

variable {E : Env} {db db' : Database} {b : Block}

/-- The tables with other rows beside the blocks. -/
def beside (db : Database) (chains : List ChainDAO) (table : List LongestChainBlockDAO)
    (pending : List PendingTxnDAO) : Database :=
  { db with chains := chains, longestChainBlocks := table, pendingTxns := pending }

variable (chains : List ChainDAO) (table : List LongestChainBlockDAO)
  (pending : List PendingTxnDAO)

theorem enroll_beside (flushed : Database) : ∀ (ts : List Transaction) (db : Database),
    enroll (flushed.beside chains table pending) (db.beside chains table pending) ts =
      (enroll flushed db ts).map fun r => (r.1.beside chains table pending, r.2)
  | [], _ => rfl
  | t :: ts, db => by
    unfold enroll
    cases t.identity with
    | error e => rfl
    | ok i =>
      obtain ⟨txid, timestamp⟩ := i
      have hold : (flushed.beside chains table pending).transactionByTxid txid =
          flushed.transactionByTxid txid := rfl
      have hadd : ((db.beside chains table pending).addTransaction
          (flushed.beside chains table pending) t txid timestamp) =
          ((db.addTransaction flushed t txid timestamp).1.beside chains table pending,
            (db.addTransaction flushed t txid timestamp).2) := rfl
      simp only [ok_bind, hold, hadd]
      cases flushed.transactionByTxid txid with
      | some row =>
        simp only
        rw [enroll_beside flushed ts]
        cases enroll flushed db ts <;> rfl
      | none =>
        simp only
        rw [enroll_beside flushed ts]
        cases enroll flushed (db.addTransaction flushed t txid timestamp).1 ts <;> rfl

theorem flush_beside (db : Database) : (db.beside chains table pending).flush E =
    (db.flush E).map (beside · chains table pending) := by
  have hrange : (db.beside chains table pending).InRange E ↔ db.InRange E := Iff.rfl
  have hschema : (db.beside chains table pending).Schema E ↔ db.Schema E :=
    ⟨SameLedger.schema ⟨db.chains, db.longestChainBlocks, db.pendingTxns, rfl⟩,
      SameLedger.schema ⟨chains, table, pending, rfl⟩⟩
  unfold flush
  rw [ensure_congr hrange, ensure_congr hschema]
  cases ensure (db.InRange E) .dataError with
  | error e => rfl
  | ok u => cases ensure (db.Schema E) .integrityError <;> rfl

/-- Storing a block does not look at the rows beside the blocks. -/
theorem toDb_beside (db : Database) (b : Block) : b.toDb E (db.beside chains table pending) =
    (b.toDb E db).map (beside · chains table pending) := by
  have hrow : b.toRow (db.beside chains table pending) = b.toRow db := rfl
  have hold : (db.beside chains table pending).blockByHash b.blockHash =
      db.blockByHash b.blockHash := rfl
  unfold Block.toDb
  rw [hrow, hold]
  cases b.toRow db with
  | error e => rfl
  | ok row =>
    simp only [ok_bind]
    cases db.blockByHash b.blockHash with
    | some r => rfl
    | none =>
      simp only
      rw [enroll_beside]
      cases enroll db db b.txns with
      | error e => rfl
      | ok r => exact flush_beside chains table pending (r.1.addBlock db row r.2)

end Database

namespace Session

variable {E : Env} {S : Set Str} {depth depth' : Option ℕ} {now : DateTime} {s s' : Session}
  {b : Block}

/-- A block looks the same from the same block tables. -/
theorem Inv.validateAbove_beside (hS : E.CollisionFree (insert genesisText S)) (h : s.Inv E S)
    (h' : s'.Inv E S) (hl : s.db.SameLedger s'.db) :
    Chain.validateAbove E now (Chain.validateGenesis E s'.db b) (Ledger.ofDb s'.db b)
        (s'.db.ancestors b) b =
      Chain.validateAbove E now (Chain.validateGenesis E s.db b) (Ledger.ofDb s.db b)
        (s.db.ancestors b) b := by
  have htree := h.tree hS
  have htree' := h'.tree hS
  have hs := h.ledger.schema
  have hs' := h'.ledger.schema
  have hanc : s'.db.ancestors b = s.db.ancestors b := by
    obtain ⟨_, _, _, heq⟩ := hl
    rw [heq]
    rfl
  have hgen : Chain.validateGenesis E s'.db b = Chain.validateGenesis E s.db b := by
    obtain ⟨_, _, _, heq⟩ := hl
    rw [heq]
    rfl
  have hledger : Ledger.ofDb s'.db b = Ledger.ofDb s.db b := by
    cases hr : s.db.blockByHash b.blockHash with
    | none =>
      rw [Ledger.ofDb_unsaved hs htree hr, Ledger.ofDb_unsaved hs' htree' (hl.blockByHash ▸ hr),
        hanc]
    | some r =>
      rw [Ledger.ofDb_saved hs htree hr, Ledger.ofDb_saved hs' htree' (hl.blockByHash ▸ hr)]
      obtain ⟨_, _, _, heq⟩ := hl
      rw [heq]
      rfl
  rw [hanc, hgen, hledger]

/-- **Side by side.**  On the same block tables an addition has the same outcome,
whatever the chain rows, the longest-chain table and the depth: both fail alike,
or both store the block. -/
theorem Inv.tryAddBlock_beside (hS : E.CollisionFree (insert genesisText S)) (h : s.Inv E S)
    (h' : s'.Inv E S) (hl : s.db.SameLedger s'.db) (hb : b.Hashed S) :
    (∃ e, Node.tryAddBlock E depth now b s = .error e ∧
        Node.tryAddBlock E depth' now b s' = .error e) ∨
      ∃ t t', Node.tryAddBlock E depth now b s = .ok t ∧
        Node.tryAddBlock E depth' now b s' = .ok t' ∧ t.db.SameLedger t'.db := by
  have hval := Chain.validateBlock_eq (b := b) h.ledger.schema (h.tree hS) h.ledger.linked h.chains
    now
  have hval' := Chain.validateBlock_eq (b := b) h'.ledger.schema (h'.tree hS) h'.ledger.linked
    h'.chains now
  rw [h.validateAbove_beside hS h' hl] at hval'
  cases hok : Chain.validateAbove E now (Chain.validateGenesis E s.db b) (Ledger.ofDb s.db b)
      (s.db.ancestors b) b with
  | error e =>
    rw [hok] at hval hval'
    refine Or.inl ⟨e, ?_, ?_⟩
    · rw [Node.tryAddBlock, Chain.addBlock, hval]
      rfl
    · rw [Node.tryAddBlock, Chain.addBlock, hval']
      rfl
  | ok u =>
    rw [hok] at hval hval'
    simp only [Except.map] at hval hval'
    obtain ⟨chains, table, pending, heq⟩ := hl
    have hto := toDb_beside (E := E) chains table pending s.db b
    rw [show s.db.beside chains table pending = s'.db from heq.symm] at hto
    cases hdb : b.toDb E s.db with
    | error e =>
      rw [hdb] at hto
      refine Or.inl ⟨e, ?_, ?_⟩
      · rw [Node.tryAddBlock, Chain.addBlock, hval, ok_bind, hdb]
        rfl
      · rw [Node.tryAddBlock, Chain.addBlock, hval', ok_bind, hto]
        rfl
    | ok db =>
      rw [hdb] at hto
      obtain ⟨hinv, blk, hblk⟩ := h.stored hS hb hval hdb
      obtain ⟨hinv', -⟩ := h'.stored hS hb hval' hto
      obtain ⟨s₁, row, t, hp, hup, hsave⟩ := toDb_upkeep hinv.ledger.schema (hinv.tree hS)
        hinv.ledger.linked.root hinv.chains (c := ⟨(Node.chainFor s.db b).cid, b.blockHash⟩) hblk
        depth
      obtain ⟨s₁', row', t', hp', hup', hsave'⟩ := toDb_upkeep hinv'.ledger.schema (hinv'.tree hS)
        hinv'.ledger.linked.root hinv'.chains
        (c := ⟨(Node.chainFor s'.db b).cid, b.blockHash⟩) hblk depth'
      refine Or.inr ⟨t, t', Node.tryAddBlock_eq_ok.2 ⟨s, db, _, hval, hdb, hsave⟩,
        Node.tryAddBlock_eq_ok.2 ⟨s', _, _, hval', hto, hsave'⟩, ?_⟩
      have hleft := hp.sameLedger.1.trans hup.ledger
      have hright := hp'.sameLedger.1.trans hup'.ledger
      exact hleft.symm.trans (SameLedger.trans ⟨chains, table, pending, rfl⟩ hright)

end Session

/-! ## Turns -/

namespace Session

/-- The invariant does not look at the mempool, nor at what row objects remember. -/
theorem Inv.pool {E : Env} {S : Set Str} {s s' : Session} {pending : List PendingTxnDAO}
    (h : s.Inv E S) (hdb : s'.db = { s.db with pendingTxns := pending }) : s'.Inv E S := by
  refine ⟨?_, ?_, ?_⟩
  · rw [hdb]
    exact h.ledger.congr ⟨_, _, _, rfl⟩
  · rw [hdb]
    exact ⟨h.chains.ids, h.chains.hashes, h.chains.tip⟩
  · rw [hdb]
    exact h.table

end Session

namespace Node

variable {E : Env} {S : Set Str} {depth depth' : Option ℕ} {s s' : Session} {t : Turn}
  {ts : List Turn}

theorem calls_cons (t : Turn) (ts : List Turn) : calls (t :: ts) = calls [t] ++ calls ts := by
  cases t <;> rfl

/-- A call keeps the invariant, and the best block a tip. -/
theorem process_kept (hS : E.CollisionFree (insert genesisText S)) (h : s.Inv E S)
    (hc : s.db.Crowned) {call : Call} (hb : call.block.Hashed S) :
    (process E depth s call).Inv E S ∧ (process E depth s call).db.Crowned := by
  unfold process
  split
  · rename_i added hadd
    obtain ⟨r, next⟩ := added
    rcases addBlock_eq_ok hadd with ⟨-, htry⟩ | ⟨-, rfl⟩
    · exact ⟨h.tryAddBlock hS hb htry, h.crowned_tryAddBlock hS hb hc htry⟩
    · exact ⟨h, hc⟩
  · exact ⟨h, hc⟩

/-- What is no call changes the mempool at most. -/
theorem turn_db (E : Env) (depth : Option ℕ) (s : Session) (hcall : calls [t] = []) :
    ∃ pending, (turn E depth s t).db = { s.db with pendingTxns := pending } := by
  cases t with
  | call call => exact absurd hcall (List.cons_ne_nil _ _)
  | ask id =>
    refine ⟨s.db.pendingTxns, ?_⟩
    simp only [turn]
    split
    · rename_i row _
      exact s.isLongest_db row
    · rfl
  | forget dropped => exact ⟨s.db.pendingTxns, rfl⟩
  | pool pending => exact ⟨pending, rfl⟩

/-- A turn is a call, or makes none. -/
theorem turn_cases (t : Turn) : (∃ call, t = .call call) ∨ calls [t] = [] := by
  cases t with
  | call call => exact Or.inl ⟨call, rfl⟩
  | ask id => exact Or.inr rfl
  | forget dropped => exact Or.inr rfl
  | pool pending => exact Or.inr rfl

/-- **A turn keeps the invariant, and the best block a tip.** -/
theorem turn_kept (depth : Option ℕ) (hS : E.CollisionFree (insert genesisText S))
    (h : s.Inv E S) (hc : s.db.Crowned) (hb : ∀ call ∈ calls [t], call.block.Hashed S) :
    (turn E depth s t).Inv E S ∧ (turn E depth s t).db.Crowned := by
  rcases turn_cases t with ⟨call, rfl⟩ | hcall
  · exact process_kept hS h hc (hb call (List.mem_singleton.2 rfl))
  · obtain ⟨pending, hdb⟩ := turn_db E depth s hcall
    refine ⟨h.pool hdb, ?_⟩
    rw [hdb]
    exact hc

theorem turns_kept (depth : Option ℕ) (hS : E.CollisionFree (insert genesisText S))
    (h : s.Inv E S) (hc : s.db.Crowned) (hb : ∀ call ∈ calls ts, call.block.Hashed S) :
    (turns E depth s ts).Inv E S ∧ (turns E depth s ts).db.Crowned := by
  induction ts generalizing s with
  | nil => exact ⟨h, hc⟩
  | cons t ts ih =>
    rw [calls_cons, List.forall_mem_append] at hb
    obtain ⟨h', hc'⟩ := turn_kept depth hS h hc hb.1
    exact ih h' hc' hb.2

end Node

/-! ## Orders of arrival -/

/-- How fork choice ranks blocks. -/
def Block.rankKey (b : Block) : ℕᵒᵈ ×ₗ ℕ ×ₗ Str :=
  toLex (OrderDual.toDual (b.idx.getD 0),
    toLex ((b.timestampDt.map DateTime.toSeconds).getD 0, b.blockHash.getD []))

theorem BlockDAO.Shows.rankKey {r : BlockDAO} {b : Block} (h : r.Shows b) :
    b.rankKey = Database.rankKey r := by
  rw [Block.rankKey, h.idx, h.timestamp, h.blockHash]
  rfl

namespace Node

variable {E : Env} {S : Set Str} {depth : Option ℕ} {s s' : Session} {ts : List Turn}

/-- A call that adds its block stores it, and nothing else. -/
theorem blocks_addBlock (hS : E.CollisionFree (insert genesisText S)) (h : s.Inv E S)
    {now : DateTime} {commit : Bool} {b b' : Block} (hb : b.Hashed S)
    (hadd : addBlock E depth now commit b s = .ok (some b', s')) :
    ∃ blk : BlockDAO, blk.Shows b ∧ ∀ c, c ∈ s'.db.blocks ↔ c ∈ s.db.blocks ∨ c = blk := by
  obtain ⟨-, htry⟩ := (addBlock_eq_ok hadd).resolve_right (by simp)
  obtain ⟨db, blk, s₀, row, habove, hto, hinv, hblk, hp, hup⟩ := h.tryAddBlock_spec hS hb htry
  have hv := (Chain.validateAbove_eq_ok.1 habove).1
  refine ⟨blk, hinv.ledger.shows hS hv hb hblk, ?_⟩
  rw [(hp.sameLedger.1.trans hup.ledger).blocks]
  exact (Block.mem_blocks_toDb h.ledger.schema hv hto hblk).2

/-- The calls of a sequence store their blocks, and nothing else is stored. -/
theorem blocks_addTurns (hS : E.CollisionFree (insert genesisText S)) (h : s.Inv E S)
    (hc : s.db.Crowned) (hb : ∀ call ∈ calls ts, call.block.Hashed S)
    (hadd : addTurns E depth s ts = some s') :
    (s'.Inv E S ∧ s'.db.Crowned) ∧ (∀ r ∈ s.db.blocks, r ∈ s'.db.blocks) ∧
      (∀ call ∈ calls ts, ∃ r ∈ s'.db.blocks, r.Shows call.block) ∧
      ∀ r ∈ s'.db.blocks, r ∈ s.db.blocks ∨ ∃ call ∈ calls ts, r.Shows call.block := by
  induction ts generalizing s with
  | nil =>
    cases hadd
    exact ⟨⟨h, hc⟩, fun _ hr => hr, fun _ hc => absurd hc List.not_mem_nil, fun _ hr => Or.inl hr⟩
  | cons t rest ih =>
    rw [calls_cons, List.forall_mem_append] at hb
    obtain ⟨h', hc'⟩ := turn_kept depth hS h hc hb.1
    rcases turn_cases t with ⟨call, rfl⟩ | hcall
    · have hcb := hb.1 call (List.mem_singleton.2 rfl)
      unfold addTurns at hadd
      split at hadd
      · rename_i b' s₁ hone
        have hs₁ : turn E depth s (.call call) = s₁ := by
          simp only [turn, process, hone]
        rw [hs₁] at h' hc'
        obtain ⟨hkept, hkeep, hall, hsrc⟩ := ih h' hc' hb.2 hadd
        obtain ⟨blk, hshows, hmem⟩ := blocks_addBlock hS h hcb hone
        refine ⟨hkept, fun r hr => hkeep r ((hmem r).2 (Or.inl hr)), ?_, fun r hr => ?_⟩
        · rw [calls_call, List.forall_mem_cons]
          exact ⟨⟨blk, hkeep blk ((hmem blk).2 (Or.inr rfl)), hshows⟩, hall⟩
        · rcases hsrc r hr with hr | ⟨c, hc, hcr⟩
          · rcases (hmem r).1 hr with hr | rfl
            · exact Or.inl hr
            · exact Or.inr ⟨call, List.mem_cons_self .., hshows⟩
          · exact Or.inr ⟨c, List.mem_cons_of_mem _ hc, hcr⟩
      · exact absurd hadd (by simp)
    · -- nothing but a call touches the blocks
      obtain ⟨pending, hdb⟩ := turn_db E depth s hcall
      have hrest : addTurns E depth (turn E depth s t) rest = some s' := by
        cases t with
        | call call => exact absurd hcall (List.cons_ne_nil _ _)
        | ask id => exact hadd
        | forget dropped => exact hadd
        | pool pending => exact hadd
      obtain ⟨hkept, hkeep, hall, hsrc⟩ := ih h' hc' hb.2 hrest
      rw [hdb] at hkeep hsrc
      rw [calls_cons, hcall, List.nil_append]
      exact ⟨hkept, hkeep, hall, hsrc⟩

/-- A run ends on the best of its blocks. -/
theorem longestTip_addTurns (hS : E.CollisionFree (insert genesisText S))
    (hb : ∀ call ∈ calls ts, call.block.Hashed S) (hne : calls ts ≠ [])
    (h : addTurns E depth {} ts = some s) :
    ∃ b ∈ (calls ts).map Call.block, (∀ c ∈ (calls ts).map Call.block, b.rankKey ≤ c.rankKey) ∧
      ∃ t, s.db.longestTip = some t ∧ t.Shows b := by
  obtain ⟨⟨hinv, hcrowned⟩, -, hall, hsrc⟩ :=
    blocks_addTurns hS Session.Inv.empty (fun c hc => absurd hc List.not_mem_nil) hb h
  obtain ⟨call, hcall⟩ := List.exists_mem_of_ne_nil _ hne
  obtain ⟨r, hr, -⟩ := hall call hcall
  obtain ⟨t, htip⟩ : ∃ t, s.db.longestTip = some t := by
    obtain ⟨_, ⟨-, row, hrow, -⟩, -⟩ := hcrowned r hr
    obtain ⟨c, hc⟩ := longest_isSome hinv.ledger.schema hinv.chains (List.ne_nil_of_mem hrow)
    obtain ⟨-, t, -, ht, -⟩ := longest_spec hinv.ledger.schema hinv.chains hc
    exact ⟨t, by rw [Database.longestTip, hc]; exact ht⟩
  have hbest := (longestTip_eq_some hinv.ledger.schema hinv.chains hcrowned).1 htip
  obtain ⟨c, hc, hshows⟩ := (hsrc t hbest.1).resolve_left List.not_mem_nil
  refine ⟨c.block, List.mem_map.2 ⟨c, hc, rfl⟩, fun x hx => ?_, t, htip, hshows⟩
  obtain ⟨d, hd, rfl⟩ := List.mem_map.1 hx
  obtain ⟨r', hr', hshows'⟩ := hall d hd
  rw [hshows.rankKey, hshows'.rankKey]
  exact hbest.2 r' hr'

end Node

/-- **Fork choice converges.**  Two orders in which a node adds the same blocks, at
any pruning depths and whatever rows are asked or row objects dropped in between, end
on the same tip: the block with the highest index, then the earliest timestamp, then
the lowest hash. -/
theorem fork_choice_converges {E : Env} {S : Set Str} {depth depth' : Option ℕ}
    {turns turns' : List Node.Turn} {s s' : Session}
    (hS : E.CollisionFree (insert genesisText S))
    (hb : ∀ call ∈ Node.calls turns, call.block.Hashed S) (hne : Node.calls turns ≠ [])
    (hperm : ((Node.calls turns).map Node.Call.block).Perm
      ((Node.calls turns').map Node.Call.block))
    (h : Node.addTurns E depth {} turns = some s)
    (h' : Node.addTurns E depth' {} turns' = some s') :
    ∃ b ∈ (Node.calls turns).map Node.Call.block,
      (∀ c ∈ (Node.calls turns).map Node.Call.block, b.rankKey ≤ c.rankKey) ∧
      s.db.longestTip.map BlockDAO.blockHash = b.blockHash ∧
      s'.db.longestTip.map BlockDAO.blockHash = b.blockHash := by
  have hb' : ∀ call ∈ Node.calls turns', call.block.Hashed S := by
    intro call hcall
    obtain ⟨c, hc, heq⟩ := List.mem_map.1 (hperm.mem_iff.2 (List.mem_map.2 ⟨call, hcall, rfl⟩))
    exact heq ▸ hb c hc
  have hne' : Node.calls turns' ≠ [] := by
    intro hnil
    rw [hnil] at hperm
    exact hne (List.map_eq_nil_iff.1 hperm.eq_nil)
  obtain ⟨b, hbm, hbest, t, htip, hshows⟩ := Node.longestTip_addTurns hS hb hne h
  obtain ⟨b', hbm', hbest', t', htip', hshows'⟩ := Node.longestTip_addTurns hS hb' hne' h'
  have hkey : Database.rankKey t = Database.rankKey t' := by
    rw [← hshows.rankKey, ← hshows'.rankKey]
    exact le_antisymm (hbest b' (hperm.mem_iff.2 hbm')) (hbest' b (hperm.mem_iff.1 hbm))
  refine ⟨b, hbm, hbest, ?_, ?_⟩
  · rw [htip, hshows.blockHash]
    rfl
  · rw [htip', hshows.blockHash, blockHash_eq_of_rankKey hkey]
    rfl

namespace Sample

/-- Blocks in the order they arrive; after each, all row objects are dropped. -/
def arrivals (blocks : List Block) : List Node.Turn :=
  blocks.flatMap fun b => [.call (call b), .forget fun _ => true]

end Sample

/-- The two blocks of the fork in either order. -/
theorem fork_choice_converges_fork : ∃ s s',
    Node.addTurns Sample.env none {}
      (Sample.arrivals [Sample.genesis, Sample.left, Sample.right]) = some s ∧
    Node.addTurns Sample.env none {}
      (Sample.arrivals [Sample.genesis, Sample.right, Sample.left]) = some s' ∧
    ∃ b ∈ [Sample.genesis, Sample.left, Sample.right],
      (∀ c ∈ [Sample.genesis, Sample.left, Sample.right], b.rankKey ≤ c.rankKey) ∧
      s.db.longestTip.map BlockDAO.blockHash = b.blockHash ∧
      s'.db.longestTip.map BlockDAO.blockHash = b.blockHash := by
  -- one evaluation of both runs, which have the first block in common
  have hadded : (Node.addTurns Sample.env none {}
        (Sample.arrivals [Sample.genesis, Sample.left, Sample.right])).isSome = true ∧
      (Node.addTurns Sample.env none {}
        (Sample.arrivals [Sample.genesis, Sample.right, Sample.left])).isSome = true := by
    decide +kernel
  obtain ⟨s, hs⟩ := Option.isSome_iff_exists.1 hadded.1
  obtain ⟨s', hs'⟩ := Option.isSome_iff_exists.1 hadded.2
  have hsub : [Sample.genesis, Sample.left, Sample.right] ⊆ Sample.blocks := by
    simp [Sample.blocks]
  have hperm : [Sample.genesis, Sample.left, Sample.right].Perm
      [Sample.genesis, Sample.right, Sample.left] :=
    (List.Perm.swap Sample.right Sample.left []).cons Sample.genesis
  refine ⟨s, s', hs, hs', fork_choice_converges Sample.collisionFree ?_ ?_ ?_ hs hs'⟩
  · exact Sample.hashed hsub
  · exact List.cons_ne_nil _ _
  · exact hperm

/-! ## Pruning -/

namespace Node

variable {E : Env} {S : Set Str} {depth depth' : Option ℕ} {s s' : Session} {t : Turn}
  {ts : List Turn}

/-- One call leaves two nodes with the same blocks with the same blocks. -/
theorem process_beside (hS : E.CollisionFree (insert genesisText S))
    (h : s.Inv E S) (h' : s'.Inv E S) (hl : s.db.SameLedger s'.db) {call : Call}
    (hb : call.block.Hashed S) :
    (process E depth s call).db.SameLedger (process E depth' s' call).db := by
  unfold process addBlock
  rcases h.tryAddBlock_beside hS h' hl hb
    with ⟨e, he, he'⟩ | ⟨t, t', ht, ht', hsame⟩
  · rw [he, he']
    simp only
    split_ifs <;> exact hl
  · rw [ht, ht']
    exact hsame

/-- A turn of one node, beside its call, if it is one, at the other. -/
theorem turn_beside (depth depth' : Option ℕ) (hS : E.CollisionFree (insert genesisText S))
    (h : s.Inv E S) (h' : s'.Inv E S) (hl : s.db.SameLedger s'.db)
    (hb : ∀ call ∈ calls [t], call.block.Hashed S) :
    (turn E depth s t).db.SameLedger (turns E depth' s' ((calls [t]).map .call)).db := by
  rcases turn_cases t with ⟨call, rfl⟩ | hcall
  · exact process_beside hS h h' hl (hb call (List.mem_singleton.2 rfl))
  · obtain ⟨pending, hdb⟩ := turn_db E depth s hcall
    rw [hcall, hdb]
    exact SameLedger.trans (SameLedger.symm ⟨_, _, _, rfl⟩) hl

theorem calls_map_call (calling : List Call) : calls (calling.map .call) = calling := by
  induction calling with
  | nil => rfl
  | cons call rest ih => rw [List.map_cons, calls_call, ih]

/-- **Turns beside calls.**  The block tables of a node are those of any other node that
gets the same calls, whatever their depths and whatever else the first goes through. -/
theorem turns_beside (depth depth' : Option ℕ) (hS : E.CollisionFree (insert genesisText S))
    (h : s.Inv E S) (h' : s'.Inv E S) (hl : s.db.SameLedger s'.db) (hc : s.db.Crowned)
    (hc' : s'.db.Crowned)
    (hb : ∀ call ∈ calls ts, call.block.Hashed S) :
    (turns E depth s ts).db.SameLedger (turns E depth' s' ((calls ts).map .call)).db := by
  induction ts generalizing s s' with
  | nil => exact hl
  | cons t rest ih =>
    rw [calls_cons, List.forall_mem_append] at hb
    obtain ⟨h₁, hc₁⟩ := turn_kept depth hS h hc hb.1
    obtain ⟨h₁', hc₁'⟩ := turns_kept depth' hS h' hc'
      ((calls_map_call (calls [t])).symm ▸ hb.1)
    have hstep := turn_beside depth depth' hS h h' hl hb.1
    rw [calls_cons, List.map_append, turns_append]
    exact ih h₁ h₁' hstep hc₁ hc₁' hb.2

end Node

/-- **Pruning never changes the canonical chain.**  At every moment of two runs with the
same calls so far, whatever rows are asked, row objects dropped or transactions pooled in
either, the node that prunes at depth `d` has the same blocks and the same tip as the
node that does not; and a stored block that outranks the others, on a fork whose row was
pruned or not, is the tip. -/
theorem pruning_keeps_tip {E : Env} {S : Set Str} {turns turns' : List Node.Turn}
    (hS : E.CollisionFree (insert genesisText S)) (hcalls : Node.calls turns = Node.calls turns')
    (hb : ∀ call ∈ Node.calls turns, call.block.Hashed S) (d : ℕ) :
    (Node.turns E (some d) {} turns).db.blocks = (Node.turns E none {} turns').db.blocks ∧
      (Node.turns E (some d) {} turns).db.longestTip =
        (Node.turns E none {} turns').db.longestTip ∧
      ∀ r, (Node.turns E (some d) {} turns).db.IsBest r →
        (Node.turns E (some d) {} turns).db.longestTip = some r := by
  have hempty : ∀ c ∈ ({} : Session).db.blocks, ∃ t, ({} : Session).db.IsTip t ∧ AtLeast t c :=
    fun c hc => absurd hc List.not_mem_nil
  obtain ⟨hinv, hcrowned⟩ := Node.turns_kept (some d) hS Session.Inv.empty hempty hb
  obtain ⟨hinv', hcrowned'⟩ := Node.turns_kept none hS Session.Inv.empty hempty
    (hcalls ▸ hb)
  -- both nodes are beside one that goes through the calls alone
  have hpruned := Node.turns_beside (some d) none hS Session.Inv.empty
    Session.Inv.empty (SameLedger.refl _) hempty hempty hb
  have hwhole := Node.turns_beside none none hS Session.Inv.empty
    Session.Inv.empty (SameLedger.refl _) hempty hempty (hcalls ▸ hb)
  rw [← hcalls] at hwhole
  have hblocks := (hwhole.trans hpruned.symm).blocks
  refine ⟨hblocks, ?_, fun r hr => ?_⟩
  · exact longestTip_congr hinv'.ledger.schema hinv'.chains hcrowned' hinv.ledger.schema
      hinv.chains hcrowned hblocks
  · exact (longestTip_eq_some hinv.ledger.schema hinv.chains hcrowned).2 hr

namespace Sample

/-- A plain reward on the left. -/
def leftTopCoinbase : Transaction where
  timestamp := dt2Iso (minutesPast 40)
  txid := some (fmt064x 0x8ee9d1ad775ae073f540563acd9ec2ce956d43450b6edf7c7a9f63b11b5f1ed2)
  address := some alice
  signature := some (b64encode
    (toBytes 32 0xb90f5df022cfcf73c80b8065c55bedb7329e9f92e4cb5b4a67dbdbc607520bd1 ++
      toBytes 32 0x8a56ae3c9e730837f7e645d61f275fb9f006b63580b20f28c2d2dc04db03c70b))
  outflows := [{ amount := some 500, address := some alice }]
  prevHash := left.blockHash

/-- A block on `left`, later than `top`. -/
def leftTop : Block where
  idx := some 2
  timestamp := some (dt2Iso (minutesPast 40))
  blockHash := some (fmt064x 0x00000d364ae4266b24ed20c20b35a90e7c5a280afe72032ac545a764aa78d95c)
  prevHash := left.blockHash
  target := maxTarget
  proofOfWork := some 929352
  merkleRoot := some (fmt064x 0x98096616afe0fe1597dceba7d9124a861b959dc67af39dcaebf2bf4de94b951d)
  txns := [leftTopCoinbase]

/-- A plain reward on that one. -/
def leftEndCoinbase : Transaction where
  timestamp := dt2Iso (minutesPast 50)
  txid := some (fmt064x 0xb7e2d61c5fcb7edcaf55e0d6fc5847eb8866fa17242c60f85c4de4ce12ca7c3c)
  address := some alice
  signature := some (b64encode
    (toBytes 32 0xc1399183e8f775d6a59b9dda849c45ffbc07f05de587356915a18d79582274e3 ++
      toBytes 32 0xaf9e1ec0d2a37a1fa13a29f9747238e4efb217ec06b07082f0b171fda2f5bd0d))
  outflows := [{ amount := some 500, address := some alice }]
  prevHash := leftTop.blockHash

/-- A block on that one, with which the left branch overtakes. -/
def leftEnd : Block where
  idx := some 3
  timestamp := some (dt2Iso (minutesPast 50))
  blockHash := some (fmt064x 0x00000a224ad4f8fd252b698ddba3fc787032dbfd7a4a7f2aed9a96a1180ffea2)
  prevHash := leftTop.blockHash
  target := maxTarget
  proofOfWork := some 24033
  merkleRoot := some (fmt064x 0x29eb9c1115ea67c662c436d84048d61bef13aa5213fd05c2632571be62d9fc50)
  txns := [leftEndCoinbase]

/-- Two branches: `left` is left behind by `right` and `top`, catches up and overtakes. -/
def overtaking : List Block := [genesis, left, right, top, leftTop, leftEnd]

/-- Their hashes and signatures. -/
def overtakingEnv : Env := Env.knowing overtaking

/-- Their texts. -/
def overtakingTexts : Set Str := { x | x ∈ hashedTexts overtaking }

theorem overtaking_collisionFree :
    overtakingEnv.CollisionFree (insert genesisText overtakingTexts) :=
  collisionFree_of_nodup (by decide +kernel)

theorem overtaking_hashed : ∀ b ∈ overtaking, b.Hashed overtakingTexts := by
  intro b hb
  exact Block.hashed_of_mem hb

/-- The indices of the chain rows' tips after some of the blocks, at a pruning depth. -/
def tipIdxs (depth : Option ℕ) (blocks : List Block) : List ℕ :=
  (Node.turns overtakingEnv depth {} (arrivals blocks)).db.chains.map ChainDAO.tipIdx

end Sample

/-- At depth 0 the row of `left` goes when `top` comes, a row comes back with `leftTop`,
and when `leftEnd` overtakes with it the row of `top` goes. -/
theorem pruning_keeps_tip_overtaking :
    (Sample.tipIdxs (some 0) [Sample.genesis, Sample.left, Sample.right] = [1, 1] ∧
      Sample.tipIdxs (some 0) [Sample.genesis, Sample.left, Sample.right, Sample.top] = [2] ∧
      Sample.tipIdxs (some 0) [Sample.genesis, Sample.left, Sample.right, Sample.top,
        Sample.leftTop] = [2, 2] ∧
      Sample.tipIdxs (some 0) Sample.overtaking = [3] ∧
      Sample.tipIdxs none Sample.overtaking = [3, 2]) ∧
    (Node.turns Sample.overtakingEnv (some 0) {} (Sample.arrivals Sample.overtaking)).db.blocks =
        (Node.turns Sample.overtakingEnv none {}
          (Sample.overtaking.map fun b => .call (Sample.call b))).db.blocks ∧
      (Node.turns Sample.overtakingEnv (some 0) {}
          (Sample.arrivals Sample.overtaking)).db.longestTip =
        (Node.turns Sample.overtakingEnv none {}
          (Sample.overtaking.map fun b => .call (Sample.call b))).db.longestTip ∧
      ∀ r, (Node.turns Sample.overtakingEnv (some 0) {}
          (Sample.arrivals Sample.overtaking)).db.IsBest r →
        (Node.turns Sample.overtakingEnv (some 0) {}
          (Sample.arrivals Sample.overtaking)).db.longestTip = some r := by
  have hcalls : Node.calls (Sample.arrivals Sample.overtaking) =
      Node.calls (Sample.overtaking.map fun b => .call (Sample.call b)) := rfl
  refine ⟨by decide +kernel, pruning_keeps_tip Sample.overtaking_collisionFree hcalls ?_ 0⟩
  intro call hcall
  obtain ⟨b, hb, rfl⟩ := List.mem_map.1 (show call ∈ Sample.overtaking.map Sample.call from hcall)
  exact Sample.overtaking_hashed b hb

end GumptionChain
