import GumptionChain.RowCache

/-!
# Queries depend on the tip alone

* `Session.view_shows` — the route a row takes, remembered or fresh, leads to the
  rows of its root path;
* `SessionRun.pathBlocks` — a root path stays what it is;
* `queries_fold` — so the queries of a row are folds over the blocks below its tip,
  now and later.
-/

namespace GumptionChain

open Database

namespace Database

variable {E : Env} {db db' : Database} {r : BlockDAO} {v : ChainView}

theorem SameLedger.pathBlocks (h : db.SameLedger db') (r : BlockDAO) :
    db'.pathBlocks r = db.pathBlocks r := by
  obtain ⟨_, _, _, rfl⟩ := h
  rfl

/-- Joining the blocks of a path to their transactions gives the path's rows. -/
theorem transactionsQ_perm (hs : db.Schema E) {blocks : List BlockDAO}
    (hb : blocks.Perm (db.path r)) : (db.transactionsQ blocks).Perm (db.pathRows r) := by
  refine (Table.orderBy_perm _ _).trans (((Query.join_perm hb).map Prod.snd).trans ?_)
  rw [Query.join, List.map_flatMap, pathRows]
  refine List.Perm.flatMap_left _ fun c _ => ?_
  rw [List.map_map]
  refine ((List.perm_ext_iff_of_nodup ((List.Nodup.of_map _ hs.transactionIds).filter _)
    (rowsOf_nodup hs c.id)).2 fun t => ?_).map id |>.trans (List.Perm.of_eq (List.map_id _))
  rw [List.mem_filter, mem_rowsOf hs, decide_eq_true_eq]

/-- The table's blocks are those of the root path it holds. -/
theorem longestChainBlocksQ_perm (hs : db.Schema E) (ht : db.Tree) (hr : r ∈ db.blocks)
    (hm : db.Materializes r) : db.longestChainBlocksQ.Perm (db.path r) := by
  refine ((Table.orderBy_perm _ _).map _).trans (((Query.join_perm hm).map _).trans ?_)
  rw [Query.join, List.map_flatMap, List.flatMap_map]
  have hone : ∀ c ∈ db.path r, ((db.blocks.filter fun b => decide (b.id = c.id)).map fun b =>
      ((⟨c.id, c.idx⟩ : LongestChainBlockDAO), b)).map Prod.snd = [c] := by
    intro c hc
    rw [Query.filter_key_eq hs.blockIds (ht.mem_blocks hr hc)]
    rfl
  rw [List.flatMap_congr hone, List.flatMap_singleton']

theorem shows_of_blocks (hs : db.Schema E) {blocks : List BlockDAO} (hb : blocks.Perm (db.path r)) :
    db.Shows r ⟨db.transactionsQ blocks, db.outflowsQ (db.transactionsQ blocks),
      db.inflowsQ (db.transactionsQ blocks)⟩ := by
  have h := transactionsQ_perm hs hb
  exact ⟨h, Query.join_perm h, Query.join_perm h⟩

end Database

namespace Session

variable {E : Env} {S : Set Str} {s : Session} {row : ChainDAO} {r : BlockDAO}

/-- The `longest_chain_block` table is the path of the longest chain. -/
def Tracks (s : Session) : Prop := ∀ t, s.db.longestTip = some t → s.db.Materializes t

/-- **Whatever route a row takes, it sees its root path.** -/
theorem view_shows (hS : E.CollisionFree (insert genesisText S)) (h : s.Sound E S)
    (hm : s.Tracks) (hrow : row ∈ s.db.chains) (htip : s.db.blockById row.blockId = some r) :
    s.db.Shows r (s.view row).1 := by
  have hs := h.inv.ledger.schema
  have htree := h.inv.tree hS
  obtain ⟨hr, hrid⟩ := (blockById_eq_some hs).1 htip
  have hdb := isLongest_db s row
  unfold view
  simp only [hdb]
  by_cases hl : (s.isLongest row).1 = true
  · rw [if_pos hl]
    -- a row that answers yes stands for the tip whose path the table holds
    obtain ⟨t, ht⟩ : ∃ t, s.db.longestTip = some t := by
      obtain ⟨c, hc⟩ := longest_isSome hs h.inv.chains (List.ne_nil_of_mem hrow)
      obtain ⟨-, b, -, hb, -⟩ := longest_spec hs h.inv.chains hc
      exact ⟨b, by rw [longestTip, hc]; exact hb⟩
    have hbest := (longestTip_eq_some hs h.inv.chains h.crowned).1 ht
    have hid : row.blockId = t.id := by
      rcases isLongest_cases s row with ⟨v, hcache, heq⟩ | ⟨-, heq⟩
      · rw [heq] at hl
        rw [show v = true from hl] at hcache
        exact h.answered.longest row hrow hcache t hbest (hm t ht)
      · rw [heq] at hl
        obtain ⟨d, hd, hdid⟩ := (Option.any_eq_true _ _).1 hl
        rw [← List.inj_on_of_nodup_map h.inv.chains.ids (longest_spec hs h.inv.chains hd).1 hrow
          (by simpa using hdid)]
        exact blockId_of_longest hs h.inv.chains h.crowned hd hbest
    obtain rfl := id_injOn hs hr hbest.1 (hrid.trans hid)
    exact shows_of_blocks hs (longestChainBlocksQ_perm hs htree hr (hm r ht))
  · rw [if_neg hl, htip]
    exact shows_of_blocks hs (List.Perm.of_eq (htree.ancestryBlocksQ_eq hs hr))

end Session

namespace SessionRun

variable {E : Env} {S : Set Str} {Q : Session → DateTime → Block → Prop} {depth : Option ℕ}
  {s₀ s : Session}

/-- **A root path stays what it is.** -/
theorem pathBlocks (hS : E.CollisionFree (insert genesisText S))
    (hQ : ∀ s now b, Q s now b → b.Hashed S) (h₀ : s₀.Sound E S)
    (h : SessionRun E Q depth s₀ s) {r : BlockDAO} (hr : r ∈ s₀.db.blocks) :
    r ∈ s.db.blocks ∧ s.db.pathBlocks r = s₀.db.pathBlocks r := by
  induction h with
  | refl => exact ⟨hr, rfl⟩
  | add hrun hq hadd ih =>
    rcases Node.addBlock_eq_ok hadd with ⟨-, htry⟩ | ⟨-, rfl⟩
    · have hs := hrun.sound hS hQ h₀
      obtain ⟨db, blk, s₁, row, -, hto, hinv, hblk, hp, hup⟩ :=
        hs.inv.tryAddBlock_spec hS (hQ _ _ _ hq) htry
      have hl := hp.sameLedger.1.trans hup.ledger
      rw [hl.blocks, hl.pathBlocks]
      rcases Block.toDb_spec hs.inv.ledger.schema hto with ⟨x, -, rfl⟩ | ⟨-, x, ids, ha⟩
      · exact ih
      · refine ⟨(ha.frame hs.inv.ledger.schema).blocks r ih.1, ?_⟩
        exact (hs.inv.ledger.pathBlocks_old ha (hs.inv.tree hS) ih.1).trans ih.2
    · exact ih
  | ask _ _ ih =>
    rw [Session.isLongest_db]
    exact ih
  | forget _ _ ih => exact ih
  | pool _ ih => exact ih

/-- Whatever is offered to a node, its run goes on. -/
theorem process {call : Node.Call} (h : SessionRun E Q depth s₀ s)
    (hq : Q s call.now call.block) : SessionRun E Q depth s₀ (Node.process E depth s call) := by
  unfold Node.process
  split
  · rename_i res hadd
    exact h.add hq hadd
  · exact h

theorem processAll {calls : List Node.Call} : ∀ {s : Session}, SessionRun E Q depth s₀ s →
    (∀ s, ∀ call ∈ calls, Q s call.now call.block) →
    SessionRun E Q depth s₀ (Node.processAll E depth s calls) := by
  induction calls with
  | nil => exact fun h _ => h
  | cons call rest ih =>
    intro s h hall
    exact ih (h.process (hall s call (List.mem_cons_self ..))) fun s c hc =>
      hall s c (List.mem_cons_of_mem _ hc)

end SessionRun

/-- **Ledger queries are folds over the blocks of the tip.**  While the table is the
path of the longest chain, every query of every chain row is the fold over the
transactions of the row's root path; and whatever the session goes through
afterwards, while that holds a row with the same tip gives the same answers. -/
theorem queries_fold {E : Env} {S : Set Str} {depth : Option ℕ} {s : Session} {row : ChainDAO}
    (hS : E.CollisionFree (insert genesisText S))
    (h : SessionRun E (fun _ _ b => b.Hashed S) depth {} s) (hm : s.Tracks)
    (hrow : row ∈ s.db.chains) :
    ∃ r ∈ s.db.blocks, s.db.blockById row.blockId = some r ∧
      s.Folds row (txnsOf (s.db.pathBlocks r)) ∧
      ∀ s', SessionRun E (fun _ _ b => b.Hashed S) depth s s' → s'.Tracks →
        ∀ row' ∈ s'.db.chains, row'.blockHash = row.blockHash →
          s'.Folds row' (txnsOf (s.db.pathBlocks r)) := by
  have hsound := h.sound hS (fun _ _ _ hb => hb) Session.Sound.empty
  obtain ⟨r, hr, hrid, hrh, -⟩ := hsound.inv.chains.tip row hrow
  have htip := (blockById_eq_some hsound.inv.ledger.schema).2 ⟨hr, hrid.symm⟩
  refine ⟨r, hr, htip, Session.folds_of_shows hsound.inv.ledger hsound.numbered
    (hsound.inv.tree hS) hr (Session.view_shows hS hsound hm hrow htip), ?_⟩
  intro s' h' hm' row' hrow' hhash
  have hsound' := h'.sound hS (fun _ _ _ hb => hb) hsound
  obtain ⟨hr', hpath⟩ := h'.pathBlocks hS (fun _ _ _ hb => hb) hsound hr
  obtain ⟨q, hq, hqid, hqh, -⟩ := hsound'.inv.chains.tip row' hrow'
  obtain rfl : q = r := List.inj_on_of_nodup_map hsound'.inv.ledger.schema.blockHashes hq hr'
    (hqh.symm.trans (hhash.trans hrh))
  have htip' := (blockById_eq_some hsound'.inv.ledger.schema).2 ⟨hq, hqid.symm⟩
  rw [← hpath]
  exact Session.folds_of_shows hsound'.inv.ledger hsound'.numbered (hsound'.inv.tree hS) hq
    (Session.view_shows hS hsound' hm' hrow' htip')

/-- The two tips of the sample run: the left block is the longest, and the table is
its path; the right one's row walks its ancestry. -/
theorem queries_fold_right : ∃ r ∈ Sample.state.db.blocks,
    Sample.state.db.blockById 3 = some r ∧
      Sample.state.Folds ⟨2, Sample.right.blockHash.getD [], 3, 1⟩
        (txnsOf (Sample.state.db.pathBlocks r)) ∧
      ∀ s', SessionRun Sample.env (fun _ _ b => b.Hashed Sample.texts) none Sample.state s' →
        s'.Tracks → ∀ row' ∈ s'.db.chains, row'.blockHash = Sample.right.blockHash.getD [] →
          s'.Folds row' (txnsOf (Sample.state.db.pathBlocks r)) := by
  refine @queries_fold _ _ none _ ⟨2, Sample.right.blockHash.getD [], 3, 1⟩ Sample.collisionFree
    ?_ ?_ ?_
  · exact SessionRun.processAll .refl fun _ => Sample.hashed (by decide)
  · intro t ht
    rw [Sample.state_db] at ht ⊢
    have htip : Sample.stateDb.longestTip = some Sample.leftRow := by decide +kernel
    rw [htip, Option.some.injEq] at ht
    subst ht
    decide +kernel
  · rw [Sample.state_db]
    decide +kernel

end GumptionChain
