import GumptionChain.Answers

/-!
# The longest-chain table along a run

* `Session.Stale` — a row that remembers not to be the longest is about to get the
  block that makes it so;
* `Session.Tracks.tryAddBlock` — without that, an addition leaves the table the path
  of the longest tip;
* `materialized_of_fresh` — so it is in every run without such an addition.
-/

namespace GumptionChain

open Database

namespace Session

variable {E : Env} {S : Set Str} {s s' : Session} {row : ChainDAO} {blk t : BlockDAO}
  {depth : Option ℕ} {b : Block}

/-- The row that the block extends remembers, from this generation, not to be the
longest, and the block outranks the longest tip. -/
def Stale (s : Session) (b : Block) : Prop :=
  ∃ row, s.db.chainDao b.prevHash none = some row ∧
    s.cache row.id = some (s.generation, false) ∧
    ∀ t, s.db.longestTip = some t → b.rankKey < Database.rankKey t

/-- The table holds exactly the root path of the longest tip: nothing without one. -/
def Mirrors (s : Session) : Prop :=
  s.db.longestChainBlocks.Perm
    ((s.db.longestTip.elim [] s.db.path).map fun c => ⟨c.id, c.idx⟩)

instance (s : Session) : Decidable s.Mirrors := by
  unfold Mirrors
  infer_instance

theorem Sound.tracks_iff (h : s.Sound E S) :
    s.Tracks ↔ ∀ t, s.db.IsBest t → s.db.Materializes t := by
  simp only [Tracks, longestTip_eq_some h.inv.ledger.schema h.inv.chains h.crowned]

theorem Sound.mirrors (h : s.Sound E S) (ht : s.Tracks) : s.Mirrors := by
  unfold Mirrors
  cases htip : s.db.longestTip with
  | some t => exact ht t htip
  | none =>
    have hnil : s.db.blocks = [] := by
      by_contra hne
      obtain ⟨c, hc⟩ := List.exists_mem_of_ne_nil _ hne
      obtain ⟨-, ⟨-, r, hr, -⟩, -⟩ := h.crowned c hc
      obtain ⟨d, hd⟩ := longest_isSome h.inv.ledger.schema h.inv.chains (List.ne_nil_of_mem hr)
      obtain ⟨-, q, -, hq, -⟩ := longest_spec h.inv.ledger.schema h.inv.chains hd
      rw [longestTip, hd, Option.bind_some, hq] at htip
      exact absurd htip (by simp)
    rcases h.inv.table with hempty | ⟨q, hq, -⟩
    · rw [hempty]
      exact List.Perm.refl _
    · rw [hnil] at hq
      exact absurd hq List.not_mem_nil

/-- A row whose tip is the best block is the one `longest` picks. -/
theorem Sound.longest_of_best (h : s.Sound E S) (hrow : row ∈ s.db.chains)
    (hat : row = rowAt row.id blk) (hbest : s.db.IsBest blk) : s.db.longest = some row := by
  have hs := h.inv.ledger.schema
  obtain ⟨c, hc⟩ := longest_isSome hs h.inv.chains (List.ne_nil_of_mem hrow)
  obtain ⟨hcm, q, hq, -⟩ := longest_spec hs h.inv.chains hc
  have hid := blockId_of_longest hs h.inv.chains h.crowned hc hbest
  obtain ⟨d, hd, hdid, hdh, -⟩ := h.inv.chains.tip c hcm
  rw [id_injOn hs hd hbest.1 (hdid.symm.trans hid)] at hdh
  rw [hc, List.inj_on_of_nodup_map h.inv.chains.hashes hcm hrow
    (hdh.trans (congrArg ChainDAO.blockHash hat).symm)]

/-- Looking after a row that is not the best block's, while the table is that
block's path, changes no table. -/
theorem Sound.sync_other (h : s.Sound E S) (hrow : row ∈ s.db.chains) (hblk : blk ∈ s.db.blocks)
    (hat : row = rowAt row.id blk) (hbest : s.db.IsBest t) (hm : s.db.Materializes t)
    (hne : blk ≠ t) : (s.syncLongestChainBlocks depth row).db = s.db := by
  have hs := h.inv.ledger.schema
  have hid : row.blockId = blk.id := congrArg ChainDAO.blockId hat
  rw [sync_eq ((blockById_eq_some hs).2 ⟨hblk, hid.symm⟩)]
  rw [if_neg, isLongest_db]
  intro hl
  -- yes, remembered or not, would make the row's tip the best block
  have hyes : row.blockId = t.id := by
    rcases isLongest_cases s row with ⟨v, hcache, heq⟩ | ⟨-, heq⟩
    · rw [heq] at hl
      rw [show v = true from hl] at hcache
      exact h.answered.longest row hrow hcache t hbest hm
    · rw [heq] at hl
      obtain ⟨d, hd, hdid⟩ := (Option.any_eq_true _ _).1 hl
      rw [← List.inj_on_of_nodup_map h.inv.chains.ids (longest_spec hs h.inv.chains hd).1 hrow
        (by simpa using hdid)]
      exact blockId_of_longest hs h.inv.chains h.crowned hd hbest
  exact hne (id_injOn hs hblk hbest.1 (hid.symm.trans hyes))

/-- Looking after the best block's row writes its path, unless the row remembers
otherwise. -/
theorem Sound.sync_best (depth : Option ℕ) (hS : E.CollisionFree (insert genesisText S))
    (h : s.Sound E S) (hrow : row ∈ s.db.chains) (hat : row = rowAt row.id blk)
    (hbest : s.db.IsBest blk)
    (hfresh : s.cache row.id ≠ some (s.generation, false)) :
    (s.syncLongestChainBlocks depth row).db.Materializes blk := by
  have hs := h.inv.ledger.schema
  have hdb := isLongest_db s row
  have hyes : (s.isLongest row).1 = true := by
    rcases isLongest_cases s row with ⟨v, hcache, heq⟩ | ⟨-, heq⟩
    · rw [heq]
      cases v with
      | true => rfl
      | false => exact absurd hcache hfresh
    · rw [heq, h.longest_of_best hrow hat hbest]
      simp
  rw [sync_eq ((blockById_eq_some hs).2 ⟨hbest.1, (congrArg ChainDAO.blockId hat).symm⟩),
    if_pos hyes]
  have hsync : ((s.isLongest row).2.syncMaterialization blk).db.Materializes blk := by
    rcases syncMaterialization_spec (s := (s.isLongest row).2) (E := E) (hdb.symm ▸ hs)
      (hdb.symm ▸ h.inv.tree hS) (hdb.symm ▸ h.inv.ledger.linked.root) (hdb.symm ▸ hbest.1)
      with ⟨rows, heq, hperm⟩ | ⟨heq, q, hq, hmat, hpath⟩
    · rw [heq]
      exact hperm
    · rw [heq]
      rw [hdb] at hq hpath
      -- a root path through the best block ends there
      have hle := (Forest.mem_path (h.inv.tree hS).ranked hq blk hpath).2
      obtain rfl : blk = q := by
        rcases Nat.lt_or_eq_of_le hle with hlt | heq'
        · exact AtLeast.antisymm hs hbest.1 hq (hbest.2 q hq) (atLeast_of_idx_lt hlt)
        · exact Forest.eq_of_rank (h.inv.tree hS).ranked hq hpath (Forest.self_mem_path q) heq'
      exact hmat
  rw [Materializes, (pruneStaleForks_sameLedger _ depth row).2,
    (pruneStaleForks_sameLedger _ depth row).1.path]
  exact hsync

/-- Looking after a row again and again, as long as some state is left alone. -/
theorem Sound.sync_other_iterate (hS : E.CollisionFree (insert genesisText S)) (h : s.Sound E S)
    (hrow : row ∈ s.db.chains) (hblk : blk ∈ s.db.blocks) (hat : row = rowAt row.id blk)
    (hbest : s.db.IsBest t) (hm : s.db.Materializes t) (hne : blk ≠ t) (n : ℕ) :
    ((syncLongestChainBlocks · depth row)^[n] s).db = s.db := by
  induction n with
  | zero => rfl
  | succ n ih =>
    obtain ⟨hsn, hrn, hbn⟩ := h.sync_iterate depth hS hrow hblk hat n
    rw [Function.iterate_succ_apply', hsn.sync_other hrn hbn hat (ih.symm ▸ hbest)
      (ih.symm ▸ hm) hne, ih]

/-- A tip's path stays in the table while the tip's row is looked after. -/
theorem Sound.sync_keep_iterate (h : s.Sound E S) (hS : E.CollisionFree (insert genesisText S))
    (hblk : blk ∈ s.db.blocks) (hat : row = rowAt row.id blk)
    (hm : s.db.Materializes blk) (n : ℕ) :
    ((syncLongestChainBlocks · depth row)^[n] s).db.Materializes blk := by
  have hup : Upkeep row blk s ((syncLongestChainBlocks · depth row)^[n] s) :=
    Session.sync_iterate h.inv.ledger.schema (h.inv.tree hS) h.inv.ledger.linked.root
      ((blockById_eq_some h.inv.ledger.schema).2 ⟨hblk, (congrArg ChainDAO.blockId hat).symm⟩) n
  rcases hup.table with hsame | hmat
  · rw [Materializes, hsame, hup.ledger.path]
    exact hm
  · exact hmat

/-- Storing a block and placing its row leaves the table and the paths in it. -/
theorem materializes_placed (hi : s.Inv E S) (htree : s.db.Tree) {db : Database}
    (hto : b.toDb E s.db = .ok db) {c : Chain} (hp : Placed c blk { s with db := db } s' row)
    (ht : t ∈ s.db.blocks) (hm : s.db.Materializes t) : s'.db.Materializes t := by
  obtain ⟨hl, htable⟩ := hp.sameLedger
  rw [Materializes, htable, hl.path]
  rcases Block.toDb_spec hi.ledger.schema hto with ⟨r, -, rfl⟩ | ⟨-, r, ids, ha⟩
  · exact hm
  · show db.longestChainBlocks.Perm ((db.path t).map _)
    rw [ha.longestChainBlocks, (ha.frame hi.ledger.schema).path htree ht]
    exact hm

/-- The row that `add_block` works on is the one with the previous block. -/
theorem chainDao_of_cid {db : Database} (hr : db.ChainRows) (hchains : db.chains = s.db.chains)
    {old : ChainDAO}
    (hold : ((Node.chainFor s.db b).cid.bind fun cid => db.chainDao none (some cid)) = some old) :
    s.db.chainDao b.prevHash none = some old := by
  obtain ⟨cid, hcid, hrow⟩ := Option.bind_eq_some_iff.1 hold
  obtain ⟨holdm, hid⟩ := mem_of_chainDao_id hrow
  unfold Node.chainFor Chain.fromDb at hcid
  cases hd : s.db.chainDao b.prevHash none with
  | none => rw [hd] at hcid; exact absurd hcid (by simp)
  | some dao =>
    rw [hd, Option.map_some, Option.getD_some, Option.some.injEq] at hcid
    rw [List.inj_on_of_nodup_map hr.ids (hchains ▸ (mem_of_chainDao_hash hd).1) holdm
      (hcid.trans hid.symm)]

/-- The row that gets a new best block does not remember to be another, unless that
answer is stale. -/
theorem Sound.fresh_placed (hS : E.CollisionFree (insert genesisText S)) (h : s.Sound E S)
    (hb : b.Hashed S) (hv : b.Valid E) (hstale : ¬ s.Stale b) {db : Database}
    (hto : b.toDb E s.db = .ok db) (hinv : { s with db := db }.Inv E S)
    (hblk : db.blockByHash b.blockHash = some blk)
    (hp : Placed ⟨(Node.chainFor s.db b).cid, b.blockHash⟩ blk { s with db := db } s' row)
    (hbest : s'.db.IsBest blk) (hnew : blk ∉ s.db.blocks) :
    s'.cache row.id ≠ some (s'.generation, false) := by
  have hstored := Block.mem_blocks_toDb h.inv.ledger.schema hv hto hblk
  obtain ⟨-, hrow, hat⟩ := hp.chainRows hinv.ledger.schema hinv.chains hblk
  have hblocks := hp.sameLedger.1.blocks
  cases hp with
  | found =>
    -- a row that is there already stands for an old block
    obtain ⟨q, hq, hqid, -⟩ := h.inv.chains.tip row (hstored.1 ▸ hrow)
    refine absurd ?_ hnew
    rw [id_injOn hinv.ledger.schema (blockByHash_mem hblk).1 ((hstored.2 q).2 (Or.inl hq))
      ((congrArg ChainDAO.blockId hat).symm.trans hqid)]
    exact hq
  | moved old hnone hcid =>
    refine fun hcache => hstale ⟨old, chainDao_of_cid hinv.chains hstored.1 hcid, hcache,
      fun t ht => ?_⟩
    have htm := ((longestTip_eq_some h.inv.ledger.schema h.inv.chains h.crowned).1 ht).1
    have htm' := (hstored.2 t).2 (Or.inl htm)
    rw [(hinv.ledger.shows hS hv hb hblk).rankKey]
    refine lt_of_le_of_ne (hbest.2 t (hblocks ▸ htm')) fun heq => hnew ?_
    rw [AtLeast.antisymm hinv.ledger.schema (blockByHash_mem hblk).1 htm' heq.le heq.ge]
    exact htm
  | added => simp [withAdded_cache, rowAt]

/-- **An addition keeps the table the longest tip's path**, unless a stale answer
stands in the way. -/
theorem Tracks.tryAddBlock (hS : E.CollisionFree (insert genesisText S)) (h : s.Sound E S)
    (hm : s.Tracks) {now : DateTime} (hb : b.Hashed S) (hstale : ¬ s.Stale b)
    (hadd : Node.tryAddBlock E depth now b s = .ok s') : s'.Tracks := by
  have hsound' := h.tryAddBlock hS hb hadd
  obtain ⟨db, blk, s₁, row, n, habove, hto, hinv, hblk, hp, hn, rfl⟩ :=
    h.inv.tryAddBlock_steps hS hb hadd
  have hv := (Chain.validateAbove_eq_ok.1 habove).1
  have h₁ := h.placed hS hb hv hto hinv hblk hp
  have hblocks := hp.sameLedger.1.blocks
  obtain ⟨-, hrow, hat⟩ := hp.chainRows hinv.ledger.schema hinv.chains hblk
  have hblkm : blk ∈ s₁.db.blocks := hblocks ▸ (blockByHash_mem hblk).1
  have hstored := Block.mem_blocks_toDb h.inv.ledger.schema hv hto hblk
  rw [h.tracks_iff] at hm
  rw [hsound'.tracks_iff]
  have hbefore : ∀ t ∈ s.db.blocks, s₁.db.IsBest t → s₁.db.Materializes t := by
    intro t ht hbest
    refine materializes_placed h.inv (h.inv.tree hS) hto hp ht (hm t ⟨ht, fun c hc => ?_⟩)
    exact hbest.2 c (hblocks ▸ (hstored.2 c).2 (Or.inl hc))
  intro t hbest
  have hbest₁ : s₁.db.IsBest t := by
    have hup : Upkeep row blk s₁ ((syncLongestChainBlocks · depth row)^[n] s₁) :=
      Session.sync_iterate h₁.inv.ledger.schema (h₁.inv.tree hS) h₁.inv.ledger.linked.root
        ((blockById_eq_some h₁.inv.ledger.schema).2
          ⟨hblkm, (congrArg ChainDAO.blockId hat).symm⟩) n
    have heq := hup.ledger.blocks
    exact ⟨heq ▸ hbest.1, fun c hc => hbest.2 c (heq.symm ▸ hc)⟩
  by_cases hne : blk = t
  · subst hne
    by_cases hold : blk ∈ s.db.blocks
    · exact h₁.sync_keep_iterate hS hblkm hat (hbefore blk hold hbest₁) n
    · -- the new block is the best: the first upkeep writes its path
      have hfirst := h₁.sync_best depth hS hrow hat hbest₁
        (h.fresh_placed hS hb hv hstale hto hinv hblk hp hbest₁ hold)
      obtain ⟨h₂, hrow₂, hblk₂⟩ := h₁.sync_iterate depth hS hrow hblkm hat 1
      rcases hn with rfl | rfl
      · exact hfirst
      · exact h₂.sync_keep_iterate hS hblk₂ hat hfirst 1
  · -- the best block is an old one: the table is its path, and stays so
    have hold : t ∈ s.db.blocks :=
      ((hstored.2 t).1 (hblocks ▸ hbest₁.1)).resolve_right fun heq => hne heq.symm
    have hmat := hbefore t hold hbest₁
    rw [h₁.sync_other_iterate hS hrow hblkm hat hbest₁ hmat hne n]
    exact hmat

end Session

/-- An addition that finds no stale answer in its way. -/
def FreshAddition (S : Set Str) (s : Session) (_ : DateTime) (b : Block) : Prop :=
  b.Hashed S ∧ ¬ s.Stale b

/-- **The table is materialized.**  In every run none of whose additions outranks the
longest tip on a row that remembers, from the same generation, not to be the
longest, the table holds exactly the root path of the longest tip, in every state. -/
theorem materialized_of_fresh {E : Env} {S : Set Str} {depth : Option ℕ} {s : Session}
    (hS : E.CollisionFree (insert genesisText S))
    (h : SessionRun E (FreshAddition S) depth {} s) : s.Mirrors := by
  have hsound : ∀ s, SessionRun E (FreshAddition S) depth {} s → s.Sound E S :=
    fun s hs => hs.sound hS (fun _ _ _ hb => hb.1) Session.Sound.empty
  refine (hsound s h).mirrors ?_
  induction h with
  | refl => exact fun t ht => absurd ht (by simp [longestTip, longest, longestRows, Table.orderBy])
  | add hrun hq hadd ih =>
    rcases Node.addBlock_eq_ok hadd with ⟨-, htry⟩ | ⟨-, rfl⟩
    · exact ih.tryAddBlock hS (hsound _ hrun) hq.1 hq.2 htry
    · exact ih
  | ask _ _ ih =>
    intro t ht
    rw [Session.isLongest_db] at ht ⊢
    exact ih t ht
  | forget _ _ ih => exact ih
  | pool _ ih => exact ih

namespace Sample

/-- The node of the fork when every row object is dropped between two calls. -/
def forgetful (bs : List Block) : Session :=
  bs.foldl (fun s b => Node.process env (some 100) { s with cache := fun _ => none } (call b)) {}

end Sample

/-- The fork, when no row object outlives a call: the right branch overtakes. -/
theorem materialized_of_fresh_fork : (Sample.forgetful Sample.blocks).Mirrors := by
  refine @materialized_of_fresh Sample.env Sample.texts (some 100) _ Sample.collisionFree ?_
  refine List.foldlRecOn Sample.blocks _ .refl fun s hs b hb => ?_
  refine (hs.forget fun _ => Or.inl rfl).process
    ⟨Sample.hashed (List.Subset.refl _) _ (List.mem_map_of_mem hb), ?_⟩
  exact fun ⟨_, _, hcache, _⟩ => absurd hcache (by simp)

/-- When they all do, the row of the right branch, asked while the left one was the
longest, still says no when `top` makes it the longest: the table stays behind. -/
theorem materialized_of_fresh_stale :
    ¬ ∀ (E : Env) (S : Set Str) (depth : Option ℕ) (s : Session),
      E.CollisionFree (insert genesisText S) →
        SessionRun E (fun _ _ b => b.Hashed S) depth {} s → s.Mirrors := by
  intro h
  have hrun : SessionRun Sample.env (fun _ _ b => b.Hashed Sample.texts) (some 100) {}
      (Node.processAll Sample.env (some 100) {} (Sample.blocks.map Sample.call)) :=
    SessionRun.processAll .refl fun _ => Sample.hashed (List.Subset.refl _)
  exact absurd (h _ _ _ _ Sample.collisionFree hrun) (by decide +kernel)

end GumptionChain
