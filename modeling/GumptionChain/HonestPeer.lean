import GumptionChain.Materialization
import GumptionChain.Replay

/-!
# Syncing from an honest peer

The other end of forward sync: `BlocksView` answers from the `longest_chain_block` table
of a node that runs the same code.

* `Session.Sound.longestChainBlocksRange_eq` — where the table mirrors the longest
  chain, a range of heights is a slice of the canonical chain;
* `servedBy_eq` — and the client reads back the blocks as the peer's tables show them;
* `sync_forward_converges` — a node whose chain is a part of the peer's ends with the
  peer's chain.
-/

namespace GumptionChain

open Database

/-! ## The range query -/

/-- Rows at places that are their numbers: a range of numbers is a slice. -/
theorem filter_range_eq {α : Type} {num : α → ℕ} {l : List α} {start limit : ℕ}
    (h : ∀ k, ∀ a, l[k]? = some a → num a = k) :
    l.filter (fun a => start ≤ num a ∧ num a < start + limit) = (l.drop start).take limit := by
  have hall : ∀ (m : List α) (j : ℕ), (∀ k, ∀ a, m[k]? = some a → num a = j + k) →
      m.filter (fun a => start ≤ num a ∧ num a < start + limit) =
        (m.drop (start - j)).take (limit - (j - start)) := by
    intro m
    induction m with
    | nil => intro j _; simp
    | cons a m ih =>
      intro j hnum
      have ha : num a = j := hnum 0 a rfl
      have hrest := ih (j + 1) fun k b hk => by
        rw [hnum (k + 1) b hk]
        omega
      rw [List.filter_cons, hrest, ha]
      by_cases hlow : j < start
      · rw [if_neg (by simp; omega), show start - j = (start - (j + 1)) + 1 by omega,
          List.drop_succ_cons, show j + 1 - start = j - start by omega]
      · rw [show start - (j + 1) = 0 by omega, show start - j = 0 by omega, List.drop_zero,
          List.drop_zero]
        by_cases hhigh : j < start + limit
        · rw [if_pos (by simp; omega),
            show limit - (j - start) = (limit - (j + 1 - start)) + 1 by omega, List.take_succ_cons]
        · rw [if_neg (by simp; omega), show limit - (j + 1 - start) = 0 by omega,
            show limit - (j - start) = 0 by omega, List.take_zero, List.take_zero]
  simpa using hall l 0 fun k a hk => by rw [h k a hk, Nat.zero_add]

namespace Database

/-- `BlockDAO.longest_chain_blocks_range`. -/
def longestChainBlocksRange (db : Database) (fromIdx limit : ℕ) : List BlockDAO :=
  (Table.orderBy (fun p : BlockDAO × LongestChainBlockDAO => p.2.position)
    ((Query.join (fun b r => b.id = r.blockId) db.blocks db.longestChainBlocks).filter fun p =>
      fromIdx ≤ p.2.position ∧ p.2.position < fromIdx + limit)).map Prod.fst

/-- `BlocksView.get` past the query model, which refuses a limit of 0. -/
def blocksView (db : Database) (syncBatchSize fromIdx limit : ℕ) : Option (List Value) :=
  if 1 ≤ limit then
    some ((db.longestChainBlocksRange fromIdx (min limit syncBatchSize)).map fun r =>
      (Block.fromDao db r).toDict)
  else none

end Database

/-- The peer at the other end: each answer is read with `Block.from_dict`, and the node
gets to the `i`-th block of the `k`-th answer at the moment `moments k i`. -/
def servedBy (J : JsonLib) (E : Env) (db : Database) (syncBatchSize : ℕ)
    (moments : ℕ → ℕ → Moment) : Peer := fun k fromIdx limit => do
  let rows ← db.blocksView syncBatchSize fromIdx limit
  let blocks ← (rows.mapM (Block.fromDict J E)).toOption
  return blocks.mapIdx fun i b => (moments k i, b)

/-! ## The table as the canonical chain -/

/-- The rows of the canonical chain, tip first. -/
def Session.canonicalRows (s : Session) : List BlockDAO := s.db.longestTip.elim [] s.db.path

section

variable {E : Env} {S : Set Str} {s : Session} {fromIdx limit : ℕ} {c : BlockDAO}

theorem Session.canonical_eq_map (s : Session) :
    s.canonical = s.canonicalRows.map (Block.fromDao s.db) := by
  unfold Session.canonical Session.canonicalRows
  cases s.db.longestTip <;> rfl

theorem Session.Sound.mem_of_canonicalRows (hS : E.CollisionFree (insert genesisText S))
    (h : s.Sound E S) (hc : c ∈ s.canonicalRows) : c ∈ s.db.blocks := by
  unfold Session.canonicalRows at hc
  cases ht : s.db.longestTip with
  | none =>
    rw [ht] at hc
    cases hc
  | some t =>
    rw [ht] at hc
    exact (h.inv.tree hS).mem_blocks (h.best_of_tip ht).1 hc

/-- From the lowest on, heights are places. -/
theorem Session.Sound.idx_canonicalRows (hS : E.CollisionFree (insert genesisText S))
    (h : s.Sound E S) (k : ℕ) (c : BlockDAO) (hc : s.canonicalRows.reverse[k]? = some c) :
    c.idx = k := by
  unfold Session.canonicalRows at hc
  cases ht : s.db.longestTip with
  | none =>
    rw [ht] at hc
    cases hc
  | some t =>
    rw [ht] at hc
    have hpos := positions_path (h.inv.tree hS) h.inv.ledger.linked.root (h.best_of_tip ht).1
    rw [← List.map_reverse, positions] at hpos
    have hk := congrArg (·[k]?) hpos
    simp only [List.getElem?_mapIdx, List.getElem?_map] at hk
    rw [show (s.db.path t).reverse[k]? = some c from hc, Option.map_some, Option.map_some,
      Option.some.injEq, LongestChainBlockDAO.mk.injEq] at hk
    omega

/-- The join pairs each row of the canonical chain with its own row of the table. -/
theorem Session.Sound.join_canonicalRows (hS : E.CollisionFree (insert genesisText S))
    (h : s.Sound E S) (hm : s.Mirrors) :
    (Query.join (fun b r => decide (b.id = r.blockId)) s.db.blocks s.db.longestChainBlocks).Perm
      (s.canonicalRows.reverse.map fun c => (c, ⟨c.id, c.idx⟩)) := by
  have hs := h.inv.ledger.schema
  have hmirror : s.db.longestChainBlocks.Perm (s.canonicalRows.map fun c => ⟨c.id, c.idx⟩) := hm
  have hplaces : (s.canonicalRows.reverse.map BlockDAO.idx).Nodup := by
    refine List.pairwise_iff_getElem.2 fun i j hi hj hij heq => ?_
    rw [List.length_map] at hi hj
    rw [List.getElem_map, List.getElem_map,
      h.idx_canonicalRows hS i _ (List.getElem?_eq_getElem hi),
      h.idx_canonicalRows hS j _ (List.getElem?_eq_getElem hj)] at heq
    exact hij.ne heq
  have hrows : s.db.longestChainBlocks.Nodup := by
    refine hmirror.nodup_iff.2 ((List.Nodup.of_map BlockDAO.idx ?_).map_on ?_)
    · rw [List.map_reverse, List.nodup_reverse] at hplaces
      exact hplaces
    · intro x hx y hy heq
      exact id_injOn hs (h.mem_of_canonicalRows hS hx) (h.mem_of_canonicalRows hS hy)
        (LongestChainBlockDAO.mk.inj heq).1
  refine (List.perm_ext_iff_of_nodup
    (Query.join_nodup (List.Nodup.of_map _ hs.blockIds) hrows) ?_).2 fun p => ?_
  · exact (List.Nodup.of_map _ hplaces).map fun x y heq => (Prod.mk.inj heq).1
  · rw [Query.mem_join, decide_eq_true_eq, List.mem_map]
    constructor
    · rintro ⟨hb, hr, hid⟩
      obtain ⟨c, hc, heq⟩ := List.mem_map.1 (hmirror.subset hr)
      have hbc : p.1 = c := id_injOn hs hb (h.mem_of_canonicalRows hS hc)
        (hid.trans (congrArg LongestChainBlockDAO.blockId heq).symm)
      exact ⟨c, List.mem_reverse.2 hc, Prod.ext hbc.symm heq⟩
    · rintro ⟨c, hc, rfl⟩
      rw [List.mem_reverse] at hc
      exact ⟨h.mem_of_canonicalRows hS hc, hmirror.symm.subset (List.mem_map_of_mem hc), rfl⟩

/-- **A range of heights is a slice of the canonical chain**, lowest first. -/
theorem Session.Sound.longestChainBlocksRange_eq (hS : E.CollisionFree (insert genesisText S))
    (h : s.Sound E S) (hm : s.Mirrors) :
    s.db.longestChainBlocksRange fromIdx limit =
      (s.canonicalRows.reverse.drop fromIdx).take limit := by
  have hplace := h.idx_canonicalRows hS
  set rows := s.canonicalRows.reverse
  have hsorted : (rows.map fun c => (c, (⟨c.id, c.idx⟩ : LongestChainBlockDAO))).Pairwise
      fun p q => p.2.position < q.2.position := by
    refine List.pairwise_iff_getElem.2 fun i j hi hj hij => ?_
    rw [List.length_map] at hi hj
    rw [List.getElem_map, List.getElem_map]
    show (rows[i]).idx < (rows[j]).idx
    rw [hplace i _ (List.getElem?_eq_getElem hi), hplace j _ (List.getElem?_eq_getElem hj)]
    exact hij
  unfold Database.longestChainBlocksRange
  have hperm := (h.join_canonicalRows hS hm).filter fun p =>
    decide (fromIdx ≤ p.2.position ∧ p.2.position < fromIdx + limit)
  have hfiltered := hsorted.filter fun p =>
    decide (fromIdx ≤ p.2.position ∧ p.2.position < fromIdx + limit)
  rw [Table.orderBy_eq_of_perm hperm, Table.orderBy_eq_self (hfiltered.imp le_of_lt),
    List.filter_map, List.map_map, ← filter_range_eq hplace]
  · exact List.map_id _
  · exact (hperm.map _).nodup_iff.2 (List.pairwise_map.2 (hfiltered.imp ne_of_lt))

end

/-! ## The answers of an honest peer -/

section

variable {E : Env} {S : Set Str} {J : JsonLib} {e : Session} {syncBatchSize : ℕ}
  {moments : ℕ → ℕ → Moment} {k fromIdx limit : ℕ}

/-- What the tables show of a block is in canonical order. -/
theorem Block.canonicalOrder_fromDao (db : Database) (r : BlockDAO) :
    Block.canonicalOrder (Block.fromDao db r).txns = (Block.fromDao db r).txns := by
  have : IsTrans Transaction fun t u => Block.sortKey t ≤ Block.sortKey u :=
    ⟨fun _ _ _ => le_trans⟩
  have : Std.Total fun t u : Transaction => Block.sortKey t ≤ Block.sortKey u :=
    ⟨fun t u => le_total _ _⟩
  exact (List.pairwise_insertionSort _ _).insertionSort_eq

/-- **A block read from a peer is the block of the peer's tables.** -/
theorem Block.fromDict_fromDao (db : Database) (r : BlockDAO)
    (h : (Block.fromDao db r).WellFormed E) :
    Block.fromDict J E (Block.fromDao db r).toDict = .ok (Block.fromDao db r) := by
  rw [Block.fromDict_toDict, if_pos (Block.blockErrors_eq_nil.2 h), Block.canonicalOrder_fromDao]

theorem mapM_fromDict {db : Database} : ∀ {rows : List BlockDAO},
    (∀ r ∈ rows, (Block.fromDao db r).WellFormed E) →
    (rows.map fun r => (Block.fromDao db r).toDict).mapM (Block.fromDict J E) =
      .ok (rows.map (Block.fromDao db))
  | [], _ => rfl
  | r :: rows, h => by
    rw [List.forall_mem_cons] at h
    rw [List.map_cons, List.mapM_cons, Block.fromDict_fromDao db r h.1, ok_bind,
      mapM_fromDict h.2]
    rfl

/-- **An honest peer answers with its canonical chain**, from the height asked for on. -/
theorem servedBy_eq (hS : E.CollisionFree (insert genesisText S)) (h : e.Sound E S)
    (hm : e.Mirrors) (hvalid : ∀ b ∈ e.canonical, b.Valid E) (hlimit : 1 ≤ limit) :
    servedBy J E e.db syncBatchSize moments k fromIdx limit =
      some (((e.canonical.reverse.drop fromIdx).take (min limit syncBatchSize)).mapIdx
        fun i b => (moments k i, b)) := by
  have hrows : e.db.longestChainBlocksRange fromIdx (min limit syncBatchSize) =
      (e.canonicalRows.reverse.drop fromIdx).take (min limit syncBatchSize) :=
    h.longestChainBlocksRange_eq hS hm
  have hwell : ∀ r ∈ e.db.longestChainBlocksRange fromIdx (min limit syncBatchSize),
      (Block.fromDao e.db r).WellFormed E := by
    intro r hr
    rw [hrows] at hr
    have hmem := List.mem_reverse.1 (List.mem_of_mem_drop (List.mem_of_mem_take hr))
    refine (hvalid _ ?_).wellFormed
    rw [e.canonical_eq_map]
    exact List.mem_map_of_mem hmem
  unfold servedBy Database.blocksView
  rw [if_pos hlimit]
  simp only [Option.bind_eq_bind, Option.bind_some]
  rw [mapM_fromDict hwell, hrows, List.map_take, List.map_drop, List.map_reverse,
    ← e.canonical_eq_map]
  rfl

end

/-! ## Convergence -/

/-- The entry after a chain's own entries, in the order of heights. -/
theorem suffix_cons_of_getElem? {chain whole : List Block} {b : Block} (h : chain <:+ whole)
    (hb : whole.reverse[chain.length]? = some b) : b :: chain <:+ whole := by
  obtain ⟨above, rfl⟩ := h
  rw [List.reverse_append, List.getElem?_append_right (by simp), List.length_reverse,
    Nat.sub_self, ← List.head?_eq_getElem?, List.head?_reverse] at hb
  obtain ⟨init, rfl⟩ := List.getLast?_eq_some_iff.1 hb
  exact ⟨init, by simp⟩

section

variable {E : Env} {S : Set Str} {J : JsonLib} {depth depth' : Option ℕ} {now : DateTime}
  {e s : Session} {batchSize syncBatchSize n : ℕ} {moments : ℕ → ℕ → Moment} {below : List Block}

/-- What every block of the peer's chain takes from one height to the next, a pass takes
to the peer's tip. -/
theorem sync_forward_induction (J : JsonLib) (depth : Option ℕ)
    (hS : E.CollisionFree (insert genesisText S))
    (he : NodeRun E (AuditedAddition S now) depth' e) (hm : e.Mirrors)
    {I : List Block → Session → Prop}
    (hsame : ∀ chain u, I chain u → u.Sound E S ∧ List.Forall₂ Block.Same u.canonical chain)
    (hforget : ∀ chain u dropped, I chain u → I chain (u.forget dropped))
    (hstep : ∀ b chain u t, b :: chain <:+ e.canonical → I chain u → now.toSeconds ≤ t.toSeconds →
      ∃ u', Node.tryAddBlock E depth t b u = .ok u' ∧ I (b :: chain) u')
    (hclock : ∀ k i, now.toSeconds ≤ (moments k i).now.toSeconds) (hbatch : 1 ≤ batchSize)
    (hsize : 1 ≤ syncBatchSize) (hbelow : below <:+ e.canonical) (hs : I below s)
    (hn : 2 * (e.canonical.length - below.length) + 1 ≤ n) :
    (Node.syncForward E depth batchSize (servedBy J E e.db syncBatchSize moments) n s).outcome =
        some .caughtUp ∧
      I e.canonical
        (Node.syncForward E depth batchSize (servedBy J E e.db syncBatchSize moments) n s).store := by
  have hpeer : e.Sound E S := he.session.sound hS (fun _ _ _ hb => hb.1) .empty
  have hvalid : ∀ b ∈ e.canonical, b.Valid E := fun b hb => ((he.accepted_canonical hS).mem b hb).1
  have hnext : ∀ chain u, I chain u → Node.nextIdx u = chain.length := fun chain u hu => by
    obtain ⟨hsound, hforall⟩ := hsame chain u hu
    rw [hsound.nextIdx_eq hS, hforall.length_eq]
  have hserve : ∀ k i, ∃ page,
      Node.getBlocks (servedBy J E e.db syncBatchSize moments) batchSize k i = .ok page ∧
        List.Forall₂ (fun (a : Moment × Block) b => a.2 = b ∧ now.toSeconds ≤ a.1.now.toSeconds)
          page
          ((e.canonical.reverse.drop i).take (min batchSize syncBatchSize)) := by
    intro k i
    refine ⟨_, Node.getBlocks_eq_ok.2 (servedBy_eq hS hpeer hm hvalid hbatch), ?_⟩
    refine List.forall₂_iff_get.2 ⟨by simp, fun j h₁ h₂ => ?_⟩
    simp only [List.get_eq_getElem, List.getElem_mapIdx]
    exact ⟨trivial, hclock k j⟩
  have hrun := Follow.follows (F := Node.syncFollower E depth)
    (I := fun u => ∃ chain, chain <:+ e.canonical ∧ I chain u) (s := s) (n := n)
    hserve (by omega) (fun u a b hu hb ha => ?_) ⟨below, hbelow, hs⟩ ?_ ?_
  · obtain ⟨hdone, ⟨chain, hchain, hstore⟩, hend⟩ := hrun
    rw [← hchain.eq_of_length ((hnext _ _ hstore).symm.trans (hend.trans List.length_reverse))]
    exact ⟨hdone, hstore⟩
  · obtain ⟨chain, hchain, hI⟩ := hu
    obtain ⟨rfl, ht⟩ := ha
    have hb' : e.canonical.reverse[Node.nextIdx u]? = some a.2 := hb
    rw [hnext _ _ hI] at hb'
    have hsuf := suffix_cons_of_getElem? hchain hb'
    obtain ⟨hsound, hforall⟩ := hsame chain u hI
    obtain ⟨-, hreplayable⟩ := he.replayable hS hsuf
    obtain ⟨u', hadd, hI'⟩ := hstep a.2 chain _ a.1.now hsuf
      (hforget chain u a.1.dropped hI) ht
    refine ⟨Node.refuses_eq_false.2 ⟨hreplayable.on.valid.hashed,
      hsound.linked_of_replayable hforall hreplayable⟩, u',
      Node.take_of_tryAddBlock hadd, ⟨_, hsuf, hI'⟩, ?_⟩
    exact (hnext _ _ hI').trans (congrArg Nat.succ (hnext _ _ hI).symm)
  · show Node.nextIdx s ≤ _
    rw [hnext _ _ hs, List.length_reverse]
    exact hbelow.length_le
  · show 2 * (_ - Node.nextIdx s) + 1 ≤ n
    rw [hnext _ _ hs, List.length_reverse]
    exact hn

/-- **Forward sync converges.**  The peer is honest: it has added blocks with canonical
timestamps, by `now`, and its longest-chain table holds its canonical chain.  A node whose
canonical chain is a part of that, such as an empty node, and whose clock does not fall
behind `now`, ends caught up with the peer's chain, in any number of steps from two for
each block it lacks and one on, whatever the page sizes of the two are and whatever row
objects are dropped on the way: if no transaction of the chain spends another of its
block. -/
theorem sync_forward_converges (hS : E.CollisionFree (insert genesisText S))
    (he : NodeRun E (AuditedAddition S now) depth' e) (hm : e.Mirrors)
    (hfree : ∀ b ∈ e.canonical, b.Unchained)
    (hs : SessionRun E (fun _ _ b => b.Hashed S) depth {} s) (hbelow : below <:+ e.canonical)
    (hsame : List.Forall₂ Block.Same s.canonical below)
    (hclock : ∀ k i, now.toSeconds ≤ (moments k i).now.toSeconds) (hbatch : 1 ≤ batchSize)
    (hsize : 1 ≤ syncBatchSize) (hn : 2 * (e.canonical.length - below.length) + 1 ≤ n) :
    (Node.syncForward E depth batchSize (servedBy J E e.db syncBatchSize moments) n s).outcome =
        some .caughtUp ∧
      List.Forall₂ Block.Same
        (Node.syncForward E depth batchSize (servedBy J E e.db syncBatchSize moments) n s).store.canonical
        e.canonical := by
  have hrun := sync_forward_induction J depth hS he hm
    (I := fun chain u => u.Sound E S ∧ List.Forall₂ Block.Same u.canonical chain)
    (fun _ _ h => h) (fun _ _ dropped h => ⟨h.1.forgets dropped, h.2⟩)
    (fun b chain u t hsuf hu ht => ?_) hclock hbatch hsize hbelow
    ⟨hs.sound_empty hS, hsame⟩ hn
  · exact ⟨hrun.1, hrun.2.2⟩
  · exact hu.1.replays hS hu.2 (he.replayable hS hsuf).2 ht
      (hfree b (hsuf.subset List.mem_cons_self))

/-- **An empty node gets the chain as it is**, under the same conditions: the same blocks,
with the same transactions, signatures and times in the same order. -/
theorem sync_forward_copies (hS : E.CollisionFree (insert genesisText S))
    (he : NodeRun E (AuditedAddition S now) depth' e) (hm : e.Mirrors)
    (hfree : ∀ b ∈ e.canonical, b.Unchained)
    (hclock : ∀ k i, now.toSeconds ≤ (moments k i).now.toSeconds) (hbatch : 1 ≤ batchSize)
    (hsize : 1 ≤ syncBatchSize) (hn : 2 * e.canonical.length + 1 ≤ n) :
    (Node.syncForward E depth batchSize (servedBy J E e.db syncBatchSize moments) n {}).outcome =
        some .caughtUp ∧
      (Node.syncForward E depth batchSize (servedBy J E e.db syncBatchSize moments) n {}).store.canonical =
        e.canonical := by
  have hrun := sync_forward_induction J depth hS he hm
    (I := Session.Holds E S) (fun _ _ h => ⟨h.sound, h.same⟩)
    (fun _ _ dropped h => h.forgets dropped) (fun b chain u t hsuf hu ht => ?_) hclock hbatch hsize
    List.nil_suffix .empty hn
  · exact ⟨hrun.1, hrun.2.canonical⟩
  · obtain ⟨hiff, hholds⟩ := hu.replay depth hS (he.replayable hS hsuf).2 ht
    obtain ⟨u', hadd⟩ := hiff.2 (hfree b (hsuf.subset List.mem_cons_self))
    exact ⟨u', hadd, hholds u' hadd⟩

end

namespace Sample

theorem audited {bs : List Block} (h : bs ⊆ [genesis, left, right]) :
    ∀ c ∈ bs.map call, AuditedAddition texts day c.now c.block := by
  have hcanonical : ∀ b ∈ [genesis, left, right], b.Canonical := by decide +kernel
  have hblocks : [genesis, left, right] ⊆ blocks := by simp [blocks]
  intro c hc
  have hhash := hashed (fun b hb => hblocks (h hb)) c hc
  obtain ⟨b, hb, rfl⟩ := List.mem_map.1 hc
  exact ⟨hhash, hcanonical b (h hb), le_refl _⟩

/-- It was accepted by the end of the day. -/
theorem state_audited : NodeRun env (AuditedAddition texts day) none state :=
  NodeRun.empty.processAll (audited (List.Subset.refl _))

theorem state_mirrors : state.Mirrors := by
  rw [Session.Mirrors, state_db]
  decide +kernel

theorem canonical_state : state.canonical = [left, genesis] := by
  have htip : stateDb.longestTip = some leftRow := by decide +kernel
  rw [Session.canonical, state_db, htip, Option.elim_some]
  decide +kernel

theorem state_unchained : ∀ b ∈ state.canonical, b.Unchained := by
  rw [canonical_state]
  decide +kernel

end Sample

/-- An empty node, and the node with the fork for its peer. -/
theorem sync_forward_converges_left :
    (Node.syncForward Sample.env none 1
        (servedBy (Sample.txnLib []) Sample.env Sample.state.db 1 fun _ _ => Sample.anew) 5 {}).outcome =
        some .caughtUp ∧
      List.Forall₂ Block.Same
        (Node.syncForward Sample.env none 1 (servedBy (Sample.txnLib []) Sample.env Sample.state.db 1
          fun _ _ => Sample.anew) 5 {}).store.canonical Sample.state.canonical :=
  sync_forward_converges Sample.collisionFree Sample.state_audited Sample.state_mirrors
    Sample.state_unchained .refl List.nil_suffix .nil (fun _ _ => le_refl _) (le_refl _) (le_refl _)
    (by rw [Sample.canonical_state]; decide)

/-- The same pass, block for block. -/
theorem sync_forward_copies_left :
    (Node.syncForward Sample.env none 1
        (servedBy (Sample.txnLib []) Sample.env Sample.state.db 1 fun _ _ => Sample.anew) 5 {}).outcome =
        some .caughtUp ∧
      (Node.syncForward Sample.env none 1 (servedBy (Sample.txnLib []) Sample.env Sample.state.db 1
          fun _ _ => Sample.anew) 5 {}).store.canonical = Sample.state.canonical :=
  sync_forward_copies Sample.collisionFree Sample.state_audited Sample.state_mirrors
    Sample.state_unchained (fun _ _ => le_refl _) (le_refl _) (le_refl _)
    (by rw [Sample.canonical_state]; decide)

end GumptionChain
