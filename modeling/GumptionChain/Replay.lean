import GumptionChain.SyncForward
import GumptionChain.Storable
import GumptionChain.Revalidation
import GumptionChain.Verdict

/-!
# Replaying a chain

What a node has accepted, another node accepts from it, block by block: forward sync
and the import of an export are both such replays.

* `Replayable` — what a node knows of a block of its canonical chain, and
  `NodeRun.replayable`: it knows it of every one;
* `Session.Sound.replays` — a node that holds the chain below takes the block;
* `Session.Holds` — a node with nothing but a chain, and `Session.Holds.replay`: it gets
  the block as it was, exactly when no transaction of it spends another.
-/

namespace GumptionChain

open Database

/-- No transaction of the block spends another one of it. -/
def Block.Unchained (b : Block) : Prop :=
  ∀ t ∈ b.txns, ∀ i ∈ t.inflows, ∀ u ∈ b.txns, i.outflowTxid ≠ u.txid

instance (b : Block) : Decidable b.Unchained := by
  unfold Block.Unchained
  infer_instance

/-- What replaying a block above the blocks `below` needs: it was accepted there, at a
clock of `now` at the latest, and its numbers and times are as the tables write them. -/
structure Replayable (E : Env) (S : Set Str) (now : DateTime) (below : List Block) (b : Block) :
    Prop where
  on : AcceptedOn E S below b
  target : Chain.targetAfter E below = .ok b.target
  clock : ∀ ts, b.timestampDt = some ts → ts.toSeconds ≤ now.toSeconds
  canonical : b.Canonical
  idx : ∀ n, b.idx = some n → n ≤ E.integerMax
  proofOfWork : ∀ n, b.proofOfWork = some n → n < 2 ^ 63
  amounts : ∀ t ∈ b.txns, ∀ o ∈ t.outflows, ∀ amount, o.amount = some amount → amount < 2 ^ 63

/-! ## What a node knows of its chain -/

theorem NodeRun.session {E : Env} {P : DateTime → Block → Prop} {depth : Option ℕ} {s : Session}
    (h : NodeRun E P depth s) : SessionRun E (fun _ now b => P now b) depth {} s := by
  induction h with
  | empty => exact .refl
  | add _ hb hadd ih => exact ih.add hb hadd
  | forget _ hcache ih => exact ih.forget hcache
  | pool _ ih => exact ih.pool

namespace Database

variable {E : Env} {S : Set Str} {now : DateTime} {db : Database} {t r : BlockDAO} {b : Block}
  {below : List Block}

/-- A place on a path is a stored block with its own path. -/
theorem Tree.pathBlocks_of_suffix (h : db.Tree) (ht : t ∈ db.blocks)
    (hsuf : b :: below <:+ db.pathBlocks t) :
    ∃ r ∈ db.blocks, b = Block.fromDao db r ∧ db.pathBlocks r = b :: below := by
  obtain ⟨above, hsplit⟩ := hsuf
  obtain ⟨front, path, hpath, -, hmap⟩ := List.map_eq_append_iff.1 hsplit.symm
  obtain ⟨r, rs, rfl, rfl, rfl⟩ := List.map_eq_cons_iff.1 hmap
  obtain ⟨hr, hrpath⟩ := Forest.path_of_suffix h.ranked ht ⟨front, hpath.symm⟩
  exact ⟨r, hr, rfl, congrArg (List.map (Block.fromDao db)) hrpath⟩

/-- A stored transaction reads back with times as the tables write them. -/
theorem canonical_fromDao (db : Database) (r : BlockDAO) : (Block.fromDao db r).Canonical := by
  refine ⟨fun s hs => ?_, fun t ht => ?_⟩
  · rw [← Option.some.inj hs]
    exact canonical_dt2Iso _
  · obtain ⟨u, -, rfl⟩ := List.mem_map.1 ((List.perm_insertionSort _ _).subset ht)
    exact canonical_dt2Iso _

/-- **A stored block of audited tables is replayable** above its ancestors. -/
theorem replayable_fromDao (hs : db.Schema E) (haud : Audited E S now db) (hr : r ∈ db.blocks)
    (hpath : db.pathBlocks r = Block.fromDao db r :: below) :
    AcceptedChain E S below ∧ Replayable E S now below (Block.fromDao db r) := by
  have hchain := haud.accepted r hr
  rw [hpath] at hchain
  obtain _ | ⟨hbelow, hon⟩ := hchain
  have htarget := haud.target r hr
  rw [hpath, List.tail_cons] at htarget
  obtain ⟨hidx, hpow⟩ := hs.blockRange r hr
  refine ⟨hbelow, hon, htarget, fun ts hts => ?_, canonical_fromDao db r, fun n hn => ?_,
    fun n hn => ?_, fun t ht o ho amount hamount => ?_⟩
  · obtain rfl : r.timestamp = ts :=
      Option.some.inj ((iso2Dt_dt2Iso r.timestamp).symm.trans hts)
    exact haud.clock r hr
  · exact Option.some.inj hn ▸ hidx
  · obtain rfl : r.proofOfWork = n := Option.some.inj hn
    exact_mod_cast hpow.2
  · obtain ⟨u, -, rfl⟩ := List.mem_map.1 ((List.perm_insertionSort _ _).subset ht)
    obtain ⟨x, hx, rfl⟩ := List.mem_map.1 ho
    obtain rfl : x.amount = amount := Option.some.inj hamount
    exact (hs.outflowRange x (List.mem_filter.1 (Table.mem_orderBy.1 hx)).1).2.2

end Database

/-- **Every block of a node's canonical chain is replayable** above those below it. -/
theorem NodeRun.replayable {E : Env} {S : Set Str} {now : DateTime} {depth : Option ℕ} {e : Session}
    (hS : E.CollisionFree (insert genesisText S)) (h : NodeRun E (AuditedAddition S now) depth e)
    {b : Block} {below : List Block} (hsuf : b :: below <:+ e.canonical) :
    AcceptedChain E S below ∧ Replayable E S now below b := by
  have hsound : e.Sound E S := h.session.sound hS (fun _ _ _ hb => hb.1) .empty
  cases ht : e.db.longestTip with
  | none =>
    rw [Session.canonical, ht] at hsuf
    exact absurd (List.suffix_nil.1 hsuf) (List.cons_ne_nil _ _)
  | some t =>
    rw [Session.canonical_of_tip ht] at hsuf
    obtain ⟨r, hr, rfl, hpath⟩ := (hsound.inv.tree hS).pathBlocks_of_suffix
      (hsound.best_of_tip ht).1 hsuf
    exact replayable_fromDao hsound.inv.ledger.schema (h.audited hS) hr hpath

theorem NodeRun.accepted_canonical {E : Env} {S : Set Str} {now : DateTime} {depth : Option ℕ}
    {e : Session} (hS : E.CollisionFree (insert genesisText S))
    (h : NodeRun E (AuditedAddition S now) depth e) : AcceptedChain E S e.canonical := by
  cases hc : e.canonical with
  | nil => exact .nil
  | cons b below =>
    have hsuf : b :: below <:+ e.canonical := hc ▸ List.suffix_rfl
    obtain ⟨hbelow, hb⟩ := h.replayable hS hsuf
    exact .cons hbelow hb.on

/-! ## Taking a block again -/

namespace Session

variable {E : Env} {S : Set Str} {depth : Option ℕ} {now clock : DateTime} {b : Block}
  {below : List Block} {s s' : Session}

/-- The first block of the canonical chain is the tip. -/
theorem Sound.head?_canonical (h : s.Sound E S) : s.canonical.head? = Node.tipBlock s := by
  rw [h.tipBlock_eq]
  unfold canonical
  cases s.db.longestTip with
  | none => rfl
  | some t =>
    show (s.db.pathBlocks t).head? = some (Block.fromDao s.db t)
    rw [pathBlocks, path, Forest.path, Forest.walk]
    rfl

/-- A replayable block links to the tip of a node that holds the chain below it. -/
theorem Sound.linked_of_replayable (h : s.Sound E S)
    (hsame : List.Forall₂ Block.Same s.canonical below) (hb : Replayable E S now below b) :
    b.prevHash = Node.expectedPrev E s := by
  unfold Node.expectedPrev
  rw [← h.head?_canonical]
  rcases Block.Same.head hsame with ⟨hc, hq⟩ | ⟨c, q, hc, hq, hcq⟩
  · rw [hc]
    exact of_decide_eq_true ((Chain.validateLink_eq_ok hb.on.link).1 hq).1
  · rw [hc]
    exact (hb.on.prev q hq).trans hcq.blockHash.symm

/-- It is not stored there. -/
theorem Sound.new_of_replayable (hS : E.CollisionFree (insert genesisText S)) (h : s.Sound E S)
    (hsame : List.Forall₂ Block.Same s.canonical below) (hb : Replayable E S now below b) :
    s.db.blockByHash b.blockHash = none :=
  h.not_stored_of_link hS hb.on.hashed hb.on.valid.wellFormed hb.on.valid.hashed
    (h.linked_of_replayable hsame hb)

/-- No other genesis is in the way. -/
theorem Sound.validateGenesis_of_replayable (h : s.Sound E S)
    (hS : E.CollisionFree (insert genesisText S)) (hsame : List.Forall₂ Block.Same s.canonical below)
    (hb : Replayable E S now below b) : Chain.validateGenesis E s.db b = .ok () := by
  unfold Chain.validateGenesis
  split_ifs with hg
  · -- a genesis has nothing below it, and the node then has no blocks at all
    have hlinked := h.linked_of_replayable hsame hb
    cases ht : s.db.longestTip with
    | none =>
      rw [Block.genesisFromDb, Database.blockByIdx, h.blocks_nil ht]
      rfl
    | some t =>
      have hblk := (h.best_of_tip ht).1
      rw [of_decide_eq_true hg.1, Node.expectedPrev, h.tipBlock_eq, ht] at hlinked
      exact absurd (Option.some.inj hlinked).symm (h.inv.ledger.blockHash_ne_genesis hS hblk)
  · rfl

/-- **A node accepts what another has accepted on the same chain.** -/
theorem Sound.validates_replayable (hS : E.CollisionFree (insert genesisText S)) (h : s.Sound E S)
    (hsame : List.Forall₂ Block.Same s.canonical below) (hb : Replayable E S now below b)
    (hclock : now.toSeconds ≤ clock.toSeconds) :
    (Node.chainFor s.db b).validateBlock E clock b s = .ok s := by
  have hledger := h.inv.ledger
  have hlinked := h.linked_of_replayable hsame hb
  have hanc := h.ancestors_eq hlinked
  rw [Chain.validateBlock_eq hledger.schema (h.inv.tree hS) hledger.linked h.inv.chains,
    h.validateGenesis_of_replayable hS hsame hb,
    Ledger.ofDb_unsaved hledger.schema (h.inv.tree hS) (h.new_of_replayable hS hsame hb), hanc]
  have hids : ((txnsOf s.canonical).map Transaction.txid).Nodup := by
    obtain ⟨bs, hbs, hsame'⟩ := hledger.ancestors b
    rw [hanc] at hsame'
    exact ((hbs.sound hS).of_core (Block.Same.txnsOf hsame').symm).txids
  rw [Chain.validateAbove_congr (Ledger.above_agrees (Block.Same.txnsOf hsame) hids) hsame]
  have hclocked : Chain.validateClock clock b = .ok () := by
    unfold Chain.validateClock
    cases hts : b.timestampDt with
    | none => rfl
    | some ts => exact ensure_of ((hb.clock ts hts).trans hclock)
  rw [Chain.validateAbove_eq_ok (x := ()) |>.2
    ⟨hb.on.valid, hclocked, rfl, hb.on.link, hb.target, hb.on.metrics⟩]
  rfl

/-- An output of a transaction on the canonical chain is stored. -/
theorem Sound.outflow_of_canonical (h : s.Sound E S) {u : Transaction} (hu : u ∈ txnsOf s.canonical)
    {txid : Str} (htxid : u.txid = some txid) {n : ℕ} {o : Outflow} (ho : u.getOutflow n = some o) :
    ∃ x ∈ s.db.outflows, x.txid = txid ∧ x.idx = n := by
  cases ht : s.db.longestTip with
  | none =>
    rw [canonical, ht] at hu
    cases hu
  | some t =>
    rw [canonical_of_tip ht] at hu
    have hcoin : (⟨u, n, o⟩ : Coin) ∈ coins (txnsOf (s.db.pathBlocks t)) := by
      obtain ⟨hn, hget⟩ := List.getElem?_eq_some_iff.1 ho
      exact List.mem_flatMap.2 ⟨u, hu, List.mem_mapIdx.2 ⟨n, hn, hget ▸ rfl⟩⟩
    obtain ⟨⟨w, x⟩, hw, heq⟩ := List.mem_map.1 ((coins_perm h.numbered).subset hcoin)
    obtain ⟨hwm, hx, hid⟩ := mem_outflowsQ.1 hw
    obtain ⟨rfl, rfl, rfl⟩ := Coin.mk.inj heq
    refine ⟨x, hx, ?_, rfl⟩
    rw [txid_outflow h.inv.ledger.schema h.inv.ledger.named (pathRows_subset hwm) hx hid]
    exact Option.some.inj htxid

/-- **An unchained block can be stored** by a node that holds the chain below it. -/
theorem Sound.storable_of_replayable (h : s.Sound E S)
    (hsame : List.Forall₂ Block.Same s.canonical below) (hb : Replayable E S now below b)
    (hfree : b.Unchained) : b.Storable E s.db := by
  refine ⟨hb.idx, hb.proofOfWork, fun t ht _ => ⟨hb.amounts t ht, fun i hi => ?_⟩⟩
  obtain ⟨txid, n, u, o, rfl, hu, htxid, hout, -⟩ := hb.on.spend ht hi
  rcases List.mem_append.1 hu with hu | hu
  · exact absurd htxid.symm (hfree t ht _ hi u hu)
  -- the outflow is in the node's own copy of the chain
  obtain ⟨v, hv, hcore⟩ := List.mem_map.1
    ((Block.Same.txnsOf hsame).symm.subset (List.mem_map_of_mem hu))
  have hvid : v.txid = some txid := (Transaction.core_eq_iff.1 hcore).1.trans htxid
  have hvout : v.getOutflow n = some o := by rw [Transaction.getOutflow_eq_of_core hcore, hout]
  obtain ⟨x, hx, rfl, rfl⟩ := h.outflow_of_canonical hv hvid hvout
  exact ⟨x, hx, rfl⟩

/-- **A node that holds the chain below an unchained block takes it**, and then holds the
chain with it. -/
theorem Sound.replays (hS : E.CollisionFree (insert genesisText S)) (h : s.Sound E S)
    (hsame : List.Forall₂ Block.Same s.canonical below) (hb : Replayable E S now below b)
    (hclock : now.toSeconds ≤ clock.toSeconds) (hfree : b.Unchained) :
    ∃ s', Node.tryAddBlock E depth clock b s = .ok s' ∧ s'.Sound E S ∧
      List.Forall₂ Block.Same s'.canonical (b :: below) := by
  have hval := h.validates_replayable hS hsame hb hclock
  obtain ⟨s', hadd⟩ : ∃ s', Node.tryAddBlock E depth clock b s = .ok s' :=
    (h.inv.tryAddBlock_isOk_iff hS hb.on.hashed (h.new_of_replayable hS hsame hb) hval).2
      (h.storable_of_replayable hsame hb hfree)
  obtain ⟨c, hc, hcanonical⟩ := h.extend hS hb.on.hashed (h.linked_of_replayable hsame hb) hadd
  exact ⟨s', hadd, h.tryAddBlock hS hb.on.hashed hadd, hcanonical ▸ .cons hc hsame⟩

end Session

/-! ## A node with nothing but a chain -/

/-- The tables hold the chain, and no transaction besides. -/
structure Session.Holds (E : Env) (S : Set Str) (chain : List Block) (s : Session) : Prop where
  sound : s.Sound E S
  accepted : AcceptedChain E S chain
  canonical : s.canonical = chain
  stored : ∀ u ∈ s.db.transactions, ∃ t ∈ txnsOf chain, t.txid = some u.txid

namespace Session.Holds

variable {E : Env} {S : Set Str} {depth : Option ℕ} {now clock : DateTime} {b : Block}
  {chain : List Block} {s s' : Session}

theorem empty : Holds E S [] {} :=
  ⟨.empty, .nil, rfl, fun _ hu => absurd hu List.not_mem_nil⟩

theorem forgets (h : Holds E S chain s) (dropped : ℕ → Bool) : Holds E S chain (s.forget dropped) :=
  ⟨h.sound.forgets dropped, h.accepted, h.canonical, h.stored⟩

theorem same (h : Holds E S chain s) : List.Forall₂ Block.Same s.canonical chain := by
  rw [h.canonical]
  exact List.forall₂_same.2 fun c _ => Block.Same.refl c

/-- The transactions of a block that is accepted above the chain are new. -/
theorem new_txn (hS : E.CollisionFree (insert genesisText S)) (h : Holds E S chain s)
    (hb : Replayable E S now chain b) {t : Transaction} (ht : t ∈ b.txns) :
    ∀ u ∈ s.db.transactions, t.txid ≠ some u.txid := by
  intro u hu heq
  obtain ⟨v, hv, hvid⟩ := h.stored u hu
  have hids := hb.on.txids hS h.accepted (h.accepted.sound hS)
  rw [List.map_append] at hids
  exact (List.nodup_append.1 hids).2.2 _ (List.mem_map_of_mem ht) _ (List.mem_map_of_mem hv)
    (heq.trans hvid.symm)

/-- **What such a node can store**: a spend within a block has no row to refer to. -/
theorem storable_iff (hS : E.CollisionFree (insert genesisText S)) (h : Holds E S chain s)
    (hb : Replayable E S now chain b) : b.Storable E s.db ↔ b.Unchained := by
  refine ⟨fun hst t ht i hi u hu heq => ?_, h.sound.storable_of_replayable h.same hb⟩
  obtain ⟨o, ho, rfl⟩ := (hst.txns t ht (h.new_txn hS hb ht)).spends i hi
  obtain ⟨w, hw, -, hname⟩ := h.sound.inv.ledger.named.outflows o ho
  exact h.new_txn hS hb hu w hw (by rw [hname]; exact heq.symm)

/-- The block is stored as it is. -/
theorem faithful (hS : E.CollisionFree (insert genesisText S)) (h : Holds E S chain s)
    (hb : Replayable E S now chain b) : b.Faithful s.db := by
  unfold Block.Faithful
  rw [h.sound.new_of_replayable hS h.same hb]
  have hids := hb.on.txids hS h.accepted (h.accepted.sound hS)
  rw [List.map_append] at hids
  refine ⟨hb.canonical.timestamp, List.Nodup.of_map _ (List.nodup_append.1 hids).1,
    fun t ht => ?_⟩
  unfold Transaction.Kept
  cases hrow : s.db.transactionByTxid (t.txid.getD []) with
  | none => exact hb.canonical.txns t ht
  | some u =>
    obtain ⟨hu, huid⟩ := (transactionByTxid_eq_some h.sound.inv.ledger.schema).1 hrow
    obtain ⟨x, hx⟩ := hb.on.valid.txid_isSome ht
    exact absurd (by rw [huid, hx]; rfl) (h.new_txn hS hb ht u hu)

/-- A block that is added becomes the top of the chain, as it is. -/
theorem extend (hS : E.CollisionFree (insert genesisText S)) (h : Holds E S chain s)
    (hb : Replayable E S now chain b) (hadd : Node.tryAddBlock E depth clock b s = .ok s') :
    Holds E S (b :: chain) s' := by
  have hs := h.sound.inv.ledger.schema
  have hsound := h.sound.tryAddBlock hS hb.on.hashed hadd
  obtain ⟨c, hsame, hcanonical⟩ :=
    h.sound.extend hS hb.on.hashed (h.sound.linked_of_replayable h.same hb) hadd
  obtain ⟨db, blk, s₁, row, -, hto, -, -, hp, hup⟩ :=
    h.sound.inv.tryAddBlock_spec hS hb.on.hashed hadd
  have hl := hp.sameLedger.1.trans hup.ledger
  refine ⟨hsound, .cons h.accepted hb.on, ?_, fun u hu => ?_⟩
  · -- the tip and the block are both what is stored under the block's hash
    have hstored : Block.fromDb s'.db b.blockHash = some b := by
      have hread := (Block.fromDb_toDb_iff hs hb.on.valid hto).2 (h.faithful hS hb)
      obtain ⟨_, _, _, heq⟩ := hl
      rw [heq]
      exact hread
    have hc : Block.fromDb s'.db b.blockHash = some c := by
      cases ht : s'.db.longestTip with
      | none =>
        rw [Session.canonical, ht] at hcanonical
        cases hcanonical
      | some t =>
        have hhead := hsound.head?_canonical
        rw [hcanonical, hsound.tipBlock_eq, ht] at hhead
        obtain rfl := Option.some.inj hhead
        have hblk := (hsound.best_of_tip ht).1
        rw [← hsame.blockHash, Block.fromDb]
        exact congrArg _ ((blockByHash_eq_some hsound.inv.ledger.schema).2
          ⟨hsound.inv.ledger.blockHash_ne_nil hblk, hblk, rfl⟩)
    rw [hcanonical, h.canonical, Option.some.inj (hc.symm.trans hstored)]
  · rcases Block.toDb_spec hs hto with ⟨r, hr, -⟩ | ⟨-, r, ids, ha⟩
    · rw [h.sound.new_of_replayable hS h.same hb] at hr
      cases hr
    · have hu' : u ∈ db.transactions := by
        obtain ⟨_, _, _, heq⟩ := hl
        rw [heq] at hu
        exact hu
      rw [txnsOf, List.flatMap_cons]
      rcases ha.sourced u hu' with hold | ⟨t, ht, hst⟩
      · obtain ⟨t, ht, hid⟩ := h.stored u hold
        exact ⟨t, List.mem_append_right _ ht, hid⟩
      · exact ⟨t, List.mem_append_left _ ht, hst.1⟩

/-- **A node with nothing but a chain takes the next block exactly when no transaction of
it spends another**, and then has nothing but the longer chain. -/
theorem replay (depth : Option ℕ) (hS : E.CollisionFree (insert genesisText S))
    (h : Holds E S chain s) (hb : Replayable E S now chain b) (hclock : now.toSeconds ≤ clock.toSeconds) :
    ((∃ s', Node.tryAddBlock E depth clock b s = .ok s') ↔ b.Unchained) ∧
      ∀ s', Node.tryAddBlock E depth clock b s = .ok s' → Holds E S (b :: chain) s' := by
  refine ⟨?_, fun s' hadd => h.extend hS hb hadd⟩
  rw [h.sound.inv.tryAddBlock_isOk_iff hS hb.on.hashed (h.sound.new_of_replayable hS h.same hb)
    (h.sound.validates_replayable hS h.same hb hclock)]
  exact h.storable_iff hS hb

end Session.Holds

end GumptionChain
