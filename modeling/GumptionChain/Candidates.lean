import GumptionChain.Miller
import GumptionChain.Reservation
import GumptionChain.Revalidation

/-!
# Which pools a miller includes

Where the block of the whole pool is acceptable, whether `create_block` makes it depends on
the order of the pool alone.

* `Miller.Seals.coinbase_valid` — the coinbase a miller seals a block with;
* `Session.Sound.block_of_pool` — what an acceptable block shows of the chain it stands on;
* `create_block_complete_iff` — the whole pool goes in just if its order is the blocks' order
  and has parents first.
-/

namespace GumptionChain

open Database

/-! ## The coinbase -/

/-- What a miller relies on to seal a block: hashes are hexadecimal digests, and the signatures
of its key are base64 text and verify under its address. -/
structure Miller.Seals (E : Env) (key : SigningKey) : Prop where
  digest : ∀ text, Env.IsHexDigest (E.millHashStr text)
  address : validateAddressFormat key.address = true
  base64 : ∀ message, validateBase64 (key.sign message) = true
  verifies : ∀ message,
    E.validateSignature (some key.address) message (some (key.sign message)) = true

/-- **The coinbase a miller makes is valid**, as soon as no metric is negative. -/
theorem Miller.Seals.coinbase_valid {E : Env} {key : SigningKey} (h : Miller.Seals E key)
    {m : CoinbaseMetrics} {prevHash : Str} (hprev : validateMillHash prevHash = true)
    (hm : ∀ n ∈ m.nonzeroAmounts, 1 ≤ n) (now : DateTime) :
    (Transaction.coinbase E key blockReward m prevHash (dt2Iso now)).Valid E
      coinbaseTransactionModel := by
  have hne : key.address ≠ [] := by
    obtain ⟨k, hk⟩ := validateAddressFormat_eq h.address
    exact decodeAddress_ne_nil hk
  have hamounts : [blockReward, m.schadenfreude, m.grace, m.mudita, m.regret].filter (· ≠ 0) =
      blockReward :: m.nonzeroAmounts := rfl
  refine ⟨⟨?_, ⟨_, rfl, validateMillHash_of_isHexDigest (h.digest _)⟩, ⟨_, rfl, h.address⟩, ?_,
    ⟨Nat.zero_le _, Nat.zero_le _⟩, fun i hi => absurd hi List.not_mem_nil, ?_, ?_, rfl,
    ⟨_, rfl, hprev⟩⟩, h.verifies _, rfl⟩
  · exact congrArg Option.isSome (iso2Dt_dt2Iso now)
  · rintro σ hσ
    cases hσ
    exact h.base64 _
  · have hlen : m.nonzeroAmounts.length ≤ 4 := List.length_filter_le ..
    simp only [Transaction.coinbase, Transaction.sign, Transaction.sealTxn, hamounts,
      List.length_map, List.length_cons]
    exact ⟨Nat.succ_pos _, Nat.succ_le_succ hlen⟩
  · intro o ho
    simp only [Transaction.coinbase, Transaction.sign, Transaction.sealTxn, hamounts] at ho
    obtain ⟨n, hn, rfl⟩ := List.mem_map.1 ho
    have hpos : 1 ≤ n := by
      rcases List.mem_cons.1 hn with rfl | hn
      · decide
      · exact hm n hn
    refine ⟨⟨n, rfl, hpos⟩, ?_, by simp, by simp, by simp, .inl ⟨?_, rfl⟩, rfl⟩
    · rintro a ha
      cases ha
      exact h.address
    · exact (truthy_some _).2 hne

/-! ## The chain a miller builds on -/

namespace Session

variable {E : Env} {S : Set Str} {s s' : Session} {b : Block} {now : DateTime}

/-- A miller builds on the canonical chain, or on none while there are no blocks. -/
theorem Sound.chainOf_cases (h : s.Sound E S) :
    (s.db.blocks = [] ∧ Miller.chainOf s.db = {}) ∨
      ∃ row t, Miller.chainOf s.db = Chain.fromDao row ∧ row ∈ s.db.chains ∧
        s.db.blockByHash (some row.blockHash) = some t ∧ s.db.IsBest t := by
  have hs := h.inv.ledger.schema
  cases hlongest : s.db.longest with
  | none =>
    refine .inl ⟨?_, by rw [Miller.chainOf, hlongest]; rfl⟩
    by_contra hne
    obtain ⟨c, hc⟩ := List.exists_mem_of_ne_nil _ hne
    obtain ⟨t, ht, -⟩ := h.exists_longestTip hc
    rw [longestTip, hlongest] at ht
    exact absurd ht (by simp)
  | some row =>
    obtain ⟨hrow, t, ht, hid, -, -⟩ := longest_spec hs h.inv.chains hlongest
    refine .inr ⟨row, t, by rw [Miller.chainOf, hlongest]; rfl, hrow, ?_, ?_⟩
    · obtain ⟨x, hx, hxid, hxhash, -⟩ := h.inv.chains.tip row hrow
      obtain rfl : x = t :=
        id_injOn hs hx ht (hxid.symm.trans ((blockById_eq_some hs).1 hid).2.symm)
      exact (blockByHash_eq_some hs).2 ⟨hxhash ▸ h.inv.ledger.blockHash_ne_nil hx, hx, hxhash.symm⟩
    · refine (longestTip_eq_some hs h.inv.chains h.crowned).1 ?_
      rw [longestTip, hlongest]
      exact hid

/-- A block for the next place is linked to the best stored block, or to none. -/
theorem Sound.next_cases (h : s.Sound E S)
    (hprev : b.prevHash = some ((Miller.chainOf s.db).tipHash E s.db)) :
    (s.db.blocks = [] ∧ Miller.chainOf s.db = {}) ∨
      ∃ row t, Miller.chainOf s.db = Chain.fromDao row ∧ row ∈ s.db.chains ∧
        s.db.blockByHash (some row.blockHash) = some t ∧ s.db.IsBest t ∧
        (Chain.fromDao row).lastBlock s.db = some (Block.fromDao s.db t) ∧
        s.db.blockByHash b.prevHash = some t := by
  rcases h.chainOf_cases with hempty | ⟨row, t, hchain, hrow, ht, hbest⟩
  · exact .inl hempty
  · have hlast : (Chain.fromDao row).lastBlock s.db = some (Block.fromDao s.db t) := by
      rw [Chain.lastBlock, Block.fromDb]
      exact congrArg (Option.map (Block.fromDao s.db)) ht
    refine .inr ⟨row, t, hchain, hrow, ht, hbest, hlast, ?_⟩
    have hne : truthy (Block.fromDao s.db t).blockHash = true :=
      (truthy_some _).2 (h.inv.ledger.blockHash_ne_nil hbest.1)
    rw [hprev, hchain, Chain.tipHash, hlast]
    simp only [hne, if_true]
    exact Ledger.blockByHash_fromDao ht

/-- An acceptable block for the next place is not stored: it would outrank the best block. -/
theorem Sound.next_new (hS : E.CollisionFree (insert genesisText S)) (h : s.Sound E S)
    (hb : b.Hashed S) (hprev : b.prevHash = some ((Miller.chainOf s.db).tipHash E s.db))
    (hval : (Miller.chainOf s.db).validateBlock E now b s = .ok s') :
    s.db.blockByHash b.blockHash = none := by
  obtain ⟨-, hv, -, hlink, -⟩ := Chain.validateBlock_spec hval
  cases hr : s.db.blockByHash b.blockHash with
  | none => rfl
  | some r =>
    have hrm := (blockByHash_mem hr).1
    rcases h.next_cases hprev with ⟨hempty, -⟩ | ⟨-, t, -, -, -, hbest, -, ht⟩
    · exact absurd (hempty ▸ hrm) List.not_mem_nil
    · have hidx : r.idx = t.idx + 1 :=
        Option.some.inj ((h.inv.ledger.shows hS hv hb hr).idx.symm.trans
          (Chain.idx_of_validateLink hlink ht))
      have hrt : AtLeast r t := atLeast_of_idx_lt (by omega)
      have heq := AtLeast.antisymm h.inv.ledger.schema hbest.1 hrm (hbest.2 r hrm) hrt
      rw [heq] at hidx
      omega

/-- `link_block` succeeds where a block for the next place is acceptable, and changes nothing
else. -/
theorem Sound.linkBlock_eq (hS : E.CollisionFree (insert genesisText S)) (h : s.Sound E S)
    (hprev : b.prevHash = some ((Miller.chainOf s.db).tipHash E s.db))
    (hval : (Miller.chainOf s.db).validateBlock E now b s = .ok s') :
    ∃ idx target, (Miller.chainOf s.db).linkBlock E {} s =
      .ok (Block.link {} idx ((Miller.chainOf s.db).tipHash E s.db) target, s) := by
  obtain ⟨-, -, -, hlink, -⟩ := Chain.validateBlock_spec hval
  rcases h.next_cases hprev with ⟨-, hchain⟩ | ⟨row, t, hchain, hrow, ht, hbest, hlast, htb⟩
  · have hnone : ({} : Chain).lastBlock s.db = none := rfl
    rw [hchain, Chain.linkBlock, Chain.blockTarget, hnone]
    exact ⟨_, _, rfl⟩
  · have hidx : b.idx = some (t.idx + 1) := Chain.idx_of_validateLink hlink htb
    have hinv := h.inv
    have htarget := Chain.blockTarget_below hinv.ledger.schema (hinv.tree hS) hinv.ledger.linked
      hinv.chains (Chain.toDao_fromDao hinv.chains hrow ht) ht hidx (add_zero t.idx).symm
    -- the validator asks for the target of the same place
    have hnext : (Chain.fromDao row).blockTarget E none s =
        (Chain.fromDao row).blockTarget E (some b) s := by
      rw [Chain.blockTarget, Chain.blockTarget, hlast]
      simp only [hidx, Option.getD_some, show (Block.fromDao s.db t).idx = some t.idx from rfl,
        Nat.cast_add, Nat.cast_one]
    rw [hchain, Chain.validateBlock] at hval
    obtain ⟨_, -, hval⟩ := bind_eq_ok.1 hval
    obtain ⟨_, -, hval⟩ := bind_eq_ok.1 hval
    obtain ⟨_, -, hval⟩ := bind_eq_ok.1 hval
    obtain ⟨_, -, hval⟩ := bind_eq_ok.1 hval
    obtain ⟨⟨target, s₁⟩, hasked, -⟩ := bind_eq_ok.1 hval
    rw [htarget] at hasked
    cases hafter : Chain.targetAfter E ((s.db.pathBlocks t).drop 0) with
    | error e =>
      rw [hafter] at hasked
      exact absurd hasked (by simp [Except.map])
    | ok target =>
      rw [hchain, Chain.linkBlock, hnext, htarget, hafter]
      exact ⟨_, _, rfl⟩

/-- What `get_transaction` finds on the chain is what a block for the next place stands on. -/
theorem Sound.getTransaction_eq (hS : E.CollisionFree (insert genesisText S)) (h : s.Sound E S)
    (hprev : b.prevHash = some ((Miller.chainOf s.db).tipHash E s.db)) (txid : Str) :
    (Miller.chainOf s.db).getTransaction s.db (some txid) =
      .ok ((txnsOf (s.db.ancestors b)).find? fun t => t.txid = some txid) := by
  rcases h.next_cases hprev with ⟨hempty, hchain⟩ | ⟨row, t, hchain, hrow, ht, hbest, hlast, htb⟩
  · have hnone : s.db.blockByHash b.prevHash = none := by
      cases hr : s.db.blockByHash b.prevHash with
      | none => rfl
      | some r => exact absurd (hempty ▸ (blockByHash_mem hr).1) List.not_mem_nil
    rw [hchain, ancestors, hnone]
    rfl
  · have hfind := (Ledger.from_saved h.inv.ledger.schema (h.inv.tree hS) 1
      (Ledger.blockByHash_fromDao ht)).1 txid
    simp only [hchain, Chain.getTransaction, hlast, ancestors, htb]
    exact hfind

end Session

/-! ## The pool -/

namespace Miller

variable {E : Env} {S : Set Str} {J : JsonLib} {m : Miller} {answer : List PeerTxn}
  {now : DateTime} {s s₁ : Session} {Q : Session → Bool → Block → Prop} {depth : Option ℕ}
  {cutoff : ℕ} {db : Database}

theorem receiveAll_eq (answer : List PeerTxn) (s : Session) :
    ∃ pending, m.receiveAll E J answer s =
      { s with db := { s.db with pendingTxns := pending } } := by
  induction answer generalizing s with
  | nil => exact ⟨s.db.pendingTxns, rfl⟩
  | cons p rest ih =>
    rw [receiveAll]
    cases hrec : Node.receiveTransaction E J m.maxPendingTxns p.received p.txid p.txnJson s with
    | error e => exact ⟨s.db.pendingTxns, rfl⟩
    | ok r =>
      obtain ⟨r, s'⟩ := r
      obtain ⟨pending, hpending⟩ := ih s'
      refine ⟨pending, hpending.trans ?_⟩
      obtain ⟨txn, -, -, -, -, ⟨-, -, rfl⟩ | ⟨-, -, db, hadd, -, rfl⟩⟩ :=
        Node.receiveTransaction_eq_ok.1 hrec
      · rfl
      · obtain ⟨-, -, -, -, -, rfl⟩ := addPending_eq_ok.1 hadd
        rfl

theorem receiveAll_run (h : PoolRun E J m.maxPendingTxns Q depth s) :
    PoolRun E J m.maxPendingTxns Q depth (m.receiveAll E J answer s) := by
  induction answer generalizing s with
  | nil => exact h
  | cons p rest ih =>
    rw [receiveAll]
    cases hrec : Node.receiveTransaction E J m.maxPendingTxns p.received p.txid p.txnJson s with
    | error e => exact h
    | ok r => exact ih (h.receive hrec)

/-- `update_pending_txns` changes the pool only. -/
theorem updatePendingTxns_eq (h : m.updatePendingTxns E J answer now s = .ok s₁) :
    ∃ pending, s₁ = { s with db := { s.db with pendingTxns := pending } } := by
  obtain ⟨cutoff, -, heq⟩ := bind_eq_ok.1 h
  obtain ⟨pending, hpending⟩ := receiveAll_eq (m := m) answer s
  rw [hpending] at heq
  exact ⟨_, (Except.ok.inj heq).symm⟩

/-- `update_pending_txns` is a part of the node's run. -/
theorem updatePendingTxns_run (hrun : PoolRun E J m.maxPendingTxns Q depth s)
    (h : m.updatePendingTxns E J answer now s = .ok s₁) :
    PoolRun E J m.maxPendingTxns Q depth s₁ := by
  obtain ⟨cutoff, -, heq⟩ := bind_eq_ok.1 h
  rw [← Except.ok.inj heq]
  exact (receiveAll_run hrun).expire

/-- Of a pool without expired transactions the query returns everything. -/
theorem queryJson_perm (h : ∀ p ∈ db.pendingTxns, cutoff ≤ p.timestamp.toSeconds) :
    (queryJson db cutoff).Perm (db.pendingTxns.map PendingTxnDAO.txn) := by
  have hall : db.pendingTxns.filter (fun p => cutoff ≤ p.timestamp.toSeconds) = db.pendingTxns :=
    List.filter_eq_self.2 fun p hp => decide_eq_true (h p hp)
  rw [queryJson, hall]
  exact (Table.orderBy_perm _ _).map _

end Miller

/-! ## The block of the whole pool -/

/-- The block of the whole pool, in canonical order, on the chain a miller builds on: the chain
accepts it. -/
structure Miller.PoolBlock (E : Env) (S : Set Str) (now : DateTime) (s : Session)
    (pool : List PendingTxnDAO) (b : Block) : Prop where
  hashed : b.Hashed S
  prevHash : b.prevHash = some ((Miller.chainOf s.db).tipHash E s.db)
  txns : b.regularTxns = Block.canonicalOrder (pool.map PendingTxnDAO.txn)
  accepted : ∃ s', (Miller.chainOf s.db).validateBlock E now b s = .ok s'

theorem Block.Same.txids {bs cs : List Block} (h : List.Forall₂ Block.Same cs bs) :
    ((Database.txnsOf cs).map Transaction.txid).Perm
      ((Database.txnsOf bs).map Transaction.txid) := by
  have hcore := (Block.Same.txnsOf h).map Transaction.txid
  rw [List.map_map, List.map_map] at hcore
  exact hcore

namespace Session

variable {E : Env} {S : Set Str} {s : Session} {b c : Block} {bs : List Block}

/-- What a block shows that is being made on a known chain. -/
theorem Sound.agrees_next (hS : E.CollisionFree (insert genesisText S)) (h : s.Sound E S)
    (hsame : List.Forall₂ Block.Same (s.db.ancestors b) bs)
    (hids : ((txnsOf bs).map Transaction.txid).Nodup) (hopen : c.blockHash = none)
    (hprev : c.prevHash = b.prevHash) : (Ledger.ofDb s.db c).Agrees (Ledger.above c.txns bs) := by
  have hnew : s.db.blockByHash c.blockHash = none := by
    rw [hopen]
    rfl
  have hancestors : s.db.ancestors c = s.db.ancestors b := by rw [ancestors, ancestors, hprev]
  rw [Ledger.ofDb_unsaved h.inv.ledger.schema (h.inv.tree hS) hnew, hancestors]
  refine Ledger.above_agrees (Block.Same.txnsOf hsame) ?_
  exact (Block.Same.txids hsame).nodup_iff.2 hids

/-- What the chain has is what the accepted blocks have. -/
theorem Sound.mined_iff (hS : E.CollisionFree (insert genesisText S)) (h : s.Sound E S)
    (hprev : b.prevHash = some ((Miller.chainOf s.db).tipHash E s.db))
    (hsame : List.Forall₂ Block.Same (s.db.ancestors b) bs) (x : Str) :
    (∃ u, (Miller.chainOf s.db).getTransaction s.db (some x) = .ok (some u)) ↔
      ∃ u ∈ txnsOf bs, u.txid = some x := by
  rw [h.getTransaction_eq hS hprev]
  calc _ ↔ ∃ u ∈ txnsOf (s.db.ancestors b), u.txid = some x := by
        simp only [Except.ok.injEq, ← Option.isSome_iff_exists, List.find?_isSome,
          decide_eq_true_eq]
    _ ↔ some x ∈ (txnsOf (s.db.ancestors b)).map Transaction.txid := List.mem_map.symm
    _ ↔ some x ∈ (txnsOf bs).map Transaction.txid := (Block.Same.txids hsame).mem_iff
    _ ↔ ∃ u ∈ txnsOf bs, u.txid = some x := List.mem_map

end Session

namespace Miller

variable {E : Env} {S : Set Str} {J : JsonLib} {m : Miller} {answer : List PeerTxn}
  {clock : Clock} {now : DateTime} {s s₁ s₂ : Session} {depth : Option ℕ} {cutoff : ℕ} {B b : Block}

/-- What `create_block` does once it has its pool. -/
theorem createBlock_eq {idx : ℕ} {prevHash target : Str}
    (hlink : (chainOf s.db).linkBlock E {} s = .ok (Block.link {} idx prevHash target, s))
    (hupdate : m.updatePendingTxns E J answer clock.update s = .ok s₁)
    (hcutoff : expiryCutoff clock.query = .ok cutoff) {d : Draft}
    (hgather : gather E s₁.db (chainOf s.db) { block := Block.link {} idx prevHash target }
      (queryJson s₁.db cutoff) = .ok d) :
    m.createBlock E J answer clock s =
      (d.block.sealWith E m.millingSigningKey blockReward d.metrics (dt2Iso clock.coinbase)
        (dt2Iso clock.block)).map
          fun b => (b, { s₁ with db := d.discarded.foldl discardPending s₁.db }) := by
  simp only [createBlock, hlink, ok_bind, hupdate, hcutoff, hgather]
  cases d.block.sealWith E m.millingSigningKey blockReward d.metrics (dt2Iso clock.coinbase)
    (dt2Iso clock.block) <;> rfl

/-- What the loop of `create_block` meets: the accepted block's ledger, and none of the pool's
transactions on the chain. -/
theorem PoolBlock.stage (hS : E.CollisionFree (insert genesisText S)) (h : s.Sound E S)
    (h₁ : s₁.Sound E S) {pending : List PendingTxnDAO}
    (hpool : s₁ = { s with db := { s.db with pendingTxns := pending } })
    (hB : PoolBlock E S now s s₁.db.pendingTxns B) :
    ∃ bs, AcceptedOn E S bs B ∧ ((B.txns ++ txnsOf bs).map Transaction.txid).Nodup ∧
      (∀ c : Block, c.blockHash = none → c.prevHash = B.prevHash →
        (Ledger.ofDb s₁.db c).Agrees (Ledger.above c.txns bs)) ∧
      (∀ x, (∃ u, (chainOf s.db).getTransaction s.db (some x) = .ok (some u)) ↔
        ∃ u ∈ txnsOf bs, u.txid = some x) ∧
      ∀ t ∈ B.regularTxns, (chainOf s.db).getTransaction s₁.db t.txid = .ok none := by
  obtain ⟨s', hval⟩ := hB.accepted
  have hnew := h.next_new hS hB.hashed hB.prevHash hval
  obtain ⟨bs, hchain, hsame, hon⟩ := h.inv.accepts hS hB.hashed hnew hval
  have hids := hon.txids hS hchain (hchain.sound hS)
  have hidsbs : ((txnsOf bs).map Transaction.txid).Nodup :=
    ((List.sublist_append_right B.txns (txnsOf bs)).map _).nodup hids
  have hsame₁ : List.Forall₂ Block.Same (s₁.db.ancestors B) bs := hpool ▸ hsame
  have hchainOf : chainOf s₁.db = chainOf s.db := by rw [hpool]; rfl
  have hprev₁ : B.prevHash = some ((chainOf s₁.db).tipHash E s₁.db) := by
    rw [hB.prevHash, hpool]
    rfl
  refine ⟨bs, hon, hids, fun c hopen hprev => h₁.agrees_next hS hsame₁ hidsbs hopen hprev,
    fun x => h.mined_iff hS hB.prevHash hsame x, fun t ht => ?_⟩
  obtain ⟨cb, -, -, htxns⟩ := hon.valid.txns_eq
  obtain ⟨x, hx, -⟩ := (hon.valid.regular t ht).1.wellFormed.txid
  cases hfound : (txnsOf (s₁.db.ancestors B)).find? fun t => t.txid = some x with
  | none => rw [hx, ← hchainOf, h₁.getTransaction_eq hS hprev₁, hfound]
  | some u =>
    -- it would be on the chain a second time
    have hfind : (chainOf s₁.db).getTransaction s₁.db (some x) = .ok (some u) := by
      rw [h₁.getTransaction_eq hS hprev₁, hfound]
    obtain ⟨v, hv, hvx⟩ := (h₁.mined_iff hS hprev₁ hsame₁ x).1 ⟨u, hfind⟩
    rw [List.map_append, List.nodup_append] at hids
    have htB : t ∈ B.txns := htxns ▸ List.mem_append_left _ ht
    exact absurd (hx.trans hvx.symm)
      (hids.2.2 _ (List.mem_map_of_mem htB) _ (List.mem_map_of_mem hv))

/-- The candidates are the block's transactions. -/
theorem PoolBlock.queryJson_perm (hB : PoolBlock E S now s s₁.db.pendingTxns B)
    (hlive : ∀ p ∈ s₁.db.pendingTxns, cutoff ≤ p.timestamp.toSeconds) :
    (queryJson s₁.db cutoff).Perm B.regularTxns := by
  rw [hB.txns]
  exact (Miller.queryJson_perm hlive).trans (List.perm_insertionSort _ _).symm

section Complete

variable {bs : List Block} (hon : AcceptedOn E S bs B)
  (hids : ((B.txns ++ txnsOf bs).map Transaction.txid).Nodup) {l : List Transaction}
  (hperm : l.Perm B.regularTxns)
  (hmined : ∀ t ∈ l, (chainOf s.db).getTransaction s₁.db t.txid = .ok none)
  (hroom : l.length ≤ maxTransactions - 1)

include hon hids hperm

theorem candidates_nodup : (l.map Transaction.txid).Nodup := by
  obtain ⟨cb, -, -, htxns⟩ := hon.valid.txns_eq
  have hreg : B.regularTxns.Sublist (B.txns ++ txnsOf bs) := by
    rw [htxns]
    exact (List.sublist_append_left ..).trans (List.sublist_append_left ..)
  exact ((hperm.map _).nodup_iff).2 ((hreg.map _).nodup hids)

/-- Candidates in the blocks' order are the block's transactions as it has them. -/
theorem candidates_eq (hchain : l.IsChain fun p t => ¬ t.lt p) : l = B.regularTxns := by
  have hnodup : ∀ {l' : List Transaction}, l'.Perm B.regularTxns →
      (l'.map fun t => t.txid.getD []).Nodup := by
    intro l' hl'
    refine List.Nodup.map_on (fun t ht u hu heq => ?_)
      (List.Nodup.of_map _ (candidates_nodup hon hids hl'))
    obtain ⟨x, hx, -⟩ := (hon.valid.regular t (hl'.subset ht)).1.wellFormed.txid
    obtain ⟨y, hy, -⟩ := (hon.valid.regular u (hl'.subset hu)).1.wellFormed.txid
    rw [hx, hy, Option.getD_some, Option.getD_some] at heq
    exact List.inj_on_of_nodup_map (candidates_nodup hon hids hl') ht hu
      (hx.trans ((congrArg some heq).trans hy.symm))
  have hsorted : ∀ {l' : List Transaction}, l'.Perm B.regularTxns →
      (l'.IsChain fun p t => ¬ t.lt p) → Block.canonicalOrder B.regularTxns = l' := by
    intro l' hl' hchain'
    refine Block.canonicalOrder_eq_of_perm hl'.symm ?_ (hnodup hl')
    have hsort : Block.sortTxns l' = l' := hchain'.pairwise.insertionSort_eq
    rw [← hsort]
    exact Block.sortTxns_pairwise fun t ht =>
      (hon.valid.regular t (hl'.subset ht)).1.isCoinbase_false
  exact (hsorted hperm hchain).symm.trans (hsorted (List.Perm.refl _) hon.valid.ordered)

include hmined hroom

/-- A block that has all candidates took each of them. -/
theorem admissible_of_included {c : Block} (hempty : c.txns = []) {d : Draft} {iso now : Str}
    (hgather : gather E s₁.db (chainOf s.db) { block := c } l = .ok d)
    (hseal : d.block.sealWith E m.millingSigningKey blockReward d.metrics iso now = .ok b)
    (hall : ∀ t ∈ l, t ∈ b.txns) : Greedy.Admissible (admits E s₁.db c) [] l := by
  obtain ⟨d', hd', hblock⟩ := gather_eq (E := E) (d := { block := c }) hmined
    (by simpa using hroom)
  obtain rfl : d = d' := Except.ok.inj (hgather.symm.trans hd')
  simp only [hempty, List.nil_append] at hblock
  obtain ⟨-, -, cb, -, -, -, hcb, hb⟩ := Block.sealWith_eq_ok hseal
  refine Greedy.admissible_of_taken ?_ fun t ht => ?_
  · exact List.Nodup.of_map _ (candidates_nodup hon hids hperm)
  · have hmem := hall t ht
    simp only [hb, hblock, List.mem_append, List.mem_singleton, Block.sortTxns,
      (List.perm_insertionSort _ _).mem_iff] at hmem
    rcases hmem with hmem | rfl
    · exact hmem
    · have hregular := (hon.valid.regular t (hperm.subset ht)).1.isCoinbase_false
      exact absurd (hregular.symm.trans hcb.isCoinbase_true) Bool.noConfusion

/-- Where every candidate passes, the block of all of them can be sealed. -/
theorem included_of_admissible (hseals : Seals E m.millingSigningKey) {idx : ℕ}
    {prevHash target : Str} (hprev : B.prevHash = some prevHash)
    (hledger : ∀ txns, (Ledger.ofDb s₁.db { Block.link {} idx prevHash target with
      txns := txns }).Agrees (Ledger.above txns bs))
    (hadmissible : Greedy.Admissible (admits E s₁.db (Block.link {} idx prevHash target)) [] l)
    (iso : DateTime) (now : Str) :
    ∃ d b, gather E s₁.db (chainOf s.db) { block := Block.link {} idx prevHash target } l = .ok d ∧
      d.discarded = [] ∧
      d.block.sealWith E m.millingSigningKey blockReward d.metrics (dt2Iso iso) now = .ok b ∧
      ∀ t ∈ l, t ∈ b.txns := by
  have hnone : ([] ++ l).Perm B.regularTxns := hperm
  have hchain := ((hon.admissible_iff hids rfl hledger hnone).1 hadmissible).1
  rw [List.getLast?_nil, Option.toList_none, List.nil_append] at hchain
  have hl := candidates_eq hon hids hperm hchain
  -- each candidate has the metrics that it has in the accepted block
  have hsame : ∀ before t after, l = before ++ t :: after →
      (Ledger.ofDb s₁.db { Block.link {} idx prevHash target with
        txns := [] ++ before }).validateBlockTxn t false =
        (Ledger.above B.txns bs).validateBlockTxn t true := by
    rintro before t after rfl
    have hpass := hadmissible.split
    rw [List.nil_append] at hpass ⊢
    rw [(hledger before).validateBlockTxn_eq]
    exact (hon.passes_iff hids hperm).2 ((hon.passes_over_iff hids rfl hledger hperm).1 hpass).2
  obtain ⟨metrics, hmetrics, hgather⟩ := gather_of_admissible
    (d := { block := Block.link {} idx prevHash target }) hmined (by simpa using hroom)
    hadmissible hsame
  obtain ⟨metrics', hmetrics', hcoinbase⟩ := hon.metrics
  obtain rfl : metrics = metrics' := Except.ok.inj (hmetrics.symm.trans (hl ▸ hmetrics'))
  obtain ⟨cb, -, hcb, hamounts, -⟩ := Ledger.validateBlockCoinbase_eq_ok.1 hcoinbase
  have hpos : ∀ n ∈ metrics.nonzeroAmounts, 1 ≤ n := by
    intro n hn
    have hmem : some n ∈ (cb.outflows.drop 1).map Outflow.amount :=
      hamounts ▸ List.mem_map_of_mem hn
    obtain ⟨o, ho, hon⟩ := List.mem_map.1 hmem
    obtain ⟨n', hn', hpos⟩ := (hcb.wellFormed.outflows o (List.drop_subset _ _ ho)).amount
    exact Option.some.inj (hon.symm.trans hn') ▸ hpos
  obtain ⟨h, hh, hvalid⟩ := hon.valid.wellFormed.prevHash
  obtain rfl : prevHash = h := Option.some.inj (hprev.symm.trans hh)
  exact ⟨_, _, hgather, rfl, Block.sealWith_of rfl rfl rfl hchain.pairwise rfl
    (hseals.coinbase_valid hvalid hpos iso), fun t ht => List.mem_append_left _ ht⟩

end Complete

end Miller

/-- **create_block includes the whole pool** where the block of it is acceptable, and discards
nothing, just if the pool's own order, by time and identifier, is the blocks' order, and every
input of a candidate is on the chain or of a candidate before it. -/
theorem create_block_complete_iff {E : Env} {S : Set Str} {J : JsonLib} {m : Miller}
    {answer : List PeerTxn} {clock : Clock} {now : DateTime} {s s₁ : Session} {depth : Option ℕ}
    {cutoff : ℕ} {B : Block} (hS : E.CollisionFree (insert genesisText S))
    (hseals : Miller.Seals E m.millingSigningKey)
    (hrun : PoolRun E J m.maxPendingTxns (fun _ _ b => b.Hashed S) depth s)
    (hupdate : m.updatePendingTxns E J answer clock.update s = .ok s₁)
    (hcutoff : expiryCutoff clock.query = .ok cutoff)
    (hlive : ∀ p ∈ s₁.db.pendingTxns, cutoff ≤ p.timestamp.toSeconds)
    (hroom : s₁.db.pendingTxns.length ≤ maxTransactions - 1)
    (hB : Miller.PoolBlock E S now s s₁.db.pendingTxns B) :
    (∃ b s₂, m.createBlock E J answer clock s = .ok (b, s₂) ∧
        (∀ p ∈ s₁.db.pendingTxns, p.txn ∈ b.txns) ∧ s₂.db.pendingTxns = s₁.db.pendingTxns) ↔
      ((Miller.queryJson s₁.db cutoff).IsChain fun p t => ¬ t.lt p) ∧
        ParentsFirst (fun x => ∃ u, (Miller.chainOf s.db).getTransaction s.db (some x) =
          .ok (some u)) (Miller.queryJson s₁.db cutoff) := by
  have h := hrun.sound hS fun _ _ _ hb => hb
  have h₁ := (Miller.updatePendingTxns_run hrun hupdate).sound hS fun _ _ _ hb => hb
  obtain ⟨pending, hpool⟩ := Miller.updatePendingTxns_eq hupdate
  obtain ⟨bs, hon, hids, hledger, hknown, hmined⟩ := hB.stage hS h h₁ hpool
  obtain ⟨s', hval⟩ := hB.accepted
  obtain ⟨idx, target, hlink⟩ := h.linkBlock_eq hS hB.prevHash hval
  have hprev := hB.prevHash
  generalize (Miller.chainOf s.db).tipHash E s.db = tip at hlink hprev
  have hperm := hB.queryJson_perm hlive
  have hquery := Miller.queryJson_perm hlive
  have hopen : ∀ txns, (Ledger.ofDb s₁.db { Block.link {} idx tip target with
      txns := txns }).Agrees (Ledger.above txns bs) := fun txns => hledger _ rfl hprev.symm
  have hlen : (Miller.queryJson s₁.db cutoff).length ≤ maxTransactions - 1 := by
    rw [hquery.length_eq, List.length_map]
    exact hroom
  have hnone : ([] ++ Miller.queryJson s₁.db cutoff).Perm B.regularTxns := hperm
  have hmined' : ∀ t ∈ Miller.queryJson s₁.db cutoff,
      (Miller.chainOf s.db).getTransaction s₁.db t.txid = .ok none :=
    fun t ht => hmined t (hperm.subset ht)
  have hadmissible := hon.admissible_iff (c := Block.link {} idx tip target) hids rfl hopen hnone
  rw [List.getLast?_nil, Option.toList_none, List.nil_append, List.nil_append] at hadmissible
  have hparents : ParentsFirst (fun x => ∃ u, (Miller.chainOf s.db).getTransaction s.db (some x) =
      .ok (some u)) (Miller.queryJson s₁.db cutoff) ↔
        ParentsFirst (fun x => ∃ u ∈ txnsOf bs, u.txid = some x) (Miller.queryJson s₁.db cutoff) :=
    ⟨fun hp => hp.congr fun x => (hknown x).1, fun hp => hp.congr fun x => (hknown x).2⟩
  rw [hparents, ← hadmissible]
  constructor
  · rintro ⟨b, s₂, hcreate, hall, -⟩
    obtain ⟨d, hgather, -⟩ := Miller.gather_eq (E := E)
      (d := { block := Block.link {} idx tip target }) hmined' (by simpa using hlen)
    rw [Miller.createBlock_eq hlink hupdate hcutoff hgather] at hcreate
    cases hseal : d.block.sealWith E m.millingSigningKey blockReward d.metrics
        (dt2Iso clock.coinbase) (dt2Iso clock.block) with
    | error e => rw [hseal] at hcreate; exact absurd hcreate (by simp [Except.map])
    | ok b' =>
      rw [hseal] at hcreate
      obtain rfl : b' = b := (Prod.mk.inj (Except.ok.inj hcreate)).1
      refine Miller.admissible_of_included hon hids hperm hmined' hlen rfl hgather hseal ?_
      intro t ht
      obtain ⟨p, hp, rfl⟩ := List.mem_map.1 (hquery.subset ht)
      exact hall p hp
  · intro hpass
    obtain ⟨d, b, hgather, hdiscarded, hseal, hall⟩ := Miller.included_of_admissible hon hids hperm
      hmined' hlen hseals hprev hopen hpass clock.coinbase (dt2Iso clock.block)
    refine ⟨b, { s₁ with db := d.discarded.foldl discardPending s₁.db }, ?_, fun p hp => ?_, ?_⟩
    · rw [Miller.createBlock_eq hlink hupdate hcutoff hgather, hseal]
      rfl
    · exact hall p.txn (hquery.symm.subset (List.mem_map_of_mem hp))
    · rw [hdiscarded]
      rfl

namespace Sample

/-- A spend of the spend's transfer that says it is a minute older. -/
def early : Transaction where
  timestamp := dt2Iso (minutesPast 4)
  txid := some (fmt064x 0x871ce70d1acc6f724372963dbf22f08b7e0e7c43f5fe85162966f3241ed2ffc3)
  address := some bob
  signature := some (b64encode
    (toBytes 32 0xb61fd6f6a11dc31b5ce96cf8e700c09e95b2131a2b9711d717f8185127e305da ++
      toBytes 32 0x367ef8a436ef9806c271c2e2fbe2c89b6f9d348bb76b825b1c6515d981a2400b))
  inflows := [⟨spend.txid, some 0⟩]
  outflows := [{ amount := some 300, address := some alice }]

/-- The reward of a block with both. -/
def earlyCoinbase : Transaction where
  timestamp := dt2Iso (minutesPast 15)
  txid := some (fmt064x 0xde429114f4c382c95559101de8c67c896a5eb691e25d04e6fd7aa18f0fa2a08e)
  address := some bob
  signature := some (b64encode
    (toBytes 32 0xcbc597c8f90b9a5bc88ed7b56e6473bee22827e96cde1b077c20d6f6f9bbb0d0 ++
      toBytes 32 0xe3cd421e295eb589d0969db552aeb3e609ede9af0bc169352e81e61fd2ee5704))
  outflows := [{ amount := some 500, address := some bob },
    { amount := some 100, address := some bob }]
  prevHash := genesis.blockHash

/-- A block with both, the child before its parent. -/
def earlyFirst : Block where
  idx := some 1
  timestamp := some (dt2Iso (minutesPast 15))
  blockHash := some (fmt064x 0x00000113cea9951eb9a56ec34815d7eb28bba94d41ef3d0612ad651e8d9c4d9d)
  prevHash := genesis.blockHash
  target := maxTarget
  proofOfWork := some 289474
  merkleRoot := some (fmt064x 0xf7d1b95beffd561d7106493858e03123d67ad416417aa0a14a2effbec2cb602a)
  txns := [early, spend, earlyCoinbase]

/-- A block of the spend and of a spend of its transfer, in the order of their times. -/
def nested : Block where
  idx := some 1
  timestamp := some (dt2Iso (minutesPast 15))
  blockHash := some (fmt064x 0x000009910ab5638b136ec91e82670392f3da329989056a386b39c0210aa7548d)
  prevHash := genesis.blockHash
  target := maxTarget
  proofOfWork := some 130561
  merkleRoot := some (fmt064x 0xebdd14864c9897b391e8fdec88965c7e88f61075bc1508ffc9f541e49dcd04ef)
  txns := [spend, respend, earlyCoinbase]

def milledBlocks : List Block := [genesis, left, earlyFirst, nested]

/-- The environment of a miller: what these blocks do not show is hashed and signed by rote. -/
def millerEnv : Env :=
  { Env.knowing milledBlocks with
    millHashStr := fun s =>
      match (Env.knowing milledBlocks).millHashStr s with
      | [] => fmt064x 0
      | h => h
    ed25519Rule := fun publicKey signature message =>
      (Env.knowing milledBlocks).ed25519Rule publicKey signature message ||
        (signature = toBytes 64 0 && decodeAddress alice = some publicKey) }

/-- The key that sealed `left`. -/
def miller : Miller where
  millingSigningKey := ⟨alice, fun message =>
    if message = leftCoinbase.signingData then leftCoinbase.signature.getD []
    else b64encode (toBytes 64 0)⟩
  maxPendingTxns := 10

def tenPast : DateTime := minutesPast 10

def clock : Clock := ⟨tenPast, tenPast, tenPast, tenPast⟩

/-- What known blocks say of a text is one of their digests, or nothing. -/
theorem known_digest {blocks : List Block} (h : ∀ b ∈ blocks,
    Env.IsHexDigest (b.blockHash.getD []) ∧ ∀ t ∈ b.txns, Env.IsHexDigest (t.txid.getD []))
    (s : Str) : (Env.knowing blocks).millHashStr s = [] ∨
      Env.IsHexDigest ((Env.knowing blocks).millHashStr s) := by
  simp only [Env.knowing]
  split_ifs
  · exact .inr (isHexDigest_fmt064x (by decide))
  · split
    · rename_i b hb
      exact .inr (h b (List.mem_of_find?_eq_some hb)).1
    · cases hfind : (blocks.flatMap Block.txns).find? fun t => t.dataCsv = s with
      | none => exact .inl rfl
      | some t =>
        obtain ⟨b, hb, ht⟩ := List.mem_flatMap.1 (List.mem_of_find?_eq_some hfind)
        exact .inr ((h b hb).2 t ht)

/-- A node with the first block and the given transactions in its pool. -/
def pooling (txns : List Transaction) : Session :=
  Node.handleAll millerEnv (txnLib txns) 10 none {}
    (.block halfHour genesis :: txns.map fun t => .transaction 0 (t.txid.getD []) t.toJson)

theorem pooling_run (txns : List Transaction) : PoolRun millerEnv (txnLib txns)
    miller.maxPendingTxns (fun _ _ b => b.Hashed { x | x ∈ hashedTexts milledBlocks }) none
      (pooling txns) := by
  refine PoolRun.empty.handleAll fun _ now b hb => ?_
  simp only [List.mem_cons, List.mem_map, reduceCtorEq, and_false, exists_false, or_false,
    Node.Message.block.injEq] at hb
  rw [hb.2]
  exact Block.hashed_of_mem (by simp [milledBlocks])

/-- The tables of such a node. -/
def poolingDb (pool : List PendingTxnDAO) : Database where
  blocks := [blockRow 1 none (minutesPast 0) genesis]
  transactions := [txnRow 1 (minutesPast 0) mint]
  outflows := [outflowRow 1 1 0 mint]
  blockTransactions := [(1, 1)]
  chains := [⟨1, genesis.blockHash.getD [], 1, 0⟩]
  longestChainBlocks := [⟨1, 0⟩]
  pendingTxns := pool

def spendRow : PendingTxnDAO := ⟨spend.txid.getD [], minutesPast 5, spend, 0,
  [⟨spend.txid.getD [], mint.txid.getD [], 0, 1⟩]⟩

def earlyRow : PendingTxnDAO := ⟨early.txid.getD [], minutesPast 4, early, 0, []⟩

def respendRow : PendingTxnDAO := ⟨respend.txid.getD [], minutesPast 6, respend, 0, []⟩

/-- Such a node, its row objects dropped. -/
def waiting (pool : List PendingTxnDAO) : Session where
  db := poolingDb pool
  generation := 1

/-- Four hours before ten past. -/
def fourHoursAgo : ℕ := tenPast.toSeconds - txnTimeout

/-- What evaluating the two nodes and their blocks tells. -/
structure MilledEvaluates : Prop where
  address : validateAddressFormat alice = true
  key : (decodeAddress alice).map List.length = some 32
  base64 : validateBase64 (leftCoinbase.signature.getD []) = true
  verifies : millerEnv.validateSignature (some alice) leftCoinbase.signingData
    (some (leftCoinbase.signature.getD [])) = true
  digests : ((hashedTexts milledBlocks).dedup.map millerEnv.millHashStr).Nodup
  pooling : ((pooling [spend, early]).db = poolingDb [spendRow, earlyRow] ∧
      (pooling [spend, early]).generation = 1) ∧
    (pooling [spend, respend]).db = poolingDb [spendRow, respendRow] ∧
      (pooling [spend, respend]).generation = 1
  cutoff : expiryCutoff tenPast = .ok fourHoursAgo
  live : ∀ p ∈ [spendRow, earlyRow, respendRow], fourHoursAgo ≤ p.timestamp.toSeconds
  nested : nested.prevHash =
      some ((Miller.chainOf (waiting [spendRow, respendRow]).db).tipHash millerEnv
        (waiting [spendRow, respendRow]).db) ∧
    nested.regularTxns = Block.canonicalOrder ([spendRow, respendRow].map PendingTxnDAO.txn) ∧
    ((Miller.chainOf (waiting [spendRow, respendRow]).db).validateBlock millerEnv halfHour nested
      (waiting [spendRow, respendRow])).isOk = true
  early : earlyFirst.prevHash =
      some ((Miller.chainOf (waiting [spendRow, earlyRow]).db).tipHash millerEnv
        (waiting [spendRow, earlyRow]).db) ∧
    earlyFirst.regularTxns = Block.canonicalOrder ([spendRow, earlyRow].map PendingTxnDAO.txn) ∧
    ((Miller.chainOf (waiting [spendRow, earlyRow]).db).validateBlock millerEnv halfHour earlyFirst
      (waiting [spendRow, earlyRow])).isOk = true

theorem milled_evaluates : MilledEvaluates := by
  constructor <;> decide +kernel

theorem live {pool : List PendingTxnDAO} (h : pool ⊆ [spendRow, earlyRow, respendRow]) :
    ∀ p ∈ pool, fourHoursAgo ≤ p.timestamp.toSeconds := fun p hp => milled_evaluates.live p (h hp)

theorem miller_seals : Miller.Seals millerEnv miller.millingSigningKey where
  digest text := by
    have hknown : ∀ b ∈ milledBlocks, Env.IsHexDigest (b.blockHash.getD []) ∧
        ∀ t ∈ b.txns, Env.IsHexDigest (t.txid.getD []) := by
      simp only [milledBlocks, List.forall_mem_cons, List.not_mem_nil, false_imp_iff,
        implies_true, and_true, genesis, left, earlyFirst, nested, mint, spend, leftCoinbase,
        early, respend, earlyCoinbase, Option.getD_some]
      refine ⟨⟨?_, ?_⟩, ⟨?_, ?_, ?_⟩, ⟨?_, ?_, ?_, ?_⟩, ?_, ?_, ?_, ?_⟩ <;>
      exact isHexDigest_fmt064x (by decide)
    simp only [millerEnv]
    split
    · exact isHexDigest_fmt064x (by decide)
    · rename_i hne
      exact (known_digest hknown text).resolve_left hne
  address := milled_evaluates.address
  base64 message := by
    simp only [miller]
    split_ifs
    · exact milled_evaluates.base64
    · exact validateBase64_b64encode _
  verifies message := by
    simp only [miller]
    split_ifs with h
    · rw [h]
      exact milled_evaluates.verifies
    · obtain ⟨raw, hdecode, hlen⟩ := Option.map_eq_some_iff.1 milled_evaluates.key
      have hsig := b64decode_b64encode (toBytes 64 0)
      simp only [Env.validateSignature, Env.publicKeyFromAddress, hdecode, hsig, Env.ed25519Verify,
        hlen, millerEnv]
      simp [show (toBytes 64 0).length = 64 by decide]

theorem milled_collisionFree :
    millerEnv.CollisionFree (insert genesisText { x | x ∈ hashedTexts milledBlocks }) := by
  -- the spend is in two of the blocks
  intro x hx y hy h
  have hmem : ∀ z ∈ insert genesisText { x | x ∈ hashedTexts milledBlocks },
      z ∈ (hashedTexts milledBlocks).dedup := by
    rintro z (rfl | hz)
    · exact List.mem_dedup.2 List.mem_cons_self
    · exact List.mem_dedup.2 hz
  exact List.inj_on_of_nodup_map milled_evaluates.digests (hmem x hx) (hmem y hy) h

theorem waiting_run {txns : List Transaction} {pool : List PendingTxnDAO}
    (h : (pooling txns).db = poolingDb pool ∧ (pooling txns).generation = 1) :
    PoolRun millerEnv (txnLib txns) miller.maxPendingTxns
      (fun _ _ b => b.Hashed { x | x ∈ hashedTexts milledBlocks }) none (waiting pool) := by
  have hforget : waiting pool = { pooling txns with cache := fun _ => none } := by
    simp only [waiting, h.1, h.2]
  rw [hforget]
  exact (pooling_run txns).forget fun _ => .inl rfl

theorem waiting_update {txns : List Transaction} {pool : List PendingTxnDAO}
    (h : ∀ p ∈ pool, fourHoursAgo ≤ p.timestamp.toSeconds) :
    miller.updatePendingTxns millerEnv (txnLib txns) [] clock.update (waiting pool) =
      .ok (waiting pool) := by
  have hkept : (waiting pool).db.discardExpiredPending fourHoursAgo = (waiting pool).db := by
    have hall : pool.filter (fun p => ¬ p.timestamp.toSeconds < fourHoursAgo) = pool :=
      List.filter_eq_self.2 fun p hp => decide_eq_true (not_lt.2 (h p hp))
    rw [Database.discardExpiredPending]
    exact congrArg poolingDb hall
  rw [Miller.updatePendingTxns, Miller.receiveAll]
  simp only [clock, milled_evaluates.cutoff, ok_bind, hkept]
  rfl

theorem accepts_of_isOk {c : Chain} {b : Block} {s : Session}
    (h : (c.validateBlock millerEnv halfHour b s).isOk = true) :
    ∃ s', c.validateBlock millerEnv halfHour b s = .ok s' := by
  cases hval : c.validateBlock millerEnv halfHour b s with
  | ok s' => exact ⟨s', rfl⟩
  | error e =>
    rw [hval] at h
    exact absurd h Bool.noConfusion

/-- The blocks of the two pools. -/
theorem waiting_block :
    Miller.PoolBlock millerEnv { x | x ∈ hashedTexts milledBlocks } halfHour
      (waiting [spendRow, respendRow]) [spendRow, respendRow] nested ∧
    Miller.PoolBlock millerEnv { x | x ∈ hashedTexts milledBlocks } halfHour
      (waiting [spendRow, earlyRow]) [spendRow, earlyRow] earlyFirst :=
  ⟨⟨Block.hashed_of_mem (by simp [milledBlocks]), milled_evaluates.nested.1,
      milled_evaluates.nested.2.1, accepts_of_isOk milled_evaluates.nested.2.2⟩,
    ⟨Block.hashed_of_mem (by simp [milledBlocks]), milled_evaluates.early.1,
      milled_evaluates.early.2.1, accepts_of_isOk milled_evaluates.early.2.2⟩⟩

end Sample

open Sample in
/-- A spend and a spend of its transfer, in the order of their times, both go in. -/
theorem create_block_complete_iff_nested :
    ∃ b s₂, miller.createBlock millerEnv (txnLib [spend, respend]) [] clock
        (waiting [spendRow, respendRow]) = .ok (b, s₂) ∧
      (∀ p ∈ [spendRow, respendRow], p.txn ∈ b.txns) ∧
      s₂.db.pendingTxns = [spendRow, respendRow] := by
  have hlive := live (show [spendRow, respendRow] ⊆ _ by simp)
  have hquery : Miller.queryJson (waiting [spendRow, respendRow]).db fourHoursAgo =
      [spend, respend] := by decide +kernel
  refine (create_block_complete_iff milled_collisionFree miller_seals
    (waiting_run milled_evaluates.pooling.2) (waiting_update hlive) (by decide +kernel)
    hlive (by decide) waiting_block.1).2 ?_
  rw [hquery]
  refine ⟨by decide +kernel, ?_, ?_, trivial⟩
  · have hmint : (Miller.chainOf (waiting [spendRow, respendRow]).db).getTransaction
        (waiting [spendRow, respendRow]).db mint.txid = .ok (some mint) := by decide +kernel
    intro i hi
    obtain rfl := List.mem_singleton.1 hi
    exact ⟨mint.txid.getD [], rfl, mint, hmint⟩
  · intro i hi
    obtain rfl := List.mem_singleton.1 hi
    exact ⟨spend.txid.getD [], rfl, .inr rfl⟩

/-- A spend of an output of the pool that says it is older than its parent is tried first, fails
and leaves the pool for good, though the block of both is acceptable. -/
theorem create_block_drops_child :
    Sample.millerEnv.CollisionFree
        (insert genesisText { x | x ∈ hashedTexts Sample.milledBlocks }) ∧
      Miller.Seals Sample.millerEnv Sample.miller.millingSigningKey ∧
      PoolRun Sample.millerEnv (Sample.txnLib [Sample.spend, Sample.early])
        Sample.miller.maxPendingTxns
        (fun _ _ b => b.Hashed { x | x ∈ hashedTexts Sample.milledBlocks }) none
          (Sample.waiting [Sample.spendRow, Sample.earlyRow]) ∧
      Sample.miller.updatePendingTxns Sample.millerEnv
          (Sample.txnLib [Sample.spend, Sample.early]) [] Sample.clock.update
            (Sample.waiting [Sample.spendRow, Sample.earlyRow]) =
        .ok (Sample.waiting [Sample.spendRow, Sample.earlyRow]) ∧
      expiryCutoff Sample.clock.query = .ok Sample.fourHoursAgo ∧
      (∀ p ∈ [Sample.spendRow, Sample.earlyRow],
        Sample.fourHoursAgo ≤ p.timestamp.toSeconds) ∧
      Miller.PoolBlock Sample.millerEnv { x | x ∈ hashedTexts Sample.milledBlocks }
        Sample.halfHour (Sample.waiting [Sample.spendRow, Sample.earlyRow])
        [Sample.spendRow, Sample.earlyRow] Sample.earlyFirst ∧
      ∃ b s₂, Sample.miller.createBlock Sample.millerEnv
          (Sample.txnLib [Sample.spend, Sample.early]) [] Sample.clock
            (Sample.waiting [Sample.spendRow, Sample.earlyRow]) = .ok (b, s₂) ∧
        Sample.early ∉ b.txns ∧ s₂.db.pendingTxns = [Sample.spendRow] := by
  refine ⟨Sample.milled_collisionFree, Sample.miller_seals,
    Sample.waiting_run Sample.milled_evaluates.pooling.1,
    Sample.waiting_update (Sample.live (by simp)), by decide +kernel, Sample.live (by simp),
    Sample.waiting_block.2, ?_⟩
  have hcreated : (Sample.miller.createBlock Sample.millerEnv
      (Sample.txnLib [Sample.spend, Sample.early]) [] Sample.clock
        (Sample.waiting [Sample.spendRow, Sample.earlyRow])).toOption.map
          (fun r => (r.1.txns, r.2.db.pendingTxns)) =
      some ([Sample.spend, Sample.leftCoinbase], [Sample.spendRow]) := by decide +kernel
  cases hblock : Sample.miller.createBlock Sample.millerEnv
      (Sample.txnLib [Sample.spend, Sample.early]) [] Sample.clock
        (Sample.waiting [Sample.spendRow, Sample.earlyRow]) with
  | error e =>
    rw [hblock] at hcreated
    exact absurd hcreated (by simp [Except.toOption])
  | ok r =>
    rw [hblock] at hcreated
    obtain ⟨htxns, hpool⟩ := Prod.mk.inj (Option.some.inj hcreated)
    refine ⟨r.1, r.2, rfl, ?_, hpool⟩
    rw [htxns]
    decide +kernel

end GumptionChain
