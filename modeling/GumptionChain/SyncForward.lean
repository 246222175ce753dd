import GumptionChain.Lib.Follow
import GumptionChain.Provenance

/-!
# Forward sync

`Node.sync_forward`: the node asks a peer for the blocks of the peer's longest chain,
page by page from its own height on, and adds them one at a time.

* `Session.canonical` — the canonical chain, and `Session.Sound.extend`: a block that
  links to its tip and is added becomes the new tip, on top of the chain as it was;
* `Node.syncForward` — the pass, as the follower of a log;
* `sync_forward_extends` — at every moment, whatever the peer answers, the canonical
  chain has the one before the call below blocks that were each accepted on top of it;
* `sync_forward_progresses` — the heights asked for grow, and by what the chain grew;
* `sync_forward_result` — what each result says.
-/

namespace GumptionChain

open Database

/-! ## The canonical chain -/

/-- The blocks of the canonical chain, tip first. -/
def Session.canonical (s : Session) : List Block := s.db.longestTip.elim [] s.db.pathBlocks

namespace Node

/-- `self.longest_chain.last_block if self.longest_chain else None`. -/
def tipBlock (s : Session) : Option Block :=
  (s.db.longest.map Chain.fromDao).bind (Chain.lastBlock s.db)

/-- The height after the tip's: `tip.idx + 1`, or 0. -/
def nextIdx (s : Session) : ℕ :=
  match (tipBlock s).bind Block.idx with
  | some idx => idx + 1
  | none => 0

/-- `tip.block_hash if tip is not None else GENESIS_HASH`. -/
def expectedPrev (E : Env) (s : Session) : Option Str :=
  match tipBlock s with
  | some tip => tip.blockHash
  | none => some E.genesisHash

end Node

namespace Session

variable {E : Env} {S : Set Str} {depth : Option ℕ} {now : DateTime} {commit : Bool} {b : Block}
  {s s' : Session} {r : Option Block} {t : BlockDAO}

theorem canonical_of_tip (ht : s.db.longestTip = some t) : s.canonical = s.db.pathBlocks t := by
  rw [canonical, ht, Option.elim_some]

theorem Sound.blocks_nil (h : s.Sound E S) (hnone : s.db.longestTip = none) : s.db.blocks = [] := by
  by_contra hne
  obtain ⟨c, hc⟩ := List.exists_mem_of_ne_nil _ hne
  obtain ⟨t, ht, -⟩ := h.exists_longestTip hc
  rw [hnone] at ht
  cases ht

theorem Sound.length_canonical (hS : E.CollisionFree (insert genesisText S)) (h : s.Sound E S)
    (ht : s.db.longestTip = some t) : s.canonical.length = t.idx + 1 := by
  rw [canonical_of_tip ht, pathBlocks, List.length_map]
  exact (h.inv.tree hS).length_path h.inv.ledger.linked.root (h.best_of_tip ht).1

/-- The tip that the node reads is the first block of the canonical chain. -/
theorem Sound.tipBlock_eq (h : s.Sound E S) :
    Node.tipBlock s = s.db.longestTip.map (Block.fromDao s.db) := by
  unfold Node.tipBlock longestTip
  cases hl : s.db.longest with
  | none => rfl
  | some c =>
    obtain ⟨hcm, b, hb, hid, -⟩ := longest_spec h.inv.ledger.schema h.inv.chains hl
    obtain ⟨t, ht, htid, hhash, -⟩ := h.inv.chains.tip c hcm
    obtain rfl : b = t := id_injOn h.inv.ledger.schema hb ht
      (((blockById_eq_some h.inv.ledger.schema).1 hid).2.trans htid)
    rw [Option.map_some, Option.bind_some, Option.bind_some, hid]
    show Block.fromDb s.db (some c.blockHash) = _
    rw [Block.fromDb, hhash, (blockByHash_eq_some h.inv.ledger.schema).2
      ⟨h.inv.ledger.blockHash_ne_nil hb, hb, rfl⟩]

/-- The height asked for is the length of the canonical chain. -/
theorem Sound.nextIdx_eq (hS : E.CollisionFree (insert genesisText S)) (h : s.Sound E S) :
    Node.nextIdx s = s.canonical.length := by
  unfold Node.nextIdx
  rw [h.tipBlock_eq]
  cases ht : s.db.longestTip with
  | none => rw [canonical, ht]; rfl
  | some t => rw [h.length_canonical hS ht]; rfl

/-- The expected predecessor is the tip. -/
theorem Sound.blockByHash_expectedPrev (h : s.Sound E S) :
    s.db.blockByHash (Node.expectedPrev E s) = s.db.longestTip := by
  unfold Node.expectedPrev
  rw [h.tipBlock_eq]
  cases ht : s.db.longestTip with
  | none =>
    unfold blockByHash
    rw [h.blocks_nil ht]
    split_ifs <;> rfl
  | some t =>
    have hblk := (h.best_of_tip ht).1
    exact (blockByHash_eq_some h.inv.ledger.schema).2
      ⟨h.inv.ledger.blockHash_ne_nil hblk, hblk, rfl⟩

/-- A block with the expected predecessor has the canonical chain for its ancestors. -/
theorem Sound.ancestors_eq (h : s.Sound E S) (hprev : b.prevHash = Node.expectedPrev E s) :
    s.db.ancestors b = s.canonical := by
  unfold Database.ancestors canonical
  rw [hprev, h.blockByHash_expectedPrev]
  cases s.db.longestTip <;> rfl

/-- A valid block with the expected predecessor outranks the tip. -/
theorem Sound.wins_of_link (h : s.Sound E S) (hprev : b.prevHash = Node.expectedPrev E s)
    (hlink : Chain.validateLink E (Block.fromDb s.db b.prevHash) b = .ok ()) : s.Wins b := by
  intro t ht
  have hidx := Chain.idx_of_validateLink hlink (p := t) (by
    rw [hprev, h.blockByHash_expectedPrev, ht])
  refine Prod.Lex.toLex_lt_toLex.2 (Or.inl ?_)
  rw [hidx]
  exact OrderDual.toDual_lt_toDual.2 (Nat.lt_succ_self _)

/-- **A block added on top of the tip is the new tip**, and the chain below it is the
one that was canonical. -/
theorem Sound.extend (hS : E.CollisionFree (insert genesisText S)) (h : s.Sound E S)
    (hb : b.Hashed S) (hprev : b.prevHash = Node.expectedPrev E s)
    (hadd : Node.tryAddBlock E depth now b s = .ok s') :
    ∃ c, c.Same b ∧ s'.canonical = c :: s.canonical := by
  have h' := h.tryAddBlock hS hb hadd
  obtain ⟨-, -, -, -, habove, -⟩ := h.inv.tryAddBlock_spec hS hb hadd
  obtain ⟨hv, -, -, hlink, -, hm⟩ := Chain.validateAbove_eq_ok.1 habove
  rw [Chain.head?_ancestors] at hlink
  have hwins := h.wins_of_link hprev hlink
  have hnew : s.db.blockByHash b.blockHash = none := by
    by_contra hstored
    exact h.not_wins_of_stored hS hb hadd hstored hwins
  obtain ⟨db, hl, ⟨-, hsome⟩ | ⟨-, row, ids, ha⟩⟩ := h.tables_tryAddBlock hS hb hadd
  · rw [hnew] at hsome
    cases hsome
  have hrow : row ∈ s'.db.blocks := hl.blocks ▸ ha.row_mem
  have htip : s'.db.longestTip = some row := by
    have hhash := ((h.tip_tryAddBlock hS hb hadd).1 hnew hwins).2
    obtain ⟨t, ht, -⟩ := h'.exists_longestTip hrow
    rw [tip, ht, ha.blockHash_row, Option.map_some, Option.some.injEq] at hhash
    rw [ht, List.inj_on_of_nodup_map h'.inv.ledger.schema.blockHashes (h'.best_of_tip ht).1 hrow
      hhash]
  have htree := h.inv.tree hS
  have hval : (Node.chainFor s.db b).validateBlock E now b s = .ok s := by
    rw [Chain.validateBlock_eq h.inv.ledger.schema htree h.inv.ledger.linked h.inv.chains, habove]
    rfl
  obtain ⟨bs, hbs, -, hon⟩ := h.inv.accepts hS hb hnew hval
  have hids : (b.txns.map Transaction.txid).Nodup := by
    have hall := hon.txids hS hbs (hbs.sound hS)
    rw [List.map_append] at hall
    exact (List.nodup_append.1 hall).1
  refine ⟨Block.fromDao db row, LedgerInv.same_row hS h.inv.ledger ha hv hb hids, ?_⟩
  rw [canonical_of_tip htip, hl.pathBlocks, h.inv.ledger.pathBlocks_new ha htree hlink,
    h.ancestors_eq hprev]

/-- No stored block has the hash of a block that links to the tip. -/
theorem Sound.not_stored_of_link (hS : E.CollisionFree (insert genesisText S)) (h : s.Sound E S)
    (hb : b.Hashed S) (hw : b.WellFormed E) (hhash : b.blockHash = some (b.getHeaderHash E))
    (hprev : b.prevHash = Node.expectedPrev E s) : s.db.blockByHash b.blockHash = none := by
  by_contra hstored
  obtain ⟨r, hr⟩ := Option.ne_none_iff_exists'.1 hstored
  obtain ⟨hrm, hrh⟩ := blockByHash_mem hr
  -- the stored block has the same header, so the same predecessor
  obtain ⟨c, cs, -, hon, hsame, -⟩ := h.inv.ledger.accepted_cons hrm
  have hfields : b.headerFields = c.headerFields := by
    refine Block.header_inj hw hon.valid.wellFormed
      (hS (Set.mem_insert_of_mem _ hb.1) (Set.mem_insert_of_mem _ hon.hashed.1) ?_)
    have heq : some (b.getHeaderHash E) = some (c.getHeaderHash E) := by
      rw [← hhash, ← hon.valid.hashed, hrh]
      exact hsame.blockHash
    exact Option.some.inj heq
  have hlinked : s.db.blockByHash (some r.prevHash) = s.db.longestTip := by
    have hp : some r.prevHash = b.prevHash :=
      hsame.prevHash.trans (congrArg (fun f => f.2.2.1) hfields).symm
    rw [hp, hprev, h.blockByHash_expectedPrev]
  rw [h.inv.ledger.linked.prev r hrm] at hlinked
  obtain ⟨t, ht, hbest⟩ := h.exists_longestTip hrm
  rw [ht] at hlinked
  have hidx := h.inv.ledger.idx r hrm t hlinked
  have hle := (Prod.Lex.toLex_le_toLex.1 (hbest.2 r hrm))
  rcases hle with hlt | ⟨heq, -⟩
  · exact absurd (OrderDual.toDual_lt_toDual.1 hlt) (by omega)
  · exact absurd (OrderDual.toDual.injective heq) (by omega)

end Session

/-! ## The pass -/

/-- How a pass fails: with the exception of a request, or of an addition. -/
inductive SyncError where
  | request
  | add (e : Err)
  deriving DecidableEq

/-- What `sync_forward` returns. -/
inductive SyncResult where
  | caughtUp
  | diverged
  deriving DecidableEq

/-- A peer: its answer to the `n`-th call of `get_blocks(from_idx, limit)`, blocks that
each come with the moment the node gets to them; nothing when the call raises. -/
abbrev Peer := ℕ → ℕ → ℕ → Option (List (Moment × Block))

namespace Node

/-- The body of the loops of `sync_forward`: the height of the next request, the two
checks that a block has to pass, and its addition. -/
def syncFollower (E : Env) (depth : Option ℕ) :
    Follow.Follower Session (Moment × Block) SyncError where
  next := nextIdx
  refuses s a := decide (some (a.2.getHeaderHash E) ≠ a.2.blockHash) ||
    decide (a.2.prevHash ≠ expectedPrev E s)
  take s a :=
    match addBlock E depth a.1.now true a.2 (s.forget a.1.dropped) with
    | .ok (_, s') => .ok s'
    | .error e => .error (.add e)

/-- `client.get_blocks(next_idx, batch_size)`. -/
def getBlocks (peer : Peer) (batchSize k nextIdx : ℕ) :
    Except SyncError (List (Moment × Block)) :=
  (peer k nextIdx batchSize).elim (.error .request) .ok

/-- `sync_forward`, as far as `n` steps: requests and blocks looked at. -/
def syncForward (E : Env) (depth : Option ℕ) (batchSize : ℕ) (peer : Peer) (n : ℕ) (s : Session) :
    Follow.Pass Session (Moment × Block) SyncError :=
  Follow.run (syncFollower E depth) (getBlocks peer batchSize) n s

/-- What the call returns or raises. -/
def syncResult : Follow.Outcome (Moment × Block) SyncError → Except SyncError SyncResult
  | .caughtUp => .ok .caughtUp
  | .stuck => .ok .diverged
  | .refused _ => .ok .diverged
  | .failed _ e => .error e
  | .unanswered e => .error e

end Node

/-- `served`, the last first, were accepted one at a time on top of the chain `below`, of
which `chain` is what the tables then show: each has the hash of its header, links to the
tip at the time and passes `validate_block`. -/
inductive AcceptedAbove (E : Env) (S : Set Str) (below : List Block) :
    List (Moment × Block) → List Block → Prop
  | nil : AcceptedAbove E S below [] below
  | cons {served : List (Moment × Block)} {chain : List Block} {u : Session} {m : Moment}
      {b c : Block} (before : AcceptedAbove E S below served chain) (sound : u.Sound E S)
      (canonical : u.canonical = chain) (hashed : b.blockHash = some (b.getHeaderHash E))
      (linked : b.prevHash = Node.expectedPrev E u)
      (validated : (Node.chainFor u.db b).validateBlock E m.now b u = .ok u) (stored : c.Same b) :
      AcceptedAbove E S below ((m, b) :: served) (c :: chain)

theorem AcceptedAbove.suffix {E : Env} {S : Set Str} {below chain : List Block}
    {served : List (Moment × Block)} (h : AcceptedAbove E S below served chain) :
    below <:+ chain ∧ chain.length = below.length + served.length := by
  induction h with
  | nil => exact ⟨List.suffix_rfl, rfl⟩
  | cons _ _ _ _ _ _ _ ih =>
    exact ⟨ih.1.trans (List.suffix_cons _ _), by rw [List.length_cons, List.length_cons, ih.2]; rfl⟩

section

variable {E : Env} {S : Set Str} {depth : Option ℕ} {batchSize : ℕ} {peer : Peer}
  {s s' : Session} {a : Moment × Block}

theorem Node.refuses_eq_false : (Node.syncFollower E depth).refuses s a = false ↔
    a.2.blockHash = some (a.2.getHeaderHash E) ∧ a.2.prevHash = Node.expectedPrev E s := by
  simp only [syncFollower, Bool.or_eq_false_iff, decide_eq_false_iff_not, ne_eq, not_not]
  exact and_congr_left' eq_comm

/-- A block that is taken is added, or was swallowed. -/
theorem Node.take_eq_ok (h : (Node.syncFollower E depth).take s a = .ok s') :
    ∃ r, Node.addBlock E depth a.1.now true a.2 (s.forget a.1.dropped) = .ok (r, s') := by
  simp only [syncFollower] at h
  split at h
  · rename_i r t hadd
    cases h
    exact ⟨r, hadd⟩
  · cases h

theorem Node.take_of_tryAddBlock
    (h : Node.tryAddBlock E depth a.1.now a.2 (s.forget a.1.dropped) = .ok s') :
    (Node.syncFollower E depth).take s a = .ok s' := by
  simp only [syncFollower, addBlock, h]

theorem Node.take_eq_error {e : SyncError}
    (h : (Node.syncFollower E depth).take s a = .error e) :
    ∃ e', e = .add e' ∧
      Node.addBlock E depth a.1.now true a.2 (s.forget a.1.dropped) = .error e' := by
  simp only [syncFollower] at h
  split at h
  · cases h
  · rename_i e' hadd
    exact ⟨e', (Except.error.inj h).symm, hadd⟩

theorem Session.Sound.forgets (h : s.Sound E S) (dropped : ℕ → Bool) :
    (s.forget dropped).Sound E S := h.forget (s.forget_cache dropped)

theorem SessionRun.forgets {Q : Session → DateTime → Block → Prop} {s₀ : Session}
    (h : SessionRun E Q depth s₀ s) (dropped : ℕ → Bool) :
    SessionRun E Q depth s₀ (s.forget dropped) := h.forget (s.forget_cache dropped)

/-- What taking a block does to the canonical chain. -/
theorem Session.Sound.take (hS : E.CollisionFree (insert genesisText S)) (h : s.Sound E S)
    (hb : a.2.Hashed S) (hrefuses : (Node.syncFollower E depth).refuses s a = false)
    (htake : (Node.syncFollower E depth).take s a = .ok s') :
    s' = s.forget a.1.dropped ∨ (s'.Sound E S ∧
      (Node.chainFor s.db a.2).validateBlock E a.1.now a.2 (s.forget a.1.dropped) =
        .ok (s.forget a.1.dropped) ∧
      ∃ c, c.Same a.2 ∧ s'.canonical = c :: s.canonical) := by
  obtain ⟨r, hadd⟩ := Node.take_eq_ok htake
  have hsound := h.forgets a.1.dropped
  have hprev : a.2.prevHash = Node.expectedPrev E (s.forget a.1.dropped) :=
    (Node.refuses_eq_false.1 hrefuses).2
  rcases Node.addBlock_eq_ok hadd with ⟨-, htry⟩ | ⟨-, rfl⟩
  · obtain ⟨s₁, -, -, hval, -⟩ := Node.tryAddBlock_eq_ok.1 htry
    obtain rfl := (hsound.inv.validates hS hval).1
    obtain ⟨c, hsame, hcanonical⟩ := hsound.extend hS hb hprev htry
    exact Or.inr ⟨hsound.tryAddBlock hS hb htry, hval, c, hsame, hcanonical⟩
  · exact Or.inl rfl

/-- What is known of the blocks a peer serves. -/
def Peer.Serves (peer : Peer) (batchSize : ℕ) (P : Block → Prop) : Prop :=
  ∀ k fromIdx page, peer k fromIdx batchSize = some page → ∀ a ∈ page, P a.2

theorem Node.getBlocks_eq_ok {k fromIdx : ℕ} {page : List (Moment × Block)} :
    Node.getBlocks peer batchSize k fromIdx = .ok page ↔ peer k fromIdx batchSize = some page := by
  unfold getBlocks
  cases peer k fromIdx batchSize <;> simp

theorem Node.getBlocks_eq_error {k fromIdx : ℕ} {e : SyncError}
    (h : Node.getBlocks peer batchSize k fromIdx = .error e) :
    e = .request ∧ peer k fromIdx batchSize = none := by
  unfold getBlocks at h
  cases hp : peer k fromIdx batchSize with
  | none =>
    rw [hp] at h
    exact ⟨(Except.error.inj h).symm, rfl⟩
  | some page =>
    rw [hp] at h
    cases h

theorem SessionRun.sound_empty (hS : E.CollisionFree (insert genesisText S))
    (hrun : SessionRun E (fun _ _ b => b.Hashed S) depth {} s) : s.Sound E S :=
  hrun.sound hS (fun _ _ _ hb => hb) .empty

/-- What a pass keeps: it is a run of the node, and what it took is above the chain. -/
theorem SessionRun.syncForward (hS : E.CollisionFree (insert genesisText S))
    (hrun : SessionRun E (fun _ _ b => b.Hashed S) depth {} s)
    (hpeer : peer.Serves batchSize (Block.Hashed S)) (n : ℕ) :
    SessionRun E (fun _ _ b => b.Hashed S) depth {}
        (Node.syncForward E depth batchSize peer n s).store ∧
      ∃ served, AcceptedAbove E S s.canonical served
          (Node.syncForward E depth batchSize peer n s).store.canonical ∧
        ∀ a ∈ served, ∃ k fromIdx page, peer k fromIdx batchSize = some page ∧ a ∈ page := by
  refine (Follow.run_store (F := Node.syncFollower E depth) (s := s)
    (P := fun a => ∃ k fromIdx page, peer k fromIdx batchSize = some page ∧ a ∈ page)
    (I := fun u => SessionRun E (fun _ _ b => b.Hashed S) depth {} u ∧
      ∃ served, AcceptedAbove E S s.canonical served u.canonical ∧
        ∀ a ∈ served, ∃ k fromIdx page, peer k fromIdx batchSize = some page ∧ a ∈ page)
    (fun k fromIdx page hpage a ha => ⟨k, fromIdx, page, Node.getBlocks_eq_ok.1 hpage, ha⟩) ?_
    ⟨hrun, [], .nil, by simp⟩ n).1
  intro u a u' hI hserved hrefuses htake
  obtain ⟨hu, served, habove, hall⟩ := hI
  obtain ⟨k, fromIdx, page, hpage, ha⟩ := hserved
  have hb := hpeer k fromIdx page hpage a ha
  obtain ⟨r, hadd⟩ := Node.take_eq_ok htake
  refine ⟨(hu.forgets a.1.dropped).add hb hadd, ?_⟩
  have hsound := hu.sound_empty hS
  rcases hsound.take hS hb hrefuses htake with rfl | ⟨-, hval, c, hsame, hcanonical⟩
  · exact ⟨served, habove, hall⟩
  · obtain ⟨hhash, hprev⟩ := Node.refuses_eq_false.1 hrefuses
    refine ⟨a :: served, hcanonical ▸ ?_,
      List.forall_mem_cons.2 ⟨⟨k, fromIdx, page, hpage, ha⟩, hall⟩⟩
    exact .cons habove (hsound.forgets a.1.dropped) rfl hhash hprev hval hsame

/-- **Forward sync only extends the canonical chain.**  From any reachable state, whatever
the peer answers and at every moment of the pass, the canonical chain has the one before
the call at its lower end, and above it only blocks that were served, each with the hash
of its header, linked to the tip of the time and accepted on top of it. -/
theorem sync_forward_extends (hS : E.CollisionFree (insert genesisText S))
    (hrun : SessionRun E (fun _ _ b => b.Hashed S) depth {} s)
    (hpeer : peer.Serves batchSize (Block.Hashed S)) (n : ℕ) :
    SessionRun E (fun _ _ b => b.Hashed S) depth {}
        (Node.syncForward E depth batchSize peer n s).store ∧
      s.canonical <:+ (Node.syncForward E depth batchSize peer n s).store.canonical ∧
      ∃ served, AcceptedAbove E S s.canonical served
          (Node.syncForward E depth batchSize peer n s).store.canonical ∧
        ∀ a ∈ served, ∃ k fromIdx page, peer k fromIdx batchSize = some page ∧ a ∈ page := by
  obtain ⟨hstore, served, habove, hserved⟩ := hrun.syncForward hS hpeer n
  exact ⟨hstore, habove.suffix.1, served, habove, hserved⟩

namespace Sample

/-- A moment of the day after, when all row objects have been dropped. -/
def anew : Moment := ⟨day, fun _ => true⟩

/-- A peer on the other branch, which answers with all that it has. -/
def forkPeer : Peer := fun _ fromIdx _ => some (([genesis, right, top].drop fromIdx).map (anew, ·))

theorem state_run : SessionRun env (fun _ _ b => b.Hashed texts) none {} state :=
  SessionRun.processAll .refl fun _ => hashed (by decide)

theorem peer_serves : forkPeer.Serves 2 fun b => b.Hashed texts ∧ b.WellFormed env := by
  have hwell : ∀ b ∈ [genesis, right, top], b.WellFormed env := by
    simp only [← Block.blockErrors_eq_nil]
    decide +kernel
  have hsub : [genesis, right, top] ⊆ blocks := by decide
  intro k fromIdx page hpage a ha
  rw [← Option.some.inj hpage] at ha
  obtain ⟨b, hb, rfl⟩ := List.mem_map.1 ha
  have hmem := List.mem_of_mem_drop hb
  exact ⟨Block.hashed_of_mem (hsub hmem), hwell b hmem⟩

theorem tipBlock_state : Node.tipBlock state = some left := by
  have htip : stateDb.longestTip = some leftRow := by decide +kernel
  have hread : Block.fromDao stateDb leftRow = left := by decide +kernel
  rw [(state_run.sound_empty collisionFree).tipBlock_eq, state_db, htip, Option.map_some, hread]

/-- The tip is `left`: `top` does not link to it. -/
theorem peer_refused : (Node.syncForward env none 2 forkPeer 2 state).outcome =
    some (.refused (anew, top)) := by
  have hnext : Node.nextIdx state = 2 := by
    rw [Node.nextIdx, tipBlock_state]
    rfl
  have hrefuses : (Node.syncFollower env none).refuses state (anew, top) = true := by
    simp only [Node.syncFollower, Node.expectedPrev, tipBlock_state]
    decide +kernel
  generalize state = s at *
  have hrequest : Follow.request (Node.syncFollower env none) (Node.getBlocks forkPeer 2)
      ⟨s, [], [], none⟩ = ⟨s, [(anew, top)], [2], none⟩ := by
    simp only [Follow.request, List.head?_nil, reduceCtorEq, if_false]
    rw [show (Node.syncFollower env none).next s = 2 from hnext]
    rfl
  rw [Node.syncForward, Follow.run_succ, Follow.run_succ]
  rw [show Follow.step (Node.syncFollower env none) (Node.getBlocks forkPeer 2)
    (Follow.run (Node.syncFollower env none) (Node.getBlocks forkPeer 2) 0 s) = _ from hrequest]
  simp only [Follow.step]
  rw [Follow.entry, if_pos hrefuses]

end Sample

/-- An empty node adopts the three blocks of the peer, and asks again. -/
theorem sync_forward_extends_fork :
    (Node.syncForward Sample.env none 2 Sample.forkPeer 5 {}).store.canonical.map Block.blockHash =
        [Sample.top, Sample.right, Sample.genesis].map Block.blockHash ∧
      SessionRun Sample.env (fun _ _ b => b.Hashed Sample.texts) none {}
        (Node.syncForward Sample.env none 2 Sample.forkPeer 5 {}).store ∧
      ({} : Session).canonical <:+
        (Node.syncForward Sample.env none 2 Sample.forkPeer 5 {}).store.canonical ∧
      ∃ served, AcceptedAbove Sample.env Sample.texts ({} : Session).canonical served
          (Node.syncForward Sample.env none 2 Sample.forkPeer 5 {}).store.canonical ∧
        ∀ a ∈ served, ∃ k fromIdx page, Sample.forkPeer k fromIdx 2 = some page ∧ a ∈ page :=
  ⟨by decide +kernel, sync_forward_extends Sample.collisionFree .refl
    (fun k i page hp a ha => (Sample.peer_serves k i page hp a ha).1) 5⟩

/-- Taking a block never takes the height back. -/
theorem Session.Sound.nextIdx_take (hS : E.CollisionFree (insert genesisText S)) (h : s.Sound E S)
    (hb : a.2.Hashed S) (hrefuses : (Node.syncFollower E depth).refuses s a = false)
    (htake : (Node.syncFollower E depth).take s a = .ok s') :
    s'.Sound E S ∧ Node.nextIdx s ≤ Node.nextIdx s' := by
  rcases h.take hS hb hrefuses htake with rfl | ⟨h', -, c, -, hcanonical⟩
  · exact ⟨h.forgets a.1.dropped, le_refl _⟩
  · rw [h.nextIdx_eq hS, h'.nextIdx_eq hS, hcanonical]
    exact ⟨h', Nat.le_succ _⟩

/-- A block of well-formed fields that is taken is added. -/
theorem Session.Sound.nextIdx_lt_take (hS : E.CollisionFree (insert genesisText S))
    (h : s.Sound E S) (hb : a.2.Hashed S) (hw : a.2.WellFormed E)
    (hrefuses : (Node.syncFollower E depth).refuses s a = false)
    (htake : (Node.syncFollower E depth).take s a = .ok s') :
    s'.Sound E S ∧ Node.nextIdx s < Node.nextIdx s' := by
  obtain ⟨hhash, hprev⟩ := Node.refuses_eq_false.1 hrefuses
  obtain ⟨r, hadd⟩ := Node.take_eq_ok htake
  have hsound := h.forgets a.1.dropped
  unfold Node.addBlock at hadd
  split at hadd
  · rename_i t htry
    cases hadd
    obtain ⟨c, -, hcanonical⟩ := hsound.extend hS hb hprev htry
    have h' := hsound.tryAddBlock hS hb htry
    rw [h.nextIdx_eq hS, h'.nextIdx_eq hS, hcanonical]
    exact ⟨h', Nat.lt_succ_self _⟩
  · split_ifs at hadd with hswallow
    rw [s.forget_db, h.not_stored_of_link hS hb hw hhash hprev] at hswallow
    exact absurd hswallow.2.2 (by simp)

/-- **Forward sync always progresses.**  The heights asked for, latest first, fall
strictly towards the height before the call: no peer makes the node ask for the same
blocks twice, and all but one of its requests have made the chain longer. -/
theorem sync_forward_progresses (hS : E.CollisionFree (insert genesisText S))
    (hrun : SessionRun E (fun _ _ b => b.Hashed S) depth {} s)
    (hpeer : peer.Serves batchSize (Block.Hashed S)) (n : ℕ) :
    (Node.syncForward E depth batchSize peer n s).asked.Pairwise (· > ·) ∧
      (∀ i ∈ (Node.syncForward E depth batchSize peer n s).asked, s.canonical.length ≤ i ∧
        i ≤ (Node.syncForward E depth batchSize peer n s).store.canonical.length) ∧
      (Node.syncForward E depth batchSize peer n s).asked.length ≤
        (Node.syncForward E depth batchSize peer n s).store.canonical.length -
          s.canonical.length + 1 := by
  have hsound := hrun.sound_empty hS
  obtain ⟨hstore, served, habove, -⟩ := hrun.syncForward hS hpeer n
  have hsound' := hstore.sound_empty hS
  have hlen := habove.suffix.1.length_le
  have hord : Follow.Ordered (Node.syncFollower E depth) s
      (Node.syncForward E depth batchSize peer n s) :=
    Follow.asked_run (I := Session.Sound E S) (P := fun a => a.2.Hashed S)
      (fun k fromIdx page hpage => hpeer k fromIdx page (Node.getBlocks_eq_ok.1 hpage))
      (fun _ _ _ h hb hrefuses htake => h.nextIdx_take hS hb hrefuses htake) hsound n
  have hnext : (Node.syncFollower E depth).next s = s.canonical.length := hsound.nextIdx_eq hS
  have hnext' : (Node.syncFollower E depth).next
      (Node.syncForward E depth batchSize peer n s).store =
        (Node.syncForward E depth batchSize peer n s).store.canonical.length :=
    hsound'.nextIdx_eq hS
  refine ⟨hord.sorted, fun i hi => ⟨hnext ▸ hord.from_ i hi, hnext' ▸ hord.behind i hi⟩, ?_⟩
  have hle := hord.length_asked
  rw [hnext, hnext'] at hle
  omega

/-- The same pass: it asks for the blocks from height 0, then for those from height 3. -/
theorem sync_forward_progresses_fork :
    (Node.syncForward Sample.env none 2 Sample.forkPeer 5 {}).asked = [3, 0] ∧
      (Node.syncForward Sample.env none 2 Sample.forkPeer 5 {}).asked.Pairwise (· > ·) ∧
      (∀ i ∈ (Node.syncForward Sample.env none 2 Sample.forkPeer 5 {}).asked,
        ({} : Session).canonical.length ≤ i ∧
        i ≤ (Node.syncForward Sample.env none 2 Sample.forkPeer 5 {}).store.canonical.length) ∧
      (Node.syncForward Sample.env none 2 Sample.forkPeer 5 {}).asked.length ≤
        (Node.syncForward Sample.env none 2 Sample.forkPeer 5 {}).store.canonical.length -
          ({} : Session).canonical.length + 1 :=
  ⟨by decide +kernel, sync_forward_progresses Sample.collisionFree .refl
    (fun k i page hp a ha => (Sample.peer_serves k i page hp a ha).1) 5⟩

/-- **What a pass returns.**  Over blocks of well-formed fields, `'caught_up'` answers a
page without blocks for the height of the tip; `'diverged'` a block that has not the
hash of its header or does not link to the tip, and never a page that did not move the
tip; an exception is the peer's, or that of a block that does link to the tip. -/
theorem sync_forward_result (hS : E.CollisionFree (insert genesisText S))
    (hrun : SessionRun E (fun _ _ b => b.Hashed S) depth {} s)
    (hpeer : peer.Serves batchSize fun b => b.Hashed S ∧ b.WellFormed E) {n : ℕ}
    {o : Follow.Outcome (Moment × Block) SyncError}
    (ho : (Node.syncForward E depth batchSize peer n s).outcome = some o) :
    (Node.syncResult o = .ok .caughtUp → ∃ k, peer k
        (Node.syncForward E depth batchSize peer n s).store.canonical.length batchSize = some []) ∧
      (Node.syncResult o = .ok .diverged → ∃ a, o = .refused a ∧
        (a.2.blockHash ≠ some (a.2.getHeaderHash E) ∨ a.2.prevHash ≠
          Node.expectedPrev E (Node.syncForward E depth batchSize peer n s).store)) ∧
      (Node.syncResult o = .error .request → ∃ k, peer k
        (Node.syncForward E depth batchSize peer n s).store.canonical.length batchSize = none) ∧
      ∀ e, Node.syncResult o = .error (.add e) → ∃ a, o = .failed a (.add e) ∧
        a.2.blockHash = some (a.2.getHeaderHash E) ∧ a.2.prevHash =
          Node.expectedPrev E (Node.syncForward E depth batchSize peer n s).store ∧
        Node.addBlock E depth a.1.now true a.2
          ((Node.syncForward E depth batchSize peer n s).store.forget a.1.dropped) = .error e := by
  have hsound := hrun.sound_empty hS
  have hsound' := (hrun.syncForward hS (fun k i page hp a ha => (hpeer k i page hp a ha).1)
    n).1.sound_empty hS
  have hstuck : (Node.syncForward E depth batchSize peer n s).outcome ≠ some .stuck :=
    Follow.not_stuck_run (I := Session.Sound E S)
      (P := fun a => a.2.Hashed S ∧ a.2.WellFormed E)
      (fun k fromIdx page hpage => hpeer k fromIdx page (Node.getBlocks_eq_ok.1 hpage))
      (fun _ _ _ h hb hrefuses htake => h.nextIdx_lt_take hS hb.1 hb.2 hrefuses htake) hsound n
  have hmeans : Follow.Means (Node.syncFollower E depth) (Node.getBlocks peer batchSize)
      (Node.syncForward E depth batchSize peer n s) o := Follow.outcome_run n ho
  have hnext' : (Node.syncFollower E depth).next
      (Node.syncForward E depth batchSize peer n s).store =
        (Node.syncForward E depth batchSize peer n s).store.canonical.length :=
    hsound'.nextIdx_eq hS
  cases o with
  | stuck => exact absurd ho hstuck
  | caughtUp =>
    obtain ⟨k, hk⟩ := hmeans
    rw [hnext', Node.getBlocks_eq_ok] at hk
    exact ⟨fun _ => ⟨k, hk⟩, by simp [Node.syncResult], by simp [Node.syncResult],
      by simp [Node.syncResult]⟩
  | refused a =>
    refine ⟨by simp [Node.syncResult], fun _ => ⟨a, rfl, ?_⟩, by simp [Node.syncResult],
      by simp [Node.syncResult]⟩
    by_contra hboth
    rw [not_or, not_not, not_not] at hboth
    exact absurd (hmeans.symm.trans (Node.refuses_eq_false.2 hboth)) (by simp)
  | failed a e =>
    obtain ⟨hrefuses, htake⟩ := hmeans
    obtain ⟨e', rfl, hadd⟩ := Node.take_eq_error htake
    refine ⟨by simp [Node.syncResult], by simp [Node.syncResult], by simp [Node.syncResult],
      fun e he => ?_⟩
    obtain rfl : e' = e := by simpa [Node.syncResult] using he
    exact ⟨a, rfl, (Node.refuses_eq_false.1 hrefuses).1, (Node.refuses_eq_false.1 hrefuses).2, hadd⟩
  | unanswered e =>
    obtain ⟨k, hk⟩ := hmeans
    rw [hnext'] at hk
    obtain ⟨rfl, hnone⟩ := Node.getBlocks_eq_error hk
    exact ⟨by simp [Node.syncResult], by simp [Node.syncResult], fun _ => ⟨k, hnone⟩,
      by simp [Node.syncResult]⟩

/-- The peer of the fork: the pass ends diverged, at a block that does not link. -/
theorem sync_forward_result_fork :
    Node.syncResult (.refused (Sample.anew, Sample.top)) = .ok .diverged ∧
      (Sample.top.blockHash ≠ some (Sample.top.getHeaderHash Sample.env) ∨ Sample.top.prevHash ≠
        Node.expectedPrev Sample.env
          (Node.syncForward Sample.env none 2 Sample.forkPeer 2 Sample.state).store) := by
  obtain ⟨a, ha, hrefused⟩ := (sync_forward_result Sample.collisionFree Sample.state_run
    Sample.peer_serves Sample.peer_refused).2.1 rfl
  obtain rfl : (Sample.anew, Sample.top) = a := Follow.Outcome.refused.inj ha
  exact ⟨rfl, hrefused⟩

end

end GumptionChain
