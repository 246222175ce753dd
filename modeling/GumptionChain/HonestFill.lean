import GumptionChain.FillChain
import GumptionChain.HonestPeer

/-!
# Filling a gap from honest peers

A node hears of the tip of another node's chain, of which it has a part: what it walks back
through is the part that it lacks, and the batch replays it.

* `Node.walkBack_honest` — the walk stages the missing part, if the depth allows;
* `Node.applyStaged_replays` — the batch adds it, lowest first;
* `fill_chain_converges` — so the node ends with the chain exactly if the missing part is
  no longer than the depth.
-/

namespace GumptionChain

open Database

/-- What peers answer that tell of one chain, tip first: somebody has each block that is
asked for, and nobody another one with its hash. -/
structure Honest (J : JsonLib) (E : Env) (chain : List Block)
    (answers : ℕ → List (Option Str)) : Prop where
  answered : ∀ k c, chain[k + 1]? = some c → some c.toJson ∈ answers k
  only : ∀ k c text d, chain[k + 1]? = some c → some text ∈ answers k →
    Block.fromJson J E text = .ok d → d.blockHash = c.blockHash → d = c

/-- The row of a block with all its fields. -/
def Block.staged (b : Block) : ChainFillBlock := ⟨b.blockHash.getD [], b.idx.getD 0, b.toJson⟩

section

variable {E : Env} {S : Set Str} {J : JsonLib} {depth depth' : Option ℕ} {now : DateTime}
  {e s : Session} {answers : ℕ → List (Option Str)} {moments : ℕ → Moment} {b c : Block}
  {below mid rest : List Block} {maxChainFillDepth n k : ℕ} {lastBlock : Block}

/-! ## The blocks of the chain -/

/-- From the lowest on, heights are places. -/
theorem NodeRun.idx_of_suffix (hS : E.CollisionFree (insert genesisText S))
    (he : NodeRun E (AuditedAddition S now) depth' e) (hsuf : c :: below <:+ e.canonical) :
    c.idx = some below.length := by
  have hsound : e.Sound E S := he.session.sound hS (fun _ _ _ hb => hb.1) .empty
  cases ht : e.db.longestTip with
  | none =>
    rw [Session.canonical, ht] at hsuf
    exact absurd (List.suffix_nil.1 hsuf) (List.cons_ne_nil _ _)
  | some t =>
    rw [Session.canonical_of_tip ht] at hsuf
    have htree := hsound.inv.tree hS
    obtain ⟨r, hr, rfl, hpath⟩ := htree.pathBlocks_of_suffix (hsound.best_of_tip ht).1 hsuf
    have hlen := htree.length_path hsound.inv.ledger.linked.root hr
    have hmap := congrArg List.length hpath
    rw [pathBlocks, List.length_map, hlen, List.length_cons] at hmap
    rw [← Nat.succ.inj hmap]
    rfl

/-- A block of the chain reads back from its text. -/
theorem NodeRun.fromJson_toJson (hS : E.CollisionFree (insert genesisText S))
    (he : NodeRun E (AuditedAddition S now) depth' e) (hb : b ∈ e.canonical)
    (hj : J.loads b.toJson = .ok b.toDict) : Block.fromJson J E b.toJson = .ok b := by
  have hwell := ((he.accepted_canonical hS).mem b hb).1.wellFormed
  rw [e.canonical_eq_map] at hb
  obtain ⟨r, -, rfl⟩ := List.mem_map.1 hb
  unfold Block.fromJson
  rw [hj]
  exact Block.fromDict_fromDao e.db r hwell

/-- A replayable block can be staged. -/
theorem Replayable.chainFillBlock_eq (hb : Replayable E S now below b) :
    Node.chainFillBlock E b = some b.staged := by
  obtain ⟨i, hi⟩ := hb.on.valid.wellFormed.idx
  obtain ⟨h, hh, hmill⟩ := hb.on.valid.wellFormed.blockHash
  have hlen : h.length ≤ 100 := by
    rw [validateMillHash_length hmill]
    decide
  unfold Node.chainFillBlock Block.staged
  rw [hh, hi]
  exact if_pos ⟨hlen, hb.idx i hi⟩

/-! ## What is stored -/

/-- The part that a node has is stored there. -/
theorem Session.Sound.stored_of_same (hS : E.CollisionFree (insert genesisText S)) (h : s.Sound E S)
    (hsame : List.Forall₂ Block.Same s.canonical below) (hc : c ∈ below) :
    (s.db.blockByHash c.blockHash).isSome = true := by
  obtain ⟨i, hi, rfl⟩ := List.mem_iff_getElem.1 hc
  have hi' : i < s.canonical.length := hsame.length_eq.symm ▸ hi
  have hpair : (s.canonical[i]).Same below[i] := hsame.get hi' hi
  have hmem : s.canonical[i] ∈ s.canonicalRows.map (Block.fromDao s.db) :=
    s.canonical_eq_map ▸ List.getElem_mem hi'
  obtain ⟨r, hr, hrow⟩ := List.mem_map.1 hmem
  have hblk := h.mem_of_canonicalRows hS hr
  rw [← hpair.blockHash, ← hrow]
  exact Option.isSome_iff_exists.2 ⟨r, (blockByHash_eq_some h.inv.ledger.schema).2
    ⟨h.inv.ledger.blockHash_ne_nil hblk, hblk, rfl⟩⟩

/-- A block above the height of the tip is not stored. -/
theorem Session.Sound.not_stored_of_idx (hS : E.CollisionFree (insert genesisText S))
    (h : s.Sound E S) (hv : c.Valid E) (hc : c.Hashed S) {i : ℕ} (hi : c.idx = some i)
    (hle : s.canonical.length ≤ i) : s.db.blockByHash c.blockHash = none := by
  by_contra hstored
  obtain ⟨r, hr⟩ := Option.ne_none_iff_exists'.1 hstored
  have hmem := (blockByHash_mem hr).1
  have hidx : i = r.idx := by
    have hshows := (h.inv.ledger.shows hS hv hc hr).idx
    rw [hi] at hshows
    exact Option.some.inj hshows
  obtain ⟨t, ht, hbest⟩ := h.exists_longestTip hmem
  have hlen := h.length_canonical hS ht
  rcases Prod.Lex.toLex_le_toLex.1 (hbest.2 r hmem) with hlt | ⟨heq, -⟩
  · exact absurd (OrderDual.toDual_lt_toDual.1 hlt) (by omega)
  · exact absurd (OrderDual.toDual.injective heq) (by omega)

/-- The part that a node lacks is not stored. -/
theorem Session.Sound.not_stored_of_suffix (hS : E.CollisionFree (insert genesisText S))
    (he : NodeRun E (AuditedAddition S now) depth' e) (h : s.Sound E S)
    (hsame : List.Forall₂ Block.Same s.canonical below)
    (hsuf : c :: (mid ++ below) <:+ e.canonical) : s.db.blockByHash c.blockHash = none := by
  obtain ⟨-, hc⟩ := he.replayable hS hsuf
  refine h.not_stored_of_idx hS hc.on.valid hc.on.hashed (he.idx_of_suffix hS hsuf) ?_
  rw [hsame.length_eq, List.length_append]
  exact Nat.le_add_left _ _

/-! ## The walk -/

/-- Where the answers agree, a request finds the block. -/
theorem Node.requestBlock_of_only (hc : some c.toJson ∈ answers k)
    (hread : Block.fromJson J E c.toJson = .ok c)
    (honly : ∀ text d, some text ∈ answers k → Block.fromJson J E text = .ok d →
      d.blockHash = c.blockHash → d = c) (hv : c.Valid E) :
    requestBlock J E (c.blockHash.getD []) (answers k) = some c := by
  have hhash : c.blockHash = some (c.blockHash.getD []) := by rw [hv.hashed, Option.getD_some]
  cases hr : requestBlock J E (c.blockHash.getD []) (answers k) with
  | none =>
    have hnone := List.findSome?_eq_none_iff.1 hr (some c.toJson) hc
    have hheader : c.getHeaderHash E = c.blockHash.getD [] := by rw [hv.hashed, Option.getD_some]
    simp only [Option.bind_eq_bind, Option.bind_some, hread, Except.toOption] at hnone
    rw [if_pos ⟨hhash, hheader⟩] at hnone
    cases hnone
  | some p =>
    obtain ⟨⟨text, htext, hp⟩, hphash, -⟩ := requestBlock_eq_some hr
    rw [honly text p htext hp (hphash.trans hhash.symm)]

theorem Node.walkBack_of_anchored (h : anchored E s.db b = true) :
    walkBack J E s.db answers n k b = (chainFillBlock E b).map ([·]) := by
  cases n <;> rw [walkBack, if_pos h]

/-- The walk ends above the part that the node has. -/
theorem Session.Sound.anchored_above (hS : E.CollisionFree (insert genesisText S))
    (h : s.Sound E S) (hsame : List.Forall₂ Block.Same s.canonical below)
    (hb : Replayable E S now below b) : Node.anchored E s.db b = true := by
  unfold Node.anchored
  cases below with
  | nil =>
    have hgenesis : isGenesisBlock E b = true := ((Chain.validateLink_eq_ok hb.on.link).1 rfl).1
    rw [hgenesis, Bool.or_true]
  | cons q below =>
    have hstored := h.stored_of_same hS hsame (c := q) List.mem_cons_self
    rw [Block.fromDb, Option.isSome_map, hb.on.prev q rfl, hstored, Bool.or_true, Bool.true_or]

/-- It does not end below a block that the node lacks. -/
theorem Node.not_anchored (hS : E.CollisionFree (insert genesisText S)) (hc : c.Valid E)
    (hcS : c.Hashed S) (hprev : b.prevHash = c.blockHash)
    (hnew : s.db.blockByHash c.blockHash = none) : anchored E s.db b = false := by
  have hgenesis : isGenesisBlock E b = false :=
    decide_eq_false fun h => AcceptedChain.blockHash_ne_genesis hS hc hcS (hprev.symm.trans h)
  have hsome : b.prevHash.isNone = false := by rw [hprev, hc.hashed, Option.isNone_some]
  rw [anchored, hgenesis, hsome, Block.fromDb, hprev, hnew]
  rfl

/-- **The walk stages what the node lacks**, if the depth allows. -/
theorem Node.walkBack_honest (hS : E.CollisionFree (insert genesisText S))
    (he : NodeRun E (AuditedAddition S now) depth' e) (h : s.Sound E S)
    (hj : ∀ b ∈ e.canonical, J.loads b.toJson = .ok b.toDict)
    (hsame : List.Forall₂ Block.Same s.canonical below)
    (hhonest : Honest J E e.canonical answers) :
    ∀ {mid front : List Block} {b : Block} {n : ℕ}, front ++ b :: (mid ++ below) = e.canonical →
      walkBack J E s.db answers n front.length b =
        if mid.length ≤ n then some ((b :: mid).map Block.staged) else none := by
  intro mid
  induction mid with
  | nil =>
    intro front b n hfront
    obtain ⟨-, hb⟩ := he.replayable hS (⟨front, hfront⟩ : b :: below <:+ e.canonical)
    rw [walkBack_of_anchored (h.anchored_above hS hsame hb), hb.chainFillBlock_eq]
    exact (if_pos (Nat.zero_le n)).symm
  | cons c mid ih =>
    intro front b n hfront
    obtain ⟨-, hb⟩ := he.replayable hS (⟨front, hfront⟩ : b :: (c :: mid ++ below) <:+ e.canonical)
    have hrest : front ++ [b] ++ c :: (mid ++ below) = e.canonical := by
      rw [← hfront]
      simp
    have hsuf : c :: (mid ++ below) <:+ e.canonical := ⟨_, hrest⟩
    obtain ⟨-, hc⟩ := he.replayable hS hsuf
    have hprev : b.prevHash = c.blockHash := hb.on.prev c rfl
    have hnew := h.not_stored_of_suffix hS he hsame hsuf
    have hanchored := not_anchored hS hc.on.valid hc.on.hashed hprev hnew
    have hplace : e.canonical[front.length + 1]? = some c := by
      rw [← hrest, List.getElem?_append_right (by simp)]
      simp
    have hrequest : requestBlock J E (b.prevHash.getD []) (answers front.length) = some c := by
      rw [hprev]
      have hmem := hsuf.subset List.mem_cons_self
      exact requestBlock_of_only (hhonest.answered _ _ hplace)
        (he.fromJson_toJson hS hmem (hj c hmem)) (fun text d => hhonest.only _ _ text d hplace)
        hc.on.valid
    cases n with
    | zero =>
      rw [walkBack, hanchored]
      rfl
    | succ n =>
      have hstep := ih (n := n) hrest
      rw [List.length_append, List.length_singleton] at hstep
      rw [walkBack, hanchored, if_neg (by simp), hb.chainFillBlock_eq, hrequest]
      simp only [Option.bind_eq_bind, Option.bind_some, hstep, List.length_cons,
        Nat.add_le_add_iff_right]
      split_ifs <;> rfl

/-! ## The batch -/

/-- The heights of the chain fall from the tip on. -/
theorem NodeRun.pairwise_staged (hS : E.CollisionFree (insert genesisText S))
    (he : NodeRun E (AuditedAddition S now) depth' e) :
    ∀ {l : List Block}, l ++ below <:+ e.canonical →
      l.Pairwise fun c d => d.staged.idx < c.staged.idx := by
  have hidx : ∀ {c : Block} {cs : List Block}, c :: cs <:+ e.canonical →
      c.staged.idx = cs.length := by
    intro c cs hsuf
    rw [Block.staged, he.idx_of_suffix hS hsuf, Option.getD_some]
  intro l
  induction l with
  | nil => exact fun _ => List.Pairwise.nil
  | cons c l ih =>
    intro hsuf
    refine List.pairwise_cons.2 ⟨fun d hd => ?_, ih ((List.suffix_cons _ _).trans hsuf)⟩
    obtain ⟨l₁, l₂, rfl⟩ := List.append_of_mem hd
    have hlower : d :: (l₂ ++ below) <:+ c :: (l₁ ++ d :: l₂) ++ below := ⟨c :: l₁, by simp⟩
    have hupper : c :: (l₁ ++ d :: l₂ ++ below) <:+ e.canonical := hsuf
    rw [hidx (hlower.trans hsuf), hidx hupper]
    simp only [List.length_append, List.length_cons]
    omega

/-- The batch goes up the chain. -/
theorem NodeRun.orderBy_staged (hS : E.CollisionFree (insert genesisText S))
    (he : NodeRun E (AuditedAddition S now) depth' e) {l : List Block}
    (hsuf : l ++ below <:+ e.canonical) :
    Table.orderBy ChainFillBlock.idx (l.map Block.staged) = l.reverse.map Block.staged := by
  have hfalls := he.pairwise_staged hS hsuf
  rw [Table.orderBy_eq_of_perm (l.map Block.staged).reverse_perm.symm, ← List.map_reverse]
  · refine Table.orderBy_eq_self (List.pairwise_map.2 (List.pairwise_reverse.2 ?_))
    exact hfalls.imp le_of_lt
  · rw [List.map_map]
    exact List.pairwise_map.2 (hfalls.imp fun hlt => hlt.ne')

/-- **The batch replays the chain**, and signals every block of it. -/
theorem Node.applyStaged_replays (depth : Option ℕ) (hS : E.CollisionFree (insert genesisText S))
    (he : NodeRun E (AuditedAddition S now) depth' e) (hfree : ∀ b ∈ e.canonical, b.Unchained)
    (hj : ∀ b ∈ e.canonical, J.loads b.toJson = .ok b.toDict)
    (hclock : ∀ k, now.toSeconds ≤ (moments k).now.toSeconds) :
    ∀ {rest chain : List Block} {u : Session} {k : ℕ}, rest.reverse ++ chain = e.canonical →
      u.Sound E S → List.Forall₂ Block.Same u.canonical chain →
      ∃ u', applyStaged J E depth moments k (rest.map Block.staged) u = .ok (rest, u') ∧
        List.Forall₂ Block.Same u'.canonical e.canonical := by
  intro rest
  induction rest with
  | nil =>
    intro chain u k hchain _ hsame
    exact ⟨u, rfl, hchain ▸ hsame⟩
  | cons b rest ih =>
    intro chain u k hchain hu hsame
    rw [List.reverse_cons, List.append_assoc, List.singleton_append] at hchain
    have hsuf : b :: chain <:+ e.canonical := ⟨_, hchain⟩
    have hb := hsuf.subset List.mem_cons_self
    obtain ⟨-, hreplayable⟩ := he.replayable hS hsuf
    have hu' := hu.forgets (moments k).dropped
    obtain ⟨u₁, hadd, hu₁, hsame₁⟩ : ∃ u₁,
        tryAddBlock E depth (moments k).now b (u.forget (moments k).dropped) = .ok u₁ ∧
        u₁.Sound E S ∧ List.Forall₂ Block.Same u₁.canonical (b :: chain) :=
      hu'.replays hS hsame hreplayable (hclock k) (hfree b hb)
    obtain ⟨u', hrest, hend⟩ := ih (k := k + 1) hchain hu₁ hsame₁
    refine ⟨u', ?_, hend⟩
    have hread : Block.fromJson J E b.staged.blockJson = .ok b := he.fromJson_toJson hS hb (hj b hb)
    have hbatch : addBlock E depth (moments k).now false b (u.forget (moments k).dropped) =
        .ok (some b, u₁) := by
      rw [addBlock, hadd]
    rw [List.map_cons, applyStaged, hread, ok_bind, hbatch, ok_bind, Block.persisted_iff,
      hu.new_of_replayable hS hsame hreplayable]
    simp only [hrest, ok_bind]
    rfl

/-- **A gap is filled exactly if it is no longer than the depth.**  Another node has added
blocks with canonical timestamps, by `now`, and no transaction of its chain spends another
of its block.  A node whose canonical chain is a part of that one, whose clock does not
fall behind `now`, and that hears of the tip walks back through what it lacks: if that is
no more than `MAX_CHAIN_FILL_DEPTH` and one blocks, it ends with the whole chain and signals
each block that it lacked, lowest first; else it stays as it was. -/
theorem fill_chain_converges (hS : E.CollisionFree (insert genesisText S))
    (he : NodeRun E (AuditedAddition S now) depth' e) (hfree : ∀ b ∈ e.canonical, b.Unchained)
    (hj : ∀ b ∈ e.canonical, J.loads b.toJson = .ok b.toDict)
    (hhonest : Honest J E e.canonical answers)
    (hs : SessionRun E (fun _ _ b => b.Hashed S) depth {} s)
    (hlacks : lastBlock :: (mid ++ below) = e.canonical)
    (hsame : List.Forall₂ Block.Same s.canonical below)
    (hclock : ∀ k, now.toSeconds ≤ (moments k).now.toSeconds) :
    (mid.length ≤ maxChainFillDepth → ∃ s',
      Node.fillChain J E depth maxChainFillDepth answers moments lastBlock s =
          ⟨true, (lastBlock :: mid).reverse, s'⟩ ∧
        List.Forall₂ Block.Same s'.canonical e.canonical) ∧
      (maxChainFillDepth < mid.length →
        Node.fillChain J E depth maxChainFillDepth answers moments lastBlock s = ⟨false, [], s⟩) := by
  have hsound := hs.sound_empty hS
  have hsuf : lastBlock :: (mid ++ below) <:+ e.canonical := hlacks ▸ List.suffix_rfl
  have hnew := hsound.not_stored_of_suffix hS he hsame hsuf
  have hfront : [] ++ lastBlock :: (mid ++ below) = e.canonical := hlacks
  have hwalk := Node.walkBack_honest (n := maxChainFillDepth) hS he hsound hj hsame hhonest hfront
  rw [List.length_nil] at hwalk
  have hpersisted : (truthy lastBlock.blockHash &&
      (Block.fromDb s.db lastBlock.blockHash).isSome) = false := by
    rw [Block.persisted_iff, hnew]
    rfl
  unfold Node.fillChain
  rw [hpersisted, hwalk]
  refine ⟨fun hdepth => ?_, fun hdepth => ?_⟩
  · have hwhole : (lastBlock :: mid).reverse.reverse ++ below = e.canonical := by
      rw [List.reverse_reverse, ← hlacks]
      rfl
    obtain ⟨s', happly, hend⟩ := Node.applyStaged_replays (k := 0) depth hS he hfree hj hclock
      hwhole hsound hsame
    have hparts : lastBlock :: mid ++ below <:+ e.canonical := hsuf
    refine ⟨s', ?_, hend⟩
    rw [if_pos hdepth]
    simp only [Bool.false_eq_true, if_false]
    rw [he.orderBy_staged hS hparts, happly]
  · rw [if_neg (not_le.2 hdepth)]
    rfl

end

/-- Peers that tell of the branch of `left`. -/
theorem Sample.honest_genesis :
    Honest (jsonLib blocks) env state.canonical fun _ => [none, some genesis.toJson] := by
  rw [canonical_state]
  refine ⟨fun k c hc => ?_, fun k c text d hc htext hd _ => ?_⟩
  · cases k with
    | zero =>
      obtain rfl : genesis = c := by simpa using hc
      simp
    | succ k => simp at hc
  · cases k with
    | zero =>
      obtain rfl : genesis = c := by simpa using hc
      obtain rfl : text = genesis.toJson := by simpa using htext
      exact Except.ok.inj (hd.symm.trans (fromJson_toJson genesis (by simp [blocks])))
    | succ k => simp at hc

/-- An empty node hears of `left`. -/
theorem fill_chain_converges_left :
    ([Sample.genesis].length ≤ 10 → ∃ s',
      Node.fillChain (Sample.jsonLib Sample.blocks) Sample.env none 10
          (fun _ => [none, some Sample.genesis.toJson]) (fun _ => Sample.anew) Sample.left {} =
        ⟨true, [Sample.left, Sample.genesis].reverse, s'⟩ ∧
      List.Forall₂ Block.Same s'.canonical Sample.state.canonical) ∧
    (10 < [Sample.genesis].length →
      Node.fillChain (Sample.jsonLib Sample.blocks) Sample.env none 10
          (fun _ => [none, some Sample.genesis.toJson]) (fun _ => Sample.anew) Sample.left {} =
        ⟨false, [], {}⟩) := by
  have hlacks : Sample.left :: ([Sample.genesis] ++ []) = Sample.state.canonical :=
    Sample.canonical_state.symm
  refine fill_chain_converges Sample.collisionFree Sample.state_audited Sample.state_unchained ?_
    Sample.honest_genesis .refl hlacks .nil fun _ => le_refl _
  rw [Sample.canonical_state]
  intro b hb
  have hmem : b ∈ Sample.blocks := by
    rcases List.mem_pair.1 hb with rfl | rfl
    all_goals simp [Sample.blocks]
  exact (Sample.stageable b hmem).loads

end GumptionChain
