import GumptionChain.Assembly
import GumptionChain.Parsing
import GumptionChain.SyncForward

/-!
# Filling a gap

`Node.fill_chain`: a block whose predecessor is not stored sends the node back through
its ancestors, asked for one at a time by their hashes, until one links to a stored block;
what was staged on the way is then added in one transaction, lowest first.

* `Node.walkBack` — the walk, to a depth that the configuration bounds, and
  `walkBack_steered`: what it stages is settled by the tip, whoever answers;
* `Node.applyStaged` — the batch, and `applyStaged_spec`: what it adds to the tables;
* `fill_chain_whole` — a fill that succeeds stores the tip on an accepted chain, tells of
  the blocks that it stored and no others, and one that fails leaves nothing behind;
* `fill_chain_steered` — two fills from one state that succeed leave the same blocks and
  the same tip, whatever the peers answered.
-/

namespace GumptionChain

open Database

/-- `ChainFillBlock`: a staged block. -/
structure ChainFillBlock where
  blockHash : Str
  idx : ℕ
  blockJson : Str

namespace Node

/-- `request_block`, over the answers of the peers in turn: the text of an answer, `none`
for an error and for any status but 200. -/
def requestBlock (J : JsonLib) (E : Env) (blockHash : Str) (answers : List (Option Str)) :
    Option Block :=
  answers.findSome? fun answer => do
    let text ← answer
    let b ← (Block.fromJson J E text).toOption
    if b.blockHash = some blockHash ∧ b.getHeaderHash E = blockHash then some b else none

/-- `ChainFillBlock(...).commit()`: none of the first two columns is nullable. -/
def chainFillBlock (E : Env) (b : Block) : Option ChainFillBlock := do
  let blockHash ← b.blockHash
  let idx ← b.idx
  if blockHash.length ≤ 100 ∧ idx ≤ E.integerMax then some ⟨blockHash, idx, b.toJson⟩ else none

/-- The walk ends here: `prev_hash is None or Block.from_db(prev_hash)`, or a genesis. -/
def anchored (E : Env) (db : Database) (b : Block) : Bool :=
  b.prevHash.isNone || (Block.fromDb db b.prevHash).isSome || isGenesisBlock E b

/-- The loop of `fill_chain` that stages blocks, from a block on: with how many more requests
it may make, and how many it has made.  The `k`-th request gets `answers k`. -/
def walkBack (J : JsonLib) (E : Env) (db : Database) (answers : ℕ → List (Option Str)) :
    ℕ → ℕ → Block → Option (List ChainFillBlock)
  | 0, _, b => if anchored E db b then (chainFillBlock E b).map ([·]) else none
  | remaining + 1, requested, b =>
    if anchored E db b then (chainFillBlock E b).map ([·])
    else do
      let row ← chainFillBlock E b
      let prev ← requestBlock J E (b.prevHash.getD []) (answers requested)
      let rows ← walkBack J E db answers remaining (requested + 1) prev
      return row :: rows

/-- The loop of `fill_chain` that adds what was staged, and the blocks that it has to tell
of: those that were not stored yet. -/
def applyStaged (J : JsonLib) (E : Env) (depth : Option ℕ) (moments : ℕ → Moment) :
    ℕ → List ChainFillBlock → Session → Except Err (List Block × Session)
  | _, [], s => .ok ([], s)
  | k, row :: rest, s => do
    let b ← Block.fromJson J E row.blockJson
    let alreadyPersisted := truthy b.blockHash && (Block.fromDb s.db b.blockHash).isSome
    let (_, s₁) ← addBlock E depth (moments k).now false b (s.forget (moments k).dropped)
    let (applied, s₂) ← applyStaged J E depth moments (k + 1) rest s₁
    return (if alreadyPersisted then applied else b :: applied, s₂)

/-- What a call comes to: its return value, the blocks it signals and the tables. -/
structure Fill where
  filled : Bool
  signalled : List Block
  session : Session

/-- `fill_chain`.  Whatever fails after the first addition rolls the batch back; what the
listeners of `new_block` do is not part of it. -/
def fillChain (J : JsonLib) (E : Env) (depth : Option ℕ) (maxChainFillDepth : ℕ)
    (answers : ℕ → List (Option Str)) (moments : ℕ → Moment) (lastBlock : Block) (s : Session) :
    Fill :=
  if truthy lastBlock.blockHash && (Block.fromDb s.db lastBlock.blockHash).isSome then
    ⟨true, [], s⟩
  else
    match walkBack J E s.db answers maxChainFillDepth 0 lastBlock with
    | none => ⟨false, [], s⟩
    | some rows =>
      match applyStaged J E depth moments 0 (Table.orderBy ChainFillBlock.idx rows) s with
      | .ok (applied, s') => ⟨true, applied, s'⟩
      | .error _ => ⟨false, [], s⟩

end Node

/-! ## The walk -/

section

variable {J : JsonLib} {E : Env} {S : Set Str} {db : Database}
  {answers answers' : ℕ → List (Option Str)}
  {b b' p : Block} {n n' k k' : ℕ} {rows rows' : List ChainFillBlock} {row : ChainFillBlock}

namespace Node

/-- A block that some peer's text parses to. -/
def Answered (J : JsonLib) (E : Env) (answers : ℕ → List (Option Str)) (b : Block) : Prop :=
  ∃ j text, some text ∈ answers j ∧ Block.fromJson J E text = .ok b

/-- Only the block asked for is taken. -/
theorem requestBlock_eq_some {h : Str} {l : List (Option Str)}
    (hp : requestBlock J E h l = some p) :
    (∃ text, some text ∈ l ∧ Block.fromJson J E text = .ok p) ∧
      p.blockHash = some h ∧ p.getHeaderHash E = h := by
  obtain ⟨answer, hmem, hanswer⟩ := List.exists_of_findSome?_eq_some hp
  obtain ⟨text, rfl, hparsed⟩ := Option.bind_eq_some_iff.1 hanswer
  obtain ⟨c, hc, htaken⟩ := Option.bind_eq_some_iff.1 hparsed
  split_ifs at htaken with hmatch
  cases htaken
  exact ⟨⟨text, hmem, Except.toOption_eq_some.1 hc⟩, hmatch⟩

theorem chainFillBlock_eq_some (h : chainFillBlock E b = some row) :
    b.blockHash = some row.blockHash ∧ b.idx = some row.idx ∧ row.blockJson = b.toJson := by
  unfold chainFillBlock at h
  obtain ⟨blockHash, hhash, h⟩ := Option.bind_eq_some_iff.1 h
  obtain ⟨idx, hidx, h⟩ := Option.bind_eq_some_iff.1 h
  split_ifs at h
  cases h
  exact ⟨hhash, hidx, rfl⟩

/-- Blocks of one hash and height are staged under one key. -/
theorem chainFillBlock_key_eq {row' : ChainFillBlock} (hhash : b.blockHash = b'.blockHash)
    (hidx : b.idx = b'.idx) (h : chainFillBlock E b = some row)
    (h' : chainFillBlock E b' = some row') :
    (row.blockHash, row.idx) = (row'.blockHash, row'.idx) := by
  obtain ⟨hrow, hrowIdx, -⟩ := chainFillBlock_eq_some h
  obtain ⟨hrow', hrowIdx', -⟩ := chainFillBlock_eq_some h'
  rw [hhash, hrow', Option.some.injEq] at hrow
  rw [hidx, hrowIdx', Option.some.injEq] at hrowIdx
  rw [hrow, hrowIdx]

/-- One turn of the walk. -/
theorem walkBack_cases (h : walkBack J E db answers n k b = some rows) :
    ∃ row, chainFillBlock E b = some row ∧
      ((anchored E db b = true ∧ rows = [row]) ∨
        (anchored E db b = false ∧ ∃ m prev rest, n = m + 1 ∧
          requestBlock J E (b.prevHash.getD []) (answers k) = some prev ∧
          walkBack J E db answers m (k + 1) prev = some rest ∧ rows = row :: rest)) := by
  cases n with
  | zero =>
    rw [walkBack] at h
    split_ifs at h with hanchored
    obtain ⟨row, hrow, rfl⟩ := Option.map_eq_some_iff.1 h
    exact ⟨row, hrow, Or.inl ⟨hanchored, rfl⟩⟩
  | succ m =>
    rw [walkBack] at h
    split_ifs at h with hanchored
    · obtain ⟨row, hrow, rfl⟩ := Option.map_eq_some_iff.1 h
      exact ⟨row, hrow, Or.inl ⟨hanchored, rfl⟩⟩
    · obtain ⟨row, hrow, h⟩ := Option.bind_eq_some_iff.1 h
      obtain ⟨prev, hprev, h⟩ := Option.bind_eq_some_iff.1 h
      obtain ⟨rest, hrest, h⟩ := Option.bind_eq_some_iff.1 h
      cases h
      exact ⟨row, hrow, Or.inr
        ⟨Bool.eq_false_iff.2 hanchored, m, prev, rest, rfl, hprev, hrest, rfl⟩⟩

/-- What is staged is the tip or was answered, and no more than the depth allows. -/
theorem walkBack_spec {P : Block → Prop} (hanswers : ∀ c, Answered J E answers c → P c) :
    ∀ {n k : ℕ} {b : Block} {rows : List ChainFillBlock}, P b →
      walkBack J E db answers n k b = some rows →
      (∃ row ∈ rows, chainFillBlock E b = some row) ∧ rows.length ≤ n + 1 ∧
        ∀ row ∈ rows, ∃ c, P c ∧ chainFillBlock E c = some row := by
  intro n
  induction n with
  | zero =>
    intro k b rows hb h
    obtain ⟨row, hrow, ⟨-, rfl⟩ | ⟨-, m, -, -, hm, -⟩⟩ := walkBack_cases h
    · exact ⟨⟨row, List.mem_cons_self, hrow⟩, le_refl _, fun r hr => by
        rw [List.mem_singleton.1 hr]
        exact ⟨b, hb, hrow⟩⟩
    · cases hm
  | succ n ih =>
    intro k b rows hb h
    obtain ⟨row, hrow, ⟨-, rfl⟩ | ⟨-, m, prev, rest, hm, hprev, hrest, rfl⟩⟩ := walkBack_cases h
    · exact ⟨⟨row, List.mem_cons_self, hrow⟩, by simp, fun r hr => by
        rw [List.mem_singleton.1 hr]
        exact ⟨b, hb, hrow⟩⟩
    · obtain rfl := Nat.succ.inj hm
      obtain ⟨-, hlen, hall⟩ := ih (hanswers prev ⟨k, (requestBlock_eq_some hprev).1⟩) hrest
      refine ⟨⟨row, List.mem_cons_self, hrow⟩, Nat.succ_le_succ hlen, ?_⟩
      rw [List.forall_mem_cons]
      exact ⟨⟨b, hb, hrow⟩, hall⟩

theorem Answered.wellFormed (h : Answered J E answers b) : b.WellFormed E := by
  obtain ⟨j, text, -, hread⟩ := h
  unfold Block.fromJson at hread
  split at hread
  · exact (Block.fromDict_wellFormed hread).1
  · cases hread

end Node

/-- What is known of a block that a peer tells of. -/
structure Block.Told (E : Env) (S : Set Str) (b : Block) : Prop where
  hashed : b.Hashed S
  wellFormed : b.WellFormed E

/-- Blocks with the same header hash have the same header. -/
theorem Block.Told.headerFields_eq (hS : E.CollisionFree (insert genesisText S)) (hb : b.Told E S)
    (hb' : b'.Told E S) (h : b.getHeaderHash E = b'.getHeaderHash E) :
    b.headerFields = b'.headerFields :=
  Block.header_inj hb.wellFormed hb'.wellFormed
    (hS (Set.mem_insert_of_mem _ hb.hashed.1) (Set.mem_insert_of_mem _ hb'.hashed.1) h)

/-- **No peer steers the walk.**  Two walks from one tip that get through stage the same
hashes and heights, whoever answered what. -/
theorem Node.walkBack_steered (hS : E.CollisionFree (insert genesisText S))
    (hanswers : ∀ c, Answered J E answers c → c.Told E S)
    (hanswers' : ∀ c, Answered J E answers' c → c.Told E S) :
    ∀ {rows rows' : List ChainFillBlock} {n n' k k' : ℕ} {b b' : Block},
      b.headerFields = b'.headerFields → b.blockHash = b'.blockHash →
      walkBack J E db answers n k b = some rows → walkBack J E db answers' n' k' b' = some rows' →
      rows.map (fun r => (r.blockHash, r.idx)) = rows'.map fun r => (r.blockHash, r.idx) := by
  intro rows
  induction rows with
  | nil =>
    intro rows' n n' k k' b b' _ _ h
    obtain ⟨row, -, ⟨-, habsurd⟩ | ⟨-, m, prev, rest, -, -, -, habsurd⟩⟩ := walkBack_cases h
    · cases habsurd
    · cases habsurd
  | cons row rows ih =>
    intro rows' n n' k k' b b' hfields hhash h h'
    have hidx : b.idx = b'.idx := congrArg Prod.fst hfields
    have hprevHash : b.prevHash = b'.prevHash := congrArg (fun f => f.2.2.1) hfields
    have hanchored : anchored E db b = anchored E db b' := by
      unfold anchored isGenesisBlock
      rw [hprevHash]
    obtain ⟨r, hr, ⟨hend, hcons⟩ | ⟨hgo, m, prev, rest, -, hprev, hrest, hcons⟩⟩ :=
      walkBack_cases h
    · obtain ⟨r', hr', ⟨-, rfl⟩ | ⟨hgo', -⟩⟩ := walkBack_cases h'
      · rw [hcons, List.map_singleton, List.map_singleton, chainFillBlock_key_eq hhash hidx hr hr']
      · rw [← hanchored, hend] at hgo'
        cases hgo'
    · obtain ⟨r', hr', ⟨hend', -⟩ | ⟨-, m', prev', rest', -, hprev', hrest', rfl⟩⟩ :=
        walkBack_cases h'
      · rw [← hanchored, hgo] at hend'
        cases hend'
      · obtain ⟨rfl, rfl⟩ := List.cons.inj hcons
        obtain ⟨hanswered, hph, hphh⟩ := requestBlock_eq_some hprev
        obtain ⟨hanswered', hph', hphh'⟩ := requestBlock_eq_some hprev'
        rw [hprevHash] at hph hphh
        have hheader := (hanswers _ ⟨k, hanswered⟩).headerFields_eq hS
          (hanswers' _ ⟨k', hanswered'⟩) (hphh.trans hphh'.symm)
        rw [List.map_cons, List.map_cons, chainFillBlock_key_eq hhash hidx hr hr',
          ih hheader (hph.trans hph'.symm) hrest hrest']

end

/-! ## The batch -/

/-- The hashes of the stored blocks, in the order they were stored. -/
def Database.hashes (db : Database) : List (Option Str) :=
  db.blocks.map fun r => some r.blockHash

section

variable {E : Env} {S : Set Str} {J : JsonLib} {Q : Session → DateTime → Block → Prop}
  {depth : Option ℕ} {moments : ℕ → Moment} {now : DateTime} {b : Block} {s₀ s s' : Session}
  {k : ℕ} {rows : List ChainFillBlock} {applied : List Block}

theorem Database.isSome_blockByHash (hs : s.db.Schema E) {h : Option Str} :
    (s.db.blockByHash h).isSome = true ↔ truthy h = true ∧ h ∈ s.db.hashes := by
  rw [Option.isSome_iff_exists]
  constructor
  · rintro ⟨r, hr⟩
    obtain ⟨hmem, rfl⟩ := blockByHash_mem hr
    exact ⟨(truthy_some _).2 ((blockByHash_eq_some hs).1 hr).1, List.mem_map_of_mem hmem⟩
  · rintro ⟨htruthy, hmem⟩
    obtain ⟨r, hr, rfl⟩ := List.mem_map.1 hmem
    exact ⟨r, (blockByHash_eq_some hs).2 ⟨(truthy_some _).1 htruthy, hr, rfl⟩⟩

/-- The test of `fill_chain` for a block that is stored. -/
theorem Block.persisted_iff (db : Database) (h : Option Str) :
    (truthy h && (Block.fromDb db h).isSome) = (db.blockByHash h).isSome := by
  unfold Block.fromDb Database.blockByHash
  split_ifs with ht
  · rw [ht, Bool.true_and, Option.isSome_map]
  · simp

/-- In a batch nothing is swallowed. -/
theorem Node.addBlock_batch {r : Option Block}
    (h : addBlock E depth now false b s = .ok (r, s')) : tryAddBlock E depth now b s = .ok s' := by
  unfold addBlock at h
  split at h
  · rename_i s₁ htry
    cases h
    exact htry
  · rw [if_neg (by simp)] at h
    cases h

/-- **What an addition does to the stored hashes.** -/
theorem Session.Sound.hashes_tryAddBlock (hS : E.CollisionFree (insert genesisText S))
    (h : s.Sound E S) (hb : b.Hashed S) (hadd : Node.tryAddBlock E depth now b s = .ok s') :
    s'.db.hashes = s.db.hashes ++
      if (s.db.blockByHash b.blockHash).isSome then [] else [b.blockHash] := by
  obtain ⟨db, hl, ⟨rfl, hsome⟩ | ⟨hnone, row, ids, ha⟩⟩ := h.tables_tryAddBlock hS hb hadd
  · rw [if_pos hsome, List.append_nil, Database.hashes, hl.blocks]
    rfl
  · rw [hnone, if_neg (by simp), Database.hashes, hl.blocks, ha.blocks, List.map_append,
      ha.blockHash_row]
    rfl

/-- An added block is stored. -/
theorem Session.Sound.mem_hashes_tryAddBlock (hS : E.CollisionFree (insert genesisText S))
    (h : s.Sound E S) (hb : b.Hashed S) (hadd : Node.tryAddBlock E depth now b s = .ok s') :
    b.blockHash ∈ s'.db.hashes := by
  rw [h.hashes_tryAddBlock hS hb hadd, List.mem_append]
  by_cases hstored : (s.db.blockByHash b.blockHash).isSome
  · exact Or.inl ((Database.isSome_blockByHash h.inv.ledger.schema).1 hstored).2
  · rw [if_neg hstored]
    exact Or.inr (List.mem_singleton_self _)

/-- A staged row reads back as a block with its hash. -/
def ChainFillBlock.Reads (J : JsonLib) (E : Env) (S : Set Str) (row : ChainFillBlock) : Prop :=
  ∃ b : Block, Block.fromJson J E row.blockJson = .ok b ∧ b.Hashed S ∧
    b.blockHash = some row.blockHash

/-- One turn of the batch. -/
theorem Node.applyStaged_cons {row : ChainFillBlock}
    (h : applyStaged J E depth moments k (row :: rows) s = .ok (applied, s'))
    (hread : Block.fromJson J E row.blockJson = .ok b) :
    ∃ s₁ rest, tryAddBlock E depth (moments k).now b (s.forget (moments k).dropped) = .ok s₁ ∧
      (∃ r, addBlock E depth (moments k).now false b (s.forget (moments k).dropped) = .ok (r, s₁)) ∧
      applyStaged J E depth moments (k + 1) rows s₁ = .ok (rest, s') ∧
      applied = if (s.db.blockByHash b.blockHash).isSome then rest else b :: rest := by
  rw [applyStaged, hread, ok_bind] at h
  obtain ⟨⟨r, s₁⟩, hadd, h⟩ := bind_eq_ok.1 h
  obtain ⟨⟨rest, s₂⟩, hrest, h⟩ := bind_eq_ok.1 h
  rw [Block.persisted_iff] at h
  cases h
  exact ⟨s₁, rest, addBlock_batch hadd, ⟨r, hadd⟩, hrest, rfl⟩

/-- **What a batch does**: a run of the node, after which the tables have the blocks that
it signals below those they had, and every staged block is stored. -/
theorem Node.applyStaged_spec (hS : E.CollisionFree (insert genesisText S)) :
    ∀ {rows : List ChainFillBlock} {k : ℕ} {s s' : Session} {applied : List Block},
      SessionRun E (fun _ _ b => b.Hashed S) depth {} s → (∀ row ∈ rows, row.Reads J E S) →
      applyStaged J E depth moments k rows s = .ok (applied, s') →
      SessionRun E (fun _ _ b => b.Hashed S) depth {} s' ∧
        s'.db.hashes = s.db.hashes ++ applied.map Block.blockHash ∧
        ∀ row ∈ rows, some row.blockHash ∈ s'.db.hashes := by
  intro rows
  induction rows with
  | nil =>
    intro k s s' applied hrun _ h
    cases h
    exact ⟨hrun, (List.append_nil _).symm, fun _ hr => absurd hr List.not_mem_nil⟩
  | cons row rows ih =>
    intro k s s' applied hrun hreads h
    rw [List.forall_mem_cons] at hreads
    obtain ⟨⟨b, hread, hb, hhash⟩, hreads⟩ := hreads
    obtain ⟨s₁, rest, htry, ⟨r, hadd⟩, hrest, happlied⟩ := applyStaged_cons h hread
    have hforgot := hrun.forgets (moments k).dropped
    have hsound := hforgot.sound_empty hS
    have hstep := hsound.hashes_tryAddBlock hS hb htry
    obtain ⟨hrun', hhashes, hall⟩ := ih (hforgot.add hb hadd) hreads hrest
    refine ⟨hrun', ?_, List.forall_mem_cons.2 ⟨?_, hall⟩⟩
    · rw [hhashes, hstep, happlied, Session.forget_db, List.append_assoc]
      split_ifs <;> rfl
    · rw [hhashes, ← hhash]
      exact List.mem_append_left _ (hsound.mem_hashes_tryAddBlock hS hb htry)

/-- Two batches of the same hashes, over the same blocks, signal the same hashes. -/
theorem Node.applyStaged_steered (hS : E.CollisionFree (insert genesisText S))
    {moments' : ℕ → Moment} :
    ∀ {rows rows' : List ChainFillBlock} {k k' : ℕ} {s t s' t' : Session}
      {applied applied' : List Block},
      SessionRun E (fun _ _ b => b.Hashed S) depth {} s →
      SessionRun E (fun _ _ b => b.Hashed S) depth {} t → s.db.hashes = t.db.hashes →
      (∀ row ∈ rows, row.Reads J E S) → (∀ row ∈ rows', row.Reads J E S) →
      rows.map ChainFillBlock.blockHash = rows'.map ChainFillBlock.blockHash →
      applyStaged J E depth moments k rows s = .ok (applied, s') →
      applyStaged J E depth moments' k' rows' t = .ok (applied', t') →
      applied.map Block.blockHash = applied'.map Block.blockHash := by
  intro rows
  induction rows with
  | nil =>
    intro rows' k k' s t s' t' applied applied' _ _ _ _ _ hmap h h'
    obtain rfl := List.map_eq_nil_iff.1 hmap.symm
    cases h
    cases h'
    rfl
  | cons row rows ih =>
    intro rows' k k' s t s' t' applied applied' hs ht hsame hreads hreads' hmap h h'
    obtain ⟨row', rows', rfl, hrow, hmap⟩ := List.map_eq_cons_iff.1 hmap.symm
    rw [List.forall_mem_cons] at hreads hreads'
    obtain ⟨⟨b, hread, hb, hhash⟩, hreads⟩ := hreads
    obtain ⟨⟨b', hread', hb', hhash'⟩, hreads'⟩ := hreads'
    obtain ⟨s₁, rest, htry, ⟨r, hadd⟩, hrest, happlied⟩ := applyStaged_cons h hread
    obtain ⟨t₁, rest', htry', ⟨r', hadd'⟩, hrest', happlied'⟩ := applyStaged_cons h' hread'
    have hforgot := hs.forgets (moments k).dropped
    have hforgot' := ht.forgets (moments' k').dropped
    have hsound := hforgot.sound_empty hS
    have hsound' := hforgot'.sound_empty hS
    have hbb : b.blockHash = b'.blockHash := by rw [hhash, hhash', hrow]
    have hstored : (s.db.blockByHash b.blockHash).isSome =
        (t.db.blockByHash b'.blockHash).isSome := by
      rw [Bool.eq_iff_iff, Database.isSome_blockByHash (hs.sound_empty hS).inv.ledger.schema,
        Database.isSome_blockByHash (ht.sound_empty hS).inv.ledger.schema, hsame, hbb]
    have hnext : s₁.db.hashes = t₁.db.hashes := by
      rw [hsound.hashes_tryAddBlock hS hb htry, hsound'.hashes_tryAddBlock hS hb' htry',
        Session.forget_db, Session.forget_db, hsame, hstored, hbb]
    have hsignalled := ih (hforgot.add hb hadd) (hforgot'.add hb' hadd') hnext hreads hreads' hmap.symm
      hrest hrest'
    rw [happlied, happlied', hstored]
    split_ifs
    · exact hsignalled
    · rw [List.map_cons, List.map_cons, hsignalled, hbb]

theorem Database.exists_of_hashes_eq {db db' : Database} (h : db.hashes = db'.hashes)
    {c : BlockDAO} (hc : c ∈ db.blocks) : ∃ c' ∈ db'.blocks, c'.blockHash = c.blockHash := by
  have hmem : some c.blockHash ∈ db.hashes := List.mem_map_of_mem hc
  rw [h] at hmem
  obtain ⟨c', hc', heq⟩ := List.mem_map.1 hmem
  exact ⟨c', hc', Option.some.inj heq⟩

/-- A stored row shows every accepted block with its hash. -/
theorem Session.Sound.shows_of_hash (hS : E.CollisionFree (insert genesisText S)) (h : s.Sound E S)
    (hv : b.Valid E) (hb : b.Hashed S) {c : BlockDAO} (hc : c ∈ s.db.blocks)
    (hhash : b.blockHash = some c.blockHash) : c.Shows b := by
  refine h.inv.ledger.shows hS hv hb ?_
  rw [hhash]
  exact (blockByHash_eq_some h.inv.ledger.schema).2 ⟨h.inv.ledger.blockHash_ne_nil hc, hc, rfl⟩

/-- In whatever tables, rows with one hash have one rank. -/
theorem Session.Sound.rankKey_eq (hS : E.CollisionFree (insert genesisText S)) (h : s.Sound E S)
    (h' : s'.Sound E S) {c c' : BlockDAO} (hc : c ∈ s.db.blocks) (hc' : c' ∈ s'.db.blocks)
    (heq : c.blockHash = c'.blockHash) : Database.rankKey c = Database.rankKey c' := by
  obtain ⟨b, bs, -, hon, hsame, -⟩ := h.inv.ledger.accepted_cons hc
  have hhash : b.blockHash = some c.blockHash := hsame.blockHash.symm
  have hshows := h.shows_of_hash hS hon.valid hon.hashed hc hhash
  have hshows' := h'.shows_of_hash hS hon.valid hon.hashed hc' (heq ▸ hhash)
  rw [← hshows.rankKey, hshows'.rankKey]

/-- **The tip is settled by the stored hashes.** -/
theorem Session.Sound.tip_eq_of_hashes (hS : E.CollisionFree (insert genesisText S))
    (h : s.Sound E S) (h' : s'.Sound E S) (hsame : s.db.hashes = s'.db.hashes) :
    s.tip = s'.tip := by
  unfold Session.tip
  cases ht : s.db.longestTip with
  | none =>
    have hnil : s.db.hashes = [] := by rw [Database.hashes, h.blocks_nil ht, List.map_nil]
    cases ht' : s'.db.longestTip with
    | none => rfl
    | some t' =>
      have hmem : some t'.blockHash ∈ s'.db.hashes := List.mem_map_of_mem (h'.best_of_tip ht').1
      rw [← hsame, hnil] at hmem
      exact absurd hmem List.not_mem_nil
  | some t =>
    have hbest := h.best_of_tip ht
    obtain ⟨c', hc', hc't⟩ := Database.exists_of_hashes_eq hsame hbest.1
    obtain ⟨t', ht', hbest'⟩ := h'.exists_longestTip hc'
    obtain ⟨c, hc, hct'⟩ := Database.exists_of_hashes_eq hsame.symm hbest'.1
    have hle : Database.rankKey t ≤ Database.rankKey t' :=
      h.rankKey_eq hS h' hc hbest'.1 hct' ▸ hbest.2 c hc
    have hge : Database.rankKey t' ≤ Database.rankKey t :=
      h.rankKey_eq hS h' hbest.1 hc' hc't.symm ▸ hbest'.2 c' hc'
    -- the hash is the last part of the rank
    have hhash : t.blockHash = t'.blockHash :=
      congrArg (fun k => (ofLex (ofLex k).2).2) (le_antisymm hle hge)
    rw [ht', Option.map_some, Option.map_some, hhash]

/-! ## The fill -/

/-- What is known of a block that may be staged: the library reads back its text. -/
structure Block.Stageable (J : JsonLib) (S : Set Str) (b : Block) : Prop where
  hashed : b.Hashed S
  loads : J.loads b.toJson = .ok b.toDict

/-- A staged block reads back in the canonical order, under its hash. -/
theorem Block.Stageable.reads {row : ChainFillBlock} (h : b.Stageable J S) (hw : b.WellFormed E)
    (hrow : Node.chainFillBlock E b = some row) : row.Reads J E S := by
  obtain ⟨hhash, -, hjson⟩ := Node.chainFillBlock_eq_some hrow
  refine ⟨{ b with txns := Block.canonicalOrder b.txns }, ?_, ⟨h.hashed.1, fun t ht => ?_⟩,
    hhash⟩
  · rw [hjson, Block.fromJson, h.loads]
    show Block.fromDict J E b.toDict = _
    rw [Block.fromDict_toDict, if_pos (Block.blockErrors_eq_nil.2 hw)]
  · exact h.hashed.2 t ((List.perm_insertionSort _ _).subset ht)

variable {maxChainFillDepth maxChainFillDepth' : ℕ} {answers answers' : ℕ → List (Option Str)}
  {moments' : ℕ → Moment} {lastBlock : Block} {fill fill' : Node.Fill}

/-- How a fill ends: with the tip stored before, with nothing, or with a batch. -/
theorem Node.fillChain_cases
    (h : fillChain J E depth maxChainFillDepth answers moments lastBlock s = fill) :
    ((s.db.blockByHash lastBlock.blockHash).isSome = true ∧ fill = ⟨true, [], s⟩) ∨
      (s.db.blockByHash lastBlock.blockHash).isSome = false ∧ (fill = ⟨false, [], s⟩ ∨
        ∃ rows applied s', walkBack J E s.db answers maxChainFillDepth 0 lastBlock = some rows ∧
          applyStaged J E depth moments 0 (Table.orderBy ChainFillBlock.idx rows) s =
            .ok (applied, s') ∧ fill = ⟨true, applied, s'⟩) := by
  unfold fillChain at h
  rw [Block.persisted_iff] at h
  split_ifs at h with hstored
  · exact Or.inl ⟨hstored, h.symm⟩
  · refine Or.inr ⟨Bool.eq_false_iff.2 hstored, ?_⟩
    split at h
    · exact Or.inl h.symm
    · rename_i rows hrows
      split at h
      · rename_i applied s' happly
        exact Or.inr ⟨rows, applied, s', hrows, happly, h.symm⟩
      · exact Or.inl h.symm

/-- The rows of a fill, in the order of the batch. -/
theorem Node.walkBack_reads
    (hlast : lastBlock.WellFormed E)
    (hstaged : ∀ c, (c = lastBlock ∨ Answered J E answers c) → c.Stageable J S)
    (h : walkBack J E s.db answers maxChainFillDepth 0 lastBlock = some rows) :
    (∃ row ∈ Table.orderBy ChainFillBlock.idx rows, chainFillBlock E lastBlock = some row) ∧
      (Table.orderBy ChainFillBlock.idx rows).length ≤ maxChainFillDepth + 1 ∧
      ∀ row ∈ Table.orderBy ChainFillBlock.idx rows, row.Reads J E S := by
  obtain ⟨⟨row, hrow, htip⟩, hlen, hall⟩ := walkBack_spec
    (P := fun c => c.WellFormed E ∧ c.Stageable J S)
    (fun c hc => ⟨hc.wellFormed, hstaged c (Or.inr hc)⟩) ⟨hlast, hstaged lastBlock (Or.inl rfl)⟩ h
  refine ⟨⟨row, Table.mem_orderBy.2 hrow, htip⟩, ?_, fun r hr => ?_⟩
  · rw [(Table.orderBy_perm _ _).length_eq]
    exact hlen
  · obtain ⟨c, hc, hcr⟩ := hall r (Table.mem_orderBy.1 hr)
    exact hc.2.reads hc.1 hcr

/-- A batch signals no more than it was given. -/
theorem Node.length_applyStaged :
    ∀ {rows : List ChainFillBlock} {k : ℕ} {s s' : Session} {applied : List Block},
      (∀ row ∈ rows, row.Reads J E S) → applyStaged J E depth moments k rows s = .ok (applied, s') →
      applied.length ≤ rows.length := by
  intro rows
  induction rows with
  | nil =>
    intro k s s' applied _ h
    cases h
    exact le_refl _
  | cons row rows ih =>
    intro k s s' applied hreads h
    rw [List.forall_mem_cons] at hreads
    obtain ⟨⟨b, hread, -, -⟩, hreads⟩ := hreads
    obtain ⟨s₁, rest, -, -, hrest, rfl⟩ := applyStaged_cons h hread
    have hle := ih hreads hrest
    split_ifs
    · exact hle.trans (Nat.le_succ _)
    · exact Nat.succ_le_succ hle

/-- A stored block is the tip of an accepted chain. -/
theorem Session.Sound.accepted_of_mem_hashes (h : s.Sound E S) {hash : Option Str}
    (hmem : hash ∈ s.db.hashes) : ∃ row ∈ s.db.blocks, hash = some row.blockHash ∧
      ∃ bs, AcceptedChain E S bs ∧ List.Forall₂ Block.Same (s.db.pathBlocks row) bs := by
  obtain ⟨row, hrow, rfl⟩ := List.mem_map.1 hmem
  obtain ⟨b, bs, hbs, hon, hsame, hpath, hall⟩ := h.inv.ledger.accepted_cons hrow
  exact ⟨row, hrow, rfl, b :: bs, .cons hbs hon, hpath ▸ .cons hsame hall⟩

/-- **A fill is whole.**  From any reachable state and whatever the peers answer: a fill
that returns `False` leaves the tables as they were; one that returns `True` leaves the
tip stored, on an accepted chain down to a first block.  The tables have the blocks that
the fill signals below those they had, each of them once, and these are no more than the
depth allows and one. -/
theorem fill_chain_whole (hS : E.CollisionFree (insert genesisText S))
    (hrun : SessionRun E (fun _ _ b => b.Hashed S) depth {} s) (hlast : lastBlock.WellFormed E)
    (hstaged : ∀ c, (c = lastBlock ∨ Node.Answered J E answers c) → c.Stageable J S)
    (h : Node.fillChain J E depth maxChainFillDepth answers moments lastBlock s = fill) :
    SessionRun E (fun _ _ b => b.Hashed S) depth {} fill.session ∧
      fill.session.db.hashes = s.db.hashes ++ fill.signalled.map Block.blockHash ∧
      fill.session.db.hashes.Nodup ∧ fill.signalled.length ≤ maxChainFillDepth + 1 ∧
      (fill.filled = false → fill.session = s) ∧
      (fill.filled = true → ∃ row ∈ fill.session.db.blocks,
        lastBlock.blockHash = some row.blockHash ∧ ∃ bs, AcceptedChain E S bs ∧
          List.Forall₂ Block.Same (fill.session.db.pathBlocks row) bs) := by
  have hnodup : ∀ {u : Session}, SessionRun E (fun _ _ b => b.Hashed S) depth {} u →
      u.db.hashes.Nodup := by
    intro u hu
    have hs := (hu.sound_empty hS).inv.ledger.schema.blockHashes
    have hmap : u.db.hashes = (u.db.blocks.map BlockDAO.blockHash).map some := by
      rw [Database.hashes, List.map_map]
      rfl
    rw [hmap]
    exact hs.map (Option.some_injective _)
  have hsound := hrun.sound_empty hS
  obtain ⟨hstored, rfl⟩ | ⟨-, rfl | ⟨rows, applied, s', hrows, happly, rfl⟩⟩ :=
    Node.fillChain_cases h
  · refine ⟨hrun, (List.append_nil _).symm, hnodup hrun, Nat.zero_le _, fun _ => rfl, fun _ => ?_⟩
    exact hsound.accepted_of_mem_hashes
      ((Database.isSome_blockByHash hsound.inv.ledger.schema).1 hstored).2
  · exact ⟨hrun, (List.append_nil _).symm, hnodup hrun, Nat.zero_le _, fun _ => rfl,
      fun hfilled => Bool.noConfusion hfilled⟩
  · obtain ⟨⟨row, hrow, htip⟩, hlen, hreads⟩ := Node.walkBack_reads hlast hstaged hrows
    obtain ⟨hrun', hhashes, hall⟩ := Node.applyStaged_spec hS hrun hreads happly
    refine ⟨hrun', hhashes, hnodup hrun', (Node.length_applyStaged hreads happly).trans hlen,
      fun hfilled => Bool.noConfusion hfilled, fun _ => ?_⟩
    refine (hrun'.sound_empty hS).accepted_of_mem_hashes ?_
    rw [(Node.chainFillBlock_eq_some htip).1]
    exact hall row hrow

/-- The order of the batch is that of the heights. -/
theorem ChainFillBlock.orderBy_hashes {rows' : List ChainFillBlock}
    (h : rows.map (fun r => (r.blockHash, r.idx)) = rows'.map fun r => (r.blockHash, r.idx)) :
    (Table.orderBy ChainFillBlock.idx rows).map ChainFillBlock.blockHash =
      (Table.orderBy ChainFillBlock.idx rows').map ChainFillBlock.blockHash := by
  have hkey : ∀ l : List ChainFillBlock,
      (Table.orderBy ChainFillBlock.idx l).map (fun r => (r.blockHash, r.idx)) =
        Table.orderBy Prod.snd (l.map fun r => (r.blockHash, r.idx)) := fun l =>
    List.map_insertionSort _ _ _ _ fun _ _ _ _ => Iff.rfl
  have hfst : ∀ l : List ChainFillBlock, l.map ChainFillBlock.blockHash =
      (l.map fun r => (r.blockHash, r.idx)).map Prod.fst := fun l => by
    rw [List.map_map]
    rfl
  rw [hfst, hfst, hkey, hkey, h]

/-- **No peer steers a fill.**  Two fills from one state towards one tip that both succeed
signal the same blocks in the same order and leave the same blocks stored and the same tip,
whatever the peers answered, and whenever. -/
theorem fill_chain_steered (hS : E.CollisionFree (insert genesisText S))
    (hrun : SessionRun E (fun _ _ b => b.Hashed S) depth {} s) (hlast : lastBlock.WellFormed E)
    (hstaged : ∀ c, (c = lastBlock ∨ Node.Answered J E answers c) → c.Stageable J S)
    (hstaged' : ∀ c, (c = lastBlock ∨ Node.Answered J E answers' c) → c.Stageable J S)
    (h : Node.fillChain J E depth maxChainFillDepth answers moments lastBlock s = fill)
    (h' : Node.fillChain J E depth maxChainFillDepth' answers' moments' lastBlock s = fill')
    (hfilled : fill.filled = true) (hfilled' : fill'.filled = true) :
    fill.signalled.map Block.blockHash = fill'.signalled.map Block.blockHash ∧
      fill.session.db.hashes = fill'.session.db.hashes ∧
      fill.session.tip = fill'.session.tip := by
  obtain ⟨hstored, rfl⟩ | ⟨hnew, rfl | ⟨rows, applied, s₁, hrows, happly, rfl⟩⟩ :=
    Node.fillChain_cases h
  · obtain ⟨-, rfl⟩ | ⟨hnew', -⟩ := Node.fillChain_cases h'
    · exact ⟨rfl, rfl, rfl⟩
    · rw [hstored] at hnew'
      cases hnew'
  · cases hfilled
  · obtain ⟨hstored', -⟩ | ⟨-, rfl | ⟨rows', applied', s₂, hrows', happly', rfl⟩⟩ :=
      Node.fillChain_cases h'
    · rw [hnew] at hstored'
      cases hstored'
    · cases hfilled'
    · have hkeys := Node.walkBack_steered hS
        (fun c hc => ⟨(hstaged c (Or.inr hc)).hashed, hc.wellFormed⟩)
        (fun c hc => ⟨(hstaged' c (Or.inr hc)).hashed, hc.wellFormed⟩) rfl rfl hrows hrows'
      obtain ⟨-, -, hreads⟩ := Node.walkBack_reads hlast hstaged hrows
      obtain ⟨-, -, hreads'⟩ := Node.walkBack_reads hlast hstaged' hrows'
      have hsignalled := Node.applyStaged_steered hS hrun hrun rfl hreads hreads'
        (ChainFillBlock.orderBy_hashes hkeys) happly happly'
      obtain ⟨hrun₁, hhashes, -⟩ := Node.applyStaged_spec hS hrun hreads happly
      obtain ⟨hrun₂, hhashes', -⟩ := Node.applyStaged_spec hS hrun hreads' happly'
      have hsame : s₁.db.hashes = s₂.db.hashes := by rw [hhashes, hhashes', hsignalled]
      exact ⟨hsignalled, hsame, (hrun₁.sound_empty hS).tip_eq_of_hashes hS
        (hrun₂.sound_empty hS) hsame⟩

end

/-! ### An empty node that hears of `top` -/

namespace Sample

theorem stageable : ∀ b ∈ blocks, b.Stageable (jsonLib blocks) texts := by
  have htexts : (blocks.map Block.toJson).Nodup := by decide +kernel
  exact fun b hb => ⟨Block.hashed_of_mem hb, loads_of_nodup htexts hb⟩

/-- Two peers, of which the second has the branch. -/
def answers (k : ℕ) : List (Option Str) :=
  if k = 0 then [none, some right.toJson] else [none, some genesis.toJson]

/-- The same, with a first peer that answers from the other branch. -/
def crossAnswers (k : ℕ) : List (Option Str) :=
  if k = 0 then [some left.toJson, some right.toJson] else [some left.toJson, some genesis.toJson]

/-- Peers that answer with texts of blocks. -/
theorem stageable_of_texts {told : ℕ → List (Option Str)}
    (h : ∀ k text, some text ∈ told k → ∃ b ∈ blocks, text = b.toJson) :
    ∀ c, (c = top ∨ Node.Answered (jsonLib blocks) env told c) →
      c.Stageable (jsonLib blocks) texts := by
  rintro c (rfl | ⟨k, text, hmem, hread⟩)
  · exact stageable _ (by simp [blocks])
  · obtain ⟨b, hb, rfl⟩ := h k text hmem
    obtain rfl : c = b := Except.ok.inj (hread.symm.trans (fromJson_toJson b hb))
    exact stageable c hb

theorem stageable_answers : ∀ c, (c = top ∨ Node.Answered (jsonLib blocks) env answers c) →
    c.Stageable (jsonLib blocks) texts := by
  refine stageable_of_texts fun k text hmem => ?_
  unfold answers at hmem
  split_ifs at hmem
  · exact ⟨right, by simp [blocks], by simpa using hmem⟩
  · exact ⟨genesis, by simp [blocks], by simpa using hmem⟩

theorem stageable_crossAnswers :
    ∀ c, (c = top ∨ Node.Answered (jsonLib blocks) env crossAnswers c) →
      c.Stageable (jsonLib blocks) texts := by
  refine stageable_of_texts fun k text hmem => ?_
  unfold crossAnswers at hmem
  split_ifs at hmem
  · obtain rfl | rfl : text = left.toJson ∨ text = right.toJson := by simpa using hmem
    · exact ⟨left, by simp [blocks], rfl⟩
    · exact ⟨right, by simp [blocks], rfl⟩
  · obtain rfl | rfl : text = left.toJson ∨ text = genesis.toJson := by simpa using hmem
    · exact ⟨left, by simp [blocks], rfl⟩
    · exact ⟨genesis, by simp [blocks], rfl⟩

theorem top_wellFormed : top.WellFormed env := by
  rw [← Block.blockErrors_eq_nil]
  decide +kernel

/-- What the two come to. -/
def filled : Node.Fill := Node.fillChain (jsonLib blocks) env none 10 answers (fun _ => anew) top {}

def crossFilled : Node.Fill :=
  Node.fillChain (jsonLib blocks) env none 2 crossAnswers (fun _ => anew) top {}

theorem both_filled : filled.filled = true ∧ crossFilled.filled = true := by decide +kernel

end Sample

theorem fill_chain_whole_top :
    SessionRun Sample.env (fun _ _ b => b.Hashed Sample.texts) none {} Sample.filled.session ∧
      Sample.filled.session.db.hashes =
        ({} : Session).db.hashes ++ Sample.filled.signalled.map Block.blockHash ∧
      Sample.filled.session.db.hashes.Nodup ∧ Sample.filled.signalled.length ≤ 10 + 1 ∧
      (Sample.filled.filled = false → Sample.filled.session = {}) ∧
      (Sample.filled.filled = true → ∃ row ∈ Sample.filled.session.db.blocks,
        Sample.top.blockHash = some row.blockHash ∧ ∃ bs,
          AcceptedChain Sample.env Sample.texts bs ∧
          List.Forall₂ Block.Same (Sample.filled.session.db.pathBlocks row) bs) :=
  fill_chain_whole Sample.collisionFree .refl Sample.top_wellFormed Sample.stageable_answers rfl

theorem fill_chain_steered_top :
    Sample.filled.signalled.map Block.blockHash = Sample.crossFilled.signalled.map Block.blockHash ∧
      Sample.filled.session.db.hashes = Sample.crossFilled.session.db.hashes ∧
      Sample.filled.session.tip = Sample.crossFilled.session.tip :=
  fill_chain_steered Sample.collisionFree .refl Sample.top_wellFormed Sample.stageable_answers
    Sample.stageable_crossAnswers rfl rfl Sample.both_filled.1 Sample.both_filled.2

end GumptionChain
