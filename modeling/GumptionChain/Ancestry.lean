import GumptionChain.Models

/-!
# Ancestry

`BlockDAO._ancestry` and the queries built on it.  A block's ancestors are found
without walking to the root: up through `prev` until a block of the
`longest_chain_block` table is met, then everything of that table up to its
position.

* `Database.path` — the plain walk from a block through `prev` to the root;
* `Database.Tree` — block rows form trees, a txid occurs once on a root path,
  and the table is some root path, stale or empty;
* `Database.ancestry_eq_walk` — on such a state every query answers as the plain
  walk does.
-/

namespace GumptionChain

namespace Database

/-! ## The queries -/

/-- The position of a block in `longest_chain_block`. -/
def positionOf (db : Database) (blockId : ℕ) : Option ℕ :=
  (Table.byKey LongestChainBlockDAO.blockId blockId db.longestChainBlocks).map (·.position)

/-- `BlockDAO._ancestry`.  The index falls by one with each `prev`, so the walk
needs no more than `idx + 1` steps. -/
def ancestry (db : Database) (b : BlockDAO) : List ℕ × Option ℕ :=
  let walk := Forest.walkUntil db.prev (fun c => db.positionOf c.id) (b.idx + 1) b
  (walk.1.map BlockDAO.id, walk.2)

/-- Blocks of the table at or below a position. -/
def inCanonical (db : Database) (cap blockId : ℕ) : Bool := (db.positionOf blockId).any (· ≤ cap)

/-- The predicate of `ancestry_blocks_q`. -/
def inAncestry (db : Database) (b : BlockDAO) (blockId : ℕ) : Bool :=
  decide (blockId ∈ (db.ancestry b).1) || (db.ancestry b).2.any fun cap => db.inCanonical cap blockId

/-- `BlockDAO.ancestry_blocks_q`. -/
def ancestryBlocksQ (db : Database) (b : BlockDAO) : List BlockDAO :=
  Table.orderBy (fun c : BlockDAO => OrderDual.toDual c.idx)
    (db.blocks.filter fun c => db.inAncestry b c.id)

/-- The query over the divergent suffix, skipped when that is empty. -/
def inDivergent {α : Type} (db : Database) (b : BlockDAO)
    (stmt : (ℕ → Bool) → Except Err (Option α)) : Except Err (Option α) :=
  if (db.ancestry b).1 = [] then .ok none else stmt fun i => decide (i ∈ (db.ancestry b).1)

/-- Ask the divergent suffix first, then the canonical part. -/
def inChain {α : Type} (db : Database) (b : BlockDAO)
    (stmt : (ℕ → Bool) → Except Err (Option α)) : Except Err (Option α) := do
  let hit ← db.inDivergent b stmt
  match hit with
  | some hit => .ok (some hit)
  | none =>
    match (db.ancestry b).2 with
    | none => .ok none
    | some cap => stmt (db.inCanonical cap)

/-- Transactions with a given txid in the given blocks; one row for each
association. -/
def chainTransactions (db : Database) (txid : Str) (blockIds : ℕ → Bool) : List TransactionDAO :=
  (db.blockTransactions.filter fun p => blockIds p.1).filterMap fun p =>
    (db.transactionById p.2).filter fun t => t.txid = txid

/-- `BlockDAO.get_transaction_in_chain`. -/
def getTransactionInChain (db : Database) (b : BlockDAO) (txid : Str) :
    Except Err (Option TransactionDAO) :=
  db.inChain b fun ids => scalarOneOrNone (db.chainTransactions txid ids)

/-- The optional filters of `get_block_in_chain`. -/
def matchesBlock (blockHash : Option Str) (idx : Option ℕ) (c : BlockDAO) : Bool :=
  blockHash.all (c.blockHash = ·) && idx.all (c.idx = ·)

/-- `BlockDAO.get_block_in_chain`. -/
def getBlockInChain (db : Database) (b : BlockDAO) (blockHash : Option Str) (idx : Option ℕ) :
    Except Err (Option BlockDAO) :=
  db.inChain b fun ids =>
    scalarOneOrNone (db.blocks.filter fun c => ids c.id && matchesBlock blockHash idx c)

/-- Does an inflow of the given blocks reference an outpoint? -/
def spentIn (db : Database) (txid : Str) (idx : ℕ) (blockIds : ℕ → Bool) : Bool :=
  db.inflows.any fun i => i.outflowTxid = txid && i.outflowIdx = idx &&
    db.blockTransactions.any fun p => p.2 = i.transactionId && blockIds p.1

/-- `BlockDAO.inflows_in_chain_count`. -/
def inflowsInChainCount (db : Database) (b : BlockDAO) (txid : Str) (idx : ℕ) : ℕ :=
  if (db.ancestry b).1 ≠ [] ∧ db.spentIn txid idx (fun i => decide (i ∈ (db.ancestry b).1)) then 1
  else if (db.ancestry b).2.any fun cap => db.spentIn txid idx (db.inCanonical cap) then 1
  else 0

/-! ## The plain walk -/

/-- The blocks from `b` through `prev` to the root. -/
def path (db : Database) (b : BlockDAO) : List BlockDAO := Forest.path db.prev BlockDAO.idx b

/-- The transaction rows met on the walk. -/
def pathRows (db : Database) (b : BlockDAO) : List TransactionDAO :=
  (db.path b).flatMap fun c => db.rowsOf c.id

/-- An inflow of a transaction on the walk references an outpoint. -/
def SpentOnWalk (db : Database) (b : BlockDAO) (txid : Str) (idx : ℕ) : Prop :=
  ∃ t ∈ db.pathRows b, ∃ i ∈ db.inflowsOf t, i.outflowTxid = txid ∧ i.outflowIdx = idx

instance (db : Database) (b : BlockDAO) (txid : Str) (idx : ℕ) :
    Decidable (db.SpentOnWalk b txid idx) := by
  unfold SpentOnWalk
  infer_instance

/-- The table holds the root path of `t`, each block once, with its index. -/
def Materializes (db : Database) (t : BlockDAO) : Prop :=
  db.longestChainBlocks.Perm ((db.path t).map fun c => ⟨c.id, c.idx⟩)

/-- The states on which the fast queries are meant to work. -/
structure Tree (db : Database) : Prop where
  idx : ∀ b ∈ db.blocks, ∀ p, db.prev b = some p → b.idx = p.idx + 1
  txidOnce : ∀ b ∈ db.blocks, ((db.pathRows b).map TransactionDAO.txid).Nodup
  materialized : db.longestChainBlocks = [] ∨ ∃ t ∈ db.blocks, db.Materializes t

instance (db : Database) (t : BlockDAO) : Decidable (db.Materializes t) := by
  unfold Materializes
  infer_instance

instance (db : Database) : Decidable db.Tree :=
  decidable_of_iff
    ((∀ b ∈ db.blocks, (db.prev b).all fun p => b.idx = p.idx + 1) ∧
      (∀ b ∈ db.blocks, ((db.pathRows b).map TransactionDAO.txid).Nodup) ∧
      (db.longestChainBlocks = [] ∨ ∃ t ∈ db.blocks, db.Materializes t))
    ⟨fun ⟨h1, h2, h3⟩ => ⟨fun b hb p hp => by simpa [hp] using h1 b hb, h2, h3⟩,
      fun ⟨h1, h2, h3⟩ => ⟨fun b hb => by
        cases hp : db.prev b with
        | none => rfl
        | some p => simpa using h1 b hb p hp, h2, h3⟩⟩

section

variable {E : Env} {db : Database} {b : BlockDAO}

theorem Tree.ranked (h : db.Tree) : Forest.Ranked (· ∈ db.blocks) db.prev BlockDAO.idx :=
  fun a p ha hp => ⟨(prev_mem hp).1, h.idx a ha p hp⟩

theorem Tree.mem_blocks (h : db.Tree) (hb : b ∈ db.blocks) {c : BlockDAO} (hc : c ∈ db.path b) :
    c ∈ db.blocks := (Forest.mem_path h.ranked hb c hc).1

theorem id_injOn (hs : db.Schema E) {c d : BlockDAO} (hc : c ∈ db.blocks) (hd : d ∈ db.blocks)
    (h : c.id = d.id) : c = d := List.inj_on_of_nodup_map hs.blockIds hc hd h

/-- The position of a block is its index, if it is on the materialised path. -/
theorem Materializes.positionOf_eq_some (hs : db.Schema E) (h : db.Tree) {t : BlockDAO}
    (ht : t ∈ db.blocks) (hm : db.Materializes t) {x : BlockDAO} (hx : x ∈ db.blocks) {v : ℕ} :
    db.positionOf x.id = some v ↔ x ∈ db.path t ∧ v = x.idx := by
  have hkeys : (db.longestChainBlocks.map LongestChainBlockDAO.blockId).Nodup := by
    rw [(hm.map _).nodup_iff, List.map_map]
    refine List.Nodup.map_on (fun c hc d hd hcd => ?_) (Forest.path_nodup h.ranked ht)
    exact id_injOn hs (h.mem_blocks ht hc) (h.mem_blocks ht hd) hcd
  rw [positionOf, Option.map_eq_some_iff]
  constructor
  · rintro ⟨row, hrow, rfl⟩
    obtain ⟨hmem, hid⟩ := (Table.byKey_eq_some hkeys).1 hrow
    obtain ⟨c, hc, rfl⟩ := List.mem_map.1 (hm.mem_iff.1 hmem)
    obtain rfl := id_injOn hs (h.mem_blocks ht hc) hx hid
    exact ⟨hc, rfl⟩
  · rintro ⟨hxt, rfl⟩
    refine ⟨⟨x.id, x.idx⟩, (Table.byKey_eq_some hkeys).2 ⟨hm.mem_iff.2 ?_, rfl⟩, rfl⟩
    exact List.mem_map.2 ⟨x, hxt, rfl⟩

/-- The table marks a root path in the sense of the library. -/
theorem Tree.marked (hs : db.Schema E) (h : db.Tree) :
    Forest.Marked (· ∈ db.blocks) db.prev BlockDAO.idx fun c => db.positionOf c.id := by
  rcases h.materialized with hnil | ⟨t, ht, hm⟩
  · exact Or.inl fun x _ => by simp [positionOf, hnil, Table.byKey]
  · exact Or.inr ⟨t, ht, fun x v hx => hm.positionOf_eq_some hs h ht hx⟩

/-- **The fast predicate is membership in the walk.** -/
theorem Tree.inAncestry_iff (hs : db.Schema E) (h : db.Tree) (hb : b ∈ db.blocks) {c : BlockDAO}
    (hc : c ∈ db.blocks) : db.inAncestry b c.id = true ↔ c ∈ db.path b := by
  rw [path, Forest.mem_path_iff h.ranked (h.marked hs) hb (Nat.lt_succ_self _) hc]
  rw [inAncestry, Bool.or_eq_true, decide_eq_true_eq]
  refine or_congr ?_ ?_
  · rw [ancestry, List.mem_map]
    constructor
    · rintro ⟨d, hd, hid⟩
      have hdP := h.mem_blocks hb
        ((Forest.walkUntil_initial h.ranked _ hb (Nat.lt_succ_self _)).subset hd)
      exact id_injOn hs hdP hc hid ▸ hd
    · exact fun hd => ⟨c, hd, rfl⟩
  · simp only [ancestry, inCanonical, Option.any_eq_true, decide_eq_true_eq]
    exact ⟨fun ⟨cap, hcap, v, hv, hle⟩ => ⟨cap, v, hcap, hv, hle⟩,
      fun ⟨cap, v, hcap, hv, hle⟩ => ⟨cap, hcap, v, hv, hle⟩⟩

/-! ## What each query answers -/

/-- A query that finds one thing at most on the walk finds it, whichever of the
two parts of the ancestry holds it. -/
theorem Tree.inChain_eq {α : Type} (hs : db.Schema E) (h : db.Tree) (hb : b ∈ db.blocks)
    {L : (ℕ → Bool) → List α} {Q : α → BlockDAO → Prop} {o : Option α}
    (hL : ∀ ids x, x ∈ L ids ↔ ∃ c ∈ db.blocks, ids c.id = true ∧ Q x c)
    (hn : ∀ ids, (∀ c ∈ db.blocks, ids c.id = true → c ∈ db.path b) → (L ids).Nodup)
    (ho : ∀ x, o = some x ↔ ∃ c ∈ db.path b, Q x c) :
    db.inChain b (fun ids => scalarOneOrNone (L ids)) = .ok o := by
  have part : ∀ ids, (∀ c ∈ db.blocks, ids c.id = true → c ∈ db.path b) →
      (scalarOneOrNone (L ids) = .ok o ∧ o ≠ none) ∨
        (scalarOneOrNone (L ids) = .ok none ∧ ∀ c ∈ db.blocks, ids c.id = true → ∀ x, ¬ Q x c) := by
    intro ids hids
    by_cases hex : ∃ x, x ∈ L ids
    · obtain ⟨x, hx⟩ := hex
      obtain ⟨c, hc, hcid, hQ⟩ := (hL ids x).1 hx
      have hox : o = some x := (ho x).2 ⟨c, hids c hc hcid, hQ⟩
      refine Or.inl ⟨scalarOneOrNone_of_mem (hn ids hids) fun y => ⟨fun hy => ?_, fun hy => ?_⟩, ?_⟩
      · obtain ⟨d, hd, hdid, hQd⟩ := (hL ids y).1 hy
        exact (ho y).2 ⟨d, hids d hd hdid, hQd⟩
      · rw [hox, Option.some.injEq] at hy
        exact hy ▸ hx
      · rw [hox]
        exact Option.some_ne_none x
    · push Not at hex
      rw [List.eq_nil_iff_forall_not_mem.2 hex]
      exact Or.inr ⟨rfl, fun c hc hcid x hQ => hex x ((hL ids x).2 ⟨c, hc, hcid, hQ⟩)⟩
  have hdiv : ∀ c ∈ db.blocks, decide (c.id ∈ (db.ancestry b).1) = true → c ∈ db.path b :=
    fun c hc hid => (h.inAncestry_iff hs hb hc).1 (by rw [inAncestry, hid, Bool.true_or])
  have hcan : ∀ cap, (db.ancestry b).2 = some cap → ∀ c ∈ db.blocks,
      db.inCanonical cap c.id = true → c ∈ db.path b :=
    fun cap hcap c hc hid => (h.inAncestry_iff hs hb hc).1 (by simp [inAncestry, hcap, hid])
  have hfirst : ∃ hit, db.inDivergent b (fun ids => scalarOneOrNone (L ids)) = .ok hit ∧
      ((hit = o ∧ o ≠ none) ∨
        (hit = none ∧ ∀ c ∈ db.blocks, c.id ∈ (db.ancestry b).1 → ∀ x, ¬ Q x c)) := by
    unfold inDivergent
    by_cases hd : (db.ancestry b).1 = []
    · exact ⟨none, by rw [if_pos hd], Or.inr ⟨rfl, by simp [hd]⟩⟩
    · rw [if_neg hd]
      rcases part (fun i => decide (i ∈ (db.ancestry b).1)) hdiv with ⟨heq, hne⟩ | ⟨heq, hno⟩
      · exact ⟨o, heq, Or.inl ⟨rfl, hne⟩⟩
      · exact ⟨none, heq, Or.inr ⟨rfl, fun c hc hid => hno c hc (by simpa using hid)⟩⟩
  obtain ⟨hit, hhit, hcase⟩ := hfirst
  rw [inChain, hhit, ok_bind]
  rcases hcase with ⟨rfl, hne⟩ | ⟨rfl, hno⟩
  · cases hit with
    | none => exact absurd rfl hne
    | some x => rfl
  · have hnone : (∀ c ∈ db.path b, c.id ∉ (db.ancestry b).1 → ∀ x, ¬ Q x c) → o = none := by
      intro hrest
      cases o with
      | none => rfl
      | some x =>
        obtain ⟨c, hc, hQ⟩ := (ho x).1 rfl
        by_cases hid : c.id ∈ (db.ancestry b).1
        · exact absurd hQ (hno c (h.mem_blocks hb hc) hid x)
        · exact absurd hQ (hrest c hc hid x)
    cases hcap : (db.ancestry b).2 with
    | none =>
      refine congrArg Except.ok (hnone fun c hc hid => ?_).symm
      have := (h.inAncestry_iff hs hb (h.mem_blocks hb hc)).2 hc
      simp [inAncestry, hcap, hid] at this
    | some cap =>
      rcases part _ (hcan cap hcap) with ⟨heq, -⟩ | ⟨heq, hno'⟩
      · exact heq
      · refine heq.trans (congrArg Except.ok (hnone fun c hc hid x => ?_).symm)
        have hin := (h.inAncestry_iff hs hb (h.mem_blocks hb hc)).2 hc
        simp only [inAncestry, hcap, hid, decide_false, Bool.false_or, Option.any_some] at hin
        exact hno' c (h.mem_blocks hb hc) hin x

/-- The transaction a walk from `b` to the root finds. -/
def walkTransaction (db : Database) (b : BlockDAO) (txid : Str) : Option TransactionDAO :=
  (db.pathRows b).find? fun t => t.txid = txid

theorem mem_pathRows {t : TransactionDAO} :
    t ∈ db.pathRows b ↔ ∃ c ∈ db.path b, t ∈ db.rowsOf c.id := List.mem_flatMap

theorem walkTransaction_eq_some (hs : db.Schema E) {txid : Str} {t : TransactionDAO} :
    db.walkTransaction b txid = some t ↔ t ∈ db.pathRows b ∧ t.txid = txid := by
  have hsub : ∀ u ∈ db.pathRows b, u ∈ db.transactions := fun u hu => by
    obtain ⟨c, -, hc⟩ := mem_pathRows.1 hu
    exact ((mem_rowsOf hs).1 hc).1
  constructor
  · intro h
    exact ⟨List.mem_of_find?_eq_some h, by simpa using List.find?_some h⟩
  · rintro ⟨ht, rfl⟩
    cases hf : db.walkTransaction b t.txid with
    | none => exact absurd (List.find?_eq_none.1 hf t ht) (by simp)
    | some u =>
      have hu : u.txid = t.txid := by simpa using List.find?_some hf
      have hum := hsub u (List.mem_of_find?_eq_some hf)
      exact congrArg some (List.inj_on_of_nodup_map hs.transactionTxids hum (hsub t ht) hu)

/-- A transaction row is met in one block of a root path only. -/
theorem Tree.block_unique (h : db.Tree) (hb : b ∈ db.blocks) {c d : BlockDAO}
    {t : TransactionDAO} (hc : c ∈ db.path b) (hd : d ∈ db.path b) (htc : t ∈ db.rowsOf c.id)
    (htd : t ∈ db.rowsOf d.id) : c = d := by
  have hnodup := (List.nodup_flatMap.1 (List.Nodup.of_map _ (h.txidOnce b hb))).2
  have : Std.Symm (Function.onFun List.Disjoint fun c : BlockDAO => db.rowsOf c.id) :=
    ⟨fun _ _ hdis => hdis.symm⟩
  by_contra hne
  exact hnodup.forall hc hd hne htc htd

theorem mem_chainTransactions (hs : db.Schema E) {txid : Str} {ids : ℕ → Bool}
    {t : TransactionDAO} : t ∈ db.chainTransactions txid ids ↔
      ∃ c ∈ db.blocks, ids c.id = true ∧ t ∈ db.rowsOf c.id ∧ t.txid = txid := by
  simp only [chainTransactions, List.mem_filterMap, List.mem_filter, Option.filter_eq_some_iff,
    decide_eq_true_eq, mem_rowsOf hs]
  constructor
  · rintro ⟨⟨i, j⟩, ⟨hp, hi⟩, ht, hx⟩
    obtain ⟨c, hc, hci⟩ := hs.blockTransactionBlock _ hp
    obtain ⟨htm, htj⟩ := (transactionById_eq_some hs).1 ht
    refine ⟨c, hc, hci ▸ hi, ⟨htm, ?_⟩, hx⟩
    rw [hci, htj]
    exact hp
  · rintro ⟨c, hc, hci, ⟨htm, hp⟩, hx⟩
    exact ⟨_, ⟨hp, hci⟩, (transactionById_eq_some hs).2 ⟨htm, rfl⟩, hx⟩

theorem Tree.chainTransactions_nodup (hs : db.Schema E) (h : db.Tree) (hb : b ∈ db.blocks)
    (txid : Str) {ids : ℕ → Bool} (hids : ∀ c ∈ db.blocks, ids c.id = true → c ∈ db.path b) :
    (db.chainTransactions txid ids).Nodup := by
  refine List.pairwise_filterMap.2
    ((hs.blockTransactionKeys.filter _).imp_of_mem fun {p q} hp hq hpq t ht u hu htu => hpq ?_)
  rw [List.mem_filter] at hp hq
  rw [Option.filter_eq_some_iff] at ht hu
  subst htu
  obtain ⟨c, hc, hci⟩ := hs.blockTransactionBlock _ hp.1
  obtain ⟨d, hd, hdi⟩ := hs.blockTransactionBlock _ hq.1
  obtain ⟨htm, htp⟩ := (transactionById_eq_some hs).1 ht.1
  obtain ⟨-, htq⟩ := (transactionById_eq_some hs).1 hu.1
  have hcd := h.block_unique hb (hids c hc (hci ▸ hp.2)) (hids d hd (hdi ▸ hq.2))
    ((mem_rowsOf hs).2 ⟨htm, by rw [hci, htp]; exact hp.1⟩)
    ((mem_rowsOf hs).2 ⟨htm, by rw [hdi, htq]; exact hq.1⟩)
  exact Prod.ext (by rw [← hci, ← hdi, hcd]) (htp.symm.trans htq)

theorem Tree.getTransactionInChain_eq (hs : db.Schema E) (h : db.Tree) (hb : b ∈ db.blocks)
    (txid : Str) : db.getTransactionInChain b txid = .ok (db.walkTransaction b txid) := by
  refine h.inChain_eq hs hb (Q := fun t c => t ∈ db.rowsOf c.id ∧ t.txid = txid)
    (fun ids t => mem_chainTransactions hs)
    (fun ids hids => h.chainTransactions_nodup hs hb txid hids) fun t => ?_
  rw [walkTransaction_eq_some hs, mem_pathRows]
  exact ⟨fun ⟨⟨c, hc, htc⟩, hx⟩ => ⟨c, hc, htc, hx⟩, fun ⟨c, hc, htc, hx⟩ => ⟨⟨c, hc, htc⟩, hx⟩⟩

/-- The block a walk from `b` to the root finds. -/
def walkBlock (db : Database) (b : BlockDAO) (blockHash : Option Str) (idx : Option ℕ) :
    Option BlockDAO := (db.path b).find? (matchesBlock blockHash idx)

theorem matchesBlock_iff {blockHash : Option Str} {idx : Option ℕ} {c : BlockDAO} :
    matchesBlock blockHash idx c = true ↔
      (∀ s, blockHash = some s → c.blockHash = s) ∧ ∀ i, idx = some i → c.idx = i := by
  cases blockHash <;> cases idx <;> simp [matchesBlock]

theorem Tree.walkBlock_eq_some (hs : db.Schema E) (h : db.Tree) (hb : b ∈ db.blocks)
    {blockHash : Option Str} {idx : Option ℕ} (hgiven : blockHash ≠ none ∨ idx ≠ none)
    {c : BlockDAO} : db.walkBlock b blockHash idx = some c ↔
      c ∈ db.path b ∧ matchesBlock blockHash idx c = true := by
  constructor
  · exact fun hf => ⟨List.mem_of_find?_eq_some hf, List.find?_some hf⟩
  · rintro ⟨hc, hm⟩
    cases hf : db.walkBlock b blockHash idx with
    | none => exact absurd hm (List.find?_eq_none.1 hf c hc)
    | some d =>
      have hd := List.mem_of_find?_eq_some hf
      have hdm := matchesBlock_iff.1 (List.find?_some hf)
      have hcm := matchesBlock_iff.1 hm
      rcases hgiven with hg | hg
      · obtain ⟨s, hsome⟩ := Option.ne_none_iff_exists'.1 hg
        exact congrArg some (List.inj_on_of_nodup_map hs.blockHashes (h.mem_blocks hb hd)
          (h.mem_blocks hb hc) ((hdm.1 s hsome).trans (hcm.1 s hsome).symm))
      · obtain ⟨i, hi⟩ := Option.ne_none_iff_exists'.1 hg
        exact congrArg some (Forest.eq_of_rank h.ranked hb hd hc
          ((hdm.2 i hi).trans (hcm.2 i hi).symm))

theorem Tree.getBlockInChain_eq (hs : db.Schema E) (h : db.Tree) (hb : b ∈ db.blocks)
    {blockHash : Option Str} {idx : Option ℕ} (hgiven : blockHash ≠ none ∨ idx ≠ none) :
    db.getBlockInChain b blockHash idx = .ok (db.walkBlock b blockHash idx) := by
  refine h.inChain_eq hs hb (Q := fun d c => d = c ∧ matchesBlock blockHash idx c = true)
    (fun ids d => ?_) (fun ids _ => (List.Nodup.of_map _ hs.blockIds).filter _) fun d => ?_
  · rw [List.mem_filter, Bool.and_eq_true]
    exact ⟨fun ⟨hd, hid, hm⟩ => ⟨d, hd, hid, rfl, hm⟩,
      fun ⟨c, hc, hid, hdc, hm⟩ => ⟨hdc ▸ hc, hdc ▸ hid, hdc ▸ hm⟩⟩
  · rw [h.walkBlock_eq_some hs hb hgiven]
    exact ⟨fun ⟨hd, hm⟩ => ⟨d, hd, rfl, hm⟩, fun ⟨c, hc, hdc, hm⟩ => ⟨hdc ▸ hc, hdc ▸ hm⟩⟩

theorem mem_inflowsOf {t : TransactionDAO} {i : InflowDAO} :
    i ∈ db.inflowsOf t ↔ i ∈ db.inflows ∧ i.transactionId = t.id := by
  simp [inflowsOf]

theorem spentIn_iff (hs : db.Schema E) {txid : Str} {idx : ℕ} {ids : ℕ → Bool} :
    db.spentIn txid idx ids = true ↔ ∃ c ∈ db.blocks, ids c.id = true ∧
      ∃ t ∈ db.rowsOf c.id, ∃ i ∈ db.inflowsOf t, i.outflowTxid = txid ∧ i.outflowIdx = idx := by
  simp only [spentIn, List.any_eq_true, Bool.and_eq_true, decide_eq_true_eq, mem_rowsOf hs,
    mem_inflowsOf]
  constructor
  · rintro ⟨i, hi, ⟨htx, hix⟩, p, hp, hpt, hid⟩
    obtain ⟨c, hc, hci⟩ := hs.blockTransactionBlock p hp
    obtain ⟨t, ht, hti⟩ := hs.blockTransactionTransaction p hp
    refine ⟨c, hc, hci ▸ hid, t, ⟨ht, ?_⟩, i, ⟨hi, hpt.symm.trans hti.symm⟩, htx, hix⟩
    rw [hci, hti]
    exact hp
  · rintro ⟨c, hc, hid, t, ⟨ht, hp⟩, i, ⟨hi, hit⟩, htx, hix⟩
    exact ⟨i, hi, ⟨htx, hix⟩, _, hp, hit.symm, hid⟩

theorem Tree.inflowsInChainCount_eq (hs : db.Schema E) (h : db.Tree) (hb : b ∈ db.blocks)
    (txid : Str) (idx : ℕ) :
    db.inflowsInChainCount b txid idx = if db.SpentOnWalk b txid idx then 1 else 0 := by
  have hiff : (((db.ancestry b).1 ≠ [] ∧
        db.spentIn txid idx (fun i => decide (i ∈ (db.ancestry b).1))) ∨
      (db.ancestry b).2.any fun cap => db.spentIn txid idx (db.inCanonical cap)) ↔
        db.SpentOnWalk b txid idx := by
    simp only [spentIn_iff hs, Option.any_eq_true, SpentOnWalk, mem_pathRows, decide_eq_true_eq]
    constructor
    · rintro (⟨-, c, hc, hid, t, ht, hi⟩ | ⟨cap, hcap, c, hc, hid, t, ht, hi⟩)
      · exact ⟨t, ⟨c, (h.inAncestry_iff hs hb hc).1 (by simp [inAncestry, hid]), ht⟩, hi⟩
      · exact ⟨t, ⟨c, (h.inAncestry_iff hs hb hc).1 (by simp [inAncestry, hcap, hid]), ht⟩, hi⟩
    · rintro ⟨t, ⟨c, hc, ht⟩, hi⟩
      have hcb := h.mem_blocks hb hc
      have hin := (h.inAncestry_iff hs hb hcb).2 hc
      rw [inAncestry, Bool.or_eq_true, decide_eq_true_eq, Option.any_eq_true] at hin
      rcases hin with hid | ⟨cap, hcap, hid⟩
      · exact Or.inl ⟨List.ne_nil_of_mem hid, c, hcb, hid, t, ht, hi⟩
      · exact Or.inr ⟨cap, hcap, c, hcb, hid, t, ht, hi⟩
  unfold inflowsInChainCount
  split_ifs with h1 h2 h3 h4
  · rfl
  · exact absurd (hiff.1 (Or.inl h1)) h2
  · rfl
  · exact absurd (hiff.1 (Or.inr h3)) h4
  · rename_i h5
    exact absurd (hiff.2 h5) (by tauto)
  · rfl

theorem Tree.ancestryBlocksQ_eq (hs : db.Schema E) (h : db.Tree) (hb : b ∈ db.blocks) :
    db.ancestryBlocksQ b = db.path b := by
  have hperm : (db.blocks.filter fun c => db.inAncestry b c.id).Perm (db.path b) := by
    refine (List.perm_ext_iff_of_nodup ((List.Nodup.of_map _ hs.blockIds).filter _)
      (Forest.path_nodup h.ranked hb)).2 fun c => ?_
    rw [List.mem_filter]
    exact ⟨fun ⟨hc, hin⟩ => (h.inAncestry_iff hs hb hc).1 hin,
      fun hc => ⟨h.mem_blocks hb hc, (h.inAncestry_iff hs hb (h.mem_blocks hb hc)).2 hc⟩⟩
  have hpair := Forest.path_pairwise h.ranked hb
  have hkeys : ((db.path b).map fun c : BlockDAO => OrderDual.toDual c.idx).Nodup :=
    List.pairwise_map.2 (hpair.imp fun hlt heq => absurd hlt (by
      rw [OrderDual.toDual_inj.1 heq]
      exact lt_irrefl _))
  rw [ancestryBlocksQ, Table.orderBy_eq_of_perm hperm ((hperm.map _).nodup_iff.2 hkeys)]
  exact Table.orderBy_eq_self (hpair.imp fun hlt => OrderDual.toDual_le_toDual.2 hlt.le)

/-- **The fast ancestry path is the plain walk.**  On a forest of blocks with a
materialised root path, each query answers what a walk from the block through
`prev` to the root finds: the blocks in descending order, the block with a given
hash or index, the transaction with a given txid, and whether an outpoint is
spent. -/
theorem ancestry_eq_walk (hs : db.Schema E) (h : db.Tree) (hb : b ∈ db.blocks) :
    db.ancestryBlocksQ b = db.path b ∧ (db.path b).Pairwise (fun c d => d.idx < c.idx) ∧
      (∀ blockHash idx, blockHash ≠ none ∨ idx ≠ none →
        db.getBlockInChain b blockHash idx = .ok (db.walkBlock b blockHash idx)) ∧
      (∀ txid, db.getTransactionInChain b txid = .ok (db.walkTransaction b txid)) ∧
      ∀ txid idx,
        db.inflowsInChainCount b txid idx = if db.SpentOnWalk b txid idx then 1 else 0 :=
  ⟨h.ancestryBlocksQ_eq hs hb, Forest.path_pairwise h.ranked hb,
    fun _ _ hgiven => h.getBlockInChain_eq hs hb hgiven, h.getTransactionInChain_eq hs hb,
    h.inflowsInChainCount_eq hs hb⟩

end

/-- A block row with little in it. -/
def forkRow (id idx : ℕ) (hash prevHash : Char) (prevId : Option ℕ) : BlockDAO where
  id := id
  blockHash := [hash]
  version := ['1']
  idx := idx
  prevHash := [prevHash]
  timestamp := Sample.minutesPast 0
  merkleRoot := []
  proofOfWork := 0
  target := []
  prevId := prevId

/-- Two branches on a first block; the table still holds the shorter one, and the
longer one spends what the first block paid. -/
def forked : Database where
  blocks := [forkRow 1 0 'g' 'x' none, forkRow 2 1 'a' 'g' (some 1), forkRow 3 1 'b' 'g' (some 1),
    forkRow 4 2 'c' 'b' (some 3)]
  transactions := [⟨1, ['t'], ['1'], Sample.minutesPast 0, none, none, some ['x']⟩,
    ⟨2, ['u'], ['1'], Sample.minutesPast 1, none, none, none⟩]
  outflows := [⟨1, ['t'], 0, 500, some ['k'], none, none, none, none, 1⟩]
  inflows := [⟨1, ['u'], 0, ['t'], 0, some 1, 2⟩]
  blockTransactions := [(1, 1), (4, 2)]
  longestChainBlocks := [⟨2, 1⟩, ⟨1, 0⟩]

/-- The queries from the tip of the branch that is not in the table. -/
theorem ancestry_eq_walk_forked :
    forked.ancestryBlocksQ (forkRow 4 2 'c' 'b' (some 3)) =
        forked.path (forkRow 4 2 'c' 'b' (some 3)) ∧
      (forked.path (forkRow 4 2 'c' 'b' (some 3))).Pairwise (fun c d => d.idx < c.idx) ∧
      (∀ blockHash idx, blockHash ≠ none ∨ idx ≠ none →
        forked.getBlockInChain (forkRow 4 2 'c' 'b' (some 3)) blockHash idx =
          .ok (forked.walkBlock (forkRow 4 2 'c' 'b' (some 3)) blockHash idx)) ∧
      (∀ txid, forked.getTransactionInChain (forkRow 4 2 'c' 'b' (some 3)) txid =
        .ok (forked.walkTransaction (forkRow 4 2 'c' 'b' (some 3)) txid)) ∧
      ∀ txid idx, forked.inflowsInChainCount (forkRow 4 2 'c' 'b' (some 3)) txid idx =
        if forked.SpentOnWalk (forkRow 4 2 'c' 'b' (some 3)) txid idx then 1 else 0 :=
  ancestry_eq_walk (E := Env.knowing []) (by decide +kernel) (by decide +kernel)
    (by decide +kernel)

end Database

end GumptionChain
