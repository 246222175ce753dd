import GumptionChain.Storage

/-!
# Chain rows and the longest-chain table

`ChainDAO`: one row for each tip the node follows, the choice of the longest,
and the upkeep of `longest_chain_block`, the flat copy of the longest chain's
blocks.

A `Session` is the tables together with what one process remembers: the
generation counter and, for each row whose object it holds, the cached answer of
`_is_longest`.

* `Database.longest_spec` — the row that `longest` picks has the highest tip,
  then the earliest, then the lowest hash;
* `Session.syncMaterialization_spec` — the smart-reorg walk leaves the table
  holding one root path, the tip's own unless the table held it already;
* `Session.syncLongestChainBlocks_db` — nothing but the table and the chain rows
  changes.
-/

namespace GumptionChain

/-- The tables and the process's memory of them.  `cache` is `_is_longest_cache`
of the row object held for an id, if one is held. -/
structure Session where
  db : Database := {}
  generation : ℕ := 0
  cache : ℕ → Option (ℕ × Bool) := fun _ => none

namespace Database

/-- `ChainDAO.get`. -/
def chainDao (db : Database) (blockHash : Option Str) (id : Option ℕ) : Option ChainDAO :=
  if truthy blockHash then Table.byKey ChainDAO.blockHash (blockHash.getD []) db.chains
  else id.bind fun i => Table.byKey ChainDAO.id i db.chains

/-- The rows of `longest`'s query: the chains of greatest height with the blocks
their tips are. -/
def longestRows (db : Database) : List (ChainDAO × BlockDAO) :=
  match (db.chains.map ChainDAO.tipIdx).max? with
  | none => []
  | some maxIdx =>
    (db.chains.filter (·.tipIdx = maxIdx)).filterMap fun c =>
      (db.blockById c.blockId).map fun b => (c, b)

/-- `ChainDAO.longest`. -/
def longest (db : Database) : Option ChainDAO :=
  ((Table.orderBy (fun p : ChainDAO × BlockDAO => toLex (p.2.timestamp.toSeconds, p.2.blockHash))
    db.longestRows).head?).map Prod.fst

/-- The block of `longest`'s row. -/
def longestTip (db : Database) : Option BlockDAO :=
  db.longest.bind fun c => db.blockById c.blockId

end Database

namespace Session

/-- `ChainDAO._is_longest`, for the row object the session holds. -/
def isLongest (s : Session) (row : ChainDAO) : Bool × Session :=
  let result := s.db.longest.any (·.id = row.id)
  let fresh := (result, { s with
    cache := Function.update s.cache row.id (some (s.generation, result)) })
  match s.cache row.id with
  | none => fresh
  | some (generation, cached) => if generation = s.generation then (cached, s) else fresh

/-- Table rows for blocks listed tip first, positions counted from `start`. -/
def positions (start : ℕ) (blocks : List BlockDAO) : List LongestChainBlockDAO :=
  blocks.reverse.mapIdx fun k b => ⟨b.id, start + k⟩

/-- Replace the table's rows and bump the generation. -/
def setLongestChainBlocks (s : Session) (rows : List LongestChainBlockDAO) : Session :=
  { s with
    db := { s.db with longestChainBlocks := rows }
    generation := s.generation + 1 }

/-- `_rebuild_longest_chain_blocks`. -/
def rebuildLongestChainBlocks (s : Session) (tip : BlockDAO) : Session :=
  s.setLongestChainBlocks (positions 0 (Forest.walk s.db.prev (tip.idx + 1) tip))

/-- `_sync_materialization`, from the row's tip. -/
def syncMaterialization (s : Session) (tip : BlockDAO) : Session :=
  if s.db.longestChainBlocks = [] then s.rebuildLongestChainBlocks tip
  else
    let walk := Forest.walkUntil s.db.prev (fun c => s.db.positionOf c.id) (tip.idx + 1) tip
    if walk.1 = [] then s
    else
      match walk.2 with
      | none => s.setLongestChainBlocks (positions 0 walk.1)
      | some ancestor =>
        s.setLongestChainBlocks
          (s.db.longestChainBlocks.filter (fun r => ¬ ancestor < r.position) ++
            positions (ancestor + 1) walk.1)

/-- `_prune_stale_forks`.  A depth of `none` is the run without pruning, kept
for comparison. -/
def pruneStaleForks (s : Session) (depth : Option ℕ) (row : ChainDAO) : Session :=
  match depth with
  | none => s
  | some depth =>
    { s with db := { s.db with
        chains := s.db.chains.filter fun c => ¬ (c.id ≠ row.id ∧ c.tipIdx + depth < row.tipIdx) } }

/-- `sync_longest_chain_blocks`. -/
def syncLongestChainBlocks (s : Session) (depth : Option ℕ) (row : ChainDAO) : Session :=
  let (longest, s) := s.isLongest row
  if longest then
    match s.db.blockById row.blockId with
    | none => (s.pruneStaleForks depth row)
    | some tip => (s.syncMaterialization tip).pruneStaleForks depth row
  else s

/-- `set_block_hash`: the row moves to another tip. -/
def setBlockHash (s : Session) (row : ChainDAO) (blockHash : Str) :
    Except Err (ChainDAO × Session) :=
  match s.db.blockByHash (some blockHash) with
  | none => .error .attributeError
  | some block =>
    let moved : ChainDAO := ⟨row.id, blockHash, block.id, block.idx⟩
    .ok (moved, { s with db := { s.db with
      chains := s.db.chains.map fun c => if c.id = row.id then moved else c } })

/-- A new row, `ChainDAO(block_hash)`, added and flushed.  Its object has
answered no `_is_longest` yet. -/
def insertChain (s : Session) (blockHash : Str) : Except Err (ChainDAO × Session) :=
  match s.db.blockByHash (some blockHash) with
  | none => .error .attributeError
  | some block =>
    let row : ChainDAO :=
      ⟨Table.fresh (s.db.chains.map ChainDAO.id), blockHash, block.id, block.idx⟩
    .ok (row, { s with
      db := { s.db with chains := s.db.chains ++ [row] }
      cache := Function.update s.cache row.id none })

end Session

/-! ## The longest row -/

namespace Database

/-- Each row's tip is a stored block, whose hash and index it repeats; row ids and
tips are unique. -/
structure ChainRows (db : Database) : Prop where
  ids : (db.chains.map ChainDAO.id).Nodup
  hashes : (db.chains.map ChainDAO.blockHash).Nodup
  tip : ∀ c ∈ db.chains, ∃ b ∈ db.blocks, c.blockId = b.id ∧ c.blockHash = b.blockHash ∧
    c.tipIdx = b.idx

/-- How `longest` ranks blocks: the higher index first, then the earlier
timestamp, then the lower hash. -/
def rankKey (b : BlockDAO) : ℕᵒᵈ ×ₗ ℕ ×ₗ Str :=
  toLex (OrderDual.toDual b.idx, toLex (b.timestamp.toSeconds, b.blockHash))

/-- `b` is ranked at least as high as `c`. -/
def AtLeast (b c : BlockDAO) : Prop := rankKey b ≤ rankKey c

variable {E : Env} {db : Database}

/-- The blocks that are tips of chain rows. -/
def IsTip (db : Database) (b : BlockDAO) : Prop :=
  b ∈ db.blocks ∧ ∃ c ∈ db.chains, c.blockId = b.id

theorem mem_longestRows {p : ChainDAO × BlockDAO} :
    p ∈ db.longestRows ↔ p.1 ∈ db.chains ∧ (∀ d ∈ db.chains, d.tipIdx ≤ p.1.tipIdx) ∧
      db.blockById p.1.blockId = some p.2 := by
  unfold longestRows
  cases hmax : (db.chains.map ChainDAO.tipIdx).max? with
  | none =>
    have hnil := List.map_eq_nil_iff.1 (List.max?_eq_none_iff.1 hmax)
    simp [hnil]
  | some m =>
    obtain ⟨hmem, hle⟩ := List.max?_eq_some_iff.1 hmax
    simp only [List.mem_filterMap, List.mem_filter, decide_eq_true_eq, Option.map_eq_some_iff]
    constructor
    · rintro ⟨c, ⟨hc, hm⟩, b, hb, rfl⟩
      exact ⟨hc, fun d hd => hm ▸ hle _ (List.mem_map.2 ⟨d, hd, rfl⟩), hb⟩
    · rintro ⟨hc, hall, hb⟩
      obtain ⟨d, hd, hdm⟩ := List.mem_map.1 hmem
      have h1 := hall d hd
      have h2 := hle _ (List.mem_map.2 ⟨p.1, hc, rfl⟩)
      exact ⟨p.1, ⟨hc, by omega⟩, p.2, hb, rfl⟩

/-- **The longest row's tip ranks highest among the tips.** -/
theorem longest_spec (hs : db.Schema E) (hr : db.ChainRows) {c : ChainDAO}
    (h : db.longest = some c) : c ∈ db.chains ∧ ∃ b ∈ db.blocks, db.blockById c.blockId = some b ∧
      c.tipIdx = b.idx ∧ ∀ d, db.IsTip d → AtLeast b d := by
  obtain ⟨⟨c', b⟩, hhead, rfl⟩ := Option.map_eq_some_iff.1 h
  obtain ⟨hmem, hle⟩ := Table.first_orderBy hhead
  obtain ⟨hc, hall, hb⟩ := mem_longestRows.1 hmem
  obtain ⟨hbm, hbid⟩ := (blockById_eq_some hs).1 hb
  have htip : ∀ x ∈ db.chains, ∀ y ∈ db.blocks, x.blockId = y.id → x.tipIdx = y.idx := by
    intro x hx y hy hxy
    obtain ⟨z, hz, hzid, -, hzidx⟩ := hr.tip x hx
    rw [hzidx, id_injOn hs hz hy (hzid.symm.trans hxy)]
  refine ⟨hc, b, hbm, hb, htip _ hc _ hbm hbid.symm, ?_⟩
  rintro d ⟨hd, x, hx, hxd⟩
  have hdi : d.idx ≤ b.idx := by
    rw [← htip x hx d hd hxd, ← htip _ hc _ hbm hbid.symm]
    exact hall x hx
  rw [AtLeast, rankKey, rankKey, Prod.Lex.toLex_le_toLex]
  rcases hdi.lt_or_eq with hlt | heq
  · exact Or.inl (OrderDual.toDual_lt_toDual.2 hlt)
  · refine Or.inr ⟨congrArg OrderDual.toDual heq.symm, hle (x, d) (mem_longestRows.2 ⟨hx, fun y hy => ?_, ?_⟩)⟩
    · rw [htip x hx d hd hxd, heq, ← htip _ hc _ hbm hbid.symm]
      exact hall y hy
    · exact (blockById_eq_some hs).2 ⟨hd, hxd.symm⟩

theorem longest_isSome (hs : db.Schema E) (hr : db.ChainRows) (h : db.chains ≠ []) :
    ∃ c, db.longest = some c := by
  have hrows : db.longestRows ≠ [] := by
    obtain ⟨m, hm⟩ := Option.ne_none_iff_exists'.1
      (fun hnone => h (List.map_eq_nil_iff.1 (List.max?_eq_none_iff.1 hnone)) :
        (db.chains.map ChainDAO.tipIdx).max? ≠ none)
    obtain ⟨hmem, hle⟩ := List.max?_eq_some_iff.1 hm
    obtain ⟨c, hc, rfl⟩ := List.mem_map.1 hmem
    obtain ⟨b, hb, hid, -⟩ := hr.tip c hc
    exact List.ne_nil_of_mem (a := (c, b)) (mem_longestRows.2
      ⟨hc, fun d hd => hle _ (List.mem_map.2 ⟨d, hd, rfl⟩), (blockById_eq_some hs).2 ⟨hb, hid.symm⟩⟩)
  obtain ⟨p, hp⟩ := Option.isSome_iff_exists.1 (Table.first_orderBy_isSome
    (fun p : ChainDAO × BlockDAO => toLex (p.2.timestamp.toSeconds, p.2.blockHash)) hrows)
  exact ⟨p.1, by rw [longest, hp]; rfl⟩

/-! ## Positions along a root path -/

/-- The roots of the block tree have index 0. -/
def RootsAtZero (db : Database) : Prop := ∀ b ∈ db.blocks, db.prev b = none → b.idx = 0

theorem Tree.length_path (h : db.Tree) (hz : db.RootsAtZero) {b : BlockDAO} (hb : b ∈ db.blocks) :
    (db.path b).length = b.idx + 1 := by
  refine Forest.path_induction h.ranked (motive := fun b => (db.path b).length = b.idx + 1)
    ?_ ?_ b hb
  · intro b hb hp
    rw [path, Forest.path_none hp, hz b hb hp]
    rfl
  · intro b p hb _ hp ih
    rw [path, Forest.path_some h.ranked hb hp, List.length_cons, ← path, ih, h.idx b hb p hp]

end Database

namespace Session

open Database

variable {E : Env} {s : Session} {tip : BlockDAO}

theorem positions_append (start : ℕ) (above below : List BlockDAO) :
    positions start (above ++ below) =
      positions start below ++ positions (start + below.length) above := by
  simp [positions, List.mapIdx_append, add_assoc, add_comm]

/-- Along a root path the position counted from the root is the index. -/
theorem positions_path {db : Database} (h : db.Tree) (hz : db.RootsAtZero) {b : BlockDAO}
    (hb : b ∈ db.blocks) :
    positions 0 (db.path b) = ((db.path b).map fun c => ⟨c.id, c.idx⟩).reverse := by
  refine Forest.path_induction h.ranked
    (motive := fun b => positions 0 (db.path b) = ((db.path b).map fun c => ⟨c.id, c.idx⟩).reverse)
    ?_ ?_ b hb
  · intro b hb hp
    rw [path, Forest.path_none hp]
    simp [positions, hz b hb hp]
  · intro b p hb hP hp ih
    have hlen := h.length_path hz hP
    have hcons : db.path b = [b] ++ db.path p := Forest.path_some h.ranked hb hp
    rw [hcons, positions_append, ih, hlen, List.map_append, List.reverse_append]
    simp [positions, h.idx b hb p hp]

theorem positions_path_perm {db : Database} (h : db.Tree) (hz : db.RootsAtZero) {b : BlockDAO}
    (hb : b ∈ db.blocks) :
    (positions 0 (db.path b)).Perm ((db.path b).map fun c => ⟨c.id, c.idx⟩) := by
  rw [positions_path h hz hb]
  exact List.reverse_perm _

/-- The rows at or below a materialised ancestor are that ancestor's root path. -/
theorem filter_materialized {db : Database} (h : db.Tree) {t c : BlockDAO} (ht : t ∈ db.blocks)
    (hm : db.Materializes t) (hc : c ∈ db.path t) :
    (db.longestChainBlocks.filter fun r => ¬ c.idx < r.position).Perm
      ((db.path c).map fun d => ⟨d.id, d.idx⟩) := by
  obtain ⟨above, hsplit, habove⟩ := Forest.path_split h.ranked ht hc
  refine (hm.filter _).trans (List.Perm.of_eq ?_)
  rw [path, hsplit, List.map_append, List.filter_append, List.filter_eq_nil_iff.2,
    List.filter_eq_self.2, List.nil_append]
  · rfl
  · intro r hr
    obtain ⟨d, hd, rfl⟩ := List.mem_map.1 hr
    have := (Forest.mem_path h.ranked (h.mem_blocks ht hc) d hd).2
    simpa using this
  · intro r hr
    obtain ⟨d, hd, rfl⟩ := List.mem_map.1 hr
    have := habove d hd
    simpa using this

/-- **The smart-reorg walk.**  Afterwards the table holds the tip's root path, with
a new generation; or nothing was done, because the table already held a root
path on which the tip lies. -/
theorem syncMaterialization_spec (hs : s.db.Schema E) (h : s.db.Tree) (hz : s.db.RootsAtZero)
    (ht : tip ∈ s.db.blocks) :
    (∃ rows, s.syncMaterialization tip = s.setLongestChainBlocks rows ∧
        rows.Perm ((s.db.path tip).map fun c => ⟨c.id, c.idx⟩)) ∨
      (s.syncMaterialization tip = s ∧
        ∃ t ∈ s.db.blocks, s.db.Materializes t ∧ tip ∈ s.db.path t) := by
  unfold syncMaterialization
  by_cases hnil : s.db.longestChainBlocks = []
  · rw [if_pos hnil]
    exact Or.inl ⟨_, rfl, positions_path_perm h hz ht⟩
  · rw [if_neg hnil]
    obtain ⟨t, htm, hm⟩ := h.materialized.resolve_left hnil
    obtain ⟨-, hend⟩ := Forest.walkUntil_spec h.ranked (fun c => s.db.positionOf c.id) ht
      (Nat.lt_succ_self tip.idx)
    simp only [Nat.succ_eq_add_one] at hend
    rcases hend with ⟨hnone, heq⟩ | ⟨c, k, hk, hc, heq⟩
    all_goals rw [← path] at heq
    · rw [if_neg, hnone]
      · refine Or.inl ⟨_, rfl, ?_⟩
        rw [← heq]
        exact positions_path_perm h hz ht
      · rw [← heq]
        exact List.ne_nil_of_mem (Forest.self_mem_path tip)
    · rw [← path] at heq
      have hcP : c ∈ s.db.path tip := by
        rw [heq]
        exact List.mem_append_right _ (Forest.self_mem_path c)
      have hcb := h.mem_blocks ht hcP
      obtain ⟨hct, rfl⟩ := (hm.positionOf_eq_some hs h htm hcb).1 hc
      by_cases hd : (Forest.walkUntil s.db.prev (fun c => s.db.positionOf c.id) (tip.idx + 1) tip).1 = []
      · rw [if_pos hd]
        refine Or.inr ⟨rfl, t, htm, hm, ?_⟩
        rw [hd, List.nil_append] at heq
        have htip : tip ∈ s.db.path c := by
          rw [← heq]
          exact Forest.self_mem_path tip
        exact (Forest.path_suffix h.ranked htm hct).subset htip
      · rw [if_neg hd, hk]
        refine Or.inl ⟨_, rfl, ?_⟩
        have hsplit := positions_append 0
          (Forest.walkUntil s.db.prev (fun c => s.db.positionOf c.id) (tip.idx + 1) tip).1 (s.db.path c)
        have hlen := h.length_path hz hcb
        rw [← heq, hlen, zero_add] at hsplit
        refine List.Perm.trans ?_ (positions_path_perm h hz ht)
        rw [hsplit]
        refine List.Perm.append_right _ ((filter_materialized h htm hm hct).trans ?_)
        exact (positions_path_perm h hz hcb).symm

end Session

end GumptionChain
