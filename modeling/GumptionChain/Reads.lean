import GumptionChain.Answers
import GumptionChain.Lib.Effect

/-!
# Reads through a handle

The reads of `Chain`: balances, unspent and unrescinded outflows, leaderboards and
block lookups.  Each takes the handle's row from `to_dao()` and asks it.

* `Chain.Settled` — `to_dao()` moves no row;
* `reads_keep_rows_iff` — a read leaves the chain rows alone exactly then.
-/

namespace GumptionChain

open Database Effect

/-- What a read does to the session: an exception keeps what was done before. -/
abbrev Query := EStateM Err Session

/-- A question to a row; `None` has no attributes. -/
def ofRow {α : Type} (query : Session → ChainDAO → α × Session) : Option ChainDAO → Query α
  | none => throw .attributeError
  | some dao => asking fun s => query s dao

/-- The rows an iterator yields before the amounts reach the limit. -/
def upTo (limit : Option ℤ) : ℤ → List (Str × ℕ × Outflow) → List (Str × ℕ × Outflow)
  | _, [] => []
  | amount, o :: rest =>
    let amount := amount + o.2.2.amount.getD 0
    o :: if limit.any (· ≤ amount) then [] else upTo limit amount rest

/-! ## The reads -/

namespace Reads

variable (E : Env) (c : Chain)

/-- `self.to_dao()`. -/
def toDao : Query (Option ChainDAO) := calling c.toDao

/-- A question to the handle's row. -/
def onRow {α : Type} (query : Session → ChainDAO → α × Session) : Query α := do
  let dao ← toDao c
  ofRow query dao

/-- A question to the handle's row, and one to the tables when there is none. -/
def onRowOr {α : Type} (query : Session → ChainDAO → α × Session) (otherwise : Database → α) :
    Query α := do
  match ← toDao c with
  | some dao => asking fun s => query s dao
  | none => asking fun s => (otherwise s.db, s)

/-- `unspent_outflows`, listed. -/
def unspentOutflows (address : Str) (limit : Option ℤ) : Query (List (Str × ℕ × Outflow)) := do
  let rows ← onRow c fun s dao => s.unspentOutflows dao address
  return upTo limit 0 (rows.map OutflowDAO.shown)

/-- `unrescinded_outflows`, listed. -/
def unrescindedOutflows (subject : Str) (kind : StakeKind) :
    Query (List (Str × ℕ × Outflow)) := do
  let rows ← onRow c fun s dao => s.unrescindedOutflows dao subject kind none
  return rows.map OutflowDAO.shown

/-- `unrescinded_address_outflows`, listed. -/
def unrescindedAddressOutflows (address subject : Str) (kind : StakeKind) (limit : Option ℤ) :
    Query (List (Str × ℕ × Outflow)) := do
  let rows ← onRow c fun s dao => s.unrescindedOutflows dao subject kind (some address)
  return upTo limit 0 (rows.map OutflowDAO.shown)

/-- `balance`. -/
def balance (address : Str) : Query ℤ := onRow c fun s dao => s.signingKeyBalance dao address

/-- `opposition_balance`. -/
def oppositionBalance (subject : Str) : Query ℤ :=
  onRow c fun s dao => s.oppositionBalance dao subject

/-- `support_balance`. -/
def supportBalance (subject : Str) : Query ℤ := onRow c fun s dao => s.supportBalance dao subject

/-- `signing_key_leaderboard`. -/
def signingKeyLeaderboard (limit : Option ℕ) : Query (List (Str × ℤ)) :=
  onRow c fun s dao => s.signingKeyLeaderboard dao none none limit

/-- `subject_leaderboard`. -/
def subjectLeaderboard (sortBy : SubjectOrder) (ascending : Bool) (limit : Option ℕ) :
    Query (List SubjectTotals) :=
  onRow c fun s dao => s.subjectLeaderboard dao sortBy ascending limit

/-- `get_block` after `to_dao()`. -/
def blockOf (blockHash : Str) : Option ChainDAO → Query (Option Block)
  | none => pure none
  | some dao => calling fun s =>
    match s.db.blockById dao.blockId with
    | none => .error .attributeError
    | some tip => do
      let blockDao ← s.db.getBlockInChain tip (some blockHash) none
      return (blockDao.map (Block.fromDao s.db), s)

/-- `get_block`. -/
def getBlock (blockHash : Str) : Query (Option Block) := do
  let dao ← toDao c
  blockOf blockHash dao

/-- `get_block_by_reverse_index` after `to_dao()`. -/
def reverseBlock (i : ℤ) : Option ChainDAO → Query (Option Block)
  | some dao => calling fun s =>
    let index : ℤ := (((c.lastBlock s.db).bind Block.idx).getD 0 : ℕ) - i
    match s.db.blockById dao.blockId with
    | none => .error .attributeError
    | some tip => do
      let blockDao ← if index < 0 then .ok none else s.db.getBlockInChain tip none (some index.toNat)
      return (blockDao.map (Block.fromDao s.db), s)
  | none => calling fun s =>
    match c.lastBlock s.db with
    | none => .ok (none, s)
    | some last => do
      let block ← Chain.nthBlock E s.db (last.idx.getD 0 + 1) i last
      return (block, s)

/-- `get_block_by_reverse_index`. -/
def getBlockByReverseIndex (i : ℤ) : Query (Option Block) := do
  let dao ← toDao c
  reverseBlock E c i dao

/-- `block_target`. -/
def blockTarget (block : Option Block) : Query Str := do
  match c.lastBlock (← get).db with
  | none => return maxTarget
  | some last =>
    let lastIndex : ℤ := (last.idx.getD 0 : ℕ)
    let index : ℤ := match block with
      | some b => (b.idx.getD 0 : ℕ)
      | none => lastIndex + 1
    if index = 0 then return maxTarget
    else
      let i := lastIndex - index
      match ← getBlockByReverseIndex E c (i + 1) with
      | none => return maxTarget
      | some prevBlock =>
        if index % targetInterval = 0 then
          match ← getBlockByReverseIndex E c (i + targetInterval) with
          | none => return prevBlock.target
          | some startBlock => calling fun s => do
            let target ← Chain.scaledTarget E prevBlock startBlock
            return (target, s)
        else return prevBlock.target

/-- The lookup of `Chain`, with the session an exception leaves. -/
theorem toExcept_getBlockByReverseIndex (i : ℤ) (s : Session) :
    toExcept (getBlockByReverseIndex E c i) s = c.getBlockByReverseIndex E i s := by
  unfold getBlockByReverseIndex Chain.getBlockByReverseIndex toDao
  rw [toExcept_bind, toExcept_calling]
  refine bind_congr fun r => ?_
  obtain ⟨_ | dao, s'⟩ := r
  · exact toExcept_calling _ s'
  · exact toExcept_calling _ s'

/-- So for the target. -/
theorem toExcept_blockTarget (block : Option Block) (s : Session) :
    toExcept (blockTarget E c block) s = c.blockTarget E block s := by
  unfold blockTarget Chain.blockTarget
  rw [toExcept_bind]
  show toExcept (match c.lastBlock s.db with | none => _ | some _ => _) s = _
  cases hlast : c.lastBlock s.db with
  | none => rfl
  | some last =>
    cases block
    all_goals
      simp only
      rw [apply_ite (fun x => toExcept x s)]
      refine if_congr Iff.rfl rfl ?_
      rw [toExcept_bind, toExcept_getBlockByReverseIndex]
      refine bind_congr fun r => ?_
      obtain ⟨_ | prevBlock, s'⟩ := r
      · rfl
      · simp only
        rw [apply_ite (fun x => toExcept x s')]
        refine if_congr Iff.rfl ?_ rfl
        rw [toExcept_bind, toExcept_getBlockByReverseIndex]
        refine bind_congr fun r => ?_
        obtain ⟨_ | startBlock, s''⟩ := r
        · rfl
        · exact toExcept_calling _ s''

end Reads

/-- The reads of a handle that go through `to_dao()`.  The target of a block of index 0
is fixed: no row is asked for it.  Whatever else a row is asked, it writes no table:
`question` stands for `miller_leaderboard`, `address_holdings`, `address_transactions`,
`search_subjects` and the queries before it with `filter_pending=True`, `questionOr` for
`coinbase_stats` and `transaction_provenance`, which answer without a row, too. -/
inductive Chain.IsRead (E : Env) (c : Chain) : {α : Type} → Query α → Prop
  | unspentOutflows (address : Str) (limit : Option ℤ) :
      IsRead E c (Reads.unspentOutflows c address limit)
  | unrescindedOutflows (subject : Str) (kind : StakeKind) :
      IsRead E c (Reads.unrescindedOutflows c subject kind)
  | unrescindedAddressOutflows (address subject : Str) (kind : StakeKind) (limit : Option ℤ) :
      IsRead E c (Reads.unrescindedAddressOutflows c address subject kind limit)
  | balance (address : Str) : IsRead E c (Reads.balance c address)
  | oppositionBalance (subject : Str) : IsRead E c (Reads.oppositionBalance c subject)
  | supportBalance (subject : Str) : IsRead E c (Reads.supportBalance c subject)
  | signingKeyLeaderboard (limit : Option ℕ) : IsRead E c (Reads.signingKeyLeaderboard c limit)
  | subjectLeaderboard (sortBy : SubjectOrder) (ascending : Bool) (limit : Option ℕ) :
      IsRead E c (Reads.subjectLeaderboard c sortBy ascending limit)
  | getBlock (blockHash : Str) : IsRead E c (Reads.getBlock c blockHash)
  | getBlockByReverseIndex (i : ℤ) : IsRead E c (Reads.getBlockByReverseIndex E c i)
  | blockTarget (block : Option Block) (h : ∀ b, block = some b → b.idx.getD 0 ≠ 0) :
      IsRead E c (Reads.blockTarget E c block)
  | question {α : Type} (query : Session → ChainDAO → α × Session)
      (h : ∀ s dao, (query s dao).2.db = s.db) : IsRead E c (Reads.onRow c query)
  | questionOr {α : Type} (query : Session → ChainDAO → α × Session) (otherwise : Database → α)
      (h : ∀ s dao, (query s dao).2.db = s.db) : IsRead E c (Reads.onRowOr c query otherwise)

/-! ## What they leave -/

namespace Chain

open Session

variable {E : Env} {S : Set Str} {Q : Session → DateTime → Block → Prop} {depth : Option ℕ}
  {s s₀ : Session} {c : Chain}

/-- A handle as the node holds one: without a row, without a tip, or with a stored
block as its tip. -/
def Held (db : Database) (c : Chain) : Prop :=
  c.cid = none ∨ c.blockHash = none ∨ (db.blockByHash c.blockHash).isSome

/-- The handle has no tip, or some row has its tip, or it has no row. -/
def Settled (db : Database) (c : Chain) : Prop :=
  c.blockHash = none ∨ (db.chainDao c.blockHash none).isSome ∨
    c.cid.bind (fun cid => db.chainDao none (some cid)) = none

instance (db : Database) (c : Chain) : Decidable (c.Settled db) := by
  unfold Settled
  infer_instance

/-- A handle taken from a row of a run is held from then on. -/
theorem held_of_run (hS : E.CollisionFree (insert genesisText S))
    (hQ : ∀ s now b, Q s now b → b.Hashed S) (h₀ : s₀.Sound E S)
    (h : SessionRun E Q depth s₀ s) {row : ChainDAO} (hrow : row ∈ s₀.db.chains) :
    (fromDao row).Held s.db := by
  have hsound := h.sound hS hQ h₀
  obtain ⟨r, hr, -, hrh, -⟩ := h₀.inv.chains.tip row hrow
  have hr' := (h.pathBlocks hS hQ h₀ hr).1
  refine Or.inr (Or.inr ?_)
  rw [fromDao, hrh, (blockByHash_eq_some hsound.inv.ledger.schema).2
    ⟨hsound.inv.ledger.blockHash_ne_nil hr', hr', rfl⟩]
  rfl

theorem toDao_settled (h : c.Settled s.db) : ∃ dao, c.toDao s = .ok (dao, s) := by
  unfold toDao
  cases hh : c.blockHash with
  | none => exact ⟨_, rfl⟩
  | some hash =>
    simp only
    cases hd : s.db.chainDao (some hash) none with
    | some dao => exact ⟨_, rfl⟩
    | none =>
      rcases h with hnone | hrow | hcid
      · exact absurd (hh.symm.trans hnone) (by simp)
      · rw [hh, hd] at hrow
        exact absurd hrow (by simp)
      · rw [hcid]
        exact ⟨_, rfl⟩

/-- Otherwise the row with the handle's id is moved to the handle's tip, which it
did not have. -/
theorem toDao_unsettled (hc : c.Held s.db) (h : ¬ c.Settled s.db) : ∃ dao blk,
    dao ∈ s.db.chains ∧ c.blockHash = some blk.blockHash ∧ blk.blockHash ≠ [] ∧
      (∀ d ∈ s.db.chains, d.blockHash ≠ blk.blockHash) ∧
      c.toDao s = .ok (some (rowAt dao.id blk), s.withMoved dao.id blk) := by
  simp only [Settled, not_or, Option.not_isSome_iff_eq_none, ← ne_eq,
    Option.ne_none_iff_exists'] at h
  obtain ⟨⟨hash, hh⟩, hnone, dao, hdao⟩ := h
  obtain ⟨cid, hcid, hd⟩ := Option.bind_eq_some_iff.1 hdao
  obtain ⟨blk, hblk⟩ : ∃ blk, s.db.blockByHash (some hash) = some blk := by
    rcases hc with hno | hno | hstored
    · exact absurd (hcid.symm.trans hno) (by simp)
    · exact absurd (hh.symm.trans hno) (by simp)
    · exact Option.isSome_iff_exists.1 (hh ▸ hstored)
  have hhash : hash = blk.blockHash := Option.some.inj (blockByHash_mem hblk).2
  have hne : hash ≠ [] := blockByHash_ne_nil hblk
  rw [hh] at hnone
  refine ⟨dao, blk, (mem_of_chainDao_id hd).1, hh.trans (congrArg some hhash), hhash ▸ hne,
    hhash ▸ (chainDao_eq_none hne).1 hnone, ?_⟩
  unfold toDao
  rw [hh]
  simp only [hnone, hcid, Option.bind_some, hd]
  rw [setBlockHash_eq hblk]
  rfl

/-- Once a row has been asked for, the handle is settled. -/
theorem settled_after_toDao (hc : c.Held s.db) :
    c.Settled (after (Reads.toDao c) s).db := by
  by_cases h : c.Settled s.db
  · obtain ⟨dao, heq⟩ := toDao_settled h
    unfold after Reads.toDao calling
    rw [heq]
    exact h
  · obtain ⟨dao, blk, hdao, hh, hne, -, heq⟩ := toDao_unsettled hc h
    unfold after Reads.toDao calling
    rw [heq]
    refine Or.inr (Or.inl (Option.isSome_iff_ne_none.2 fun hnone => ?_))
    rw [hh, chainDao_eq_none hne] at hnone
    refine hnone (rowAt dao.id blk) ?_ rfl
    exact List.mem_map.2 ⟨dao, hdao, by simp⟩

/-- Nothing more happens to the tables once the handle is settled. -/
def Quiet (c : Chain) (s t : Session) : Prop := c.Settled s.db → t.db = s.db

theorem Quiet.refl (s : Session) : c.Quiet s s := fun _ => rfl

theorem Quiet.trans {t u : Session} (h : c.Quiet s t) (h' : c.Quiet t u) : c.Quiet s u :=
  fun hs => (h' ((h hs).symm ▸ hs)).trans (h hs)

/-- A handle that is settled is given its row, or none, and nothing changes. -/
theorem quiet_toDao : Within c.Quiet (Reads.toDao c) := by
  intro s hs
  obtain ⟨dao, heq⟩ := toDao_settled hs
  unfold after Reads.toDao calling
  rw [heq]

/-- What is asked of the stored rows leaves them alone. -/
theorem quiet_calling {α : Type} {f : Session → Except Err (α × Session)}
    (h : ∀ s a s', f s = .ok (a, s') → s' = s) : Within c.Quiet (calling f) :=
  Within.calling Quiet.refl fun s a s' hf _ => by rw [h s a s' hf]

theorem quiet_bind {α β : Type} {q : Query α} {f : α → Query β} (hq : Within c.Quiet q)
    (hf : ∀ a, Within c.Quiet (f a)) : Within c.Quiet (q >>= f) :=
  Within.bind (R := c.Quiet) (fun _ _ _ => Quiet.trans) hq hf

/-- What follows the first `to_dao()` changes no table. -/
theorem after_bind_quiet {α β : Type} {q : Query α} {f : α → Query β} (hc : c.Held s.db)
    (hq : (after q s).db = (after (Reads.toDao c) s).db) (hf : ∀ a, Within c.Quiet (f a)) :
    (after (q >>= f) s).db = (after (Reads.toDao c) s).db := by
  have hset := settled_after_toDao hc
  rw [← hq] at hset ⊢
  rw [after_bind]
  unfold after at hset ⊢
  cases hs : q s with
  | ok a s' =>
    rw [hs] at hset
    exact hf a s' hset
  | error e s' => rfl

theorem quiet_ofRow {α : Type} {query : Session → ChainDAO → α × Session}
    (hq : ∀ s dao, (query s dao).2.db = s.db) (dao : Option ChainDAO) :
    Within c.Quiet (ofRow query dao) := by
  cases dao with
  | none => exact Within.throw Quiet.refl Err.attributeError
  | some dao => exact Within.asking fun s _ => hq s dao

theorem quiet_getBlock (blockHash : Str) (dao : Option ChainDAO) :
    Within c.Quiet (Reads.blockOf blockHash dao) := by
  cases dao with
  | none => exact Within.pure Quiet.refl none
  | some dao =>
    refine quiet_calling fun s a s' hf => ?_
    split at hf
    · cases hf
    · obtain ⟨blockDao, -, hf⟩ := bind_eq_ok.1 hf
      cases hf
      rfl

theorem quiet_reverseBlock (i : ℤ) (dao : Option ChainDAO) :
    Within c.Quiet (Reads.reverseBlock E c i dao) := by
  cases dao with
  | none =>
    refine quiet_calling fun s a s' hf => ?_
    split at hf
    · cases hf
      rfl
    · obtain ⟨block, -, hf⟩ := bind_eq_ok.1 hf
      cases hf
      rfl
  | some dao =>
    refine quiet_calling fun s a s' hf => ?_
    simp only at hf
    split at hf
    · cases hf
    · split_ifs at hf
      all_goals
        obtain ⟨blockDao, -, hf⟩ := bind_eq_ok.1 hf
        cases hf
        rfl

theorem quiet_getBlockByReverseIndex (i : ℤ) :
    Within c.Quiet (Reads.getBlockByReverseIndex E c i) :=
  quiet_bind quiet_toDao (quiet_reverseBlock i)

/-- A question to the row leaves what `to_dao()` leaves. -/
theorem after_onRow (hc : c.Held s.db) {α : Type} {query : Session → ChainDAO → α × Session}
    (hq : ∀ s dao, (query s dao).2.db = s.db) :
    (after (Reads.onRow c query) s).db = (after (Reads.toDao c) s).db :=
  after_bind_quiet hc rfl (quiet_ofRow hq)

theorem after_blockTarget (hc : c.Held s.db) {block : Option Block}
    (hb : ∀ b, block = some b → b.idx.getD 0 ≠ 0) :
    (after (Reads.blockTarget E c block) s).db = (after (Reads.toDao c) s).db := by
  unfold Reads.blockTarget
  rw [after_bind]
  show (after (match c.lastBlock s.db with | none => _ | some _ => _) s).db = _
  cases hlast : c.lastBlock s.db with
  | none =>
    -- without a last block the handle has no tip or no row
    have hset : c.Settled s.db := by
      rcases hc with hcid | hnone | hstored
      · exact Or.inr (Or.inr (by rw [hcid]; rfl))
      · exact Or.inl hnone
      · obtain ⟨blk, hblk⟩ := Option.isSome_iff_exists.1 hstored
        rw [lastBlock, Block.fromDb, hblk] at hlast
        exact absurd hlast (by simp)
    exact (quiet_toDao s hset).symm
  | some last =>
    simp only
    rw [if_neg]
    · refine after_bind_quiet hc (after_bind_quiet hc rfl (quiet_reverseBlock _)) fun prev => ?_
      cases prev with
      | none => exact Within.pure Quiet.refl _
      | some prevBlock =>
        simp only
        split_ifs
        · refine quiet_bind (quiet_getBlockByReverseIndex _) fun start => ?_
          cases start with
          | none => exact Within.pure Quiet.refl _
          | some startBlock =>
            refine quiet_calling fun s a s' hf => ?_
            obtain ⟨target, -, hf⟩ := bind_eq_ok.1 hf
            cases hf
            rfl
        · exact Within.pure Quiet.refl _
    · cases block with
      | none => simp only; omega
      | some b => exact fun h => hb b rfl (Int.natCast_eq_zero.1 h)

/-- **What a read leaves is what `to_dao()` leaves.** -/
theorem IsRead.after_eq (hc : c.Held s.db) {α : Type} {q : Query α} (hq : IsRead E c q) :
    (after q s).db = (after (Reads.toDao c) s).db := by
  have hask : ∀ {β : Type} (query : Database → ChainView → β) (s : Session) (dao : ChainDAO),
      (s.ask dao query).2.db = s.db := fun _ s dao => isLongest_db s dao
  cases hq with
  | unspentOutflows address limit =>
    exact after_bind_quiet hc (after_onRow hc fun s dao => hask _ s dao)
      fun _ => Within.pure Quiet.refl _
  | unrescindedOutflows subject kind =>
    exact after_bind_quiet hc (after_onRow hc fun s dao => hask _ s dao)
      fun _ => Within.pure Quiet.refl _
  | unrescindedAddressOutflows address subject kind limit =>
    exact after_bind_quiet hc (after_onRow hc fun s dao => hask _ s dao)
      fun _ => Within.pure Quiet.refl _
  | balance address => exact after_onRow hc fun s dao => hask _ s dao
  | oppositionBalance subject => exact after_onRow hc fun s dao => hask _ s dao
  | supportBalance subject => exact after_onRow hc fun s dao => hask _ s dao
  | signingKeyLeaderboard limit => exact after_onRow hc fun s dao => hask _ s dao
  | subjectLeaderboard sortBy ascending limit => exact after_onRow hc fun s dao => hask _ s dao
  | getBlock blockHash => exact after_bind_quiet hc rfl (quiet_getBlock blockHash)
  | getBlockByReverseIndex i => exact after_bind_quiet hc rfl (quiet_reverseBlock i)
  | blockTarget block h => exact after_blockTarget hc h
  | question query h => exact after_onRow hc h
  | questionOr query otherwise h =>
    refine after_bind_quiet hc rfl fun dao => ?_
    cases dao with
    | none => exact Within.asking fun _ _ => rfl
    | some dao => exact Within.asking fun s _ => h s dao

/-- `to_dao()` leaves the rows alone exactly when the handle is settled. -/
theorem after_toDao_chains (hc : c.Held s.db) :
    (after (Reads.toDao c) s).db.chains = s.db.chains ↔ c.Settled s.db := by
  refine ⟨fun h => ?_, fun h => by rw [quiet_toDao s h]⟩
  by_contra hset
  obtain ⟨dao, blk, hdao, -, -, hnone, heq⟩ := toDao_unsettled hc hset
  unfold after Reads.toDao calling at h
  rw [heq] at h
  -- the moved row has a hash that no row had
  have hmem : rowAt dao.id blk ∈ s.db.chains := by
    rw [← h]
    exact List.mem_map.2 ⟨dao, hdao, by simp⟩
  exact hnone _ hmem rfl

end Chain

/-- **Reads do not move a chain** exactly when the handle is settled: it has no tip, or
a row has its tip, or no row has its id. -/
theorem reads_keep_rows_iff {E : Env} {s : Session} {c : Chain} (hc : c.Held s.db) {α : Type}
    {q : Query α} (hq : c.IsRead E q) :
    ((after q s).db.chains = s.db.chains ∧ (after q s).db.longestTip = s.db.longestTip) ↔
      c.Settled s.db := by
  rw [hq.after_eq hc]
  refine ⟨fun h => (Chain.after_toDao_chains hc).1 h.1, fun h => ?_⟩
  rw [Chain.quiet_toDao s h]
  exact ⟨rfl, rfl⟩

/-- A handle on the first block's row, after the row went on to the left block. -/
theorem reads_keep_rows_iff_genesis :
    ((after (Reads.balance ⟨some 1, Sample.genesis.blockHash⟩ Sample.alice) Sample.state).db.chains =
        Sample.state.db.chains ∧
      (after (Reads.balance ⟨some 1, Sample.genesis.blockHash⟩ Sample.alice)
        Sample.state).db.longestTip = Sample.state.db.longestTip) ↔
      Chain.Settled Sample.state.db ⟨some 1, Sample.genesis.blockHash⟩ :=
  reads_keep_rows_iff (Or.inr (Or.inr (by rw [Sample.state_db]; decide +kernel)))
    (Chain.IsRead.balance (E := Sample.env) Sample.alice)

/-- That handle is not settled: its balance moves the row back to the first block, and
the longest tip is the right block then. -/
theorem reads_keep_rows_stale :
    ¬ ∀ (E : Env) (S : Set Str) (depth : Option ℕ) (s₀ s : Session) (row : ChainDAO),
      E.CollisionFree (insert genesisText S) →
        SessionRun E (fun _ _ b => b.Hashed S) depth {} s₀ → row ∈ s₀.db.chains →
        SessionRun E (fun _ _ b => b.Hashed S) depth s₀ s →
        ∀ (α : Type) (q : Query α), (Chain.fromDao row).IsRead E q →
          (after q s).db.chains = s.db.chains ∧
            (after q s).db.longestTip = s.db.longestTip := by
  intro h
  have hone : SessionRun Sample.env (fun _ _ b => b.Hashed Sample.texts) none {}
      (Node.processAll Sample.env none {} ([Sample.genesis].map Sample.call)) :=
    SessionRun.processAll .refl fun _ => Sample.hashed (by decide)
  have hrest : SessionRun Sample.env (fun _ _ b => b.Hashed Sample.texts) none
      (Node.processAll Sample.env none {} ([Sample.genesis].map Sample.call)) Sample.state := by
    have hsplit : Sample.state = Node.processAll Sample.env none (Node.processAll Sample.env none {}
        ([Sample.genesis].map Sample.call)) ([Sample.left, Sample.right].map Sample.call) := by
      simp only [Sample.state, Node.processAll, List.map_cons, List.map_nil, List.foldl_cons,
        List.foldl_nil]
    rw [hsplit]
    exact SessionRun.processAll .refl fun _ => Sample.hashed (by decide)
  have hrow : ⟨1, Sample.genesis.blockHash.getD [], 1, 0⟩ ∈
      (Node.processAll Sample.env none {} ([Sample.genesis].map Sample.call)).db.chains := by
    decide +kernel
  have hread := Chain.IsRead.balance (E := Sample.env)
    (c := Chain.fromDao ⟨1, Sample.genesis.blockHash.getD [], 1, 0⟩) Sample.alice
  have hheld : Chain.Held Sample.state.db
      (Chain.fromDao ⟨1, Sample.genesis.blockHash.getD [], 1, 0⟩) :=
    Or.inr (Or.inr (by rw [Sample.state_db]; decide +kernel))
  have hkept := (h _ _ _ _ _ _ Sample.collisionFree hone hrow hrest _ _ hread).1
  rw [hread.after_eq hheld, Chain.after_toDao_chains hheld, Sample.state_db] at hkept
  exact absurd hkept (by decide +kernel)

end GumptionChain
