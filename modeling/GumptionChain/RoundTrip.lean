import GumptionChain.BlockTree

/-!
# Storing and reading back

Timestamps are hashed as text and stored as datetimes, transactions are shared by
identifier, and a block joins each row once.

* `Block.Added.map_txns` — the transactions of a new row read back in the block's
  order, whatever part of each (`π`) its row preserves;
* `Block.fromDb_toDb_iff` — a stored block reads back as it was exactly when it
  was faithful to the tables it met (`Block.Faithful`);
* `Block.fromDb_toDb_lenient` — a valid block that does not.
-/

namespace GumptionChain

open Database

/-! ## The order of a valid block -/

namespace Block

variable {E : Env} {b : Block}

theorem sortKey_le_iff {t u : Transaction} (h : t.isCoinbase = u.isCoinbase) :
    sortKey t ≤ sortKey u ↔ ¬ u.lt t := by
  have hlt : u.lt t ↔ toLex (u.timestamp, u.txid.getD []) < toLex (t.timestamp, t.txid.getD []) := by
    rw [Prod.Lex.toLex_lt_toLex, Transaction.lt]
  rw [hlt, not_lt, sortKey, sortKey, Prod.Lex.toLex_le_toLex]
  exact ⟨fun hle => (hle.resolve_left (by simp [h])).2, fun hle => Or.inr ⟨h, hle⟩⟩

/-- A valid block lists its transactions in the canonical order. -/
theorem Valid.sorted (h : b.Valid E) : b.txns.Pairwise fun t u => sortKey t ≤ sortKey u := by
  obtain ⟨cb, hlast, -, htxns⟩ := h.txns_eq
  have hregular : b.regularTxns.Pairwise fun t u => sortKey t ≤ sortKey u := by
    have : IsTrans Transaction fun t u => sortKey t ≤ sortKey u := ⟨fun _ _ _ => le_trans⟩
    refine List.isChain_iff_pairwise.1 ?_
    refine List.isChain_iff_getElem.2 fun i hi => ?_
    rw [sortKey_le_iff]
    · exact List.isChain_iff_getElem.1 h.ordered i hi
    · rw [h.isCoinbase_regular (List.getElem_mem _), h.isCoinbase_regular (List.getElem_mem _)]
  rw [htxns]
  refine List.pairwise_append.2 ⟨hregular, List.pairwise_singleton _ _, fun t ht u hu => ?_⟩
  rw [List.mem_singleton.1 hu, sortKey, sortKey, Prod.Lex.toLex_le_toLex, h.isCoinbase_regular ht,
    h.isCoinbase_last hlast]
  exact Or.inl (show false < true by decide)

theorem Valid.txid_isSome (h : b.Valid E) {t : Transaction} (ht : t ∈ b.txns) :
    ∃ x, t.txid = some x := by
  obtain ⟨x, hx, -⟩ := (h.wellFormed.txns t ht).txid
  exact ⟨x, hx⟩

variable {db db' : Database} {row : BlockDAO} {ids : List ℕ}

/-- **What rows preserve, blocks preserve, in order.** -/
theorem Added.map_txns (π : Transaction → Transaction) (hπ : ∀ t, sortKey (π t) = sortKey t)
    (hs : db.Schema E) (ha : Added E db db' b row ids) (hv : b.Valid E)
    (hids : (b.txns.map Transaction.txid).Nodup)
    (hread : ∀ t ∈ b.txns, ∀ u ∈ db'.transactions, StoredAs db db' t u →
      π (Transaction.fromDao db' u) = π t) :
    (Block.fromDao db' row).txns.map π = b.txns.map π := by
  have hkey : ∀ {t u : Transaction}, sortKey t = sortKey u → t.txid.getD [] = u.txid.getD [] :=
    fun h => by
      have h2 := congrArg (fun k => (ofLex (ofLex k).2).2) h
      exact h2
  -- a sort key tells the block's transactions apart
  have hinj : ∀ t ∈ b.txns, ∀ u ∈ b.txns, sortKey t = sortKey u → t = u := by
    intro t ht u hu heq
    obtain ⟨x, hx⟩ := hv.txid_isSome ht
    obtain ⟨y, hy⟩ := hv.txid_isSome hu
    have hxy := hkey heq
    rw [hx, hy, Option.getD_some, Option.getD_some] at hxy
    exact List.inj_on_of_nodup_map hids ht hu (by rw [hx, hy, hxy])
  have horder : (Block.fromDao db' row).txns.Perm
      ((db'.rowsOf row.id).map (Transaction.fromDao db')) :=
    (List.perm_insertionSort _ _).trans ((Table.orderBy_perm _ _).map _)
  have hperm : ((Block.fromDao db' row).txns.map π).Perm (b.txns.map π) := by
    refine (horder.map π).trans ?_
    rw [List.map_map]
    refine (List.perm_ext_iff_of_nodup ?_ ?_).2 fun x => ?_
    · refine List.Nodup.map_on (fun u hu v hv heq => ?_) (rowsOf_nodup ha.schema _)
      have hk := congrArg sortKey heq
      rw [Function.comp_apply, Function.comp_apply, hπ, hπ] at hk
      exact List.inj_on_of_nodup_map ha.schema.transactionTxids (rowsOf_subset hu)
        (rowsOf_subset hv) (hkey hk)
    · refine List.Nodup.map_on (fun t ht u hu heq => hinj t ht u hu ?_) (List.Nodup.of_map _ hids)
      rw [← hπ t, heq, hπ]
    · rw [List.mem_map, List.mem_map]
      constructor
      · rintro ⟨u, hu, rfl⟩
        obtain ⟨t, ht, hst⟩ := ha.exists_txn hs hu
        exact ⟨t, ht, (hread t ht u (rowsOf_subset hu) hst).symm⟩
      · rintro ⟨t, ht, rfl⟩
        obtain ⟨u, hu, hst⟩ := ha.exists_row hs ht
        exact ⟨u, hu, hread t ht u (rowsOf_subset hu) hst⟩
  -- both sides are sorted, and the order is strict on the block
  have hsort : ∀ {l : List Transaction}, l.Pairwise (fun t u => sortKey t ≤ sortKey u) →
      (l.map π).Pairwise fun t u => sortKey t ≤ sortKey u := fun hl =>
    List.pairwise_map.2 (hl.imp fun {t u} hle => by rw [hπ, hπ]; exact hle)
  refine hperm.eq_of_pairwise ?_ (hsort (List.pairwise_insertionSort _ _)) (hsort hv.sorted)
  intro x y hx hy hxy hyx
  obtain ⟨t, ht, rfl⟩ := List.mem_map.1 (hperm.mem_iff.1 hx)
  obtain ⟨u, hu, rfl⟩ := List.mem_map.1 hy
  have heq := le_antisymm hxy hyx
  rw [hπ, hπ] at heq
  rw [hinj t ht u hu heq]

/-- The new row is found under the block's hash. -/
theorem Added.blockByHash (ha : Added E db db' b row ids) (hv : b.Valid E) :
    db'.blockByHash b.blockHash = some row := by
  rw [ha.blockHash_row, blockByHash_eq_some ha.schema]
  exact ⟨hv.blockHash_ne_nil ha.blockHash_row, ha.row_mem, rfl⟩

/-- The new row reads back as the block but for its transactions, if the timestamp
is canonical. -/
theorem Added.header_eq (ha : Added E db db' b row ids)
    (hts : ∀ s, b.timestamp = some s → Canonical s) :
    { Block.fromDao db' row with txns := b.txns } = b := by
  obtain ⟨hhash, hidx, hprev, hdt, hroot, hpow, htarget, hversion, -⟩ := Block.toRow_eq_ok ha.toRow
  obtain ⟨s, hs, hd⟩ := Option.bind_eq_some_iff.1 hdt
  have hstamp : dt2Iso row.timestamp = s := (canonical_iff hd).1 (hts s hs)
  cases b
  simp_all [Block.fromDao]

end Block

/-! ## Faithful blocks -/

/-- What the tables hold under the transaction's identifier is that transaction,
signature and all; if they hold nothing, its timestamp is canonical. -/
def Transaction.Kept (db : Database) (t : Transaction) : Prop :=
  match db.transactionByTxid (t.txid.getD []) with
  | some u => Transaction.fromDao db u = t
  | none => Canonical t.timestamp

/-- What the tables hold under the block's hash is that block; if they hold
nothing, its timestamp is canonical, its transactions are kept, and none of them is
listed twice. -/
def Block.Faithful (db : Database) (b : Block) : Prop :=
  match db.blockByHash b.blockHash with
  | some r => Block.fromDao db r = b
  | none => (∀ s, b.timestamp = some s → Canonical s) ∧ b.txns.Nodup ∧
      ∀ t ∈ b.txns, t.Kept db

namespace Block

variable {E : Env} {b : Block} {db db' : Database} {row : BlockDAO} {ids : List ℕ}

/-- A transaction reads back from its row exactly if it was kept. -/
theorem fromDao_storedAs (hext : db.Extends db') {t : Transaction} {u : TransactionDAO}
    (hst : StoredAs db db' t u) : Transaction.fromDao db' u = t ↔ t.Kept db := by
  obtain ⟨htx, hcase⟩ := hst
  unfold Transaction.Kept
  rw [htx, Option.getD_some]
  rcases hcase with hold | ⟨hnew, hts, hread, -⟩
  · rw [hold, hext.fromDao (Table.byKey_mem hold).1]
  · rw [hnew, hread, Transaction.restamped]
    refine Iff.trans ?_ (canonical_iff hts).symm
    cases t
    simp

/-- **Storage gives back what was stored, if and only if the block was faithful to
the tables it met.** -/
theorem fromDb_toDb_iff (hs : db.Schema E) (hv : b.Valid E) (hto : b.toDb E db = .ok db') :
    Block.fromDb db' b.blockHash = some b ↔ b.Faithful db := by
  unfold Faithful
  rcases toDb_spec hs hto with ⟨r, hr, rfl⟩ | ⟨hnew, row, ids, ha⟩
  · rw [Block.fromDb, hr, Option.map_some, Option.some.injEq]
  · rw [Block.fromDb, ha.blockByHash hv, Option.map_some, Option.some.injEq, hnew]
    have hmem : ∀ t ∈ b.txns, ∃ u ∈ db'.transactions, StoredAs db db' t u := fun t ht => by
      obtain ⟨u, hu, hst⟩ := ha.exists_row hs ht
      exact ⟨u, rowsOf_subset hu, hst⟩
    constructor
    · intro heq
      have htxns : (Block.fromDao db' row).txns = b.txns := congrArg Block.txns heq
      have horder : b.txns.Perm ((db'.rowsOf row.id).map (Transaction.fromDao db')) :=
        htxns ▸ (List.perm_insertionSort _ _).trans ((Table.orderBy_perm _ _).map _)
      have hrow : ∀ t ∈ b.txns, ∃ u ∈ db'.transactions, Transaction.fromDao db' u = t := by
        intro t ht
        obtain ⟨u, hu, rfl⟩ := List.mem_map.1 (horder.mem_iff.1 ht)
        exact ⟨u, rowsOf_subset hu, rfl⟩
      refine ⟨fun s hts => ?_, horder.nodup_iff.2 ?_, fun t ht => ?_⟩
      · have hstamp : some (dt2Iso row.timestamp) = b.timestamp := congrArg Block.timestamp heq
        rw [hts, Option.some.injEq] at hstamp
        exact hstamp ▸ canonical_dt2Iso _
      · refine List.Nodup.map_on (fun u hu v hv heq' => ?_) (rowsOf_nodup ha.schema _)
        exact List.inj_on_of_nodup_map ha.schema.transactionTxids (rowsOf_subset hu)
          (rowsOf_subset hv) (Option.some.inj (congrArg Transaction.txid heq'))
      · obtain ⟨u, hu, hut⟩ := hrow t ht
        obtain ⟨v, hv', hst⟩ := hmem t ht
        refine (fromDao_storedAs ha.extends_ hst).1 ?_
        have huv : u.txid = v.txid :=
          Option.some.inj ((congrArg Transaction.txid hut).trans hst.1)
        rw [← List.inj_on_of_nodup_map ha.schema.transactionTxids hu hv' huv]
        exact hut
    · rintro ⟨hts, hnodup, hkept⟩
      have hids : (b.txns.map Transaction.txid).Nodup := by
        refine List.Nodup.map_on (fun t ht u hu heq => ?_) hnodup
        obtain ⟨v, hv', hst⟩ := hmem t ht
        obtain ⟨w, hw, hst'⟩ := hmem u hu
        have hvw : v.txid = w.txid := Option.some.inj ((hst.1.symm.trans heq).trans hst'.1)
        obtain rfl := List.inj_on_of_nodup_map ha.schema.transactionTxids hv' hw hvw
        rw [← (fromDao_storedAs ha.extends_ hst).2 (hkept t ht),
          (fromDao_storedAs ha.extends_ hst').2 (hkept u hu)]
      have htxns := ha.map_txns id (fun _ => rfl) hs hv hids fun t ht u _ hst =>
        (fromDao_storedAs ha.extends_ hst).2 (hkept t ht)
      rw [List.map_id, List.map_id] at htxns
      rw [← ha.header_eq hts, ← htxns]

end Block

/-! ### A lenient timestamp -/

namespace Sample

/-- A first block whose month has one digit. -/
def lenient : Block where
  idx := some 0
  timestamp := some
    ['2', '0', '2', '4', '-', '1', '-', '0', '1', 'T', '0', '0', ':', '0', '0', ':', '0', '0', 'Z']
  blockHash := some (fmt064x 0x00000b64b7152913ba6715d8c2dca8e6731cf861a62ee466503394d2f0a37a89)
  prevHash := some firstPrevHash
  target := maxTarget
  proofOfWork := some 1178498
  merkleRoot := some (fmt064x 0x9bdce64385365a7917d9c411caedde25b6f80bb60b936c84d4159d158a88b5d7)
  txns := [mint]

/-- Its hash and signatures. -/
def lenientEnv : Env := Env.knowing [lenient]

/-- The tables with that block alone. -/
def lenientDb : Database where
  blocks := [blockRow 1 none (minutesPast 0) lenient]
  transactions := [txnRow 1 (minutesPast 0) mint]
  outflows := [outflowRow 1 1 0 mint]
  blockTransactions := [(1, 1)]

theorem lenient_valid : lenient.Valid lenientEnv := by
  have h : lenient.validate lenientEnv = .ok () := by decide +kernel
  exact Block.validate_eq_ok.1 h

theorem lenient_toDb : lenient.toDb lenientEnv {} = .ok lenientDb := by decide +kernel

end Sample

/-- For that block the question is whether its timestamp is canonical. -/
theorem Block.fromDb_toDb_iff_lenient :
    Block.fromDb Sample.lenientDb Sample.lenient.blockHash = some Sample.lenient ↔
      Sample.lenient.Faithful {} :=
  Block.fromDb_toDb_iff (by decide) Sample.lenient_valid Sample.lenient_toDb

/-- **A valid block that reads back with another timestamp**, and so with another
header. -/
theorem Block.fromDb_toDb_lenient : ¬ ∀ (E : Env) (db db' : Database) (b : Block), db.Schema E →
    b.Valid E → b.toDb E db = .ok db' → Block.fromDb db' b.blockHash = some b := by
  intro h
  have hread := h Sample.lenientEnv {} Sample.lenientDb Sample.lenient (by decide)
    Sample.lenient_valid Sample.lenient_toDb
  exact absurd hread (by decide +kernel)

end GumptionChain
