import GumptionChain.Confirmation

/-!
# Which blocks can be stored

What the tables ask of a block that validation has accepted: `Block.to_dao` resolves
the inflows of the block's transactions by a query that does not see the rows being
built, and some columns are narrower than the wire models.

* `Block.Storable` — its numbers fit their columns, and each inflow of a transaction that
  is not stored yet names an outflow that is;
* `Block.toDb_isOk_iff` — an accepted block is stored exactly when it is storable;
* `adopted_iff_storable` — so it is with the whole of `add_block`, in every reachable
  state.
-/

namespace GumptionChain

open Database

/-- What the tables ask of a transaction that is not stored yet. -/
structure Transaction.Fits (db : Database) (t : Transaction) : Prop where
  amounts : ∀ o ∈ t.outflows, ∀ amount, o.amount = some amount → amount < 2 ^ 63
  spends : ∀ i ∈ t.inflows, ∃ o ∈ db.outflows, i = ⟨some o.txid, some o.idx⟩

/-- What the tables ask of a block. -/
structure Block.Storable (E : Env) (db : Database) (b : Block) : Prop where
  idx : ∀ n, b.idx = some n → n ≤ E.integerMax
  proofOfWork : ∀ n, b.proofOfWork = some n → n < 2 ^ 63
  txns : ∀ t ∈ b.txns, (∀ u ∈ db.transactions, t.txid ≠ some u.txid) → t.Fits db

instance (db : Database) (t : Transaction) : Decidable (t.Fits db) :=
  decidable_of_iff ((∀ o ∈ t.outflows, ∀ amount ∈ o.amount, amount < 2 ^ 63) ∧
      ∀ i ∈ t.inflows, ∃ o ∈ db.outflows, i = ⟨some o.txid, some o.idx⟩)
    ⟨fun h => ⟨h.1, h.2⟩, fun h => ⟨h.1, h.2⟩⟩

instance (E : Env) (db : Database) (b : Block) : Decidable (b.Storable E db) :=
  decidable_of_iff ((∀ n ∈ b.idx, n ≤ E.integerMax) ∧ (∀ n ∈ b.proofOfWork, n < 2 ^ 63) ∧
      ∀ t ∈ b.txns, (∀ u ∈ db.transactions, t.txid ≠ some u.txid) → t.Fits db)
    ⟨fun h => ⟨h.1, h.2.1, h.2.2⟩, fun h => ⟨h.1, h.2, h.3⟩⟩

/-! ## Widths -/

theorem validateMillHash_length {s : Str} (h : validateMillHash s = true) : s.length = 64 :=
  (validateMillHash_iff.1 h).2

theorem validateAddressFormat_length {s : Str} (h : validateAddressFormat s = true) :
    s.length ≤ 90 := by
  obtain ⟨k, hk⟩ := Option.isSome_iff_exists.1 h
  exact decodeAddress_length hk

/-- The text of an optional column is no longer than its longest value. -/
theorem length_getD_le {o : Option Str} {n : ℕ} (h : ∀ s, o = some s → s.length ≤ n) :
    (o.getD []).length ≤ n := by
  cases o with
  | none => exact Nat.zero_le n
  | some s => exact h s rfl

namespace Transaction

variable {E : Env} {r : TransactionRules} {t : Transaction}

/-- An accepted signature is the encoding of 64 bytes. -/
theorem Valid.signature_length (h : t.Valid E r) : (t.signature.getD []).length ≤ 88 := by
  obtain ⟨a, s, sig, -, hs, hsig, hlen⟩ := E.validateSignature_length h.signed
  have hcanonical : b64encode sig = s := by
    have := of_decide_eq_true (h.wellFormed.signature s hs)
    rw [hsig] at this
    exact Option.some.inj this
  rw [hs, Option.getD_some, ← hcanonical]
  refine (length_b64encodeWith _ sig).le.trans ?_
  rw [hlen]

/-- The values of a valid transaction are no wider than their columns. -/
theorem Valid.text (h : t.Valid E r) (hr : r = regularTransactionModel ∨ r = coinbaseTransactionModel)
    {txid : Str} (hid : t.txid = some txid) : txid.length ≤ 100 ∧ t.version.length ≤ 10 ∧
      (t.address.getD []).length ≤ 100 ∧ (t.signature.getD []).length ≤ 700 ∧
      (t.prevHash.getD []).length ≤ 100 := by
  have hw := h.wellFormed.general hr
  refine ⟨?_, ?_, length_getD_le fun s hs => ?_, h.signature_length.trans (by decide),
    length_getD_le fun s hs => ?_⟩
  · obtain ⟨x, hx, hmill⟩ := hw.txid
    rw [hid, Option.some.injEq] at hx
    rw [hx, validateMillHash_length hmill]
    decide
  · rw [hw.version]
    decide
  · obtain ⟨a, ha, hformat⟩ := hw.address
    rw [ha, Option.some.injEq] at hs
    exact (hs ▸ validateAddressFormat_length hformat).trans (by decide)
  · rw [validateMillHash_length (hw.prevHash s hs)]
    decide

end Transaction

/-! ## The rows of a transaction -/

/-- Keys added above the ones in use stay different. -/
theorem nodup_append_mapIdx {α β γ : Type} {key : β → γ} {f : ℕ → α → β} {rows : List β}
    {l : List α} (h : (rows.map key).Nodup)
    (hf : ∀ j k a b, key (f j a) = key (f k b) → j = k)
    (hnew : ∀ row ∈ rows, ∀ k a, key row ≠ key (f k a)) :
    ((rows ++ l.mapIdx f).map key).Nodup := by
  rw [List.map_append]
  refine List.nodup_append.2 ⟨h, List.pairwise_iff_getElem.2 fun i j hi hj hlt heq => ?_, ?_⟩
  · rw [List.getElem_map, List.getElem_map, List.getElem_mapIdx, List.getElem_mapIdx] at heq
    exact absurd (hf _ _ _ _ heq) hlt.ne
  · rintro x hx y hy
    obtain ⟨row, hrow, rfl⟩ := List.mem_map.1 hx
    obtain ⟨z, hz, rfl⟩ := List.mem_map.1 hy
    obtain ⟨k, hk, rfl⟩ := List.mem_mapIdx.1 hz
    exact hnew row hrow k _

namespace Database

variable {E : Env} {db flushed : Database} {r : TransactionRules} {t : Transaction} {txid : Str}
  {timestamp : DateTime}

/-- The index of a flow fits its column. -/
theorem idx_le_integerMax {E : Env} {k n : ℕ} (hk : k < n) (hn : n ≤ maxFlows) :
    k ≤ E.integerMax := by
  have := E.integerMax_ge
  have hmax : maxFlows = 50 := rfl
  omega

/-- **A valid transaction that fits, and is not stored yet, keeps the schema.** -/
theorem addTransaction_schema (timestamp : DateTime) (hs : db.Schema E) (hk : db.FlowNames)
    (hext : flushed.Extends db) (hflushed : flushed.Schema E) (hv : t.Valid E r)
    (hr : r = regularTransactionModel ∨ r = coinbaseTransactionModel) (htxid : t.txid = some txid)
    (hnew : ∀ u ∈ db.transactions, u.txid ≠ txid) (hfits : t.Fits flushed) :
    (db.addTransaction flushed t txid timestamp).1.Schema E := by
  have hw := hv.wellFormed.general hr
  have htext := hv.text hr htxid
  have hids : ∀ row ∈ db.transactions, row.id ≠ (db.newRow t txid timestamp).id :=
    fun row hrow => newRow_id_ne hrow
  have hrow : db.newRow t txid timestamp ∈
      (db.addTransaction flushed t txid timestamp).1.transactions :=
    List.mem_append_right _ (List.mem_singleton_self _)
  -- the outflow that an inflow names was stored before
  have hspends : ∀ i ∈ t.inflows, ∃ o ∈ flushed.outflows,
      (flushed.outflowByKey (i.outflowTxid.getD []) (i.outflowIdx.getD 0)) = some o ∧
        i.outflowTxid.getD [] = o.txid ∧ i.outflowIdx.getD 0 = o.idx := by
    intro i hi
    obtain ⟨o, ho, rfl⟩ := hfits.spends i hi
    exact ⟨o, ho, (outflowByKey_eq_some hflushed).2 ⟨ho, rfl⟩, rfl, rfl⟩
  constructor
  · exact hs.blockIds
  · exact hs.blockHashes
  · exact hs.blockPrev
  · exact hs.blockRange
  · exact hs.blockText
  · show ((db.transactions ++ [db.newRow t txid timestamp]).map TransactionDAO.id).Nodup
    rw [List.map_append]
    refine List.nodup_append.2 ⟨hs.transactionIds, List.nodup_singleton _, fun x hx y hy => ?_⟩
    obtain ⟨row, hrow, rfl⟩ := List.mem_map.1 hx
    rw [List.mem_singleton.1 hy]
    exact hids row hrow
  · show ((db.transactions ++ [db.newRow t txid timestamp]).map TransactionDAO.txid).Nodup
    rw [List.map_append]
    refine List.nodup_append.2 ⟨hs.transactionTxids, List.nodup_singleton _, fun x hx y hy => ?_⟩
    obtain ⟨row, hrow, rfl⟩ := List.mem_map.1 hx
    rw [List.mem_singleton.1 hy]
    exact hnew row hrow
  · intro u hu
    rcases List.mem_append.1 hu with hu | hu
    · exact hs.transactionText u hu
    · rw [List.mem_singleton.1 hu]
      exact htext
  · refine nodup_append_mapIdx hs.outflowIds (fun j k a b h => Nat.add_left_cancel h)
      fun row hrow k a => ?_
    exact (lt_of_lt_of_le (Table.lt_fresh (List.mem_map_of_mem hrow)) (Nat.le_add_right _ _)).ne
  · refine nodup_append_mapIdx hs.outflowKeys (fun j k a b h => (Prod.mk.inj h).2)
      fun row hrow k a h => ?_
    obtain ⟨u, hu, -, hname⟩ := hk.outflows row hrow
    exact hnew u hu (hname.trans (Prod.mk.inj h).1)
  · intro o ho
    rcases List.mem_append.1 ho with ho | ho
    · obtain ⟨u, hu, hid⟩ := hs.outflowTransaction o ho
      exact ⟨u, List.mem_append_left _ hu, hid⟩
    · obtain ⟨k, hk, rfl⟩ := List.mem_mapIdx.1 ho
      exact ⟨_, hrow, rfl⟩
  · intro o ho
    rcases List.mem_append.1 ho with ho | ho
    · exact hs.outflowRange o ho
    · obtain ⟨k, hk, rfl⟩ := List.mem_mapIdx.1 ho
      obtain ⟨n, hn, hpos⟩ := (hw.outflows _ (List.getElem_mem hk)).amount
      refine ⟨idx_le_integerMax hk hw.outflowCount.2, ?_⟩
      show FitsBigInteger (Option.getD _ 0)
      rw [hn, Option.getD_some]
      exact ⟨by omega, hfits.amounts _ (List.getElem_mem hk) n hn⟩
  · intro o ho
    rcases List.mem_append.1 ho with ho | ho
    · exact hs.outflowText o ho
    · obtain ⟨k, hk, rfl⟩ := List.mem_mapIdx.1 ho
      have hout := hw.outflows _ (List.getElem_mem hk)
      exact ⟨htext.1,
        length_getD_le fun s hs => (validateAddressFormat_length (hout.address s hs)).trans (by decide),
        length_getD_le fun s hs => validateSubject_length (hout.opposition s hs),
        length_getD_le fun s hs => validateSubject_length (hout.rescind s hs),
        length_getD_le fun s hs => validateSubject_length (hout.support s hs)⟩
  · refine nodup_append_mapIdx hs.inflowIds (fun j k a b h => Nat.add_left_cancel h)
      fun row hrow k a => ?_
    exact (lt_of_lt_of_le (Table.lt_fresh (List.mem_map_of_mem hrow)) (Nat.le_add_right _ _)).ne
  · refine nodup_append_mapIdx hs.inflowKeys (fun j k a b h => (Prod.mk.inj h).2)
      fun row hrow k a h => ?_
    obtain ⟨u, hu, -, hname⟩ := hk.inflows row hrow
    exact hnew u hu (hname.trans (Prod.mk.inj h).1)
  · intro i hi
    rcases List.mem_append.1 hi with hi | hi
    · obtain ⟨u, hu, hid⟩ := hs.inflowTransaction i hi
      exact ⟨u, List.mem_append_left _ hu, hid⟩
    · obtain ⟨k, hk, rfl⟩ := List.mem_mapIdx.1 hi
      exact ⟨_, hrow, rfl⟩
  · intro i hi
    rcases List.mem_append.1 hi with hi | hi
    · obtain ⟨o, ho, hid⟩ := hs.inflowOutflow i hi
      exact ⟨o, List.mem_append_left _ ho, hid⟩
    · obtain ⟨k, hk, rfl⟩ := List.mem_mapIdx.1 hi
      obtain ⟨o, ho, hkey, -⟩ := hspends _ (List.getElem_mem hk)
      refine ⟨o, List.mem_append_left _ (hext.mem_outflows ho), ?_⟩
      show (flushed.outflowByKey _ _).map OutflowDAO.id = _
      rw [hkey]
      rfl
  · intro i hi
    rcases List.mem_append.1 hi with hi | hi
    · exact hs.inflowRange i hi
    · obtain ⟨k, hk, rfl⟩ := List.mem_mapIdx.1 hi
      obtain ⟨o, ho, -, -, hidx⟩ := hspends _ (List.getElem_mem hk)
      exact ⟨idx_le_integerMax hk hw.inflowCount.2, hidx.le.trans (hflushed.outflowRange o ho).1⟩
  · intro i hi
    rcases List.mem_append.1 hi with hi | hi
    · exact hs.inflowText i hi
    · obtain ⟨k, hk, rfl⟩ := List.mem_mapIdx.1 hi
      obtain ⟨o, ho, -, htx, -⟩ := hspends _ (List.getElem_mem hk)
      exact ⟨htext.1, (congrArg List.length htx).le.trans (hflushed.outflowText o ho).1⟩
  · exact hs.blockTransactionKeys
  · exact hs.blockTransactionBlock
  · intro p hp
    obtain ⟨u, hu, hid⟩ := hs.blockTransactionTransaction p hp
    exact ⟨u, List.mem_append_left _ hu, hid⟩

/-- **The loop over a block's transactions goes through** when those that are not stored
yet fit, and leaves tables that meet the schema. -/
theorem enroll_ok (hfl : flushed.Schema E) : ∀ {ts : List Transaction} {db : Database},
    db.Schema E → db.FlowNames → flushed.Extends db → (ts.map Transaction.txid).Nodup →
    (∀ t ∈ ts, ∃ r, (r = regularTransactionModel ∨ r = coinbaseTransactionModel) ∧ t.Valid E r) →
    (∀ t ∈ ts, (∀ u ∈ flushed.transactions, t.txid ≠ some u.txid) →
      t.Fits flushed ∧ ∀ u ∈ db.transactions, t.txid ≠ some u.txid) →
    ∃ db' ids, enroll flushed db ts = .ok (db', ids) ∧ db'.Schema E := by
  intro ts
  induction ts with
  | nil => exact fun {db} hs _ _ _ _ _ => ⟨db, [], rfl, hs⟩
  | cons t ts ih =>
    intro db hs hk hext hids hvalid hfits
    rw [List.map_cons, List.nodup_cons] at hids
    rw [List.forall_mem_cons] at hvalid hfits
    obtain ⟨⟨r, hr, hv⟩, hvalid⟩ := hvalid
    obtain ⟨txid, timestamp, hident, htxid, -⟩ := hv.wellFormed.identity
    rw [enroll, hident, ok_bind]
    simp only
    cases hstored : flushed.transactionByTxid txid with
    | some row =>
      obtain ⟨db', ids, henroll, hs'⟩ := ih hs hk hext hids.2 hvalid hfits.2
      exact ⟨db', row.id :: ids, by simp only [henroll]; rfl, hs'⟩
    | none =>
      have hnew : ∀ u ∈ flushed.transactions, t.txid ≠ some u.txid := by
        intro u hu heq
        exact Table.byKey_eq_none.1 hstored u hu (Option.some.inj (heq.symm.trans htxid))
      obtain ⟨hfit, hfree⟩ := hfits.1 hnew
      have hs₁ := addTransaction_schema timestamp hs hk hext hfl hv hr htxid
        (fun u hu heq => hfree u hu (htxid.trans (congrArg some heq.symm))) hfit
      obtain ⟨db', ids, henroll, hs'⟩ := ih hs₁ (addTransaction_flowKeys (fun _ => rfl) hk)
        (hext.trans addTransaction_extends) hids.2 hvalid fun u hu hunew => by
          obtain ⟨hufit, hufree⟩ := hfits.2 u hu hunew
          refine ⟨hufit, fun w hw => ?_⟩
          rcases List.mem_append.1 hw with hw | hw
          · exact hufree w hw
          · rw [List.mem_singleton.1 hw]
            exact fun heq => hids.1 (List.mem_map.2 ⟨u, hu, heq.trans htxid.symm⟩)
      exact ⟨db', _ :: ids, by simp only [henroll]; rfl, hs'⟩

end Database

/-! ## Storing a block -/

namespace Block

variable {E : Env} {S : Set Str} {db db' : Database} {b : Block} {row : BlockDAO} {ids : List ℕ}

/-- A well-formed block has its row. -/
theorem WellFormed.toRow (h : b.WellFormed E) (db : Database) : ∃ row, b.toRow db = .ok row := by
  obtain ⟨n, hn⟩ := h.idx
  obtain ⟨ts, hts, hread⟩ := h.timestamp
  obtain ⟨hash, hhash, -⟩ := h.blockHash
  obtain ⟨prev, hprev, -⟩ := h.prevHash
  obtain ⟨pow, hpow⟩ := h.proofOfWork
  obtain ⟨root, hroot, -⟩ := h.merkleRoot
  obtain ⟨d, hd⟩ := Option.isSome_iff_exists.1 hread
  unfold Block.toRow
  simp only [hn, hts, hhash, hprev, hpow, hroot, if_neg (validateTimestamp_ne_nil hread), hd]
  exact ⟨_, rfl⟩

/-- The tables with the block's row meet the schema. -/
theorem schema_addBlock (hs : db.Schema E) (hs' : db'.Schema E) (hw : b.WellFormed E)
    (hext : db.Extends db')
    (hrow : b.toRow db = .ok row) (hnew : db.blockByHash b.blockHash = none)
    (hids : ∀ i ∈ ids, ∃ u ∈ db'.transactions, u.id = i) (hidx : row.idx ≤ E.integerMax)
    (hpow : row.proofOfWork < 2 ^ 63) : (db'.addBlock db row ids).Schema E := by
  obtain ⟨hhash, -, hprev, -, hroot, -, htarget, hversion, hid, hprevId⟩ := toRow_eq_ok hrow
  have hfresh : ∀ c ∈ db.blocks, c.id ≠ row.id := fun c hc heq =>
    Table.fresh_notMem (db.blocks.map BlockDAO.id) (hid ▸ List.mem_map.2 ⟨c, hc, heq⟩)
  have hmill : ∀ {o : Option Str} {s : Str}, (∃ h, o = some h ∧ validateMillHash h = true) →
      o = some s → s.length ≤ 100 := by
    rintro o s ⟨h, rfl, hval⟩ heq
    rw [← Option.some.inj heq, validateMillHash_length hval]
    decide
  constructor
  · show ((db.blocks ++ [row]).map BlockDAO.id).Nodup
    rw [List.map_append]
    refine List.nodup_append.2 ⟨hs.blockIds, List.nodup_singleton _, fun x hx y hy => ?_⟩
    obtain ⟨c, hc, rfl⟩ := List.mem_map.1 hx
    rw [List.mem_singleton.1 hy]
    exact hfresh c hc
  · show ((db.blocks ++ [row]).map BlockDAO.blockHash).Nodup
    rw [List.map_append]
    refine List.nodup_append.2 ⟨hs.blockHashes, List.nodup_singleton _, fun x hx y hy heq => ?_⟩
    obtain ⟨c, hc, rfl⟩ := List.mem_map.1 hx
    rw [List.mem_singleton.1 hy] at heq
    obtain ⟨h, hh, hval⟩ := hw.blockHash
    have hne : row.blockHash ≠ [] := by
      intro hnil
      rw [hh, Option.some.injEq] at hhash
      rw [hhash, hnil] at hval
      exact absurd hval (by decide)
    rw [hhash, (blockByHash_eq_some hs).2 ⟨hne, hc, heq⟩] at hnew
    cases hnew
  · intro c hc
    rcases List.mem_append.1 hc with hc | hc
    · exact (hs.blockPrev c hc).imp_right fun ⟨p, hp, heq⟩ => ⟨p, List.mem_append_left _ hp, heq⟩
    · rw [List.mem_singleton.1 hc, hprevId]
      cases hp : db.blockByHash b.prevHash with
      | none => exact Or.inl rfl
      | some p => exact Or.inr ⟨p, List.mem_append_left _ (blockByHash_mem hp).1, rfl⟩
  · intro c hc
    rcases List.mem_append.1 hc with hc | hc
    · exact hs.blockRange c hc
    · rw [List.mem_singleton.1 hc]
      exact ⟨hidx, by omega, by exact_mod_cast hpow⟩
  · intro c hc
    rcases List.mem_append.1 hc with hc | hc
    · exact hs.blockText c hc
    · rw [List.mem_singleton.1 hc]
      refine ⟨hmill hw.blockHash hhash, ?_, hmill hw.prevHash hprev, hmill hw.merkleRoot hroot, ?_⟩
      · rw [← hversion, hw.version]
        decide
      · rw [← htarget, validateMillHash_length hw.target]
        decide
  · exact hs'.transactionIds
  · exact hs'.transactionTxids
  · exact hs'.transactionText
  · exact hs'.outflowIds
  · exact hs'.outflowKeys
  · exact hs'.outflowTransaction
  · exact hs'.outflowRange
  · exact hs'.outflowText
  · exact hs'.inflowIds
  · exact hs'.inflowKeys
  · exact hs'.inflowTransaction
  · exact hs'.inflowOutflow
  · exact hs'.inflowRange
  · exact hs'.inflowText
  · show (db.blockTransactions ++ ids.dedup.map (row.id, ·)).Nodup
    refine List.nodup_append.2 ⟨hs.blockTransactionKeys,
      (List.nodup_dedup ids).map fun _ _ h => (Prod.mk.inj h).2, fun p hp q hq heq => ?_⟩
    obtain ⟨c, hc, hcid⟩ := hs.blockTransactionBlock p hp
    obtain ⟨i, -, rfl⟩ := List.mem_map.1 hq
    exact hfresh c hc (hcid.trans (congrArg Prod.fst heq))
  · intro p hp
    rcases List.mem_append.1 hp with hp | hp
    · obtain ⟨c, hc, hid⟩ := hs.blockTransactionBlock p hp
      exact ⟨c, List.mem_append_left _ hc, hid⟩
    · obtain ⟨i, -, rfl⟩ := List.mem_map.1 hp
      exact ⟨row, List.mem_append_right _ (List.mem_singleton_self _), rfl⟩
  · intro p hp
    rcases List.mem_append.1 hp with hp | hp
    · obtain ⟨u, hu, hid⟩ := hs.blockTransactionTransaction p hp
      exact ⟨u, hext.mem_transactions hu, hid⟩
    · obtain ⟨i, hi, rfl⟩ := List.mem_map.1 hp
      exact hids i (List.mem_dedup.1 hi)

/-- A stored block was storable. -/
theorem Added.storable (hs : db.Schema E) (h : Added E db db' b row ids) : b.Storable E db := by
  obtain ⟨-, hidx, -, -, -, hpow, -⟩ := toRow_eq_ok h.toRow
  obtain ⟨hrange, hfits⟩ := h.schema.blockRange row h.row_mem
  refine ⟨fun n hn => ?_, fun n hn => ?_, fun t ht hnew => ?_⟩
  · rw [hidx, Option.some.injEq] at hn
    exact hn ▸ hrange
  · rw [hpow, Option.some.injEq] at hn
    exact hn ▸ (by exact_mod_cast hfits.2)
  · obtain ⟨u, hu, htx, hold | ⟨-, -, hread, hlink⟩⟩ := h.exists_row hs ht
    · exact absurd htx (hnew u (Table.byKey_mem hold).1)
    obtain ⟨hout, hin⟩ : (db'.outflowsOf u).map Outflow.fromDao = t.outflows ∧
        (db'.inflowsOf u).map Inflow.fromDao = t.inflows :=
      ⟨congrArg Transaction.outflows hread, congrArg Transaction.inflows hread⟩
    refine ⟨fun o ho amount hamount => ?_, fun i hi => ?_⟩
    · obtain ⟨x, hx, rfl⟩ := List.mem_map.1 (hout ▸ ho)
      have hmem : x ∈ db'.outflows := (List.mem_filter.1 (Table.mem_orderBy.1 hx)).1
      obtain rfl : x.amount = amount := Option.some.inj hamount
      exact (h.schema.outflowRange x hmem).2.2
    · obtain ⟨x, hx, rfl⟩ := List.mem_map.1 (hin ▸ hi)
      obtain ⟨hmem, -⟩ := mem_inflowsOf.1 hx
      obtain ⟨y, -, hy⟩ := h.schema.inflowOutflow x hmem
      rw [hlink x hx, Option.map_eq_some_iff] at hy
      obtain ⟨o, ho, -⟩ := hy
      obtain ⟨hom, hkey⟩ := (outflowByKey_eq_some hs).1 ho
      obtain ⟨htxid, hoidx⟩ := Prod.mk.inj hkey
      exact ⟨o, hom, by rw [htxid, hoidx]; rfl⟩

/-- **A block is stored exactly when it is storable**, if it is valid, not stored yet and
repeats no transaction. -/
theorem toDb_isOk_iff (hs : db.Schema E) (hk : db.FlowNames) (hv : b.Valid E)
    (hnew : db.blockByHash b.blockHash = none) (hids : (b.txns.map Transaction.txid).Nodup) :
    (∃ db', b.toDb E db = .ok db') ↔ b.Storable E db := by
  constructor
  · rintro ⟨db', hto⟩
    rcases toDb_spec hs hto with ⟨row, hrow, -⟩ | ⟨-, row, ids, ha⟩
    · rw [hnew] at hrow
      cases hrow
    · exact ha.storable hs
  · intro hst
    obtain ⟨row, hrow⟩ := hv.wellFormed.toRow db
    obtain ⟨-, hidx, -, -, -, hpow, -⟩ := toRow_eq_ok hrow
    obtain ⟨db₁, ids, henroll, hs₁⟩ := enroll_ok hs hs hk (Extends.refl db) hids
      (fun t ht => hv.txn_valid ht) fun t ht htnew => ⟨hst.txns t ht htnew, htnew⟩
    obtain ⟨hext, -, hall, -⟩ := enroll_spec (fun _ => trivial) (Extends.refl db) hs.flowKeys henroll
    have hmem : ∀ i ∈ ids, ∃ u ∈ db₁.transactions, u.id = i := by
      intro i hi
      obtain ⟨k, hk, rfl⟩ := List.mem_iff_getElem.1 hi
      obtain ⟨u, hu, hid, -⟩ := hall.get (hall.length_eq.symm ▸ hk) hk
      exact ⟨u, hu, hid⟩
    refine ⟨db₁.addBlock db row ids, ?_⟩
    unfold Block.toDb
    rw [hrow, ok_bind, hnew]
    simp only [henroll, ok_bind]
    exact flush_eq_ok.2 ⟨schema_addBlock hs hs₁ hv.wellFormed hext hrow hnew hmem
      (hst.idx _ hidx) (hst.proofOfWork _ hpow), rfl⟩

end Block

/-! ## Adoption -/

namespace Session

variable {E : Env} {S : Set Str} {depth : Option ℕ} {now : DateTime} {b : Block} {s : Session}

/-- An accepted block repeats no transaction. -/
theorem Inv.txids_nodup (hS : E.CollisionFree (insert genesisText S)) (h : s.Inv E S)
    (hb : b.Hashed S) (hnew : s.db.blockByHash b.blockHash = none)
    (hval : (Node.chainFor s.db b).validateBlock E now b s = .ok s) :
    (b.txns.map Transaction.txid).Nodup := by
  obtain ⟨bs, hbs, -, hon⟩ := h.accepts hS hb hnew hval
  have hall := hon.txids hS hbs (hbs.sound hS)
  rw [List.map_append] at hall
  exact (List.nodup_append.1 hall).1

/-- **A valid new block is adopted exactly when it is storable.** -/
theorem Inv.tryAddBlock_isOk_iff (hS : E.CollisionFree (insert genesisText S)) (h : s.Inv E S)
    (hb : b.Hashed S) (hnew : s.db.blockByHash b.blockHash = none)
    (hval : (Node.chainFor s.db b).validateBlock E now b s = .ok s) :
    (∃ s', Node.tryAddBlock E depth now b s = .ok s') ↔ b.Storable E s.db := by
  obtain ⟨-, habove⟩ := h.validates hS hval
  have hv := (Chain.validateAbove_eq_ok.1 habove).1
  rw [← Block.toDb_isOk_iff h.ledger.schema h.ledger.named hv hnew
    (h.txids_nodup hS hb hnew hval)]
  constructor
  · rintro ⟨s', hadd⟩
    obtain ⟨s₁, db, -, hval', hto, -⟩ := Node.tryAddBlock_eq_ok.1 hadd
    obtain ⟨rfl, -⟩ := h.validates hS hval'
    exact ⟨db, hto⟩
  · rintro ⟨db, hto⟩
    obtain ⟨hinv, blk, hblk⟩ := h.stored hS hb hval hto
    obtain ⟨s₁, row, n, -, -, hsave⟩ := Session.toDb_spec
      (c := ⟨(Node.chainFor s.db b).cid, b.blockHash⟩) (s := { s with db := db }) hblk depth
    exact ⟨_, Node.tryAddBlock_eq_ok.2 ⟨s, db, _, hval, hto, hsave⟩⟩

end Session

/-- **Which valid blocks a node adopts.**  In every reachable state, a new block that
`validate_block` accepts on its chain is added to the tables exactly when its numbers fit
their columns and each inflow of a transaction that is not stored yet names a stored
outflow; else `add_block` raises. -/
theorem adopted_iff_storable {E : Env} {S : Set Str} {depth : Option ℕ} {s : Session}
    (hS : E.CollisionFree (insert genesisText S)) (h : Reachable E S depth s) {now : DateTime}
    {commit : Bool} {b : Block} (hb : b.Hashed S) (hnew : s.db.blockByHash b.blockHash = none)
    (hval : (Node.chainFor s.db b).validateBlock E now b s = .ok s) :
    ((∃ s', Node.addBlock E depth now commit b s = .ok (some b, s')) ↔ b.Storable E s.db) ∧
      (¬ b.Storable E s.db → ∃ e, Node.addBlock E depth now commit b s = .error e) := by
  have hiff : (∃ s', Node.tryAddBlock E depth now b s = .ok s') ↔ b.Storable E s.db :=
    (h.inv hS).tryAddBlock_isOk_iff hS hb hnew hval
  have hadd : (∃ s', Node.addBlock E depth now commit b s = .ok (some b, s')) ↔
      ∃ s', Node.tryAddBlock E depth now b s = .ok s' := by
    constructor
    · rintro ⟨s', hok⟩
      rcases Node.addBlock_eq_ok hok with ⟨-, htry⟩ | ⟨habsurd, -⟩
      · exact ⟨s', htry⟩
      · cases habsurd
    · rintro ⟨s', htry⟩
      exact ⟨s', by rw [Node.addBlock, htry]⟩
  refine ⟨hadd.trans hiff, fun hnot => ?_⟩
  cases htry : Node.tryAddBlock E depth now b s with
  | ok s' => exact absurd (hiff.1 ⟨s', htry⟩) hnot
  | error e =>
    refine ⟨e, ?_⟩
    unfold Node.addBlock
    rw [htry]
    simp only [hnew]
    exact if_neg fun hswallow => absurd hswallow.2.2 (by simp)

/-- A successor of the branch that lost. -/
theorem adopted_iff_storable_top :
    ((∃ s', Node.addBlock Sample.env none Sample.day true Sample.top Sample.state =
        .ok (some Sample.top, s')) ↔ Sample.top.Storable Sample.env Sample.state.db) ∧
      (¬ Sample.top.Storable Sample.env Sample.state.db →
        ∃ e, Node.addBlock Sample.env none Sample.day true Sample.top Sample.state = .error e) := by
  have hb : Sample.top.Hashed Sample.texts := Block.hashed_of_mem (by simp [Sample.blocks])
  have hval : (Node.chainFor Sample.state.db Sample.top).validateBlock Sample.env Sample.day
      Sample.top Sample.state = .ok Sample.state := by
    have hok : ((Node.chainFor Sample.state.db Sample.top).validateBlock Sample.env Sample.day
        Sample.top Sample.state).isOk = true := by decide +kernel
    cases hv : (Node.chainFor Sample.state.db Sample.top).validateBlock Sample.env Sample.day
        Sample.top Sample.state with
    | ok s' => rw [((Sample.reachable.inv Sample.collisionFree).validates Sample.collisionFree hv).1]
    | error e =>
      rw [hv] at hok
      cases hok
  exact adopted_iff_storable Sample.collisionFree Sample.reachable hb
    (by rw [Sample.state_db]; decide +kernel) hval

end GumptionChain
