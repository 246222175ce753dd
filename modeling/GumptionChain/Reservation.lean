import GumptionChain.Confirmation

/-!
# Reserved outputs

Which outputs the pool hides from coin selection.  A pooled transaction reserves the
outputs that are stored when it is admitted, and no others.

* `Block.Added.mem_outflows` — the outputs a block brings;
* `Reserves` — the invariant: every stored output a pooled transaction spends is
  reserved;
* `pending_spends_hidden` — it holds as long as no block brings an output that a pooled
  transaction, which stays, already spends.
-/

namespace GumptionChain

open Database

/-! ## Outputs and their rows -/

namespace Database

variable {E : Env} {db db' : Database} {o : OutflowDAO}

/-- An outflow row stands at its place in its transaction. -/
theorem outflowsOf_getElem (hn : db.FlowNames) (hnum : db.Numbered) (ho : o ∈ db.outflows) :
    ∃ u ∈ db.transactions, u.txid = o.txid ∧ (db.outflowsOf u)[o.idx]? = some o := by
  obtain ⟨u, hu, hid, htxid⟩ := hn.outflows o ho
  have hmem : o ∈ db.outflowsOf u :=
    Table.mem_orderBy.2 (List.mem_filter.2 ⟨ho, by simpa using hid.symm⟩)
  obtain ⟨k, hk⟩ := List.mem_iff_getElem?.1 hmem
  exact ⟨u, hu, htxid, (hnum u hu k o hk).symm ▸ hk⟩

/-- The reservation of a stored output. -/
theorem pendingIOflow_of_mem (hs : db.Schema E) (hn : db.FlowNames) (hnum : db.Numbered)
    (ho : o ∈ db.outflows) (txid : Str) :
    db.pendingIOflow txid ⟨some o.txid, some o.idx⟩ = some ⟨txid, o.txid, o.idx, o.id⟩ := by
  obtain ⟨u, hu, htxid, hget⟩ := outflowsOf_getElem hn hnum ho
  have hfound := (transactionByTxid_eq_some hs).2 ⟨hu, htxid⟩
  simp only [pendingIOflow, Option.bind_eq_bind, Option.bind_some, hfound, hget]
  rfl

end Database

/-- The outputs in the tables after a block: those before, and those of the
transactions it stores for the first time. -/
theorem Block.Added.mem_outflows {E : Env} {db db' : Database} {b : Block} {row : BlockDAO}
    {ids : List ℕ} (h : Added E db db' b row ids) (hn : db'.FlowNames) (hnum : db'.Numbered)
    {o : OutflowDAO} (ho : o ∈ db'.outflows) : o ∈ db.outflows ∨ ∃ t ∈ b.txns,
      t.txid = some o.txid ∧ (t.getOutflow o.idx).isSome ∧
        db.transactionByTxid o.txid = none := by
  obtain ⟨u, hu, htxid, hget⟩ := outflowsOf_getElem hn hnum ho
  have hold : u ∈ db.transactions → o ∈ db.outflows := by
    intro hu'
    rw [h.extends_.outflowsOf hu'] at hget
    exact (List.mem_filter.1 (Table.mem_orderBy.1 (List.mem_of_getElem? hget))).1
  rcases h.sourced u hu with hu' | ⟨t, ht, hid, hstored | ⟨hnew, -, hread, -⟩⟩
  · exact Or.inl (hold hu')
  · exact Or.inl (hold (Table.byKey_mem hstored).1)
  · refine Or.inr ⟨t, ht, htxid ▸ hid, ?_, htxid ▸ hnew⟩
    have houts : (db'.outflowsOf u).map Outflow.fromDao = t.outflows :=
      congrArg Transaction.outflows hread
    rw [Transaction.getOutflow, ← houts, List.getElem?_map, hget]
    rfl

/-! ## The invariant -/

/-- Every stored output that a pooled transaction spends is reserved. -/
def Reserves (pending : List PendingTxnDAO) (outflows : List OutflowDAO) : Prop :=
  ∀ p ∈ pending, ∀ o ∈ outflows, ⟨some o.txid, some o.idx⟩ ∈ p.txn.inflows →
    ∃ q ∈ p.ioflows, q.outflowId = o.id

theorem Reserves.sublist {pending pending' : List PendingTxnDAO} {outflows : List OutflowDAO}
    (h : Reserves pending outflows) (hsub : ∀ p ∈ pending', p ∈ pending) :
    Reserves pending' outflows := fun p hp => h p (hsub p hp)

namespace Session

variable {E : Env} {S : Set Str} {depth : Option ℕ} {now : DateTime} {b : Block} {s s' : Session}

/-- Nothing that `unspent_outflows` shows with `filter_pending` is spent by a pooled
transaction, whatever row is asked. -/
def PendingHidden (s : Session) : Prop :=
  ∀ row address, ∀ o ∈ (s.unreservedOutflows row address).1, ∀ p ∈ s.db.pendingTxns,
    ⟨some o.txid, some o.idx⟩ ∉ p.txn.inflows

/-- The block stores for the first time no output that a pooled transaction already
spends; a transaction that leaves the pool with the block does not count. -/
def NotOvertaken (s : Session) (prunes : Bool) (b : Block) : Prop :=
  ∀ p ∈ s.db.pendingTxns, (prunes = true → ∀ t ∈ b.regularTxns, t.txid ≠ some p.txid) →
    ∀ t ∈ b.txns, ∀ n, ⟨t.txid, some n⟩ ∈ p.txn.inflows → (t.getOutflow n).isSome →
      s.db.transactionByTxid (t.txid.getD []) ≠ none

/-- A view shows stored outflows. -/
theorem mem_view_outflows {row : ChainDAO} {p : TransactionDAO × OutflowDAO}
    (hp : p ∈ (s.view row).1.outflows) : p.2 ∈ s.db.outflows := by
  have hdb := isLongest_db s row
  simp only [view, hdb] at hp
  split_ifs at hp
  · exact (Query.mem_join.1 hp).2.1
  · split at hp
    · exact absurd hp List.not_mem_nil
    · exact (Query.mem_join.1 hp).2.1

/-- The rows a query with `filter_pending` shows are stored and not reserved. -/
theorem mem_unreservedOutflows {row : ChainDAO} {address : Str} {o : OutflowDAO}
    (ho : o ∈ (s.unreservedOutflows row address).1) :
    o ∈ s.db.outflows ∧ s.db.isReserved o = false := by
  have hdb : (s.view row).2.db = s.db := isLongest_db s row
  have hmem : o ∈ ChainView.execute (((s.view row).1.unspentOutflows address).filter fun p =>
      !(s.view row).2.db.isReserved p.2) := ho
  obtain ⟨p, hp, rfl⟩ := List.mem_map.1 hmem
  obtain ⟨hunspent, hfree⟩ := List.mem_filter.1 (Table.mem_orderBy.1 hp)
  rw [hdb] at hfree
  exact ⟨mem_view_outflows (List.mem_of_mem_filter hunspent), by simpa using hfree⟩

/-- The outputs in the tables after an accepted block. -/
theorem Sound.mem_outflows_tryAddBlock (hS : E.CollisionFree (insert genesisText S))
    (h : s.Sound E S) (hb : b.Hashed S) (hadd : Node.tryAddBlock E depth now b s = .ok s')
    {o : OutflowDAO} (ho : o ∈ s'.db.outflows) : o ∈ s.db.outflows ∨ ∃ t ∈ b.txns,
      t.txid = some o.txid ∧ (t.getOutflow o.idx).isSome ∧
        s.db.transactionByTxid o.txid = none := by
  obtain ⟨db, blk, s₁, row, -, hto, hinv, -, hp, hup⟩ := h.inv.tryAddBlock_spec hS hb hadd
  have houts : s'.db.outflows = db.outflows := by
    obtain ⟨_, _, _, heq⟩ := hp.sameLedger.1.trans hup.ledger
    rw [heq]
  have hs := h.inv.ledger.schema
  have hnum := h.numbered.toDb hs hto
  rcases Block.toDb_spec hs hto with ⟨-, -, rfl⟩ | ⟨-, r, ids, ha⟩
  · exact Or.inl (houts ▸ ho)
  · exact ha.mem_outflows hinv.ledger.named hnum (houts ▸ ho)

/-- A block that overtakes nothing keeps the invariant. -/
theorem Sound.reserves_tryAddBlock (hS : E.CollisionFree (insert genesisText S))
    (h : s.Sound E S) (hb : b.Hashed S) (hadd : Node.tryAddBlock E depth now b s = .ok s')
    (hr : Reserves s.db.pendingTxns s.db.outflows) {prunes : Bool}
    (hnot : s.NotOvertaken prunes b) :
    Reserves (s'.db.pendingTxns.filter fun p =>
      prunes = true → ∀ t ∈ b.regularTxns, t.txid ≠ some p.txid) s'.db.outflows := by
  intro p hp o ho hi
  rw [List.mem_filter, h.inv.tryAddBlock_pendingTxns hS hb hadd, decide_eq_true_eq] at hp
  rcases h.mem_outflows_tryAddBlock hS hb hadd ho with hold | ⟨t, ht, hid, hout, hnew⟩
  · exact hr p hp.1 o hold hi
  · refine absurd hnew ?_
    have hstored := hnot p hp.1 hp.2 t ht o.idx (hid ▸ hi) hout
    rwa [hid, Option.getD_some] at hstored

end Session

namespace PoolRun

variable {E : Env} {S : Set Str} {J : JsonLib} {maxPendingTxns : ℕ} {depth : Option ℕ}
  {s : Session}

/-- **The invariant of a run** in which no block overtakes a pooled transaction. -/
theorem reserves (hS : E.CollisionFree (insert genesisText S))
    (h : PoolRun E J maxPendingTxns (fun s prunes b => b.Hashed S ∧ s.NotOvertaken prunes b) depth s) :
    Reserves s.db.pendingTxns s.db.outflows := by
  induction h with
  | empty => exact fun p hp => absurd hp List.not_mem_nil
  | receive hrun hrec ih =>
    have hsound := hrun.sound hS fun _ _ _ hq => hq.1
    obtain ⟨txn, -, -, -, -, ⟨-, -, rfl⟩ | ⟨-, -, db, hadd, -, rfl⟩⟩ :=
      Node.receiveTransaction_eq_ok.1 hrec
    · exact ih
    · obtain ⟨txid, -, -, -, -, rfl⟩ := addPending_eq_ok.1 hadd
      intro p hp o ho hi
      rcases List.mem_append.1 hp with hold | hnew
      · exact ih p hold o ho hi
      · obtain rfl := List.mem_singleton.1 hnew
        exact ⟨_, List.mem_filterMap.2 ⟨_, hi, pendingIOflow_of_mem hsound.inv.ledger.schema
          hsound.inv.ledger.named hsound.numbered ho txid⟩, rfl⟩
  | discard _ ih => exact ih.sublist fun p hp => List.mem_of_mem_filter hp
  | expire _ ih => exact ih.sublist fun p hp => List.mem_of_mem_filter hp
  | process hrun hq hp ih =>
    have hsound := hrun.sound hS fun _ _ _ hq => hq.1
    rcases Node.processBlock_eq_ok hp with ⟨-, -, rfl⟩ | ⟨-, -, s₁, -, htry, rfl⟩
    · exact ih
    · have hres := hsound.reserves_tryAddBlock hS hq.1 htry ih hq.2
      rw [Node.discardConfirmedPending_eq]
      exact hres.sublist fun p hp => by simpa using hp
  | fill hrun hq hadd ih =>
    have hsound := hrun.sound hS fun _ _ _ hq => hq.1
    rcases Node.addBlock_eq_ok hadd with ⟨-, htry⟩ | ⟨-, rfl⟩
    · exact (hsound.reserves_tryAddBlock hS hq.1 htry ih hq.2).sublist fun p hp => by simpa using hp
    · exact ih
  | ask _ _ ih => exact (Session.isLongest_db _ _).symm ▸ ih
  | forget _ _ ih => exact ih

end PoolRun

/-! ### A pool with chained transactions -/

namespace Sample

/-- A node with the first block that waits for a block with the spend. -/
def waitingState : Session := Node.handle env (txnLib [spend]) 10 none
  (Node.handle env (txnLib [spend]) 10 none {} (.block halfHour genesis))
  (.transaction 0 (spend.txid.getD []) spend.toJson)

theorem waitingState_run : PoolRun env (txnLib [spend]) 10
    (fun s prunes b => b.Hashed texts ∧ s.NotOvertaken prunes b) none waitingState := by
  refine PoolRun.handle (PoolRun.handle .empty fun now b hb => ?_) fun now b hb => ?_
  · obtain ⟨-, rfl⟩ := Node.Message.block.inj hb
    exact ⟨Block.hashed_of_mem (by simp [blocks]), fun p hp => absurd hp List.not_mem_nil⟩
  · exact absurd hb (by simp)

/-- The same node after a block that leaves the spend in the pool. -/
def servedState : Session := Node.handle env (txnLib [spend]) 10 none waitingState
  (.block halfHour right)

theorem servedState_run : PoolRun env (txnLib [spend]) 10
    (fun s prunes b => b.Hashed texts ∧ s.NotOvertaken prunes b) none servedState := by
  refine waitingState_run.handle fun now b hb => ?_
  obtain ⟨-, rfl⟩ := Node.Message.block.inj hb
  refine ⟨Block.hashed_of_mem (by simp [blocks]), fun p hp _ t ht n hi => ?_⟩
  have hpool : waitingState.db.pendingTxns.map PendingTxnDAO.txn = [spend] := by decide +kernel
  have hp' : p.txn = spend := List.mem_singleton.1 (hpool ▸ List.mem_map_of_mem hp)
  have hother : ∀ t ∈ right.txns, ∀ i ∈ spend.inflows, i.outflowTxid ≠ t.txid := by
    decide +kernel
  exact absurd rfl (hother t ht _ (hp' ▸ hi))

/-- A transaction that spends an output of the spend. -/
def respend : Transaction where
  timestamp := dt2Iso (minutesPast 6)
  txid := some (fmt064x 0xa2379b0b1a3b6f522c99817a197a79bc3e3aebdaf4e785e8fda133eadbd7953d)
  address := some bob
  signature := some (b64encode
    (toBytes 32 0x33d52e7f5742784642560cf5e261a1978d97619e4d7d3452b2527d250def7e6f ++
      toBytes 32 0xf1cbfdf59c5ac392ba3e39ff25d0fa8c4fe59dcc9c212d653d18e0fedad3c100))
  inflows := [⟨spend.txid, some 0⟩]
  outflows := [{ amount := some 300, address := some alice }]

/-- The hashes and signatures of the fork and of that transaction. -/
def chainedEnv : Env := Env.knowing (blocks ++ [{ left with txns := [respend] }])

/-- The node that had both transactions in its pool when a block came with the first. -/
def overtakenState : Session := Node.handleAll chainedEnv (txnLib [spend, respend]) 10 none {}
  [.block halfHour genesis, .transaction 0 (spend.txid.getD []) spend.toJson,
    .transaction 1 (respend.txid.getD []) respend.toJson, .block halfHour left]

theorem overtakenState_run : PoolRun chainedEnv (txnLib [spend, respend]) 10
    (fun _ _ b => b.Hashed texts) none overtakenState := by
  refine PoolRun.empty.handleAll fun _ now b hb => ?_
  simp only [List.mem_cons, Node.Message.block.injEq, List.not_mem_nil, or_false,
    reduceCtorEq, false_or] at hb
  rcases hb with ⟨-, rfl⟩ | ⟨-, rfl⟩ <;> exact Block.hashed_of_mem (by simp [blocks])

/-- Its tables: the output of the spend is not reserved. -/
def overtakenDb : Database where
  blocks := [blockRow 1 none (minutesPast 0) genesis, leftRow]
  transactions := [txnRow 1 (minutesPast 0) mint,
    txnRow 2 (minutesPast 5) spend,
    txnRow 3 (minutesPast 10) leftCoinbase]
  outflows := [outflowRow 1 1 0 mint, outflowRow 2 2 0 spend, outflowRow 3 2 1 spend,
    outflowRow 4 3 0 leftCoinbase, outflowRow 5 3 1 leftCoinbase]
  inflows := [⟨1, spend.txid.getD [], 0, mint.txid.getD [], 0, some 1, 2⟩]
  blockTransactions := [(1, 1), (2, 2), (2, 3)]
  chains := [⟨1, left.blockHash.getD [], 2, 1⟩]
  longestChainBlocks := [⟨1, 0⟩, ⟨2, 1⟩]
  pendingTxns := [⟨respend.txid.getD [], minutesPast 6, respend, 1, []⟩]

theorem overtakenState_db : overtakenState.db = overtakenDb := by decide +kernel

/-- A session opened on those tables. -/
def overtakenSession : Session := { overtakenState with cache := fun _ => none }

theorem overtakenSession_run : PoolRun chainedEnv (txnLib [spend, respend]) 10
    (fun _ _ b => b.Hashed texts) none overtakenSession :=
  overtakenState_run.forget fun _ => Or.inl rfl

end Sample

/-- **Pending spends are hidden from coin selection** in every state of a run in which
no block stores an output that a pooled transaction, which stays, already spends. -/
theorem pending_spends_hidden {E : Env} {S : Set Str} {J : JsonLib} {maxPendingTxns : ℕ}
    {depth : Option ℕ} {s : Session} (hS : E.CollisionFree (insert genesisText S))
    (h : PoolRun E J maxPendingTxns (fun s prunes b => b.Hashed S ∧ s.NotOvertaken prunes b) depth s) :
    s.PendingHidden := by
  intro row address o ho p hp hi
  obtain ⟨hstored, hfree⟩ := Session.mem_unreservedOutflows ho
  obtain ⟨q, hq, hid⟩ := h.reserves hS p hp o hstored hi
  have hreserved : s.db.isReserved o = true :=
    List.any_eq_true.2 ⟨p, hp, List.any_eq_true.2 ⟨q, hq, decide_eq_true hid⟩⟩
  exact absurd (hreserved.symm.trans hfree) (by simp)

open Sample in
/-- What the pooled spend takes is not offered, though the block that came left it unspent. -/
theorem pending_spends_hidden_waiting :
    servedState.PendingHidden ∧ ∃ row, servedState.db.longest = some row ∧
      outflowRow 1 1 0 mint ∈ (servedState.unspentOutflows row alice).1 ∧
      outflowRow 1 1 0 mint ∉ (servedState.unreservedOutflows row alice).1 := by
  have hhidden := pending_spends_hidden collisionFree servedState_run
  have hserved : spend ∈ servedState.db.pendingTxns.map PendingTxnDAO.txn ∧
      servedState.db.longest = some ⟨1, right.blockHash.getD [], 2, 1⟩ ∧
      outflowRow 1 1 0 mint ∈
        (servedState.unspentOutflows ⟨1, right.blockHash.getD [], 2, 1⟩ alice).1 := by
    decide +kernel
  obtain ⟨hpool, hrow, hunspent⟩ := hserved
  obtain ⟨p, hp, htxn⟩ := List.mem_map.1 hpool
  refine ⟨hhidden, _, hrow, hunspent, fun h => hhidden _ _ _ h p hp ?_⟩
  rw [htxn]
  decide +kernel

/-- The second of two chained transactions is pooled before a block stores the first:
the output it spends is unspent on the canonical chain, and not hidden. -/
theorem pending_spends_hidden_overtaken :
    Sample.chainedEnv.CollisionFree (insert genesisText Sample.texts) ∧
      PoolRun Sample.chainedEnv (Sample.txnLib [Sample.spend, Sample.respend]) 10
        (fun _ _ b => b.Hashed Sample.texts) none Sample.overtakenSession ∧
      ∃ row o p, Sample.overtakenSession.db.longest = some row ∧
        o ∈ (Sample.overtakenSession.unspentOutflows row Sample.bob).1 ∧
        p ∈ Sample.overtakenSession.db.pendingTxns ∧
        ⟨some o.txid, some o.idx⟩ ∈ p.txn.inflows ∧
        o ∈ (Sample.overtakenSession.unreservedOutflows row Sample.bob).1 := by
  have hdb : Sample.overtakenSession.db = Sample.overtakenDb := by
    rw [Sample.overtakenSession, Sample.overtakenState_db]
  -- without remembered answers a query reads the tables alone
  have hfresh : ∀ (s : Session) row address,
      (({ s with cache := fun _ => none } : Session).unspentOutflows row address).1 =
        (({ db := s.db } : Session).unspentOutflows row address).1 ∧
      (({ s with cache := fun _ => none } : Session).unreservedOutflows row address).1 =
        (({ db := s.db } : Session).unreservedOutflows row address).1 :=
    fun _ _ _ => ⟨rfl, rfl⟩
  refine ⟨collisionFree_of_nodup (by decide +kernel), Sample.overtakenSession_run,
    ⟨1, Sample.left.blockHash.getD [], 2, 1⟩, Sample.outflowRow 2 2 0 Sample.spend,
    ⟨Sample.respend.txid.getD [], ⟨2024, 1, 1, 0, 6, 0, by decide⟩, Sample.respend, 1, []⟩, ?_⟩
  rw [hdb, Sample.overtakenSession, (hfresh _ _ _).1, (hfresh _ _ _).2, Sample.overtakenState_db]
  refine ⟨by decide +kernel, by decide +kernel, by decide +kernel, by decide +kernel,
    by decide +kernel⟩

end GumptionChain
