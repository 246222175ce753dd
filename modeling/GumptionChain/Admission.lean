import GumptionChain.Lib.Faulty
import GumptionChain.Confirmation

/-!
# Admission, operation by operation

`PendingTxnSet.add` as `Node.receive_transaction` calls it, on a database session whose
operations may fail: the row is committed first, and then each reservation by itself.

* `committed_reserveAll` — what the loop over the inflows leaves committed;
* `admission_atomic_iff` — the pool holds the row with all its reservations, or no row,
  exactly if no operation fails between the two.
-/

namespace GumptionChain

open Database Faulty

/-- What is raised: an error of the modelled code, or a failed database operation. -/
inductive Raised where
  | err (e : Err)
  | lost

/-- The subclasses of `SQLAlchemyError`. -/
def Raised.isSqlError : Raised → Bool
  | err e => e.isSqlError
  | lost => true

namespace Database

/-- `PendingTxnDAO(...)`, flushed. -/
def insertPending (txid : Str) (timestamp : DateTime) (received : ℕ) (txn : Transaction)
    (db : Database) : Except Raised Database :=
  if txid.length ≤ 100 ∧ db.pendingByTxid txid = none then
    .ok { db with pendingTxns := db.pendingTxns ++ [⟨txid, timestamp, txn, received, []⟩] }
  else .error (.err .integrityError)

/-- `PendingIOflowDAO(...)`, flushed: a row of the pending transaction. -/
def insertIOflow (q : PendingIOflowDAO) (db : Database) : Except Raised Database :=
  .ok { db with
    pendingTxns := db.pendingTxns.map fun p =>
      if p.txid = q.txid then { p with ioflows := p.ioflows ++ [q] } else p }

end Database

namespace PendingTxnSet

/-- A turn of the loop over the inflows. -/
def reserve (txid : Str) (i : Inflow) : EStateM Raised (Conn Database) Unit :=
  match i.outflowTxid, i.outflowIdx with
  | some outflowTxid, some outflowIdx => do
    let ioflowTxnDao ← ask .lost fun db => db.transactionByTxid outflowTxid
    match ioflowTxnDao with
    | none => pure ()
    | some row => do
      let outflows ← ask .lost fun db => db.outflowsOf row
      match outflows[outflowIdx]? with
      | none => pure ()
      | some ioflowDao => do
        -- the last commit has expired the row that the reservation refers to
        let _ ← ask .lost fun db => db.pendingByTxid txid
        write .lost (insertIOflow ⟨txid, outflowTxid, outflowIdx, ioflowDao.id⟩)
        commit .lost
  | _, _ => pure ()

/-- The loop over the inflows. -/
def reserveAll (txid : Str) : List Inflow → EStateM Raised (Conn Database) Unit
  | [] => pure ()
  | i :: rest => do
    reserve txid i
    reserveAll txid rest

/-- `add`. -/
def add (received : ℕ) (txn : Transaction) : EStateM Raised (Conn Database) Unit := do
  let (txid, timestamp) ← raising (txn.identity.mapError .err)
  write .lost (insertPending txid timestamp received txn)
  commit .lost
  reserveAll txid txn.inflows

/-- `txn in pending_txns`. -/
def contains (txn : Transaction) : EStateM Raised (Conn Database) Bool :=
  match txn.txid with
  | none => pure false
  | some txid => ask .lost fun db => (db.pendingByTxid txid).isSome

end PendingTxnSet

/-- The `try` statement of `receive_transaction`. -/
def Node.admitTransaction (received : ℕ) (txn : Transaction) : EStateM Raised (Conn Database) Unit :=
  tryCatch (PendingTxnSet.add received txn) fun e =>
    if e.isSqlError then do
      rollback
      let found ← PendingTxnSet.contains txn
      if found then pure () else throw e
    else throw e

namespace PendingTxnSet

/-- The row of a transaction, with some reservations. -/
def rowOf (txid : Str) (timestamp : DateTime) (received : ℕ) (txn : Transaction)
    (ioflows : List PendingIOflowDAO) : PendingTxnDAO := ⟨txid, timestamp, txn, received, ioflows⟩

/-- The database with that row. -/
def withRow (db : Database) (p : PendingTxnDAO) : Database :=
  { db with pendingTxns := db.pendingTxns ++ [p] }

/-- The reservations of some inflows whose outflow is stored. -/
def reservations (db : Database) (txid : Str) (is : List Inflow) : List PendingIOflowDAO :=
  is.filterMap (db.pendingIOflow txid)

/-- The database operations of one inflow's turn. -/
def operations (db : Database) (i : Inflow) : ℕ :=
  match i.outflowTxid, i.outflowIdx with
  | some outflowTxid, some outflowIdx =>
    match db.transactionByTxid outflowTxid with
    | none => 1
    | some row => if (db.outflowsOf row)[outflowIdx]?.isSome then 5 else 2
  | _, _ => 0

/-- The operations of the loop up to the commit of the last reservation. -/
def operationsTo (db : Database) (txid : Str) : List Inflow → ℕ
  | [] => 0
  | i :: rest =>
    if reservations db txid (i :: rest) = [] then 0
    else operations db i + operationsTo db txid rest

section Loop

variable {db : Database} {txid : Str} {timestamp : DateTime} {received : ℕ} {txn : Transaction}
  {L : List PendingIOflowDAO} {i : Inflow} {is : List Inflow} {fails : ℕ → Bool} {clock : ℕ}

theorem insertIOflow_withRow (hnew : db.pendingByTxid txid = none) (outflowTxid : Str)
    (outflowIdx outflowId : ℕ) :
    insertIOflow ⟨txid, outflowTxid, outflowIdx, outflowId⟩
        (withRow db (rowOf txid timestamp received txn L)) =
      .ok (withRow db (rowOf txid timestamp received txn
        (L ++ [⟨txid, outflowTxid, outflowIdx, outflowId⟩]))) := by
  have hsame : db.pendingTxns.map (fun p => if p.txid = txid then
      { p with ioflows := p.ioflows ++ [⟨txid, outflowTxid, outflowIdx, outflowId⟩] } else p) =
        db.pendingTxns := by
    refine (List.map_congr_left fun p hp => ?_).trans (List.map_id _)
    exact if_neg (Table.byKey_eq_none.1 hnew p hp)
  simp only [insertIOflow, withRow, rowOf, List.map_append, hsame, List.map_cons, List.map_nil,
    if_true]

theorem transactionByTxid_withRow (db : Database) (p : PendingTxnDAO) (txid : Str) :
    (withRow db p).transactionByTxid txid = db.transactionByTxid txid := rfl

theorem outflowsOf_withRow (db : Database) (p : PendingTxnDAO) (row : TransactionDAO) :
    (withRow db p).outflowsOf row = db.outflowsOf row := rfl

/-- A turn in which no operation fails commits the reservation, -/
theorem reserve_eq_ok (hnew : db.pendingByTxid txid = none)
    (h : Clear fails clock (operations db i)) :
    reserve txid i (.settled (withRow db (rowOf txid timestamp received txn L)) fails clock) =
      .ok () (.settled (withRow db (rowOf txid timestamp received txn
        (L ++ (db.pendingIOflow txid i).toList))) fails (clock + operations db i)) := by
  obtain ⟨_ | outflowTxid, _ | outflowIdx⟩ := i
  · simp [reserve, operations, pendingIOflow, pure, EStateM.pure]
  · simp [reserve, operations, pendingIOflow, pure, EStateM.pure]
  · simp [reserve, operations, pendingIOflow, pure, EStateM.pure]
  · simp only [operations] at h ⊢
    simp only [reserve, ask_bind, transactionByTxid_withRow]
    cases htxn : db.transactionByTxid outflowTxid with
    | none =>
      simp only [htxn] at h ⊢
      have h0 := (clear_succ.1 h).1
      simp [h0, pendingIOflow, htxn, pure, EStateM.pure]
    | some row =>
      simp only [htxn] at h ⊢
      cases hout : (db.outflowsOf row)[outflowIdx]? with
      | none =>
        simp only [hout, Option.isSome_none, Bool.false_eq_true, if_false] at h ⊢
        obtain ⟨h0, h⟩ := clear_succ.1 h
        have h1 := (clear_succ.1 h).1
        simp [h0, ask_bind, h1, outflowsOf_withRow, hout, pendingIOflow, htxn, pure, EStateM.pure]
      | some o =>
        simp only [hout, Option.isSome_some, if_true] at h ⊢
        obtain ⟨h0, h⟩ := clear_succ.1 h
        obtain ⟨h1, h⟩ := clear_succ.1 h
        obtain ⟨h2, h⟩ := clear_succ.1 h
        have hio : db.pendingIOflow txid ⟨some outflowTxid, some outflowIdx⟩ =
            some ⟨txid, outflowTxid, outflowIdx, o.id⟩ := by
          simp [pendingIOflow, htxn, hout]
        simp only [h0, h1, h2, ask_bind, outflowsOf_withRow, hout, Bool.false_eq_true, if_false]
        rw [← bind_pure (commit Raised.lost)]
        rw [write_commit_bind _ (insertIOflow_withRow hnew _ _ _) h]
        rw [hio]
        rfl

/-- and a turn in which one does changes nothing. -/
theorem reserve_eq_error (hnew : db.pendingByTxid txid = none)
    (h : ¬ Clear fails clock (operations db i)) :
    ∃ c, reserve txid i (.settled (withRow db (rowOf txid timestamp received txn L)) fails clock) =
      .error .lost c ∧ c.committed = withRow db (rowOf txid timestamp received txn L) := by
  obtain ⟨_ | outflowTxid, _ | outflowIdx⟩ := i
  · exact absurd (clear_zero _ _) h
  · exact absurd (clear_zero _ _) h
  · exact absurd (clear_zero _ _) h
  · simp only [operations] at h
    simp only [reserve, ask_bind, transactionByTxid_withRow]
    by_cases h0 : fails clock = true
    · exact ⟨_, by rw [if_pos h0], rfl⟩
    · simp only [Bool.not_eq_true] at h0
      cases htxn : db.transactionByTxid outflowTxid with
      | none =>
        simp only [htxn] at h
        exact absurd (clear_succ.2 ⟨h0, clear_zero _ _⟩) h
      | some row =>
        simp only [htxn] at h
        simp only [h0, Bool.false_eq_true, if_false, ask_bind, outflowsOf_withRow]
        by_cases h1 : fails (clock + 1) = true
        · exact ⟨_, by rw [if_pos h1], rfl⟩
        · simp only [Bool.not_eq_true] at h1
          simp only [h1, Bool.false_eq_true, if_false]
          cases hout : (db.outflowsOf row)[outflowIdx]? with
          | none =>
            simp only [hout, Option.isSome_none, Bool.false_eq_true, if_false] at h
            exact absurd (clear_succ.2 ⟨h0, clear_succ.2 ⟨h1, clear_zero _ _⟩⟩) h
          | some o =>
            simp only [hout, Option.isSome_some, if_true] at h
            simp only [ask_bind]
            by_cases h2 : fails (clock + 1 + 1) = true
            · exact ⟨_, by rw [if_pos h2], rfl⟩
            · simp only [Bool.not_eq_true] at h2
              have hlate : ¬ Clear fails (clock + 1 + 1 + 1) 2 := fun hclear =>
                h (clear_succ.2 ⟨h0, clear_succ.2 ⟨h1, clear_succ.2 ⟨h2, hclear⟩⟩⟩)
              simp only [h2, Bool.false_eq_true, if_false]
              rw [← bind_pure (commit Raised.lost)]
              exact write_commit_bind_lost _ (insertIOflow_withRow hnew _ _ _) hlate _

/-- The loop commits the first reservations, and all of them exactly if no operation up
to the last commit fails. -/
theorem committed_reserveAll (hnew : db.pendingByTxid txid = none) :
    ∃ M, M <+: reservations db txid is ∧
      (Effect.after (reserveAll txid is)
        (.settled (withRow db (rowOf txid timestamp received txn L)) fails clock)).committed =
          withRow db (rowOf txid timestamp received txn (L ++ M)) ∧
      (M = reservations db txid is ↔ Clear fails clock (operationsTo db txid is)) := by
  induction is generalizing L clock with
  | nil =>
    refine ⟨[], List.prefix_rfl, by rw [List.append_nil]; rfl, ?_⟩
    exact iff_of_true rfl (clear_zero _ _)
  | cons i rest ih =>
    have hcons : reservations db txid (i :: rest) =
        (db.pendingIOflow txid i).toList ++ reservations db txid rest := by
      unfold reservations
      cases hio : db.pendingIOflow txid i <;> simp [hio]
    unfold reserveAll
    rw [Effect.after_bind]
    by_cases hclear : Clear fails clock (operations db i)
    · rw [reserve_eq_ok hnew hclear]
      obtain ⟨M, hM, hcommitted, hiff⟩ := @ih (L ++ (db.pendingIOflow txid i).toList)
        (clock + operations db i)
      refine ⟨(db.pendingIOflow txid i).toList ++ M, ?_, ?_, ?_⟩
      · rw [hcons]
        exact (List.prefix_append_right_inj _).2 hM
      · rw [hcommitted, List.append_assoc]
      · rw [hcons, List.append_cancel_left_eq, hiff]
        rw [operationsTo]
        split_ifs with hnone
        · -- nothing is left to reserve, whatever fails
          rw [hcons, List.append_eq_nil_iff] at hnone
          rw [hnone.2] at hM hiff
          exact iff_of_true (hiff.1 (List.prefix_nil.1 hM)) (clear_zero _ _)
        · rw [clear_add]
          exact (and_iff_right hclear).symm
    · obtain ⟨c, herror, hcommitted⟩ :=
        @reserve_eq_error db txid timestamp received txn L i fails clock hnew hclear
      rw [herror]
      refine ⟨[], List.nil_prefix, by rw [List.append_nil]; exact hcommitted, ?_⟩
      rw [operationsTo]
      split_ifs with hnone
      · exact iff_of_true hnone.symm (clear_zero _ _)
      · exact iff_of_false (fun h => hnone h.symm) fun h => hclear (clear_add.1 h).1

end Loop

end PendingTxnSet

/-! ## The law -/

open PendingTxnSet

/-- The pool holds the transaction with a reservation for each inflow whose outflow is
stored in `db`, or does not hold it. -/
def Database.Whole (db : Database) (txn : Transaction) (pool : Database) : Prop :=
  ∀ txid, txn.txid = some txid →
    (∃ p ∈ pool.pendingTxns, p.txid = txid ∧ p.ioflows = reservations db txid txn.inflows) ∨
      ∀ p ∈ pool.pendingTxns, p.txid ≠ txid

/-- The row is committed, and then an operation fails before the last reservation is. -/
def Interrupted (c : Conn Database) (txn : Transaction) : Prop :=
  ∃ txid timestamp, txn.identity = .ok (txid, timestamp) ∧ txid.length ≤ 100 ∧
    Clear c.fails c.clock 2 ∧
      ¬ Clear c.fails (c.clock + 2) (operationsTo c.committed txid txn.inflows)

section Law

variable {received : ℕ} {txn : Transaction} {c : Conn Database} {txid : Str}
  {timestamp : DateTime}

/-- The handler commits nothing. -/
theorem Node.committed_admitTransaction (received : ℕ) (txn : Transaction) (c : Conn Database) :
    (Effect.after (admitTransaction received txn) c).committed =
      (Effect.after (PendingTxnSet.add received txn) c).committed := by
  have htrans : ∀ s t u : Conn Database, SameCommitted s t → SameCommitted t u →
      SameCommitted s u := fun _ _ _ => SameCommitted.trans
  have hthrow : ∀ e : Raised,
      Effect.Within SameCommitted (throw e : EStateM Raised (Conn Database) Unit) :=
    Effect.Within.throw SameCommitted.refl
  refine committed_tryCatch (fun e => ?_) c
  split_ifs with hsql
  · refine Effect.Within.bind htrans rollback_within fun _ => ?_
    refine Effect.Within.bind htrans ?_ fun found => ?_
    · unfold contains
      split
      · exact Effect.Within.pure SameCommitted.refl _
      · exact ask_within _ _
    · cases found
      · exact hthrow e
      · exact Effect.Within.pure SameCommitted.refl _
  · exact hthrow e

/-- Nothing is committed for a transaction that is refused, or whose row is lost. -/
theorem PendingTxnSet.committed_add_eq (hc : Clean c)
    (hnew : c.committed.pendingByTxid txid = none) (hid : txn.identity = .ok (txid, timestamp))
    (h : ¬ (txid.length ≤ 100 ∧ Clear c.fails c.clock 2)) :
    (Effect.after (add received txn) c).committed = c.committed := by
  rw [hc.eq_settled]
  unfold add Effect.after
  rw [raising_bind, hid]
  simp only [Except.mapError]
  by_cases hlen : txid.length ≤ 100
  · have hrow : insertPending txid timestamp received txn c.committed =
        .ok (withRow c.committed (rowOf txid timestamp received txn [])) := if_pos ⟨hlen, hnew⟩
    obtain ⟨c', herror, hcommitted⟩ := write_commit_bind_lost Raised.lost hrow
      (fun hclear => h ⟨hlen, hclear⟩) fun _ => reserveAll txid txn.inflows
    rw [herror]
    exact hcommitted
  · have hrow : insertPending txid timestamp received txn c.committed =
        .error (.err .integrityError) := if_neg fun hfits => hlen hfits.1
    obtain ⟨e, c', herror, hcommitted⟩ := write_bind_refused Raised.lost hrow
      fun _ => do commit .lost; reserveAll txid txn.inflows
    rw [herror]
    exact hcommitted

/-- Otherwise the pool holds the row with what the loop reserves. -/
theorem PendingTxnSet.committed_add (hc : Clean c)
    (hnew : c.committed.pendingByTxid txid = none) (hid : txn.identity = .ok (txid, timestamp))
    (hlen : txid.length ≤ 100) (hclear : Clear c.fails c.clock 2) :
    ∃ M, (Effect.after (add received txn) c).committed =
        withRow c.committed (rowOf txid timestamp received txn M) ∧
      (M = reservations c.committed txid txn.inflows ↔
        Clear c.fails (c.clock + 2) (operationsTo c.committed txid txn.inflows)) := by
  have hrow : insertPending txid timestamp received txn c.committed =
      .ok (withRow c.committed (rowOf txid timestamp received txn [])) := if_pos ⟨hlen, hnew⟩
  have hadd : Effect.after (add received txn) c = Effect.after (reserveAll txid txn.inflows)
      (.settled (withRow c.committed (rowOf txid timestamp received txn [])) c.fails
        (c.clock + 2)) := by
    nth_rewrite 1 [hc.eq_settled]
    unfold Effect.after add
    rw [raising_bind, hid]
    simp only [Except.mapError]
    rw [write_commit_bind Raised.lost hrow hclear]
  obtain ⟨M, -, hcommitted, hiff⟩ := @committed_reserveAll c.committed txid timestamp received txn
    [] txn.inflows c.fails (c.clock + 2) hnew
  exact ⟨M, by rw [hadd, hcommitted, List.nil_append], hiff⟩

theorem PendingTxnSet.committed_add_error {e : Err} (hid : txn.identity = .error e) :
    (Effect.after (add received txn) c).committed = c.committed := by
  unfold add Effect.after
  rw [raising_bind, hid]
  rfl

/-- A pool without the transaction is whole. -/
theorem Database.Whole.of_new {db pool : Database}
    (hnew : ∀ txid, txn.txid = some txid → pool.pendingByTxid txid = none) :
    db.Whole txn pool :=
  fun txid htxid => Or.inr (Table.byKey_eq_none.1 (hnew txid htxid))

/-- A pool with one row of it is whole if the row has all its reservations. -/
theorem Database.whole_withRow {db : Database} (htxid : txn.txid = some txid)
    (hnew : db.pendingByTxid txid = none) {M : List PendingIOflowDAO} :
    db.Whole txn (withRow db (rowOf txid timestamp received txn M)) ↔
      M = reservations db txid txn.inflows := by
  have hold := Table.byKey_eq_none.1 hnew
  have hmem : rowOf txid timestamp received txn M ∈
      (withRow db (rowOf txid timestamp received txn M)).pendingTxns :=
    List.mem_append_right _ (List.mem_singleton_self _)
  constructor
  · intro h
    rcases h txid htxid with ⟨p, hp, hptxid, hall⟩ | hnone
    · rcases List.mem_append.1 hp with hp | hp
      · exact absurd hptxid (hold p hp)
      · obtain rfl := List.mem_singleton.1 hp
        exact hall
    · exact absurd rfl (hnone _ hmem)
  · rintro rfl txid' htxid'
    obtain rfl := Option.some.inj (htxid.symm.trans htxid')
    exact Or.inl ⟨_, hmem, rfl, rfl⟩

end Law

/-- The pool after an admission holds the transaction with all its reservations, or does
not hold it, unless an operation fails after the row was committed and before the last
reservation was. -/
theorem admission_atomic_iff (received : ℕ) {txn : Transaction} {c : Conn Database}
    (hc : Clean c)
    (hnew : ∀ txid, txn.txid = some txid → c.committed.pendingByTxid txid = none) :
    c.committed.Whole txn (Effect.after (Node.admitTransaction received txn) c).committed ↔
      ¬ Interrupted c txn := by
  rw [Node.committed_admitTransaction]
  cases hid : txn.identity with
  | error e =>
    rw [committed_add_error hid]
    refine iff_of_true (.of_new hnew) ?_
    rintro ⟨txid, timestamp, hid', -⟩
    exact absurd (hid.symm.trans hid') (by simp)
  | ok r =>
    obtain ⟨txid, timestamp⟩ := r
    have htxid := (Transaction.identity_eq_ok.1 hid).1
    have hinter : Interrupted c txn ↔ (txid.length ≤ 100 ∧ Clear c.fails c.clock 2) ∧
        ¬ Clear c.fails (c.clock + 2) (operationsTo c.committed txid txn.inflows) := by
      constructor
      · rintro ⟨txid', timestamp', hid', hlen, hclear, hlost⟩
        obtain ⟨rfl, rfl⟩ := Prod.mk.inj (Except.ok.inj (hid.symm.trans hid'))
        exact ⟨⟨hlen, hclear⟩, hlost⟩
      · rintro ⟨⟨hlen, hclear⟩, hlost⟩
        exact ⟨txid, timestamp, hid, hlen, hclear, hlost⟩
    by_cases hrow : txid.length ≤ 100 ∧ Clear c.fails c.clock 2
    · obtain ⟨M, hcommitted, hall⟩ :=
        @committed_add received txn c txid timestamp hc (hnew txid htxid) hid hrow.1 hrow.2
      rw [hcommitted, whole_withRow htxid (hnew txid htxid), hall, hinter, not_and_not_right]
      exact ⟨fun h _ => h, fun h => h hrow⟩
    · rw [committed_add_eq hc (hnew txid htxid) hid hrow, hinter]
      exact iff_of_true (.of_new hnew) fun h => hrow h.1

namespace Sample

/-- The tables before the spend came. -/
def unpooledDb : Database := { pooledDb with pendingTxns := [] }

/-- A session whose sixth operation fails: the insert of the spend's reservation. -/
def failingSixth : Conn Database := .settled unpooledDb (· == 5) 0

theorem failingSixth_new (txid : Str) (_ : spend.txid = some txid) :
    unpooledDb.pendingByTxid txid = none := rfl

end Sample

theorem admission_atomic_iff_failingSixth :
    Sample.failingSixth.committed.Whole Sample.spend
        (Effect.after (Node.admitTransaction 0 Sample.spend) Sample.failingSixth).committed ↔
      ¬ Interrupted Sample.failingSixth Sample.spend :=
  admission_atomic_iff 0 ⟨rfl, rfl⟩ Sample.failingSixth_new

/-- The row of the spend is committed without its reservation. -/
theorem admission_not_atomic :
    Clean Sample.failingSixth ∧ Sample.failingSixth.committed.pendingTxns = [] ∧
      ¬ Sample.failingSixth.committed.Whole Sample.spend
        (Effect.after (Node.admitTransaction 0 Sample.spend) Sample.failingSixth).committed := by
  refine ⟨⟨rfl, rfl⟩, rfl, fun hwhole => ?_⟩
  have hpool : (Effect.after (Node.admitTransaction 0 Sample.spend)
        Sample.failingSixth).committed.pendingTxns =
      [⟨Sample.spend.txid.getD [], ⟨2024, 1, 1, 0, 5, 0, by decide⟩, Sample.spend, 0, []⟩] := by
    decide +kernel
  have htxid : Sample.spend.txid = some (Sample.spend.txid.getD []) := rfl
  rcases hwhole _ htxid with ⟨p, hp, -, hall⟩ | hnone
  · rw [hpool, List.mem_singleton] at hp
    subst hp
    have hsome : reservations Sample.unpooledDb (Sample.spend.txid.getD []) Sample.spend.inflows ≠
        [] := by decide +kernel
    exact hsome hall.symm
  · rw [hpool] at hnone
    exact hnone _ (List.mem_singleton_self _) rfl

end GumptionChain
