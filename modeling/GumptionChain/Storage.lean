import GumptionChain.Ancestry

/-!
# Storing a block

`Transaction.to_dao`, `Block.to_dao` and `Block.to_db`.  A transaction whose
txid is stored already is shared, row and signature; the others get rows of
their own.  Everything is looked up in the tables as they were before the block
(`no_autoflush`), and one flush at the end checks the schema.

* `Database.Extends` — the tables only grow, and what is new hangs on new rows;
* `Database.Extends.fromDao` — so an old transaction reads back as before;
* `Block.toDb_spec` — what a successful `to_db` of a new block leaves behind;
* `Block.toDb_frame` — it leaves every stored block, its path and its
  transactions as they were.
-/

namespace GumptionChain

/-! ## Row constructors -/

/-- `OutflowDAO(...)`, as `Transaction.to_dao` calls it. -/
def Outflow.toDao (o : Outflow) (id : ℕ) (txid : Str) (idx transactionId : ℕ) : OutflowDAO where
  id := id
  txid := txid
  idx := idx
  amount := o.amount.getD 0
  address := o.address
  opposition := o.opposition
  rescind := o.rescind
  support := o.support
  rescindKind := o.rescindKind
  transactionId := transactionId

/-- `InflowDAO(...)`: the outflow is looked up in the flushed tables. -/
def Inflow.toDao (i : Inflow) (flushed : Database) (id : ℕ) (txid : Str) (idx transactionId : ℕ) :
    InflowDAO where
  id := id
  txid := txid
  idx := idx
  outflowTxid := i.outflowTxid.getD []
  outflowIdx := i.outflowIdx.getD 0
  outflowId := (flushed.outflowByKey (i.outflowTxid.getD []) (i.outflowIdx.getD 0)).map OutflowDAO.id
  transactionId := transactionId

theorem Outflow.fromDao_toDao {o : Outflow} (h : o.amount ≠ none) (id : ℕ) (txid : Str)
    (idx transactionId : ℕ) : Outflow.fromDao (o.toDao id txid idx transactionId) = o := by
  obtain ⟨n, hn⟩ := Option.ne_none_iff_exists'.1 h
  cases o
  simp_all [Outflow.fromDao, Outflow.toDao]

theorem Inflow.fromDao_toDao {i : Inflow} (htxid : i.outflowTxid ≠ none) (hidx : i.outflowIdx ≠ none)
    (flushed : Database) (id : ℕ) (txid : Str) (idx transactionId : ℕ) :
    Inflow.fromDao (i.toDao flushed id txid idx transactionId) = i := by
  obtain ⟨x, hx⟩ := Option.ne_none_iff_exists'.1 htxid
  obtain ⟨n, hn⟩ := Option.ne_none_iff_exists'.1 hidx
  cases i
  simp_all [Inflow.fromDao, Inflow.toDao]

/-- The identity checks of `Transaction.to_dao`. -/
def Transaction.identity (t : Transaction) : Except Err (Str × DateTime) :=
  match t.txid with
  | none => .error .unsealedTransaction
  | some txid =>
    if t.timestamp = [] then
      .error (.invalidTransaction [⟨[], "Transaction missing timestamp", none⟩])
    else
      match iso2Dt t.timestamp with
      | none => .error .valueError
      | some timestamp =>
        match t.inflows.findIdx? fun i => i.outflowTxid.isNone || i.outflowIdx.isNone with
        | some k =>
          .error (.invalidTransaction [⟨[], s!"Inflow {k} missing outflow reference", none⟩])
        | none =>
          match t.outflows.findIdx? fun o => o.amount.isNone with
          | some k => .error (.invalidTransaction [⟨[], s!"Outflow {k} missing amount", none⟩])
          | none => .ok (txid, timestamp)

namespace Database

/-- The rows of a transaction that is not stored yet, with fresh ids. -/
def addTransaction (db flushed : Database) (t : Transaction) (txid : Str) (timestamp : DateTime) :
    Database × ℕ :=
  let id := Table.fresh (db.transactions.map TransactionDAO.id)
  let outflowId := Table.fresh (db.outflows.map OutflowDAO.id)
  let inflowId := Table.fresh (db.inflows.map InflowDAO.id)
  let row : TransactionDAO := ⟨id, txid, t.version, timestamp, t.address, t.signature, t.prevHash⟩
  ({ db with
      transactions := db.transactions ++ [row]
      outflows := db.outflows ++ t.outflows.mapIdx fun k o => o.toDao (outflowId + k) txid k id
      inflows := db.inflows ++ t.inflows.mapIdx fun k i => i.toDao flushed (inflowId + k) txid k id },
    id)

/-- `[txn.to_dao() for txn in txns]`: the grown tables and the row of each
transaction. -/
def enroll (flushed : Database) : Database → List Transaction → Except Err (Database × List ℕ)
  | db, [] => .ok (db, [])
  | db, t :: ts => do
    let (txid, timestamp) ← t.identity
    match flushed.transactionByTxid txid with
    | some row =>
      let (db', ids) ← enroll flushed db ts
      return (db', row.id :: ids)
    | none =>
      let (db', ids) ← enroll flushed (db.addTransaction flushed t txid timestamp).1 ts
      return (db', (db.addTransaction flushed t txid timestamp).2 :: ids)

/-- The block's row and its associations; a row met twice is associated once. -/
def addBlock (db flushed : Database) (row : BlockDAO) (transactionIds : List ℕ) : Database :=
  { flushed with
    transactions := db.transactions
    outflows := db.outflows
    inflows := db.inflows
    blocks := flushed.blocks ++ [row]
    blockTransactions := flushed.blockTransactions ++ transactionIds.dedup.map (row.id, ·) }

end Database

namespace Block

/-- The identity fields `Block.to_dao` insists on, as the row of a new block. -/
def toRow (db : Database) (b : Block) : Except Err BlockDAO :=
  match b.blockHash, b.idx, b.prevHash, b.timestamp, b.merkleRoot, b.proofOfWork with
  | some blockHash, some idx, some prevHash, some timestamp, some merkleRoot, some proofOfWork =>
    if timestamp = [] then
      .error (.invalidBlock [⟨[], "Block missing identity fields; cannot persist", none⟩])
    else
      match iso2Dt timestamp with
      | none => .error .valueError
      | some timestamp =>
        .ok
          { id := Table.fresh (db.blocks.map BlockDAO.id)
            blockHash, version := b.version, idx, prevHash, timestamp, merkleRoot, proofOfWork
            target := b.target
            prevId := (db.blockByHash (some prevHash)).map BlockDAO.id }
  | _, _, _, _, _, _ =>
    .error (.invalidBlock [⟨[], "Block missing identity fields; cannot persist", none⟩])

/-- `to_dao` and `to_db`. -/
def toDb (E : Env) (db : Database) (b : Block) : Except Err Database := do
  let row ← b.toRow db
  match db.blockByHash b.blockHash with
  | some _ => return db
  | none =>
    let (db', ids) ← Database.enroll db db b.txns
    (db'.addBlock db row ids).flush E

end Block

/-! ## Growing tables -/

namespace Database

/-- The transaction tables grow, and new flows hang on new transactions. -/
structure Extends (db db' : Database) : Prop where
  transactions : ∃ new, db'.transactions = db.transactions ++ new
  outflows : ∃ new, db'.outflows = db.outflows ++ new ∧
    ∀ o ∈ new, ∀ t ∈ db.transactions, o.transactionId ≠ t.id
  inflows : ∃ new, db'.inflows = db.inflows ++ new ∧
    ∀ i ∈ new, ∀ t ∈ db.transactions, i.transactionId ≠ t.id

variable {db db' db'' : Database}

theorem Extends.refl (db : Database) : db.Extends db :=
  ⟨⟨[], by simp⟩, ⟨[], by simp⟩, ⟨[], by simp⟩⟩

theorem Extends.mem_transactions (h : db.Extends db') {t : TransactionDAO}
    (ht : t ∈ db.transactions) : t ∈ db'.transactions := by
  obtain ⟨new, heq⟩ := h.transactions
  exact heq ▸ List.mem_append_left _ ht

theorem Extends.mem_outflows (h : db.Extends db') {o : OutflowDAO} (ho : o ∈ db.outflows) :
    o ∈ db'.outflows := by
  obtain ⟨new, heq, -⟩ := h.outflows
  exact heq ▸ List.mem_append_left _ ho

theorem Extends.trans (h : db.Extends db') (h' : db'.Extends db'') : db.Extends db'' := by
  obtain ⟨t1, ht1⟩ := h.transactions
  obtain ⟨t2, ht2⟩ := h'.transactions
  obtain ⟨o1, ho1, hon1⟩ := h.outflows
  obtain ⟨o2, ho2, hon2⟩ := h'.outflows
  obtain ⟨i1, hi1, hin1⟩ := h.inflows
  obtain ⟨i2, hi2, hin2⟩ := h'.inflows
  refine ⟨⟨t1 ++ t2, by rw [ht2, ht1, List.append_assoc]⟩,
    ⟨o1 ++ o2, by rw [ho2, ho1, List.append_assoc], ?_⟩,
    ⟨i1 ++ i2, by rw [hi2, hi1, List.append_assoc], ?_⟩⟩
  · intro o ho t ht
    rcases List.mem_append.1 ho with ho | ho
    · exact hon1 o ho t ht
    · exact hon2 o ho t (h.mem_transactions ht)
  · intro i hi t ht
    rcases List.mem_append.1 hi with hi | hi
    · exact hin1 i hi t ht
    · exact hin2 i hi t (h.mem_transactions ht)

/-- The flows of an old transaction are what they were. -/
theorem Extends.outflowsOf (h : db.Extends db') {t : TransactionDAO} (ht : t ∈ db.transactions) :
    db'.outflowsOf t = db.outflowsOf t := by
  obtain ⟨new, heq, hnew⟩ := h.outflows
  have hnil : new.filter (·.transactionId = t.id) = [] :=
    List.filter_eq_nil_iff.2 fun o ho => by simpa using hnew o ho t ht
  rw [Database.outflowsOf, heq, List.filter_append, hnil, List.append_nil, Database.outflowsOf]

theorem Extends.inflowsOf (h : db.Extends db') {t : TransactionDAO} (ht : t ∈ db.transactions) :
    db'.inflowsOf t = db.inflowsOf t := by
  obtain ⟨new, heq, hnew⟩ := h.inflows
  have hnil : new.filter (·.transactionId = t.id) = [] :=
    List.filter_eq_nil_iff.2 fun i hi => by simpa using hnew i hi t ht
  rw [Database.inflowsOf, heq, List.filter_append, hnil, List.append_nil, Database.inflowsOf]

theorem Extends.fromDao (h : db.Extends db') {t : TransactionDAO} (ht : t ∈ db.transactions) :
    Transaction.fromDao db' t = Transaction.fromDao db t := by
  rw [Transaction.fromDao, h.outflowsOf ht, h.inflowsOf ht, Transaction.fromDao]

/-- Flows hang on stored transactions, whose row is related to the txid that the
flow repeats: by nothing (the foreign keys alone), or by having it. -/
structure FlowKeys (P : TransactionDAO → Str → Prop) (db : Database) : Prop where
  outflows : ∀ o ∈ db.outflows, ∃ t ∈ db.transactions, t.id = o.transactionId ∧ P t o.txid
  inflows : ∀ i ∈ db.inflows, ∃ t ∈ db.transactions, t.id = i.transactionId ∧ P t i.txid

/-- Flows repeat the txid of their transaction. -/
def FlowNames (db : Database) : Prop := db.FlowKeys fun t txid => t.txid = txid

theorem Schema.flowKeys {E : Env} (h : db.Schema E) : db.FlowKeys fun _ _ => True :=
  ⟨fun o ho => (h.outflowTransaction o ho).imp fun _ ht => ⟨ht.1, ht.2, trivial⟩,
    fun i hi => (h.inflowTransaction i hi).imp fun _ ht => ⟨ht.1, ht.2, trivial⟩⟩

end Database

/-! ## One new transaction -/

/-- A transaction as it reads back from rows of its own: the timestamp is
written anew. -/
def Transaction.restamped (t : Transaction) (timestamp : DateTime) : Transaction :=
  { t with timestamp := dt2Iso timestamp }

theorem Transaction.identity_eq_ok {t : Transaction} {txid : Str} {timestamp : DateTime} :
    t.identity = .ok (txid, timestamp) ↔
      t.txid = some txid ∧ t.timestamp ≠ [] ∧ iso2Dt t.timestamp = some timestamp ∧
        (∀ i ∈ t.inflows, i.outflowTxid ≠ none ∧ i.outflowIdx ≠ none) ∧
        ∀ o ∈ t.outflows, o.amount ≠ none := by
  unfold identity
  split
  · rename_i h
    simp [h]
  · rename_i x hx
    split_ifs with hts
    · simp [hts]
    · split
      · rename_i hnone
        simp [hnone]
      · rename_i d hd
        split
        · rename_i k hk
          simp only [reduceCtorEq, false_iff, not_and]
          rintro - - - hall
          obtain ⟨hlt, hbad, -⟩ := List.findIdx?_eq_some_iff_getElem.1 hk
          have := hall _ (List.getElem_mem hlt)
          simp only [Bool.or_eq_true, Option.isNone_iff_eq_none] at hbad
          tauto
        · rename_i hin
          split
          · rename_i k hk
            simp only [reduceCtorEq, false_iff, not_and]
            rintro - - - - hall
            obtain ⟨hlt, hbad, -⟩ := List.findIdx?_eq_some_iff_getElem.1 hk
            exact hall _ (List.getElem_mem hlt) (by simpa using hbad)
          · rename_i hout
            rw [List.findIdx?_eq_none_iff] at hin hout
            simp only [Bool.or_eq_false_iff, Option.isNone_eq_false_iff] at hin hout
            rw [Except.ok.injEq, Prod.mk.injEq, hd, hx, Option.some.injEq, Option.some.injEq]
            constructor
            · rintro ⟨rfl, rfl⟩
              exact ⟨rfl, hts, rfl, fun i hi => ⟨Option.isSome_iff_ne_none.1 (hin i hi).1,
                Option.isSome_iff_ne_none.1 (hin i hi).2⟩,
                fun o ho => Option.isSome_iff_ne_none.1 (hout o ho)⟩
            · rintro ⟨rfl, -, rfl, -⟩
              exact ⟨rfl, rfl⟩

namespace Database

variable {db flushed : Database} {t : Transaction} {txid : Str} {timestamp : DateTime}

/-- The row a new transaction gets. -/
def newRow (db : Database) (t : Transaction) (txid : Str) (timestamp : DateTime) : TransactionDAO :=
  ⟨Table.fresh (db.transactions.map TransactionDAO.id), txid, t.version, timestamp, t.address,
    t.signature, t.prevHash⟩

theorem newRow_id_ne {u : TransactionDAO} (hu : u ∈ db.transactions) :
    u.id ≠ (db.newRow t txid timestamp).id := fun h =>
  Table.fresh_notMem (db.transactions.map TransactionDAO.id) (List.mem_map.2 ⟨u, hu, h⟩)

theorem addTransaction_extends : db.Extends (db.addTransaction flushed t txid timestamp).1 := by
  refine ⟨⟨_, rfl⟩, ⟨_, rfl, fun o ho u hu => ?_⟩, ⟨_, rfl, fun i hi u hu => ?_⟩⟩
  · obtain ⟨k, hk, rfl⟩ := List.mem_mapIdx.1 ho
    exact fun heq => (newRow_id_ne hu : u.id ≠ (db.newRow t txid timestamp).id) heq.symm
  · obtain ⟨k, hk, rfl⟩ := List.mem_mapIdx.1 hi
    exact fun heq => (newRow_id_ne hu : u.id ≠ (db.newRow t txid timestamp).id) heq.symm

theorem addTransaction_flowKeys {P : TransactionDAO → Str → Prop} (hP : ∀ t, P t t.txid)
    (h : db.FlowKeys P) : (db.addTransaction flushed t txid timestamp).1.FlowKeys P := by
  have hnew : db.newRow t txid timestamp ∈
      (db.addTransaction flushed t txid timestamp).1.transactions :=
    List.mem_append_right _ (List.mem_singleton_self _)
  constructor
  · intro o ho
    rcases List.mem_append.1 ho with ho | ho
    · obtain ⟨u, hu, hid⟩ := h.outflows o ho
      exact ⟨u, List.mem_append_left _ hu, hid⟩
    · obtain ⟨k, hk, rfl⟩ := List.mem_mapIdx.1 ho
      exact ⟨_, hnew, rfl, hP _⟩
  · intro i hi
    rcases List.mem_append.1 hi with hi | hi
    · obtain ⟨u, hu, hid⟩ := h.inflows i hi
      exact ⟨u, List.mem_append_left _ hu, hid⟩
    · obtain ⟨k, hk, rfl⟩ := List.mem_mapIdx.1 hi
      exact ⟨_, hnew, rfl, hP _⟩

/-- The inflow rows of a new transaction. -/
theorem addTransaction_inflowsOf {P : TransactionDAO → Str → Prop} (h : db.FlowKeys P) :
    (db.addTransaction flushed t txid timestamp).1.inflowsOf (db.newRow t txid timestamp) =
      t.inflows.mapIdx fun k i => i.toDao flushed (Table.fresh (db.inflows.map InflowDAO.id) + k)
        txid k (db.newRow t txid timestamp).id := by
  have hnil : db.inflows.filter (·.transactionId = (db.newRow t txid timestamp).id) = [] := by
    refine List.filter_eq_nil_iff.2 fun i hi hc => ?_
    obtain ⟨u, hu, huid, -⟩ := h.inflows i hi
    exact newRow_id_ne hu (huid.trans (by simpa using hc))
  rw [inflowsOf, addTransaction, List.filter_append, hnil, List.nil_append, List.filter_eq_self.2,
    Table.orderBy_mapIdx fun _ _ => rfl]
  · rfl
  · intro i hi
    obtain ⟨k, hk, rfl⟩ := List.mem_mapIdx.1 hi
    exact decide_eq_true rfl

/-- The outflow rows of a new transaction. -/
theorem addTransaction_outflowsOf {P : TransactionDAO → Str → Prop} (h : db.FlowKeys P) :
    (db.addTransaction flushed t txid timestamp).1.outflowsOf (db.newRow t txid timestamp) =
      t.outflows.mapIdx fun k o => o.toDao (Table.fresh (db.outflows.map OutflowDAO.id) + k)
        txid k (db.newRow t txid timestamp).id := by
  have hnil : db.outflows.filter (·.transactionId = (db.newRow t txid timestamp).id) = [] := by
    refine List.filter_eq_nil_iff.2 fun o ho hc => ?_
    obtain ⟨u, hu, huid, -⟩ := h.outflows o ho
    exact newRow_id_ne hu (huid.trans (by simpa using hc))
  rw [outflowsOf, addTransaction, List.filter_append, hnil, List.nil_append, List.filter_eq_self.2,
    Table.orderBy_mapIdx fun _ _ => rfl]
  · rfl
  · intro o ho
    obtain ⟨k, hk, rfl⟩ := List.mem_mapIdx.1 ho
    exact decide_eq_true rfl

/-- A new transaction reads back as it was, up to the timestamp's spelling. -/
theorem addTransaction_fromDao {P : TransactionDAO → Str → Prop} (h : db.FlowKeys P)
    (hid : t.identity = .ok (txid, timestamp)) :
    Transaction.fromDao (db.addTransaction flushed t txid timestamp).1
      (db.newRow t txid timestamp) = t.restamped timestamp := by
  obtain ⟨htxid, -, -, hin, hout⟩ := Transaction.identity_eq_ok.1 hid
  rw [Transaction.fromDao, addTransaction_outflowsOf h, addTransaction_inflowsOf h,
    Table.map_mapIdx_eq fun k o ho => Outflow.fromDao_toDao (hout o ho) ..,
    Table.map_mapIdx_eq fun k i hi => Inflow.fromDao_toDao (hin i hi).1 (hin i hi).2 ..]
  simp [newRow, Transaction.restamped, htxid]

/-! ## All transactions of a block -/

/-- What became of a transaction of the block: its row is the one stored before
it, or a new one that reads back as the transaction and whose inflows are linked
to the outflows stored before. -/
def StoredAs (flushed db : Database) (t : Transaction) (u : TransactionDAO) : Prop :=
  t.txid = some u.txid ∧
    (flushed.transactionByTxid u.txid = some u ∨
      (flushed.transactionByTxid u.txid = none ∧ iso2Dt t.timestamp = some u.timestamp ∧
        Transaction.fromDao db u = t.restamped u.timestamp ∧
        ∀ i ∈ db.inflowsOf u, i.outflowId =
          (flushed.outflowByKey i.outflowTxid i.outflowIdx).map OutflowDAO.id))

/-- A transaction's row, by its id. -/
def Enrolled (flushed db : Database) (t : Transaction) (id : ℕ) : Prop :=
  ∃ u ∈ db.transactions, u.id = id ∧ StoredAs flushed db t u

theorem StoredAs.extends {db' : Database} {u : TransactionDAO} (h : StoredAs flushed db t u)
    (hu : u ∈ db.transactions) (hext : db.Extends db') : StoredAs flushed db' t u := by
  refine ⟨h.1, h.2.imp_right ?_⟩
  rintro ⟨hnew, hts, hread, hlink⟩
  exact ⟨hnew, hts, (hext.fromDao hu).trans hread, by rwa [hext.inflowsOf hu]⟩

/-- Every row is an old one or that of one of the transactions. -/
def Sourced (flushed old db : Database) (ts : List Transaction) : Prop :=
  ∀ u ∈ db.transactions, u ∈ old.transactions ∨ ∃ t ∈ ts, StoredAs flushed db t u

/-- The loop over a block's transactions: the tables grow by rows of these
transactions, and every transaction has its row. -/
theorem enroll_spec {P : TransactionDAO → Str → Prop} (hP : ∀ t, P t t.txid) :
    ∀ {ts : List Transaction} {db db' : Database} {ids : List ℕ},
    flushed.Extends db → db.FlowKeys P → enroll flushed db ts = .ok (db', ids) →
    db.Extends db' ∧ db'.FlowKeys P ∧ List.Forall₂ (Enrolled flushed db') ts ids ∧
      Sourced flushed db db' ts
  | [], db, db', ids, _, hk, h => by
    cases h
    exact ⟨Extends.refl db, hk, List.Forall₂.nil, fun u hu => Or.inl hu⟩
  | t :: ts, db, db', ids, hext, hk, h => by
    rw [enroll, bind_eq_ok] at h
    obtain ⟨⟨txid, timestamp⟩, hid, h⟩ := h
    obtain ⟨htx, -, hts, -, -⟩ := Transaction.identity_eq_ok.1 hid
    simp only at h
    cases hstored : flushed.transactionByTxid txid with
    | some row =>
      rw [hstored] at h
      obtain ⟨⟨db1, rest⟩, hrest, h⟩ := bind_eq_ok.1 h
      cases h
      obtain ⟨hext', hk', hall, hsrc⟩ := enroll_spec hP hext hk hrest
      obtain ⟨hrow, hrowTx⟩ := Table.byKey_mem hstored
      refine ⟨hext', hk', List.Forall₂.cons ⟨row, ?_, rfl, ?_, Or.inl ?_⟩ hall, fun u hu => ?_⟩
      · exact hext'.mem_transactions (hext.mem_transactions hrow)
      · exact htx.trans (congrArg some hrowTx.symm)
      · exact hrowTx ▸ hstored
      · exact (hsrc u hu).imp_right fun ⟨v, hv, hst⟩ => ⟨v, List.mem_cons_of_mem _ hv, hst⟩
    | none =>
      rw [hstored] at h
      obtain ⟨⟨db1, rest⟩, hrest, h⟩ := bind_eq_ok.1 h
      cases h
      have hadd : db.Extends (db.addTransaction flushed t txid timestamp).1 :=
        addTransaction_extends
      obtain ⟨hext', hk', hall, hsrc⟩ :=
        enroll_spec hP (hext.trans hadd) (addTransaction_flowKeys hP hk) hrest
      have hmem : db.newRow t txid timestamp ∈
          (db.addTransaction flushed t txid timestamp).1.transactions :=
        List.mem_append_right _ (List.mem_singleton_self _)
      have hst : StoredAs flushed db1 t (db.newRow t txid timestamp) := by
        refine StoredAs.extends ?_ hmem hext'
        refine ⟨htx, Or.inr ⟨hstored, hts, addTransaction_fromDao hk hid, ?_⟩⟩
        rw [addTransaction_inflowsOf hk]
        intro i hi
        obtain ⟨k, hlt, rfl⟩ := List.mem_mapIdx.1 hi
        rfl
      refine ⟨hadd.trans hext', hk', List.Forall₂.cons ⟨_, hext'.mem_transactions hmem, rfl, hst⟩
        hall, fun u hu => ?_⟩
      rcases hsrc u hu with hold | ⟨v, hv, hst'⟩
      · rcases List.mem_append.1 hold with hold | hnew
        · exact Or.inl hold
        · exact Or.inr ⟨t, List.mem_cons_self .., (List.mem_singleton.1 hnew) ▸ hst⟩
      · exact Or.inr ⟨v, List.mem_cons_of_mem _ hv, hst'⟩

/-! ## What stays as it was -/

/-- Stored blocks keep their place, their transactions and their content. -/
structure Frame (db db' : Database) : Prop where
  extends_ : db.Extends db'
  blocks : ∀ c ∈ db.blocks, c ∈ db'.blocks
  prev : ∀ c ∈ db.blocks, db'.prev c = db.prev c
  rows : ∀ c ∈ db.blocks, db'.rowsOf c.id = db.rowsOf c.id

theorem Frame.refl (db : Database) : db.Frame db :=
  ⟨Extends.refl db, fun _ h => h, fun _ _ => rfl, fun _ _ => rfl⟩

section

variable {E : Env} {db' : Database} {c : BlockDAO}

theorem Frame.path (h : db.Frame db') (ht : db.Tree) (hc : c ∈ db.blocks) :
    db'.path c = db.path c := Forest.path_congr ht.ranked hc h.prev

theorem Frame.pathRows (h : db.Frame db') (ht : db.Tree) (hc : c ∈ db.blocks) :
    db'.pathRows c = db.pathRows c := by
  unfold Database.pathRows
  rw [h.path ht hc]
  exact List.flatMap_congr fun d hd => h.rows d (ht.mem_blocks hc hd)

theorem rowsOf_subset {id : ℕ} {u : TransactionDAO} (hu : u ∈ db.rowsOf id) :
    u ∈ db.transactions := by
  obtain ⟨p, -, hp⟩ := List.mem_filterMap.1 hu
  exact (Table.byKey_mem hp).1

/-- Each transaction row is joined to a block once. -/
theorem rowsOf_nodup (hs : db.Schema E) (id : ℕ) : (db.rowsOf id).Nodup := by
  refine List.pairwise_filterMap.2
    ((hs.blockTransactionKeys.filter _).imp_of_mem fun {p q} hp hq hpq t ht u hu htu => hpq ?_)
  obtain ⟨-, htp⟩ := (transactionById_eq_some hs).1 ht
  obtain ⟨-, htq⟩ := (transactionById_eq_some hs).1 hu
  have hp' : p.1 = id := by simpa using (List.mem_filter.1 hp).2
  have hq' : q.1 = id := by simpa using (List.mem_filter.1 hq).2
  exact Prod.ext (hp'.trans hq'.symm) (by rw [← htp, ← htq, htu])

/-- A stored block reads back as before. -/
theorem Frame.fromDao (h : db.Frame db') (hc : c ∈ db.blocks) :
    Block.fromDao db' c = Block.fromDao db c := by
  have htxns : (db'.transactionsOf c).map (Transaction.fromDao db') =
      (db.transactionsOf c).map (Transaction.fromDao db) := by
    rw [transactionsOf, h.rows c hc, ← transactionsOf]
    exact List.map_congr_left fun u hu =>
      h.extends_.fromDao (rowsOf_subset (Table.mem_orderBy.1 hu))
  rw [Block.fromDao, htxns, Block.fromDao]

end

end Database

/-! ## The spec of `to_db` -/

namespace Block

variable {E : Env} {db db' : Database} {b : Block}

theorem toRow_eq_ok {row : BlockDAO} (h : b.toRow db = .ok row) :
    b.blockHash = some row.blockHash ∧ b.idx = some row.idx ∧ b.prevHash = some row.prevHash ∧
      b.timestampDt = some row.timestamp ∧ b.merkleRoot = some row.merkleRoot ∧
      b.proofOfWork = some row.proofOfWork ∧ b.target = row.target ∧ b.version = row.version ∧
      row.id = Table.fresh (db.blocks.map BlockDAO.id) ∧
      row.prevId = (db.blockByHash b.prevHash).map BlockDAO.id := by
  unfold toRow at h
  split at h
  · rename_i hash idx prevHash ts root pow h1 h2 h3 h4 h5 h6
    split_ifs at h with hts
    split at h
    · exact absurd h (by simp)
    · rename_i d hd
      cases h
      exact ⟨h1, h2, h3, by rw [timestampDt, h4]; exact hd, h5, h6, rfl, rfl, rfl, by rw [h3]⟩
  · exact absurd h (by simp)

/-- What a successful `to_db` of a block that was not stored leaves behind. -/
structure Added (E : Env) (db db' : Database) (b : Block) (row : BlockDAO) (ids : List ℕ) :
    Prop where
  toRow : b.toRow db = .ok row
  schema : db'.Schema E
  extends_ : db.Extends db'
  blocks : db'.blocks = db.blocks ++ [row]
  blockTransactions : db'.blockTransactions = db.blockTransactions ++ ids.dedup.map (row.id, ·)
  chains : db'.chains = db.chains
  longestChainBlocks : db'.longestChainBlocks = db.longestChainBlocks
  pendingTxns : db'.pendingTxns = db.pendingTxns
  txns : List.Forall₂ (Database.Enrolled db db') b.txns ids
  sourced : Database.Sourced db db db' b.txns
  named : db.FlowNames → db'.FlowNames

theorem toDb_spec (hs : db.Schema E) (h : b.toDb E db = .ok db') :
    (∃ row, db.blockByHash b.blockHash = some row ∧ db' = db) ∨
      (db.blockByHash b.blockHash = none ∧ ∃ row ids, Added E db db' b row ids) := by
  unfold toDb at h
  obtain ⟨row, hrow, h⟩ := bind_eq_ok.1 h
  cases hstored : db.blockByHash b.blockHash with
  | some r =>
    rw [hstored] at h
    cases h
    exact Or.inl ⟨r, rfl, rfl⟩
  | none =>
    rw [hstored] at h
    obtain ⟨⟨db1, ids⟩, henroll, h⟩ := bind_eq_ok.1 h
    obtain ⟨hschema, rfl⟩ := Database.flush_eq_ok.1 h
    obtain ⟨hext, -, hall, hsrc⟩ := Database.enroll_spec (fun _ => trivial)
      (Database.Extends.refl db) hs.flowKeys henroll
    have hext1 : db1.Extends (db1.addBlock db row ids) :=
      ⟨⟨[], by simp [Database.addBlock]⟩, ⟨[], by simp [Database.addBlock]⟩,
        ⟨[], by simp [Database.addBlock]⟩⟩
    refine Or.inr ⟨rfl, row, ids, hrow, hschema, hext.trans hext1, rfl, rfl, rfl, rfl, rfl, ?_, ?_,
      fun hn => ?_⟩
    · exact hall.imp fun t id ⟨u, hu, hid, hst⟩ => ⟨u, hu, hid, hst.extends hu hext1⟩
    · exact fun u hu => (hsrc u hu).imp_right fun ⟨t, ht, hst⟩ => ⟨t, ht, hst.extends hu hext1⟩
    · obtain ⟨-, hnames, -, -⟩ := Database.enroll_spec (fun _ => rfl) (Database.Extends.refl db) hn
        henroll
      exact ⟨hnames.outflows, hnames.inflows⟩

namespace Added

variable {row : BlockDAO} {ids : List ℕ}

theorem row_mem (h : Added E db db' b row ids) : row ∈ db'.blocks :=
  h.blocks ▸ List.mem_append_right _ (List.mem_singleton_self _)

theorem row_id_ne (h : Added E db db' b row ids) {c : BlockDAO} (hc : c ∈ db.blocks) :
    c.id ≠ row.id := by
  obtain ⟨-, -, -, -, -, -, -, -, hid, -⟩ := toRow_eq_ok h.toRow
  intro heq
  exact Table.fresh_notMem (db.blocks.map BlockDAO.id) (hid ▸ List.mem_map.2 ⟨c, hc, heq⟩)

/-- Adding a block leaves the stored ones as they were. -/
theorem frame (hs : db.Schema E) (h : Added E db db' b row ids) : db.Frame db' := by
  refine ⟨h.extends_, fun c hc => h.blocks ▸ List.mem_append_left _ hc, fun c hc => ?_,
    fun c hc => ?_⟩
  · rcases hs.blockPrev c hc with hnone | ⟨p, hp, hsome⟩
    · rw [Database.prev, Database.prev, hnone]
      rfl
    · rw [Database.prev, Database.prev, hsome, Option.bind_some, Option.bind_some,
        (Database.blockById_eq_some hs).2 ⟨hp, rfl⟩, Database.blockById_eq_some h.schema]
      exact ⟨h.blocks ▸ List.mem_append_left _ hp, rfl⟩
  · have hnew : (ids.dedup.map (row.id, ·)).filter (·.1 = c.id) = [] := by
      refine List.filter_eq_nil_iff.2 fun p hp hpc => h.row_id_ne hc ?_
      obtain ⟨i, -, rfl⟩ := List.mem_map.1 hp
      exact (by simpa using hpc : row.id = c.id).symm
    rw [Database.rowsOf, h.blockTransactions, List.filter_append, hnew, List.append_nil,
      Database.rowsOf]
    refine List.filterMap_congr fun p hp => ?_
    obtain ⟨u, hu, hid⟩ := hs.blockTransactionTransaction p (List.mem_filter.1 hp).1
    rw [(Database.transactionById_eq_some hs).2 ⟨hu, hid⟩, Database.transactionById_eq_some h.schema]
    exact ⟨h.extends_.mem_transactions hu, hid⟩

/-- The new row points to the stored block with its `prev_hash`. -/
theorem prev_row (h : Added E db db' b row ids) : db'.prev row = db.blockByHash b.prevHash := by
  obtain ⟨-, -, -, -, -, -, -, -, -, hprev⟩ := toRow_eq_ok h.toRow
  rw [Database.prev, hprev]
  cases hp : db.blockByHash b.prevHash with
  | none => rfl
  | some p =>
    rw [Option.map_some, Option.bind_some, Database.blockById_eq_some h.schema]
    exact ⟨h.blocks ▸ List.mem_append_left _ (Database.blockByHash_mem hp).1, rfl⟩

theorem prevHash_row (h : Added E db db' b row ids) : b.prevHash = some row.prevHash :=
  (toRow_eq_ok h.toRow).2.2.1

theorem blockHash_row (h : Added E db db' b row ids) : b.blockHash = some row.blockHash :=
  (toRow_eq_ok h.toRow).1

theorem idx_row (h : Added E db db' b row ids) : b.idx = some row.idx := (toRow_eq_ok h.toRow).2.1

/-- Hashes other than the new block's are looked up as before. -/
theorem blockByHash_of_ne (h : Added E db db' b row ids) {x : Option Str}
    (hx : x ≠ some row.blockHash) : db'.blockByHash x = db.blockByHash x := by
  cases x with
  | none => rfl
  | some x =>
    unfold Database.blockByHash
    split_ifs
    · rw [h.blocks, Table.byKey_append, Option.getD_some]
      have hnone : Table.byKey BlockDAO.blockHash x [row] = none :=
        Table.byKey_eq_none.2 fun a ha heq => hx (by rw [← heq, List.mem_singleton.1 ha])
      rw [hnone, Option.or_none]
    · rfl

/-- The new block is joined to the rows its transactions were given. -/
theorem mem_rowsOf (hs : db.Schema E) (h : Added E db db' b row ids) {u : TransactionDAO} :
    u ∈ db'.rowsOf row.id ↔ u ∈ db'.transactions ∧ u.id ∈ ids := by
  rw [Database.mem_rowsOf h.schema, h.blockTransactions, List.mem_append]
  refine and_congr_right fun hu => ⟨?_, fun hid => Or.inr ?_⟩
  · rintro (hold | hnew)
    · obtain ⟨c, hc, hid⟩ := hs.blockTransactionBlock _ hold
      exact absurd hid (h.row_id_ne hc)
    · obtain ⟨i, hi, heq⟩ := List.mem_map.1 hnew
      rw [Prod.mk.injEq] at heq
      exact heq.2 ▸ List.mem_dedup.1 hi
  · exact List.mem_map.2 ⟨u.id, List.mem_dedup.2 hid, rfl⟩

/-- Every transaction of the block has its row there, -/
theorem exists_row (hs : db.Schema E) (h : Added E db db' b row ids) {t : Transaction}
    (ht : t ∈ b.txns) : ∃ u ∈ db'.rowsOf row.id, Database.StoredAs db db' t u := by
  obtain ⟨i, hi, rfl⟩ := List.mem_iff_getElem.1 ht
  have hlen := h.txns.length_eq
  obtain ⟨u, hu, hid, hst⟩ := h.txns.get hi (hlen ▸ hi)
  exact ⟨u, (h.mem_rowsOf hs).2 ⟨hu, hid ▸ List.getElem_mem _⟩, hst⟩

/-- and every row there is of a transaction of the block. -/
theorem exists_txn (hs : db.Schema E) (h : Added E db db' b row ids) {u : TransactionDAO}
    (hu : u ∈ db'.rowsOf row.id) : ∃ t ∈ b.txns, Database.StoredAs db db' t u := by
  obtain ⟨hmem, hid⟩ := (h.mem_rowsOf hs).1 hu
  obtain ⟨i, hi, hget⟩ := List.mem_iff_getElem.1 hid
  have hlen := h.txns.length_eq
  obtain ⟨v, hv, hvid, hst⟩ := h.txns.get (hlen.symm ▸ hi) hi
  have huv : u = v := by
    refine List.inj_on_of_nodup_map h.schema.transactionIds hmem hv ?_
    rw [hvid, ← hget]
    rfl
  exact ⟨_, List.getElem_mem _, huv ▸ hst⟩

end Added

end Block

end GumptionChain
