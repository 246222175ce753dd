import GumptionChain.Ancestors

/-!
# Chains of accepted blocks

The ledger without its tables: a list of blocks, tip first, each of which was
accepted on top of the ones below it.

* `Ledger.Agrees` — ledgers that differ in signatures and spellings of timestamps
  only; validation does not tell them apart;
* `UtxoSound` — every outpoint spent once at most, and each spend of an outflow
  that exists, is no rescind and belongs to the spender;
* `AcceptedOn.sound`, `AcceptedChain.sound` — what one accepted block preserves,
  and so every chain of accepted blocks has.
-/

namespace GumptionChain

open Database

/-! ## What stays of a transaction -/

namespace Transaction

/-- A transaction without its signature and the spelling of its timestamp: what
reads back the same from every node's tables. -/
def core (t : Transaction) : Transaction := { t with timestamp := [], signature := none }

/-- Whoever may spend an outflow of the transaction. -/
def owner (t : Transaction) (o : Outflow) : Option Str :=
  if truthy o.address then o.address else t.address

theorem core_restamped (t : Transaction) (d : DateTime) : (t.restamped d).core = t.core := rfl

theorem core_eq_of_bare {t u : Transaction} (h : t.bare = u.bare) : t.core = u.core := by
  simp only [bare, mk.injEq] at h
  simp only [core, mk.injEq]
  tauto

variable {t u : Transaction}

theorem core_eq_iff : t.core = u.core ↔ t.txid = u.txid ∧ t.address = u.address ∧
    t.inflows = u.inflows ∧ t.outflows = u.outflows ∧ t.version = u.version ∧
    t.prevHash = u.prevHash := by simp [core]

theorem getOutflow_eq_of_core (h : t.core = u.core) (k : ℕ) : t.getOutflow k = u.getOutflow k := by
  rw [getOutflow, getOutflow, (core_eq_iff.1 h).2.2.2.1]

theorem owner_eq_of_core (h : t.core = u.core) (o : Outflow) : t.owner o = u.owner o := by
  rw [owner, owner, (core_eq_iff.1 h).2.1]

end Transaction

namespace Ledger

variable {L M : Ledger} {txn : Transaction} {i : Inflow} {f : Bool}

/-! ## What validation of a transaction checks -/

/-- What an accepted inflow is: it names an outflow that the ledger has, which is
no rescind, belongs to the spender and is spent by nothing else. -/
theorem validateTxnInflow_eq_ok {r : ℤ × Option Str × Option Str} :
    L.validateTxnInflow txn i f = .ok r ↔
      ∃ txid u o, i.outflowTxid = some txid ∧ L.getTransaction txid = .ok (some u) ∧
        u.getOutflow (i.outflowIdx.getD 0) = some o ∧ o.rescind = none ∧
        u.owner o = txn.address ∧
        ¬ (1 < L.getInflowsCount txid (i.outflowIdx.getD 0) ∨
          (0 < L.getInflowsCount txid (i.outflowIdx.getD 0) ∧ f = false)) ∧
        r = (o.amount.getD 0, o.opposition, o.support) := by
  unfold validateTxnInflow
  cases hx : i.outflowTxid with
  | none => simp [outflowTxn]
  | some txid =>
    rw [outflowTxn]
    cases hu : L.getTransaction txid with
    | error e => simp [hu]
    | ok found =>
      cases found with
      | none => simp [hu]
      | some u =>
        cases ho : u.getOutflow (i.outflowIdx.getD 0) with
        | none => simp [hu, ho]
        | some o =>
          simp only [ok_bind, Option.bind_some, ho, bind_eq_ok, ensure_eq_ok, Option.getD_some]
          constructor
          · rintro ⟨-, h1, -, h2, -, h3, h4⟩
            exact ⟨txid, u, o, rfl, hu, ho, h1, h2, h3, (Except.ok.inj h4).symm⟩
          · rintro ⟨x, v, p, hxx, hv, hp, h1, h2, h3, rfl⟩
            obtain rfl := Option.some.inj hxx
            rw [hu, Except.ok.injEq, Option.some.injEq] at hv
            subst hv
            rw [ho, Option.some.injEq] at hp
            subst hp
            exact ⟨(), h1, (), h2, (), h3, rfl⟩

theorem validateTxnInflows_mem : ∀ {is : List Inflow} {tally tally' : TxnTally},
    L.validateTxnInflows txn f tally is = .ok tally' →
    ∀ i ∈ is, ∃ r, L.validateTxnInflow txn i f = .ok r
  | [], _, _, _, i, hi => absurd hi List.not_mem_nil
  | j :: rest, tally, tally', h, i, hi => by
    rw [validateTxnInflows, bind_eq_ok] at h
    obtain ⟨r, hr, hrest⟩ := h
    rcases List.mem_cons.1 hi with rfl | hi
    · exact ⟨r, hr⟩
    · exact validateTxnInflows_mem hrest i hi

/-- The steps of an accepted transaction. -/
theorem validateBlockTxn_eq_ok {m : CoinbaseMetrics} : L.validateBlockTxn txn f = .ok m ↔
    ∃ tally tally', L.validateTxnInflows txn f {} txn.inflows = .ok tally ∧
      tally.addOutflows txn.outflows = .ok tally' ∧ tally'.Balanced ∧ m = tally'.metrics := by
  simp only [validateBlockTxn, bind_eq_ok, ensure_eq_ok]
  constructor
  · rintro ⟨tally, h1, tally', h2, -, h3, h4⟩
    exact ⟨tally, tally', h1, h2, h3, (Except.ok.inj h4).symm⟩
  · rintro ⟨tally, tally', h1, h2, h3, rfl⟩
    exact ⟨tally, h1, tally', h2, (), h3, rfl⟩

/-- The loop over the transactions: each is accepted, and their metrics add up. -/
theorem validateBlockTxns_spec : ∀ {ts : List Transaction} {m m' : CoinbaseMetrics},
    L.validateBlockTxns m ts = .ok m' →
    ∃ ms, List.Forall₂ (fun t x => L.validateBlockTxn t true = .ok x) ts ms ∧
      m'.total = m.total + (ms.map CoinbaseMetrics.total).sum
  | [], m, m', h => by
    cases h
    exact ⟨[], List.Forall₂.nil, by simp⟩
  | t :: ts, m, m', h => by
    rw [validateBlockTxns, bind_eq_ok] at h
    obtain ⟨x, hx, hrest⟩ := h
    obtain ⟨ms, hms, htotal⟩ := validateBlockTxns_spec hrest
    refine ⟨x :: ms, List.Forall₂.cons hx hms, ?_⟩
    rw [htotal, CoinbaseMetrics.total_add, List.map_cons, List.sum_cons, add_assoc]

/-- What an accepted coinbase is. -/
theorem validateBlockCoinbase_eq_ok {E : Env} {b : Block} {m : CoinbaseMetrics} {x : Unit} :
    validateBlockCoinbase E b m = .ok x ↔ ∃ cb, b.coinbase = some cb ∧
      cb.Valid E coinbaseTransactionModel ∧
      m.nonzeroAmounts.map some = (cb.outflows.drop 1).map Outflow.amount ∧
      cb.prevHash = b.prevHash ∧ ∀ o, cb.getOutflow 0 = some o → o.amount = some blockReward := by
  unfold validateBlockCoinbase
  cases b.coinbase with
  | none => simp
  | some cb =>
    have hreward : validateReward (cb.getOutflow 0) = .ok x ↔
        ∀ o, cb.getOutflow 0 = some o → o.amount = some blockReward := by
      cases cb.getOutflow 0 <;> simp [validateReward]
    simp only [bind_eq_ok, ensure_eq_ok, Transaction.validate_eq_ok, if_true, Option.some.injEq,
      hreward]
    constructor
    · rintro ⟨_, h1, _, h2, _, h3, h4⟩
      exact ⟨cb, rfl, h1, h2, h3, h4⟩
    · rintro ⟨_, rfl, h1, h2, h3, h4⟩
      exact ⟨(), h1, (), h2, (), h3, h4⟩

theorem wrapCoinbaseError_eq_ok {x : Except Err Unit} {u : Unit} :
    wrapCoinbaseError x = .ok u ↔ x = .ok u := by
  unfold wrapCoinbaseError
  split
  · simp
  · rfl

/-! ## Ledgers that agree -/

/-- Two ledgers answer alike, up to signatures and spellings. -/
structure Agrees (L M : Ledger) : Prop where
  transaction : ∀ txid, (L.getTransaction txid).map (Option.map Transaction.core) =
    (M.getTransaction txid).map (Option.map Transaction.core)
  count : L.getInflowsCount = M.getInflowsCount

theorem Agrees.outflowTxn_eq (h : L.Agrees M) (txid : Option Str) :
    (L.outflowTxn txid).map (Option.map Transaction.core) =
      (M.outflowTxn txid).map (Option.map Transaction.core) := by
  cases txid with
  | none => rfl
  | some txid => exact h.transaction txid

theorem Agrees.validateTxnInflow_eq (h : L.Agrees M) :
    L.validateTxnInflow txn i f = M.validateTxnInflow txn i f := by
  have ht := h.outflowTxn_eq i.outflowTxid
  unfold validateTxnInflow
  rw [h.count]
  cases hl : L.outflowTxn i.outflowTxid with
  | error e =>
    cases hm : M.outflowTxn i.outflowTxid with
    | error e' =>
      rw [hl, hm] at ht
      rw [show e = e' from Except.error.inj ht]
    | ok v => rw [hl, hm] at ht; exact absurd ht (by simp [Except.map])
  | ok u =>
    cases hm : M.outflowTxn i.outflowTxid with
    | error e' => rw [hl, hm] at ht; exact absurd ht (by simp [Except.map])
    | ok v =>
      rw [hl, hm] at ht
      have ht' : u.map Transaction.core = v.map Transaction.core := Except.ok.inj ht
      cases u with
      | none =>
        cases v with
        | none => rfl
        | some v => exact absurd ht' (by simp)
      | some u =>
        cases v with
        | none => exact absurd ht' (by simp)
        | some v =>
          have hcore : u.core = v.core := Option.some.inj ht'
          simp only [ok_bind, Option.bind_some, Transaction.getOutflow_eq_of_core hcore,
            (Transaction.core_eq_iff.1 hcore).2.1]

theorem Agrees.validateTxnInflows_eq (h : L.Agrees M) : ∀ (is : List Inflow) (tally : TxnTally),
    L.validateTxnInflows txn f tally is = M.validateTxnInflows txn f tally is
  | [], _ => rfl
  | i :: rest, tally => by
    rw [validateTxnInflows, validateTxnInflows, h.validateTxnInflow_eq]
    cases M.validateTxnInflow txn i f with
    | error e => rfl
    | ok r => exact h.validateTxnInflows_eq rest _

theorem Agrees.validateBlockTxn_eq (h : L.Agrees M) :
    L.validateBlockTxn txn f = M.validateBlockTxn txn f := by
  rw [validateBlockTxn, h.validateTxnInflows_eq]
  rfl

theorem Agrees.validateBlockTxns_eq (h : L.Agrees M) : ∀ (ts : List Transaction)
    (m : CoinbaseMetrics), L.validateBlockTxns m ts = M.validateBlockTxns m ts
  | [], _ => rfl
  | t :: ts, m => by
    rw [validateBlockTxns, validateBlockTxns, h.validateBlockTxn_eq]
    cases M.validateBlockTxn t true with
    | error e => rfl
    | ok r => exact h.validateBlockTxns_eq ts _

/-- Counting inflows is counting one inflow. -/
theorem countInflows_eq_count (ts : List Transaction) (txid : Str) (idx : ℕ) :
    countInflows ts txid idx = (ts.flatMap Transaction.inflows).count ⟨some txid, some idx⟩ := by
  rw [countInflows, List.count]
  refine List.countP_congr fun i _ => ?_
  cases i
  simp

/-- Lists of blocks with the same transactions, up to signatures and spellings,
are no different to a block on top. -/
theorem above_agrees {ts : List Transaction} {cs bs : List Block}
    (h : ((txnsOf cs).map Transaction.core).Perm ((txnsOf bs).map Transaction.core))
    (hn : ((txnsOf cs).map Transaction.txid).Nodup) : (above ts cs).Agrees (above ts bs) := by
  have hfind : ∀ (l : List Transaction) txid, (l.find? fun t => t.txid = some txid).map
      Transaction.core = Table.byKey Transaction.txid (some txid) (l.map Transaction.core) := by
    intro l txid
    rw [Table.byKey, List.find?_map]
    rfl
  refine ⟨fun txid => ?_, funext fun txid => funext fun idx => ?_⟩
  · show Except.ok _ = Except.ok _
    rw [Except.ok.injEq, List.find?_append, List.find?_append]
    cases ts.find? fun t => t.txid = some txid with
    | some t => rfl
    | none =>
      rw [Option.none_or, Option.none_or, hfind, hfind]
      refine Table.byKey_perm h ?_
      rw [List.map_map]
      exact hn
  · have hflat : ∀ l : List Transaction, l.flatMap Transaction.inflows =
        (l.map Transaction.core).flatMap Transaction.inflows := fun l => by
      rw [List.flatMap_map]
      rfl
    have hcount : countInflows (txnsOf cs) txid idx = countInflows (txnsOf bs) txid idx := by
      rw [countInflows_eq_count, countInflows_eq_count, hflat, hflat (txnsOf bs)]
      exact (h.flatMap_right _).count_eq _
    show _ + _ = _ + _
    rw [hcount]

end Ledger

/-! ## Accepted chains -/

/-- The texts a block and its transactions are hashed from. -/
def Block.Hashed (S : Set Str) (b : Block) : Prop := b.header ∈ S ∧ ∀ t ∈ b.txns, t.dataCsv ∈ S

/-- The texts that some blocks and their transactions are hashed from, and the text
before the first block. -/
def hashedTexts (blocks : List Block) : List Str :=
  genesisText :: (blocks.map Block.header ++ (txnsOf blocks).map Transaction.dataCsv)

theorem Block.hashed_of_mem {blocks : List Block} {b : Block} (hb : b ∈ blocks) :
    b.Hashed { x | x ∈ hashedTexts blocks } := by
  refine ⟨List.mem_cons_of_mem _ (List.mem_append_left _ (List.mem_map.2 ⟨b, hb, rfl⟩)),
    fun t ht => List.mem_cons_of_mem _ (List.mem_append_right _ (List.mem_map.2 ⟨t, ?_, rfl⟩))⟩
  exact List.mem_flatMap.2 ⟨b, hb, ht⟩

/-- Whether finitely many texts collide is decided by hashing them. -/
theorem collisionFree_of_nodup {E : Env} {blocks : List Block}
    (h : ((hashedTexts blocks).map E.millHashStr).Nodup) :
    E.CollisionFree (insert genesisText { x | x ∈ hashedTexts blocks }) := by
  have hmem : genesisText ∈ { x | x ∈ hashedTexts blocks } := List.mem_cons_self ..
  rw [Set.insert_eq_of_mem hmem]
  exact fun x hx y hy => List.inj_on_of_nodup_map h hx hy

/-- A block accepted on top of some blocks, of which the first is its
predecessor. -/
structure AcceptedOn (E : Env) (S : Set Str) (ancestors : List Block) (b : Block) : Prop where
  valid : b.Valid E
  hashed : b.Hashed S
  prev : ∀ p, ancestors.head? = some p → b.prevHash = p.blockHash
  link : Chain.validateLink E ancestors.head? b = .ok ()
  metrics : ∃ m, (Ledger.above b.txns ancestors).validateBlockTxns {} b.regularTxns = .ok m ∧
    Ledger.validateBlockCoinbase E b m = .ok ()

/-- A chain of blocks, tip first, each accepted on top of the ones below. -/
inductive AcceptedChain (E : Env) (S : Set Str) : List Block → Prop
  | nil : AcceptedChain E S []
  | cons {b : Block} {bs : List Block} : AcceptedChain E S bs → AcceptedOn E S bs b →
      AcceptedChain E S (b :: bs)

/-- UTXO soundness: identifiers are unique, every outpoint is referenced once at
most, and the referenced outflow exists, is no rescind, and is owned by the
spender. -/
structure UtxoSound (txns : List Transaction) : Prop where
  txids : (txns.map Transaction.txid).Nodup
  spentOnce : (txns.flatMap Transaction.inflows).Nodup
  resolved : ∀ t ∈ txns, ∀ i ∈ t.inflows, ∃ u ∈ txns, ∃ n o, i = ⟨u.txid, some n⟩ ∧
    u.getOutflow n = some o ∧ o.rescind = none ∧ u.owner o = t.address

/-- Soundness is a matter of what stays of the transactions, in any order. -/
theorem UtxoSound.of_core {ts us : List Transaction}
    (h : (ts.map Transaction.core).Perm (us.map Transaction.core)) (hs : UtxoSound ts) :
    UtxoSound us := by
  have hmem : ∀ {l l' : List Transaction}, (l.map Transaction.core).Perm (l'.map Transaction.core) →
      ∀ t ∈ l, ∃ u ∈ l', u.core = t.core := fun hp t ht =>
    List.mem_map.1 (hp.mem_iff.1 (List.mem_map.2 ⟨t, ht, rfl⟩))
  refine ⟨?_, ?_, fun t ht i hi => ?_⟩
  · have hp := h.map Transaction.txid
    rw [List.map_map, List.map_map] at hp
    exact hp.nodup_iff.1 hs.txids
  · have hp := h.flatMap_right Transaction.inflows
    rw [List.flatMap_map, List.flatMap_map] at hp
    exact hp.nodup_iff.1 hs.spentOnce
  · obtain ⟨t', ht', hcore⟩ := hmem h.symm t ht
    have hin := (Transaction.core_eq_iff.1 hcore).2.2.1
    obtain ⟨u, hu, n, o, hx, ho, hr, hown⟩ := hs.resolved t' ht' i (hin ▸ hi)
    obtain ⟨u', hu', hcore'⟩ := hmem h u hu
    refine ⟨u', hu', n, o, ?_, (Transaction.getOutflow_eq_of_core hcore' _).trans ho, hr, ?_⟩
    · rw [hx, (Transaction.core_eq_iff.1 hcore').1]
    rw [Transaction.owner_eq_of_core hcore', hown, (Transaction.core_eq_iff.1 hcore).2.1]

namespace AcceptedChain

variable {E : Env} {S : Set Str} {b : Block} {bs : List Block}

theorem mem (h : AcceptedChain E S bs) : ∀ c ∈ bs, c.Valid E ∧ c.Hashed S ∧
    ∀ cb, c.lastTxn = some cb → cb.prevHash = c.prevHash := by
  induction h with
  | nil => exact fun c hc => absurd hc List.not_mem_nil
  | cons _ hon ih =>
    rw [List.forall_mem_cons]
    refine ⟨⟨hon.valid, hon.hashed, fun cb hcb => ?_⟩, ih⟩
    obtain ⟨m, -, hm⟩ := hon.metrics
    obtain ⟨cb', hcb', -, -, hprev, -⟩ := Ledger.validateBlockCoinbase_eq_ok.1 hm
    rw [Block.coinbase, if_pos hon.valid.wellFormed.isSealed, hcb, Option.some.injEq] at hcb'
    exact hcb' ▸ hprev

/-- The index counts the blocks below. -/
theorem idx (h : AcceptedChain E S (b :: bs)) : b.idx = some bs.length := by
  generalize hl : b :: bs = l at h
  induction h generalizing b bs with
  | nil => exact absurd hl (by simp)
  | @cons c cs hcs hon ih =>
    obtain ⟨rfl, rfl⟩ := List.cons.inj hl
    obtain ⟨hnone, hsome⟩ := Chain.validateLink_eq_ok hon.link
    cases bs with
    | nil => exact (hnone rfl).2
    | cons p ps => exact (hsome p rfl).1 ps.length (ih rfl)

theorem idx_lt (h : AcceptedChain E S bs) : ∀ c ∈ bs, ∃ n, c.idx = some n ∧ n < bs.length := by
  induction h with
  | nil => exact fun c hc => absurd hc List.not_mem_nil
  | cons hcs hon ih =>
    rw [List.forall_mem_cons]
    refine ⟨⟨_, (hcs.cons hon).idx, Nat.lt_succ_self _⟩, fun c hc => ?_⟩
    obtain ⟨n, hn, hlt⟩ := ih c hc
    exact ⟨n, hn, Nat.lt_succ_of_lt hlt⟩

theorem idx_nodup (h : AcceptedChain E S bs) : (bs.map Block.idx).Nodup := by
  induction h with
  | nil => exact List.nodup_nil
  | @cons c cs hcs hon ih =>
    rw [List.map_cons, List.nodup_cons]
    refine ⟨fun hmem => ?_, ih⟩
    obtain ⟨d, hd, heq⟩ := List.mem_map.1 hmem
    obtain ⟨n, hn, hlt⟩ := hcs.idx_lt d hd
    rw [hn, (hcs.cons hon).idx, Option.some.injEq] at heq
    omega

/-- Each block links to the one below it, the last one to the genesis hash. -/
theorem map_prevHash (h : AcceptedChain E S (b :: bs)) :
    (b :: bs).map Block.prevHash = bs.map Block.blockHash ++ [some E.genesisHash] := by
  generalize hl : b :: bs = l at h
  induction h generalizing b bs with
  | nil => exact absurd hl (by simp)
  | @cons c cs hcs hon ih =>
    obtain ⟨rfl, rfl⟩ := List.cons.inj hl
    cases bs with
    | nil =>
      have hgen := ((Chain.validateLink_eq_ok hon.link).1 rfl).1
      simpa [isGenesisBlock] using hgen
    | cons p ps => rw [List.map_cons, ih rfl, hon.prev p rfl, List.map_cons, List.cons_append]

/-- Where texts have their own hashes, a block's hash determines its header. -/
theorem header_eq (hS : E.CollisionFree (insert genesisText S)) {c d : Block} (hc : c.Valid E)
    (hd : d.Valid E) (hcS : c.Hashed S) (hdS : d.Hashed S) (h : c.blockHash = d.blockHash) :
    c.headerFields = d.headerFields := by
  rw [hc.hashed, hd.hashed, Option.some.injEq] at h
  exact Block.header_inj hc.wellFormed hd.wellFormed
    (hS (Set.mem_insert_of_mem _ hcS.1) (Set.mem_insert_of_mem _ hdS.1) h)

theorem blockHash_ne_genesis (hS : E.CollisionFree (insert genesisText S)) {c : Block}
    (hc : c.Valid E) (hcS : c.Hashed S) : c.blockHash ≠ some E.genesisHash := by
  rw [hc.hashed, Ne, Option.some.injEq]
  exact fun h => Block.header_ne_genesis c
    (hS (Set.mem_insert_of_mem _ hcS.1) (Set.mem_insert _ _) h)

/-- No two blocks of a chain have the same predecessor. -/
theorem prevHash_nodup (hS : E.CollisionFree (insert genesisText S)) (h : AcceptedChain E S bs) :
    (bs.map Block.prevHash).Nodup := by
  cases h with
  | nil => exact List.nodup_nil
  | @cons c cs hcs hon =>
    have hmem := hcs.mem
    rw [(hcs.cons hon).map_prevHash, List.nodup_append]
    refine ⟨?_, List.nodup_singleton _, ?_⟩
    · refine List.pairwise_map.2 ((List.pairwise_map.1 hcs.idx_nodup).imp_of_mem ?_)
      intro x y hx hy hne heq
      have hfields := header_eq hS (hmem x hx).1 (hmem y hy).1 (hmem x hx).2.1 (hmem y hy).2.1 heq
      exact hne (congrArg Prod.fst hfields)
    · intro x hx y hy
      obtain ⟨d, hd, rfl⟩ := List.mem_map.1 hx
      rw [List.mem_singleton.1 hy]
      exact blockHash_ne_genesis hS (hmem d hd).1 (hmem d hd).2.1

/-- Every transaction of a chain was validated, in one of the two ways. -/
theorem txn_valid (h : AcceptedChain E S bs) {t : Transaction} (ht : t ∈ txnsOf bs) :
    ∃ c ∈ bs, t ∈ c.txns ∧ t.dataCsv ∈ S := by
  obtain ⟨c, hc, htc⟩ := List.mem_flatMap.1 ht
  exact ⟨c, hc, htc, (h.mem c hc).2.1.2 t htc⟩

end AcceptedChain

/-! ## Soundness -/

namespace AcceptedOn

variable {E : Env} {S : Set Str} {b : Block} {bs : List Block} {t u : Transaction}

/-- Equal identifiers mean equal content, within accepted blocks. -/
theorem bare_eq (hS : E.CollisionFree (insert genesisText S)) {c d : Block} (hc : c.Valid E)
    (hd : d.Valid E) (hcS : c.Hashed S) (hdS : d.Hashed S) (ht : t ∈ c.txns) (hu : u ∈ d.txns)
    (h : t.txid = u.txid) : t.bare = u.bare := by
  obtain ⟨r, hr, htv⟩ := hc.txn_valid ht
  obtain ⟨r', hr', huv⟩ := hd.txn_valid hu
  exact Transaction.bare_eq_of_txid hS hr hr' htv huv (Set.mem_insert_of_mem _ (hcS.2 t ht))
    (Set.mem_insert_of_mem _ (hdS.2 u hu)) h

/-- A transaction of a block with `prev_hash` is its coinbase, -/
theorem lastTxn_of_prevHash (hb : b.Valid E) (ht : t ∈ b.txns) (hp : t.prevHash ≠ none) :
    b.lastTxn = some t := by
  obtain ⟨cb, hlast, -, htxns⟩ := hb.txns_eq
  rw [htxns, List.mem_append, List.mem_singleton] at ht
  rcases ht with ht | rfl
  · exact absurd (hb.regular t ht).1.wellFormed.prevHash hp
  · exact hlast

/-- and one without spends something. -/
theorem regular_of_prevHash (hb : b.Valid E) (ht : t ∈ b.txns) (hp : t.prevHash = none) :
    t ∈ b.regularTxns ∧ t.inflows ≠ [] := by
  obtain ⟨cb, -, hcb, htxns⟩ := hb.txns_eq
  rw [htxns, List.mem_append, List.mem_singleton] at ht
  rcases ht with ht | rfl
  · exact ⟨ht, List.ne_nil_of_length_pos (hb.regular t ht).1.wellFormed.inflowCount.1⟩
  · obtain ⟨h, hsome, -⟩ := hcb.wellFormed.prevHash
    exact absurd hp (by rw [hsome]; exact Option.some_ne_none h)

/-- What the spend check established for an inflow of the block. -/
theorem spend (h : AcceptedOn E S bs b) (ht : t ∈ b.txns) {i : Inflow} (hi : i ∈ t.inflows) :
    ∃ txid n u o, i = ⟨some txid, some n⟩ ∧ u ∈ b.txns ++ txnsOf bs ∧ u.txid = some txid ∧
      u.getOutflow n = some o ∧ o.rescind = none ∧ u.owner o = t.address ∧
      (b.txns.flatMap Transaction.inflows).count i ≤ 1 ∧
      i ∉ (txnsOf bs).flatMap Transaction.inflows := by
  have hreg : t ∈ b.regularTxns := by
    refine (regular_of_prevHash h.valid ht ?_).1
    by_contra hp
    obtain ⟨cb, hlast, hcb, -⟩ := h.valid.txns_eq
    rw [lastTxn_of_prevHash h.valid ht hp, Option.some.injEq] at hlast
    subst hlast
    have hlen := hcb.wellFormed.inflowCount.2
    have hpos := List.length_pos_of_mem hi
    exact absurd hlen (by simp only [coinbaseTransactionModel]; omega)
  obtain ⟨m, hm, -⟩ := h.metrics
  obtain ⟨ms, hms, -⟩ := Ledger.validateBlockTxns_spec hm
  obtain ⟨k, hk, rfl⟩ := List.mem_iff_getElem.1 hreg
  obtain ⟨tally, -, htally, -⟩ := Ledger.validateBlockTxn_eq_ok.1
    (hms.get hk (hms.length_eq ▸ hk))
  obtain ⟨r, hr⟩ := Ledger.validateTxnInflows_mem htally i hi
  obtain ⟨txid, u, o, hx, hu, ho, hresc, hown, hcount, -⟩ := Ledger.validateTxnInflow_eq_ok.1 hr
  obtain ⟨n, hn⟩ := ((h.valid.regular _ hreg).1.wellFormed.inflows i hi).outflowIdx
  have hi' : i = ⟨some txid, some n⟩ := by
    cases i
    simp_all
  have hu' : (b.txns ++ txnsOf bs).find? (fun t => t.txid = some txid) = some u :=
    Except.ok.inj hu
  rw [hn, Option.getD_some] at ho hcount
  refine ⟨txid, n, u, o, hi', List.mem_of_find?_eq_some hu', by simpa using List.find?_some hu',
    ho, hresc, hown, ?_⟩
  have hpos : 0 < (b.txns.flatMap Transaction.inflows).count i :=
    List.count_pos_iff.2 (List.mem_flatMap.2 ⟨_, ht, hi⟩)
  have htotal : ¬ 1 < Ledger.countInflows b.txns txid n +
      if 0 < Ledger.countInflows (txnsOf bs) txid n then 1 else 0 := fun hc => hcount (Or.inl hc)
  rw [Ledger.countInflows_eq_count, Ledger.countInflows_eq_count, ← hi'] at htotal
  refine ⟨?_, fun hmem => ?_⟩
  · split_ifs at htotal <;> omega
  · rw [if_pos (List.count_pos_iff.2 hmem)] at htotal
    omega

/-- The inflows of an accepted block and of its ancestors are all distinct. -/
theorem spentOnce (h : AcceptedOn E S bs b) (hs : UtxoSound (txnsOf bs)) :
    ((b.txns ++ txnsOf bs).flatMap Transaction.inflows).Nodup := by
  rw [List.flatMap_append, List.nodup_append]
  refine ⟨List.nodup_iff_count_le_one.2 fun i => ?_, hs.spentOnce, ?_⟩
  · by_cases hi : i ∈ b.txns.flatMap Transaction.inflows
    · obtain ⟨t, ht, hit⟩ := List.mem_flatMap.1 hi
      obtain ⟨-, -, -, -, -, -, -, -, -, -, hle, -⟩ := h.spend ht hit
      exact hle
    · rw [List.count_eq_zero_of_not_mem hi]
      exact Nat.zero_le 1
  · rintro i hi j hj rfl
    obtain ⟨t, ht, hit⟩ := List.mem_flatMap.1 hi
    obtain ⟨-, -, -, -, -, -, -, -, -, -, -, hnot⟩ := h.spend ht hit
    exact hnot hj

/-- Two transactions that spend nothing in common and have the same content spend
nothing. -/
theorem inflows_nil_of_disjoint (hbare : t.bare = u.bare)
    (hd : ∀ i ∈ t.inflows, i ∉ u.inflows) : t.inflows = [] := by
  have hin : t.inflows = u.inflows := (Transaction.core_eq_iff.1 (Transaction.core_eq_of_bare hbare)).2.2.1
  exact List.eq_nil_iff_forall_not_mem.2 fun i hi => hd i hi (hin ▸ hi)

/-- The identifiers of an accepted block and of its ancestors are all distinct. -/
theorem txids (hS : E.CollisionFree (insert genesisText S)) (hc : AcceptedChain E S bs)
    (h : AcceptedOn E S bs b) (hs : UtxoSound (txnsOf bs)) :
    ((b.txns ++ txnsOf bs).map Transaction.txid).Nodup := by
  have hspent := h.spentOnce hs
  have hmem := (hc.cons h).mem
  rw [List.flatMap_append, List.nodup_append] at hspent
  obtain ⟨hin, -, hdis⟩ := hspent
  rw [List.map_append, List.nodup_append]
  refine ⟨?_, hs.txids, ?_⟩
  · -- within the block: spends tell the regular ones apart, and `prev_hash` the coinbase
    obtain ⟨cb, hlast, hcb, htxns⟩ := h.valid.txns_eq
    have hcbm : cb ∈ b.txns := htxns ▸ List.mem_append_right _ (List.mem_singleton_self _)
    have hsub : ∀ t ∈ b.regularTxns, t ∈ b.txns := fun t ht =>
      htxns ▸ List.mem_append_left _ ht
    have hnone : ∀ t ∈ b.regularTxns, t.prevHash = none := fun t ht =>
      (h.valid.regular t ht).1.wellFormed.prevHash
    rw [htxns, List.map_append, List.nodup_append]
    refine ⟨?_, List.nodup_singleton _, ?_⟩
    · rw [htxns, List.flatMap_append] at hin
      have hpair := (List.nodup_flatMap.1 (List.nodup_append.1 hin).1).2
      refine List.pairwise_map.2 (hpair.imp_of_mem ?_)
      intro t u ht hu hdisj heq
      have hbare := bare_eq hS h.valid h.valid h.hashed h.hashed (hsub t ht) (hsub u hu) heq
      exact (regular_of_prevHash h.valid (hsub t ht) (hnone t ht)).2
        (inflows_nil_of_disjoint hbare fun i hi hi' => hdisj hi hi')
    · rintro x hx y hy rfl
      obtain ⟨t, ht, rfl⟩ := List.mem_map.1 hx
      obtain ⟨u, hu, heq⟩ := List.mem_map.1 hy
      rw [List.mem_singleton] at hu
      subst hu
      have hbare := bare_eq hS h.valid h.valid h.hashed h.hashed (hsub t ht) hcbm heq.symm
      have hprev := (Transaction.core_eq_iff.1 (Transaction.core_eq_of_bare hbare)).2.2.2.2.2
      obtain ⟨p, hp, -⟩ := hcb.wellFormed.prevHash
      have := (hnone t ht).symm.trans hprev
      exact absurd (this.trans hp) (by simp)
  · -- against the ancestors: a shared coinbase would share its predecessor
    rintro x hx y hy rfl
    obtain ⟨t, ht, rfl⟩ := List.mem_map.1 hx
    obtain ⟨u, hu, heq⟩ := List.mem_map.1 hy
    obtain ⟨c, hcm, huc, -⟩ := hc.txn_valid hu
    obtain ⟨hcv, hcS, hcprev⟩ := hmem c (List.mem_cons_of_mem _ hcm)
    have hbare := bare_eq hS h.valid hcv h.hashed hcS ht huc heq.symm
    have hprev := (Transaction.core_eq_iff.1 (Transaction.core_eq_of_bare hbare)).2.2.2.2.2
    by_cases hp : t.prevHash = none
    · refine (regular_of_prevHash h.valid ht hp).2 (inflows_nil_of_disjoint hbare fun i hi hi' => ?_)
      exact hdis i (List.mem_flatMap.2 ⟨t, ht, hi⟩) i (List.mem_flatMap.2 ⟨u, hu, hi'⟩) rfl
    · have hb := (hmem b (List.mem_cons_self ..)).2.2 t (lastTxn_of_prevHash h.valid ht hp)
      have hu' := hcprev u (lastTxn_of_prevHash hcv huc (hprev ▸ hp))
      have hnodup := (hc.cons h).prevHash_nodup hS
      rw [List.map_cons, List.nodup_cons] at hnodup
      exact hnodup.1 (List.mem_map.2 ⟨c, hcm, by rw [← hu', ← hprev, hb]⟩)

/-- **One accepted block keeps the chain sound.** -/
theorem sound (hS : E.CollisionFree (insert genesisText S)) (hc : AcceptedChain E S bs)
    (h : AcceptedOn E S bs b) (hs : UtxoSound (txnsOf bs)) :
    UtxoSound (b.txns ++ txnsOf bs) := by
  refine ⟨h.txids hS hc hs, h.spentOnce hs, fun t ht i hi => ?_⟩
  rcases List.mem_append.1 ht with ht | ht
  · obtain ⟨txid, n, u, o, rfl, hu, hx, ho, hr, hown, -, -⟩ := h.spend ht hi
    exact ⟨u, hu, n, o, by rw [hx], ho, hr, hown⟩
  · obtain ⟨u, hu, rest⟩ := hs.resolved t ht i hi
    exact ⟨u, List.mem_append_right _ hu, rest⟩

end AcceptedOn

/-- **Every chain of accepted blocks is sound.** -/
theorem AcceptedChain.sound {E : Env} {S : Set Str} {bs : List Block}
    (hS : E.CollisionFree (insert genesisText S)) (h : AcceptedChain E S bs) :
    UtxoSound (txnsOf bs) := by
  induction h with
  | nil => exact ⟨List.nodup_nil, List.nodup_nil, fun t ht => absurd ht List.not_mem_nil⟩
  | cons hc hon ih => exact hon.sound hS hc ih

end GumptionChain
