import GumptionChain.Run

/-!
# The block tree

What holds of the stored blocks of a node, as they read back.

* `Ledger.validateBlockTxns_settled` — a transaction accepted in an unsaved block
  is accepted with the same metrics once the block is stored, where the ledger
  counts its spends on the path;
* `NodeRun.oneGenesis` — one block has index 0 at most;
* `Block.Same.split_coinbase` — a block reads back with its coinbase last;
* `tree_wellFormed` — the shape of the tree: one genesis, each other block above a
  stored predecessor, one coinbase that pays the reward and the side-mints, and no
  identifier twice on a root path.
-/

namespace GumptionChain

open Database

/-! ## Metrics of several transactions -/

/-- The metrics of several transactions together. -/
def CoinbaseMetrics.sum (ms : List CoinbaseMetrics) : CoinbaseMetrics :=
  ⟨(ms.map schadenfreude).sum, (ms.map grace).sum, (ms.map mudita).sum, (ms.map regret).sum⟩

theorem CoinbaseMetrics.sum_perm {ms ns : List CoinbaseMetrics} (h : ms.Perm ns) :
    sum ms = sum ns := by
  simp only [sum, (h.map _).sum_eq]

theorem CoinbaseMetrics.add_sum_cons (m n : CoinbaseMetrics) (ms : List CoinbaseMetrics) :
    m.add (sum (n :: ms)) = (m.add n).add (sum ms) := by
  simp only [add, sum, List.map_cons, List.sum_cons, add_assoc]

/-! ## A block's transactions once it is stored -/

namespace Ledger

variable {L M : Ledger} {t u : Transaction} {i : Inflow} {f : Bool}

/-- Validation reads what stays of a transaction. -/
theorem validateTxnInflows_of_core (h : t.core = u.core) : ∀ (is : List Inflow) tally,
    L.validateTxnInflows t f tally is = L.validateTxnInflows u f tally is := by
  obtain ⟨-, haddr, -, -, -, -⟩ := Transaction.core_eq_iff.1 h
  have hflow : ∀ i, L.validateTxnInflow t i f = L.validateTxnInflow u i f := fun i => by
    rw [validateTxnInflow, validateTxnInflow, haddr]
  intro is
  induction is with
  | nil => exact fun _ => rfl
  | cons i is ih =>
    intro tally
    rw [validateTxnInflows, validateTxnInflows, hflow]
    exact congrArg _ (funext fun r => ih _)

theorem validateBlockTxn_of_core (h : t.core = u.core) :
    L.validateBlockTxn t f = L.validateBlockTxn u f := by
  obtain ⟨-, -, hin, hout, -, -⟩ := Transaction.core_eq_iff.1 h
  rw [validateBlockTxn, validateBlockTxn, hin, hout, validateTxnInflows_of_core h]

theorem validateTxnInflows_mono : ∀ {is : List Inflow} {tally tally' : TxnTally},
    (∀ i ∈ is, ∀ r, L.validateTxnInflow t i f = .ok r → M.validateTxnInflow t i f = .ok r) →
    L.validateTxnInflows t f tally is = .ok tally' →
    M.validateTxnInflows t f tally is = .ok tally'
  | [], _, _, _, h => h
  | i :: is, tally, tally', hmono, h => by
    rw [List.forall_mem_cons] at hmono
    rw [validateTxnInflows, bind_eq_ok] at h
    obtain ⟨r, hr, hrest⟩ := h
    rw [validateTxnInflows, hmono.1 r hr]
    exact validateTxnInflows_mono hmono.2 hrest

theorem validateBlockTxn_mono {m : CoinbaseMetrics}
    (hmono : ∀ i ∈ t.inflows, ∀ r, L.validateTxnInflow t i f = .ok r →
      M.validateTxnInflow t i f = .ok r) (h : L.validateBlockTxn t f = .ok m) :
    M.validateBlockTxn t f = .ok m := by
  obtain ⟨tally, tally', hin, hout, hbal, rfl⟩ := validateBlockTxn_eq_ok.1 h
  exact validateBlockTxn_eq_ok.2 ⟨tally, tally', validateTxnInflows_mono hmono hin, hout, hbal, rfl⟩

/-- The loop of `validate_block` adds the metrics up. -/
theorem validateBlockTxns_eq_ok : ∀ {ts : List Transaction} {m m' : CoinbaseMetrics},
    L.validateBlockTxns m ts = .ok m' ↔
      ∃ ms, List.Forall₂ (fun t x => L.validateBlockTxn t true = .ok x) ts ms ∧
        m' = m.add (CoinbaseMetrics.sum ms)
  | [], m, m' => by
    simp only [validateBlockTxns, List.forall₂_nil_left_iff, exists_eq_left, Except.ok.injEq]
    rw [show m.add (CoinbaseMetrics.sum []) = m by simp [CoinbaseMetrics.add, CoinbaseMetrics.sum]]
    exact eq_comm
  | t :: ts, m, m' => by
    rw [validateBlockTxns, bind_eq_ok]
    simp only [validateBlockTxns_eq_ok, List.forall₂_cons_left_iff]
    constructor
    · rintro ⟨x, hx, ms, hms, rfl⟩
      exact ⟨x :: ms, ⟨x, ms, hx, hms, rfl⟩, (CoinbaseMetrics.add_sum_cons m x ms).symm⟩
    · rintro ⟨-, ⟨x, ms, hx, hms, rfl⟩, rfl⟩
      exact ⟨x, hx, ms, hms, CoinbaseMetrics.add_sum_cons m x ms⟩

/-- Of stored blocks the ledger counts a spend once at most. -/
theorem not_spentTwice (bs : List Block) {txid : Str} {idx : ℕ} :
    ¬ (1 < (above [] bs).getInflowsCount txid idx ∨
      (0 < (above [] bs).getInflowsCount txid idx ∧ true = false)) := by
  have hle : (above [] bs).getInflowsCount txid idx ≤ 1 := by
    show countInflows [] txid idx + (if _ then 1 else 0) ≤ 1
    rw [show countInflows [] txid idx = 0 from rfl]
    split_ifs <;> omega
  rintro (hlt | ⟨-, hfalse⟩)
  · omega
  · exact Bool.noConfusion hfalse

/-- An inflow accepted in an unsaved block is accepted on the stored one: its own
spend is the one that the path now counts. -/
theorem validateTxnInflow_settled {b : Block} {bs : List Block} {r : ℤ × Option Str × Option Str}
    (h : (above b.txns bs).validateTxnInflow t i true = .ok r) :
    (above [] (b :: bs)).validateTxnInflow t i true = .ok r := by
  obtain ⟨txid, u, o, hx, hu, ho, hr, hown, -, rfl⟩ := validateTxnInflow_eq_ok.1 h
  refine validateTxnInflow_eq_ok.2 ⟨txid, u, o, hx, hu, ho, hr, hown, ?_, rfl⟩
  exact not_spentTwice (b :: bs)

/-- **Stored, the transactions of an accepted block have the metrics they had.** -/
theorem validateBlockTxns_settled {b : Block} {bs : List Block} {ms : List CoinbaseMetrics}
    {ts : List Transaction}
    (h : List.Forall₂ (fun t x => (above b.txns bs).validateBlockTxn t true = .ok x) ts ms) :
    List.Forall₂ (fun t x => (above [] (b :: bs)).validateBlockTxn t true = .ok x) ts ms :=
  h.imp fun _ _ hx => validateBlockTxn_mono (fun _ _ _ hr => validateTxnInflow_settled hr) hx

end Ledger

/-! ## What validation has checked -/

/-- The steps of an accepted block. -/
theorem Chain.validateAbove_eq_ok {E : Env} {now : DateTime} {genesis : Except Err Unit}
    {L : Ledger} {ancestors : List Block} {b : Block} {x : Unit} :
    validateAbove E now genesis L ancestors b = .ok x ↔
      b.Valid E ∧ validateClock now b = .ok () ∧ genesis = .ok () ∧
        validateLink E ancestors.head? b = .ok () ∧ targetAfter E ancestors = .ok b.target ∧
        ∃ m, L.validateBlockTxns {} b.regularTxns = .ok m ∧
          Ledger.validateBlockCoinbase E b m = .ok () := by
  simp only [validateAbove, bind_eq_ok, Block.validate_eq_ok, ensure_eq_ok,
    Ledger.wrapCoinbaseError_eq_ok]
  constructor
  · rintro ⟨_, hv, _, hc, _, hg, _, hl, t, ht, _, rfl, m, hm, hcb⟩
    exact ⟨hv, hc, hg, hl, ht, m, hm, hcb⟩
  · rintro ⟨hv, hc, hg, hl, ht, m, hm, hcb⟩
    exact ⟨(), hv, (), hc, (), hg, (), hl, _, ht, (), rfl, m, hm, hcb⟩

/-- **One genesis.** -/
theorem NodeRun.oneGenesis {E : Env} {S : Set Str} {P : DateTime → Block → Prop}
    {depth : Option ℕ} {s : Session} (hS : E.CollisionFree (insert genesisText S))
    (hP : ∀ now b, P now b → b.Hashed S) (h : NodeRun E P depth s) :
    ∀ r ∈ s.db.blocks, ∀ c ∈ s.db.blocks, r.idx = 0 → c.idx = 0 → r = c := by
  refine ledger_induction (motive := fun db => ∀ r ∈ db.blocks, ∀ c ∈ db.blocks, r.idx = 0 →
    c.idx = 0 → r = c) hS hP ?_ ?_ ?_ h
  · exact fun r hr => absurd hr List.not_mem_nil
  · intro db db' hl ih
    rw [hl.blocks]
    exact ih
  · intro s now b db row ids hinv _ hnew hval ha ih
    obtain ⟨-, -, hgen, hlink, -, -⟩ := Chain.validateAbove_eq_ok.1 hval
    rw [Chain.head?_ancestors] at hlink
    -- a block with index 0 has no predecessor, so a stored one would be another genesis
    have hfresh : row.idx = 0 → ∀ c ∈ s.db.blocks, c.idx ≠ 0 := by
      intro hz c hc hcz
      have hprev : s.db.blockByHash b.prevHash = none := by
        by_contra hp
        obtain ⟨p, hp⟩ := Option.ne_none_iff_exists'.1 hp
        have hidx := Chain.idx_of_validateLink hlink hp
        rw [ha.idx_row, Option.some.injEq] at hidx
        omega
      obtain ⟨hg, hi⟩ := (Chain.validateLink_eq_ok hlink).1 (by rw [Block.fromDb, hprev]; rfl)
      rw [Chain.validateGenesis, if_pos ⟨hg, hi⟩] at hgen
      have hone : s.db.blockByIdx 0 = .ok (some c) := by
        refine scalarOneOrNone_of_mem ((List.Nodup.of_map _ hinv.ledger.schema.blockIds).filter _) ?_
        intro x
        rw [List.mem_filter, decide_eq_true_eq, Option.some.injEq]
        exact ⟨fun hx => ih c hc x hx.1 hcz hx.2, fun hx => hx ▸ ⟨hc, hcz⟩⟩
      rw [Block.genesisFromDb, hone] at hgen
      have hhash : some c.blockHash = b.blockHash := ensure_eq_ok.1 hgen
      rw [← hhash, ← Option.not_isSome_iff_eq_none] at hnew
      refine hnew (Option.isSome_iff_exists.2 ⟨c, (blockByHash_eq_some hinv.ledger.schema).2 ?_⟩)
      obtain ⟨hv, -⟩ := Chain.validateAbove_eq_ok.1 hval
      exact ⟨hv.blockHash_ne_nil hhash.symm, hc, rfl⟩
    intro r hr c hc hrz hcz
    rw [ha.blocks, List.mem_append, List.mem_singleton] at hr hc
    rcases hr with hr | rfl <;> rcases hc with hc | rfl
    · exact ih r hr c hc hrz hcz
    · exact absurd hrz (hfresh hcz r hr)
    · exact absurd hcz (hfresh hrz c hc)
    · rfl

/-! ## The coinbase of a stored block -/

namespace Transaction

theorem isCoinbase_eq_of_core {t u : Transaction} (h : t.core = u.core) :
    t.isCoinbase = u.isCoinbase := by
  rw [isCoinbase, isCoinbase, (core_eq_iff.1 h).2.2.2.2.2]

end Transaction

namespace Block

variable {E : Env} {b c : Block}

theorem Valid.isCoinbase_regular (h : b.Valid E) {t : Transaction} (ht : t ∈ b.regularTxns) :
    t.isCoinbase = false := by
  have hp : t.prevHash = none := (h.regular t ht).1.wellFormed.prevHash
  rw [Transaction.isCoinbase, hp]
  rfl

theorem Valid.isCoinbase_last (h : b.Valid E) {cb : Transaction} (hcb : b.lastTxn = some cb) :
    cb.isCoinbase = true := by
  obtain ⟨cb', hlast, hv⟩ := h.coinbase
  obtain rfl := Option.some.inj (hcb.symm.trans hlast)
  obtain ⟨p, hp, -⟩ := hv.wellFormed.prevHash
  rw [Transaction.isCoinbase, hp]
  rfl

/-- The canonical order puts a coinbase last. -/
theorem isCoinbase_getLast {l : List Transaction} {t last : Transaction}
    (hl : (canonicalOrder l).getLast? = some last) (ht : t ∈ canonicalOrder l)
    (hcb : t.isCoinbase = true) : last.isCoinbase = true := by
  have hsorted : (canonicalOrder l).Pairwise fun t u => sortKey t ≤ sortKey u :=
    List.pairwise_insertionSort _ l
  rw [← List.dropLast_append_getLast? last hl] at hsorted ht
  rcases List.mem_append.1 ht with ht | ht
  · have hle := (List.pairwise_append.1 hsorted).2.2 t ht last (List.mem_singleton_self _)
    rw [sortKey, sortKey, Prod.Lex.toLex_le_toLex, hcb] at hle
    rcases hle with hlt | ⟨heq, -⟩
    · exact absurd (show true < last.isCoinbase from hlt) (not_lt.2 (Bool.le_true _))
    · exact heq.symm
  · rwa [List.mem_singleton.1 ht] at hcb

/-- **A valid block reads back with its coinbase last**, and with its regular
transactions in some order before it. -/
theorem Same.split_coinbase (hv : b.Valid E) (h : c.Same b)
    (hsorted : ∃ l, c.txns = canonicalOrder l) :
    ∃ cb cb', c.lastTxn = some cb ∧ b.lastTxn = some cb' ∧ cb.core = cb'.core ∧
      c.txns = c.regularTxns ++ [cb] ∧
      (c.regularTxns.map Transaction.core).Perm (b.regularTxns.map Transaction.core) := by
  obtain ⟨cb', hlast', -, htxns'⟩ := hv.txns_eq
  have hperm := h.txns
  have hmem : ∀ t ∈ c.txns, ∃ u ∈ b.txns, u.core = t.core := fun t ht =>
    List.mem_map.1 (hperm.mem_iff.1 (List.mem_map.2 ⟨t, ht, rfl⟩))
  obtain ⟨x, hx, hxcore⟩ : ∃ x ∈ c.txns, x.core = cb'.core := by
    refine List.mem_map.1 (hperm.mem_iff.2 (List.mem_map.2 ⟨cb', ?_, rfl⟩))
    exact List.mem_of_getLast? hlast'
  obtain ⟨cb, hlast⟩ : ∃ cb, c.txns.getLast? = some cb := by
    rw [← Option.isSome_iff_exists, List.getLast?_isSome]
    exact List.ne_nil_of_mem hx
  have hcb : cb.isCoinbase = true := by
    obtain ⟨l, hl⟩ := hsorted
    rw [hl] at hlast hx
    refine isCoinbase_getLast hlast hx ?_
    rw [Transaction.isCoinbase_eq_of_core hxcore]
    exact hv.isCoinbase_last hlast'
  have hsplit : c.txns = c.regularTxns ++ [cb] :=
    (List.dropLast_append_getLast? cb hlast).symm
  have hcore : cb.core = cb'.core := by
    obtain ⟨u, hu, hucore⟩ := hmem cb (List.mem_of_getLast? hlast)
    rw [← hucore]
    rw [htxns', List.mem_append, List.mem_singleton] at hu
    rcases hu with hu | rfl
    · have hno := hv.isCoinbase_regular hu
      rw [Transaction.isCoinbase_eq_of_core hucore, hcb] at hno
      exact absurd hno (by decide)
    · rfl
  refine ⟨cb, cb', hlast, hlast', hcore, hsplit, ?_⟩
  rw [hsplit, htxns', List.map_append, List.map_append, List.map_singleton, List.map_singleton,
    hcore] at hperm
  exact (List.perm_append_right_iff _).1 hperm

end Block

/-! ## The shape of the tree -/

/-- What holds of a stored block: a genesis, or above a predecessor that is not
later; with one coinbase, its last transaction, which is bound to the block's
`prev_hash` and pays the reward and the side-mints of the other transactions. -/
structure BlockInTree (E : Env) (db : Database) (r : BlockDAO) : Prop where
  genesis : r.idx = 0 ↔ r.prevHash = E.genesisHash
  link : r.idx ≠ 0 → ∃ p ∈ db.blocks, db.prev r = some p ∧ p.blockHash = r.prevHash ∧
    r.idx = p.idx + 1 ∧ p.timestamp.toSeconds ≤ r.timestamp.toSeconds
  coinbase : ∃ regular cb ms, (Block.fromDao db r).txns = regular ++ [cb] ∧
    (∀ t ∈ regular, t.isCoinbase = false) ∧ cb.isCoinbase = true ∧
    cb.prevHash = some r.prevHash ∧
    List.Forall₂ (fun t m => (Ledger.ofDb db (Block.fromDao db r)).validateBlockTxn t true = .ok m)
      regular ms ∧
    cb.outflows.map Outflow.amount =
      some blockReward :: (CoinbaseMetrics.sum ms).nonzeroAmounts.map some
  txids : ((db.pathRows r).map TransactionDAO.txid).Nodup

namespace LedgerInv

variable {E : Env} {S : Set Str} {db : Database} {r : BlockDAO}

/-- The ledger that a stored block shows agrees with that of its accepted chain. -/
theorem ofDb_agrees (hS : E.CollisionFree (insert genesisText S)) (h : LedgerInv E S db)
    (htree : db.Tree) (hr : r ∈ db.blocks) {bs : List Block}
    (hsame : List.Forall₂ Block.Same (db.pathBlocks r) bs) :
    (Ledger.ofDb db (Block.fromDao db r)).Agrees (Ledger.above [] bs) := by
  have hstored : db.blockByHash (Block.fromDao db r).blockHash = some r := by
    exact (blockByHash_eq_some h.schema).2 ⟨h.blockHash_ne_nil hr, hr, rfl⟩
  rw [Ledger.ofDb_saved h.schema htree hstored]
  exact Ledger.above_agrees (Block.Same.txnsOf hsame) (h.sound hS hr).txids

/-- The coinbase of a stored block, and the metrics of the transactions before it. -/
theorem coinbase_row (hS : E.CollisionFree (insert genesisText S)) (h : LedgerInv E S db)
    (htree : db.Tree) (hr : r ∈ db.blocks) :
    ∃ regular cb ms, (Block.fromDao db r).txns = regular ++ [cb] ∧
      (∀ t ∈ regular, t.isCoinbase = false) ∧ cb.isCoinbase = true ∧
      cb.prevHash = some r.prevHash ∧
      List.Forall₂
        (fun t m => (Ledger.ofDb db (Block.fromDao db r)).validateBlockTxn t true = .ok m)
        regular ms ∧
      cb.outflows.map Outflow.amount =
        some blockReward :: (CoinbaseMetrics.sum ms).nonzeroAmounts.map some := by
  obtain ⟨b, bs, hbs, hon, hhead, hcons, hrest⟩ := h.accepted_cons hr
  obtain ⟨cb, cb', hlast, hlast', hcore, hsplit, hperm⟩ :=
    Block.Same.split_coinbase hon.valid hhead ⟨_, rfl⟩
  obtain ⟨m, hm, hcoin⟩ := hon.metrics
  obtain ⟨ms, hms, rfl⟩ := Ledger.validateBlockTxns_eq_ok.1 hm
  have hagree := h.ofDb_agrees hS htree hr (hcons ▸ List.Forall₂.cons hhead hrest)
  have hms' := Ledger.validateBlockTxns_settled hms
  -- the metrics of a transaction, as a function of what stays of it
  let L := Ledger.ofDb db (Block.fromDao db r)
  let g : Transaction → CoinbaseMetrics := fun t => (L.validateBlockTxn t true).toOption.getD {}
  have hg : ∀ {t x}, L.validateBlockTxn t true = .ok x → x = g t := fun {t x} hx => by
    show x = (L.validateBlockTxn t true).toOption.getD {}
    rw [hx]
    rfl
  have hgcore : ∀ l : List Transaction, l.map g = (l.map Transaction.core).map g := fun l => by
    rw [List.map_map]
    refine List.map_congr_left fun t _ => ?_
    show Option.getD _ _ = Option.getD _ _
    rw [Ledger.validateBlockTxn_of_core (show t.core = t.core.core from rfl)]
  have hall : List.Forall₂ (fun t x => L.validateBlockTxn t true = .ok x) b.regularTxns ms :=
    hms'.imp fun t x hx => hagree.validateBlockTxn_eq.trans hx
  have hmsg : ms = b.regularTxns.map g := by
    refine List.forall₂_eq_eq_eq ▸ (List.forall₂_map_right_iff.2 ?_)
    exact (hall.imp fun t x hx => hg hx).flip
  refine ⟨(Block.fromDao db r).regularTxns, cb, (Block.fromDao db r).regularTxns.map g, hsplit,
    fun t ht => ?_, ?_, ?_, ?_, ?_⟩
  · obtain ⟨u, hu, hucore⟩ := List.mem_map.1 (hperm.mem_iff.1 (List.mem_map.2 ⟨t, ht, rfl⟩))
    rw [← Transaction.isCoinbase_eq_of_core hucore]
    exact hon.valid.isCoinbase_regular hu
  · rw [Transaction.isCoinbase_eq_of_core hcore]
    exact hon.valid.isCoinbase_last hlast'
  · obtain ⟨cb'', hcb'', -, -, hprev, -⟩ := Ledger.validateBlockCoinbase_eq_ok.1 hcoin
    rw [Block.coinbase, if_pos hon.valid.wellFormed.isSealed, hlast', Option.some.injEq] at hcb''
    rw [(Transaction.core_eq_iff.1 hcore).2.2.2.2.2, hcb'', hprev, ← hhead.prevHash]
    rfl
  · refine List.forall₂_map_right_iff.2 (List.forall₂_same.2 fun t ht => ?_)
    obtain ⟨u, hu, hucore⟩ := List.mem_map.1 (hperm.mem_iff.1 (List.mem_map.2 ⟨t, ht, rfl⟩))
    obtain ⟨k, hk, rfl⟩ := List.mem_iff_getElem.1 hu
    have hok := hall.get hk (hall.length_eq ▸ hk)
    rw [hg ((Ledger.validateBlockTxn_of_core hucore.symm).trans hok)] at hok
    exact (Ledger.validateBlockTxn_of_core hucore.symm).trans hok
  · obtain ⟨cb'', hcb'', hv, hside, -, hreward⟩ := Ledger.validateBlockCoinbase_eq_ok.1 hcoin
    rw [Block.coinbase, if_pos hon.valid.wellFormed.isSealed, hlast', Option.some.injEq] at hcb''
    subst hcb''
    have hsum : CoinbaseMetrics.sum ((Block.fromDao db r).regularTxns.map g) =
        ({} : CoinbaseMetrics).add (CoinbaseMetrics.sum ms) := by
      rw [hmsg, hgcore, hgcore b.regularTxns, CoinbaseMetrics.sum_perm (hperm.map g)]
      simp [CoinbaseMetrics.add]
    rw [hsum, hside, (Transaction.core_eq_iff.1 hcore).2.2.2.1]
    cases hout : cb'.outflows with
    | nil =>
      have := hv.wellFormed.outflowCount.1
      rw [hout] at this
      exact absurd this (by decide)
    | cons o os =>
      rw [List.map_cons, List.drop_one, List.tail_cons,
        hreward o (by rw [Transaction.getOutflow, hout]; rfl)]

/-- Every stored block has its place in the tree. -/
theorem blockInTree (hS : E.CollisionFree (insert genesisText S)) (h : LedgerInv E S db)
    (htree : db.Tree) (hr : r ∈ db.blocks) : BlockInTree E db r := by
  have hroot : r.idx = 0 ↔ db.prev r = none := by
    refine ⟨fun hz => ?_, fun hp => h.linked.root r hr hp⟩
    by_contra hp
    obtain ⟨p, hp⟩ := Option.ne_none_iff_exists'.1 hp
    have := h.idx r hr p hp
    omega
  refine ⟨hroot.trans (h.linked.genesis r hr), fun hz => ?_, h.coinbase_row hS htree hr,
    htree.txidOnce r hr⟩
  obtain ⟨p, hp⟩ := Option.ne_none_iff_exists'.1 fun hnone => hz (hroot.2 hnone)
  obtain ⟨hpm, -⟩ := prev_mem hp
  have hhash : db.blockByHash (some r.prevHash) = some p := (h.linked.prev r hr).trans hp
  refine ⟨p, hpm, hp, (Option.some.inj (blockByHash_mem hhash).2).symm, h.idx r hr p hp, ?_⟩
  obtain ⟨b, bs, hbs, hon, hhead, hcons, hrest⟩ := h.accepted_cons hr
  have hanc : (db.ancestors (Block.fromDao db r)).head? = some (Block.fromDao db p) := by
    rw [Chain.head?_ancestors, Block.fromDb]
    exact congrArg _ hhash
  rcases Block.Same.head hrest with ⟨hc, -⟩ | ⟨c, q, hc, hq, hcq⟩
  · exact absurd (hc.symm.trans hanc) (by simp)
  · rw [hanc, Option.some.injEq] at hc
    subst hc
    refine ((Chain.validateLink_eq_ok hon.link).2 q hq).2.2 p.timestamp r.timestamp ?_ ?_
    · rw [← hcq.timestamp]
      exact iso2Dt_dt2Iso p.timestamp
    · rw [← hhead.timestamp]
      exact iso2Dt_dt2Iso r.timestamp

end LedgerInv

/-- **The block tree is well formed.**  In every state that a run of `Node.add_block`
leads to there is one block with index 0 at most, and every stored block has its
place: a genesis, or above a predecessor; one coinbase; no identifier twice on its
root path. -/
theorem tree_wellFormed {E : Env} {S : Set Str} {depth : Option ℕ} {s : Session}
    (hS : E.CollisionFree (insert genesisText S))
    (h : NodeRun E (fun _ b => b.Hashed S) depth s) :
    (∀ r ∈ s.db.blocks, ∀ c ∈ s.db.blocks, r.idx = 0 → c.idx = 0 → r = c) ∧
      ∀ r ∈ s.db.blocks, BlockInTree E s.db r := by
  have hinv := h.inv hS fun _ _ hb => hb
  exact ⟨h.oneGenesis hS fun _ _ hb => hb,
    fun r hr => hinv.ledger.blockInTree hS (hinv.tree hS) hr⟩

/-- The tree of the fork. -/
theorem tree_wellFormed_fork :
    (∀ r ∈ Sample.state.db.blocks, ∀ c ∈ Sample.state.db.blocks, r.idx = 0 → c.idx = 0 → r = c) ∧
      ∀ r ∈ Sample.state.db.blocks, BlockInTree Sample.env Sample.state.db r :=
  tree_wellFormed Sample.collisionFree
    (NodeRun.empty.processAll (Sample.hashed (by simp [Sample.blocks])))

end GumptionChain
