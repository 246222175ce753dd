import GumptionChain.BlockTree
import GumptionChain.Supply

/-!
# Stakes

Where the stakes of a kind on a subject come from, along a root path.

* `TxnTally.funded` — what the stake outflows of a transaction take from its plain
  amounts, as `validate_block_txn` books it; `Ledger.newStake_eq`: for an accepted
  transaction that is what it stakes and rescinds less the stakes it consumes;
* `AcceptedChain.stake_eq` — the unspent stakes are the newly funded ones less the
  rescinds, plus what coinbases stake;
* `stake_accounting_iff` — so the books balance exactly where no coinbase stakes.
-/

namespace GumptionChain

open Database

/-! ## What one outflow does to the books of a kind -/

/-- A stake of a kind on a subject. -/
def Outflow.stakes (kind : StakeKind) (subject : Str) (o : Outflow) : Bool :=
  match kind with
  | .opposition => o.opposition = some subject
  | .support => o.support = some subject

/-- A rescind of a stake of a kind on a subject. -/
def Outflow.rescinds (kind : StakeKind) (subject : Str) (o : Outflow) : Bool :=
  o.rescind = some subject && o.rescindKind = some kind

namespace KindTally

variable {k : KindTally} {s x : Str} {a o : ℤ}

/-- Stakes and rescinds booked on a subject, less the stakes consumed. -/
def net (k : KindTally) (x : Str) : ℤ := k.staked.get x - k.consumed.get x + k.rescinded.get x

theorem drawn_eq : k.drawn x = k.amounts.get x + k.net x := by
  simp only [drawn, net]
  ring

theorem drawn_stake : (k.stake s a o).1.drawn x =
    k.drawn x + if x = s then o - (k.stake s a o).2 else 0 := by
  by_cases hx : x = s
  · subst hx
    rw [if_pos rfl]
    unfold stake
    simp only
    split_ifs with hpool hlt
    all_goals
      simp only [drawn, Tally.get_add, Tally.get_put, if_true]
      ring
  · rw [if_neg hx]
    unfold stake
    simp only
    split_ifs with hpool hlt
    all_goals simp only [drawn, Tally.get_add, Tally.get_put, if_neg hx, add_zero]

theorem net_stake : (k.stake s a o).1.net x = k.net x + if x = s then a else 0 := by
  unfold stake
  simp only
  split_ifs <;> simp only [net, Tally.get_add] <;> split_ifs <;> ring

theorem net_consume : (k.consume s a).net x = k.net x - if x = s then a else 0 := by
  simp only [net, consume, Tally.get_add]
  ring

theorem net_rescind : (k.rescind s a).net x = k.net x + if x = s then a else 0 := by
  simp only [net, rescind, Tally.get_add]
  ring

end KindTally

namespace TxnTally

variable {E : Env} {t t' : TxnTally} {kind : StakeKind} {x : Str}

/-- The books of a kind. -/
def books (t : TxnTally) : StakeKind → KindTally
  | .opposition => t.opposition
  | .support => t.support

/-- What stake outflows of a kind on a subject take from the plain amounts. -/
def funded (kind : StakeKind) (x : Str) : TxnTally → List Outflow → ℤ
  | _, [] => 0
  | t, o :: rest =>
    match t.addOutflow o with
    | .error _ => 0
    | .ok t' =>
      (if o.stakes kind x then t.otherAmounts - t'.otherAmounts else 0) + funded kind x t' rest

/-- An inflow draws nothing, and takes the stake it consumes off the books. -/
theorem books_addInflow (kind : StakeKind) (x : Str) {o : Outflow} (ho : o.WellFormed E)
    (hr : o.rescind = none) (t : TxnTally) :
    ((t.addInflow (o.amount.getD 0) o.opposition o.support).books kind).drawn x =
        (t.books kind).drawn x ∧
      ((t.addInflow (o.amount.getD 0) o.opposition o.support).books kind).net x =
        (t.books kind).net x - o.amountIf (Outflow.stakes kind x) := by
  unfold addInflow Outflow.amountIf Outflow.stakes
  rcases ho.destinations with ⟨ha, h1, -, h2⟩ | ⟨ha, s, hs, ⟨h1, -, h2⟩ | ⟨h1, -, h2⟩ | ⟨-, h3, -⟩⟩
  · cases kind <;> simp [h1, h2, books]
  · have hts := (truthy_some s).2 hs
    cases kind <;> simp [h1, h2, hts, books, KindTally.drawn_consume, KindTally.net_consume, eq_comm]
  · have hts := (truthy_some s).2 hs
    cases kind <;> simp [h1, h2, hts, books, KindTally.drawn_consume, KindTally.net_consume, eq_comm]
  · exact absurd (hr.symm.trans h3) (by simp)

/-- An outflow books what it stakes or rescinds, and draws what it takes from the
plain amounts. -/
theorem books_addOutflow {o : Outflow} (ho : o.WellFormed E) (h : t.addOutflow o = .ok t') :
    (t'.books kind).drawn x = (t.books kind).drawn x +
        (if o.stakes kind x then t.otherAmounts - t'.otherAmounts else 0) ∧
      (t'.books kind).net x = (t.books kind).net x + o.amountIf (Outflow.stakes kind x) +
        o.amountIf (Outflow.rescinds kind x) := by
  unfold addOutflow at h
  unfold Outflow.amountIf Outflow.stakes Outflow.rescinds
  rcases ho.destinations with ⟨ha, h1, h3, h2⟩ |
    ⟨ha, s, hs, ⟨h1, h3, h2⟩ | ⟨h1, h3, h2⟩ | ⟨h1, h3, h2, k, hk⟩⟩
  · rw [h1, h2, h3] at h
    cases h
    cases kind <;> simp [h1, h2, h3, books]
  · have hts := (truthy_some s).2 hs
    rw [h1, h2, h3, hts] at h
    cases h
    cases kind <;> simp [h1, h2, h3, books, KindTally.drawn_stake, KindTally.net_stake, eq_comm]
  · have hts := (truthy_some s).2 hs
    rw [h1, h2, h3, hts] at h
    cases h
    cases kind <;> simp [h1, h2, h3, books, KindTally.drawn_stake, KindTally.net_stake, eq_comm]
  · have hts := (truthy_some s).2 hs
    rw [h3, hts, hk] at h
    cases k
    all_goals
      cases h
      cases kind <;>
        simp [h1, h2, h3, hk, books, KindTally.drawn_rescind, KindTally.net_rescind, eq_comm]

/-- The loop over the outflows. -/
theorem books_addOutflows (kind : StakeKind) (x : Str) : ∀ {os : List Outflow} {t t' : TxnTally},
    (∀ o ∈ os, o.WellFormed E) → t.addOutflows os = .ok t' →
    (t'.books kind).drawn x = (t.books kind).drawn x + t.funded kind x os ∧
      (t'.books kind).net x = (t.books kind).net x +
        (os.map (Outflow.amountIf (Outflow.stakes kind x))).sum +
        (os.map (Outflow.amountIf (Outflow.rescinds kind x))).sum
  | [], t, t', _, h => by
    cases h
    simp [funded]
  | o :: os, t, t', hwf, h => by
    rw [addOutflows, bind_eq_ok] at h
    obtain ⟨t₁, h1, h2⟩ := h
    rw [List.forall_mem_cons] at hwf
    obtain ⟨hd, hn⟩ := books_addOutflow hwf.1 h1
    obtain ⟨hd', hn'⟩ := books_addOutflows kind x hwf.2 h2
    rw [funded, h1]
    simp only [List.map_cons, List.sum_cons]
    exact ⟨by rw [hd', hd, add_assoc], by rw [hn', hn]; ring⟩

end TxnTally

/-! ## One transaction -/

/-- The amounts of a transaction's outflows of a kind. -/
def Transaction.amountOf (p : Outflow → Bool) (t : Transaction) : ℤ :=
  (t.outflows.map (Outflow.amountIf p)).sum

namespace Ledger

variable {E : Env} {L M : Ledger} {t u : Transaction} {kind : StakeKind} {x : Str}

/-- The stake of a kind on a subject that a transaction funds from plain amounts. -/
def newStake (L : Ledger) (kind : StakeKind) (x : Str) (t : Transaction) : ℤ :=
  match L.validateTxnInflows t true {} t.inflows with
  | .error _ => 0
  | .ok tally => tally.funded kind x t.outflows

theorem newStake_of_core (h : t.core = u.core) : L.newStake kind x t = L.newStake kind x u := by
  obtain ⟨-, -, hin, hout, -, -⟩ := Transaction.core_eq_iff.1 h
  rw [newStake, newStake, validateTxnInflows_of_core h, hin, hout]

theorem Agrees.newStake_eq (h : L.Agrees M) : L.newStake kind x = M.newStake kind x := by
  funext t
  rw [newStake, newStake, h.validateTxnInflows_eq]

/-- The loop over the inflows takes the stakes they consume off the books. -/
theorem books_validateTxnInflows (kind : StakeKind) (x : Str) {f : Bool}
    {H : Utxo.History Inflow Outflow} : ∀ {is : List Inflow} {tally tally' : TxnTally},
    (∀ i ∈ is, ∀ r, L.validateTxnInflow t i f = .ok r → ∃ o, H.output i = some o ∧
      o.WellFormed E ∧ o.rescind = none ∧ r = (o.amount.getD 0, o.opposition, o.support)) →
    L.validateTxnInflows t f tally is = .ok tally' →
    (tally'.books kind).drawn x = (tally.books kind).drawn x ∧
      (tally'.books kind).net x =
        (tally.books kind).net x - H.cost (Outflow.amountIf (Outflow.stakes kind x)) is
  | [], tally, tally', _, h => by
    cases h
    exact ⟨rfl, (sub_zero _).symm⟩
  | i :: is, tally, tally', hres, h => by
    rw [validateTxnInflows, bind_eq_ok] at h
    obtain ⟨r, hr, hrest⟩ := h
    rw [List.forall_mem_cons] at hres
    obtain ⟨o, hout, hwf, hresc, rfl⟩ := hres.1 r hr
    obtain ⟨hd, hn⟩ := books_validateTxnInflows kind x hres.2 hrest
    obtain ⟨hd', hn'⟩ := TxnTally.books_addInflow kind x hwf hresc tally
    refine ⟨hd.trans hd', ?_⟩
    rw [hn, hn', Utxo.History.cost, Utxo.History.cost, List.map_cons, List.sum_cons, hout]
    exact sub_sub _ _ _

/-- **Newly funded stake** is what a transaction stakes and rescinds, less what it
consumes. -/
theorem newStake_eq {H : Utxo.History Inflow Outflow} {m : CoinbaseMetrics}
    (hwf : ∀ o ∈ t.outflows, o.WellFormed E)
    (hres : ∀ i ∈ t.inflows, ∀ r, L.validateTxnInflow t i true = .ok r → ∃ o,
      H.output i = some o ∧ o.WellFormed E ∧ o.rescind = none ∧
        r = (o.amount.getD 0, o.opposition, o.support))
    (h : L.validateBlockTxn t true = .ok m) :
    L.newStake kind x t = t.amountOf (Outflow.stakes kind x) +
      t.amountOf (Outflow.rescinds kind x) -
        H.cost (Outflow.amountIf (Outflow.stakes kind x)) t.inflows := by
  obtain ⟨t₁, t₂, hin, hout, hbal, -⟩ := validateBlockTxn_eq_ok.1 h
  obtain ⟨hd₁, hn₁⟩ := books_validateTxnInflows kind x hres hin
  obtain ⟨hd₂, hn₂⟩ := TxnTally.books_addOutflows kind x hwf hout
  have hzero : (t₂.books kind).amounts.get x = 0 := by
    obtain ⟨-, hop, hsu⟩ := hbal
    cases kind
    · exact Tally.forall_values.1 hop x
    · exact Tally.forall_values.1 hsu x
  have hstart : (({} : TxnTally).books kind).drawn x = 0 ∧
      (({} : TxnTally).books kind).net x = 0 := by
    cases kind <;> simp [TxnTally.books, KindTally.drawn, KindTally.net]
  have hend := KindTally.drawn_eq (k := t₂.books kind) (x := x)
  rw [newStake, hin]
  simp only [Transaction.amountOf]
  omega

end Ledger

/-! ## A chain of accepted blocks -/

/-- The transactions that are no coinbases. -/
def regularTxnsOf (txns : List Transaction) : List Transaction :=
  txns.filter fun t => ! t.isCoinbase

/-- The coinbases. -/
def coinbasesOf (txns : List Transaction) : List Transaction := txns.filter Transaction.isCoinbase

theorem sum_split (f : Transaction → ℤ) (txns : List Transaction) :
    (txns.map f).sum =
      ((regularTxnsOf txns).map f).sum + ((coinbasesOf txns).map f).sum := by
  have h := List.sum_map_filter_add_sum_map_filter_not (fun t : Transaction => t.isCoinbase) f txns
  rw [← h, add_comm]
  simp [regularTxnsOf, coinbasesOf]

/-- The history of a chain is worth what its outflows are. -/
theorem UtxoSound.worth_amountIf {txns : List Transaction} (h : UtxoSound txns)
    (p : Outflow → Bool) : h.history.worth (Outflow.amountIf p) = unspentAmount p txns := by
  rw [unspentAmount, Outflow.sum_amountIf, unspentOutflows, List.map_map]
  rfl

/-- An accepted transaction stays accepted when blocks come on top. -/
theorem Ledger.validateTxnInflow_cons {b : Block} {bs : List Block} {t : Transaction} {i : Inflow}
    {r : ℤ × Option Str × Option Str} (hids : ((txnsOf (b :: bs)).map Transaction.txid).Nodup)
    (h : (above [] bs).validateTxnInflow t i true = .ok r) :
    (above [] (b :: bs)).validateTxnInflow t i true = .ok r := by
  obtain ⟨txid, u, o, hx, hu, ho, hr, hown, -, rfl⟩ := validateTxnInflow_eq_ok.1 h
  have hu' : (txnsOf bs).find? (fun t => t.txid = some txid) = some u := Except.ok.inj hu
  refine validateTxnInflow_eq_ok.2 ⟨txid, u, o, hx, congrArg Except.ok ?_, ho, hr, hown, ?_, rfl⟩
  · show (b.txns ++ txnsOf bs).find? _ = some u
    rw [List.find?_append, List.find?_eq_none.2, Option.none_or, hu']
    intro v hv hvx
    rw [show txnsOf (b :: bs) = b.txns ++ txnsOf bs from rfl, List.map_append,
      List.nodup_append] at hids
    have hux : u.txid = some txid := by simpa using List.find?_some hu'
    refine hids.2.2 _ (List.mem_map.2 ⟨v, hv, rfl⟩) _
      (List.mem_map.2 ⟨u, List.mem_of_find?_eq_some hu', rfl⟩) ?_
    rw [hux]
    simpa using hvx
  · exact not_spentTwice (b :: bs)

namespace AcceptedChain

variable {E : Env} {S : Set Str} {bs : List Block} {kind : StakeKind} {x : Str}

/-- Each regular transaction of a chain is accepted on the ledger of the chain. -/
theorem validateBlockTxn (hS : E.CollisionFree (insert genesisText S))
    (h : AcceptedChain E S bs) : ∀ c ∈ bs, ∀ t ∈ c.regularTxns,
      ∃ m, (Ledger.above [] bs).validateBlockTxn t true = .ok m := by
  induction h with
  | nil => exact fun c hc => absurd hc List.not_mem_nil
  | @cons b bs hc hon ih =>
    rw [List.forall_mem_cons]
    refine ⟨fun t ht => ?_, fun c hcm t ht => ?_⟩
    · obtain ⟨m, hm, -⟩ := hon.metrics
      obtain ⟨ms, hms, -⟩ := Ledger.validateBlockTxns_spec hm
      obtain ⟨k, hk, rfl⟩ := List.mem_iff_getElem.1 ht
      exact ⟨_, (Ledger.validateBlockTxns_settled hms).get hk (hms.length_eq ▸ hk)⟩
    · obtain ⟨m, hm⟩ := ih c hcm t ht
      have hids := ((hc.cons hon).sound hS).txids
      exact ⟨m, Ledger.validateBlockTxn_mono
        (fun i _ r hr => Ledger.validateTxnInflow_cons hids hr) hm⟩

/-- A transaction of a chain is a regular one of its block, or spends nothing. -/
theorem txn_cases (h : AcceptedChain E S bs) {t : Transaction} (ht : t ∈ txnsOf bs) :
    (t.isCoinbase = false ∧ ∃ c ∈ bs, t ∈ c.regularTxns) ∨
      (t.isCoinbase = true ∧ t.inflows = []) := by
  obtain ⟨c, hcm, htc⟩ := List.mem_flatMap.1 ht
  have hv := (h.mem c hcm).1
  obtain ⟨cb, hlast, hcb, htxns⟩ := hv.txns_eq
  rw [htxns, List.mem_append, List.mem_singleton] at htc
  rcases htc with htc | rfl
  · exact Or.inl ⟨hv.isCoinbase_regular htc, c, hcm, htc⟩
  · refine Or.inr ⟨hv.isCoinbase_last hlast, List.eq_nil_of_length_eq_zero ?_⟩
    exact Nat.le_zero.1 hcb.wellFormed.inflowCount.2

/-- **The stakes of a chain.**  What is unspent was newly funded, less the rescinds,
or was staked by a coinbase. -/
theorem stake_eq (hS : E.CollisionFree (insert genesisText S)) (h : AcceptedChain E S bs) :
    unspentAmount (Outflow.stakes kind x) (txnsOf bs) =
      ((regularTxnsOf (txnsOf bs)).map ((Ledger.above [] bs).newStake kind x)).sum -
        ((regularTxnsOf (txnsOf bs)).map (Transaction.amountOf (Outflow.rescinds kind x))).sum +
      ((coinbasesOf (txnsOf bs)).map (Transaction.amountOf (Outflow.stakes kind x))).sum := by
  have hs := h.sound hS
  have hworth := hs.history.worth_eq (Outflow.amountIf (Outflow.stakes kind x))
  rw [hs.worth_amountIf] at hworth
  have hcreated : (hs.history.created.map fun p => p.2.amountIf (Outflow.stakes kind x)).sum =
      ((txnsOf bs).map (Transaction.amountOf (Outflow.stakes kind x))).sum := by
    show (((txnsOf bs).flatMap Transaction.outpoints).map _).sum = _
    rw [List.map_flatMap, List.flatMap_def, List.sum_flatten, List.map_map]
    refine congrArg List.sum (List.map_congr_left fun t _ => ?_)
    exact Transaction.sum_outpoints (Outflow.amountIf (Outflow.stakes kind x)) t
  have hspent : hs.history.cost (Outflow.amountIf (Outflow.stakes kind x)) hs.history.spent =
      ((txnsOf bs).map fun t =>
        hs.history.cost (Outflow.amountIf (Outflow.stakes kind x)) t.inflows).sum := by
    show hs.history.cost _ ((txnsOf bs).flatMap Transaction.inflows) = _
    rw [Utxo.History.cost, List.map_flatMap, List.flatMap_def, List.sum_flatten, List.map_map]
    rfl
  have hcoinbase : ((coinbasesOf (txnsOf bs)).map fun t =>
      hs.history.cost (Outflow.amountIf (Outflow.stakes kind x)) t.inflows).sum = 0 := by
    refine List.sum_eq_zero ?_
    rw [List.forall_mem_map]
    intro t ht
    obtain ⟨htm, htc⟩ := List.mem_filter.1 ht
    rcases h.txn_cases htm with ⟨hreg, -⟩ | ⟨-, hnil⟩
    · exact absurd htc (by simp [hreg])
    · rw [hnil]
      rfl
  have hregular : ((regularTxnsOf (txnsOf bs)).map ((Ledger.above [] bs).newStake kind x)).sum +
        ((regularTxnsOf (txnsOf bs)).map fun t =>
          hs.history.cost (Outflow.amountIf (Outflow.stakes kind x)) t.inflows).sum =
      ((regularTxnsOf (txnsOf bs)).map (Transaction.amountOf (Outflow.stakes kind x))).sum +
        ((regularTxnsOf (txnsOf bs)).map (Transaction.amountOf (Outflow.rescinds kind x))).sum := by
    rw [← List.sum_map_add, ← List.sum_map_add]
    refine congrArg List.sum (List.map_congr_left fun t ht => ?_)
    obtain ⟨htm, htc⟩ := List.mem_filter.1 ht
    rcases h.txn_cases htm with ⟨-, c, hcm, htr⟩ | ⟨hcb, -⟩
    · obtain ⟨m, hm⟩ := h.validateBlockTxn hS c hcm t htr
      have hwf := ((h.mem c hcm).1.regular t htr).1.wellFormed
      rw [Ledger.newStake_eq hwf.outflows (fun i hi r hr => ?_) hm, sub_add_cancel]
      obtain ⟨n, hn⟩ := (hwf.inflows i hi).outflowIdx
      have hnil : UtxoSound ([] ++ txnsOf bs) := hs
      exact Ledger.output_of_inflow hnil h.wellFormed_outflows hn hr
    · exact absurd htc (by simp [hcb])
  have hstakes := sum_split (Transaction.amountOf (Outflow.stakes kind x)) (txnsOf bs)
  have hcosts := sum_split (fun t =>
    hs.history.cost (Outflow.amountIf (Outflow.stakes kind x)) t.inflows) (txnsOf bs)
  omega

/-- Amounts are positive: where coinbases stake nothing in sum, none stakes. -/
theorem sum_coinbases_eq_zero (h : AcceptedChain E S bs) :
    ((coinbasesOf (txnsOf bs)).map (Transaction.amountOf (Outflow.stakes kind x))).sum = 0 ↔
      ∀ t ∈ txnsOf bs, t.isCoinbase = true → ∀ o ∈ t.outflows, o.stakes kind x = false := by
  have hpos : ∀ t ∈ txnsOf bs, ∀ o ∈ t.outflows,
      0 ≤ o.amountIf (Outflow.stakes kind x) ∧
        (o.amountIf (Outflow.stakes kind x) = 0 ↔ o.stakes kind x = false) := by
    intro t ht o ho
    have hamount := (h.wellFormed_outflows t ht o ho).amount_pos
    unfold Outflow.amountIf
    cases o.stakes kind x
    · simp
    · simp only [if_true, Bool.true_eq_false, iff_false]
      omega
  constructor
  · intro hsum t ht hcb o ho
    have hzero : t.amountOf (Outflow.stakes kind x) = 0 := by
      refine List.all_zero_of_le_zero_le_of_sum_eq_zero ?_ hsum
        (List.mem_map.2 ⟨t, List.mem_filter.2 ⟨ht, hcb⟩, rfl⟩)
      rw [List.forall_mem_map]
      intro u hu
      refine List.sum_nonneg ?_
      rw [List.forall_mem_map]
      exact fun o ho => (hpos u (List.mem_filter.1 hu).1 o ho).1
    refine (hpos t ht o ho).2.1 (List.all_zero_of_le_zero_le_of_sum_eq_zero ?_ hzero
      (List.mem_map.2 ⟨o, ho, rfl⟩))
    rw [List.forall_mem_map]
    exact fun o ho => (hpos t ht o ho).1
  · intro hnone
    refine List.sum_eq_zero ?_
    rw [List.forall_mem_map]
    intro t ht
    obtain ⟨htm, hcb⟩ := List.mem_filter.1 ht
    refine List.sum_eq_zero ?_
    rw [List.forall_mem_map]
    exact fun o ho => (hpos t htm o ho).2.2 (hnone t htm hcb o ho)

end AcceptedChain

/-! ## Stored chains -/

/-- The books of a root path balance: its unspent stakes of a kind on a subject are
those that its regular transactions funded from plain amounts, less those they
rescinded. -/
def StakesBalance (db : Database) (r : BlockDAO) (kind : StakeKind) (x : Str) : Prop :=
  unspentAmount (Outflow.stakes kind x) (txnsOf (db.pathBlocks r)) =
    ((regularTxnsOf (txnsOf (db.pathBlocks r))).map
        ((Ledger.ofDb db (Block.fromDao db r)).newStake kind x)).sum -
      ((regularTxnsOf (txnsOf (db.pathBlocks r))).map
        (Transaction.amountOf (Outflow.rescinds kind x))).sum

/-- Sums over transactions with the same content are the same. -/
theorem sum_filter_of_core {f : Transaction → ℤ} {p : Transaction → Bool}
    (hf : ∀ t u : Transaction, t.core = u.core → f t = f u)
    (hp : ∀ t u : Transaction, t.core = u.core → p t = p u) {ts us : List Transaction}
    (h : (ts.map Transaction.core).Perm (us.map Transaction.core)) :
    ((ts.filter p).map f).sum = ((us.filter p).map f).sum := by
  have hcore : ∀ l : List Transaction,
      (l.filter p).map f = ((l.map Transaction.core).filter p).map f := by
    intro l
    rw [List.filter_map, List.map_map, List.filter_congr fun t _ => hp t t.core rfl]
    exact List.map_congr_left fun t _ => hf t t.core rfl
  rw [hcore, hcore us]
  exact ((h.filter p).map f).sum_eq

theorem forall_of_core {P : Transaction → Prop}
    (hP : ∀ t u : Transaction, t.core = u.core → (P t ↔ P u)) {ts us : List Transaction}
    (h : (ts.map Transaction.core).Perm (us.map Transaction.core)) :
    (∀ t ∈ ts, P t) ↔ ∀ t ∈ us, P t := by
  have hcore : ∀ l : List Transaction, (∀ t ∈ l, P t) ↔ ∀ t ∈ l.map Transaction.core, P t := by
    intro l
    rw [List.forall_mem_map]
    exact forall₂_congr fun t _ => hP t t.core rfl
  rw [hcore, hcore us]
  exact forall_congr' fun t => imp_congr_left h.mem_iff

/-- **Stake accounting.**  On the root path of a stored block, in every reachable
state, the books of a kind and a subject balance exactly where no coinbase of the
path has an outflow that is such a stake. -/
theorem stake_accounting_iff {E : Env} {S : Set Str} {depth : Option ℕ} {s : Session}
    {r : BlockDAO} (hS : E.CollisionFree (insert genesisText S)) (h : Reachable E S depth s)
    (hr : r ∈ s.db.blocks) (kind : StakeKind) (x : Str) :
    StakesBalance s.db r kind x ↔ ∀ t ∈ txnsOf (s.db.pathBlocks r), t.isCoinbase = true →
      ∀ o ∈ t.outflows, o.stakes kind x = false := by
  have hinv := h.inv hS
  obtain ⟨bs, hbs, hsame⟩ := hinv.ledger.accepted r hr
  have hperm := Block.Same.txnsOf hsame
  have hagree := hinv.ledger.ofDb_agrees hS (hinv.tree hS) hr hsame
  have hcoinbase : ∀ t u : Transaction, t.core = u.core → t.isCoinbase = u.isCoinbase :=
    fun _ _ => Transaction.isCoinbase_eq_of_core
  have hregular : ∀ t u : Transaction, t.core = u.core → (! t.isCoinbase) = ! u.isCoinbase :=
    fun t u heq => congrArg _ (hcoinbase t u heq)
  have hamount : ∀ p (t u : Transaction), t.core = u.core → t.amountOf p = u.amountOf p := by
    intro p t u heq
    rw [Transaction.amountOf, Transaction.amountOf, (Transaction.core_eq_iff.1 heq).2.2.2.1]
  have hnone : (∀ t ∈ txnsOf (s.db.pathBlocks r), t.isCoinbase = true →
      ∀ o ∈ t.outflows, o.stakes kind x = false) ↔
        ∀ t ∈ txnsOf bs, t.isCoinbase = true → ∀ o ∈ t.outflows, o.stakes kind x = false := by
    refine forall_of_core (fun t u heq => ?_) hperm
    rw [hcoinbase t u heq, (Transaction.core_eq_iff.1 heq).2.2.2.1]
  have hnew : ((regularTxnsOf (txnsOf (s.db.pathBlocks r))).map
        ((Ledger.ofDb s.db (Block.fromDao s.db r)).newStake kind x)).sum =
      ((regularTxnsOf (txnsOf bs)).map ((Ledger.above [] bs).newStake kind x)).sum := by
    rw [hagree.newStake_eq]
    exact sum_filter_of_core (fun t u heq => Ledger.newStake_of_core heq) hregular hperm
  have hrescinds : ((regularTxnsOf (txnsOf (s.db.pathBlocks r))).map
        (Transaction.amountOf (Outflow.rescinds kind x))).sum =
      ((regularTxnsOf (txnsOf bs)).map (Transaction.amountOf (Outflow.rescinds kind x))).sum :=
    sum_filter_of_core (hamount _) hregular hperm
  rw [hnone, ← hbs.sum_coinbases_eq_zero, StakesBalance, hnew, hrescinds,
    unspentAmount_of_core _ hperm, hbs.stake_eq hS]
  constructor <;> intro hsum
  · omega
  · omega

/-- The path that ends in the spend, which stakes. -/
theorem stake_accounting_iff_left :
    StakesBalance Sample.state.db Sample.leftRow .opposition ['b', 'G', 'V', 'h', 'b', 'g'] ↔
      ∀ t ∈ txnsOf (Sample.state.db.pathBlocks Sample.leftRow), t.isCoinbase = true →
        ∀ o ∈ t.outflows, o.stakes .opposition ['b', 'G', 'V', 'h', 'b', 'g'] = false :=
  stake_accounting_iff Sample.collisionFree Sample.reachable
    (by rw [Sample.state_db]; decide +kernel) .opposition ['b', 'G', 'V', 'h', 'b', 'g']

/-! ### A reward that is a stake -/

namespace Sample

/-- A reward that is itself a stake. -/
def stakeCoinbase : Transaction where
  timestamp := dt2Iso (minutesPast 0)
  txid := some (fmt064x 0x984e1ae7213933a70363c1ee7816f3f26d37b8d9cda74059b4dbdfe8c3095eb5)
  address := some alice
  signature := some (b64encode
    (toBytes 32 0x6b2ab6edc00eceb273be2e2d01a25e05ea96072bd373b93b48aff3cf799b566f ++
      toBytes 32 0xc245bf4f376003f5aa0b8d81df987ce4c9f9913a53c8ff3fe31ea0140d4da902))
  outflows := [{ amount := some 500, opposition := some ['b', 'G', 'V', 'h', 'b', 'g'] }]
  prevHash := some firstPrevHash

/-- A first block that pays it. -/
def staked : Block where
  idx := some 0
  timestamp := some (dt2Iso (minutesPast 0))
  blockHash := some (fmt064x 0x00000d6f0721fd1b5a6a2d5b9b009cffb74ac69d73c2adeff26380336c2704b5)
  prevHash := some firstPrevHash
  target := maxTarget
  proofOfWork := some 3233444
  merkleRoot := some (fmt064x 0x0908a27867c489791bed1ecdf9d8b2a0966a08dda2a210a7dab86b1a830846b6)
  txns := [stakeCoinbase]

/-- Its hashes and signatures. -/
def stakedEnv : Env := Env.knowing [staked]

/-- Its texts. -/
def stakedTexts : Set Str := { x | x ∈ hashedTexts [staked] }

/-- The node with that block. -/
def stakedState : Session := Node.processAll stakedEnv none {} [call staked]

/-- Its row. -/
def stakedRow : BlockDAO := blockRow 1 none (minutesPast 0) staked

/-- The node's tables. -/
def stakedDb : Database where
  blocks := [stakedRow]
  transactions := [txnRow 1 (minutesPast 0) stakeCoinbase]
  outflows := [outflowRow 1 1 0 stakeCoinbase]
  blockTransactions := [(1, 1)]
  chains := [⟨1, staked.blockHash.getD [], 1, 0⟩]
  longestChainBlocks := [⟨1, 0⟩]

theorem stakedState_db : stakedState.db = stakedDb := by decide +kernel

theorem reachable_staked : Reachable stakedEnv stakedTexts none stakedState := by
  refine ReachableBy.empty.processAll fun c hc => ?_
  rw [List.mem_singleton.1 hc]
  exact Block.hashed_of_mem (List.mem_singleton_self staked)

end Sample

instance (db : Database) (r : BlockDAO) (kind : StakeKind) (x : Str) :
    Decidable (StakesBalance db r kind x) := by
  unfold StakesBalance
  infer_instance

/-- A miller can pay its reward as a stake that no staking transaction funded. -/
theorem stake_accounting_staked : ¬ ∀ (E : Env) (S : Set Str) (depth : Option ℕ) (s : Session)
    (r : BlockDAO) (kind : StakeKind) (x : Str), E.CollisionFree (insert genesisText S) →
    Reachable E S depth s → r ∈ s.db.blocks → StakesBalance s.db r kind x := by
  intro h
  have hbalance := h Sample.stakedEnv Sample.stakedTexts none Sample.stakedState Sample.stakedRow
    .opposition ['b', 'G', 'V', 'h', 'b', 'g'] (collisionFree_of_nodup (by decide +kernel))
    Sample.reachable_staked (by rw [Sample.stakedState_db]; decide +kernel)
  rw [Sample.stakedState_db] at hbalance
  exact absurd hbalance (by decide +kernel)

end GumptionChain
