import GumptionChain.Conservation

/-!
# The order of the outflows

`validate_block_txn` draws on the consumed stake of a kind and a subject as it meets
the outflows: a stake takes what is there and the rest from the plain amounts, a rescind
takes its amount in any case.

* `Ledger.accepted_perm`, `Ledger.metrics_perm` — where a transaction does not both
  rescind and stake anew on one subject, the order makes no difference;
* `Ledger.OrderMatters.rescinds_first`, `Ledger.OrderMatters.rescinds_last` — where it
  does, it is accepted with the rescinds first and refused with the rescinds last;
* `order_free_iff` — so that is exactly where the order matters.
-/

namespace GumptionChain

namespace TxnTally

variable {kind : StakeKind} {x : Str}

theorem draws_append (os os' : List Outflow) :
    draws kind x (os ++ os') = draws kind x os ++ draws kind x os' := List.filterMap_append ..

/-- The draws of the rescinds are the claims, those of the others the uses. -/
theorem draws_filter (kind : StakeKind) (x : Str) (os : List Outflow) :
    draws kind x (os.filter fun o => truthy o.rescind) =
        (draws kind x os).filter Pool.Draw.isClaim ∧
      draws kind x (os.filter fun o => ! truthy o.rescind) =
        (draws kind x os).filter fun d => ! d.isClaim := by
  have hclaim : ∀ (o : Outflow) (d : Pool.Draw),
      (o.booking.bind fun b => b.draw kind x (o.amount.getD 0)) = some d →
        d.isClaim = truthy o.rescind := by
    intro o d hd
    obtain ⟨b, hb, hd⟩ := Option.bind_eq_some_iff.1 hd
    unfold Outflow.booking at hb
    cases hr : truthy o.rescind with
    | true =>
      rw [hr, if_pos rfl] at hb
      obtain ⟨k, -, rfl⟩ := Option.map_eq_some_iff.1 hb
      simp only [Booking.draw] at hd
      split_ifs at hd
      rw [← Option.some.inj hd]
      rfl
    | false =>
      rw [hr, if_neg Bool.false_ne_true] at hb
      split_ifs at hb
      all_goals
        obtain rfl := Option.some.inj hb
        simp only [Booking.draw] at hd
      · split_ifs at hd
        rw [← Option.some.inj hd]
        rfl
      · split_ifs at hd
        rw [← Option.some.inj hd]
        rfl
      · cases hd
  induction os with
  | nil => exact ⟨rfl, rfl⟩
  | cons o os ih =>
    have hcons : ∀ os : List Outflow, draws kind x (o :: os) =
        (o.booking.bind fun b => b.draw kind x (o.amount.getD 0)).toList ++ draws kind x os := by
      intro os
      rw [draws, List.filterMap_cons]
      cases o.booking.bind fun b => b.draw kind x (o.amount.getD 0) <;> rfl
    have hd := hclaim o
    rw [List.filter_cons, List.filter_cons, hcons os, List.filter_append, List.filter_append,
      ← ih.1, ← ih.2]
    cases hr : truthy o.rescind with
    | true =>
      simp only [if_true, Bool.not_true, Bool.false_eq_true, if_false, hcons]
      cases ho : o.booking.bind fun b => b.draw kind x (o.amount.getD 0) with
      | none => exact ⟨rfl, rfl⟩
      | some d => simp [(hd d ho).trans hr]
    | false =>
      simp only [if_true, Bool.not_false, Bool.false_eq_true, if_false, hcons]
      cases ho : o.booking.bind fun b => b.draw kind x (o.amount.getD 0) with
      | none => exact ⟨rfl, rfl⟩
      | some d => simp [(hd d ho).trans hr]

end TxnTally

/-- The transaction with other outflows. -/
def Transaction.withOutflows (t : Transaction) (os : List Outflow) : Transaction :=
  { t with outflows := os }

namespace Ledger

variable {L : Ledger} {t : Transaction} {f : Bool} {os : List Outflow}

/-- **Where the order matters.**  With the rescinds first the transaction is accepted:
its accounts balance, and of every kind and subject it consumes at least what it rescinds
and at most what it rescinds and stakes.  And of one it rescinds something, and stakes
more than the consumed stake leaves. -/
structure OrderMatters (L : Ledger) (t : Transaction) (f : Bool) : Prop where
  inflows : L.InflowsValid t f
  bookable : TxnTally.Bookable t.outflows
  grains : L.consumedGrains t = t.producedGrains
  bounds : ∀ kind x, t.rescinded kind x ≤ L.consumed t kind x ∧
    L.consumed t kind x ≤ t.rescinded kind x + t.staked kind x
  mixed : ∃ kind x, 0 < t.rescinded kind x ∧
    L.consumed t kind x < t.rescinded kind x + t.staked kind x

/-! ### What the order does not change -/

theorem validateTxnInflows_withOutflows (is : List Inflow) (tally : TxnTally) :
    L.validateTxnInflows (t.withOutflows os) f tally is = L.validateTxnInflows t f tally is := by
  induction is generalizing tally with
  | nil => rfl
  | cons i is ih =>
    rw [validateTxnInflows, validateTxnInflows]
    exact bind_congr fun r => ih _

theorem inflowsValid_withOutflows : L.InflowsValid (t.withOutflows os) f ↔ L.InflowsValid t f :=
  exists_congr fun tally => by
    rw [show (t.withOutflows os).inflows = t.inflows from rfl, validateTxnInflows_withOutflows]

theorem amountOf_perm (h : os.Perm t.outflows) (p : Outflow → Bool) :
    (t.withOutflows os).amountOf p = t.amountOf p := (h.map _).sum_eq

theorem producedGrains_perm (h : os.Perm t.outflows) :
    (t.withOutflows os).producedGrains = t.producedGrains := (h.map _).sum_eq

theorem bookable_perm (h : os.Perm t.outflows) : TxnTally.Bookable os ↔
    TxnTally.Bookable t.outflows := forall_congr' fun _ => imp_congr_left h.mem_iff

theorem NonNeg.perm (hn : L.NonNeg t) (h : os.Perm t.outflows) : L.NonNeg (t.withOutflows os) :=
  ⟨fun o ho => hn.given o (h.mem_iff.1 ho), hn.taken⟩

theorem OrderMatters.perm (hm : L.OrderMatters (t.withOutflows os) f) (h : os.Perm t.outflows) :
    L.OrderMatters t f := by
  obtain ⟨hin, hb, hg, hbounds, hmixed⟩ := hm
  refine ⟨inflowsValid_withOutflows.1 hin, (bookable_perm h).1 hb, ?_, ?_, ?_⟩
  · rw [← producedGrains_perm h]
    exact hg
  · intro kind x
    have := hbounds kind x
    rwa [Transaction.rescinded, Transaction.staked, amountOf_perm h, amountOf_perm h] at this
  · obtain ⟨kind, x, hmix⟩ := hmixed
    rw [Transaction.rescinded, Transaction.staked, amountOf_perm h, amountOf_perm h] at hmix
    exact ⟨kind, x, hmix⟩

/-! ### Where it does not matter -/

/-- A transaction that is accepted in one order is accepted in any other, unless the
order matters. -/
theorem accepted_perm (hn : L.NonNeg t) (hm : ¬ L.OrderMatters t f)
    (h : ∃ m, L.validateBlockTxn t f = .ok m) (hperm : os.Perm t.outflows) :
    ∃ m, L.validateBlockTxn (t.withOutflows os) f = .ok m := by
  obtain ⟨hin, hb, hg, hpool⟩ := validateBlockTxn_iff.1 h
  have hbounds := fun kind x => hn.bounds (hpool kind x)
  refine validateBlockTxn_iff.2 ⟨inflowsValid_withOutflows.2 hin, (bookable_perm hperm).2 hb,
    hg.trans (producedGrains_perm hperm).symm, fun kind x => ?_⟩
  have hfree : t.rescinded kind x = 0 ∨
      L.consumed t kind x = t.rescinded kind x + t.staked kind x := by
    by_contra hno
    push Not at hno
    have hclaims : 0 ≤ Pool.claims (TxnTally.draws kind x t.outflows) :=
      Pool.claims_nonneg (TxnTally.nonNeg_draws hn.given)
    rw [(TxnTally.sums_draws kind x t.outflows).1] at hclaims
    have hpos : (0 : ℤ) ≤ t.rescinded kind x := hclaims
    have := hbounds kind x
    exact hm ⟨hin, hb, hg, hbounds, kind, x, by omega, by omega⟩
  obtain ⟨hc, hu⟩ := TxnTally.sums_draws kind x t.outflows
  refine Pool.drain_eq_zero_of_perm (TxnTally.nonNeg_draws hn.given) (hn.consumed_nonneg kind x)
    ?_ ?_ (hperm.filterMap _)
  · rw [hc, hu]
    exact (hbounds kind x).2
  · rw [hc, hu]
    exact hfree

/-- The metrics do not depend on the order. -/
theorem metrics_perm (hn : L.NonNeg t) (hperm : os.Perm t.outflows) {m m' : CoinbaseMetrics}
    (h : L.validateBlockTxn t f = .ok m) (h' : L.validateBlockTxn (t.withOutflows os) f = .ok m') :
    m' = m := by
  have hstaked : ∀ kind x, (t.withOutflows os).staked kind x = t.staked kind x :=
    fun kind x => amountOf_perm hperm _
  have hresc : ∀ kind x, (t.withOutflows os).rescinded kind x = t.rescinded kind x :=
    fun kind x => amountOf_perm hperm _
  have hcons : ∀ kind x, L.consumed (t.withOutflows os) kind x = L.consumed t kind x :=
    fun _ _ => rfl
  have hcov : L.Covers (t.withOutflows os) (L.subjects t) := fun kind x hx => by
    rw [hstaked, hresc, hcons]
    exact L.covers_subjects t kind x hx
  have hnet : ∀ kind, L.halfNet (t.withOutflows os) kind (L.subjects t) =
      L.halfNet t kind (L.subjects t) := fun kind =>
    Finset.sum_congr rfl fun x _ => by rw [net, net, hstaked, hresc, hcons]
  have hhalf : ∀ kind, (t.withOutflows os).halfRescinded kind (L.subjects t) =
      t.halfRescinded kind (L.subjects t) := fun kind =>
    Finset.sum_congr rfl fun x _ => by rw [hresc]
  rw [hn.metrics_eq h (L.covers_subjects t), (hn.perm hperm).metrics_eq h' hcov, hnet, hnet, hhalf,
    hhalf]

/-! ### Where it does -/

/-- With the rescinds first the transaction is accepted. -/
theorem OrderMatters.rescinds_first (hm : L.OrderMatters t f) (hn : L.NonNeg t) :
    ∃ m, L.validateBlockTxn (t.withOutflows (t.outflows.filter (fun o => truthy o.rescind) ++
      t.outflows.filter fun o => ! truthy o.rescind)) f = .ok m := by
  have hperm := List.filter_append_perm (fun o : Outflow => truthy o.rescind) t.outflows
  refine validateBlockTxn_iff.2 ⟨inflowsValid_withOutflows.2 hm.inflows,
    (bookable_perm hperm).2 hm.bookable, hm.grains.trans (producedGrains_perm hperm).symm,
    fun kind x => ?_⟩
  obtain ⟨hfirst, hlast⟩ := TxnTally.draws_filter kind x t.outflows
  obtain ⟨hc, hu⟩ := TxnTally.sums_draws kind x t.outflows
  have hbounds := hm.bounds kind x
  show Pool.drain (L.consumed t kind x) (TxnTally.draws kind x (_ ++ _)) = 0
  rw [TxnTally.draws_append, hfirst, hlast]
  refine Pool.drain_claims_first (TxnTally.nonNeg_draws hn.given) ?_ ?_
  · rw [hc]
    exact hbounds.1
  · rw [hc, hu]
    exact hbounds.2

/-- With the rescinds last it is refused. -/
theorem OrderMatters.rescinds_last (hm : L.OrderMatters t f) (hn : L.NonNeg t) :
    ¬ ∃ m, L.validateBlockTxn (t.withOutflows (t.outflows.filter (fun o => ! truthy o.rescind) ++
      t.outflows.filter fun o => truthy o.rescind)) f = .ok m := by
  intro h
  obtain ⟨-, -, -, hpool⟩ := validateBlockTxn_iff.1 h
  obtain ⟨kind, x, hclaim, hshort⟩ := hm.mixed
  obtain ⟨hfirst, hlast⟩ := TxnTally.draws_filter kind x t.outflows
  obtain ⟨hc, hu⟩ := TxnTally.sums_draws kind x t.outflows
  have hzero : Pool.drain (L.consumed t kind x) (TxnTally.draws kind x (_ ++ _)) = 0 := hpool kind x
  rw [TxnTally.draws_append, hfirst, hlast] at hzero
  refine Pool.drain_uses_first_ne_zero (TxnTally.nonNeg_draws hn.given)
    (hn.consumed_nonneg kind x) ?_ ?_ hzero
  · rw [hc]
    exact hclaim
  · rw [hc, hu]
    exact hshort

end Ledger

/-- **The order of the outflows** changes neither the verdict on a transaction nor its
metrics exactly where it does not matter. -/
theorem order_free_iff {L : Ledger} {t : Transaction} {f : Bool} (hn : L.NonNeg t) :
    (∀ os : List Outflow, os.Perm t.outflows →
      (L.validateBlockTxn (t.withOutflows os) f).toOption = (L.validateBlockTxn t f).toOption) ↔
    ¬ L.OrderMatters t f := by
  constructor
  · intro hfree hm
    obtain ⟨m, hfirst⟩ := hm.rescinds_first hn
    have hperm := List.filter_append_perm (fun o : Outflow => truthy o.rescind) t.outflows
    have hsame := (hfree _ hperm).trans (hfree _ (List.perm_append_comm.trans hperm)).symm
    rw [hfirst] at hsame
    refine hm.rescinds_last hn ?_
    generalize L.validateBlockTxn _ f = r at hsame ⊢
    cases r with
    | error e => cases hsame
    | ok m' => exact ⟨m', rfl⟩
  · intro hm os hperm
    cases h : L.validateBlockTxn t f with
    | ok m =>
      obtain ⟨m', h'⟩ := Ledger.accepted_perm hn hm ⟨m, h⟩ hperm
      rw [h', Ledger.metrics_perm hn hperm h h']
    | error e =>
      cases h' : L.validateBlockTxn (t.withOutflows os) f with
      | error e' => rfl
      | ok m' =>
        obtain ⟨m, hback⟩ := Ledger.accepted_perm (hn.perm hperm) (fun hm' => hm (hm'.perm hperm))
          ⟨m', h'⟩ hperm.symm
        rw [show (t.withOutflows os).withOutflows t.outflows = t from rfl, h] at hback
        cases hback

/-- The transaction with a stake and a rescind is accepted as it is. -/
theorem order_free_iff_restake :
    (∀ os : List Outflow, os.Perm Sample.restake.outflows →
      (Sample.nextLedger.validateBlockTxn (Sample.restake.withOutflows os) false).toOption =
        (Sample.nextLedger.validateBlockTxn Sample.restake false).toOption) ↔
    ¬ Sample.nextLedger.OrderMatters Sample.restake false :=
  order_free_iff Sample.nonNeg_restake

/-- With its stake before its rescind it is refused. -/
theorem order_matters_restake : ¬ ∀ (b : Block) (t : Transaction) (f : Bool)
    (os : List Outflow), os.Perm t.outflows →
      ((Ledger.ofDb Sample.state.db b).validateBlockTxn (t.withOutflows os) f).toOption =
        ((Ledger.ofDb Sample.state.db b).validateBlockTxn t f).toOption := by
  intro h
  have hsame := h Sample.next Sample.restake false Sample.restake.outflows.reverse
    (List.reverse_perm _)
  rw [Sample.state_db] at hsame
  exact absurd hsame (by decide +kernel)

end GumptionChain
