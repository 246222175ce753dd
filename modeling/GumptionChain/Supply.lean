import GumptionChain.Lib.Utxo
import GumptionChain.Reachable

/-!
# The supply bound

What all unspent outflows of a chain are worth, a plain grain counted twice and a
staked grain once, never exceeds twice the block rewards.

* `TxnTally.worth` — what the accounting of `validate_block_txn` has taken in and
  not given out; each inflow adds its weight (`worth_addInflow`), each outflow
  takes its own (`worth_addOutflow`);
* `TxnTally.Balanced.metrics_le` — a balanced transaction lets the coinbase mint
  at most half of what is left of that;
* `AcceptedOn.worth_le` — so a block adds at most twice the reward;
* `supply_bound` — on every root path of every reachable state, and under every
  block that validation accepts on one.
-/

namespace GumptionChain

open Database

/-! ## Kinds of outflows -/

namespace Outflow

variable {E : Env} {o : Outflow}

/-- A transfer to an address. -/
def isPlain (o : Outflow) : Bool := truthy o.address

/-- A stake on a subject. -/
def isStake (o : Outflow) : Bool := truthy o.opposition || truthy o.support

/-- The amount, if the outflow is of a kind. -/
def amountIf (p : Outflow → Bool) (o : Outflow) : ℤ := if p o then o.amount.getD 0 else 0

/-- A plain grain counts twice, a staked one once, a rescinded one not at all. -/
def weight (o : Outflow) : ℤ := 2 * o.amountIf isPlain + o.amountIf isStake

theorem sum_amountIf (p : Outflow → Bool) (l : List Outflow) :
    ((l.filter fun o => p o).map fun o => o.amount.getD 0).sum = (l.map (amountIf p)).sum := by
  induction l with
  | nil => rfl
  | cons o l ih =>
    rw [List.map_cons, List.sum_cons, ← ih, amountIf, List.filter_cons]
    split_ifs <;> simp

/-- A well-formed outflow has one destination. -/
theorem WellFormed.destinations (h : o.WellFormed E) :
    (truthy o.address = true ∧ o.opposition = none ∧ o.rescind = none ∧ o.support = none) ∨
      truthy o.address = false ∧ ∃ s, s ≠ [] ∧
        ((o.opposition = some s ∧ o.rescind = none ∧ o.support = none) ∨
          (o.opposition = none ∧ o.rescind = none ∧ o.support = some s) ∨
          (o.opposition = none ∧ o.rescind = some s ∧ o.support = none ∧
            ∃ k, o.rescindKind = some k)) := by
  have hdest := h.destination
  have hkind := h.rescindKind
  unfold options at hdest
  cases hop : o.opposition with
  | some s =>
    have hs := validateSubject_ne_nil (h.opposition s hop)
    cases hr : o.rescind <;> cases hsu : o.support <;> simp [hop, hr, hsu] at hdest
    exact Or.inr ⟨by simpa using hdest, s, hs, Or.inl ⟨rfl, rfl, rfl⟩⟩
  | none =>
    cases hr : o.rescind with
    | some s =>
      have hs := validateSubject_ne_nil (h.rescind s hr)
      rw [hr, Option.isSome_some, eq_comm, Option.isSome_iff_exists] at hkind
      cases hsu : o.support <;> simp [hop, hr, hsu] at hdest
      exact Or.inr ⟨by simpa using hdest, s, hs, Or.inr (Or.inr ⟨rfl, rfl, rfl, hkind⟩)⟩
    | none =>
      cases hsu : o.support with
      | some s =>
        have hs := validateSubject_ne_nil (h.support s hsu)
        simp [hop, hr, hsu] at hdest
        exact Or.inr ⟨by simpa using hdest, s, hs, Or.inr (Or.inl ⟨rfl, rfl, rfl⟩)⟩
      | none =>
        simp [hop, hr, hsu] at hdest
        exact Or.inl ⟨hdest, rfl, rfl, rfl⟩

theorem WellFormed.amount_pos (h : o.WellFormed E) : 1 ≤ o.amount.getD 0 := by
  obtain ⟨n, hn, h1⟩ := h.amount
  rw [hn]
  exact h1

/-- No outflow weighs more than its amount doubled. -/
theorem WellFormed.weight_le (h : o.WellFormed E) : o.weight ≤ 2 * o.amount.getD 0 := by
  have hpos := h.amount_pos
  unfold weight amountIf isPlain isStake
  rcases h.destinations with ⟨ha, ho, -, hs⟩ | ⟨ha, -⟩
  · rw [ha, ho, hs, truthy_none, if_pos rfl, if_neg (by simp)]
    omega
  · rw [ha]
    split_ifs <;> simp_all <;> omega

end Outflow

/-! ## The accounting of one transaction -/

namespace KindTally

variable {k : KindTally} {s x : Str} {a o : ℤ}

/-- What stakes on a subject have drawn from the plain amounts. -/
def drawn (k : KindTally) (x : Str) : ℤ :=
  k.amounts.get x - k.consumed.get x + k.rescinded.get x + k.staked.get x

/-- The same over all subjects. -/
def drawnTotal (k : KindTally) : ℤ :=
  k.amounts.total - k.consumed.total + k.rescinded.total + k.staked.total

theorem drawn_consume : (k.consume s a).drawn x = k.drawn x := by
  simp only [drawn, consume, Tally.get_add]
  ring

theorem drawn_rescind : (k.rescind s a).drawn x = k.drawn x := by
  simp only [drawn, rescind, Tally.get_add]
  split_ifs <;> ring

theorem drawnTotal_consume : (k.consume s a).drawnTotal = k.drawnTotal := by
  simp only [drawnTotal, consume, Tally.total_add]
  ring

theorem drawnTotal_rescind : (k.rescind s a).drawnTotal = k.drawnTotal := by
  simp only [drawnTotal, rescind, Tally.total_add]
  ring

/-- A stake takes its amount from what the subject's stakes released and from the
plain amounts, and draws no subject below zero. -/
theorem stake_spec (k : KindTally) (s : Str) (o : ℤ) (ha : 0 ≤ a) :
    (k.stake s a o).1.drawnTotal + (k.stake s a o).2 = k.drawnTotal + o ∧
      (∀ x, k.drawn x ≤ (k.stake s a o).1.drawn x) ∧
      (k.stake s a o).1.staked.total = k.staked.total + a ∧
      (k.stake s a o).1.consumed = k.consumed ∧ (k.stake s a o).1.rescinded = k.rescinded := by
  unfold stake
  simp only
  split_ifs with hpool hlt
  all_goals refine ⟨?_, fun x => ?_, Tally.total_add .., rfl, rfl⟩
  · simp only [drawnTotal, Tally.total_add, Tally.total_put]
    ring
  · simp only [drawn, Tally.get_add, Tally.get_put]
    split_ifs with hx
    · rw [hx]
      omega
    · omega
  · simp only [drawnTotal, Tally.total_add, Tally.total_put]
    ring
  · simp only [drawn, Tally.get_add, Tally.get_put]
    split_ifs with hx
    · rw [hx]
      omega
    · omega
  · simp only [drawnTotal, Tally.total_add]
    ring
  · simp only [drawn, Tally.get_add]
    split_ifs <;> omega

theorem sum_map_sub_add (f g h : Str → ℤ) (l : List Str) :
    (l.map fun y => f y - g y + h y).sum = (l.map f).sum - (l.map g).sum + (l.map h).sum := by
  induction l with
  | nil => rfl
  | cons y l ih =>
    simp only [List.map_cons, List.sum_cons, ih]
    ring

/-- The mint is at most half of what was drawn, once all pools are empty. -/
theorem mint_le (hzero : ∀ x, k.amounts.get x = 0) (hdrawn : ∀ x, 0 ≤ k.drawn x) :
    2 * k.mint ≤ k.drawnTotal := by
  have hks := (k.staked.keys ++ k.consumed.keys ++ k.rescinded.keys).nodup_dedup
  have hsub : ∀ t ∈ [k.staked, k.consumed, k.rescinded],
      t.keys ⊆ (k.staked.keys ++ k.consumed.keys ++ k.rescinded.keys).dedup := by
    intro t ht y hy
    rw [List.mem_dedup, List.mem_append, List.mem_append]
    simp only [List.mem_cons, List.not_mem_nil, or_false] at ht
    rcases ht with rfl | rfl | rfl
    · exact Or.inl (Or.inl hy)
    · exact Or.inl (Or.inr hy)
    · exact Or.inr hy
  have hsum := fun t ht => Tally.sum_get hks (hsub t ht)
  have htotal : k.drawnTotal = ((k.staked.keys ++ k.consumed.keys ++ k.rescinded.keys).dedup.map
      fun y => k.staked.get y - k.consumed.get y + k.rescinded.get y).sum := by
    rw [sum_map_sub_add, hsum _ (by simp), hsum _ (by simp), hsum _ (by simp),
      drawnTotal, Tally.total_eq_zero hzero]
    ring
  rw [mint, netStakeMint, htotal, ← List.sum_map_mul_left]
  refine List.sum_le_sum fun y _ => ?_
  have h0 := hdrawn y
  have hz := hzero y
  unfold drawn at h0
  omega

theorem halfRescinded_le (k : KindTally) : 2 * k.halfRescinded ≤ k.rescinded.total := by
  rw [halfRescinded, Tally.total, ← List.sum_map_mul_left]
  refine (List.sum_le_sum fun v _ => ?_).trans (le_of_eq (congrArg List.sum (List.map_id _)))
  simp only [id]
  omega

end KindTally

namespace TxnTally

variable {E : Env} {t t' : TxnTally}

/-- What the transaction has taken in and not given out: plain amounts that are
left or were drawn for stakes count twice, stakes once. -/
def worth (t : TxnTally) : ℤ :=
  2 * (t.otherAmounts + t.opposition.drawnTotal + t.support.drawnTotal) +
    (t.opposition.consumed.total + t.support.consumed.total) -
      (t.opposition.staked.total + t.support.staked.total)

/-- No subject's stakes drew less than nothing. -/
def Drawing (t : TxnTally) : Prop := ∀ x, 0 ≤ t.opposition.drawn x ∧ 0 ≤ t.support.drawn x

/-- An inflow adds the weight of what it consumes. -/
theorem worth_addInflow {o : Outflow} (ho : o.WellFormed E) (hr : o.rescind = none)
    (t : TxnTally) :
    (t.addInflow (o.amount.getD 0) o.opposition o.support).worth = t.worth + o.weight := by
  unfold addInflow Outflow.weight Outflow.amountIf Outflow.isPlain Outflow.isStake
  rcases ho.destinations with ⟨ha, h1, -, h2⟩ | ⟨ha, s, hs, ⟨h1, -, h2⟩ | ⟨h1, -, h2⟩ | ⟨-, h3, -⟩⟩
  · rw [ha, h1, h2]
    simp only [truthy_none, Bool.false_eq_true, if_false, if_true, Bool.or_self, worth]
    ring
  · rw [ha, h1, h2, (truthy_some s).2 hs]
    simp only [truthy_none, Bool.false_eq_true, if_false, if_true, Bool.or_false, worth]
    rw [KindTally.drawnTotal_consume, KindTally.consume, Tally.total_add]
    ring
  · rw [ha, h1, h2, (truthy_some s).2 hs]
    simp only [truthy_none, Bool.false_eq_true, if_false, if_true, Bool.false_or, worth]
    rw [KindTally.drawnTotal_consume, KindTally.consume, Tally.total_add]
    ring
  · exact absurd (hr.symm.trans h3) (by simp)

theorem drawing_addInflow {a : ℤ} {op su : Option Str} (h : t.Drawing) :
    (t.addInflow a op su).Drawing := by
  intro x
  unfold addInflow
  split_ifs
  · exact ⟨by simpa [KindTally.drawn_consume] using (h x).1, (h x).2⟩
  · exact ⟨(h x).1, by simpa [KindTally.drawn_consume] using (h x).2⟩
  · exact h x

/-- An outflow takes its own weight, and no subject draws less than before. -/
theorem worth_addOutflow {o : Outflow} (ho : o.WellFormed E) (h : t.addOutflow o = .ok t') :
    t'.worth = t.worth - o.weight ∧ (t.Drawing → t'.Drawing) := by
  have hpos := ho.amount_pos
  unfold addOutflow at h
  unfold Outflow.weight Outflow.amountIf Outflow.isPlain Outflow.isStake
  rcases ho.destinations with ⟨ha, h1, h3, h2⟩ |
    ⟨ha, s, hs, ⟨h1, h3, h2⟩ | ⟨h1, h3, h2⟩ | ⟨h1, h3, h2, k, hk⟩⟩
  · rw [h1, h2, h3] at h
    cases h
    rw [ha, h1, h2]
    simp only [truthy_none, Bool.false_eq_true, if_false, if_true, Bool.or_self, worth]
    exact ⟨by ring, fun hd => hd⟩
  · have hts := (truthy_some s).2 hs
    rw [h1, h2, h3, hts] at h
    cases h
    obtain ⟨hd, hmono, hst, hc, -⟩ := t.opposition.stake_spec s t.otherAmounts
      (le_trans Int.one_nonneg hpos)
    rw [ha, h1, h2, hts]
    simp only [truthy_none, Bool.false_eq_true, if_false, if_true, Bool.or_false, worth,
      Option.getD_some, hc, hst]
    exact ⟨by omega, fun hdr x => ⟨(hdr x).1.trans (hmono x), (hdr x).2⟩⟩
  · have hts := (truthy_some s).2 hs
    rw [h1, h2, h3, hts] at h
    cases h
    obtain ⟨hd, hmono, hst, hc, -⟩ := t.support.stake_spec s t.otherAmounts
      (le_trans Int.one_nonneg hpos)
    rw [ha, h1, h2, hts]
    simp only [truthy_none, Bool.false_eq_true, if_false, if_true, Bool.false_or, worth,
      Option.getD_some, hc, hst]
    exact ⟨by omega, fun hdr x => ⟨(hdr x).1, (hdr x).2.trans (hmono x)⟩⟩
  · have hts := (truthy_some s).2 hs
    rw [h3, hts, hk] at h
    rw [ha, h1, h2]
    cases k
    all_goals
      cases h
      simp only [truthy_none, Bool.false_eq_true, if_false, Bool.or_self, worth,
        KindTally.drawnTotal_rescind]
      refine ⟨by simp [KindTally.rescind], fun hdr x => ?_⟩
      rw [KindTally.drawn_rescind]
      exact hdr x

/-- The loop over the outflows. -/
theorem worth_addOutflows : ∀ {os : List Outflow} {t t' : TxnTally},
    (∀ o ∈ os, o.WellFormed E) → t.addOutflows os = .ok t' →
    t'.worth = t.worth - (os.map Outflow.weight).sum ∧ (t.Drawing → t'.Drawing)
  | [], t, t', _, h => by
    cases h
    exact ⟨by simp, fun hd => hd⟩
  | o :: os, t, t', hwf, h => by
    rw [addOutflows, bind_eq_ok] at h
    obtain ⟨t₁, h1, h2⟩ := h
    rw [List.forall_mem_cons] at hwf
    obtain ⟨hb, hd⟩ := worth_addOutflow hwf.1 h1
    obtain ⟨hb', hd'⟩ := worth_addOutflows hwf.2 h2
    refine ⟨?_, fun hdr => hd' (hd hdr)⟩
    rw [hb', hb, List.map_cons, List.sum_cons]
    ring

/-- **What a balanced transaction lets the coinbase mint** is what it took in and
did not give out. -/
theorem Balanced.metrics_le (hb : t.Balanced) (hd : t.Drawing) : 2 * t.metrics.total ≤ t.worth := by
  obtain ⟨hother, hop, hsu⟩ := hb
  have hop' := Tally.forall_values.1 hop
  have hsu' := Tally.forall_values.1 hsu
  have h1 := KindTally.mint_le hop' fun x => (hd x).1
  have h2 := KindTally.mint_le hsu' fun x => (hd x).2
  have h3 := t.opposition.halfRescinded_le
  have h4 := t.support.halfRescinded_le
  have h5 := Tally.total_eq_zero hop'
  have h6 := Tally.total_eq_zero hsu'
  simp only [worth, metrics, CoinbaseMetrics.total, KindTally.drawnTotal] at *
  omega

end TxnTally

/-! ## Unspent outflows -/

/-- A transaction's outflows under their outpoints. -/
def Transaction.outpoints (t : Transaction) : List (Inflow × Outflow) :=
  t.outflows.mapIdx fun k o => (⟨t.txid, some k⟩, o)

theorem Transaction.mem_outpoints {t : Transaction} {p : Inflow × Outflow} :
    p ∈ t.outpoints ↔ ∃ k, p.1 = ⟨t.txid, some k⟩ ∧ t.getOutflow k = some p.2 := by
  rw [outpoints, List.mem_mapIdx]
  constructor
  · rintro ⟨k, hk, rfl⟩
    exact ⟨k, rfl, List.getElem?_eq_getElem hk⟩
  · rintro ⟨k, h1, h2⟩
    obtain ⟨hk, hget⟩ := List.getElem?_eq_some_iff.1 h2
    exact ⟨k, hk, Prod.ext h1.symm hget⟩

/-- The outflows that no inflow references. -/
def unspentOutflows (txns : List Transaction) : List Outflow :=
  ((txns.flatMap Transaction.outpoints).filter fun p =>
    p.1 ∉ txns.flatMap Transaction.inflows).map Prod.snd

/-- The unspent grains of a kind. -/
def unspentAmount (p : Outflow → Bool) (txns : List Transaction) : ℤ :=
  (((unspentOutflows txns).filter fun o => p o).map fun o => o.amount.getD 0).sum

/-- What is unspent does not depend on the order of the transactions. -/
theorem unspentOutflows_perm {ts us : List Transaction} (h : ts.Perm us) :
    (unspentOutflows ts).Perm (unspentOutflows us) := by
  refine List.Perm.map _ ?_
  have hspent : ∀ i, i ∈ ts.flatMap Transaction.inflows ↔ i ∈ us.flatMap Transaction.inflows :=
    fun i => (h.flatMap_right _).mem_iff
  simp only [hspent]
  exact (h.flatMap_right _).filter _

/-- Nor on signatures and the spelling of timestamps. -/
theorem unspentAmount_of_core {ts us : List Transaction} (p : Outflow → Bool)
    (h : (ts.map Transaction.core).Perm (us.map Transaction.core)) :
    unspentAmount p ts = unspentAmount p us := by
  have hcore : ∀ l : List Transaction, unspentOutflows l = unspentOutflows (l.map Transaction.core) :=
    fun l => by
      rw [unspentOutflows, unspentOutflows, List.flatMap_map, List.flatMap_map]
      rfl
  rw [unspentAmount, unspentAmount, hcore, hcore us]
  exact (((unspentOutflows_perm h).filter _).map _).sum_eq

/-- The history of outputs that sound transactions make. -/
def UtxoSound.history {txns : List Transaction} (h : UtxoSound txns) :
    Utxo.History Inflow Outflow where
  created := txns.flatMap Transaction.outpoints
  spent := txns.flatMap Transaction.inflows
  created_nodup := by
    rw [List.map_flatMap, List.nodup_flatMap]
    refine ⟨fun t _ => ?_, (List.pairwise_map.1 h.txids).imp fun {t u} hne => ?_⟩
    · rw [Transaction.outpoints, List.mapIdx_eq_zipIdx_map, List.map_map]
      refine List.Nodup.of_map Inflow.outflowIdx ?_
      rw [List.map_map]
      refine List.pairwise_map.2 (List.pairwise_iff_getElem.2 fun i j hi hj hij => ?_)
      simp only [List.getElem_zipIdx, Function.comp_apply, zero_add, ne_eq, Option.some.injEq]
      omega
    · intro i hi hj
      obtain ⟨p, hp, rfl⟩ := List.mem_map.1 hi
      obtain ⟨q, hq, hpq⟩ := List.mem_map.1 hj
      obtain ⟨k, hk, -⟩ := Transaction.mem_outpoints.1 hp
      obtain ⟨l, hl, -⟩ := Transaction.mem_outpoints.1 hq
      rw [hk, hl, Inflow.mk.injEq] at hpq
      exact hne hpq.1.symm
  spent_nodup := h.spentOnce
  spent_created := by
    intro i hi
    obtain ⟨t, ht, hit⟩ := List.mem_flatMap.1 hi
    obtain ⟨u, hu, n, o, rfl, ho, -⟩ := h.resolved t ht i hit
    exact List.mem_map.2 ⟨(_, o), List.mem_flatMap.2
      ⟨u, hu, Transaction.mem_outpoints.2 ⟨n, rfl, ho⟩⟩, rfl⟩

theorem UtxoSound.worth_eq {txns : List Transaction} (h : UtxoSound txns) :
    h.history.worth Outflow.weight =
      2 * unspentAmount Outflow.isPlain txns + unspentAmount Outflow.isStake txns := by
  rw [unspentAmount, unspentAmount, Outflow.sum_amountIf, Outflow.sum_amountIf,
    ← List.sum_map_mul_left, ← List.sum_map_add, unspentOutflows, List.map_map]
  rfl

/-! ## One block -/

/-- A transaction's outflows weigh what they weigh under their outpoints. -/
theorem Transaction.sum_outpoints (w : Outflow → ℤ) (t : Transaction) :
    (t.outpoints.map fun p => w p.2).sum = (t.outflows.map w).sum := by
  rw [outpoints, List.mapIdx_eq_zipIdx_map, List.map_map]
  refine congrArg List.sum ?_
  calc (t.outflows.zipIdx.map fun p => w p.1)
      = (t.outflows.zipIdx.map Prod.fst).map w := by rw [List.map_map]; rfl
    _ = t.outflows.map w := by rw [List.zipIdx_map_fst]

/-- The loop over the inflows takes in what their outflows weigh. -/
theorem Ledger.worth_validateTxnInflows {E : Env} {L : Ledger} {txn : Transaction} {f : Bool}
    {H : Utxo.History Inflow Outflow} : ∀ {is : List Inflow} {t t' : TxnTally},
    (∀ i ∈ is, ∀ r, L.validateTxnInflow txn i f = .ok r → ∃ o, H.output i = some o ∧
      o.WellFormed E ∧ o.rescind = none ∧ r = (o.amount.getD 0, o.opposition, o.support)) →
    L.validateTxnInflows txn f t is = .ok t' →
    t'.worth = t.worth + H.cost Outflow.weight is ∧ (t.Drawing → t'.Drawing)
  | [], t, t', _, h => by
    cases h
    exact ⟨(add_zero _).symm, fun hd => hd⟩
  | i :: is, t, t', hres, h => by
    rw [validateTxnInflows, bind_eq_ok] at h
    obtain ⟨r, hr, hrest⟩ := h
    rw [List.forall_mem_cons] at hres
    obtain ⟨o, hout, hwf, hresc, rfl⟩ := hres.1 r hr
    obtain ⟨hworth, hdraw⟩ := worth_validateTxnInflows hres.2 hrest
    refine ⟨?_, fun hd => hdraw (TxnTally.drawing_addInflow hd)⟩
    rw [hworth, TxnTally.worth_addInflow hwf hresc, Utxo.History.cost, Utxo.History.cost,
      List.map_cons, List.sum_cons, hout]
    exact add_assoc _ _ _

/-- An accepted coinbase weighs at most the reward and the side-mints, doubled. -/
theorem Ledger.weight_coinbase_le {E : Env} {b : Block} {m : CoinbaseMetrics} {x : Unit}
    {cb : Transaction} (h : validateBlockCoinbase E b m = .ok x) (hcb : b.coinbase = some cb) :
    (cb.outflows.map Outflow.weight).sum ≤ 2 * (blockReward + m.total) := by
  obtain ⟨cb', hcb', hv, hside, -, hreward⟩ := validateBlockCoinbase_eq_ok.1 h
  obtain rfl := Option.some.inj (hcb.symm.trans hcb')
  have hwf := hv.wellFormed.outflows
  have hle : (cb.outflows.map Outflow.weight).sum ≤
      2 * (cb.outflows.map fun o => o.amount.getD 0).sum := by
    rw [← List.sum_map_mul_left]
    exact List.sum_le_sum fun o ho => (hwf o ho).weight_le
  refine hle.trans (mul_le_mul_of_nonneg_left (le_of_eq ?_) (by decide))
  cases hout : cb.outflows with
  | nil =>
    have := hv.wellFormed.outflowCount.1
    rw [hout] at this
    exact absurd this (by decide)
  | cons o os =>
    have ho : o.amount = some blockReward := hreward o (by rw [Transaction.getOutflow, hout]; rfl)
    rw [hout, List.drop_one, List.tail_cons] at hside
    have hsum : (os.map fun o => o.amount.getD 0) = m.nonzeroAmounts := by
      calc (os.map fun o => o.amount.getD 0)
          = (os.map Outflow.amount).map (·.getD 0) := by rw [List.map_map]; rfl
        _ = (m.nonzeroAmounts.map some).map (·.getD 0) := by rw [hside]
        _ = m.nonzeroAmounts := by rw [List.map_map]; exact List.map_id _
    rw [List.map_cons, List.sum_cons, ho, hsum, CoinbaseMetrics.sum_nonzeroAmounts]
    rfl

/-- The outflows of accepted blocks are well formed. -/
theorem AcceptedChain.wellFormed_outflows {E : Env} {S : Set Str} {bs : List Block}
    (h : AcceptedChain E S bs) : ∀ u ∈ txnsOf bs, ∀ o ∈ u.outflows, o.WellFormed E := by
  intro u hu o ho
  obtain ⟨c, hcm, huc⟩ := List.mem_flatMap.1 hu
  obtain ⟨rules, -, hv⟩ := (h.mem c hcm).1.txn_valid huc
  exact hv.wellFormed.outflows o ho

/-- A spend that the ledger resolves finds the output it names. -/
theorem Ledger.output_of_inflow {E : Env} {ts : List Transaction} {cs : List Block}
    (hs : UtxoSound (ts ++ txnsOf cs))
    (hwf : ∀ u ∈ ts ++ txnsOf cs, ∀ o ∈ u.outflows, o.WellFormed E) {t : Transaction} {i : Inflow}
    {n : ℕ} (hn : i.outflowIdx = some n) {f : Bool} {r : ℤ × Option Str × Option Str}
    (hr : (above ts cs).validateTxnInflow t i f = .ok r) :
    ∃ o, hs.history.output i = some o ∧ o.WellFormed E ∧ o.rescind = none ∧
      r = (o.amount.getD 0, o.opposition, o.support) := by
  obtain ⟨txid, u, o, hx, hu, ho, hresc, -, -, rfl⟩ := validateTxnInflow_eq_ok.1 hr
  have hu' : (ts ++ txnsOf cs).find? (fun t => t.txid = some txid) = some u := Except.ok.inj hu
  have hmem : u ∈ ts ++ txnsOf cs := List.mem_of_find?_eq_some hu'
  have hid : u.txid = some txid := by simpa using List.find?_some hu'
  rw [hn, Option.getD_some] at ho
  have hio : i = ⟨u.txid, some n⟩ := by
    cases i
    simp_all
  refine ⟨o, Utxo.History.output_eq_some.2 (List.mem_flatMap.2 ⟨u, hmem, ?_⟩), ?_, hresc, rfl⟩
  · exact Transaction.mem_outpoints.2 ⟨n, hio, ho⟩
  · exact hwf u hmem o (List.mem_of_getElem? ho)

namespace AcceptedOn

variable {E : Env} {S : Set Str} {b : Block} {bs : List Block}

/-- A spend of the block finds the output it names. -/
theorem output_of_inflow (hc : AcceptedChain E S bs) (h : AcceptedOn E S bs b)
    (hs : UtxoSound (b.txns ++ txnsOf bs)) {t : Transaction} (ht : t ∈ b.regularTxns) {i : Inflow}
    (hi : i ∈ t.inflows) {r : ℤ × Option Str × Option Str}
    (hr : (Ledger.above b.txns bs).validateTxnInflow t i true = .ok r) :
    ∃ o, hs.history.output i = some o ∧ o.WellFormed E ∧ o.rescind = none ∧
      r = (o.amount.getD 0, o.opposition, o.support) := by
  obtain ⟨n, hn⟩ := ((h.valid.regular t ht).1.wellFormed.inflows i hi).outflowIdx
  exact Ledger.output_of_inflow hs (hc.cons h).wellFormed_outflows hn hr

/-- **One transaction.**  What it gives out, and the coinbase for it, weighs no
more than what it spends. -/
theorem weight_txn_le (hc : AcceptedChain E S bs) (h : AcceptedOn E S bs b)
    (hs : UtxoSound (b.txns ++ txnsOf bs)) {t : Transaction} (ht : t ∈ b.regularTxns)
    {m : CoinbaseMetrics} (hm : (Ledger.above b.txns bs).validateBlockTxn t true = .ok m) :
    (t.outflows.map Outflow.weight).sum + 2 * m.total ≤
      hs.history.cost Outflow.weight t.inflows := by
  obtain ⟨t₁, t₂, hin, hout, hbal, rfl⟩ := Ledger.validateBlockTxn_eq_ok.1 hm
  obtain ⟨hw₁, hd₁⟩ := Ledger.worth_validateTxnInflows
    (fun i hi r hr => h.output_of_inflow hc hs ht hi hr) hin
  obtain ⟨hw₂, hd₂⟩ := TxnTally.worth_addOutflows
    (h.valid.regular t ht).1.wellFormed.outflows hout
  have hstart : TxnTally.worth {} = 0 ∧ TxnTally.Drawing {} := by
    refine ⟨?_, fun x => ?_⟩
    · simp [TxnTally.worth, KindTally.drawnTotal]
    · simp [KindTally.drawn]
  have hmint := hbal.metrics_le (hd₂ (hd₁ hstart.2))
  rw [hw₂, hw₁, hstart.1] at hmint
  omega

/-- **One block** adds at most twice the reward. -/
theorem worth_le (hc : AcceptedChain E S bs) (h : AcceptedOn E S bs b)
    (hs : UtxoSound (txnsOf bs)) (hs' : UtxoSound (b.txns ++ txnsOf bs)) :
    hs'.history.worth Outflow.weight ≤ hs.history.worth Outflow.weight + 2 * blockReward := by
  have hgrow : hs'.history.worth Outflow.weight = hs.history.worth Outflow.weight +
      ((b.txns.flatMap Transaction.outpoints).map fun p => p.2.weight).sum -
        hs'.history.cost Outflow.weight (b.txns.flatMap Transaction.inflows) :=
    Utxo.History.worth_grow Outflow.weight (List.flatMap_append ..) (List.flatMap_append ..)
  obtain ⟨cb, hlast, hcb, htxns⟩ := h.valid.txns_eq
  obtain ⟨m, hm, hcoin⟩ := h.metrics
  obtain ⟨ms, hms, htotal⟩ := Ledger.validateBlockTxns_spec hm
  have hweight : ((b.txns.flatMap Transaction.outpoints).map fun p => p.2.weight).sum =
      (b.regularTxns.map fun t => (t.outflows.map Outflow.weight).sum).sum +
        (cb.outflows.map Outflow.weight).sum := by
    rw [List.map_flatMap, List.flatMap_def, List.sum_flatten, List.map_map, htxns,
      List.map_append, List.sum_append]
    simp only [Function.comp_def, Transaction.sum_outpoints, List.map_cons, List.map_nil,
      List.sum_singleton]
  have hcost : hs'.history.cost Outflow.weight (b.txns.flatMap Transaction.inflows) =
      (b.regularTxns.map fun t => hs'.history.cost Outflow.weight t.inflows).sum := by
    have hnil : cb.inflows = [] := List.eq_nil_of_length_eq_zero
      (Nat.le_zero.1 hcb.wellFormed.inflowCount.2)
    have hflat : b.txns.flatMap Transaction.inflows = b.regularTxns.flatMap Transaction.inflows := by
      rw [htxns, List.flatMap_append, List.flatMap_cons, hnil]
      exact List.append_nil _
    rw [hflat, Utxo.History.cost, List.map_flatMap, List.flatMap_def, List.sum_flatten,
      List.map_map]
    rfl
  have hregular : ∀ {ts : List Transaction} {ms : List CoinbaseMetrics},
      (∀ t ∈ ts, t ∈ b.regularTxns) →
      List.Forall₂ (fun t x => (Ledger.above b.txns bs).validateBlockTxn t true = .ok x) ts ms →
      (ts.map fun t => (t.outflows.map Outflow.weight).sum).sum +
        2 * (ms.map CoinbaseMetrics.total).sum ≤
          (ts.map fun t => hs'.history.cost Outflow.weight t.inflows).sum := by
    intro ts ms hsub hall
    induction hall with
    | nil => exact le_refl _
    | cons hx _ ih =>
      rw [List.forall_mem_cons] at hsub
      have h1 := h.weight_txn_le hc hs' hsub.1 hx
      have h2 := ih hsub.2
      simp only [List.map_cons, List.sum_cons]
      omega
  have hreg := hregular (fun t ht => ht) hms
  have hmint := Ledger.weight_coinbase_le hcoin
    (hlast ▸ if_pos h.valid.wellFormed.isSealed : b.coinbase = some cb)
  have hzero : CoinbaseMetrics.total {} = 0 := rfl
  omega

end AcceptedOn

/-- **Every chain of accepted blocks** is worth at most twice its rewards. -/
theorem AcceptedChain.supply_le {E : Env} {S : Set Str} {bs : List Block}
    (hS : E.CollisionFree (insert genesisText S)) (h : AcceptedChain E S bs) :
    2 * unspentAmount Outflow.isPlain (txnsOf bs) + unspentAmount Outflow.isStake (txnsOf bs) ≤
      2 * blockReward * bs.length := by
  rw [← (h.sound hS).worth_eq]
  induction h with
  | nil => exact le_refl _
  | @cons b bs hc hon ih =>
    have hstep := hon.worth_le hc (hc.sound hS) (hon.sound hS hc (hc.sound hS))
    refine hstep.trans ((add_le_add_left ih _).trans (le_of_eq ?_))
    rw [List.length_cons, Nat.cast_succ]
    ring

/-- **The supply bound.**  In every reachable state, on the path to every stored
block, and under every further block that validation accepts on any handle: the
unspent plain grains counted twice and the unspent staked grains once are at most
twice the rewards of the path. -/
theorem supply_bound {E : Env} {S : Set Str} {depth : Option ℕ} {s : Session}
    (hS : E.CollisionFree (insert genesisText S)) (h : Reachable E S depth s) :
    (∀ r ∈ s.db.blocks,
      2 * unspentAmount Outflow.isPlain (txnsOf (s.db.pathBlocks r)) +
          unspentAmount Outflow.isStake (txnsOf (s.db.pathBlocks r)) ≤
        2 * blockReward * (r.idx + 1)) ∧
      ∀ (c : Chain) (now : DateTime) (b : Block) (s' : Session), b.Hashed S →
        s.db.blockByHash b.blockHash = none → c.validateBlock E now b s = .ok s' →
        2 * unspentAmount Outflow.isPlain (b.txns ++ txnsOf (s.db.ancestors b)) +
            unspentAmount Outflow.isStake (b.txns ++ txnsOf (s.db.ancestors b)) ≤
          2 * blockReward * (b.idx.getD 0 + 1) := by
  have hinv := h.inv hS
  refine ⟨fun r hr => ?_, fun c now b s' hb hnew hval => ?_⟩
  · obtain ⟨bs, hbs, hsame⟩ := hinv.ledger.accepted r hr
    have hcons : s.db.pathBlocks r = Block.fromDao s.db r :: (s.db.pathBlocks r).tail := by
      rw [pathBlocks, path, Forest.path, Forest.walk]
      rfl
    rw [unspentAmount_of_core _ (Block.Same.txnsOf hsame),
      unspentAmount_of_core _ (Block.Same.txnsOf hsame)]
    refine (hbs.supply_le hS).trans (le_of_eq ?_)
    rw [hcons] at hsame
    cases hsame with
    | @cons _ c _ cs hhead _ =>
      have hidx : r.idx = cs.length := Option.some.inj (hhead.idx.trans hbs.idx)
      rw [hidx, List.length_cons, Nat.cast_succ]
  · obtain ⟨bs, hbs, hsame, hon⟩ := hinv.accepts hS hb hnew hval
    have hcore : ((b.txns ++ txnsOf (s.db.ancestors b)).map Transaction.core).Perm
        ((txnsOf (b :: bs)).map Transaction.core) := by
      rw [List.map_append, show txnsOf (b :: bs) = b.txns ++ txnsOf bs from rfl, List.map_append]
      exact (Block.Same.txnsOf hsame).append_left _
    rw [unspentAmount_of_core _ hcore, unspentAmount_of_core _ hcore]
    refine ((hbs.cons hon).supply_le hS).trans (le_of_eq ?_)
    rw [(hbs.cons hon).idx, List.length_cons, Nat.cast_succ]
    rfl

/-- The bound on both branches of the fork. -/
theorem supply_bound_fork :
    (∀ r ∈ Sample.state.db.blocks,
      2 * unspentAmount Outflow.isPlain (txnsOf (Sample.state.db.pathBlocks r)) +
          unspentAmount Outflow.isStake (txnsOf (Sample.state.db.pathBlocks r)) ≤
        2 * blockReward * (r.idx + 1)) ∧
      ∀ (c : Chain) (now : DateTime) (b : Block) (s' : Session), b.Hashed Sample.texts →
        Sample.state.db.blockByHash b.blockHash = none →
        c.validateBlock Sample.env now b Sample.state = .ok s' →
        2 * unspentAmount Outflow.isPlain (b.txns ++ txnsOf (Sample.state.db.ancestors b)) +
            unspentAmount Outflow.isStake (b.txns ++ txnsOf (Sample.state.db.ancestors b)) ≤
          2 * blockReward * (b.idx.getD 0 + 1) :=
  supply_bound Sample.collisionFree Sample.reachable

end GumptionChain
