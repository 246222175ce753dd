import GumptionChain.Lib.Pool
import GumptionChain.Stake

/-!
# One transaction's accounts

What `validate_block_txn` accepts, in terms of the amounts that a transaction
consumes, stakes and rescinds.

* `Outflow.booking` — the branch of the loop an outflow takes; `TxnTally.book` does
  what the branch does;
* `TxnTally.pool_addOutflows` — the consumed stake of a kind on a subject is a pool,
  on which rescinds are claims and stakes are uses (`Pool`);
* `Ledger.validateBlockTxn_iff` — so a transaction is accepted when it pays out what
  it takes in and every pool is used up;
* `Ledger.NonNeg.isolates`, `conservation` — which bounds each pool, and gives the metrics;
* `Reachable.conserves` — so in every reachable state, where no amount is negative.
-/

namespace GumptionChain

/-! ## Bookings -/

/-- Where an amount is booked. -/
inductive Booking where
  | plain
  | stake (kind : StakeKind) (subject : Str)
  | rescind (kind : StakeKind) (subject : Str)
  deriving DecidableEq

/-- The branch of `validate_block_txn` that an outflow takes; a rescind of no kind is
refused. -/
def Outflow.booking (o : Outflow) : Option Booking :=
  if truthy o.rescind then o.rescindKind.map fun k => .rescind k (o.rescind.getD [])
  else if truthy o.opposition then some (.stake .opposition (o.opposition.getD []))
  else if truthy o.support then some (.stake .support (o.support.getD []))
  else some .plain

/-- The outflow is booked so. -/
def Outflow.bookedAs (b : Booking) (o : Outflow) : Bool := o.booking = some b

namespace Booking

/-- What an outflow booked so draws from the pool of a kind and a subject. -/
def draw (kind : StakeKind) (x : Str) (amount : ℤ) : Booking → Option Pool.Draw
  | plain => none
  | stake k s => if k = kind ∧ s = x then some (.use amount) else none
  | rescind k s => if k = kind ∧ s = x then some (.claim amount) else none

end Booking

namespace TxnTally

variable {t t' : TxnTally} {kind : StakeKind} {x : Str} {a : ℤ} {b : Booking}

/-- The tally with the books of a kind replaced. -/
def withBooks (t : TxnTally) (k : KindTally) : StakeKind → TxnTally
  | .opposition => { t with opposition := k }
  | .support => { t with support := k }

/-- An outflow's amount booked. -/
def book (t : TxnTally) (a : ℤ) : Booking → TxnTally
  | .plain => { t with otherAmounts := t.otherAmounts - a }
  | .stake k s =>
    let r := (t.books k).stake s a t.otherAmounts
    { t.withBooks r.1 k with otherAmounts := r.2 }
  | .rescind k s => t.withBooks ((t.books k).rescind s a) k

/-- An outflow does what its branch does. -/
theorem addOutflow_eq_ok {o : Outflow} : t.addOutflow o = .ok t' ↔
    ∃ b, o.booking = some b ∧ t' = t.book (o.amount.getD 0) b := by
  unfold addOutflow Outflow.booking
  simp only
  split_ifs
  · cases o.rescindKind with
    | none => simp
    | some k => cases k <;> simp [book, books, withBooks, eq_comm]
  · simp [book, books, withBooks, eq_comm]
  · simp [book, books, withBooks, eq_comm]
  · simp [book, eq_comm]

/-- The pool of a kind and a subject: consumed stake that is not spent. -/
def pool (t : TxnTally) (kind : StakeKind) (x : Str) : ℤ := (t.books kind).amounts.get x

/-- All that was taken in and not given out. -/
def left (t : TxnTally) : ℤ :=
  t.otherAmounts + t.opposition.amounts.total + t.support.amounts.total

/-- Balanced tallies have empty pools and nothing left. -/
theorem balanced_iff : t.Balanced ↔ (∀ kind x, t.pool kind x = 0) ∧ t.left = 0 := by
  have hpools : (∀ kind x, t.pool kind x = 0) ↔
      (∀ x, t.opposition.amounts.get x = 0) ∧ ∀ x, t.support.amounts.get x = 0 := by
    refine ⟨fun h => ⟨h .opposition, h .support⟩, fun h kind => ?_⟩
    cases kind
    · exact h.1
    · exact h.2
  rw [Balanced, Tally.forall_values, Tally.forall_values, hpools, left]
  constructor
  · rintro ⟨ho, hop, hsu⟩
    refine ⟨⟨hop, hsu⟩, ?_⟩
    rw [ho, Tally.total_eq_zero hop, Tally.total_eq_zero hsu]
    rfl
  · rintro ⟨⟨hop, hsu⟩, hl⟩
    rw [Tally.total_eq_zero hop, Tally.total_eq_zero hsu, add_zero, add_zero] at hl
    exact ⟨hl, hop, hsu⟩

end TxnTally

namespace KindTally

variable {k : KindTally} {s x : Str} {a o : ℤ}

/-- A stake takes its amount from its pool and from the plain amounts. -/
theorem total_stake : (k.stake s a o).1.amounts.total + (k.stake s a o).2 =
    k.amounts.total + o - a := by
  unfold stake
  simp only
  split_ifs <;> simp only [Tally.total_put] <;> ring

/-- What a stake leaves of its pool. -/
theorem amounts_stake : (k.stake s a o).1.amounts.get x =
    if s = x then (Pool.Draw.use a).apply (k.amounts.get x) else k.amounts.get x := by
  unfold stake
  by_cases hx : s = x
  · subst hx
    simp only [if_true, Pool.Draw.apply]
    split_ifs with hpool hlt
    · rw [Tally.get_put, if_pos rfl]
      omega
    · rw [Tally.get_put, if_pos rfl]
      omega
    · rfl
  · simp only [if_neg hx]
    split_ifs
    · rw [Tally.get_put, if_neg (Ne.symm hx)]
    · rw [Tally.get_put, if_neg (Ne.symm hx)]
    · rfl

theorem staked_stake : (k.stake s a o).1.staked = k.staked.add s a := by
  unfold stake
  simp only
  split_ifs <;> rfl

theorem consumed_stake : (k.stake s a o).1.consumed = k.consumed := by
  unfold stake
  simp only
  split_ifs <;> rfl

theorem rescinded_stake : (k.stake s a o).1.rescinded = k.rescinded := by
  unfold stake
  simp only
  split_ifs <;> rfl

end KindTally

namespace TxnTally

variable {t t' : TxnTally} {kind : StakeKind} {x : Str} {a : ℤ} {b : Booking}

/-- The pool of a kind and a subject, drawn on. -/
theorem pool_book : (t.book a b).pool kind x =
    ((b.draw kind x a).elim (t.pool kind x) fun d => d.apply (t.pool kind x)) := by
  cases b with
  | plain => cases kind <;> rfl
  | stake k s =>
    by_cases hs : s = x
    · cases k <;> cases kind <;>
        simp [book, pool, books, withBooks, Booking.draw, KindTally.amounts_stake, hs]
    · cases k <;> cases kind <;>
        simp [book, pool, books, withBooks, Booking.draw, KindTally.amounts_stake, hs]
  | rescind k s =>
    by_cases hs : s = x
    · cases k <;> cases kind <;> simp [book, pool, books, withBooks, Booking.draw,
        KindTally.rescind, Tally.get_add, Pool.Draw.apply, hs, sub_eq_add_neg]
    · cases k <;> cases kind <;> simp [book, pool, books, withBooks, Booking.draw,
        KindTally.rescind, Tally.get_add, hs, Ne.symm hs]

/-- Every booking gives out its amount. -/
theorem left_book : (t.book a b).left = t.left - a := by
  cases b with
  | plain =>
    simp only [book, left]
    ring
  | stake k s =>
    cases k
    · have := @KindTally.total_stake t.opposition s a t.otherAmounts
      simp only [book, left, books, withBooks]
      omega
    · have := @KindTally.total_stake t.support s a t.otherAmounts
      simp only [book, left, books, withBooks]
      omega
  | rescind k s =>
    cases k <;> simp only [book, left, books, withBooks, KindTally.rescind, Tally.total_add] <;> ring

theorem staked_book : ((t.book a b).books kind).staked.get x =
    (t.books kind).staked.get x + if b = .stake kind x then a else 0 := by
  cases b with
  | plain => cases kind <;> simp [book, books]
  | stake k s =>
    cases k <;> cases kind <;>
      simp [book, books, withBooks, KindTally.staked_stake, Tally.get_add, eq_comm]
  | rescind k s => cases k <;> cases kind <;> simp [book, books, withBooks, KindTally.rescind]

theorem rescinded_book : ((t.book a b).books kind).rescinded.get x =
    (t.books kind).rescinded.get x + if b = .rescind kind x then a else 0 := by
  cases b with
  | plain => cases kind <;> simp [book, books]
  | stake k s =>
    cases k <;> cases kind <;> simp [book, books, withBooks, KindTally.rescinded_stake]
  | rescind k s =>
    cases k <;> cases kind <;>
      simp [book, books, withBooks, KindTally.rescind, Tally.get_add, eq_comm]

theorem consumed_book : ((t.book a b).books kind).consumed = (t.books kind).consumed := by
  cases b with
  | plain => cases kind <;> rfl
  | stake k s =>
    cases k <;> cases kind <;> simp [book, books, withBooks, KindTally.consumed_stake]
  | rescind k s => cases k <;> cases kind <;> rfl

/-! ### The loop over the outflows -/

/-- The draws on the pool of a kind and a subject, in the order of the outflows. -/
def draws (kind : StakeKind) (x : Str) (os : List Outflow) : List Pool.Draw :=
  os.filterMap fun o => o.booking.bind fun b => b.draw kind x (o.amount.getD 0)

/-- Every outflow is booked somewhere. -/
def Bookable (os : List Outflow) : Prop := ∀ o ∈ os, o.booking.isSome

/-- What the loop does to the pools, to what is left and to the figures. -/
structure Books (t t' : TxnTally) (os : List Outflow) : Prop where
  pool : ∀ kind x, t'.pool kind x = Pool.drain (t.pool kind x) (draws kind x os)
  left : t'.left = t.left - (os.map fun o => o.amount.getD 0).sum
  staked : ∀ kind x, (t'.books kind).staked.get x = (t.books kind).staked.get x +
    (os.map (Outflow.amountIf (Outflow.bookedAs (.stake kind x)))).sum
  rescinded : ∀ kind x, (t'.books kind).rescinded.get x = (t.books kind).rescinded.get x +
    (os.map (Outflow.amountIf (Outflow.bookedAs (.rescind kind x)))).sum
  consumed : ∀ kind, (t'.books kind).consumed = (t.books kind).consumed

theorem draws_cons (o : Outflow) (os : List Outflow) (h : o.booking = some b) :
    draws kind x (o :: os) = (b.draw kind x (o.amount.getD 0)).toList ++ draws kind x os := by
  rw [draws, List.filterMap_cons, h, Option.bind_some]
  cases b.draw kind x (o.amount.getD 0) <;> rfl

theorem amountIf_bookedAs {o : Outflow} {b' : Booking} (h : o.booking = some b) :
    o.amountIf (Outflow.bookedAs b') = if b = b' then o.amount.getD 0 else 0 := by
  simp [Outflow.amountIf, Outflow.bookedAs, h]

/-- **The loop over the outflows** ends unless an outflow is booked nowhere. -/
theorem addOutflows_spec {os : List Outflow} : (Bookable os → ∃ t', t.addOutflows os = .ok t') ∧
    ∀ t', t.addOutflows os = .ok t' → Bookable os ∧ Books t t' os := by
  induction os generalizing t with
  | nil =>
    refine ⟨fun _ => ⟨t, rfl⟩, fun t' h => ?_⟩
    obtain rfl : t = t' := Except.ok.inj h
    refine ⟨fun o ho => absurd ho List.not_mem_nil, ?_⟩
    constructor <;> simp [draws]
  | cons o os ih =>
    refine ⟨fun hb => ?_, fun t' h => ?_⟩
    · obtain ⟨b, hob⟩ := Option.isSome_iff_exists.1 (hb o (List.mem_cons_self ..))
      obtain ⟨t', ht'⟩ := (ih (t := t.book (o.amount.getD 0) b)).1
        fun o ho => hb o (List.mem_cons_of_mem _ ho)
      exact ⟨t', by rw [addOutflows, addOutflow_eq_ok.2 ⟨b, hob, rfl⟩]; exact ht'⟩
    · rw [addOutflows, bind_eq_ok] at h
      obtain ⟨t₁, h1, h2⟩ := h
      obtain ⟨b, hob, rfl⟩ := addOutflow_eq_ok.1 h1
      obtain ⟨hbook, hrest⟩ := ih.2 t' h2
      refine ⟨List.forall_mem_cons.2 ⟨by rw [hob]; rfl, hbook⟩, ?_⟩
      constructor
      · intro kind x
        rw [hrest.pool, pool_book, draws_cons o os hob, Pool.drain_append]
        cases b.draw kind x (o.amount.getD 0) <;> rfl
      · rw [hrest.left, left_book, List.map_cons, List.sum_cons]
        ring
      · intro kind x
        rw [hrest.staked, staked_book, List.map_cons, List.sum_cons, amountIf_bookedAs hob]
        ring
      · intro kind x
        rw [hrest.rescinded, rescinded_book, List.map_cons, List.sum_cons, amountIf_bookedAs hob]
        ring
      · intro kind
        rw [hrest.consumed, consumed_book]

/-- What the draws on a pool claim and use. -/
theorem sums_draws (kind : StakeKind) (x : Str) (os : List Outflow) :
    Pool.claims (draws kind x os) =
        (os.map (Outflow.amountIf (Outflow.bookedAs (.rescind kind x)))).sum ∧
      Pool.uses (draws kind x os) =
        (os.map (Outflow.amountIf (Outflow.bookedAs (.stake kind x)))).sum := by
  induction os with
  | nil => exact ⟨rfl, rfl⟩
  | cons o os ih =>
    cases hob : o.booking with
    | none =>
      rw [draws, List.filterMap_cons, hob, Option.bind_none, ← draws]
      simp [Outflow.amountIf, Outflow.bookedAs, hob, ih]
    | some b =>
      rw [draws_cons o os hob, List.map_cons, List.map_cons, List.sum_cons, List.sum_cons,
        amountIf_bookedAs hob, amountIf_bookedAs hob, ← ih.1, ← ih.2]
      cases b with
      | plain => simp [Booking.draw]
      | stake k s =>
        by_cases hks : k = kind ∧ s = x
        · simp [Booking.draw, hks, Pool.Draw.claimed, Pool.Draw.used]
        · simp [Booking.draw, hks]
      | rescind k s =>
        by_cases hks : k = kind ∧ s = x
        · simp [Booking.draw, hks, Pool.Draw.claimed, Pool.Draw.used]
        · simp [Booking.draw, hks]

/-- Draws of amounts that are not negative. -/
theorem nonNeg_draws {os : List Outflow} (h : ∀ o ∈ os, 0 ≤ o.amount.getD 0) :
    ∀ d ∈ draws kind x os, d.NonNeg := by
  intro d hd
  obtain ⟨o, ho, hd⟩ := List.mem_filterMap.1 hd
  obtain ⟨b, -, hd⟩ := Option.bind_eq_some_iff.1 hd
  have hpos := h o ho
  cases b with
  | plain => cases hd
  | stake k s =>
    simp only [Booking.draw] at hd
    split_ifs at hd
    obtain rfl := Option.some.inj hd
    exact ⟨le_rfl, hpos⟩
  | rescind k s =>
    simp only [Booking.draw] at hd
    split_ifs at hd
    obtain rfl := Option.some.inj hd
    exact ⟨hpos, le_rfl⟩

end TxnTally

/-! ## What a transaction consumes -/

namespace Ledger

variable {L : Ledger} {t : Transaction} {f : Bool} {kind : StakeKind} {x : Str}

/-- The outflow an inflow refers to. -/
def consumedOutflow (L : Ledger) (i : Inflow) : Option Outflow :=
  match L.outflowTxn i.outflowTxid with
  | .ok u => u.bind fun u => u.getOutflow (i.outflowIdx.getD 0)
  | .error _ => none

/-- A figure summed over the outflows that some inflows consume. -/
def cost (L : Ledger) (g : Outflow → ℤ) (is : List Inflow) : ℤ :=
  (is.map fun i => (L.consumedOutflow i).elim 0 g).sum

theorem cost_cons (g : Outflow → ℤ) (i : Inflow) (is : List Inflow) :
    L.cost g (i :: is) = (L.consumedOutflow i).elim 0 g + L.cost g is := List.sum_cons

/-- The outflow that a valid inflow consumes is no rescind. -/
theorem consumedOutflow_of_ok {i : Inflow} {r : ℤ × Option Str × Option Str}
    (h : L.validateTxnInflow t i f = .ok r) : ∃ o, L.consumedOutflow i = some o ∧
      o.rescind = none ∧ r = (o.amount.getD 0, o.opposition, o.support) := by
  obtain ⟨txid, u, o, hx, hu, ho, hr, -, -, rfl⟩ := validateTxnInflow_eq_ok.1 h
  refine ⟨o, ?_, hr, rfl⟩
  rw [consumedOutflow, hx, outflowTxn, hu]
  exact ho

end Ledger

namespace TxnTally

/-- What the loop over the inflows does to the pools, to what is left and to the
figures. -/
structure Takes (L : Ledger) (t t' : TxnTally) (is : List Inflow) : Prop where
  pool : ∀ kind x, t'.pool kind x =
    t.pool kind x + L.cost (Outflow.amountIf (Outflow.bookedAs (.stake kind x))) is
  left : t'.left = t.left + L.cost (fun o => o.amount.getD 0) is
  consumed : ∀ kind x, (t'.books kind).consumed.get x = (t.books kind).consumed.get x +
    L.cost (Outflow.amountIf (Outflow.bookedAs (.stake kind x))) is
  staked : ∀ kind, (t'.books kind).staked = (t.books kind).staked
  rescinded : ∀ kind, (t'.books kind).rescinded = (t.books kind).rescinded

variable {L : Ledger} {t t' : TxnTally}

/-- One inflow. -/
theorem takes_addInflow {i : Inflow} {o : Outflow} (hi : L.consumedOutflow i = some o)
    (hr : o.rescind = none) :
    Takes L t (t.addInflow (o.amount.getD 0) o.opposition o.support) [i] := by
  have hcost : ∀ g : Outflow → ℤ, L.cost g [i] = g o := fun g => by
    rw [Ledger.cost_cons, hi]
    exact add_zero _
  have hbook : ∀ b, Outflow.amountIf (Outflow.bookedAs b) o =
      if o.booking = some b then o.amount.getD 0 else 0 := fun b => by
    simp [Outflow.amountIf, Outflow.bookedAs]
  have hb : o.booking = if truthy o.opposition then
      some (.stake .opposition (o.opposition.getD []))
    else if truthy o.support then some (.stake .support (o.support.getD []))
    else some .plain := by
    rw [Outflow.booking, hr, truthy_none]
    rfl
  unfold addInflow
  split_ifs at hb ⊢
  · constructor
    · intro kind x
      rw [hcost, hbook, hb]
      cases kind <;> simp [pool, books, KindTally.consume, Tally.get_add, eq_comm]
    · rw [hcost]
      simp only [left, KindTally.consume, Tally.total_add]
      ring
    · intro kind x
      rw [hcost, hbook, hb]
      cases kind <;> simp [books, KindTally.consume, Tally.get_add, eq_comm]
    · intro kind
      cases kind <;> rfl
    · intro kind
      cases kind <;> rfl
  · constructor
    · intro kind x
      rw [hcost, hbook, hb]
      cases kind <;> simp [pool, books, KindTally.consume, Tally.get_add, eq_comm]
    · rw [hcost]
      simp only [left, KindTally.consume, Tally.total_add]
      ring
    · intro kind x
      rw [hcost, hbook, hb]
      cases kind <;> simp [books, KindTally.consume, Tally.get_add, eq_comm]
    · intro kind
      cases kind <;> rfl
    · intro kind
      cases kind <;> rfl
  · constructor
    · intro kind x
      rw [hcost, hbook, hb]
      cases kind <;> simp [pool, books]
    · rw [hcost]
      simp only [left]
      ring
    · intro kind x
      rw [hcost, hbook, hb]
      cases kind <;> simp [books]
    · intro kind
      cases kind <;> rfl
    · intro kind
      cases kind <;> rfl

theorem Takes.cons {t₁ : TxnTally} {i : Inflow} {is : List Inflow} (h : Takes L t t₁ [i])
    (h' : Takes L t₁ t' is) : Takes L t t' (i :: is) := by
  have hcost : ∀ g : Outflow → ℤ, L.cost g (i :: is) = L.cost g [i] + L.cost g is := fun g => by
    simp [Ledger.cost]
  constructor
  · intro kind x
    rw [h'.pool, h.pool, hcost, add_assoc]
  · rw [h'.left, h.left, hcost, add_assoc]
  · intro kind x
    rw [h'.consumed, h.consumed, hcost, add_assoc]
  · exact fun kind => (h'.staked kind).trans (h.staked kind)
  · exact fun kind => (h'.rescinded kind).trans (h.rescinded kind)

end TxnTally

namespace Ledger

variable {L : Ledger} {t : Transaction} {f : Bool} {kind : StakeKind} {x : Str} {m : CoinbaseMetrics}

/-- **The loop over the inflows.** -/
theorem takes_validateTxnInflows {is : List Inflow} {tally tally' : TxnTally}
    (h : L.validateTxnInflows t f tally is = .ok tally') : TxnTally.Takes L tally tally' is := by
  induction is generalizing tally with
  | nil =>
    obtain rfl : tally = tally' := Except.ok.inj h
    constructor <;> simp [cost]
  | cons i is ih =>
    rw [validateTxnInflows, bind_eq_ok] at h
    obtain ⟨r, hr, hrest⟩ := h
    obtain ⟨o, hi, hresc, rfl⟩ := consumedOutflow_of_ok hr
    exact (TxnTally.takes_addInflow hi hresc).cons (ih hrest)

/-- The stake of a kind on a subject that a transaction consumes. -/
def consumed (L : Ledger) (t : Transaction) (kind : StakeKind) (x : Str) : ℤ :=
  L.cost (Outflow.amountIf (Outflow.bookedAs (.stake kind x))) t.inflows

/-- All grains a transaction consumes. -/
def consumedGrains (L : Ledger) (t : Transaction) : ℤ :=
  L.cost (fun o => o.amount.getD 0) t.inflows

end Ledger

namespace Transaction

/-- What a transaction stakes of a kind on a subject. -/
def staked (t : Transaction) (kind : StakeKind) (x : Str) : ℤ :=
  t.amountOf (Outflow.bookedAs (.stake kind x))

/-- What a transaction rescinds of a kind on a subject. -/
def rescinded (t : Transaction) (kind : StakeKind) (x : Str) : ℤ :=
  t.amountOf (Outflow.bookedAs (.rescind kind x))

/-- All grains a transaction produces. -/
def producedGrains (t : Transaction) : ℤ := (t.outflows.map fun o => o.amount.getD 0).sum

end Transaction

/-! ## What is accepted -/

namespace Ledger

variable {L : Ledger} {t : Transaction} {f : Bool} {m : CoinbaseMetrics}

/-- The inflows of a transaction are valid. -/
def InflowsValid (L : Ledger) (t : Transaction) (f : Bool) : Prop :=
  ∃ tally, L.validateTxnInflows t f {} t.inflows = .ok tally

/-- **Accepted**: the inflows are valid, every outflow is booked, nothing is left, and
every pool is used up. -/
theorem validateBlockTxn_iff : (∃ m, L.validateBlockTxn t f = .ok m) ↔
    L.InflowsValid t f ∧ TxnTally.Bookable t.outflows ∧ L.consumedGrains t = t.producedGrains ∧
      ∀ kind x, Pool.drain (L.consumed t kind x) (TxnTally.draws kind x t.outflows) = 0 := by
  have hend : ∀ {tally tally' : TxnTally}, L.validateTxnInflows t f {} t.inflows = .ok tally →
      TxnTally.Books tally tally' t.outflows → (tally'.Balanced ↔
        (∀ kind x, Pool.drain (L.consumed t kind x) (TxnTally.draws kind x t.outflows) = 0) ∧
          L.consumedGrains t = t.producedGrains) := by
    intro tally tally' hin hbook
    have htake := takes_validateTxnInflows hin
    have hpool : ∀ kind x, tally'.pool kind x =
        Pool.drain (L.consumed t kind x) (TxnTally.draws kind x t.outflows) := fun kind x => by
      have h0 : TxnTally.pool {} kind x = 0 := by cases kind <;> exact Tally.get_empty x
      rw [hbook.pool, htake.pool, h0, zero_add]
      rfl
    have hleft : tally'.left = L.consumedGrains t - t.producedGrains := by
      have h0 : TxnTally.left {} = 0 := by simp [TxnTally.left]
      rw [hbook.left, htake.left, h0, zero_add]
      rfl
    rw [TxnTally.balanced_iff, hleft, sub_eq_zero]
    simp only [hpool]
  constructor
  · rintro ⟨m, hm⟩
    obtain ⟨tally, tally', hin, hout, hbal, -⟩ := validateBlockTxn_eq_ok.1 hm
    obtain ⟨hb, hbook⟩ := TxnTally.addOutflows_spec.2 tally' hout
    obtain ⟨hpool, hgrains⟩ := (hend hin hbook).1 hbal
    exact ⟨⟨tally, hin⟩, hb, hgrains, hpool⟩
  · rintro ⟨⟨tally, hin⟩, hb, hgrains, hpool⟩
    obtain ⟨tally', hout⟩ := (TxnTally.addOutflows_spec (t := tally)).1 hb
    have hbook := (TxnTally.addOutflows_spec.2 tally' hout).2
    exact ⟨_, validateBlockTxn_eq_ok.2
      ⟨tally, tally', hin, hout, (hend hin hbook).2 ⟨hpool, hgrains⟩, rfl⟩⟩

/-- No amount that a transaction gives or takes is negative: its outflows, and those it
consumes, were validated (`amount >= 1`). -/
structure NonNeg (L : Ledger) (t : Transaction) : Prop where
  given : ∀ o ∈ t.outflows, 0 ≤ o.amount.getD 0
  taken : ∀ i ∈ t.inflows, ∀ o, L.consumedOutflow i = some o → 0 ≤ o.amount.getD 0

theorem NonNeg.consumed_nonneg (h : L.NonNeg t) (kind : StakeKind) (x : Str) :
    0 ≤ L.consumed t kind x := by
  refine List.sum_nonneg fun a ha => ?_
  obtain ⟨i, hi, rfl⟩ := List.mem_map.1 ha
  cases ho : L.consumedOutflow i with
  | none => exact le_rfl
  | some o =>
    rw [Option.elim_some, Outflow.amountIf]
    split_ifs
    · exact h.taken i hi o ho
    · exact le_rfl

/-- The bounds of each pool. -/
theorem NonNeg.bounds (hn : L.NonNeg t) {kind : StakeKind} {x : Str}
    (h : Pool.drain (L.consumed t kind x) (TxnTally.draws kind x t.outflows) = 0) :
    t.rescinded kind x ≤ L.consumed t kind x ∧
      L.consumed t kind x ≤ t.rescinded kind x + t.staked kind x := by
  obtain ⟨hc, hu⟩ := TxnTally.sums_draws kind x t.outflows
  have := Pool.between_of_drain_eq_zero (TxnTally.nonNeg_draws hn.given) h
  rwa [hc, hu] at this

/-- **The figures of an accepted transaction.** -/
theorem books_of_validateBlockTxn {m : CoinbaseMetrics} (h : L.validateBlockTxn t f = .ok m) :
    ∃ tally : TxnTally, m = tally.metrics ∧ ∀ kind x,
      (tally.books kind).staked.get x = t.staked kind x ∧
      (tally.books kind).consumed.get x = L.consumed t kind x ∧
      (tally.books kind).rescinded.get x = t.rescinded kind x := by
  obtain ⟨tally, tally', hin, hout, -, rfl⟩ := validateBlockTxn_eq_ok.1 h
  have htake := takes_validateTxnInflows hin
  have hbook := (TxnTally.addOutflows_spec.2 tally' hout).2
  refine ⟨tally', rfl, fun kind x => ⟨?_, ?_, ?_⟩⟩
  · rw [hbook.staked, htake.staked]
    cases kind <;> exact (congrArg (· + _) (Tally.get_empty x)).trans (zero_add _)
  · rw [hbook.consumed, htake.consumed]
    cases kind <;> exact (congrArg (· + _) (Tally.get_empty x)).trans (zero_add _)
  · rw [hbook.rescinded, htake.rescinded]
    cases kind <;> exact (congrArg (· + _) (Tally.get_empty x)).trans (zero_add _)

end Ledger

namespace KindTally

variable {k : KindTally} {S : Finset Str}

/-- The mint-side metric, over any set of subjects that leaves none out. -/
theorem mint_eq (hnet : ∀ x, 0 ≤ k.net x) (hS : ∀ x ∉ S, k.net x = 0) :
    k.mint = ∑ x ∈ S, k.net x / 2 := by
  have hmax : ∀ x, max 0 (k.net x) / 2 = k.net x / 2 := fun x => by rw [max_eq_right (hnet x)]
  have hkeys : ∀ x ∉ (k.staked.keys ++ k.consumed.keys ++ k.rescinded.keys).dedup,
      k.net x / 2 = 0 := by
    intro x hx
    rw [List.mem_dedup, List.mem_append, List.mem_append, not_or, not_or] at hx
    rw [net, Tally.get_eq_zero hx.1.1, Tally.get_eq_zero hx.1.2, Tally.get_eq_zero hx.2]
    rfl
  rw [mint, netStakeMint, ← Tally.sum_map_eq (List.nodup_dedup _) hkeys
    fun x hx => by rw [hS x hx]; rfl]
  exact congrArg List.sum (List.map_congr_left fun x _ => hmax x)

/-- The rescind-side metric, likewise. -/
theorem halfRescinded_eq (hS : ∀ x ∉ S, k.rescinded.get x = 0) :
    k.halfRescinded = ∑ x ∈ S, k.rescinded.get x / 2 := by
  rw [halfRescinded, Tally.values, List.map_map]
  refine Tally.sum_map_eq k.rescinded.keys_nodup (fun x hx => ?_) fun x hx => ?_
  · rw [Function.comp_apply, Tally.get_eq_zero hx]
    rfl
  · rw [Function.comp_apply, hS x hx]
    rfl

end KindTally

/-! ## Conservation and isolation -/

namespace Ledger

variable {L : Ledger} {t : Transaction} {f : Bool} {m : CoinbaseMetrics}

/-- What a transaction adds to the stakes of a kind on a subject, rescinds included. -/
def net (L : Ledger) (t : Transaction) (kind : StakeKind) (x : Str) : ℤ :=
  t.staked kind x - L.consumed t kind x + t.rescinded kind x

/-- The mint-side metric of a kind, summed over a set of subjects. -/
def halfNet (L : Ledger) (t : Transaction) (kind : StakeKind) (S : Finset Str) : ℤ :=
  ∑ x ∈ S, L.net t kind x / 2

end Ledger

/-- The rescind-side metric of a kind, summed over a set of subjects. -/
def Transaction.halfRescinded (t : Transaction) (kind : StakeKind) (S : Finset Str) : ℤ :=
  ∑ x ∈ S, t.rescinded kind x / 2

/-- The set has every subject that a transaction stakes on, rescinds or consumes. -/
def Ledger.Covers (L : Ledger) (t : Transaction) (S : Finset Str) : Prop :=
  ∀ kind, ∀ x ∉ S, t.staked kind x = 0 ∧ L.consumed t kind x = 0 ∧ t.rescinded kind x = 0

/-- The subject of a stake or a rescind. -/
def Booking.subject? : Booking → Option Str
  | plain => none
  | stake _ s => some s
  | rescind _ s => some s

/-- The subjects of a transaction's outflows and of those it consumes. -/
def Ledger.subjects (L : Ledger) (t : Transaction) : Finset Str :=
  ((t.outflows ++ t.inflows.filterMap L.consumedOutflow).filterMap fun o =>
    o.booking.bind Booking.subject?).toFinset

theorem Ledger.covers_subjects (L : Ledger) (t : Transaction) : L.Covers t (L.subjects t) := by
  intro kind x hx
  have hnot : ∀ o ∈ t.outflows ++ t.inflows.filterMap L.consumedOutflow, ∀ b : Booking,
      b.subject? = some x → o.amountIf (Outflow.bookedAs b) = 0 := by
    intro o ho b hb
    rw [Outflow.amountIf, if_neg]
    intro hbook
    have hob : o.booking = some b := by simpa [Outflow.bookedAs] using hbook
    exact hx (List.mem_toFinset.2 (List.mem_filterMap.2 ⟨o, ho, by rw [hob]; exact hb⟩))
  have hgiven : ∀ b : Booking, b.subject? = some x →
      t.amountOf (Outflow.bookedAs b) = 0 := fun b hb => by
    refine List.sum_eq_zero fun a ha => ?_
    obtain ⟨o, ho, rfl⟩ := List.mem_map.1 ha
    exact hnot o (List.mem_append_left _ ho) b hb
  have htaken : L.consumed t kind x = 0 := by
    refine List.sum_eq_zero fun a ha => ?_
    obtain ⟨i, hi, rfl⟩ := List.mem_map.1 ha
    cases ho : L.consumedOutflow i with
    | none => rfl
    | some o =>
      exact hnot o (List.mem_append_right _ (List.mem_filterMap.2 ⟨i, hi, ho⟩)) _ rfl
  exact ⟨hgiven _ rfl, htaken, hgiven _ rfl⟩

/-- **Isolation.**  Of every kind and subject an accepted transaction consumes at least what
it rescinds, and at most what it rescinds and stakes again. -/
theorem Ledger.NonNeg.isolates {L : Ledger} {t : Transaction} {f : Bool} {m : CoinbaseMetrics}
    (hn : L.NonNeg t) (h : L.validateBlockTxn t f = .ok m) (kind : StakeKind) (x : Str) :
    t.rescinded kind x ≤ L.consumed t kind x ∧
      L.consumed t kind x ≤ t.rescinded kind x + t.staked kind x ∧ 0 ≤ L.net t kind x := by
  obtain ⟨-, -, -, hpool⟩ := Ledger.validateBlockTxn_iff.1 ⟨m, h⟩
  obtain ⟨hlow, hhigh⟩ := hn.bounds (hpool kind x)
  refine ⟨hlow, hhigh, ?_⟩
  rw [Ledger.net]
  omega

/-- The metrics of an accepted transaction. -/
theorem Ledger.NonNeg.metrics_eq {L : Ledger} {t : Transaction} {f : Bool} {m : CoinbaseMetrics}
    (hn : L.NonNeg t) (h : L.validateBlockTxn t f = .ok m) {S : Finset Str} (hS : L.Covers t S) :
    m = ⟨L.halfNet t .opposition S, t.halfRescinded .opposition S,
      L.halfNet t .support S, t.halfRescinded .support S⟩ := by
  have hnet : ∀ kind x, 0 ≤ L.net t kind x := fun kind x => (hn.isolates h kind x).2.2
  obtain ⟨tally, rfl, hfig⟩ := Ledger.books_of_validateBlockTxn h
  have heq : ∀ kind x, (tally.books kind).net x = L.net t kind x := fun kind x => by
    rw [KindTally.net, (hfig kind x).1, (hfig kind x).2.1, (hfig kind x).2.2, Ledger.net]
  have hmint : ∀ kind, (tally.books kind).mint = L.halfNet t kind S := fun kind => by
    rw [KindTally.mint_eq (S := S) (fun x => (heq kind x).symm ▸ hnet kind x) fun x hx => by
      rw [heq, Ledger.net, (hS kind x hx).1, (hS kind x hx).2.1, (hS kind x hx).2.2]
      rfl]
    exact Finset.sum_congr rfl fun x _ => by rw [heq]
  have hhalf : ∀ kind, (tally.books kind).halfRescinded = t.halfRescinded kind S := fun kind => by
    rw [KindTally.halfRescinded_eq (S := S) fun x hx => by
      rw [(hfig kind x).2.2, (hS kind x hx).2.2]]
    exact Finset.sum_congr rfl fun x _ => by rw [(hfig kind x).2.2]
  rw [TxnTally.metrics, ← hmint, ← hmint, ← hhalf, ← hhalf]
  rfl

/-- **Conservation and isolation.**  An accepted transaction produces what it consumes;
of every kind and subject it consumes at least what it rescinds, and at most what it
rescinds and stakes again; and its metrics are half of what it stakes newly and half of
what it rescinds, subject by subject.  What it consumes counts an inflow as often as it is
there.  `NonNeg` is the wire model's bound on the amounts (`LedgerInv.nonNeg`). -/
theorem conservation {L : Ledger} {t : Transaction} {f : Bool} {m : CoinbaseMetrics}
    (hn : L.NonNeg t) (h : L.validateBlockTxn t f = .ok m) :
    L.consumedGrains t = t.producedGrains ∧
    (∀ kind x, t.rescinded kind x ≤ L.consumed t kind x ∧
      L.consumed t kind x ≤ t.rescinded kind x + t.staked kind x ∧ 0 ≤ L.net t kind x) ∧
    m = ⟨L.halfNet t .opposition (L.subjects t), t.halfRescinded .opposition (L.subjects t),
      L.halfNet t .support (L.subjects t), t.halfRescinded .support (L.subjects t)⟩ := by
  obtain ⟨-, -, hgrains, -⟩ := Ledger.validateBlockTxn_iff.1 ⟨m, h⟩
  exact ⟨hgrains, hn.isolates h, hn.metrics_eq h (L.covers_subjects t)⟩

/-- Where no inflow is repeated, each output that is consumed counts once. -/
theorem Ledger.cost_of_nodup {L : Ledger} {g : Outflow → ℤ} {is : List Inflow} (h : is.Nodup) :
    L.cost g is = ∑ i ∈ is.toFinset, (L.consumedOutflow i).elim 0 g :=
  (List.sum_toFinset _ h).symm

/-- **Conservation without repeated inflows**: the grains and the stakes of the outputs that
are consumed, each counted once. -/
theorem Ledger.NonNeg.conserves_of_nodup {L : Ledger} {t : Transaction} {f : Bool}
    {m : CoinbaseMetrics} (hn : L.NonNeg t) (h : L.validateBlockTxn t f = .ok m)
    (hnodup : t.inflows.Nodup) :
    ∑ i ∈ t.inflows.toFinset, (L.consumedOutflow i).elim 0 (fun o => o.amount.getD 0) =
        t.producedGrains ∧
      ∀ kind x, t.rescinded kind x ≤ ∑ i ∈ t.inflows.toFinset,
          (L.consumedOutflow i).elim 0 (Outflow.amountIf (Outflow.bookedAs (.stake kind x))) ∧
        ∑ i ∈ t.inflows.toFinset,
          (L.consumedOutflow i).elim 0 (Outflow.amountIf (Outflow.bookedAs (.stake kind x))) ≤
            t.rescinded kind x + t.staked kind x := by
  obtain ⟨-, -, hgrains, -⟩ := Ledger.validateBlockTxn_iff.1 ⟨m, h⟩
  refine ⟨(Ledger.cost_of_nodup hnodup).symm.trans hgrains, fun kind x => ?_⟩
  obtain ⟨hlow, hhigh, -⟩ := hn.isolates h kind x
  rw [← Ledger.cost_of_nodup hnodup]
  exact ⟨hlow, hhigh⟩

open Database in
/-- In a reachable state no amount is negative that a validated transaction gives or
takes, on the ledger of a block whose own transactions were validated. -/
theorem LedgerInv.nonNeg {E : Env} {S : Set Str} {db : Database} (h : LedgerInv E S db)
    (htree : db.Tree) {b : Block} (hb : ∀ u ∈ b.txns, ∀ o ∈ u.outflows, o.WellFormed E)
    {t : Transaction} (ht : ∀ o ∈ t.outflows, o.WellFormed E) : (Ledger.ofDb db b).NonNeg t := by
  have hstored : ∀ r, ∀ u ∈ txnsOf (db.pathBlocks r), ∀ o ∈ u.outflows, o.WellFormed E := by
    intro r u hu o ho
    obtain ⟨c, hc, huc⟩ := List.mem_flatMap.1 hu
    obtain ⟨r', -, rfl⟩ := List.mem_map.1 hc
    obtain ⟨row, hrow, rfl⟩ := mem_fromDao_txns.1 huc
    obtain ⟨v, rules, -, hv, -, hcore⟩ := h.txnRows row (rowsOf_subset hrow)
    rw [(Transaction.core_eq_iff.1 hcore).2.2.2.1] at ho
    exact hv.wellFormed.outflows o ho
  -- the ledger of the block knows no other transactions
  have hknown : ∀ txid u, (Ledger.ofDb db b).getTransaction txid = .ok (some u) →
      ∀ o ∈ u.outflows, o.WellFormed E := by
    intro txid u hu
    cases hr : db.blockByHash b.blockHash with
    | some r =>
      rw [Ledger.ofDb_saved h.schema htree hr] at hu
      exact hstored r u (List.mem_of_find?_eq_some (Except.ok.inj hu))
    | none =>
      rw [Ledger.ofDb_unsaved h.schema htree hr] at hu
      rcases List.mem_append.1 (List.mem_of_find?_eq_some (Except.ok.inj hu)) with hu | hu
      · exact hb u hu
      · unfold Database.ancestors at hu
        cases hp : db.blockByHash b.prevHash with
        | none =>
          rw [hp] at hu
          cases hu
        | some p =>
          rw [hp] at hu
          exact hstored p u hu
  have hpos : ∀ o : Outflow, o.WellFormed E → 0 ≤ o.amount.getD 0 := fun o ho =>
    (show (0 : ℤ) ≤ 1 by norm_num).trans ho.amount_pos
  refine ⟨fun o ho => hpos o (ht o ho), fun i _ o ho => ?_⟩
  unfold Ledger.consumedOutflow at ho
  split at ho
  · rename_i u hu
    obtain ⟨u, rfl, hout⟩ := Option.bind_eq_some_iff.1 ho
    unfold Ledger.outflowTxn at hu
    split at hu
    · cases hu
    · exact hpos o (hknown _ u hu o (List.mem_of_getElem? hout))
  · cases ho

/-- **Conservation in a reachable state**: a transaction of a block whose outflows the wire
model accepts conserves, as the tables show its inputs. -/
theorem Reachable.conserves {E : Env} {S : Set Str} {depth : Option ℕ} {s : Session}
    (hS : E.CollisionFree (insert genesisText S)) (h : Reachable E S depth s) {b : Block}
    (hb : ∀ u ∈ b.txns, ∀ o ∈ u.outflows, o.WellFormed E) {t : Transaction} (ht : t ∈ b.txns)
    {f : Bool} {m : CoinbaseMetrics} (hok : (Ledger.ofDb s.db b).validateBlockTxn t f = .ok m) :
    (Ledger.ofDb s.db b).consumedGrains t = t.producedGrains ∧
      ∀ kind x, t.rescinded kind x ≤ (Ledger.ofDb s.db b).consumed t kind x ∧
        (Ledger.ofDb s.db b).consumed t kind x ≤ t.rescinded kind x + t.staked kind x := by
  have hinv := h.inv hS
  have hn := hinv.ledger.nonNeg (hinv.tree hS) hb (hb t ht)
  obtain ⟨-, -, hgrains, -⟩ := Ledger.validateBlockTxn_iff.1 ⟨m, hok⟩
  exact ⟨hgrains, fun kind x => ⟨(hn.isolates hok kind x).1, (hn.isolates hok kind x).2.1⟩⟩

/-! ### A stake, half rescinded -/

namespace Sample

/-- A block to come on the one with the stake. -/
def next : Block where
  prevHash := left.blockHash
  idx := some 2

/-- The ledger it shows. -/
def nextLedger : Ledger := Ledger.ofDb stateDb next

/-- Half of the stake rescinded, and all of it staked again with a plain amount. -/
def restake : Transaction where
  timestamp := dt2Iso (minutesPast 15)
  address := some alice
  inflows := [⟨spend.txid, some 1⟩, ⟨leftCoinbase.txid, some 1⟩]
  outflows := [
    { amount := some 100
      rescind := some ['b', 'G', 'V', 'h', 'b', 'g']
      rescindKind := some .opposition },
    { amount := some 200, opposition := some ['b', 'G', 'V', 'h', 'b', 'g'] }]

theorem nonNeg_restake : nextLedger.NonNeg restake := by
  have hgiven : restake.outflows.all (fun o => 0 ≤ o.amount.getD 0) = true := by decide +kernel
  have htaken : restake.inflows.all (fun i =>
      (nextLedger.consumedOutflow i).all fun o => 0 ≤ o.amount.getD 0) = true := by decide +kernel
  refine ⟨fun o ho => of_decide_eq_true (List.all_eq_true.1 hgiven o ho), fun i hi o ho => ?_⟩
  have := List.all_eq_true.1 htaken i hi
  rw [ho] at this
  exact of_decide_eq_true this

end Sample

/-- That transaction mints half of the 100 grains it stakes newly, and releases half of
those it rescinds. -/
theorem conservation_restake :
    Sample.nextLedger.consumedGrains Sample.restake = Sample.restake.producedGrains ∧
    (∀ kind x, Sample.restake.rescinded kind x ≤ Sample.nextLedger.consumed Sample.restake kind x ∧
      Sample.nextLedger.consumed Sample.restake kind x ≤
        Sample.restake.rescinded kind x + Sample.restake.staked kind x ∧
      0 ≤ Sample.nextLedger.net Sample.restake kind x) ∧
    (⟨50, 50, 0, 0⟩ : CoinbaseMetrics) =
      ⟨Sample.nextLedger.halfNet Sample.restake .opposition
          (Sample.nextLedger.subjects Sample.restake),
        Sample.restake.halfRescinded .opposition (Sample.nextLedger.subjects Sample.restake),
        Sample.nextLedger.halfNet Sample.restake .support
          (Sample.nextLedger.subjects Sample.restake),
        Sample.restake.halfRescinded .support (Sample.nextLedger.subjects Sample.restake)⟩ :=
  conservation (f := false) Sample.nonNeg_restake (by decide +kernel)

end GumptionChain
