import GumptionChain.Balances
import GumptionChain.Codec.Spelling
import GumptionChain.Reachable

/-!
# Owners

The ledger compares owners as texts, so an address stands for its key only in one
case.

* `Ledger.spends_iff` — a transaction may spend what belongs to its address, letter
  for letter;
* `address_is_key_iff` — two addresses of one key are one owner just when they are
  written in one case.
-/

namespace GumptionChain

open Database

variable {a a' : Str}

/-! ## Spending -/

namespace Ledger

variable {L : Ledger} {txn : Transaction} {i : Inflow} {f : Bool}

/-- The outpoint an inflow names is an output of an address that may still be spent. -/
def Spendable (L : Ledger) (i : Inflow) (f : Bool) (a : Str) : Prop :=
  ∃ txid u o, i.outflowTxid = some txid ∧ L.getTransaction txid = .ok (some u) ∧
    u.getOutflow (i.outflowIdx.getD 0) = some o ∧ o.rescind = none ∧ u.owner o = some a ∧
    ¬ (1 < L.getInflowsCount txid (i.outflowIdx.getD 0) ∨
      (0 < L.getInflowsCount txid (i.outflowIdx.getD 0) ∧ f = false))

/-- A spendable output is spent by transactions of its address and by no others. -/
theorem spends_iff (h : L.Spendable i f a) :
    (∃ r, L.validateTxnInflow txn i f = .ok r) ↔ txn.address = some a := by
  obtain ⟨txid, u, o, hi, hu, ho, hr, howner, hcount⟩ := h
  constructor
  · rintro ⟨r, hok⟩
    obtain ⟨txid', u', o', hi', hu', ho', -, howner', -, -⟩ := validateTxnInflow_eq_ok.1 hok
    obtain rfl := Option.some.inj (hi.symm.trans hi')
    obtain rfl := Option.some.inj (Except.ok.inj (hu.symm.trans hu'))
    obtain rfl := Option.some.inj (ho.symm.trans ho')
    exact howner'.symm.trans howner
  · intro haddr
    exact ⟨_, validateTxnInflow_eq_ok.2
      ⟨txid, u, o, hi, hu, ho, hr, howner.trans haddr.symm, hcount, rfl⟩⟩

end Ledger

/-! ## Counting -/

namespace ChainView

variable {db : Database} {v : ChainView}

theorem mem_execute {rows : List (TransactionDAO × OutflowDAO)} {o : OutflowDAO} :
    o ∈ execute rows ↔ ∃ t, (t, o) ∈ rows := by
  simp only [execute, List.mem_map, Table.mem_orderBy, Prod.exists, exists_eq_right]

/-- An outflow is listed under one address. -/
theorem mem_unspentOutflows {p : TransactionDAO × OutflowDAO} : p ∈ v.unspentOutflows a ↔
    p ∈ v.outflows ∧ p.2.address = some a ∧ v.unspentClause p.2 = true := by
  simp [unspentOutflows, List.mem_filter]

/-- A sum over two kinds of rows that exclude each other. -/
theorem sumAmounts_or (db : Database) (p q : TransactionDAO × OutflowDAO → Bool) :
    ∀ rows : List (TransactionDAO × OutflowDAO), (∀ x ∈ rows, p x = true → q x = false) →
      sumAmounts db (rows.filter fun x => p x || q x) =
        sumAmounts db (rows.filter p) + sumAmounts db (rows.filter q)
  | [], _ => rfl
  | x :: rows, h => by
    have ih := sumAmounts_or db p q rows fun y hy => h y (List.mem_cons_of_mem _ hy)
    have hcons : ∀ x rows, sumAmounts db (x :: rows) = sumAmounts db [x] + sumAmounts db rows := by
      intro x rows
      simp [sumAmounts, Query.join]
    have hx := h x List.mem_cons_self
    cases hp : p x with
    | true =>
      rw [List.filter_cons_of_pos (by simp [hp]), List.filter_cons_of_pos hp,
        List.filter_cons_of_neg (by simp [hx hp]), hcons, ih, hcons x (rows.filter p)]
      ring
    | false =>
      cases hq : q x with
      | true =>
        rw [List.filter_cons_of_pos (by simp [hq]), List.filter_cons_of_neg (by simp [hp]),
          List.filter_cons_of_pos hq, hcons, ih, hcons x (rows.filter q)]
        ring
      | false =>
        rw [List.filter_cons_of_neg (by simp [hp, hq]), List.filter_cons_of_neg (by simp [hp]),
          List.filter_cons_of_neg (by simp [hq]), ih]

end ChainView

namespace Session

variable (s : Session) (row : ChainDAO)

/-- What the unspent outputs of two addresses come to. -/
def balanceOfBoth (a a' : Str) : ℤ :=
  (s.ask row fun db v => ChainView.sumAmounts db (v.outflows.filter fun p =>
    (p.2.address = some a || p.2.address = some a') && v.unspentClause p.2)).1

theorem balanceOfBoth_self : s.balanceOfBoth row a a = (s.signingKeyBalance row a).1 := by
  simp only [balanceOfBoth, signingKeyBalance, ask, ChainView.signingKeyBalance,
    ChainView.unspentOutflows, Bool.or_self]

theorem balanceOfBoth_of_ne (h : a ≠ a') : s.balanceOfBoth row a a' =
    (s.signingKeyBalance row a).1 + (s.signingKeyBalance row a').1 := by
  simp only [balanceOfBoth, signingKeyBalance, ask, ChainView.signingKeyBalance,
    ChainView.unspentOutflows, Bool.and_or_distrib_right]
  refine ChainView.sumAmounts_or _ _ _ _ fun x _ hx => ?_
  simp only [Bool.and_eq_true, decide_eq_true_eq] at hx
  simp [hx.1, h]

end Session

/-! ### A payment in capitals -/

namespace Sample

/-- The other spelling of an address, as a QR code carries it. -/
def loudBob : Str := bob.map Char.toUpper

/-- A transfer to the other spelling. -/
def payment : Transaction where
  timestamp := dt2Iso (minutesPast 5)
  txid := some (fmt064x 0xa004d61aba001a38a9475e56391668147ca701d13769f3455735d662ada5e53e)
  address := some alice
  signature := some (b64encode
    (toBytes 32 0xfa19996f5ce10abc91f33422a682414cc7e3918d9754c85b5d93f782b647f8ad ++
      toBytes 32 0x35781062d90e12fbcb59f6f1436eb72429dca09acc3751d0d24919fceecc4706))
  inflows := [⟨mint.txid, some 0⟩]
  outflows := [{ amount := some 500, address := some loudBob }]

/-- The reward of its block. -/
def paidCoinbase : Transaction where
  timestamp := dt2Iso (minutesPast 10)
  txid := some (fmt064x 0x4027d40d7271532c04ffb4ebf9c2519648729f675545e5fe3e38479f8f8f2814)
  address := some alice
  signature := some (b64encode
    (toBytes 32 0x8814471f8928af8d47fccce46374456ebbdc6a59dc7d04491f8636bcbf760aba ++
      toBytes 32 0x99f0dff446ccc2dfcdd49fd5b574b9db54eb85780fed953b994225271173ba0c))
  outflows := [{ amount := some 500, address := some alice }]
  prevHash := genesis.blockHash

/-- A block with the transfer, on the first one. -/
def paid : Block where
  idx := some 1
  timestamp := some (dt2Iso (minutesPast 10))
  blockHash := some (fmt064x 0x000002ad2c7c26bffb4aff133e2f24725ed12b472bfb20ed2a516d0071a38e53)
  prevHash := genesis.blockHash
  target := maxTarget
  proofOfWork := some 492755
  merkleRoot := some (fmt064x 0x22d65d6b9bf97bcc87ac9046048a07a37e9c3df03547d59104d8fc23826e52e3)
  txns := [payment, paidCoinbase]

/-- What the holder of the key signs under the ordinary address. -/
def collect : Transaction where
  timestamp := dt2Iso (minutesPast 15)
  txid := some (fmt064x 0xffc8e6b003f179b3432328d8f7a317a1cbb52e9c397db09cfe12b869e7557c36)
  address := some bob
  signature := some (b64encode
    (toBytes 32 0x1c6786a252ad0b1bd9b828f6074db01afcef1ab4a8d876932c3ce9f718396183 ++
      toBytes 32 0x9147140fce4983c3680c24be725066de781469c84f2765b5faa5506ee4b53106))
  inflows := [⟨payment.txid, some 0⟩]
  outflows := [{ amount := some 500, address := some bob }]

/-- The hashes and signatures of that block and of that transaction. -/
def paidEnv : Env := Env.knowing [genesis, paid, { paid with txns := [collect] }]

/-- A node with both blocks. -/
def paidState : Session := Node.processAll paidEnv none {} ([genesis, paid].map call)

/-- Its tables. -/
def paidDb : Database where
  blocks := [blockRow 1 none (minutesPast 0) genesis,
    blockRow 2 (some 1) (minutesPast 10) paid]
  transactions := [txnRow 1 (minutesPast 0) mint,
    txnRow 2 (minutesPast 5) payment,
    txnRow 3 (minutesPast 10) paidCoinbase]
  outflows := [outflowRow 1 1 0 mint, outflowRow 2 2 0 payment, outflowRow 3 3 0 paidCoinbase]
  inflows := [⟨1, payment.txid.getD [], 0, mint.txid.getD [], 0, some 1, 2⟩]
  blockTransactions := [(1, 1), (2, 2), (2, 3)]
  chains := [⟨1, paid.blockHash.getD [], 2, 1⟩]
  longestChainBlocks := [⟨1, 0⟩, ⟨2, 1⟩]

theorem paidState_db : paidState.db = paidDb := by decide +kernel

/-- A session opened on those tables. -/
def paidSession : Session := { db := paidState.db }

/-- The row of the chain. -/
def paidChain : ChainDAO := ⟨1, paid.blockHash.getD [], 2, 1⟩

theorem bob_key : ∃ key, decodeAddress bob = some key ∧ decodeAddress loudBob = some key := by
  have hsame : decodeAddress loudBob = decodeAddress bob := by decide +kernel
  obtain ⟨key, hkey⟩ := Option.isSome_iff_exists.1
    (by decide +kernel : (decodeAddress bob).isSome = true)
  exact ⟨key, hkey, hsame.trans hkey⟩

end Sample

/-! ## Two spellings -/

/-- **An address is its key in one case only.**  Two addresses of one key: what belongs
to the first may be spent by a transaction of the second, is listed among the
second's unspent outputs, and counts in its balance, just when both are written in
one case. -/
theorem address_is_key_iff {key : Bytes} (h : decodeAddress a = some key)
    (h' : decodeAddress a' = some key) :
    (∀ (L : Ledger) (txn : Transaction) (i : Inflow) (f : Bool), L.Spendable i f a →
      txn.address = some a' →
        ((∃ r, L.validateTxnInflow txn i f = .ok r) ↔ SameCase a a')) ∧
      (∀ (s : Session) (row : ChainDAO), ∀ o ∈ (s.unspentOutflows row a).1,
        (o ∈ (s.unspentOutflows row a').1 ↔ SameCase a a')) ∧
      ∀ (s : Session) (row : ChainDAO), (s.signingKeyBalance row a).1 ≠ 0 →
        ((s.signingKeyBalance row a').1 = s.balanceOfBoth row a a' ↔ SameCase a a') := by
  have hsame := decodeAddress_eq_iff h h'
  refine ⟨fun L txn i f hspend haddr => ?_, fun s row o ho => ?_, fun s row hne => ?_⟩
  · rw [Ledger.spends_iff hspend, haddr, Option.some.injEq, eq_comm, hsame]
  · obtain ⟨t, ht⟩ := ChainView.mem_execute.1 ho
    obtain ⟨hv, haddr, hunspent⟩ := ChainView.mem_unspentOutflows.1 ht
    rw [← hsame]
    constructor
    · intro ho'
      obtain ⟨u, hu⟩ := ChainView.mem_execute.1 ho'
      exact Option.some.inj (haddr.symm.trans (ChainView.mem_unspentOutflows.1 hu).2.1)
    · rintro rfl
      exact ho
  · rw [← hsame]
    constructor
    · intro hbal
      by_contra hdiff
      rw [s.balanceOfBoth_of_ne row hdiff] at hbal
      omega
    · rintro rfl
      exact (s.balanceOfBoth_self row).symm

/-- Both spellings of the sample's address. -/
theorem address_is_key_iff_bob :
    ((∃ r, (Ledger.ofDb Sample.paidState.db Sample.paid).validateTxnInflow Sample.collect
        ⟨Sample.payment.txid, some 0⟩ false = .ok r) ↔ SameCase Sample.loudBob Sample.bob) ∧
      (Sample.outflowRow 2 2 0 Sample.payment ∈
          (Sample.paidSession.unspentOutflows Sample.paidChain Sample.bob).1 ↔
        SameCase Sample.loudBob Sample.bob) ∧
      ((Sample.paidSession.signingKeyBalance Sample.paidChain Sample.bob).1 =
          Sample.paidSession.balanceOfBoth Sample.paidChain Sample.loudBob Sample.bob ↔
        SameCase Sample.loudBob Sample.bob) := by
  obtain ⟨key, hbob, hloud⟩ := Sample.bob_key
  obtain ⟨hspend, hlist, hbalance⟩ := address_is_key_iff hloud hbob
  refine ⟨hspend _ Sample.collect _ _ ?_ rfl, hlist _ _ _ ?_, hbalance _ _ ?_⟩
  · rw [Sample.paidState_db]
    exact ⟨_, Sample.payment, { amount := some 500, address := some Sample.loudBob }, rfl,
      by decide +kernel, by decide +kernel, rfl, by decide +kernel, by decide +kernel⟩
  all_goals
    rw [Sample.paidSession, Sample.paidState_db]
    decide +kernel

/-- A block pays the upper-case spelling.  Under the ordinary address of the key the
payment is not listed and not counted, and a transaction that spends it is refused,
signed as it is. -/
theorem address_is_key_loud :
    (∃ key, decodeAddress Sample.bob = some key ∧ decodeAddress Sample.loudBob = some key) ∧
      (Sample.paidSession.unspentOutflows Sample.paidChain Sample.loudBob).1 =
        [Sample.outflowRow 2 2 0 Sample.payment] ∧
      (Sample.paidSession.unspentOutflows Sample.paidChain Sample.bob).1 = [] ∧
      (Sample.paidSession.signingKeyBalance Sample.paidChain Sample.loudBob).1 = 500 ∧
      (Sample.paidSession.signingKeyBalance Sample.paidChain Sample.bob).1 = 0 ∧
      Sample.collect.validate Sample.paidEnv false = .ok () ∧
      (Ledger.ofDb Sample.paidState.db Sample.paid).validateTxnInflow Sample.collect
        ⟨Sample.payment.txid, some 0⟩ false = .error .inflowOutflowAddressMismatch := by
  rw [Sample.paidSession, Sample.paidState_db]
  refine ⟨Sample.bob_key, ?_, ?_, ?_, ?_, ?_, ?_⟩
  all_goals decide +kernel

end GumptionChain
