import GumptionChain.Queries

/-!
# Balances are folds

Every query of a chain row equals the fold over the transactions of its root path.

* `Database.Shows.addressTotals_perm`, `Database.Shows.subjectTotals_perm` — what a view
  that holds the rows of the path groups is, up to the order, the totals over the path;
* `Session.Folds` — every query of a row is the fold over some transactions;
* `Session.folds_of_shows` — a row whose view holds the rows of a path answers so over it.
-/

namespace GumptionChain

open Database

/-- The subject an outflow stakes on, for a kind. -/
def Outflow.stake (kind : StakeKind) (o : Outflow) : Option Str :=
  match kind with
  | .support => o.support
  | .opposition => o.opposition

/-- A row as the iterators of `Chain` yield it. -/
def OutflowDAO.shown (o : OutflowDAO) : Str × ℕ × Outflow := (o.txid, o.idx, Outflow.fromDao o)

theorem OutflowDAO.stake_fromDao (kind : StakeKind) (o : OutflowDAO) :
    (Outflow.fromDao o).stake kind = o.stake kind := by
  cases kind <;> rfl

theorem sortTotals_perm {rows rows' : List (Str × ℤ)} (h : rows.Perm rows')
    (hn : (rows.map Prod.fst).Nodup) : sortTotals rows = sortTotals rows' := by
  refine Table.orderBy_eq_of_perm h (List.Nodup.of_map (fun x => (ofLex x).2) ?_)
  rw [List.map_map]
  exact hn

theorem SubjectTotals.sort_perm {sortBy : SubjectOrder} {ascending : Bool}
    {rows rows' : List SubjectTotals} (h : rows.Perm rows')
    (hn : (rows.map SubjectTotals.subject).Nodup) :
    sort sortBy ascending rows = sort sortBy ascending rows' := by
  have hlex : ∀ {κ : Type} (f : SubjectTotals → κ),
      (rows.map fun e => toLex (f e, e.subject)).Nodup := fun f => by
    refine List.Nodup.of_map (fun x => (ofLex x).2) ?_
    rw [List.map_map]
    exact hn
  cases sortBy <;> cases ascending
  case subject.false => exact Table.orderBy_eq_of_perm h hn
  case subject.true => exact Table.orderBy_eq_of_perm h hn
  all_goals exact Table.orderBy_eq_of_perm h (hlex _)

namespace Database

variable {E : Env} {S : Set Str} {db : Database} {r : BlockDAO} {v : ChainView}

/-- Each outflow row of a path comes once, with the one transaction it hangs on. -/
theorem outflowsQ_nodup (hs : db.Schema E) {txns : List TransactionDAO} (hn : txns.Nodup)
    (hsub : ∀ u ∈ txns, u ∈ db.transactions) :
    ((db.outflowsQ txns).map fun p => (p.2.txid, p.2.idx)).Nodup := by
  refine List.Nodup.map_on (fun p hp q hq heq => ?_)
    (Query.join_nodup hn (List.Nodup.of_map _ hs.outflowIds))
  obtain ⟨hu, ho, hid⟩ := mem_outflowsQ.1 hp
  obtain ⟨hw, ho', hid'⟩ := mem_outflowsQ.1 hq
  have hoo : p.2 = q.2 := List.inj_on_of_nodup_map hs.outflowKeys ho ho' heq
  refine Prod.ext (List.inj_on_of_nodup_map hs.transactionIds (hsub _ hu) (hsub _ hw) ?_) hoo
  rw [← hid, ← hid', hoo]

theorem seconds_toCoin (db : Database) (p : TransactionDAO × OutflowDAO) :
    (db.toCoin p).seconds = p.1.timestamp.toSeconds := by
  show ((iso2Dt (dt2Iso p.1.timestamp)).map DateTime.toSeconds).getD 0 = _
  rw [iso2Dt_dt2Iso]
  rfl

theorem sortKey_toCoin (db : Database) (p : TransactionDAO × OutflowDAO) :
    (db.toCoin p).sortKey =
      toLex (OrderDual.toDual p.1.timestamp.toSeconds, toLex (p.1.txid, p.2.idx)) := by
  rw [Coin.sortKey, seconds_toCoin]
  rfl

namespace Shows

variable (h : LedgerInv E S db) (hnum : db.Numbered) (htree : db.Tree) (hr : r ∈ db.blocks)
  (hv : db.Shows r v)

include htree hr in
theorem pathRows_nodup : (db.pathRows r).Nodup := List.Nodup.of_map _ (htree.txidOnce r hr)

include h htree hr hv in
/-- Executing a select on outflows lists the outputs it selects. -/
theorem execute {rows : List (TransactionDAO × OutflowDAO)} {cs : List Coin}
    (hsub : rows.Sublist v.outflows) (hrows : (rows.map db.toCoin).Perm cs) :
    (ChainView.execute rows).map OutflowDAO.shown =
      (Table.orderBy Coin.sortKey cs).map Coin.shown := by
  have hkeys : ((rows.map db.toCoin).map Coin.sortKey).Nodup := by
    have hn := outflowsQ_nodup h.schema (pathRows_nodup htree hr) fun u hu => pathRows_subset hu
    have hn' := ((hv.outflows.map _).nodup_iff.2 hn).sublist (hsub.map _)
    rw [List.map_map]
    refine List.Nodup.of_map (fun x => (ofLex (ofLex x).2)) ?_
    rw [List.map_map]
    refine (List.map_congr_left fun p hp => ?_) ▸ hn'
    obtain ⟨hu, ho, hid⟩ := mem_outflowsQ.1 (hv.outflows.subset (hsub.subset hp))
    simp only [Function.comp_apply, sortKey_toCoin, ofLex_toLex]
    rw [txid_outflow h.schema h.named (pathRows_subset hu) ho hid]
  have hsort : (Table.orderBy (fun p : TransactionDAO × OutflowDAO =>
      toLex (OrderDual.toDual p.1.timestamp.toSeconds, toLex (p.1.txid, p.2.idx))) rows).map
        db.toCoin = Table.orderBy Coin.sortKey (rows.map db.toCoin) := by
    refine List.map_insertionSort _ _ _ _ fun p _ q _ => ?_
    rw [sortKey_toCoin, sortKey_toCoin]
  rw [← Table.orderBy_eq_of_perm hrows hkeys, ← hsort, ChainView.execute, List.map_map,
    List.map_map]
  refine List.map_congr_left fun p hp => ?_
  obtain ⟨hu, ho, hid⟩ :=
    mem_outflowsQ.1 (hv.outflows.subset (hsub.subset (Table.mem_orderBy.1 hp)))
  rw [Function.comp_apply, OutflowDAO.shown,
    txid_outflow h.schema h.named (pathRows_subset hu) ho hid]
  rfl

include h hv in
/-- Summing a select on outflows sums the outputs it selects. -/
theorem sumAmounts {rows : List (TransactionDAO × OutflowDAO)} {cs : List Coin}
    (hsub : rows.Sublist v.outflows) (hrows : (rows.map db.toCoin).Perm cs) :
    ChainView.sumAmounts db rows = (cs.map Coin.amount).sum := by
  have hjoin : Query.join (fun p o => decide (o.id = p.2.id)) rows db.outflows =
      rows.map fun p => (p, p.2) := Query.join_eq_map fun p hp =>
    Query.filter_key_eq h.schema.outflowIds (mem_outflowsQ.1 (hv.outflows.subset (hsub.subset hp))).2.1
  rw [ChainView.sumAmounts, hjoin, List.map_map, ← (hrows.map Coin.amount).sum_eq, List.map_map]
  rfl

include h hnum hv in
/-- The select behind `unspent_outflows` and the balances. -/
theorem select {q : OutflowDAO → Bool} {p : Outflow → Bool}
    (hqp : ∀ o, q o = p (Outflow.fromDao o)) :
    ((v.outflows.filter fun x => q x.2 && v.unspentClause x.2).map db.toCoin).Perm
      ((unspentCoins (txnsOf (db.pathBlocks r))).filter fun c => p c.outflow) :=
  hv.unspent h hnum fun x _ => hqp x.2

include h hnum hv in
/-- A sum over a select on outflows is an unspent amount. -/
theorem sumAmounts_select {q : OutflowDAO → Bool} {p : Outflow → Bool}
    (hqp : ∀ o, q o = p (Outflow.fromDao o)) :
    ChainView.sumAmounts db (v.outflows.filter fun x => q x.2 && v.unspentClause x.2) =
      unspentAmount p (txnsOf (db.pathBlocks r)) := by
  rw [sumAmounts h hv List.filter_sublist (select h hnum hv hqp), ← coinAmount_outflow]
  rfl

include h htree hr hv in
/-- Joining the transactions once more and asking for an address filters by the
address of the transaction. -/
theorem unrescinded_address (subject : Str) (kind : StakeKind) (address : Str) :
    v.unrescindedOutflows subject kind (some address) = v.outflows.filter fun x =>
      (x.2.stake kind = some subject && x.1.address = some address) && v.unspentClause x.2 := by
  have hjoin : Query.join (fun p t => decide (p.2.transactionId = t.id))
      (v.outflows.filter fun p => p.2.stake kind = some subject && v.unspentClause p.2)
      v.transactions = (v.outflows.filter fun p =>
        p.2.stake kind = some subject && v.unspentClause p.2).map fun p => (p, p.1) := by
    refine Query.join_eq_map fun p hp => ?_
    obtain ⟨hu, -, hid⟩ := mem_outflowsQ.1 (hv.outflows.subset (List.mem_of_mem_filter hp))
    have hn : (v.transactions.map TransactionDAO.id).Nodup := by
      refine ((hv.transactions.map _).nodup_iff).2 ((pathRows_nodup htree hr).map_on ?_)
      exact fun t ht w hw heq => List.inj_on_of_nodup_map h.schema.transactionIds
        (pathRows_subset ht) (pathRows_subset hw) heq
    have hone := Query.filter_key_eq hn (hv.transactions.symm.subset hu)
    rw [← hone]
    refine List.filter_congr fun t _ => ?_
    rw [hid, decide_eq_decide]
    exact eq_comm
  rw [ChainView.unrescindedOutflows]
  simp only [hjoin]
  rw [List.filter_map, List.map_map, List.filter_filter]
  show (v.outflows.filter _).map id = _
  rw [List.map_id]
  refine List.filter_congr fun x _ => ?_
  simp only [Function.comp_apply]
  cases decide (x.1.address = some address) <;> simp

include h hnum hv in
/-- The groups of `signing_key_leaderboard`. -/
theorem addressTotals_perm (earliest latest : Option DateTime) :
    (Query.groupBy (fun p : TransactionDAO × OutflowDAO => p.2.address.getD [])
      (fun l => (l.map fun p => p.2.amount).sum) (v.outflows.filter fun p =>
        p.2.address.isSome && v.unspentClause p.2 &&
          inWindow earliest latest p.1.timestamp.toSeconds)).Perm
      (addressTotals earliest latest (txnsOf (db.pathBlocks r))) := by
  set txns := txnsOf (db.pathBlocks r)
  have hrows : ((v.outflows.filter fun p => p.2.address.isSome && v.unspentClause p.2 &&
      inWindow earliest latest p.1.timestamp.toSeconds).map db.toCoin).Perm
        ((unspentCoins txns).filter fun c => c.outflow.address.isSome &&
          inWindow earliest latest c.seconds) := by
    have hperm := hv.unspent h hnum (p := fun c => c.outflow.address.isSome &&
      inWindow earliest latest c.seconds) (q := fun x => x.2.address.isSome &&
        inWindow earliest latest x.1.timestamp.toSeconds) fun x _ => by
          rw [seconds_toCoin]
          rfl
    refine (List.Perm.of_eq ?_).trans hperm
    congr 1
    refine List.filter_congr fun x _ => ?_
    rw [Bool.and_right_comm]
  have hgroups := Query.groupBy_map (fun c : Coin => c.outflow.address.getD [])
    (fun l => (l.map Coin.amount).sum) db.toCoin (v.outflows.filter fun p =>
      p.2.address.isSome && v.unspentClause p.2 &&
        inWindow earliest latest p.1.timestamp.toSeconds)
  have hagg : (fun l : List (TransactionDAO × OutflowDAO) => (l.map fun p => p.2.amount).sum) =
      fun l => ((l.map db.toCoin).map Coin.amount).sum := by
    funext l
    rw [List.map_map]
    rfl
  rw [hagg]
  refine (List.Perm.of_eq hgroups.symm).trans ((Query.groupBy_perm (fun l l' hl =>
    (hl.map Coin.amount).sum_eq) hrows).trans (List.Perm.of_eq ?_))
  have hkeys : (((unspentCoins txns).filter fun c => c.outflow.address.isSome &&
      inWindow earliest latest c.seconds).map fun c => c.outflow.address.getD []) =
        ((unspentCoins txns).filter fun c => inWindow earliest latest c.seconds).filterMap
          fun c => c.outflow.address := by
    induction unspentCoins txns with
    | nil => rfl
    | cons c cs ih =>
      cases ha : c.outflow.address <;> cases hw : inWindow earliest latest c.seconds <;>
        simp [ha, hw, ih]
  rw [Query.groupBy, addressTotals, hkeys]
  refine List.map_congr_left fun a _ => ?_
  rw [coinAmount, List.filter_filter]
  congr 3
  refine List.filter_congr fun c _ => ?_
  cases hc : c.outflow.address with
  | none => simp
  | some x => simp

include h hnum hv in
/-- A leg of the union holds the unspent stakes of its kind. -/
theorem subjectLeg_perm (kind : StakeKind) : (v.subjectLeg kind).Perm
    (((unspentOutflows (txnsOf (db.pathBlocks r))).filter fun o => (o.stake kind).isSome).map
      fun o => ((o.stake kind).getD [], kind, o.amount.getD 0)) := by
  have hperm := select h hnum hv (p := fun o => (o.stake kind).isSome)
    (q := fun o => (o.stake kind).isSome) fun o => by rw [OutflowDAO.stake_fromDao]
  rw [← map_outflow_unspentCoins, List.filter_map, List.map_map]
  refine List.Perm.trans (List.Perm.of_eq ?_) (hperm.map fun c =>
    ((c.outflow.stake kind).getD [], kind, c.amount))
  rw [ChainView.subjectLeg, List.map_map]
  refine List.map_congr_left fun x _ => ?_
  rw [Function.comp_apply]
  show _ = (((Outflow.fromDao x.2).stake kind).getD [], kind, x.2.amount)
  rw [OutflowDAO.stake_fromDao]

/-- The stakes of a kind on one subject, in a leg. -/
theorem filter_leg (kind : StakeKind) (x : Str) (os : List Outflow) :
    ((os.filter fun o => (o.stake kind).isSome).map fun o =>
        ((o.stake kind).getD [], kind, o.amount.getD 0)).filter (fun g => decide (g.1 = x)) =
      (os.filter fun o => decide (o.stake kind = some x)).map fun o =>
        (x, kind, o.amount.getD 0) := by
  rw [List.filter_map, List.filter_filter]
  have hfilter : (os.filter fun o => ((fun g : Str × StakeKind × ℤ => decide (g.1 = x)) ∘
      fun o => ((o.stake kind).getD [], kind, o.amount.getD 0)) o && (o.stake kind).isSome) =
        os.filter fun o => decide (o.stake kind = some x) :=
    List.filter_congr fun o _ => by cases ho : o.stake kind <;> simp [ho]
  rw [hfilter]
  refine List.map_congr_left fun o ho => ?_
  have hx : o.stake kind = some x := by simpa using (List.mem_filter.1 ho).2
  rw [hx, Option.getD_some]

theorem subjects_leg (kind : StakeKind) (os : List Outflow) :
    ((os.filter fun o => (o.stake kind).isSome).map fun o =>
        ((o.stake kind).getD [], kind, o.amount.getD 0)).map Prod.fst =
      os.filterMap fun o => o.stake kind := by
  induction os with
  | nil => rfl
  | cons o os ih => cases ho : o.stake kind <;> simp_all

/-- The sums over a group that holds the stakes of both kinds. -/
theorem of_append (x : Str) (os us : List Outflow) :
    SubjectTotals.of x ((os.map fun o => (StakeKind.opposition, o.amount.getD 0)) ++
        us.map fun o => (StakeKind.support, o.amount.getD 0)) =
      let opposition := (os.map fun o => o.amount.getD 0).sum
      let support := (us.map fun o => o.amount.getD 0).sum
      ⟨x, opposition, support, support - opposition, opposition + support⟩ := by
  simp [SubjectTotals.of, Function.comp_def]

theorem of_perm {x : Str} {l l' : List (StakeKind × ℤ)} (h : l.Perm l') :
    SubjectTotals.of x l = SubjectTotals.of x l' := by
  simp only [SubjectTotals.of, (h.map _).sum_eq]

include h hnum hv in
/-- The groups of `subject_leaderboard`. -/
theorem subjectTotals_perm :
    ((Query.groupBy Prod.fst (fun l => l.map Prod.snd)
        (v.subjectLeg .opposition ++ v.subjectLeg .support)).map fun g =>
          SubjectTotals.of g.1 g.2).Perm
      (subjectTotals (txnsOf (db.pathBlocks r))) := by
  have hunion := (subjectLeg_perm h hnum hv .opposition).append (subjectLeg_perm h hnum hv .support)
  rw [Query.groupBy, List.map_map, subjectTotals]
  refine List.Perm.trans (List.Perm.of_eq (List.map_congr_left fun x _ => ?_))
    (List.Perm.map _ ?_)
  · refine (of_perm ((hunion.filter fun g => decide (g.1 = x)).map Prod.snd)).trans ?_
    rw [List.filter_append, filter_leg, filter_leg, List.map_append, List.map_map, List.map_map]
    exact of_append ..
  · refine ((hunion.map Prod.fst).trans (List.Perm.of_eq ?_)).dedup
    rw [List.map_append, subjects_leg, subjects_leg]
    rfl

end Shows

end Database

/-! ## The queries of a session -/

namespace Session

variable (s : Session) (row : ChainDAO)

/-- `unspent_outflows`. -/
def unspentOutflows (address : Str) : List OutflowDAO × Session :=
  s.ask row fun _ v => ChainView.execute (v.unspentOutflows address)

/-- `signing_key_balance`. -/
def signingKeyBalance (address : Str) : ℤ × Session :=
  s.ask row fun db v => v.signingKeyBalance db address

/-- `unrescinded_outflows`. -/
def unrescindedOutflows (subject : Str) (kind : StakeKind) (address : Option Str) :
    List OutflowDAO × Session :=
  s.ask row fun _ v => ChainView.execute (v.unrescindedOutflows subject kind address)

/-- `opposition_balance`. -/
def oppositionBalance (subject : Str) : ℤ × Session :=
  s.ask row fun db v => v.stakeBalance db subject .opposition

/-- `support_balance`. -/
def supportBalance (subject : Str) : ℤ × Session :=
  s.ask row fun db v => v.stakeBalance db subject .support

/-- `signing_key_leaderboard`. -/
def signingKeyLeaderboard (earliest latest : Option DateTime) (limit : Option ℕ) :
    List (Str × ℤ) × Session :=
  s.ask row fun _ v => v.signingKeyLeaderboard earliest latest limit

/-- `subject_leaderboard`. -/
def subjectLeaderboard (sortBy : SubjectOrder) (ascending : Bool) (limit : Option ℕ) :
    List SubjectTotals × Session :=
  s.ask row fun _ v => v.subjectLeaderboard sortBy ascending limit

/-- Every query of a row is the fold over some transactions. -/
structure Folds (txns : List Transaction) : Prop where
  unspentOutflows : ∀ address, (s.unspentOutflows row address).1.map OutflowDAO.shown =
    listCoins (fun c => c.outflow.address = some address) txns
  signingKeyBalance : ∀ address, (s.signingKeyBalance row address).1 =
    unspentAmount (fun o => o.address = some address) txns
  unrescindedOutflows : ∀ subject kind address,
    (s.unrescindedOutflows row subject kind address).1.map OutflowDAO.shown =
      listCoins (fun c => c.outflow.stake kind = some subject &&
        address.all fun a => c.txn.address = some a) txns
  oppositionBalance : ∀ subject, (s.oppositionBalance row subject).1 =
    unspentAmount (fun o => o.opposition = some subject) txns
  supportBalance : ∀ subject, (s.supportBalance row subject).1 =
    unspentAmount (fun o => o.support = some subject) txns
  signingKeyLeaderboard : ∀ earliest latest limit,
    (s.signingKeyLeaderboard row earliest latest limit).1 =
      Query.limit limit (sortTotals (addressTotals earliest latest txns))
  subjectLeaderboard : ∀ sortBy ascending limit,
    (s.subjectLeaderboard row sortBy ascending limit).1 =
      Query.limit limit (SubjectTotals.sort sortBy ascending (subjectTotals txns))

variable {s row} {E : Env} {S : Set Str} {r : BlockDAO}

/-- **A view that holds a root path answers with the folds over it.** -/
theorem folds_of_shows (h : LedgerInv E S s.db) (hnum : s.db.Numbered) (htree : s.db.Tree)
    (hr : r ∈ s.db.blocks) (hv : s.db.Shows r (s.view row).1) :
    s.Folds row (txnsOf (s.db.pathBlocks r)) := by
  have hdb : (s.view row).2.db = s.db := isLongest_db s row
  refine ⟨fun address => ?_, fun address => ?_, fun subject kind address => ?_, fun subject => ?_,
    fun subject => ?_, fun earliest latest limit => ?_, fun sortBy ascending limit => ?_⟩
  · exact hv.execute h htree hr List.filter_sublist
      (hv.select h hnum (q := fun o => o.address = some address)
        (p := fun o => o.address = some address) fun _ => rfl)
  · show ChainView.sumAmounts (s.view row).2.db _ = _
    rw [hdb]
    exact hv.sumAmounts_select h hnum (q := fun o => o.address = some address)
      (p := fun o => o.address = some address) fun _ => rfl
  · cases address with
    | none =>
      refine hv.execute h htree hr List.filter_sublist ?_
      have hsel := hv.select h hnum (q := fun o => o.stake kind = some subject)
        (p := fun o => o.stake kind = some subject) fun o => by rw [OutflowDAO.stake_fromDao]
      simp only [Option.all_none, Bool.and_true]
      exact hsel
    | some address =>
      show (ChainView.execute ((s.view row).1.unrescindedOutflows subject kind
        (some address))).map _ = _
      rw [hv.unrescinded_address h htree hr]
      refine hv.execute h htree hr List.filter_sublist (hv.unspent h hnum fun x _ => ?_)
      show _ = (((Outflow.fromDao x.2).stake kind = some subject) && _ : Bool)
      rw [OutflowDAO.stake_fromDao]
      rfl
  · show ChainView.sumAmounts (s.view row).2.db _ = _
    rw [hdb]
    exact hv.sumAmounts_select h hnum (q := fun o => o.opposition = some subject)
      (p := fun o => o.opposition = some subject) fun _ => rfl
  · show ChainView.sumAmounts (s.view row).2.db _ = _
    rw [hdb]
    exact hv.sumAmounts_select h hnum (q := fun o => o.support = some subject)
      (p := fun o => o.support = some subject) fun _ => rfl
  · refine congrArg (Query.limit limit)
      (sortTotals_perm (hv.addressTotals_perm h hnum earliest latest) Query.groupBy_keys_nodup)
  · refine congrArg (Query.limit limit)
      (SubjectTotals.sort_perm (hv.subjectTotals_perm h hnum) ?_)
    rw [List.map_map]
    exact Query.groupBy_keys_nodup

end Session

end GumptionChain
