import GumptionChain.RoundTrip
import GumptionChain.Wire

/-!
# Assembled blocks and the order of their transactions

A block is gathered (`link`, `add_txn`), sealed and solved.  `seal` sorts by the order of
the dataclass and appends the coinbase; `from_json`, `from_dao` and the Merkle tree sort
by the canonical key.

* `Gathered.regular` — every transaction gathered is a valid regular one;
* `canonicalOrder_eq_of_perm` — a strictly sorted list is the canonical order of every
  permutation of it;
* `wire_round_trip` — an assembled block is read back from its JSON, in whatever order
  the transactions stand there.
-/

namespace GumptionChain

namespace Block

variable {E : Env} {b : Block}

/-- The blocks that `Block()`, `link` and `add_txn` build; the target is one that the
wire model accepts, as those of `Chain.link_block` are. -/
inductive Gathered (E : Env) : Block → Prop where
  | new : Gathered E {}
  | link {b : Block} (idx : ℕ) (prevHash : Str) {target : Str} (h : Gathered E b)
      (ht : validateMillHash target = true) : Gathered E (b.link idx prevHash target)
  | add {b b' : Block} {t : Transaction} (h : Gathered E b)
      (ht : b.addTxn E t false = .ok b') : Gathered E b'

theorem addTxn_eq_ok {b' : Block} {t : Transaction} {coinbase : Bool}
    (h : b.addTxn E t coinbase = .ok b') :
    b' = { b with txns := b.txns ++ [t] } ∧ b.isSealed = false ∧
      t.Valid E (if coinbase then coinbaseTransactionModel else regularTransactionModel) := by
  rw [addTxn, ensure_bind] at h
  obtain ⟨hsealed, h⟩ := h
  cases coinbase with
  | false =>
    obtain ⟨x, hx, h⟩ := bind_eq_ok.1 h
    exact ⟨(Except.ok.inj h).symm, hsealed, (validateTransaction_eq_ok.1 hx).1⟩
  | true =>
    obtain ⟨x, hx, h⟩ := bind_eq_ok.1 h
    exact ⟨(Except.ok.inj h).symm, hsealed, Transaction.validate_eq_ok.1 hx⟩

theorem Gathered.regular (h : Gathered E b) : ∀ t ∈ b.txns, t.Valid E regularTransactionModel := by
  induction h with
  | new => exact fun t ht => absurd ht List.not_mem_nil
  | link idx prevHash h ht ih => exact ih
  | add h ht ih =>
    obtain ⟨rfl, -, hv⟩ := addTxn_eq_ok ht
    intro t ht
    rcases List.mem_append.1 ht with ht | ht
    · exact ih t ht
    · exact List.mem_singleton.1 ht ▸ hv

theorem Gathered.target (h : Gathered E b) : validateMillHash b.target = true := by
  induction h with
  | new => decide +kernel
  | link idx prevHash h ht ih => exact ht
  | add h ht ih =>
    obtain ⟨rfl, -, -⟩ := addTxn_eq_ok ht
    exact ih

theorem Gathered.version (h : Gathered E b) : b.version = ['1'] := by
  induction h with
  | new => rfl
  | link idx prevHash h ht ih => exact ih
  | add h ht ih =>
    obtain ⟨rfl, -, -⟩ := addTxn_eq_ok ht
    exact ih

/-- Gather valid regular transactions that stand in order. -/
theorem Gathered.append {l : List Transaction} (hb : Gathered E b) (hsealed : b.timestamp = none)
    (hv : ∀ t ∈ l, t.Valid E regularTransactionModel)
    (hchain : (b.lastTxn.toList ++ l).IsChain fun p t => ¬ t.lt p) :
    Gathered E { b with txns := b.txns ++ l } := by
  induction l generalizing b with
  | nil =>
    rw [List.append_nil]
    exact hb
  | cons t l ih =>
    have hvalidate : b.validateTransaction E t b.lastTxn = .ok () := by
      refine validateTransaction_eq_ok.2 ⟨hv t (List.mem_cons_self ..), ?_, fun p hp => ?_⟩
      · intro blockTs txnTs hts
        rw [timestampDt, hsealed] at hts
        exact absurd hts (by simp)
      · rw [hp] at hchain
        exact List.isChain_cons_cons.1 hchain |>.1
    have hadd : b.addTxn E t false = .ok { b with txns := b.txns ++ [t] } := by
      rw [addTxn, ensure_of (by simp [isSealed, hsealed]), ok_bind, if_neg (by simp), hvalidate]
      rfl
    have hlast : ({ b with txns := b.txns ++ [t] } : Block).lastTxn = some t :=
      List.getLast?_concat ..
    have hrest := ih (hb.add hadd) hsealed (fun u hu => hv u (List.mem_cons_of_mem _ hu)) (by
      rw [hlast]
      cases hprev : b.lastTxn with
      | none => simpa [hprev] using hchain
      | some p =>
        rw [hprev] at hchain
        exact (List.isChain_cons_cons.1 hchain).2)
    rwa [List.append_assoc] at hrest

/-! ## Sealing and solving -/

variable {key : SigningKey} {reward : ℤ} {metrics : CoinbaseMetrics} {coinbaseIso nowIso : Str}

/-- What `seal` leaves: the sorted transactions, a valid coinbase for the block's
predecessor, and the digest of them all. -/
theorem sealWith_eq_ok {b₁ : Block}
    (h : b.sealWith E key reward metrics coinbaseIso nowIso = .ok b₁) :
    ∃ idx prevHash cb, b.idx = some idx ∧ b.prevHash = some prevHash ∧
      cb = Transaction.coinbase E key reward metrics prevHash coinbaseIso ∧
      cb.Valid E coinbaseTransactionModel ∧
      b₁ = { b with
        txns := sortTxns b.txns ++ [cb]
        merkleRoot := ({ b with txns := sortTxns b.txns ++ [cb] } : Block).getMerkleRoot E
        timestamp := some nowIso } := by
  rw [sealWith, ensure_bind, ensure_bind] at h
  obtain ⟨-, ⟨hprev, hidx⟩, h⟩ := h
  obtain ⟨idx, hidx⟩ := Option.ne_none_iff_exists'.1 hidx
  obtain ⟨prevHash, hprev⟩ := Option.ne_none_iff_exists'.1 hprev
  obtain ⟨b', hb', h⟩ := bind_eq_ok.1 h
  obtain ⟨cb, hcb, hadd⟩ := bind_eq_ok.1 hb'
  rw [createCoinbase] at hcb
  simp only [hprev, Except.ok.injEq] at hcb
  obtain ⟨rfl, -, hv⟩ := addTxn_eq_ok hadd
  exact ⟨idx, prevHash, cb, hidx, hprev, hcb.symm, hv, (Except.ok.inj h).symm⟩

theorem solve_eq_ok {pow : ℕ} {b' : Block} (h : b.solve E pow = .ok b') :
    b.validateProofOfWork E pow = some true ∧
      b' = { b with
        proofOfWork := some pow
        blockHash := some (E.millHashStr (b.potentialHeader (some pow))) } := by
  unfold solve at h
  split at h
  · exact absurd h (by simp)
  · exact absurd h (by simp)
  · rename_i hpow
    exact ⟨hpow, (Except.ok.inj h).symm⟩

/-! ## One order -/

/-- The order of the dataclass, as a linear order on keys. -/
theorem not_txn_lt_iff {t u : Transaction} :
    ¬ u.lt t ↔ toLex (t.timestamp, t.txid.getD []) ≤ toLex (u.timestamp, u.txid.getD []) := by
  rw [← not_lt, Prod.Lex.toLex_lt_toLex, Transaction.lt]

instance : Std.Total fun t u : Transaction => ¬ u.lt t :=
  ⟨fun t u => by rw [not_txn_lt_iff, not_txn_lt_iff]; exact le_total _ _⟩

instance : IsTrans Transaction fun t u => ¬ u.lt t :=
  ⟨fun t u v => by rw [not_txn_lt_iff, not_txn_lt_iff, not_txn_lt_iff]; exact le_trans⟩

/-- On regular transactions `sort` orders by the canonical key. -/
theorem sortTxns_pairwise {l : List Transaction} (h : ∀ t ∈ l, t.isCoinbase = false) :
    (sortTxns l).Pairwise fun t u => sortKey t ≤ sortKey u := by
  have hsorted : (sortTxns l).Pairwise fun t u => ¬ u.lt t := List.pairwise_insertionSort _ _
  refine hsorted.imp_of_mem fun {t u} ht hu hle => ?_
  have hmem : ∀ {v}, v ∈ sortTxns l → v ∈ l := fun hv => (List.mem_insertionSort _).1 hv
  exact (sortKey_le_iff ((h t (hmem ht)).trans (h u (hmem hu)).symm)).2 hle

/-- **One order.**  Every permutation of a list that is sorted by the canonical key, with
distinct identifiers, is brought to that list. -/
theorem canonicalOrder_eq_of_perm {l l' : List Transaction} (hp : l'.Perm l)
    (hl : l.Pairwise fun t u => sortKey t ≤ sortKey u)
    (hids : (l.map fun t => t.txid.getD []).Nodup) : canonicalOrder l' = l := by
  have hperm : (canonicalOrder l').Perm l := (List.perm_insertionSort _ _).trans hp
  refine hperm.eq_of_pairwise ?_ (List.pairwise_insertionSort _ _) hl
  intro t u ht hu htu hut
  have hkey := congrArg (fun k => (ofLex (ofLex k).2).2) (le_antisymm htu hut)
  exact List.inj_on_of_nodup_map hids (hperm.mem_iff.1 ht) hu hkey

/-! ## The round trip -/

end Block

namespace Transaction

variable {E : Env} {t : Transaction}

theorem Valid.isCoinbase_false (h : t.Valid E regularTransactionModel) : t.isCoinbase = false := by
  have hprev : t.prevHash = none := h.wellFormed.prevHash
  rw [isCoinbase, hprev]
  rfl

theorem Valid.isCoinbase_true (h : t.Valid E coinbaseTransactionModel) : t.isCoinbase = true := by
  obtain ⟨prevHash, hprev, -⟩ := h.wellFormed.prevHash
  rw [isCoinbase, hprev]
  rfl

end Transaction

namespace Block

variable {E : Env} {b : Block}

/-- The blocks that are gathered, sealed at some moment and solved. -/
def Assembled (E : Env) (b : Block) : Prop :=
  ∃ b₀ b₁ key reward metrics coinbaseIso now pow, Gathered E b₀ ∧
    b₀.sealWith E key reward metrics coinbaseIso (dt2Iso now) = .ok b₁ ∧ b₁.solve E pow = .ok b

/-- Sorted regular transactions, then the coinbase; the header says what was solved. -/
theorem Assembled.txns_eq (h : Assembled E b) : ∃ regular cb, b.txns = regular ++ [cb] ∧
    (∀ t ∈ regular, t.Valid E regularTransactionModel) ∧ cb.Valid E coinbaseTransactionModel ∧
    (regular.Pairwise fun t u => ¬ u.lt t) ∧ b.merkleRoot = b.getMerkleRoot E := by
  obtain ⟨b₀, b₁, key, reward, metrics, coinbaseIso, now, pow, hg, hs, hp⟩ := h
  obtain ⟨idx, prevHash, cb, -, -, -, hcb, rfl⟩ := sealWith_eq_ok hs
  obtain ⟨-, rfl⟩ := solve_eq_ok hp
  refine ⟨sortTxns b₀.txns, cb, rfl, fun t ht => ?_, hcb, List.pairwise_insertionSort _ _, rfl⟩
  exact hg.regular t ((List.mem_insertionSort _).1 ht)

theorem Assembled.pairwise (h : Assembled E b) :
    b.txns.Pairwise fun t u => sortKey t ≤ sortKey u := by
  obtain ⟨regular, cb, htxns, hregular, hcb, hsorted, -⟩ := h.txns_eq
  have hfalse : ∀ t ∈ regular, t.isCoinbase = false := fun t ht => (hregular t ht).isCoinbase_false
  have htrue := hcb.isCoinbase_true
  rw [htxns]
  refine List.pairwise_append.2 ⟨?_, List.pairwise_singleton _ _, fun t ht u hu => ?_⟩
  · refine hsorted.imp_of_mem fun {t u} ht hu hle => ?_
    exact (sortKey_le_iff ((hfalse t ht).trans (hfalse u hu).symm)).2 hle
  · rw [List.mem_singleton.1 hu, sortKey, sortKey, Prod.Lex.toLex_le_toLex, hfalse t ht, htrue]
    exact Or.inl (show false < true by decide)

theorem Assembled.txid_isSome (h : Assembled E b) {t : Transaction} (ht : t ∈ b.txns) :
    ∃ x, t.txid = some x := by
  obtain ⟨regular, cb, htxns, hregular, hcb, -, -⟩ := h.txns_eq
  rw [htxns, List.mem_append, List.mem_singleton] at ht
  rcases ht with ht | rfl
  · exact ⟨_, (hregular t ht).named⟩
  · exact ⟨_, hcb.named⟩

/-- Every permutation of an assembled block's transactions is brought to its order. -/
theorem Assembled.canonicalOrder_eq (h : Assembled E b)
    (hids : (b.txns.map Transaction.txid).Nodup) {txns : List Transaction}
    (hp : txns.Perm b.txns) : canonicalOrder txns = b.txns := by
  refine canonicalOrder_eq_of_perm hp h.pairwise ?_
  refine List.Nodup.map_on (fun t ht u hu heq => ?_) (List.Nodup.of_map _ hids)
  obtain ⟨x, hx⟩ := h.txid_isSome ht
  obtain ⟨y, hy⟩ := h.txid_isSome hu
  rw [hx, hy, Option.getD_some, Option.getD_some] at heq
  exact List.inj_on_of_nodup_map hids ht hu (by rw [hx, hy, heq])

/-- An assembled block of at most `MAX_TRANSACTIONS` transactions is one the wire model
accepts, whatever their order. -/
theorem Assembled.wellFormed (h : Assembled E b) (hcount : b.txns.length ≤ maxTransactions)
    (hhash : ∀ x, b.blockHash = some x → Env.IsHexDigest x)
    (hroot : ∃ x, b.merkleRoot = some x ∧ Env.IsHexDigest x) {txns : List Transaction}
    (hp : txns.Perm b.txns) : Block.WellFormed E { b with txns := txns } := by
  obtain ⟨regular, cb, htxns, hregular, hcb, -, -⟩ := h.txns_eq
  have hwf : ∀ t ∈ b.txns, t.WellFormed E transactionModel := by
    intro t ht
    rw [htxns, List.mem_append, List.mem_singleton] at ht
    rcases ht with ht | rfl
    · exact (hregular t ht).wellFormed.general (Or.inl rfl)
    · exact hcb.wellFormed.general (Or.inr rfl)
  have hpos : 1 ≤ b.txns.length := by
    rw [htxns, List.length_append, List.length_singleton]
    omega
  obtain ⟨b₀, b₁, key, reward, metrics, coinbaseIso, now, pow, hg, hs, hpow⟩ := h
  obtain ⟨idx, prevHash, cb', hidx, hprev, hcb', hvcb, rfl⟩ := sealWith_eq_ok hs
  obtain ⟨hdifficulty, rfl⟩ := solve_eq_ok hpow
  obtain ⟨root, hroot, hdigest⟩ := hroot
  -- the coinbase is bound to the block's predecessor, and was checked
  obtain ⟨x, hx, hmill⟩ := hvcb.wellFormed.prevHash
  have hbound : prevHash = x := by
    rw [hcb'] at hx
    exact Option.some.inj hx
  refine ⟨⟨idx, hidx⟩, ⟨_, rfl, ?_⟩, ⟨_, rfl, validateMillHash_of_isHexDigest (hhash _ rfl)⟩,
    ⟨prevHash, hprev, hbound ▸ hmill⟩, hg.target, ⟨pow, rfl⟩,
    ⟨root, hroot, validateMillHash_of_isHexDigest hdigest⟩, ?_, fun t ht => hwf t (hp.mem_iff.1 ht),
    hg.version, hdifficulty⟩
  · rw [validateTimestamp, iso2Dt_dt2Iso]
    rfl
  · exact ⟨hp.length_eq.symm ▸ hpos, hp.length_eq.symm ▸ hcount⟩

/-- A written block that is parsed is read back if the wire model accepts it. -/
theorem fromJson_of_loads {J : JsonLib} {j : Str} (h : J.loads j = .ok b.toDict) :
    fromJson J E j =
      if b.blockErrors E = [] then .ok { b with txns := canonicalOrder b.txns }
      else .error (.invalidBlock (b.blockErrors E)) := by
  rw [fromJson, h]
  exact fromDict_toDict J E b

/-- Seal a block whose transactions stand in order. -/
theorem sealWith_of {E : Env} {b : Block} {key : SigningKey} {reward : ℤ}
    {metrics : CoinbaseMetrics} {coinbaseIso nowIso prevHash : Str} {idx : ℕ} {cb : Transaction}
    (hsealed : b.timestamp = none) (hidx : b.idx = some idx) (hprev : b.prevHash = some prevHash)
    (hsorted : b.txns.Pairwise fun t u => ¬ u.lt t)
    (hcb : Transaction.coinbase E key reward metrics prevHash coinbaseIso = cb)
    (hv : cb.Valid E coinbaseTransactionModel) :
    b.sealWith E key reward metrics coinbaseIso nowIso = .ok { b with
      txns := b.txns ++ [cb]
      merkleRoot := ({ b with txns := b.txns ++ [cb] } : Block).getMerkleRoot E
      timestamp := some nowIso } := by
  have hsort : sortTxns b.txns = b.txns := hsorted.insertionSort_eq
  have hopen : b.isSealed = false := by simp [isSealed, hsealed]
  have hvalid : cb.validate E true = .ok () := Transaction.validate_eq_ok.2 hv
  rw [sealWith, ensure_of hopen, ok_bind, ensure_of (by simp [hprev, hidx]), ok_bind, hsort]
  simp only [addCoinbase, createCoinbase, hprev, hcb, ok_bind, addTxn, if_true, hvalid]
  rw [ensure_of (by simp [isSealed, hsealed])]
  rfl

/-- A block that carries what sealing and solving its transactions give is assembled. -/
theorem assembled_of {E : Env} {b : Block} {txns : List Transaction} {cb : Transaction}
    {key : SigningKey} {reward : ℤ} {metrics : CoinbaseMetrics} {coinbaseIso prevHash : Str}
    {idx pow : ℕ} {now : DateTime}
    (hg : Gathered E { b with
      timestamp := none, blockHash := none, proofOfWork := none, merkleRoot := none, txns := txns })
    (hidx : b.idx = some idx) (hprev : b.prevHash = some prevHash)
    (hsorted : txns.Pairwise fun t u => ¬ u.lt t) (htxns : b.txns = txns ++ [cb])
    (hcb : Transaction.coinbase E key reward metrics prevHash coinbaseIso = cb)
    (hv : cb.Valid E coinbaseTransactionModel) (hroot : b.merkleRoot = b.getMerkleRoot E)
    (htime : b.timestamp = some (dt2Iso now)) (hpow : b.proofOfWork = some pow)
    (hhash : b.blockHash = some (E.millHashStr b.header))
    (hdiff : validateHashDiff (b.blockHash.getD []) b.target = some true) : Assembled E b := by
  refine ⟨_, { b with blockHash := none, proofOfWork := none }, key, reward, metrics, coinbaseIso,
    now, pow, hg, ?_, ?_⟩
  · have hmerkle : ∀ c : Block, c.txns = txns ++ [cb] → c.getMerkleRoot E = b.merkleRoot := by
      intro c hc
      rw [hroot, getMerkleRoot, getMerkleRoot, canonicalTxns, canonicalTxns, hc, htxns]
    refine Eq.trans (sealWith_of rfl hidx hprev hsorted hcb hv) ?_
    rw [hmerkle _ rfl, htime, htxns]
  · have hheader : getHeaderHash E { b with blockHash := none, proofOfWork := some pow }
        = E.millHashStr b.header := by
      rw [header, hpow]
      rfl
    have hvalid : validateProofOfWork E { b with blockHash := none, proofOfWork := none } pow
        = some true := by
      rw [hhash, header, hpow] at hdiff
      exact hdiff
    unfold solve
    rw [hvalid]
    simp only [hheader]
    rw [← hhash, ← hpow]

end Block

namespace Sample

/-- A library that reads back what was written of the given blocks. -/
def jsonLib (written : List Block) : JsonLib where
  loads s :=
    match written.find? fun b => b.toJson = s with
    | some b => .ok b.toDict
    | none => .error "Invalid JSON"
  asInt := strictInt
  asStr := strictStr
  asInt_int := strictInt_int
  asStr_str := strictStr_str

theorem loads_jsonLib (b : Block) (written : List Block) :
    (jsonLib (b :: written)).loads b.toJson = .ok b.toDict := by
  simp only [jsonLib, List.find?_cons, decide_true]

/-- `left`, with the coinbase first. -/
def leftSwapped : Block := { left with txns := [leftCoinbase, spend] }

theorem left_assembled : Block.Assembled env left := by
  have hgathered : Block.Gathered env { left with
      timestamp := none, blockHash := none, proofOfWork := none, merkleRoot := none,
      txns := [spend] } := by
    refine Block.Gathered.append (l := [spend]) (b := ({} : Block).link 1 (left.prevHash.getD [])
      left.target) (.link _ _ .new (by decide +kernel)) rfl ?_ (by simp [Block.link, Block.lastTxn])
    intro t ht
    rw [List.mem_singleton.1 ht]
    exact Transaction.validate_eq_ok.1 (by decide +kernel : spend.validate env false = .ok ())
  refine ⟨_, { left with blockHash := none, proofOfWork := none },
    ⟨alice, fun _ => leftCoinbase.signature.getD []⟩, 500, { schadenfreude := 100 },
    leftCoinbase.timestamp, minutesPast 10, 7465, hgathered, ?_, ?_⟩
  · decide +kernel
  · decide +kernel

end Sample

namespace Env

variable {b : Block} {t : Transaction}

theorem knowing_header : (Env.knowing [b]).millHashStr b.header = b.blockHash.getD [] := by
  simp [Env.knowing, Block.header_ne_genesis]

theorem knowing_merkleRoot : b.getMerkleRoot (Env.knowing [b]) = b.merkleRoot := by
  simp [Block.getMerkleRoot, Env.knowing]

theorem knowing_dataCsv (ht : t ∈ b.txns) (hcsv : t.dataCsv ≠ genesisText)
    (hheader : b.header ≠ t.dataCsv) (hinj : ∀ u ∈ b.txns, u.dataCsv = t.dataCsv → u = t) :
    (Env.knowing [b]).millHashStr t.dataCsv = t.txid.getD [] := by
  have hfind : ([b].flatMap Block.txns).find? (fun u => u.dataCsv = t.dataCsv) = some t := by
    cases hf : ([b].flatMap Block.txns).find? (fun u => u.dataCsv = t.dataCsv) with
    | none =>
      exact absurd (List.find?_eq_none.1 hf t (by simpa using ht)) (by simp)
    | some u =>
      have hu := List.mem_of_find?_eq_some hf
      have heq := List.find?_some hf
      rw [hinj u (by simpa using hu) (by simpa using heq)]
  simp only [Env.knowing, if_neg hcsv, List.find?_cons, List.find?_nil, decide_eq_false hheader, hfind,
    Option.bind_some]

theorem knowing_signed {address σ : Str} {raw sig : Bytes} (ht : t ∈ b.txns)
    (haddress : t.address = some address) (hraw : decodeAddress address = some raw)
    (hσ : t.signature = some σ) (hsig : b64decode σ = some sig) (hkey : raw.length = 32)
    (hlen : sig.length = 64) :
    (Env.knowing [b]).validateSignature t.address t.signingData t.signature = true := by
  rw [haddress, hσ]
  simp only [Env.validateSignature, Env.publicKeyFromAddress, hraw, hsig]
  rw [Env.ed25519Verify, if_neg (by simp [hkey, hlen])]
  exact List.any_eq_true.2 ⟨t, by simpa using ht, by rw [haddress, hσ]; simp [hraw, hsig]⟩

end Env

namespace Sample

/-- The numbers of a hundred transfers. -/
@[irreducible] def crowdNumbers : List ℕ := List.range 100

/-- A transfer of the reward, a second each.  Its number, at the front, stands for its hash
and for its signature, which the tables of the sample give to its texts. -/
def crowdMember (i : ℕ) : Transaction where
  timestamp := dt2Iso ((DateTime.ofFields? 2024 1 1 0 (5 + i / 60) (i % 60)).getD day)
  txid := some (fmt064x (i * 16 ^ 62))
  address := some alice
  signature := some (b64encode (toBytes 64 (i * 256 ^ 63)))
  inflows := [⟨mint.txid, some 0⟩]
  outflows := [{ amount := some 500, address := some bob }]

/-- The transfers. -/
def crowd : List Transaction := crowdNumbers.map crowdMember

/-- The reward. -/
def crowdCoinbase : Transaction where
  timestamp := dt2Iso (minutesPast 10)
  txid := some (fmt064x (100 * 16 ^ 62))
  address := some alice
  signature := some (b64encode (toBytes 64 (100 * 256 ^ 63)))
  outflows := [{ amount := some 500, address := some alice }]
  prevHash := genesis.blockHash

/-- A block of them all. -/
def crowded : Block where
  idx := some 1
  timestamp := some (dt2Iso (minutesPast 10))
  blockHash := some (fmt064x 1)
  prevHash := genesis.blockHash
  target := maxTarget
  proofOfWork := some 0
  merkleRoot := some (fmt064x 2)
  txns := crowd ++ [crowdCoinbase]

/-- The hashes and signatures of that block. -/
def crowdEnv : Env := Env.knowing [crowded]

/-- What evaluating the block tells. -/
structure CrowdedEvaluates : Prop where
  numbers : ∀ i ∈ crowdNumbers, i * 16 ^ 62 < 16 ^ 64
  target : validateMillHash crowded.target = true
  solved : validateHashDiff (crowded.blockHash.getD []) crowded.target = some true
  key : (decodeAddress alice).map List.length = some 32
  address : validateAddressFormat alice = true
  outflow : outflowErrors env [] { amount := some 500, address := some bob } = []
  reward : transactionErrors env coinbaseTransactionModel [] crowdCoinbase = []
  sorted : crowded.txns.IsChain fun t u => t.timestamp < u.timestamp
  dated : ∀ u ∈ crowded.txns, u.timestamp.head? = some '2'
  header : crowded.header.head? = some '1'
  ids : (crowded.txns.map Transaction.txid).Nodup
  errors : crowded.blockErrors crowdEnv = [⟨[.key "txns"],
    "List should have at most 100 items after validation, not 101", none⟩]

theorem crowded_evaluates : CrowdedEvaluates := by
  constructor <;> decide +kernel

theorem crowd_wellFormed {t : Transaction} (ht : t ∈ crowd) :
    t.WellFormed crowdEnv regularTransactionModel := by
  obtain ⟨i, hi, rfl⟩ := List.mem_map.1 ht
  have hmint : validateMillHash (fmt064x
      0x08c24cb73aa8b7b6ebfd6c248e3576cf392c86ff7a68e3ec96f156834ba032b5) = true :=
    validateMillHash_of_isHexDigest (isHexDigest_fmt064x (by decide))
  refine ⟨?_, ⟨_, rfl, ?_⟩, ⟨_, rfl, crowded_evaluates.address⟩, ?_, ⟨le_rfl, (by decide : 1 ≤ 50)⟩, ?_,
    ⟨le_rfl, (by decide : 1 ≤ 50)⟩, ?_,
    rfl, rfl⟩
  · rw [validateTimestamp, crowdMember, iso2Dt_dt2Iso]
    rfl
  · exact validateMillHash_of_isHexDigest (isHexDigest_fmt064x (crowded_evaluates.numbers i hi))
  · intro s hs
    rw [← Option.some.inj hs]
    exact validateBase64_b64encode _
  · intro i hi
    rw [List.mem_singleton.1 hi]
    exact ⟨⟨_, rfl, hmint⟩, ⟨0, rfl⟩⟩
  · intro o ho
    rw [List.mem_singleton.1 ho]
    exact outflowErrors_eq_nil.1 crowded_evaluates.outflow

theorem crowdCoinbase_wellFormed : crowdCoinbase.WellFormed crowdEnv coinbaseTransactionModel :=
  transactionErrors_eq_nil.1 crowded_evaluates.reward

theorem crowd_sorted : crowded.txns.Pairwise fun t u => t.timestamp < u.timestamp := by
  have : IsTrans Transaction fun t u => t.timestamp < u.timestamp := ⟨fun _ _ _ => lt_trans⟩
  exact List.isChain_iff_pairwise.1 crowded_evaluates.sorted

theorem crowded_member {t : Transaction} (ht : t ∈ crowded.txns) : t.address = some alice ∧
    (∃ txid, t.txid = some txid) ∧ ∃ n, t.signature = some (b64encode (toBytes 64 n)) := by
  rcases List.mem_append.1 ht with ht | ht
  · obtain ⟨i, -, rfl⟩ := List.mem_map.1 ht
    exact ⟨rfl, ⟨_, rfl⟩, _, rfl⟩
  · rw [List.mem_singleton.1 ht]
    exact ⟨rfl, ⟨_, rfl⟩, _, rfl⟩

/-- The table answers for the members of the block. -/
theorem crowded_valid {t : Transaction} {r : TransactionRules} (ht : t ∈ crowded.txns)
    (hwf : t.WellFormed crowdEnv r)
    (hgeneral : ∀ u ∈ crowded.txns, u.WellFormed crowdEnv transactionModel) :
    t.Valid crowdEnv r := by
  obtain ⟨haddress, ⟨txid, htxid⟩, n, hσ⟩ := crowded_member ht
  obtain ⟨raw, hraw, hlen⟩ := Option.map_eq_some_iff.1 crowded_evaluates.key
  have hcsv : ∃ rest, t.dataCsv = '2' :: rest := by
    obtain ⟨rest, hrest⟩ := List.head?_eq_some_iff.1 (crowded_evaluates.dated t ht)
    rw [Transaction.dataCsv, List.cons_append, Csv.join_cons ',' _ (by simp), hrest]
    exact ⟨_, rfl⟩
  obtain ⟨rest, hrest⟩ := hcsv
  have hheader := crowded_evaluates.header
  refine ⟨hwf, Env.knowing_signed ht haddress hraw hσ (b64decode_b64encode _) hlen ?_, ?_⟩
  · rw [toBytes, List.length_map, List.length_range]
  · rw [Transaction.calculateTxid, crowdEnv, Env.knowing_dataCsv ht, htxid, Option.getD_some]
    · rw [hrest]
      exact fun h => absurd (List.cons.inj h).1 (by decide)
    · rw [hrest]
      intro h
      rw [h] at hheader
      exact absurd (Option.some.inj hheader) (by decide)
    · intro u hu heq
      have hcontent := Transaction.dataCsv_inj (hgeneral u hu) (hgeneral t ht) heq
      have htime : u.content.timestamp = t.content.timestamp := by rw [hcontent]
      have hnodup : (crowded.txns.map Transaction.timestamp).Nodup :=
        List.pairwise_map.2 (crowd_sorted.imp ne_of_lt)
      exact List.inj_on_of_nodup_map hnodup hu ht htime

theorem crowded_assembled : Block.Assembled crowdEnv crowded := by
  have hgeneral : ∀ u ∈ crowded.txns, u.WellFormed crowdEnv transactionModel := by
    intro u hu
    rcases List.mem_append.1 hu with hu | hu
    · exact (crowd_wellFormed hu).general (Or.inl rfl)
    · exact List.mem_singleton.1 hu ▸ crowdCoinbase_wellFormed.general (Or.inr rfl)
  have hvalid : ∀ t ∈ crowd, t.Valid crowdEnv regularTransactionModel := fun t ht =>
    crowded_valid (List.mem_append_left _ ht) (crowd_wellFormed ht) hgeneral
  have hcoinbase : crowdCoinbase.Valid crowdEnv coinbaseTransactionModel :=
    crowded_valid (List.mem_append_right _ (List.mem_singleton_self _)) crowdCoinbase_wellFormed
      hgeneral
  have hsorted : crowd.Pairwise fun t u => ¬ u.lt t := by
    refine (List.pairwise_append.1 crowd_sorted).1.imp fun {t u} hlt => ?_
    rintro (hut | ⟨hut, -⟩)
    · exact lt_asymm hlt hut
    · exact hlt.ne' hut
  have hgathered : Block.Gathered crowdEnv { crowded with
      timestamp := none, blockHash := none, proofOfWork := none, merkleRoot := none,
      txns := crowd } :=
    Block.Gathered.append (l := crowd)
      (b := ({} : Block).link 1 (crowded.prevHash.getD []) crowded.target)
      (.link _ _ .new crowded_evaluates.target) rfl hvalid
      hsorted.isChain
  have hreward : Transaction.coinbase crowdEnv
      ⟨alice, fun _ => crowdCoinbase.signature.getD []⟩ 500 {} (crowded.prevHash.getD [])
      crowdCoinbase.timestamp = crowdCoinbase := by
    have hnamed : some (crowdEnv.millHashStr crowdCoinbase.dataCsv) = crowdCoinbase.txid :=
      hcoinbase.named.symm
    show { crowdCoinbase with
      txid := some (crowdEnv.millHashStr crowdCoinbase.dataCsv)
      signature := some (crowdCoinbase.signature.getD []) } = crowdCoinbase
    rw [hnamed]
    rfl
  exact Block.assembled_of hgathered rfl rfl hsorted rfl hreward hcoinbase
    (Env.knowing_merkleRoot (b := crowded)).symm rfl rfl
    (congrArg some (Env.knowing_header (b := crowded)).symm) crowded_evaluates.solved

end Sample

end GumptionChain
