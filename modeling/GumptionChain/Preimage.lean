import GumptionChain.Reachable

/-!
# What a transaction's preimage binds

`data_csv` joins lists of two-column inflows and six-column outflows by commas,
with no lengths and no tags, and `signing_data` appends the identifier.

* `Transaction.signingData_inj` — the signed text determines content and
  identifier;
* `Transaction.preimage_binds` — so do equal preimages, equal identifiers where
  the hash does not collide, and equal signatures where signatures bind.
-/

namespace GumptionChain

namespace Transaction

variable {E : Env} {t u : Transaction}

/-- The last comma of the signed text stands before the identifier. -/
theorem signingData_inj (ht : t.WellFormed E transactionModel) (hu : u.WellFormed E transactionModel)
    (h : t.signingData = u.signingData) : t.content = u.content ∧ t.txid = u.txid := by
  obtain ⟨x, hx, hxm⟩ := ht.txid
  obtain ⟨y, hy, hym⟩ := hu.txid
  have hlen : x.length = y.length :=
    (validateMillHash_iff.1 hxm).2.trans (validateMillHash_iff.1 hym).2.symm
  have hsplit : ∀ {v : Transaction} {z : Str}, v.txid = some z →
      v.signingData = (v.dataCsv ++ [',']) ++ z := by
    intro v z hz
    rw [signingData, hz, Csv.join_cons ',' _ (by simp), Csv.join_singleton]
    simp [optStr]
  rw [hsplit hx, hsplit hy] at h
  obtain ⟨hleft, hright⟩ := List.append_inj' h hlen
  exact ⟨dataCsv_inj ht hu (List.append_inj_left' hleft rfl), by rw [hx, hy, hright]⟩

/-- **The signed preimage binds the content.**  Two transactions that
`TransactionModel` accepts have the same timestamp, address, version, `prev_hash`,
inflows and outflows if their preimages are equal; so also if they are named by their
preimages and share an identifier, unless these preimages collide, and if one
signature verifies for both, unless it binds neither. -/
theorem preimage_binds (ht : t.WellFormed E transactionModel)
    (hu : u.WellFormed E transactionModel) :
    (t.dataCsv = u.dataCsv → t.content = u.content) ∧
      (∀ S, E.CollisionFree S → t.dataCsv ∈ S → u.dataCsv ∈ S →
        t.txid = some (t.calculateTxid E) → u.txid = some (u.calculateTxid E) →
        t.txid = u.txid → t.content = u.content) ∧
      ∀ T, E.SignaturesBind T → t.signingData ∈ T → u.signingData ∈ T →
        E.validateSignature t.address t.signingData t.signature = true →
        E.validateSignature u.address u.signingData u.signature = true →
        t.signature = u.signature → t.content = u.content ∧ t.txid = u.txid := by
  refine ⟨dataCsv_inj ht hu, ?_, ?_⟩
  · intro S hS htS huS hnamed hnamed' heq
    rw [hnamed, hnamed', Option.some.injEq] at heq
    exact dataCsv_inj ht hu (hS htS huS heq)
  · intro T hT htT huT hsig hsig' heq
    rw [← heq] at hsig'
    exact signingData_inj ht hu (hT _ _ _ _ _ htT huT hsig hsig')

end Transaction

/-- What verifies in a known environment is signed in one of its blocks. -/
theorem Env.exists_signed {blocks : List Block} {a sig : Option Str} {m : Str}
    (h : (Env.knowing blocks).validateSignature a m sig = true) :
    ∃ t ∈ blocks.flatMap Block.txns,
      t.signature.bind b64decode = sig.bind b64decode ∧ t.signingData = m := by
  obtain ⟨address, text, bytes, rfl, rfl, hbytes, -⟩ := validateSignature_length _ h
  simp only [validateSignature, hbytes] at h
  split at h
  · rename_i raw bytes' _ hbytes'
    obtain rfl := Option.some.inj hbytes'
    unfold ed25519Verify at h
    split_ifs at h
    obtain ⟨t, ht, hcarries⟩ := List.any_eq_true.1 h
    simp only [Bool.and_eq_true, decide_eq_true_eq] at hcarries
    refine ⟨t, ht, hcarries.1.2.trans hbytes.symm, Option.some.inj ?_⟩
    rw [← utf8Decode_utf8Encode, hcarries.2, utf8Decode_utf8Encode]
  · exact absurd h (by simp)

namespace Sample

/-- The spend under the signature of another transaction. -/
def resigned : Transaction := { spend with signature := mint.signature }

/-- Each signature of the fork is for one text. -/
theorem signaturesBind : env.SignaturesBind Set.univ := by
  have honce : ∀ t ∈ blocks.flatMap Block.txns, ∀ u ∈ blocks.flatMap Block.txns,
      t.signature.bind b64decode = u.signature.bind b64decode →
        t.signingData = u.signingData := by decide +kernel
  intro a a' sig m m' _ _ h h'
  obtain ⟨t, ht, hsig, rfl⟩ := Env.exists_signed h
  obtain ⟨u, hu, hsig', rfl⟩ := Env.exists_signed h'
  exact honce t ht u hu (hsig.trans hsig'.symm)

end Sample

namespace Transaction

open Sample in
/-- A preimage tells the content and not the signature; other contents have other
identifiers; and a signature moved to another transaction does not verify. -/
theorem preimage_binds_resigned :
    spend.signature ≠ resigned.signature ∧ spend.content = resigned.content ∧
      spend.txid ≠ mint.txid ∧
      env.validateSignature resigned.address resigned.signingData resigned.signature = false := by
  have hwf : ∀ t ∈ [spend, mint, resigned], t.WellFormed env transactionModel := by
    have hread : ∀ t ∈ [spend, mint, resigned],
        transactionErrors env transactionModel [] t = [] := by decide +kernel
    exact fun t ht => transactionErrors_eq_nil.1 (hread t ht)
  have hspend := hwf spend (by simp)
  have hmint := hwf mint (by simp)
  have hresigned := hwf resigned (by simp)
  have htexts : ∀ t ∈ [spend, mint], t.dataCsv ∈ hashedTexts blocks := by decide +kernel
  have hother : spend.content ≠ mint.content := by decide +kernel
  have hcontent := (preimage_binds hspend hresigned).1 rfl
  refine ⟨by decide +kernel, hcontent, fun h => hother ?_, Bool.eq_false_iff.2 fun h => ?_⟩
  · exact (preimage_binds hspend hmint).2.1 (insert genesisText texts) collisionFree
      (Set.mem_insert_of_mem _ (htexts spend (by simp)))
      (Set.mem_insert_of_mem _ (htexts mint (by simp))) (by decide +kernel) (by decide +kernel) h
  · have hvalid : env.validateSignature mint.address mint.signingData mint.signature = true := by
      decide +kernel
    exact hother (hcontent.trans ((preimage_binds hmint hresigned).2.2 Set.univ signaturesBind
      trivial trivial hvalid h rfl).1.symm)

end Transaction

end GumptionChain
