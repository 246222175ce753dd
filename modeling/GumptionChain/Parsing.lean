import GumptionChain.Assembly
import GumptionChain.Reachable

/-!
# What is read is well formed

The wire models read a JSON value field by field, and what passes has every property that
validation later relies on.

* `Checked.both_eq_ok`, `Checked.all_eq_ok` — a reader of parts succeeds when the readers
  of its parts do;
* `readInflow_wellFormed`, `readOutflow_wellFormed`, `readTransaction_wellFormed`,
  `Block.readModel_wellFormed` — the models, from the flows up;
* `from_json_well_formed` — so a block that `from_json` accepts is well formed, has its
  transactions in the canonical order and is read back as it is from what it writes.
-/

theorem Except.toOption_eq_some {ε α : Type} {x : Except ε α} {a : α} :
    x.toOption = some a ↔ x = .ok a := by
  cases x <;> simp [Except.toOption]

namespace Checked

variable {ε α β : Type}

theorem both_eq_ok {x : Except (List ε) α} {y : Except (List ε) β} {p : α × β} :
    both x y = .ok p ↔ x = .ok p.1 ∧ y = .ok p.2 := by
  obtain ⟨a, b⟩ := p
  cases x <;> cases y <;> simp [both]

theorem map_eq_ok {x : Except (List ε) α} {f : α → β} {b : β} :
    x.map f = .ok b ↔ ∃ a, x = .ok a ∧ f a = b := by
  cases x <;> simp [Except.map]

theorem bind_eq_ok {x : Except (List ε) α} {f : α → Except (List ε) β} {b : β} :
    x.bind f = .ok b ↔ ∃ a, x = .ok a ∧ f a = .ok b := by
  cases x <;> simp [Except.bind]

/-- The results of a list come from its members, in order. -/
theorem all_eq_ok {f : α → Except (List ε) β} : ∀ {l : List α} {l' : List β},
    all f l = .ok l' → List.Forall₂ (fun a b => f a = .ok b) l l' := by
  intro l
  induction l with
  | nil =>
    intro l' h
    cases h
    exact .nil
  | cons a l ih =>
    intro l' h
    obtain ⟨⟨b, bs⟩, hboth, rfl⟩ := map_eq_ok.1 h
    obtain ⟨ha, hl⟩ := both_eq_ok.1 hboth
    exact .cons ha (ih hl)

end Checked

namespace GumptionChain

/-! ## Fields -/

section

variable {α : Type} {J : JsonLib} {E : Env} {loc : List Loc} {v : Value} {o : Option Value}
  {read : List Loc → Value → Checked α} {check : List Loc → Str → List ErrorDetail}

theorem needField_eq_ok {a : α} (h : needField read loc o = .ok a) : ∃ v, read loc v = .ok a := by
  cases o with
  | none => cases h
  | some v => exact ⟨v, h⟩

theorem readOptional_eq_ok {a : Option α} (h : readOptional read loc o = .ok a) :
    ∀ x, a = some x → ∃ v, read loc v = .ok x := by
  rintro x rfl
  unfold readOptional at h
  split at h
  · cases h
  · cases h
  · rename_i v _
    obtain ⟨y, hy, hyx⟩ := Checked.map_eq_ok.1 h
    exact ⟨v, hy.trans (congrArg Except.ok (Option.some.inj hyx))⟩

theorem readStr_eq_ok {s : Str} (h : readStr J check loc v = .ok s) : check loc s = [] := by
  unfold readStr at h
  split at h
  · obtain ⟨herrors, rfl⟩ := Checked.of_eq_ok.1 h
    exact herrors
  · cases h

theorem readInt_eq_ok {bound : ℕ} {n : ℤ} (h : readInt J bound loc v = .ok n) :
    (bound : ℤ) ≤ n := by
  unfold readInt at h
  split at h
  · obtain ⟨herrors, rfl⟩ := Checked.of_eq_ok.1 h
    exact of_decide_eq_true (check_eq_nil.1 herrors)
  · cases h

theorem readVersion_eq_ok {s : Str} (h : readVersion loc v = .ok s) : s = ['1'] := by
  unfold readVersion readLiteral at h
  split at h
  · rename_i x
    dsimp only at h
    by_cases hx : x = ['1']
    · rw [if_pos hx] at h
      cases h
      exact hx
    · rw [if_neg hx] at h
      cases h
  · cases h

/-- A field that must be there, with a check. -/
theorem need_str_eq_ok {s : Option Str}
    (h : (needField (readStr J check) loc o).map some = .ok s) :
    ∃ x, s = some x ∧ check loc x = [] := by
  obtain ⟨x, hx, rfl⟩ := Checked.map_eq_ok.1 h
  obtain ⟨v, hv⟩ := needField_eq_ok hx
  exact ⟨x, rfl, readStr_eq_ok hv⟩

theorem need_text_eq_ok {s : Str} (h : needField (readStr J check) loc o = .ok s) :
    check loc s = [] := by
  obtain ⟨v, hv⟩ := needField_eq_ok h
  exact readStr_eq_ok hv

/-- A field that may be missing, with a check. -/
theorem optional_str_eq_ok {s : Option Str} (h : readOptional (readStr J check) loc o = .ok s) :
    ∀ x, s = some x → check loc x = [] := by
  intro x hx
  obtain ⟨v, hv⟩ := readOptional_eq_ok h x hx
  exact readStr_eq_ok hv

theorem need_nat_eq_ok {bound : ℕ} {n : Option ℕ}
    (h : (needField (readInt J bound) loc o).map (fun n => some n.toNat) = .ok n) :
    ∃ m, n = some m := by
  obtain ⟨m, -, rfl⟩ := Checked.map_eq_ok.1 h
  exact ⟨m.toNat, rfl⟩

/-- A list has a length within its bounds, and members that were read. -/
theorem readList_eq_ok {min max : ℕ} {P : α → Prop} (hread : ∀ loc v a, read loc v = .ok a → P a)
    {l : List α} (h : readList min max read loc v = .ok l) :
    (min ≤ l.length ∧ l.length ≤ max) ∧ ∀ a ∈ l, P a := by
  unfold readList at h
  split at h
  · rename_i vs
    by_cases hmax : max < vs.length
    · rw [if_pos hmax] at h
      cases h
    rw [if_neg hmax] at h
    obtain ⟨items, hitems, h⟩ := Checked.bind_eq_ok.1 h
    by_cases hmin : vs.length < min
    · rw [if_pos hmin] at h
      cases h
    rw [if_neg hmin] at h
    cases h
    have hall := Checked.all_eq_ok hitems
    have hlen : l.length = vs.length := by rw [← hall.length_eq, List.length_zipIdx]
    refine ⟨by omega, fun a ha => ?_⟩
    obtain ⟨i, hi, rfl⟩ := List.mem_iff_getElem.1 ha
    exact hread _ _ _ (hall.get (hall.length_eq.symm ▸ hi) hi)
  · cases h

theorem need_list_eq_ok {min max : ℕ} {P : α → Prop} (hread : ∀ loc v a, read loc v = .ok a → P a)
    {l : List α} (h : needField (readList min max read) loc o = .ok l) :
    (min ≤ l.length ∧ l.length ≤ max) ∧ ∀ a ∈ l, P a := by
  obtain ⟨v, hv⟩ := needField_eq_ok h
  exact readList_eq_ok hread hv

/-- An object is read from its fields. -/
theorem readObject_eq_ok {names : List String} {body : (String → Option Value) → Checked α} {a : α}
    (h : readObject names loc body v = .ok a) : ∃ get, body get = .ok a := by
  unfold readObject at h
  split at h
  · obtain ⟨⟨x, u⟩, hboth, rfl⟩ := Checked.map_eq_ok.1 h
    exact ⟨_, (Checked.both_eq_ok.1 hboth).1⟩
  · cases h

/-! ## Flows -/

/-- **An inflow that is read is well formed.** -/
theorem readInflow_wellFormed {i : Inflow} (h : readInflow J loc v = .ok i) : i.WellFormed := by
  obtain ⟨get, hget⟩ := readObject_eq_ok h
  obtain ⟨⟨txid, idx⟩, hboth, rfl⟩ := Checked.map_eq_ok.1 hget
  obtain ⟨htxid, hidx⟩ := Checked.both_eq_ok.1 hboth
  obtain ⟨x, hx, hcheck⟩ := need_str_eq_ok htxid
  exact ⟨⟨x, hx, check_eq_nil.1 hcheck⟩, need_nat_eq_ok hidx⟩

/-- **An outflow that is read is well formed.** -/
theorem readOutflow_wellFormed {x : Outflow} (h : readOutflow J E loc v = .ok x) :
    x.WellFormed E := by
  obtain ⟨y, hy, h⟩ := Checked.bind_eq_ok.1 h
  obtain ⟨hdestination, rfl⟩ := Checked.of_eq_ok.1 h
  obtain ⟨get, hget⟩ := readObject_eq_ok hy
  obtain ⟨⟨amount, address, opposition, rescind, support, kind⟩, hboth, rfl⟩ :=
    Checked.map_eq_ok.1 hget
  simp only [Checked.both_eq_ok] at hboth
  obtain ⟨hamount, haddress, hopposition, hrescind, hsupport, -⟩ := hboth
  obtain ⟨hdest, hkind⟩ := destinationErrors_eq_nil.1 hdestination
  obtain ⟨n, hn, rfl⟩ := Checked.map_eq_ok.1 hamount
  obtain ⟨w, hw⟩ := needField_eq_ok hn
  exact ⟨⟨n, rfl, readInt_eq_ok hw⟩,
    fun s hs => check_eq_nil.1 (optional_str_eq_ok haddress s hs),
    fun s hs => check_eq_nil.1 (optional_str_eq_ok hopposition s hs),
    fun s hs => check_eq_nil.1 (optional_str_eq_ok hrescind s hs),
    fun s hs => check_eq_nil.1 (optional_str_eq_ok hsupport s hs), hdest, hkind⟩

/-! ## Transactions and blocks -/

/-- **A transaction that is read is well formed.** -/
theorem readTransaction_wellFormed {t : Transaction} (h : readTransaction J E loc v = .ok t) :
    t.WellFormed E transactionModel := by
  obtain ⟨get, hget⟩ := readObject_eq_ok h
  obtain ⟨⟨timestamp, txid, address, signature, inflows, outflows, version, prevHash⟩, hboth, rfl⟩ :=
    Checked.map_eq_ok.1 hget
  simp only [Checked.both_eq_ok] at hboth
  obtain ⟨htime, htxid, haddress, hsignature, hinflows, houtflows, hversion, hprev⟩ := hboth
  obtain ⟨x, hx, hxcheck⟩ := need_str_eq_ok htxid
  obtain ⟨a, ha, hacheck⟩ := need_str_eq_ok haddress
  obtain ⟨hin, hinall⟩ := need_list_eq_ok (P := Inflow.WellFormed)
    (fun _ _ _ => readInflow_wellFormed) hinflows
  obtain ⟨hout, houtall⟩ := need_list_eq_ok (P := Outflow.WellFormed E)
    (fun _ _ _ => readOutflow_wellFormed) houtflows
  obtain ⟨w, hw⟩ := needField_eq_ok hversion
  exact ⟨check_eq_nil.1 (need_text_eq_ok htime), ⟨x, hx, check_eq_nil.1 hxcheck⟩,
    ⟨a, ha, check_eq_nil.1 hacheck⟩,
    fun s hs => check_eq_nil.1 (optional_str_eq_ok hsignature s hs), hin, hinall, hout, houtall,
    readVersion_eq_ok hw, fun s hs => check_eq_nil.1 (optional_str_eq_ok hprev s hs)⟩

namespace Block

/-- **A block that is read is well formed.** -/
theorem readModel_wellFormed {b : Block} (h : readModel J E v = .ok b) : b.WellFormed E := by
  obtain ⟨c, hc, h⟩ := Checked.bind_eq_ok.1 h
  obtain ⟨hdifficulty, rfl⟩ := Checked.of_eq_ok.1 h
  obtain ⟨get, hget⟩ := readObject_eq_ok hc
  obtain ⟨⟨idx, timestamp, blockHash, prevHash, target, proofOfWork, merkleRoot, txns, version⟩,
    hboth, rfl⟩ := Checked.map_eq_ok.1 hget
  simp only [Checked.both_eq_ok] at hboth
  obtain ⟨hidx, htime, hhash, hprev, htarget, hwork, hroot, htxns, hversion⟩ := hboth
  have hmill : ∀ {path : List Loc} {s : Option Str}, (∃ x, s = some x ∧ checkMillHash path x = []) →
      ∃ x, s = some x ∧ validateMillHash x = true :=
    fun ⟨x, hx, hcheck⟩ => ⟨x, hx, check_eq_nil.1 hcheck⟩
  obtain ⟨t, ht, htcheck⟩ := need_str_eq_ok htime
  obtain ⟨hcount, hall⟩ := need_list_eq_ok (P := Transaction.WellFormed E transactionModel)
    (fun _ _ _ => readTransaction_wellFormed) htxns
  obtain ⟨w, hw⟩ := needField_eq_ok hversion
  exact ⟨need_nat_eq_ok hidx, ⟨t, ht, check_eq_nil.1 htcheck⟩, hmill (need_str_eq_ok hhash),
    hmill (need_str_eq_ok hprev), check_eq_nil.1 (need_text_eq_ok htarget), need_nat_eq_ok hwork,
    hmill (need_str_eq_ok hroot), hcount, hall, readVersion_eq_ok hw,
    difficultyErrors_eq_nil.1 hdifficulty⟩

/-- Sorting twice is sorting once. -/
theorem canonicalOrder_idem (txns : List Transaction) :
    canonicalOrder (canonicalOrder txns) = canonicalOrder txns := by
  have : IsTrans Transaction fun t u => sortKey t ≤ sortKey u := ⟨fun _ _ _ => le_trans⟩
  have : Std.Total fun t u : Transaction => sortKey t ≤ sortKey u := ⟨fun t u => le_total _ _⟩
  exact (List.pairwise_insertionSort _ _).insertionSort_eq

theorem WellFormed.canonical {b : Block} (h : b.WellFormed E) :
    WellFormed E { b with txns := canonicalOrder b.txns } := by
  have hperm : (canonicalOrder b.txns).Perm b.txns := List.perm_insertionSort _ _
  exact ⟨h.idx, h.timestamp, h.blockHash, h.prevHash, h.target, h.proofOfWork, h.merkleRoot,
    hperm.length_eq ▸ h.txnCount, fun t ht => h.txns t (hperm.subset ht), h.version, h.difficulty⟩

theorem fromDict_wellFormed {b : Block} (h : fromDict J E v = .ok b) :
    b.WellFormed E ∧ canonicalOrder b.txns = b.txns := by
  unfold fromDict at h
  split at h
  · rename_i c hc
    cases h
    exact ⟨(readModel_wellFormed hc).canonical, canonicalOrder_idem c.txns⟩
  · cases h

end Block

/-- **What `from_json` accepts.**  A block that is read from any text is well formed in
every field, down to its flows, and has its transactions in the canonical order; written
and read again it is the same block. -/
theorem from_json_well_formed {text : Str} {b : Block} (h : Block.fromJson J E text = .ok b) :
    b.WellFormed E ∧ Block.canonicalOrder b.txns = b.txns ∧
      Block.fromDict J E b.toDict = .ok b ∧
      ∀ again, J.loads again = .ok b.toDict → Block.fromJson J E again = .ok b := by
  unfold Block.fromJson at h
  split at h
  · obtain ⟨hwell, hsorted⟩ := Block.fromDict_wellFormed h
    have hagain : Block.fromDict J E b.toDict = .ok b := by
      rw [Block.fromDict_toDict, if_pos (Block.blockErrors_eq_nil.2 hwell), hsorted]
    refine ⟨hwell, hsorted, hagain, fun again hloads => ?_⟩
    rw [Block.fromJson, hloads]
    exact hagain
  · cases h

end

namespace Sample

/-- A library that reads back blocks with different texts. -/
theorem loads_of_nodup {written : List Block} (h : (written.map Block.toJson).Nodup) {b : Block}
    (hb : b ∈ written) : (jsonLib written).loads b.toJson = .ok b.toDict := by
  have hfind : written.find? (fun c => c.toJson = b.toJson) = some b := by
    cases hf : written.find? (fun c => c.toJson = b.toJson) with
    | none => exact absurd (decide_eq_true rfl) (List.find?_eq_none.1 hf b hb)
    | some c =>
      have htext : c.toJson = b.toJson := by simpa using List.find?_some hf
      rw [List.inj_on_of_nodup_map h (List.mem_of_find?_eq_some hf) hb htext]
  simp only [jsonLib, hfind]

theorem fromJson_toJson :
    ∀ b ∈ blocks, Block.fromJson (jsonLib blocks) env b.toJson = .ok b := by
  have hread : ∀ b ∈ blocks,
      (Block.fromJson (jsonLib blocks) env b.toJson).toOption = some b := by
    decide +kernel
  exact fun b hb => Except.toOption_eq_some.1 (hread b hb)

end Sample

theorem from_json_well_formed_left :
    Sample.left.WellFormed Sample.env ∧
      Block.canonicalOrder Sample.left.txns = Sample.left.txns ∧
      Block.fromDict (Sample.jsonLib Sample.blocks) Sample.env Sample.left.toDict =
        .ok Sample.left ∧
      ∀ again, (Sample.jsonLib Sample.blocks).loads again = .ok Sample.left.toDict →
        Block.fromJson (Sample.jsonLib Sample.blocks) Sample.env again = .ok Sample.left :=
  from_json_well_formed (Sample.fromJson_toJson Sample.left (by simp [Sample.blocks]))

end GumptionChain
