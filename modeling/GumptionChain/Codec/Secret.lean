import GumptionChain.Codec.Spelling

/-!
# Thirty-two bytes as text

What was written as an address or a secret is read back (`decode32_encode32`), and
the bytes of a secret's text are read back to its seed (`decodeSecret_encodeSecret`).
-/

namespace GumptionChain

/-! ## The groups -/

/-- The padded groups of thirty-two bytes. -/
theorem convertbits_pad {data : List ℕ} (hl : data.length = 32) (hd : ∀ x ∈ data, x < 2 ^ 8) :
    ∃ groups, convertbits data 8 5 true = some groups ∧ groups.length = 52 ∧
      (∀ x ∈ groups, x < 2 ^ 5) ∧ groupsValue 5 groups = groupsValue 8 data * 2 ^ 4 := by
  obtain ⟨⟨ret, acc, bits⟩, hloop⟩ := Option.isSome_iff_exists.1
    (@convertbitsLoop_isSome 8 5 data 0 0 hd)
  obtain ⟨hb, hlen, hval⟩ := convertbitsLoop_spec (by norm_num) (by norm_num) hloop
  rw [hl] at hlen
  obtain ⟨hret, rfl⟩ : ret.length = 51 ∧ bits = 1 := by omega
  refine ⟨ret ++ [(acc <<< 4) &&& 31], ?_, by simp [hret], fun x hx => ?_, ?_⟩
  · rw [convertbits, hloop]
    rfl
  · rcases List.mem_append.1 hx with hx | hx
    · exact convertbitsLoop_lt hloop x hx
    · rw [List.mem_singleton.1 hx]
      exact Nat.and_lt_two_pow (n := 5) _ (by norm_num)
  · have hlast : (acc <<< 4) &&& 31 = acc % 2 * 2 ^ 4 := by
      rw [Nat.and_two_pow_sub_one_eq_mod _ 5, Nat.shiftLeft_eq, pow_succ' 2 4,
        Nat.mul_mod_mul_right]
    rw [groupsValue_append, hlast]
    simp only [Nat.zero_mod, Nat.zero_mul, Nat.zero_add] at hval
    rw [hval]
    simp [groupsValue_cons]
    ring

/-- Regrouping the padded groups gives the bytes back. -/
theorem convertbits_unpad {data groups : List ℕ} (hl : data.length = 32)
    (hd : ∀ x ∈ data, x < 2 ^ 8) (hg : groups.length = 52) (hg32 : ∀ x ∈ groups, x < 2 ^ 5)
    (hval : groupsValue 5 groups = groupsValue 8 data * 2 ^ 4) :
    convertbits groups 5 8 false = some data := by
  obtain ⟨⟨ret, acc, bits⟩, hloop⟩ := Option.isSome_iff_exists.1
    (@convertbitsLoop_isSome 5 8 groups 0 0 hg32)
  obtain ⟨hb, hlen, hval'⟩ := convertbitsLoop_spec (by norm_num) (by norm_num) hloop
  rw [hg] at hlen
  obtain ⟨hret, rfl⟩ : ret.length = 32 ∧ bits = 4 := by omega
  simp only [Nat.zero_mod, Nat.zero_mul, Nat.zero_add, hval] at hval'
  have hrest : acc % 2 ^ 4 = 0 := by omega
  have hsame : ret = data :=
    groupsValue_injective (by norm_num) (hret.trans hl.symm) (convertbitsLoop_lt hloop) hd (by omega)
  have hlast : (acc <<< 4) &&& 255 = 0 := by
    rw [Nat.and_two_pow_sub_one_eq_mod _ 8, Nat.shiftLeft_eq]
    omega
  rw [convertbits, hloop, ← hsame]
  simp [hlast]

/-! ## The checksum -/

theorem shiftLeft_xor_eq_add {v : ℕ} (h : v < 2 ^ 5) (a : ℕ) : a <<< 5 ^^^ v = a * 2 ^ 5 + v := by
  rw [← Nat.shiftLeft_eq, Nat.shiftLeft_add_eq_or_of_lt h]
  refine Nat.eq_of_testBit_eq fun j => ?_
  rw [Nat.testBit_xor, Nat.testBit_or, Nat.testBit_shiftLeft]
  by_cases hj : 5 ≤ j
  · rw [Nat.testBit_lt_two_pow (h.trans_le (Nat.pow_le_pow_right two_pos hj))]
    simp
  · simp [hj]

/-- What up to six symbols add to a checksum, over as many zeros. -/
theorem bech32Polymod_zeros : ∀ {vs : List ℕ} {a b : ℕ}, vs.length ≤ 6 → (∀ v ∈ vs, v < 2 ^ 5) →
    a ^^^ b < 2 ^ (30 - 5 * vs.length) →
    vs.foldl bech32PolymodStep a ^^^ (List.replicate vs.length 0).foldl bech32PolymodStep b
      = (a ^^^ b) * 2 ^ (5 * vs.length) + groupsValue 5 vs
  | [], a, b, _, _, _ => by simp
  | v :: vs, a, b, hl, hv, hd => by
    rw [List.length_cons] at hl hd
    have h25 : a ^^^ b < 2 ^ 25 := hd.trans_le (Nat.pow_le_pow_right two_pos (by omega))
    have hstep : bech32PolymodStep a v ^^^ bech32PolymodStep b 0 = (a ^^^ b) * 2 ^ 5 + v := by
      rw [bech32PolymodStep_xor h25, Nat.xor_zero,
        shiftLeft_xor_eq_add (hv v (List.mem_cons_self ..))]
    have hnext : (a ^^^ b) * 2 ^ 5 + v < 2 ^ (30 - 5 * vs.length) := by
      rw [show 30 - 5 * vs.length = 30 - 5 * (vs.length + 1) + 5 by omega, pow_add]
      have := hv v (List.mem_cons_self ..)
      omega
    rw [List.foldl_cons, List.length_cons, List.replicate_succ, List.foldl_cons,
      bech32Polymod_zeros (by omega) (fun x hx => hv x (List.mem_cons_of_mem _ hx))
        (hstep ▸ hnext), hstep, groupsValue_cons, Nat.mul_add, pow_add]
    ring

theorem foldl_xor_lt {n : ℕ} {p : ℕ × ℕ → Prop} [DecidablePred p] : ∀ {l : List (ℕ × ℕ)} {c : ℕ},
    (∀ g ∈ l, g.1 < 2 ^ n) → c < 2 ^ n →
      l.foldl (fun c g => c ^^^ (if p g then g.1 else 0)) c < 2 ^ n
  | [], _, _, hc => hc
  | g :: l, c, hl, hc => by
    rw [List.foldl_cons]
    refine foldl_xor_lt (fun x hx => hl x (List.mem_cons_of_mem _ hx)) (Nat.xor_lt_two_pow hc ?_)
    split_ifs
    · exact hl g (List.mem_cons_self ..)
    · positivity

theorem bech32Feedback_lt (top : ℕ) : bech32Feedback top < 2 ^ 30 :=
  foldl_xor_lt (by decide) (by positivity)

theorem bech32PolymodStep_lt {v : ℕ} (h : v < 2 ^ 5) (chk : ℕ) : bech32PolymodStep chk v < 2 ^ 30 := by
  rw [bech32PolymodStep_eq, shiftLeft_xor_eq_add h]
  refine Nat.xor_lt_two_pow ?_ (bech32Feedback_lt _)
  have : chk &&& 0x1FFFFFF < 2 ^ 25 := Nat.and_lt_two_pow _ (by norm_num)
  omega

/-- **A checksum that was created is verified.** -/
theorem bech32VerifyChecksum_create (hrp : Str) (data : List ℕ) :
    bech32VerifyChecksum hrp (data ++ bech32CreateChecksum hrp data .bech32m) = some .bech32m := by
  set pre := bech32HrpExpand hrp ++ data with hpre
  have hzero : bech32Polymod (pre ++ [0, 0, 0, 0, 0, 0]) < 2 ^ 30 := by
    rw [bech32Polymod, show pre ++ [0, 0, 0, 0, 0, 0] = pre ++ [0, 0, 0, 0, 0] ++ [0] by simp,
      List.foldl_append]
    exact bech32PolymodStep_lt (by norm_num) _
  have hlt : bech32Polymod (pre ++ [0, 0, 0, 0, 0, 0]) ^^^ bech32mConst < 2 ^ 30 :=
    Nat.xor_lt_two_pow hzero (by decide)
  set p := bech32Polymod (pre ++ [0, 0, 0, 0, 0, 0]) ^^^ bech32mConst with hp
  have hcreate : bech32CreateChecksum hrp data .bech32m =
      [0, 1, 2, 3, 4, 5].map fun i => (p >>> (5 * (5 - i))) &&& 31 := by
    rw [hp]
    rfl
  have hdigits : groupsValue 5 (bech32CreateChecksum hrp data .bech32m) = p := by
    rw [hcreate]
    simp only [List.map_cons, List.map_nil, groupsValue_cons, groupsValue_nil, List.length_cons,
      List.length_nil, Nat.and_two_pow_sub_one_eq_mod _ 5, Nat.shiftRight_eq_div_pow]
    omega
  have hsix : (bech32CreateChecksum hrp data .bech32m).length ≤ 6 := by
    rw [hcreate]
    rfl
  have h32 : ∀ v ∈ bech32CreateChecksum hrp data .bech32m, v < 2 ^ 5 := fun v hv => by
    rw [hcreate] at hv
    obtain ⟨i, -, rfl⟩ := List.mem_map.1 hv
    exact Nat.and_lt_two_pow (n := 5) _ (by norm_num)
  have hsum := @bech32Polymod_zeros _ (pre.foldl bech32PolymodStep 1)
    (pre.foldl bech32PolymodStep 1) hsix h32 (by simp)
  rw [Nat.xor_self, Nat.zero_mul, Nat.zero_add, hdigits, hp,
    show List.replicate (bech32CreateChecksum hrp data .bech32m).length 0 = [0, 0, 0, 0, 0, 0] by
      rw [hcreate]; rfl, ← List.foldl_append, ← List.foldl_append] at hsum
  have hpoly : bech32Polymod (pre ++ bech32CreateChecksum hrp data .bech32m) = bech32mConst := by
    rw [bech32Polymod]
    have := congrArg (· ^^^ bech32Polymod (pre ++ [0, 0, 0, 0, 0, 0])) hsum
    simpa [bech32Polymod, Nat.xor_assoc, Nat.xor_comm bech32mConst, Nat.xor_self] using this
  rw [bech32VerifyChecksum, ← List.append_assoc, ← hpre, hpoly]
  rfl

/-! ## The text -/

theorem splitLastOne_eq {h t : Str} (ht : '1' ∉ t) : splitLastOne (h ++ '1' :: t) = (h, t) := by
  have hne : ∀ c ∈ t.reverse, decide (c ≠ '1') = true := fun c hc =>
    decide_eq_true fun heq => ht (heq ▸ List.mem_reverse.1 hc)
  rw [splitLastOne, List.reverse_append, List.reverse_cons, List.append_assoc,
    List.singleton_append, List.dropWhile_append_of_pos hne, List.takeWhile_append_of_pos hne]
  simp

theorem mem_bech32Charset {c : Char} (h : c ∈ bech32Charset) :
    33 ≤ c.toNat ∧ c.toNat ≤ 126 ∧ c.toLower = c ∧ c ≠ '1' := by
  have hall : bech32Charset.all (fun c =>
      33 ≤ c.toNat ∧ c.toNat ≤ 126 ∧ c.toLower = c ∧ c ≠ '1') = true := by
    decide +kernel
  exact of_decide_eq_true (List.all_eq_true.1 hall c h)

theorem getD_bech32Charset {d : ℕ} (h : d < 2 ^ 5) :
    bech32Charset.getD d 'q' ∈ bech32Charset ∧ bech32Charset.idxOf (bech32Charset.getD d 'q') = d := by
  have hd : d < bech32Charset.length := h
  rw [List.getD_eq_getElem _ _ hd]
  exact ⟨List.getElem_mem hd, List.Nodup.idxOf_getElem (by decide) d hd⟩

/-- A part before the separator that is read as it is written. -/
def PlainHrp (hrp : Str) : Prop :=
  hrp ≠ [] ∧ ∀ c ∈ hrp, 33 ≤ c.toNat ∧ c.toNat ≤ 126 ∧ c.toLower = c

theorem bech32CreateChecksum_lt {hrp : Str} {data : List ℕ} (hdata : ∀ d ∈ data, d < 2 ^ 5) :
    ∀ d ∈ data ++ bech32CreateChecksum hrp data .bech32m, d < 2 ^ 5 := by
  intro d hd
  rcases List.mem_append.1 hd with hd | hd
  · exact hdata d hd
  · obtain ⟨i, -, rfl⟩ := List.mem_map.1 hd
    exact Nat.and_lt_two_pow (n := 5) _ (by norm_num)

/-- What is written is printable and in lower case. -/
theorem bech32Encode_chars {hrp : Str} {data : List ℕ} (hhrp : PlainHrp hrp)
    (hdata : ∀ d ∈ data, d < 2 ^ 5) :
    ∀ c ∈ bech32Encode hrp data .bech32m, 33 ≤ c.toNat ∧ c.toNat ≤ 126 ∧ c.toLower = c := by
  intro c hc
  rcases List.mem_append.1 hc with hc | hc
  · exact hhrp.2 c hc
  · rcases List.mem_cons.1 hc with rfl | hc
    · decide
    · obtain ⟨d, hd, rfl⟩ := List.mem_map.1 hc
      obtain ⟨h1, h2, h3, -⟩ := mem_bech32Charset
        (getD_bech32Charset (bech32CreateChecksum_lt hdata d hd)).1
      exact ⟨h1, h2, h3⟩

theorem bech32Encode_lower {hrp : Str} {data : List ℕ} (hhrp : PlainHrp hrp)
    (hdata : ∀ d ∈ data, d < 2 ^ 5) :
    (bech32Encode hrp data .bech32m).map Char.toLower = bech32Encode hrp data .bech32m :=
  (List.map_congr_left fun c hc => (bech32Encode_chars hhrp hdata c hc).2.2).trans (List.map_id _)

/-- **What was encoded is decoded.** -/
theorem bech32Decode_encode {hrp : Str} {data : List ℕ} (hhrp : PlainHrp hrp)
    (hdata : ∀ d ∈ data, d < 2 ^ 5) (hlen : hrp.length + data.length ≤ 83) :
    bech32Decode (bech32Encode hrp data .bech32m) = some (hrp, data, .bech32m) := by
  have hchars := bech32Encode_chars hhrp hdata
  have hlower := bech32Encode_lower hhrp hdata
  have hall := @bech32CreateChecksum_lt hrp data hdata
  set sum := bech32CreateChecksum hrp data .bech32m with hsum
  have hsum6 : sum.length = 6 := rfl
  set tail := (data ++ sum).map fun d => bech32Charset.getD d 'q' with htail
  have hencode : bech32Encode hrp data .bech32m = hrp ++ '1' :: tail := rfl
  rw [hencode] at hchars hlower ⊢
  have hmem : ∀ c ∈ tail, c ∈ bech32Charset := fun c hc => by
    obtain ⟨d, hd, rfl⟩ := List.mem_map.1 hc
    exact (getD_bech32Charset (hall d hd)).1
  have hidx : tail.map (bech32Charset.idxOf ·) = data ++ sum := by
    rw [htail, List.map_map]
    exact (List.map_congr_left fun d hd => (getD_bech32Charset (hall d hd)).2).trans (List.map_id _)
  have hone : '1' ∉ tail := fun h => (mem_bech32Charset (hmem _ h)).2.2.2 rfl
  have hrange : (hrp ++ '1' :: tail).any (fun x => x.toNat < 33 || 126 < x.toNat) = false := by
    rw [List.any_eq_false]
    intro c hc
    obtain ⟨h1, h2, -⟩ := hchars c hc
    simp only [Bool.or_eq_true, decide_eq_true_eq]
    omega
  have htlen : tail.length = data.length + 6 := by
    rw [htail, List.length_map, List.length_append, hsum6]
  have hpos := List.length_pos_of_ne_nil hhrp.1
  have hshape : ¬ ('1' ∉ hrp ++ '1' :: tail ∨ hrp.length < 1 ∨
      (hrp ++ '1' :: tail).length < hrp.length + 7 ∨ 90 < (hrp ++ '1' :: tail).length) := by
    rw [List.length_append, List.length_cons]
    rintro (h | h | h | h)
    · exact h (by simp)
    · omega
    · omega
    · omega
  have hverify : bech32VerifyChecksum hrp (tail.map fun x => bech32Charset.idxOf x) =
      some .bech32m := by
    rw [hidx, hsum]
    exact bech32VerifyChecksum_create hrp data
  rw [bech32Decode, hrange, if_neg Bool.false_ne_true, hlower, if_neg fun h => h.1 rfl]
  simp only [splitLastOne_eq hone]
  rw [if_neg hshape, if_neg (by simpa using hmem), hverify, hidx]
  simp [hsum6]

/-- **Thirty-two bytes are read back from their text.** -/
theorem decode32_encode32 {hrp : Str} {bytes : Bytes} (hhrp : PlainHrp hrp)
    (hlen : hrp.length ≤ 31) (h32 : bytes.length = 32) :
    (encode32 hrp bytes).bind (decode32 hrp) = some bytes := by
  have hl : (bytes.map UInt8.toNat).length = 32 := by rw [List.length_map, h32]
  have hd : ∀ x ∈ bytes.map UInt8.toNat, x < 2 ^ 8 := fun x hx => by
    obtain ⟨b, -, rfl⟩ := List.mem_map.1 hx
    exact b.toNat_lt
  obtain ⟨groups, hgroups, hg, hg32, hval⟩ := convertbits_pad hl hd
  have hback : (bytes.map UInt8.toNat).map UInt8.ofNat = bytes := by
    rw [List.map_map]
    exact (List.map_congr_left fun b _ => UInt8.ofNat_toNat).trans (List.map_id _)
  rw [encode32, if_neg (not_not.2 h32), hgroups, Option.map_some, Option.bind_some, decode32,
    bech32Decode_encode hhrp hg32 (by omega)]
  simp only [ne_eq, not_true, if_false, convertbits_unpad hl hd hg hg32 hval, hl, hback]

/-- **An accepted text is, in lower case, the text of its bytes.** -/
theorem encode32_decode32 {hrp s : Str} {bytes : Bytes} (hhrp : PlainHrp hrp)
    (hlen : hrp.length ≤ 31) (h : decode32 hrp s = some bytes) :
    encode32 hrp bytes = some (s.map Char.toLower) := by
  have h32 : bytes.length = 32 := by
    unfold decode32 at h
    split at h
    · split_ifs at h
      split at h
      · cases h
      · split_ifs at h with hl
        rw [← Option.some.inj h, List.length_map, not_not.1 hl]
    · cases h
  obtain ⟨t, ht, hback⟩ := Option.bind_eq_some_iff.1 (decode32_encode32 hhrp hlen h32)
  have hd : ∀ x ∈ bytes.map UInt8.toNat, x < 2 ^ 8 := fun x hx => by
    obtain ⟨b, -, rfl⟩ := List.mem_map.1 hx
    exact b.toNat_lt
  obtain ⟨groups, hgroups, -, hg32, -⟩ := convertbits_pad (by rw [List.length_map, h32]) hd
  have hlower : t.map Char.toLower = t := by
    rw [encode32, if_neg (not_not.2 h32), hgroups, Option.map_some, Option.some.injEq] at ht
    rw [← ht]
    exact bech32Encode_lower hhrp hg32
  rw [ht, decode32_lower h hback, hlower]

/-- No text is read under two prefixes. -/
theorem decode32_disjoint {hrp hrp' s : Str} (hne : hrp ≠ hrp') (h : (decode32 hrp s).isSome) :
    decode32 hrp' s = none := by
  obtain ⟨k, hk⟩ := Option.isSome_iff_exists.1 h
  unfold decode32 at hk ⊢
  split at hk
  · rename_i h data hdec
    split_ifs at hk with hhrp
    rw [not_not] at hhrp
    rw [if_pos (hhrp ▸ hne)]
  · cases hk

/-! ## Its bytes -/

theorem bech32Decode_printable {s hrp : Str} {data : List ℕ} {spec : Bech32Encoding}
    (h : bech32Decode s = some (hrp, data, spec)) : ∀ c ∈ s, 33 ≤ c.toNat ∧ c.toNat ≤ 126 := by
  intro c hc
  unfold bech32Decode at h
  split_ifs at h with hrange
  rw [Bool.not_eq_true, List.any_eq_false] at hrange
  have := hrange c hc
  simp only [Bool.or_eq_true, decide_eq_true_eq, not_or, not_lt] at this
  omega

theorem bech32Decode_range {s hrp : Str} {data : List ℕ} {spec : Bech32Encoding}
    (h : bech32Decode s = some (hrp, data, spec)) : ∀ c ∈ s, c.toNat < 128 := by
  intro c hc
  have := bech32Decode_printable h c hc
  omega

theorem plainHrp_addressHrp : PlainHrp addressHrp := by
  refine ⟨by decide, fun c hc => ?_⟩
  have hall : addressHrp.all (fun c => 33 ≤ c.toNat ∧ c.toNat ≤ 126 ∧ c.toLower = c) = true := by
    decide +kernel
  exact of_decide_eq_true (List.all_eq_true.1 hall c hc)

theorem plainHrp_secretHrp : PlainHrp secretHrp := by
  refine ⟨by decide, fun c hc => ?_⟩
  have hall : secretHrp.all (fun c => 33 ≤ c.toNat ∧ c.toNat ≤ 126 ∧ c.toLower = c) = true := by
    decide +kernel
  exact of_decide_eq_true (List.all_eq_true.1 hall c hc)

/-- **A secret is read back from the bytes of its text.** -/
theorem decodeSecret_encodeSecret {seed : Bytes} {secret : Str}
    (h : encodeSecret seed = some secret) :
    (utf8Decode (utf8Encode secret)).bind decodeSecret = some seed := by
  have h32 : seed.length = 32 := by
    unfold encodeSecret encode32 at h
    split_ifs at h with hl
    exact not_not.1 hl
  have hback : decodeSecret secret = some seed := by
    have := decode32_encode32 plainHrp_secretHrp (by decide) h32
    rwa [show encode32 secretHrp seed = some secret from h, Option.bind_some] at this
  rw [utf8Decode_utf8Encode, Option.bind_some, hback]

end GumptionChain
