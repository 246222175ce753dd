import GumptionChain.Codec.Bech32

/-!
# How a key may be spelled

An accepted address determines its key; the key determines the address but for
its case.

* `convertbits_injective` — regrouped bits determine the groups they came from;
* `bech32Checksum_unique` — so does a checksum its last six symbols;
* `decodeAddress_lower`, `decodeAddress_eq_iff` — two addresses of one key are the
  same text in one case or the other.
-/

namespace GumptionChain

/-! ## Regrouping -/

/-- The number whose groups of `w` bits are given, most significant first. -/
def groupsValue (w : ℕ) (xs : List ℕ) : ℕ := Nat.ofDigits (2 ^ w) xs.reverse

@[simp] theorem groupsValue_nil (w : ℕ) : groupsValue w [] = 0 := rfl

theorem groupsValue_cons (w x : ℕ) (xs : List ℕ) :
    groupsValue w (x :: xs) = x * 2 ^ (w * xs.length) + groupsValue w xs := by
  rw [groupsValue, List.reverse_cons, Nat.ofDigits_append, Nat.ofDigits_singleton,
    List.length_reverse, ← pow_mul, groupsValue]
  ring

theorem groupsValue_append (w : ℕ) (xs ys : List ℕ) :
    groupsValue w (xs ++ ys) = groupsValue w xs * 2 ^ (w * ys.length) + groupsValue w ys := by
  rw [groupsValue, List.reverse_append, Nat.ofDigits_append, List.length_reverse, ← pow_mul,
    groupsValue, groupsValue]
  ring

theorem groupsValue_injective {w : ℕ} (hw : w ≠ 0) {xs ys : List ℕ} (hl : xs.length = ys.length)
    (hx : ∀ x ∈ xs, x < 2 ^ w) (hy : ∀ y ∈ ys, y < 2 ^ w)
    (h : groupsValue w xs = groupsValue w ys) : xs = ys := by
  refine List.reverse_injective (Nat.ofDigits_inj_of_len_eq (Nat.one_lt_two_pow hw) (by simpa)
    (fun x hmem => hx x (List.mem_reverse.1 hmem)) (fun y hmem => hy y (List.mem_reverse.1 hmem)) h)

/-- Draining keeps the bits: those emitted, then those left. -/
theorem convertbitsDrain_spec {t : ℕ} (ht : 0 < t) (acc : ℕ) : ∀ {fuel bits : ℕ}, bits ≤ fuel →
    (convertbitsDrain t acc fuel bits).2 < t ∧
      bits = t * (convertbitsDrain t acc fuel bits).1.length +
        (convertbitsDrain t acc fuel bits).2 ∧
      acc % 2 ^ bits = groupsValue t (convertbitsDrain t acc fuel bits).1 *
        2 ^ (convertbitsDrain t acc fuel bits).2 +
          acc % 2 ^ (convertbitsDrain t acc fuel bits).2
  | 0, bits, h => by
    obtain rfl : bits = 0 := Nat.le_zero.1 h
    simp [convertbitsDrain, ht]
  | fuel + 1, bits, h => by
    rw [convertbitsDrain]
    by_cases hb : t ≤ bits
    · obtain ⟨hlt, hlen, hval⟩ := convertbitsDrain_spec ht acc
        (show bits - t ≤ fuel by omega)
      simp only [if_pos hb, List.length_cons, groupsValue_cons]
      refine ⟨hlt, by rw [Nat.mul_add]; omega, ?_⟩
      have hsplit : acc % 2 ^ bits =
          acc % 2 ^ (bits - t) + 2 ^ (bits - t) * (acc / 2 ^ (bits - t) % 2 ^ t) := by
        rw [← Nat.mod_mul, ← pow_add, Nat.sub_add_cancel hb]
      have hpow : 2 ^ (bits - t) = 2 ^ (t * (convertbitsDrain t acc fuel (bits - t)).1.length) *
          2 ^ (convertbitsDrain t acc fuel (bits - t)).2 := by
        rw [← pow_add, ← hlen]
      rw [Nat.and_two_pow_sub_one_eq_mod, Nat.shiftRight_eq_div_pow, hsplit, hval]
      generalize acc / 2 ^ (bits - t) % 2 ^ t = top
      rw [hpow]
      ring
    · simp only [if_neg hb]
      exact ⟨Nat.lt_of_not_le hb, by simp, by simp⟩

/-- The loop keeps the bits: those before, with the groups read, are those
emitted and those left. -/
theorem convertbitsLoop_spec {f t : ℕ} (ht : 0 < t) : ∀ {data ret : List ℕ}
    {acc bits acc' bits' : ℕ}, bits < t →
    convertbitsLoop f t acc bits data = some (ret, acc', bits') →
    bits' < t ∧ bits + f * data.length = t * ret.length + bits' ∧
      (acc % 2 ^ bits) * 2 ^ (f * data.length) + groupsValue f data =
        groupsValue t ret * 2 ^ bits' + acc' % 2 ^ bits'
  | [], ret, acc, bits, acc', bits', hb, h => by
    simp only [convertbitsLoop, Option.some.injEq, Prod.mk.injEq] at h
    obtain ⟨rfl, rfl, rfl⟩ := h
    exact ⟨hb, by simp, by simp⟩
  | value :: rest, ret, acc, bits, acc', bits', hb, h => by
    rw [convertbitsLoop] at h
    split_ifs at h with hv
    rw [not_not, Nat.shiftRight_eq_div_pow, Nat.div_eq_zero_iff_lt (by positivity)] at hv
    obtain ⟨⟨ret', acc'', bits''⟩, hrec, heq⟩ := Option.map_eq_some_iff.1 h
    simp only [Prod.mk.injEq] at heq
    obtain ⟨rfl, rfl, rfl⟩ := heq
    obtain ⟨hlt, hlen, hval⟩ := convertbitsDrain_spec ht
      (((acc <<< f) ||| value) &&& (2 ^ (f + t - 1) - 1)) (le_refl (bits + f))
    obtain ⟨hlt', hlen', hval'⟩ := convertbitsLoop_spec ht hlt hrec
    -- the accumulator is wide enough for the bits it still holds
    have hacc : (((acc <<< f) ||| value) &&& (2 ^ (f + t - 1) - 1)) % 2 ^ (bits + f) =
        acc % 2 ^ bits * 2 ^ f + value := by
      rw [Nat.and_two_pow_sub_one_eq_mod, Nat.mod_mod_of_dvd _ (Nat.pow_dvd_pow 2 (by omega)),
        ← Nat.shiftLeft_add_eq_or_of_lt hv, Nat.shiftLeft_eq, Nat.add_comm bits f, pow_add,
        Nat.mod_mul, Nat.mul_add_mod_self_right, Nat.mod_eq_of_lt hv, Nat.add_comm (acc * 2 ^ f),
        Nat.add_mul_div_right _ _ (by positivity), Nat.div_eq_of_lt hv, Nat.zero_add]
      ring
    rw [hacc] at hval
    simp only [List.length_append, List.length_cons]
    refine ⟨hlt', by rw [Nat.mul_add, Nat.mul_add]; omega, ?_⟩
    rw [groupsValue_cons, groupsValue_append, Nat.add_mul, Nat.mul_assoc _ (2 ^ (t * _)), ← pow_add,
      ← hlen', pow_add, Nat.add_assoc, ← hval', Nat.mul_add f, pow_add]
    linear_combination (2 ^ (f * rest.length)) * hval
  termination_by data => data.length

theorem convertbitsDrain_lt {t acc : ℕ} : ∀ {fuel bits : ℕ},
    ∀ x ∈ (convertbitsDrain t acc fuel bits).1, x < 2 ^ t
  | 0, _, x, hx => absurd hx (by simp [convertbitsDrain])
  | fuel + 1, bits, x, hx => by
    rw [convertbitsDrain] at hx
    split_ifs at hx with hb
    · rcases List.mem_cons.1 hx with rfl | hx
      · exact Nat.and_lt_two_pow _ (Nat.sub_lt (by positivity) one_pos)
      · exact convertbitsDrain_lt x hx
    · exact absurd hx (by simp)

theorem convertbitsLoop_lt {f t : ℕ} : ∀ {data ret : List ℕ} {acc bits acc' bits' : ℕ},
    convertbitsLoop f t acc bits data = some (ret, acc', bits') → ∀ x ∈ ret, x < 2 ^ t
  | [], ret, _, _, _, _, h, x, hx => by
    simp only [convertbitsLoop, Option.some.injEq, Prod.mk.injEq] at h
    rw [← h.1] at hx
    exact absurd hx (by simp)
  | value :: rest, ret, acc, bits, acc', bits', h, x, hx => by
    rw [convertbitsLoop] at h
    split_ifs at h
    obtain ⟨r, hrec, heq⟩ := Option.map_eq_some_iff.1 h
    simp only [Prod.mk.injEq] at heq
    rw [← heq.1] at hx
    rcases List.mem_append.1 hx with hx | hx
    · exact convertbitsDrain_lt x hx
    · exact convertbitsLoop_lt hrec x hx

theorem convertbits_lt {f t : ℕ} {data ret : List ℕ} (h : convertbits data f t false = some ret) :
    ∀ x ∈ ret, x < 2 ^ t := by
  unfold convertbits at h
  split at h
  · exact absurd h (by simp)
  · rename_i hloop
    simp only [Bool.false_eq_true, if_false] at h
    split_ifs at h
    obtain rfl := Option.some.inj h
    exact convertbitsLoop_lt hloop

/-- **Groups regrouped without padding can be read back.** -/
theorem convertbits_injective {f t : ℕ} (hf : 0 < f) (ht : 0 < t) {data data' ret : List ℕ}
    (hft : f ≤ t) (hd : ∀ x ∈ data, x < 2 ^ f) (hd' : ∀ x ∈ data', x < 2 ^ f)
    (h : convertbits data f t false = some ret) (h' : convertbits data' f t false = some ret) :
    data = data' := by
  -- what is left is less than one group, and zero
  have hread : ∀ {data : List ℕ}, convertbits data f t false = some ret →
      ∃ bits < f, f * data.length = t * ret.length + bits ∧
        groupsValue f data = groupsValue t ret * 2 ^ bits := by
    intro data h
    unfold convertbits at h
    split at h
    · exact absurd h (by simp)
    · rename_i ret' acc bits hloop
      simp only [Bool.false_eq_true, if_false] at h
      split_ifs at h with hpad
      obtain rfl := Option.some.inj h
      push Not at hpad
      obtain ⟨-, hlen, hval⟩ := convertbitsLoop_spec ht ht hloop
      have hzero : acc % 2 ^ bits = 0 := by
        have hlast := hpad.2
        rw [Nat.and_two_pow_sub_one_eq_mod, Nat.shiftLeft_eq] at hlast
        have hdvd : 2 ^ (t - bits) * 2 ^ bits ∣ 2 ^ (t - bits) * acc := by
          rw [← pow_add, Nat.sub_add_cancel (hpad.1.le.trans hft), Nat.mul_comm]
          exact Nat.dvd_of_mod_eq_zero hlast
        exact Nat.mod_eq_zero_of_dvd (Nat.dvd_of_mul_dvd_mul_left (by positivity) hdvd)
      refine ⟨bits, hpad.1, by simpa using hlen, ?_⟩
      simpa [hzero] using hval
  obtain ⟨bits, hb, hlen, hval⟩ := hread h
  obtain ⟨bits', hb', hlen', hval'⟩ := hread h'
  have hbits : data.length = data'.length ∧ bits = bits' := by
    rcases lt_trichotomy data.length data'.length with hlt | heq | hlt
    · have := Nat.mul_le_mul_left f hlt
      rw [Nat.mul_succ] at this
      omega
    · refine ⟨heq, ?_⟩
      rw [heq] at hlen
      omega
    · have := Nat.mul_le_mul_left f hlt
      rw [Nat.mul_succ] at this
      omega
  obtain ⟨hl, rfl⟩ := hbits
  exact groupsValue_injective hf.ne' hl hd hd' (hval.trans hval'.symm)

/-! ## The checksum -/

/-- What the five top bits feed back into the checksum. -/
def bech32Feedback (top : ℕ) : ℕ :=
  (bech32Generator.zipIdx).foldl (fun chk g => chk ^^^ (if (top >>> g.2) &&& 1 = 1 then g.1 else 0)) 0

theorem bech32PolymodStep_eq (chk value : ℕ) : bech32PolymodStep chk value =
    ((chk &&& 0x1FFFFFF) <<< 5) ^^^ value ^^^ bech32Feedback (chk >>> 25) := by
  simp only [bech32PolymodStep, bech32Feedback, bech32Generator, List.zipIdx_cons, List.zipIdx_nil,
    List.foldl_cons, List.foldl_nil, Nat.zero_xor, Nat.xor_assoc]

/-- Two checksums that agree in their top five bits differ, after a symbol each, by
what they differed by, shifted, and by the symbols. -/
theorem bech32PolymodStep_xor {a b v w : ℕ} (h : a ^^^ b < 2 ^ 25) :
    bech32PolymodStep a v ^^^ bech32PolymodStep b w = ((a ^^^ b) <<< 5) ^^^ (v ^^^ w) := by
  have htop : a >>> 25 = b >>> 25 := by
    rw [← Nat.xor_eq_zero_iff, ← Nat.shiftRight_xor_distrib, Nat.shiftRight_eq_div_pow,
      Nat.div_eq_of_lt h]
  have hlow : (a &&& 0x1FFFFFF) <<< 5 ^^^ (b &&& 0x1FFFFFF) <<< 5 = (a ^^^ b) <<< 5 := by
    rw [← Nat.shiftLeft_xor_distrib, ← Nat.and_xor_distrib_right]
    exact congrArg (· <<< 5) (Nat.and_two_pow_sub_one_of_lt_two_pow h)
  rw [bech32PolymodStep_eq, bech32PolymodStep_eq, htop, ← hlow]
  generalize (a &&& 0x1FFFFFF) <<< 5 = x
  generalize (b &&& 0x1FFFFFF) <<< 5 = y
  generalize bech32Feedback (b >>> 25) = z
  calc x ^^^ v ^^^ z ^^^ (y ^^^ w ^^^ z) = x ^^^ y ^^^ (v ^^^ w) ^^^ (z ^^^ z) := by ac_rfl
    _ = x ^^^ y ^^^ (v ^^^ w) := by rw [Nat.xor_self, Nat.xor_zero]

/-- Up to six symbols after checksums that agree in all but their lowest bits: equal
results come from equal checksums and equal symbols. -/
theorem bech32Polymod_tail : ∀ {vs ws : List ℕ} {a b : ℕ}, vs.length = ws.length →
    vs.length ≤ 6 → (∀ v ∈ vs, v < 32) → (∀ w ∈ ws, w < 32) →
    a ^^^ b < 2 ^ (30 - 5 * vs.length) →
    vs.foldl bech32PolymodStep a = ws.foldl bech32PolymodStep b → a = b ∧ vs = ws
  | [], [], a, b, _, _, _, _, _, h => ⟨h, rfl⟩
  | [], _ :: _, _, _, hl, _, _, _, _, _ => absurd hl (by simp)
  | _ :: _, [], _, _, hl, _, _, _, _, _ => absurd hl (by simp)
  | v :: vs, w :: ws, a, b, hl, h6, hv, hw, hd, h => by
    rw [List.length_cons] at h6 hd
    have hvw : v ^^^ w < 2 ^ 5 :=
      Nat.xor_lt_two_pow (hv v List.mem_cons_self) (hw w List.mem_cons_self)
    have h25 : a ^^^ b < 2 ^ 25 := hd.trans_le (Nat.pow_le_pow_right two_pos (by omega))
    have hstep := bech32PolymodStep_xor (v := v) (w := w) h25
    have hnext : bech32PolymodStep a v ^^^ bech32PolymodStep b w < 2 ^ (30 - 5 * vs.length) := by
      rw [hstep]
      refine Nat.xor_lt_two_pow ?_ (hvw.trans_le (Nat.pow_le_pow_right two_pos (by omega)))
      rw [Nat.shiftLeft_eq, show 30 - 5 * vs.length = 30 - 5 * (vs.length + 1) + 5 by omega, pow_add]
      exact Nat.mul_lt_mul_of_pos_right hd (by norm_num)
    obtain ⟨heq, rfl⟩ := bech32Polymod_tail (by simpa using hl) (by omega)
      (fun x hx => hv x (List.mem_cons_of_mem _ hx)) (fun x hx => hw x (List.mem_cons_of_mem _ hx))
      hnext h
    rw [heq, Nat.xor_self] at hstep
    have hsame : (a ^^^ b) <<< 5 = v ^^^ w := Nat.xor_eq_zero_iff.1 hstep.symm
    rw [Nat.shiftLeft_eq] at hsame
    have hab : a ^^^ b = 0 := by omega
    rw [hab, Nat.zero_mul] at hsame
    exact ⟨Nat.xor_eq_zero_iff.1 hab, by rw [Nat.xor_eq_zero_iff.1 hsame.symm]⟩

/-- **The last six symbols are determined by those before them.** -/
theorem bech32Checksum_unique {pre vs ws : List ℕ} (hv : vs.length = 6) (hw : ws.length = 6)
    (hv32 : ∀ v ∈ vs, v < 32) (hw32 : ∀ w ∈ ws, w < 32)
    (h : bech32Polymod (pre ++ vs) = bech32Polymod (pre ++ ws)) : vs = ws := by
  rw [bech32Polymod, bech32Polymod, List.foldl_append, List.foldl_append] at h
  exact (bech32Polymod_tail (hv.trans hw.symm) hv.le hv32 hw32 (by simp) h).2

/-! ## Spellings -/

/-- An accepted text: in one case, and in lower case its prefix, the groups of its
bytes and six symbols with their checksum. -/
theorem decode32_eq_some {hrp s : Str} {k : Bytes} (h : decode32 hrp s = some k) :
    (s.map Char.toLower = s ∨ s.map Char.toUpper = s) ∧
      ∃ data sum : List ℕ, ∃ tail : Str, s.map Char.toLower = hrp ++ '1' :: tail ∧
        (∀ c ∈ tail, c ∈ bech32Charset) ∧ tail.map (bech32Charset.idxOf ·) = data ++ sum ∧
        sum.length = 6 ∧ bech32Polymod (bech32HrpExpand hrp ++ data ++ sum) = bech32mConst ∧
        convertbits data 5 8 false = some (k.map UInt8.toNat) := by
  unfold decode32 at h
  split at h
  · rename_i data hdec
    split_ifs at h with hhrp
    rw [not_not] at hhrp
    subst hhrp
    split at h
    · exact absurd h (by simp)
    · rename_i decoded hconv
      split_ifs at h with hlen
      unfold bech32Decode at hdec
      simp only at hdec
      split_ifs at hdec with h1 h2 h3 h4
      split at hdec
      · exact absurd hdec (by simp)
      · rename_i spec hspec
        simp only [Option.some.injEq, Prod.mk.injEq] at hdec h
        obtain ⟨hhrp, hdata, rfl⟩ := hdec
        push Not at h3 h2
        have hsplit := splitLastOne_append h3.1
        have hcase : s.map Char.toLower = s ∨ s.map Char.toUpper = s :=
          or_iff_not_imp_left.2 h2
        have hmem : ∀ c ∈ (splitLastOne (s.map Char.toLower)).2, c ∈ bech32Charset := by
          simpa using h4
        generalize (splitLastOne (s.map Char.toLower)).2 = tail at *
        rw [hhrp] at hsplit hspec
        have hlong : 6 ≤ tail.length := by
          have hl := congrArg List.length hsplit
          have := h3.2.2.1
          rw [hhrp] at this
          simp only [List.length_append, List.length_cons] at hl
          omega
        refine ⟨hcase, data, (tail.map (bech32Charset.idxOf ·)).drop (tail.length - 6), tail,
          hsplit, hmem, ?_, ?_, ?_, ?_⟩
        · rw [← hdata, List.length_map, List.take_append_drop]
        · rw [List.length_drop, List.length_map]
          omega
        · rw [← hdata, List.length_map, List.append_assoc, List.take_append_drop]
          unfold bech32VerifyChecksum at hspec
          simp only at hspec
          split_ifs at hspec with h1 hm
          · exact absurd hspec (by simp)
          · exact hm
        · rw [hconv, ← h, List.map_map]
          refine congrArg some ((List.map_congr_left fun x hx => ?_).trans (List.map_id _)).symm
          exact UInt8.toNat_ofNat_of_lt' (convertbits_lt hconv x hx)
  · exact absurd h (by simp)

/-- An accepted address: in one case, and in lower case `gc1`, the groups of its
key and six symbols with their checksum. -/
theorem decodeAddress_eq_some {s : Str} {k : Bytes} (h : decodeAddress s = some k) :
    (s.map Char.toLower = s ∨ s.map Char.toUpper = s) ∧
      ∃ data sum : List ℕ, ∃ tail : Str, s.map Char.toLower = addressHrp ++ '1' :: tail ∧
        (∀ c ∈ tail, c ∈ bech32Charset) ∧ tail.map (bech32Charset.idxOf ·) = data ++ sum ∧
        sum.length = 6 ∧ bech32Polymod (bech32HrpExpand addressHrp ++ data ++ sum) = bech32mConst ∧
        convertbits data 5 8 false = some (k.map UInt8.toNat) :=
  decode32_eq_some h

/-- The letters of the character set are told apart by their positions. -/
theorem map_idxOf_injective {s t : Str} (hs : ∀ c ∈ s, c ∈ bech32Charset)
    (ht : ∀ c ∈ t, c ∈ bech32Charset)
    (h : s.map (bech32Charset.idxOf ·) = t.map (bech32Charset.idxOf ·)) : s = t := by
  have hback : ∀ {s : Str}, (∀ c ∈ s, c ∈ bech32Charset) →
      (s.map (bech32Charset.idxOf ·)).map (bech32Charset.getD · 'q') = s := by
    intro s hs
    rw [List.map_map]
    refine (List.map_congr_left fun c hc => ?_).trans (List.map_id _)
    have hlt := List.idxOf_lt_length_of_mem (hs c hc)
    rw [Function.comp_apply, List.getD_eq_getElem _ _ hlt, List.getElem_idxOf hlt]
    rfl
  rw [← hback hs, ← hback ht, h]

/-- **Two texts of the same bytes are one text, in lower case.** -/
theorem decode32_lower {hrp s s' : Str} {k : Bytes} (h : decode32 hrp s = some k)
    (h' : decode32 hrp s' = some k) : s.map Char.toLower = s'.map Char.toLower := by
  obtain ⟨-, data, sum, tail, hs, hmem, hval, hsum, hpoly, hconv⟩ := decode32_eq_some h
  obtain ⟨-, data', sum', tail', hs', hmem', hval', hsum', hpoly', hconv'⟩ := decode32_eq_some h'
  have hlt : ∀ {tail : Str}, (∀ c ∈ tail, c ∈ bech32Charset) →
      ∀ x ∈ tail.map (bech32Charset.idxOf ·), x < 2 ^ 5 := by
    intro tail hmem x hx
    obtain ⟨c, hc, rfl⟩ := List.mem_map.1 hx
    exact List.idxOf_lt_length_of_mem (hmem c hc)
  have hx := hval ▸ hlt hmem
  have hx' := hval' ▸ hlt hmem'
  rw [List.forall_mem_append] at hx hx'
  obtain rfl : data = data' :=
    convertbits_injective (by norm_num) (by norm_num) (by norm_num) hx.1 hx'.1 hconv hconv'
  obtain rfl : sum = sum' := bech32Checksum_unique hsum hsum' hx.2 hx'.2 (hpoly.trans hpoly'.symm)
  rw [hs, hs', map_idxOf_injective hmem hmem' (hval.trans hval'.symm)]

/-- **Two addresses of one key are one text, in lower case.** -/
theorem decodeAddress_lower {s s' : Str} {k : Bytes} (h : decodeAddress s = some k)
    (h' : decodeAddress s' = some k) : s.map Char.toLower = s'.map Char.toLower :=
  decode32_lower h h'

/-- Both texts have a capital, or neither has. -/
def SameCase (s s' : Str) : Prop := s.any Char.isUpper = s'.any Char.isUpper

instance (s s' : Str) : Decidable (SameCase s s') := inferInstanceAs (Decidable (_ = _))

/-- An accepted address is its lower-case form unless it has a capital, when it is
its upper-case form. -/
theorem decodeAddress_case {s : Str} {k : Bytes} (h : decodeAddress s = some k) :
    s = if s.any Char.isUpper then (s.map Char.toLower).map Char.toUpper
      else s.map Char.toLower := by
  split_ifs with hup
  · obtain ⟨c, hc, hcu⟩ := List.any_eq_true.1 hup
    rcases (decodeAddress_eq_some h).1 with hlow | hupp
    · obtain ⟨d, -, hd⟩ := List.mem_map.1 (hlow.symm ▸ hc : c ∈ s.map Char.toLower)
      rw [← hd, Char.isUpper_toLower_eq_false] at hcu
      exact absurd hcu (by simp)
    · rw [List.map_map]
      refine hupp.symm.trans (List.map_congr_left fun c _ => ?_)
      exact (Char.toUpper_toLower_eq_toUpper c).symm
  · refine ((List.map_congr_left fun c hc => ?_).trans (List.map_id _)).symm
    refine Char.toLower_eq_of_not_isUpper fun hcu => hup ?_
    exact List.any_eq_true.2 ⟨c, hc, hcu⟩

/-- **Two addresses of one key are equal just when they are written in one case.** -/
theorem decodeAddress_eq_iff {s s' : Str} {k : Bytes} (h : decodeAddress s = some k)
    (h' : decodeAddress s' = some k) : s = s' ↔ SameCase s s' := by
  constructor
  · rintro rfl
    exact rfl
  · intro hcase
    rw [decodeAddress_case h, decodeAddress_case h', decodeAddress_lower h h',
      show s.any Char.isUpper = s'.any Char.isUpper from hcase]

/-! ## Every key has an address -/

theorem convertbitsLoop_isSome {f t : ℕ} : ∀ {data : List ℕ} {acc bits : ℕ},
    (∀ v ∈ data, v < 2 ^ f) → (convertbitsLoop f t acc bits data).isSome := by
  intro data
  induction data with
  | nil => intros; rfl
  | cons v data ih =>
    intro acc bits h
    have hv : v >>> f = 0 := by
      rw [Nat.shiftRight_eq_div_pow, Nat.div_eq_of_lt (h v (List.mem_cons_self ..))]
    rw [convertbitsLoop, if_neg (not_not.2 hv), Option.isSome_map]
    exact ih fun x hx => h x (List.mem_cons_of_mem _ hx)

theorem encodeAddress_isSome {k : Bytes} (h : k.length = 32) : (encodeAddress k).isSome := by
  have hloop := @convertbitsLoop_isSome 8 5 (k.map UInt8.toNat) 0 0 fun v hv => by
    obtain ⟨b, -, rfl⟩ := List.mem_map.1 hv
    exact b.toNat_lt
  obtain ⟨r, hr⟩ := Option.isSome_iff_exists.1 hloop
  rw [encodeAddress, if_neg (not_not.2 h), Option.isSome_map, convertbits, hr]
  rfl

end GumptionChain
