import GumptionChain.Codec.CodePoint
import GumptionChain.Codec.Secret

/-!
# Addresses and secrets in two languages

`clients/sdk/gc-bech32.mjs`, which reads the texts of `bech32.py` in 32-bit
integers: `<<`, `|`, `&` and `^` wrap, and `>>` keeps the sign. Its `convertbits`
has no mask, so that the accumulator overflows.

* `polymod_eq`, `convertbits_eq` — on what they are given, both compute what the
  Python functions compute;
* `GcBech32.decode32_eq` — so does the decoder, on every string;
* `PyStr.codec` — encoding and decoding are inverse, but for case.
-/

namespace GumptionChain

namespace GcBech32

/-! ## The module -/

/-- A character's code unit. -/
def unit (c : Char) : UInt16 := UInt16.ofNat c.toNat

/-- `CHARSET`. -/
def charset : JsStr := bech32Charset.map unit

/-- `GENERATOR`. -/
def generator : List (BitVec 32) := [0x3b6a57b2, 0x26508e6d, 0x1ea119fa, 0x3d4233dd, 0x2a1462b3]

/-- `getEncodingConst`. -/
def getEncodingConst (enc : Bech32Encoding) : BitVec 32 := if enc = .bech32m then 0x2bc830a3 else 1

/-- One turn of the loop of `polymod`. -/
def polymodStep (chk value : BitVec 32) : BitVec 32 :=
  let top := chk.sshiftRight 25
  let chk := ((chk &&& 0x1ffffff) <<< 5) ^^^ value
  generator.zipIdx.foldl
    (fun chk g => if top.sshiftRight g.2 &&& 1 ≠ 0 then chk ^^^ g.1 else chk) chk

/-- `polymod`. -/
def polymod (values : List (BitVec 32)) : BitVec 32 := values.foldl polymodStep 1

/-- `hrpExpand`. -/
def hrpExpand (hrp : JsStr) : List (BitVec 32) :=
  hrp.map (fun c => (BitVec.ofNat 32 c.toNat).sshiftRight 5) ++
    0 :: hrp.map (fun c => BitVec.ofNat 32 c.toNat &&& 31)

/-- `verifyChecksum`. -/
def verifyChecksum (hrp : JsStr) (data : List (BitVec 32)) (enc : Bech32Encoding) : Bool :=
  polymod (hrpExpand hrp ++ data) = getEncodingConst enc

/-- `s.lastIndexOf(c)`, `none` for `-1`. -/
def lastIndexOf (c : UInt16) (s : JsStr) : Option ℕ :=
  if c ∈ s then some (s.length - 1 - s.reverse.idxOf c) else none

/-- `CHARSET.indexOf(c)`, `none` for `-1`. -/
def indexOf (c : UInt16) : Option (BitVec 32) :=
  if c ∈ charset then some (BitVec.ofNat 32 (charset.idxOf c)) else none

/-- A code unit of `toLowerCase()`, for ASCII. -/
def lowerUnit (u : UInt16) : UInt16 := if 65 ≤ u.toNat ∧ u.toNat ≤ 90 then u + 32 else u

/-- `bech32Decode`. -/
def bech32Decode (bechString : JsStr) (enc : Bech32Encoding) :
    Option (JsStr × List (BitVec 32)) :=
  if bechString.any (fun c => c.toNat < 33 || 126 < c.toNat) then none
  else if bechString.any (fun c => 97 ≤ c.toNat && c.toNat ≤ 122) ∧
      bechString.any (fun c => 65 ≤ c.toNat && c.toNat ≤ 90) then none
  else
    let bechString := bechString.map lowerUnit
    match lastIndexOf 49 bechString with
    | none => none
    | some pos =>
      if pos < 1 ∨ bechString.length < pos + 7 ∨ 90 < bechString.length then none
      else
        let hrp := bechString.take pos
        match (bechString.drop (pos + 1)).mapM indexOf with
        | none => none
        | some data =>
          if verifyChecksum hrp data enc then some (hrp, data.take (data.length - 6)) else none

/-- The `while` of `convertbits`. -/
def convertbitsDrain (tobits : ℕ) (acc : BitVec 32) : ℕ → ℕ → List (BitVec 32) × ℕ
  | 0, bits => ([], bits)
  | fuel + 1, bits =>
    if tobits ≤ bits then
      let r := convertbitsDrain tobits acc fuel (bits - tobits)
      ((acc.sshiftRight (bits - tobits) &&& BitVec.ofNat 32 (2 ^ tobits - 1)) :: r.1, r.2)
    else ([], bits)

/-- The loop of `convertbits`, whose accumulator keeps its upper bits until they are
shifted out. -/
def convertbitsLoop (frombits tobits : ℕ) : BitVec 32 → ℕ → List (BitVec 32) →
    Option (List (BitVec 32) × BitVec 32 × ℕ)
  | acc, bits, [] => some ([], acc, bits)
  | acc, bits, value :: rest =>
    if value.slt 0 ∨ value.sshiftRight frombits ≠ 0 then none
    else
      let acc := (acc <<< frombits) ||| value
      let r := convertbitsDrain tobits acc (bits + frombits) (bits + frombits)
      (convertbitsLoop frombits tobits acc r.2 rest).map fun t => (r.1 ++ t.1, t.2)

/-- `convertbits`. -/
def convertbits (data : List (BitVec 32)) (frombits tobits : ℕ) (pad : Bool) :
    Option (List (BitVec 32)) :=
  match convertbitsLoop frombits tobits 0 0 data with
  | none => none
  | some (ret, acc, bits) =>
    let last := (acc <<< (tobits - bits)) &&& BitVec.ofNat 32 (2 ^ tobits - 1)
    if pad then some (if 0 < bits then ret ++ [last] else ret)
    else if frombits ≤ bits ∨ last ≠ 0 then none
    else some ret

/-- `decode32`. -/
def decode32 (hrp str : JsStr) : Option Bytes :=
  match bech32Decode str .bech32m with
  | none => none
  | some dec =>
    if dec.1 ≠ hrp then none
    else
      match convertbits dec.2 5 8 false with
      | none => none
      | some bytes =>
        if bytes.length ≠ 32 then none else some (bytes.map fun b => UInt8.ofNat b.toNat)

/-- `decodeAddress`. -/
def decodeAddress (addr : JsStr) : Option Bytes := decode32 (addressHrp.map unit) addr

/-- `decodeSecret`. -/
def decodeSecret (s : JsStr) : Option Bytes := decode32 (secretHrp.map unit) s

/-! ## The checksum -/

/-- Numbers as 32-bit integers. -/
abbrev ints (xs : List ℕ) : List (BitVec 32) := xs.map (BitVec.ofNat 32)

theorem sshiftRight_ofNat {n : ℕ} (h : n < 2 ^ 31) (i : ℕ) :
    (BitVec.ofNat 32 n).sshiftRight i = BitVec.ofNat 32 (n >>> i) := by
  have hmsb : (BitVec.ofNat 32 n).msb = false := by
    rw [BitVec.msb_eq_false_iff_two_mul_lt, BitVec.toNat_ofNat]
    omega
  rw [BitVec.sshiftRight_eq_of_msb_false hmsb]
  refine BitVec.eq_of_toNat_eq ?_
  have hle : n >>> i ≤ n := by
    rw [Nat.shiftRight_eq_div_pow]
    exact Nat.div_le_self ..
  rw [BitVec.toNat_ushiftRight, BitVec.toNat_ofNat, BitVec.toNat_ofNat,
    Nat.mod_eq_of_lt (by omega), Nat.mod_eq_of_lt (by omega)]

theorem ofNat_inj_of_lt {m n : ℕ} (hm : m < 2 ^ 32) (hn : n < 2 ^ 32) :
    BitVec.ofNat 32 m = BitVec.ofNat 32 n ↔ m = n := by
  refine ⟨fun h => ?_, fun h => h ▸ rfl⟩
  have := congrArg BitVec.toNat h
  rwa [BitVec.toNat_ofNat, BitVec.toNat_ofNat, Nat.mod_eq_of_lt hm, Nat.mod_eq_of_lt hn] at this

/-- What the top bits feed back, one generator after the other. -/
theorem feedback_eq {top : ℕ} (htop : top < 2 ^ 31) (gs : List (ℕ × ℕ)) (chk : ℕ) :
    (gs.map fun g => (BitVec.ofNat 32 g.1, g.2)).foldl
        (fun chk g => if (BitVec.ofNat 32 top).sshiftRight g.2 &&& 1 ≠ 0 then chk ^^^ g.1 else chk)
        (BitVec.ofNat 32 chk) =
      BitVec.ofNat 32
        (gs.foldl (fun chk g => chk ^^^ (if (top >>> g.2) &&& 1 = 1 then g.1 else 0)) chk) := by
  induction gs generalizing chk with
  | nil => rfl
  | cons g gs ih =>
    rw [List.map_cons, List.foldl_cons, List.foldl_cons, ← ih]
    have hbit : (BitVec.ofNat 32 top).sshiftRight g.2 &&& 1 ≠ 0 ↔ (top >>> g.2) &&& 1 = 1 := by
      rw [sshiftRight_ofNat htop, show (1 : BitVec 32) = BitVec.ofNat 32 1 from rfl,
        ← BitVec.ofNat_and, show (0 : BitVec 32) = BitVec.ofNat 32 0 from rfl, ne_eq,
        ofNat_inj_of_lt (by rw [Nat.and_one_is_mod]; omega) (by norm_num), Nat.and_one_is_mod]
      omega
    congr 1
    by_cases hb : (top >>> g.2) &&& 1 = 1
    · rw [if_pos (hbit.2 hb), if_pos hb, ← BitVec.ofNat_xor]
    · rw [if_neg (hbit.not.2 hb), if_neg hb, Nat.xor_zero]

theorem polymodStep_eq {chk : ℕ} (h : chk < 2 ^ 30) (value : ℕ) :
    polymodStep (BitVec.ofNat 32 chk) (BitVec.ofNat 32 value) =
      BitVec.ofNat 32 (bech32PolymodStep chk value) := by
  have htop : chk >>> 25 < 2 ^ 31 := by
    rw [Nat.shiftRight_eq_div_pow]
    omega
  have hlow : (BitVec.ofNat 32 chk &&& 0x1ffffff) <<< 5 ^^^ BitVec.ofNat 32 value =
      BitVec.ofNat 32 ((chk &&& 0x1FFFFFF) <<< 5 ^^^ value) := by
    rw [show (0x1ffffff : BitVec 32) = BitVec.ofNat 32 0x1FFFFFF from rfl, ← BitVec.ofNat_and,
      BitVec.ofNat_xor]
    congr 1
    refine BitVec.eq_of_toNat_eq ?_
    rw [BitVec.toNat_shiftLeft, BitVec.toNat_ofNat, BitVec.toNat_ofNat, Nat.shiftLeft_eq,
      Nat.shiftLeft_eq, Nat.mod_mul_mod]
  have hgen : generator.zipIdx =
      bech32Generator.zipIdx.map fun g => (BitVec.ofNat 32 g.1, g.2) := rfl
  unfold polymodStep bech32PolymodStep
  simp only [sshiftRight_ofNat (show chk < 2 ^ 31 by omega), hlow, hgen]
  exact feedback_eq htop _ _

/-- **The checksum needs no more than 32 bits.** -/
theorem polymod_eq {values : List ℕ} (h : ∀ v ∈ values, v < 2 ^ 5) :
    polymod (ints values) = BitVec.ofNat 32 (bech32Polymod values) := by
  have hrun : ∀ {values : List ℕ} {chk : ℕ}, (∀ v ∈ values, v < 2 ^ 5) → chk < 2 ^ 30 →
      (ints values).foldl polymodStep (BitVec.ofNat 32 chk) =
        BitVec.ofNat 32 (values.foldl bech32PolymodStep chk) := by
    intro values
    induction values with
    | nil => intros; rfl
    | cons v values ih =>
      intro chk hv hchk
      rw [ints, List.map_cons, List.foldl_cons, List.foldl_cons, polymodStep_eq hchk]
      exact ih (fun x hx => hv x (List.mem_cons_of_mem _ hx))
        (bech32PolymodStep_lt (hv v (List.mem_cons_self ..)) _)
  exact hrun h (by norm_num)

/-! ## The groups -/

/-- The accumulators agree in their low `m` bits, all that the masked one keeps. -/
def SameLow (m : ℕ) (acc : BitVec 32) (acc' : ℕ) : Prop :=
  ∀ i < m, acc.getLsbD i = acc'.testBit i

/-- A group read out of the low bits. -/
theorem SameLow.group {m t b : ℕ} {acc : BitVec 32} {acc' : ℕ} (h : SameLow m acc acc')
    (hm : m ≤ 32) (hb : b + t ≤ m) :
    acc.sshiftRight b &&& BitVec.ofNat 32 (2 ^ t - 1) =
      BitVec.ofNat 32 ((acc' >>> b) &&& (2 ^ t - 1)) := by
  refine BitVec.eq_of_getLsbD_eq fun i hi => ?_
  simp only [BitVec.getLsbD_and, BitVec.getLsbD_sshiftRight, BitVec.getLsbD_ofNat, Nat.testBit_and,
    Nat.testBit_shiftRight, Nat.testBit_two_pow_sub_one]
  by_cases hit : i < t
  · have hbit := h (b + i) (by omega)
    simp only [hi, hit, Nat.not_le.2 hi, show b + i < 32 by omega, hbit, decide_true, decide_false,
      Bool.not_false, Bool.true_and, if_true, Bool.and_true]
  · simp [hit]

/-- The padding read out of the low bits. -/
theorem SameLow.last {m t bits : ℕ} {acc : BitVec 32} {acc' : ℕ} (h : SameLow m acc acc')
    (hb : bits ≤ m) :
    (acc <<< (t - bits)) &&& BitVec.ofNat 32 (2 ^ t - 1) =
      BitVec.ofNat 32 ((acc' <<< (t - bits)) &&& (2 ^ t - 1)) := by
  refine BitVec.eq_of_getLsbD_eq fun i hi => ?_
  simp only [BitVec.getLsbD_and, BitVec.getLsbD_shiftLeft, BitVec.getLsbD_ofNat, Nat.testBit_and,
    Nat.testBit_shiftLeft, Nat.testBit_two_pow_sub_one]
  by_cases hit : i < t
  · by_cases hlow : t - bits ≤ i
    · simp [hi, hit, hlow, Nat.not_lt.2 hlow, h (i - (t - bits)) (by omega)]
    · simp [hlow, Nat.lt_of_not_le hlow]
  · simp [hit]

/-- Without the mask the low bits are those with it. -/
theorem SameLow.shift {f t v : ℕ} {acc : BitVec 32} {acc' : ℕ} (h : SameLow (f + t - 1) acc acc')
    (hm : f + t - 1 ≤ 32) :
    SameLow (f + t - 1) (acc <<< f ||| BitVec.ofNat 32 v)
      (((acc' <<< f) ||| v) &&& (2 ^ (f + t - 1) - 1)) := by
  intro i hi
  have hi32 : i < 32 := hi.trans_le hm
  simp only [BitVec.getLsbD_or, BitVec.getLsbD_shiftLeft, BitVec.getLsbD_ofNat, Nat.testBit_and,
    Nat.testBit_or, Nat.testBit_shiftLeft, Nat.testBit_two_pow_sub_one]
  by_cases hf : f ≤ i
  · simp [hi, hi32, hf, Nat.not_lt.2 hf, h (i - f) (by omega)]
  · simp [hi, hi32, hf, Nat.lt_of_not_le hf]

theorem convertbitsDrain_eq {m t : ℕ} {acc : BitVec 32} {acc' : ℕ} (h : SameLow m acc acc')
    (hm : m ≤ 32) (fuel : ℕ) {bits : ℕ} (hb : bits ≤ m) :
    convertbitsDrain t acc fuel bits =
      (ints (GumptionChain.convertbitsDrain t acc' fuel bits).1,
        (GumptionChain.convertbitsDrain t acc' fuel bits).2) := by
  induction fuel generalizing bits with
  | zero => rfl
  | succ fuel ih =>
    rw [convertbitsDrain, GumptionChain.convertbitsDrain]
    by_cases ht : t ≤ bits
    · rw [if_pos ht, if_pos ht, ih (by omega), h.group hm (by omega)]
      rfl
    · rw [if_neg ht, if_neg ht]
      rfl

theorem convertbitsLoop_eq {f t : ℕ} (ht : 0 < t) (hm : f + t - 1 ≤ 32) {data : List ℕ}
    (hd : ∀ v ∈ data, v < 2 ^ 31) {acc : BitVec 32} {acc' bits : ℕ} (hb : bits < t)
    (h : SameLow (f + t - 1) acc acc') :
    (convertbitsLoop f t acc bits (ints data) = none ∧
      GumptionChain.convertbitsLoop f t acc' bits data = none) ∨
    ∃ ret acc₁ acc₁' bits₁,
      convertbitsLoop f t acc bits (ints data) = some (ints ret, acc₁, bits₁) ∧
      GumptionChain.convertbitsLoop f t acc' bits data = some (ret, acc₁', bits₁) ∧
      SameLow (f + t - 1) acc₁ acc₁' ∧ bits₁ < t := by
  induction data generalizing acc acc' bits with
  | nil => exact .inr ⟨[], acc, acc', bits, rfl, rfl, h, hb⟩
  | cons v data ih =>
    have hv := hd v (List.mem_cons_self ..)
    have hvle : v >>> f ≤ v := by
      rw [Nat.shiftRight_eq_div_pow]
      exact Nat.div_le_self ..
    have hslt : (BitVec.ofNat 32 v).slt 0#32 = false := by
      rw [BitVec.slt_zero_eq_msb, BitVec.msb_eq_false_iff_two_mul_lt, BitVec.toNat_ofNat]
      omega
    have hrefuse : ((BitVec.ofNat 32 v).slt 0 ∨ (BitVec.ofNat 32 v).sshiftRight f ≠ 0) ↔
        v >>> f ≠ 0 := by
      rw [sshiftRight_ofNat hv, show (BitVec.ofNat 32 v).slt 0 = false from hslt,
        show (0 : BitVec 32) = BitVec.ofNat 32 0 from rfl, ne_eq,
        ofNat_inj_of_lt (by omega) (by norm_num)]
      simp
    rw [ints, List.map_cons, convertbitsLoop, GumptionChain.convertbitsLoop]
    by_cases hz : v >>> f ≠ 0
    · exact .inl ⟨if_pos (hrefuse.2 hz), if_pos hz⟩
    · rw [if_neg (hrefuse.not.2 hz), if_neg hz]
      have hnext := h.shift (v := v) hm
      have hdrain := convertbitsDrain_eq hnext hm (t := t) (bits + f) (show bits + f ≤ _ by omega)
      obtain ⟨hlt, -, -⟩ := convertbitsDrain_spec ht
        (((acc' <<< f) ||| v) &&& (2 ^ (f + t - 1) - 1)) (le_refl (bits + f))
      simp only [hdrain]
      rcases ih (fun x hx => hd x (List.mem_cons_of_mem _ hx)) hlt hnext with
        ⟨hjs, hpy⟩ | ⟨ret, acc₁, acc₁', bits₁, hjs, hpy, hsame, hbits⟩
      · refine .inl ⟨?_, ?_⟩
        · rw [← ints, hjs]
          rfl
        · rw [hpy]
          rfl
      · refine .inr ⟨(GumptionChain.convertbitsDrain t
          (((acc' <<< f) ||| v) &&& (2 ^ (f + t - 1) - 1)) (bits + f) (bits + f)).1 ++ ret,
          acc₁, acc₁', bits₁, ?_, ?_, hsame, hbits⟩
        · rw [← ints, hjs, Option.map_some, ← List.map_append]
        · rw [hpy]
          rfl

/-- **Regrouping needs no mask in 32 bits.** -/
theorem convertbits_eq {f t : ℕ} (hf : 0 < f) (ht : 0 < t) (hm : f + t - 1 ≤ 32) {data : List ℕ}
    (hd : ∀ v ∈ data, v < 2 ^ 31) (pad : Bool) :
    convertbits (ints data) f t pad = (GumptionChain.convertbits data f t pad).map ints := by
  have h0 : SameLow (f + t - 1) 0 0 := fun i _ => by simp
  rw [convertbits, GumptionChain.convertbits]
  rcases convertbitsLoop_eq ht hm hd ht h0 with
    ⟨hjs, hpy⟩ | ⟨ret, acc, acc', bits, hjs, hpy, hsame, hbits⟩
  · rw [hjs, hpy]
    rfl
  · have hlast := @SameLow.last _ t bits _ _ hsame (by omega)
    have hlt : (acc' <<< (t - bits)) &&& (2 ^ t - 1) < 2 ^ 32 :=
      (Nat.and_lt_two_pow (n := t) _ (Nat.sub_lt (by positivity) one_pos)).trans_le
        (Nat.pow_le_pow_right two_pos (by omega))
    have hzero : BitVec.ofNat 32 ((acc' <<< (t - bits)) &&& (2 ^ t - 1)) ≠ 0 ↔
        (acc' <<< (t - bits)) &&& (2 ^ t - 1) ≠ 0 :=
      (ofNat_inj_of_lt hlt (by norm_num)).not
    simp only [hjs, hpy, hlast, hzero]
    cases pad with
    | true =>
      by_cases hb : bits = 0
      · simp [hb]
      · simp [hb, Nat.pos_of_ne_zero hb]
    | false =>
      by_cases hend : f ≤ bits ∨ (acc' <<< (t - bits)) &&& (2 ^ t - 1) ≠ 0
      · simp only [Bool.false_eq_true, if_false, if_pos hend, Option.map_none]
      · simp only [Bool.false_eq_true, if_false, if_neg hend, Option.map_some]

/-! ## The text -/

/-- Every character is printable ASCII, the space apart. -/
def Printable (s : Str) : Prop := ∀ c ∈ s, 33 ≤ c.toNat ∧ c.toNat ≤ 126

theorem toNat_unit {c : Char} (h : c.toNat < 128) : (unit c).toNat = c.toNat := by
  rw [unit, UInt16.toNat_ofNat']
  omega

theorem unit_inj {c d : Char} (hc : c.toNat < 128) (hd : d.toNat < 128) (h : unit c = unit d) :
    c = d := by
  have hn := congrArg UInt16.toNat h
  rw [toNat_unit hc, toNat_unit hd] at hn
  exact Char.toNat_inj.1 hn

theorem map_unit_inj : ∀ {s t : Str}, (∀ c ∈ s, c.toNat < 128) → (∀ c ∈ t, c.toNat < 128) →
    s.map unit = t.map unit → s = t
  | [], [], _, _, _ => rfl
  | [], _ :: _, _, _, h => nomatch h
  | _ :: _, [], _, _, h => nomatch h
  | c :: s, d :: t, hs, ht, h => by
    rw [List.map_cons, List.map_cons, List.cons.injEq] at h
    rw [List.forall_mem_cons] at hs ht
    rw [unit_inj hs.1 ht.1 h.1, map_unit_inj hs.2 ht.2 h.2]

/-- Case, by letters and by code units. -/
theorem ascii_case {c : Char} (h : c.toNat < 128) : unit c.toLower = lowerUnit (unit c) ∧
    c.toLower.toNat < 128 ∧
    (c.toLower ≠ c ↔ 65 ≤ c.toNat ∧ c.toNat ≤ 90) ∧
    (c.toUpper ≠ c ↔ 97 ≤ c.toNat ∧ c.toNat ≤ 122) := by
  have hall : ∀ n : Fin 128, unit (Char.ofNat n).toLower = lowerUnit (unit (Char.ofNat n)) ∧
      (Char.ofNat n).toLower.toNat < 128 ∧
      ((Char.ofNat n).toLower ≠ Char.ofNat n ↔
        65 ≤ (Char.ofNat n).toNat ∧ (Char.ofNat n).toNat ≤ 90) ∧
      ((Char.ofNat n).toUpper ≠ Char.ofNat n ↔
        97 ≤ (Char.ofNat n).toNat ∧ (Char.ofNat n).toNat ≤ 122) := by
    decide +kernel
  have := hall ⟨c.toNat, h⟩
  rwa [show Char.ofNat c.toNat = c from Char.ofNat_toNat c] at this

theorem map_ne_iff {f : Char → Char} {s : Str} : s.map f ≠ s ↔ ∃ c ∈ s, f c ≠ c := by
  rw [ne_eq, ← not_iff_not, not_not]
  push Not
  refine ⟨fun h c hc => ?_, fun h => (List.map_congr_left h).trans (List.map_id _)⟩
  exact List.map_eq_map_iff.1 (h.trans (List.map_id s).symm) c hc

theorem mixed_case_iff {s : Str} (hs : ∀ c ∈ s, c.toNat < 128) :
    ((s.map unit).any (fun c => 97 ≤ c.toNat && c.toNat ≤ 122) = true ∧
      (s.map unit).any (fun c => 65 ≤ c.toNat && c.toNat ≤ 90) = true) ↔
    s.map Char.toLower ≠ s ∧ s.map Char.toUpper ≠ s := by
  rw [map_ne_iff, map_ne_iff, and_comm, List.any_map, List.any_map, List.any_eq_true,
    List.any_eq_true]
  refine and_congr (exists_congr fun c => and_congr_right fun hc => ?_)
    (exists_congr fun c => and_congr_right fun hc => ?_)
  · rw [(ascii_case (hs c hc)).2.2.1, Function.comp_apply, toNat_unit (hs c hc), Bool.and_eq_true,
      decide_eq_true_eq, decide_eq_true_eq]
  · rw [(ascii_case (hs c hc)).2.2.2, Function.comp_apply, toNat_unit (hs c hc), Bool.and_eq_true,
      decide_eq_true_eq, decide_eq_true_eq]

/-- The last `1` is where the text is split. -/
theorem lastIndexOf_eq {h t : JsStr} (ht : 49 ∉ t) :
    lastIndexOf 49 (h ++ 49 :: t) = some h.length := by
  have hidx : (h ++ 49 :: t).reverse.idxOf 49 = t.length := by
    rw [List.reverse_append, List.reverse_cons, List.append_assoc,
      List.idxOf_append_of_notMem (by simpa using ht), List.length_reverse, List.singleton_append,
      List.idxOf_cons_self, Nat.add_zero]
  rw [lastIndexOf, if_pos (by simp), hidx, List.length_append, List.length_cons]
  congr 1
  omega

theorem indexOf_unit {c : Char} (h : c.toNat < 128) :
    indexOf (unit c) =
      if c ∈ bech32Charset then some (BitVec.ofNat 32 (bech32Charset.idxOf c)) else none := by
  have hascii : ∀ d ∈ bech32Charset, d.toNat < 128 := fun d hd => by
    have := (mem_bech32Charset hd).2.1
    omega
  have hmem : unit c ∈ charset ↔ c ∈ bech32Charset := by
    refine ⟨fun hm => ?_, fun hm => List.mem_map_of_mem hm⟩
    obtain ⟨d, hd, heq⟩ := List.mem_map.1 hm
    rwa [← unit_inj (hascii d hd) h heq]
  have hidx : charset.idxOf (unit c) = bech32Charset.idxOf c := by
    have hgo : ∀ {l : Str}, (∀ d ∈ l, d.toNat < 128) → (l.map unit).idxOf (unit c) = l.idxOf c := by
      intro l hl
      induction l with
      | nil => rfl
      | cons d l ih =>
        rw [List.forall_mem_cons] at hl
        rw [List.map_cons, List.idxOf_cons, List.idxOf_cons, ih hl.2]
        by_cases hd : d = c
        · rw [hd, beq_self_eq_true, beq_self_eq_true]
        · have hu : unit d ≠ unit c := fun heq => hd (unit_inj hl.1 h heq)
          rw [beq_false_of_ne hd, beq_false_of_ne hu]
    exact hgo hascii
  rw [indexOf, hidx]
  by_cases hc : c ∈ bech32Charset
  · rw [if_pos (hmem.2 hc), if_pos hc]
  · rw [if_neg (hmem.not.2 hc), if_neg hc]

theorem mapM_indexOf {t : Str} (h : ∀ c ∈ t, c.toNat < 128) :
    (t.map unit).mapM indexOf =
      if ∀ c ∈ t, c ∈ bech32Charset then some (ints (t.map (bech32Charset.idxOf ·))) else none := by
  induction t with
  | nil => simp
  | cons c t ih =>
    rw [List.forall_mem_cons] at h
    rw [List.map_cons, List.mapM_cons, indexOf_unit h.1, ih h.2]
    simp only [List.forall_mem_cons]
    by_cases hc : c ∈ bech32Charset
    · by_cases ht : ∀ d ∈ t, d ∈ bech32Charset
      · rw [if_pos hc, if_pos ht, if_pos ⟨hc, ht⟩]
        rfl
      · rw [if_pos hc, if_neg ht, if_neg fun hall => ht hall.2]
        rfl
    · simp only [hc, false_and, if_false]
      rfl

theorem hrpExpand_eq {hrp : Str} (h : ∀ c ∈ hrp, c.toNat < 128) :
    hrpExpand (hrp.map unit) = ints (bech32HrpExpand hrp) := by
  rw [hrpExpand, bech32HrpExpand, ints, List.map_append, List.map_cons, List.map_map, List.map_map,
    List.map_map, List.map_map]
  refine congrArg₂ (· ++ 0#32 :: ·) ?_ ?_
  · refine List.map_congr_left fun c hc => ?_
    have := h c hc
    rw [Function.comp_apply, Function.comp_apply, toNat_unit (h c hc),
      sshiftRight_ofNat (by omega)]
  · refine List.map_congr_left fun c hc => ?_
    rw [Function.comp_apply, Function.comp_apply, toNat_unit (h c hc), BitVec.ofNat_and]
    rfl

theorem bech32HrpExpand_lt {hrp : Str} (h : ∀ c ∈ hrp, c.toNat < 128) :
    ∀ v ∈ bech32HrpExpand hrp, v < 2 ^ 5 := by
  intro v hv
  rcases List.mem_append.1 hv with hv | hv
  · obtain ⟨c, hc, rfl⟩ := List.mem_map.1 hv
    have := h c hc
    rw [Nat.shiftRight_eq_div_pow]
    omega
  · rcases List.mem_cons.1 hv with rfl | hv
    · norm_num
    · obtain ⟨c, -, rfl⟩ := List.mem_map.1 hv
      exact Nat.and_lt_two_pow (n := 5) _ (by norm_num)

theorem bech32Polymod_lt {values : List ℕ} (h : ∀ v ∈ values, v < 2 ^ 5) :
    bech32Polymod values < 2 ^ 30 := by
  rcases List.eq_nil_or_concat values with rfl | ⟨vs, v, rfl⟩
  · norm_num [bech32Polymod]
  · rw [bech32Polymod, List.concat_eq_append, List.foldl_concat]
    exact bech32PolymodStep_lt (h v (by simp)) _

/-- **The two checks of the checksum agree.** -/
theorem verifyChecksum_eq {hrp : Str} {data : List ℕ} (h : ∀ c ∈ hrp, c.toNat < 128)
    (hd : ∀ v ∈ data, v < 2 ^ 5) :
    verifyChecksum (hrp.map unit) (ints data) .bech32m = true ↔
      bech32VerifyChecksum hrp data = some .bech32m := by
  have hlt : ∀ v ∈ bech32HrpExpand hrp ++ data, v < 2 ^ 5 :=
    List.forall_mem_append.2 ⟨bech32HrpExpand_lt h, hd⟩
  have hpoly := bech32Polymod_lt hlt
  rw [verifyChecksum, decide_eq_true_eq, hrpExpand_eq h, ← List.map_append, polymod_eq hlt,
    show getEncodingConst .bech32m = BitVec.ofNat 32 bech32mConst from rfl,
    ofNat_inj_of_lt (by omega) (by decide), bech32VerifyChecksum]
  by_cases hm : bech32Polymod (bech32HrpExpand hrp ++ data) = bech32mConst
  · simp [hm, bech32mConst]
  · by_cases hone : bech32Polymod (bech32HrpExpand hrp ++ data) = 1
    · simp [hone, bech32mConst]
    · simp [hm, hone]

/-! ## The decoder -/

/-- What `bech32_decode` returns, as `bech32Decode` does when asked for Bech32m. -/
def asBech32m : Option (Str × List ℕ × Bech32Encoding) → Option (JsStr × List (BitVec 32))
  | some (hrp, data, .bech32m) => some (hrp.map unit, ints data)
  | _ => none

theorem bech32Decode_eq {s : Str} (hs : Printable s) :
    bech32Decode (s.map unit) .bech32m = asBech32m (GumptionChain.bech32Decode s) := by
  have hascii : ∀ c ∈ s, c.toNat < 128 := fun c hc => by
    have := (hs c hc).2
    omega
  have hrange : s.any (fun x => x.toNat < 33 || 126 < x.toNat) = false := by
    rw [List.any_eq_false]
    intro c hc
    have := hs c hc
    simp only [Bool.or_eq_true, decide_eq_true_eq]
    omega
  have hrange' : (s.map unit).any (fun c => c.toNat < 33 || 126 < c.toNat) = false := by
    rw [List.any_map, List.any_eq_false]
    intro c hc
    have := hs c hc
    simp only [Function.comp_apply, toNat_unit (hascii c hc), Bool.or_eq_true, decide_eq_true_eq]
    omega
  rw [bech32Decode, GumptionChain.bech32Decode, hrange, hrange', if_neg Bool.false_ne_true,
    if_neg Bool.false_ne_true]
  by_cases hmixed : s.map Char.toLower ≠ s ∧ s.map Char.toUpper ≠ s
  · rw [if_pos ((mixed_case_iff hascii).2 hmixed), if_pos hmixed]
    rfl
  rw [if_neg ((mixed_case_iff hascii).not.2 hmixed), if_neg hmixed]
  -- both go on with the text in lower case
  have hlower : (s.map unit).map lowerUnit = (s.map Char.toLower).map unit := by
    rw [List.map_map, List.map_map]
    exact List.map_congr_left fun c hc => (ascii_case (hascii c hc)).1.symm
  have hlow : ∀ c ∈ s.map Char.toLower, c.toNat < 128 := fun c hc => by
    obtain ⟨d, hd, rfl⟩ := List.mem_map.1 hc
    exact (ascii_case (hascii d hd)).2.1
  simp only [hlower]
  generalize s.map Char.toLower = low at hlow
  by_cases hone : '1' ∈ low
  swap
  · have hnone : (49 : UInt16) ∉ low.map unit := fun hm => by
      obtain ⟨c, hc, heq⟩ := List.mem_map.1 hm
      rw [← show unit '1' = 49 by decide] at heq
      rw [unit_inj (hlow c hc) (by decide) heq] at hc
      exact hone hc
    rw [lastIndexOf, if_neg hnone, if_pos (Or.inl hone)]
    rfl
  have hsplit := splitLastOne_append hone
  have htail : '1' ∉ (splitLastOne low).2 := fun hm => by
    have := List.mem_takeWhile_imp (List.mem_reverse.1 hm)
    simp at this
  generalize (splitLastOne low).1 = hrp at hsplit ⊢
  generalize (splitLastOne low).2 = tail at hsplit htail ⊢
  rw [hsplit] at hlow
  rw [List.forall_mem_append, List.forall_mem_cons] at hlow
  have hunits : low.map unit = hrp.map unit ++ 49 :: tail.map unit := by
    rw [hsplit, List.map_append, List.map_cons, show unit '1' = 49 by decide]
  have hnotMem : (49 : UInt16) ∉ tail.map unit := fun hm => by
    obtain ⟨c, hc, heq⟩ := List.mem_map.1 hm
    rw [← show unit '1' = 49 by decide] at heq
    rw [unit_inj (hlow.2.2 c hc) (by decide) heq] at hc
    exact htail hc
  have hindex : lastIndexOf 49 (low.map unit) = some hrp.length := by
    rw [hunits, lastIndexOf_eq hnotMem, List.length_map]
  have hlen : (low.map unit).length = low.length := List.length_map ..
  have htake : (low.map unit).take hrp.length = hrp.map unit := by
    rw [hunits, List.take_left' (List.length_map ..)]
  have hdrop : (low.map unit).drop (hrp.length + 1) = tail.map unit := by
    rw [hunits, List.drop_append, List.length_map, Nat.add_sub_cancel_left,
      List.drop_eq_nil_of_le (by simp), List.nil_append, List.drop_one, List.tail_cons]
  simp only [hindex, hlen, htake, hdrop, mapM_indexOf hlow.2.2]
  by_cases hshape : hrp.length < 1 ∨ low.length < hrp.length + 7 ∨ 90 < low.length
  · rw [if_pos hshape, if_pos (Or.inr hshape)]
    rfl
  rw [if_neg hshape, if_neg (not_or.2 ⟨not_not.2 hone, hshape⟩)]
  by_cases hall : ∀ c ∈ tail, c ∈ bech32Charset
  swap
  · rw [if_neg hall, if_pos (by simpa using hall)]
    rfl
  have hall' : ¬ ¬ tail.all (fun x => bech32Charset.contains x) = true := by simpa using hall
  have hdata : ∀ v ∈ tail.map (bech32Charset.idxOf ·), v < 2 ^ 5 := fun v hv => by
    obtain ⟨c, hc, rfl⟩ := List.mem_map.1 hv
    exact List.idxOf_lt_length_of_mem (hall c hc)
  have hverify := verifyChecksum_eq hlow.1 hdata
  rw [if_pos hall, if_neg hall']
  cases hspec : bech32VerifyChecksum hrp (tail.map (bech32Charset.idxOf ·)) with
  | none =>
    simp only [if_neg (hverify.not.2 (by simp [hspec])), asBech32m]
  | some spec =>
    cases spec with
    | bech32 =>
      simp only [if_neg (hverify.not.2 (by simp [hspec])), asBech32m]
    | bech32m =>
      simp only [if_pos (hverify.2 hspec), asBech32m, List.length_map, ints, List.map_take]

/-- What was decoded: the part before the separator is ASCII, the data are groups of
five bits. -/
theorem bech32Decode_groups {s hrp : Str} {data : List ℕ} {spec : Bech32Encoding}
    (h : GumptionChain.bech32Decode s = some (hrp, data, spec)) :
    (∀ c ∈ hrp, c.toNat < 128) ∧ ∀ v ∈ data, v < 2 ^ 5 := by
  have hascii := bech32Decode_range h
  unfold GumptionChain.bech32Decode at h
  simp only at h
  split_ifs at h with h1 h2 h3 h4
  split at h
  · cases h
  · simp only [Option.some.injEq, Prod.mk.injEq] at h
    obtain ⟨rfl, rfl, -⟩ := h
    push Not at h3
    refine ⟨fun c hc => ?_, fun v hv => ?_⟩
    · have hmem : c ∈ s.map Char.toLower := by
        rw [splitLastOne_append h3.1]
        exact List.mem_append_left _ hc
      obtain ⟨d, hd, rfl⟩ := List.mem_map.1 hmem
      exact (ascii_case (hascii d hd)).2.1
    · obtain ⟨c, hc, rfl⟩ := List.mem_map.1 (List.mem_of_mem_take hv)
      have hall : ∀ c ∈ (splitLastOne (s.map Char.toLower)).2, c ∈ bech32Charset := by
        simpa using h4
      exact List.idxOf_lt_length_of_mem (hall c hc)

theorem decode32_printable {hrp s : Str} (hhrp : ∀ c ∈ hrp, c.toNat < 128) (hs : Printable s) :
    decode32 (hrp.map unit) (s.map unit) = GumptionChain.decode32 hrp s := by
  rw [decode32, bech32Decode_eq hs, GumptionChain.decode32]
  rcases hdec : GumptionChain.bech32Decode s with - | ⟨h, data, spec⟩
  · rfl
  · cases spec with
    | bech32 => rfl
    | bech32m =>
      obtain ⟨hh, hdata⟩ := bech32Decode_groups hdec
      simp only [asBech32m]
      have heq : h.map unit ≠ hrp.map unit ↔ h ≠ hrp :=
        ⟨fun hne he => hne (he ▸ rfl), fun hne he => hne (map_unit_inj hh hhrp he)⟩
      have hd31 : ∀ v ∈ data, v < 2 ^ 31 := fun v hv => (hdata v hv).trans (by norm_num)
      rw [convertbits_eq (by norm_num) (by norm_num) (by norm_num) hd31]
      by_cases hne : h ≠ hrp
      · rw [if_pos (heq.2 hne), if_pos hne]
      · rw [if_neg (heq.not.2 hne), if_neg hne]
        cases hconv : GumptionChain.convertbits data 5 8 false with
        | none => rfl
        | some ret =>
          simp only [Option.map_some, ints, List.length_map, List.map_map]
          have hback : ret.map ((fun b : BitVec 32 => UInt8.ofNat b.toNat) ∘ BitVec.ofNat 32) =
              ret.map UInt8.ofNat := by
            refine List.map_congr_left fun v hv => ?_
            have := convertbits_lt hconv v hv
            rw [Function.comp_apply, BitVec.toNat_ofNat, Nat.mod_eq_of_lt (by omega)]
          rw [hback]

end GcBech32

/-! ## On every string -/

namespace PyStr

/-- A decoder of `bech32.py` on a `str`: `bech32_decode` refuses every code point
outside printable ASCII, surrogates with them, before it reads the text. -/
def decodeWith (decode : Str → Option Bytes) (s : PyStr) : Option Bytes :=
  if s.any (fun x => x.ord < 33 || 126 < x.ord) then none else (str? s).bind decode

/-- `decode_address`. -/
def decodeAddress (address : PyStr) : Option Bytes := decodeWith GumptionChain.decodeAddress address

/-- `decode_secret`. -/
def decodeSecret (secret : PyStr) : Option Bytes := decodeWith GumptionChain.decodeSecret secret

/-- A string in the range is text. -/
theorem exists_printable {s : PyStr} (h : ¬ s.any (fun x => x.ord < 33 || 126 < x.ord) = true) :
    ∃ t : Str, s = ofStr t ∧ GcBech32.Printable t := by
  induction s with
  | nil => exact ⟨[], rfl, fun c hc => by cases hc⟩
  | cons x s ih =>
    rw [List.any_cons, Bool.or_eq_true, not_or] at h
    obtain ⟨t, rfl, ht⟩ := ih h.2
    have hx : ¬ (x.ord < 33 ∨ 126 < x.ord) := by simpa using h.1
    cases x with
    | char c =>
      refine ⟨c :: t, rfl, List.forall_mem_cons.2 ⟨?_, ht⟩⟩
      have hord : CodePoint.ord (.char c) = c.toNat := rfl
      rw [hord] at hx
      omega
    | surrogate n =>
      have hord : CodePoint.ord (.surrogate n) = 0xD800 + n := rfl
      rw [hord] at hx
      omega

theorem any_ofStr {t : Str} (h : GcBech32.Printable t) :
    (ofStr t).any (fun x => x.ord < 33 || 126 < x.ord) = false := by
  rw [List.any_eq_false]
  intro x hx
  obtain ⟨c, hc, rfl⟩ := List.mem_map.1 hx
  have hord : CodePoint.ord (.char c) = c.toNat := rfl
  have := h c hc
  rw [hord]
  simp only [Bool.or_eq_true, decide_eq_true_eq]
  omega

theorem decodeWith_ofStr {decode : Str → Option Bytes} {t : Str} (h : GcBech32.Printable t) :
    decodeWith decode (ofStr t) = decode t := by
  rw [decodeWith, any_ofStr h, if_neg Bool.false_ne_true, str?_ofStr, Option.bind_some]

/-- What is decoded is the text of a string. -/
theorem decodeWith_eq_some {decode : Str → Option Bytes} {s : PyStr} {k : Bytes}
    (h : decodeWith decode s = some k) : ∃ t : Str, s = ofStr t ∧ decode t = some k := by
  rw [decodeWith] at h
  split_ifs at h with hany
  obtain ⟨t, ht, hdec⟩ := Option.bind_eq_some_iff.1 h
  exact ⟨t, str?_eq_some.1 ht, hdec⟩

theorem utf16_ofStr {t : Str} (h : GcBech32.Printable t) :
    utf16 (ofStr t) = t.map GcBech32.unit := by
  induction t with
  | nil => rfl
  | cons c t ih =>
    rw [GcBech32.Printable, List.forall_mem_cons] at h
    have hord : CodePoint.ord (.char c) = c.toNat := rfl
    have hunit : CodePoint.utf16 (.char c) = [GcBech32.unit c] := by
      rw [CodePoint.utf16, hord, if_pos (by omega)]
      rfl
    rw [ofStr, List.map_cons, utf16, List.flatMap_cons, hunit, ← utf16, ← ofStr, ih h.2]
    rfl

/-- A code point outside the range has a code unit outside it. -/
theorem any_utf16 {s : PyStr} (h : s.any (fun x => x.ord < 33 || 126 < x.ord) = true) :
    (utf16 s).any (fun c => c.toNat < 33 || 126 < c.toNat) = true := by
  obtain ⟨x, hx, hrange⟩ := List.any_eq_true.1 h
  have hout : x.ord < 33 ∨ 126 < x.ord := by simpa using hrange
  have hunit : ∃ c ∈ x.utf16, c.toNat < 33 ∨ 126 < c.toNat := by
    rw [CodePoint.utf16]
    split_ifs with hbmp
    · refine ⟨_, List.mem_singleton_self _, ?_⟩
      rwa [UInt16.toNat_ofNat', Nat.mod_eq_of_lt hbmp]
    · refine ⟨_, List.mem_cons_self .., .inr ?_⟩
      have hord : x.ord < 0x110000 := by
        cases x with
        | char c =>
          have hord : CodePoint.ord (.char c) = c.toNat := rfl
          rcases c.valid with hc | ⟨-, hc⟩
          · exact (show c.toNat < 0xD800 from hc).trans (by norm_num)
          · exact hc
        | surrogate n =>
          have : CodePoint.ord (.surrogate n) = 0xD800 + n := rfl
          omega
      rw [UInt16.toNat_ofNat']
      omega
  obtain ⟨c, hc, hcr⟩ := hunit
  exact List.any_eq_true.2 ⟨c, List.mem_flatMap.2 ⟨x, hx, hc⟩, by simpa using hcr⟩

end PyStr

/-- **The decoders of the two languages agree on every string.** -/
theorem GcBech32.decode32_eq {hrp : Str} (hhrp : PlainHrp hrp) (s : PyStr) :
    GcBech32.decode32 (hrp.map GcBech32.unit) s.utf16 =
      s.decodeWith (GumptionChain.decode32 hrp) := by
  by_cases hany : s.any (fun x => x.ord < 33 || 126 < x.ord) = true
  · rw [PyStr.decodeWith, if_pos hany, GcBech32.decode32, GcBech32.bech32Decode,
      if_pos (PyStr.any_utf16 hany)]
  · obtain ⟨t, rfl, ht⟩ := PyStr.exists_printable hany
    have hascii : ∀ c ∈ hrp, c.toNat < 128 := fun c hc => by
      have := hhrp.2 c hc
      omega
    rw [PyStr.utf16_ofStr ht, PyStr.decodeWith_ofStr ht, GcBech32.decode32_printable hascii ht]

/-- Encoding and decoding are inverse, but for the case of what is decoded. -/
theorem PyStr.codec {hrp : Str} (hhrp : PlainHrp hrp) (hlen : hrp.length ≤ 31) :
    (∀ k : Bytes, k.length = 32 →
      (encode32 hrp k).bind (fun t => decodeWith (decode32 hrp) (ofStr t)) = some k) ∧
    ∀ (s : PyStr) (k : Bytes), decodeWith (decode32 hrp) s = some k →
      (encode32 hrp k).map ofStr = some (s.map CodePoint.lower) := by
  refine ⟨fun k hk => ?_, fun s k h => ?_⟩
  · obtain ⟨t, ht, hback⟩ := Option.bind_eq_some_iff.1 (decode32_encode32 hhrp hlen hk)
    have hprint : GcBech32.Printable t := by
      unfold decode32 at hback
      split at hback
      · rename_i hdec
        exact bech32Decode_printable hdec
      · cases hback
    rw [ht, Option.bind_some, decodeWith_ofStr hprint, hback]
  · obtain ⟨t, rfl, hdec⟩ := decodeWith_eq_some h
    rw [encode32_decode32 hhrp hlen hdec, Option.map_some, ofStr, ofStr, List.map_map, List.map_map]
    rfl

/-- **Addresses and secrets, in both languages.** -/
theorem address_secret_codec :
    (∀ k : Bytes, k.length = 32 →
      (encodeAddress k).bind (fun t => PyStr.decodeAddress (.ofStr t)) = some k ∧
      (encodeSecret k).bind (fun t => PyStr.decodeSecret (.ofStr t)) = some k) ∧
    (∀ (s : PyStr) (k : Bytes), s.decodeAddress = some k →
      (encodeAddress k).map PyStr.ofStr = some (s.map CodePoint.lower)) ∧
    (∀ (s : PyStr) (k : Bytes), s.decodeSecret = some k →
      (encodeSecret k).map PyStr.ofStr = some (s.map CodePoint.lower)) ∧
    (∀ s : PyStr, ¬ (s.decodeAddress.isSome ∧ s.decodeSecret.isSome)) ∧
    ∀ s : PyStr, GcBech32.decodeAddress s.utf16 = s.decodeAddress ∧
      GcBech32.decodeSecret s.utf16 = s.decodeSecret := by
  obtain ⟨haddress, haddress'⟩ := PyStr.codec plainHrp_addressHrp (by decide)
  obtain ⟨hsecret, hsecret'⟩ := PyStr.codec plainHrp_secretHrp (by decide)
  refine ⟨fun k hk => ⟨haddress k hk, hsecret k hk⟩, haddress', hsecret', fun s h => ?_, fun s =>
    ⟨GcBech32.decode32_eq plainHrp_addressHrp s, GcBech32.decode32_eq plainHrp_secretHrp s⟩⟩
  obtain ⟨k, hk⟩ := Option.isSome_iff_exists.1 h.1
  obtain ⟨k', hk'⟩ := Option.isSome_iff_exists.1 h.2
  obtain ⟨t, rfl, ht⟩ := PyStr.decodeWith_eq_some hk
  obtain ⟨t', heq, ht'⟩ := PyStr.decodeWith_eq_some hk'
  obtain rfl : t = t' := by
    have := congrArg PyStr.str? heq
    rwa [PyStr.str?_ofStr, PyStr.str?_ofStr, Option.some.injEq] at this
  have hnone : decodeSecret t = none :=
    decode32_disjoint (show addressHrp ≠ secretHrp by decide) (Option.isSome_iff_exists.2 ⟨k, ht⟩)
  rw [hnone] at ht'
  cases ht'

end GumptionChain
