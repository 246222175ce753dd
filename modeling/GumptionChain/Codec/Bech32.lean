import GumptionChain.Codec.Base64

/-!
# Bech32m addresses

`bech32.py`: the checksum over GF(32), the text format and the regrouping of
eight-bit bytes into five-bit groups, with `encodeAddress` and `decodeAddress`
for public keys, `encodeSecret` and `decodeSecret` for seeds.

The ledger needs of an address only how it reads inside a hash input:
`decodeAddress_comma` (no comma), `decodeAddress_not_decimal` (never a numeral)
and `decodeAddress_length` (at most 90 characters).
-/

namespace GumptionChain

/-- `CHARSET`. -/
def bech32Charset : Str :=
  ['q', 'p', 'z', 'r', 'y', '9', 'x', '8', 'g', 'f', '2', 't', 'v', 'd', 'w', '0', 's', '3', 'j',
   'n', '5', '4', 'k', 'h', 'c', 'e', '6', 'm', 'u', 'a', '7', 'l']

/-- `Encoding`. -/
inductive Bech32Encoding where
  | bech32
  | bech32m
  deriving DecidableEq

/-- `BECH32M_CONST`. -/
def bech32mConst : ℕ := 0x2BC830A3

/-- The five generator words of the checksum. -/
def bech32Generator : List ℕ := [0x3B6A57B2, 0x26508E6D, 0x1EA119FA, 0x3D4233DD, 0x2A1462B3]

/-- One step of `bech32_polymod`. -/
def bech32PolymodStep (chk value : ℕ) : ℕ :=
  let top := chk >>> 25
  let chk := ((chk &&& 0x1FFFFFF) <<< 5) ^^^ value
  (bech32Generator.zipIdx).foldl
    (fun chk g => chk ^^^ (if (top >>> g.2) &&& 1 = 1 then g.1 else 0)) chk

/-- `bech32_polymod`. -/
def bech32Polymod (values : List ℕ) : ℕ := values.foldl bech32PolymodStep 1

/-- `bech32_hrp_expand`. -/
def bech32HrpExpand (hrp : Str) : List ℕ :=
  hrp.map (fun x => x.toNat >>> 5) ++ 0 :: hrp.map (fun x => x.toNat &&& 31)

/-- `bech32_verify_checksum`. -/
def bech32VerifyChecksum (hrp : Str) (data : List ℕ) : Option Bech32Encoding :=
  let const := bech32Polymod (bech32HrpExpand hrp ++ data)
  if const = 1 then some .bech32 else if const = bech32mConst then some .bech32m else none

/-- `bech32_create_checksum`. -/
def bech32CreateChecksum (hrp : Str) (data : List ℕ) (spec : Bech32Encoding) : List ℕ :=
  let const := if spec = .bech32m then bech32mConst else 1
  let polymod := bech32Polymod (bech32HrpExpand hrp ++ data ++ [0, 0, 0, 0, 0, 0]) ^^^ const
  [0, 1, 2, 3, 4, 5].map fun i => (polymod >>> (5 * (5 - i))) &&& 31

/-- `bech32_encode`. -/
def bech32Encode (hrp : Str) (data : List ℕ) (spec : Bech32Encoding) : Str :=
  hrp ++ '1' :: (data ++ bech32CreateChecksum hrp data spec).map fun d => bech32Charset.getD d 'q'

/-- The text before and after its last `1` (`rfind('1')`). -/
def splitLastOne (s : Str) : Str × Str :=
  (((s.reverse.dropWhile (· ≠ '1')).drop 1).reverse, (s.reverse.takeWhile (· ≠ '1')).reverse)

/-- `bech32_decode`. -/
def bech32Decode (bech : Str) : Option (Str × List ℕ × Bech32Encoding) :=
  if bech.any (fun x => x.toNat < 33 || 126 < x.toNat) then none
  else if bech.map Char.toLower ≠ bech ∧ bech.map Char.toUpper ≠ bech then none
  else
    let bech := bech.map Char.toLower
    let hrp := (splitLastOne bech).1
    let tail := (splitLastOne bech).2
    let pos := hrp.length
    if '1' ∉ bech ∨ pos < 1 ∨ bech.length < pos + 7 ∨ 90 < bech.length then none
    else if ¬ tail.all (fun x => bech32Charset.contains x) then none
    else
      let data := tail.map fun x => bech32Charset.idxOf x
      match bech32VerifyChecksum hrp data with
      | none => none
      | some spec => some (hrp, data.take (data.length - 6), spec)

/-- Empty the accumulator of `convertbits` while it holds a full group. -/
def convertbitsDrain (tobits acc : ℕ) : ℕ → ℕ → List ℕ × ℕ
  | 0, bits => ([], bits)
  | fuel + 1, bits =>
    if tobits ≤ bits then
      let r := convertbitsDrain tobits acc fuel (bits - tobits)
      (((acc >>> (bits - tobits)) &&& (2 ^ tobits - 1)) :: r.1, r.2)
    else ([], bits)

/-- The loop of `convertbits`: the groups produced, the accumulator and how many
of its bits are still to be emitted. -/
def convertbitsLoop (frombits tobits : ℕ) : ℕ → ℕ → List ℕ → Option (List ℕ × ℕ × ℕ)
  | acc, bits, [] => some ([], acc, bits)
  | acc, bits, value :: rest =>
    if value >>> frombits ≠ 0 then none
    else
      let acc := ((acc <<< frombits) ||| value) &&& (2 ^ (frombits + tobits - 1) - 1)
      let r := convertbitsDrain tobits acc (bits + frombits) (bits + frombits)
      (convertbitsLoop frombits tobits acc r.2 rest).map fun t => (r.1 ++ t.1, t.2)

/-- `convertbits`. -/
def convertbits (data : List ℕ) (frombits tobits : ℕ) (pad : Bool) : Option (List ℕ) :=
  match convertbitsLoop frombits tobits 0 0 data with
  | none => none
  | some (ret, acc, bits) =>
    let last := (acc <<< (tobits - bits)) &&& (2 ^ tobits - 1)
    if pad then some (if bits ≠ 0 then ret ++ [last] else ret)
    else if frombits ≤ bits ∨ last ≠ 0 then none
    else some ret

/-- `ADDRESS_HRP`. -/
def addressHrp : Str := ['g', 'c']

/-- `encode_address`: `ValueError` unless the key has 32 bytes. -/
def encodeAddress (pubkey : Bytes) : Option Str :=
  if pubkey.length ≠ 32 then none
  else (convertbits (pubkey.map UInt8.toNat) 8 5 true).map
    fun data => bech32Encode addressHrp data .bech32m

/-- `decode_address`: `None` on any failure. -/
def decodeAddress (address : Str) : Option Bytes :=
  match bech32Decode address with
  | some (hrp, data, .bech32m) =>
    if hrp ≠ addressHrp then none
    else
      match convertbits data 5 8 false with
      | none => none
      | some decoded => if decoded.length ≠ 32 then none else some (decoded.map UInt8.ofNat)
  | _ => none

/-- What `encode_address` and `encode_secret` do alike: `encode32` of the SDK. -/
def encode32 (hrp : Str) (bytes : Bytes) : Option Str :=
  if bytes.length ≠ 32 then none
  else (convertbits (bytes.map UInt8.toNat) 8 5 true).map
    fun data => bech32Encode hrp data .bech32m

/-- What `decode_address` and `decode_secret` do alike. -/
def decode32 (hrp s : Str) : Option Bytes :=
  match bech32Decode s with
  | some (h, data, .bech32m) =>
    if h ≠ hrp then none
    else
      match convertbits data 5 8 false with
      | none => none
      | some decoded => if decoded.length ≠ 32 then none else some (decoded.map UInt8.ofNat)
  | _ => none

/-- `SECRET_HRP`. -/
def secretHrp : Str := ['g', 'c', 's', 'e', 'c']

/-- `encode_secret`: `ValueError` unless the seed has 32 bytes. -/
def encodeSecret (seed : Bytes) : Option Str := encode32 secretHrp seed

/-- `decode_secret`. -/
def decodeSecret (s : Str) : Option Bytes := decode32 secretHrp s

/-! ## How an address reads -/

theorem splitLastOne_append {s : Str} (h : '1' ∈ s) :
    s = (splitLastOne s).1 ++ '1' :: (splitLastOne s).2 := by
  have hrev : s.reverse = s.reverse.takeWhile (· ≠ '1') ++ s.reverse.dropWhile (· ≠ '1') :=
    (List.takeWhile_append_dropWhile ..).symm
  have hne : s.reverse.dropWhile (· ≠ '1') ≠ [] := by
    intro hnil
    have := List.dropWhile_eq_nil_iff.1 hnil '1' (by simpa using h)
    simp at this
  obtain ⟨c, cs, hc⟩ := List.exists_cons_of_ne_nil hne
  have hc1 : c = '1' := by
    have hhead := List.head?_dropWhile_not (· ≠ '1') s.reverse
    rw [hc] at hhead
    simpa using hhead
  have hsplit := congrArg List.reverse hrev
  rw [List.reverse_reverse, List.reverse_append, hc, hc1] at hsplit
  rw [splitLastOne, hc]
  simpa using hsplit

/-- An accepted address is, in lower case, `gc1` and then letters of the
character set, and has at most 90 characters. -/
theorem decodeAddress_shape {s : Str} {k : Bytes} (h : decodeAddress s = some k) :
    (∃ tail : Str, s.map Char.toLower = ['g', 'c', '1'] ++ tail ∧
      ∀ c ∈ tail, c ∈ bech32Charset) ∧ s.length ≤ 90 := by
  unfold decodeAddress at h
  split at h
  · rename_i hrp data hdec
    split_ifs at h with hhrp
    rw [not_not] at hhrp
    unfold bech32Decode at hdec
    simp only at hdec
    split_ifs at hdec with h1 h2 h3 h4
    split at hdec
    · exact absurd hdec (by simp)
    · simp only [Option.some.injEq, Prod.mk.injEq] at hdec
      push Not at h3
      have hsplit := splitLastOne_append h3.1
      refine ⟨⟨(splitLastOne (s.map Char.toLower)).2, ?_, ?_⟩, ?_⟩
      · rw [hdec.1, hhrp] at hsplit
        exact hsplit
      · intro c hc
        have hall := List.all_eq_true.1 (by simpa using h4 :
          (splitLastOne (s.map Char.toLower)).2.all (fun x => bech32Charset.contains x) = true) c hc
        simpa using hall
      · simpa using h3.2.2.2
  · exact absurd h (by simp)

theorem decodeAddress_length {s : Str} {k : Bytes} (h : decodeAddress s = some k) :
    s.length ≤ 90 := (decodeAddress_shape h).2

theorem decodeAddress_comma {s : Str} {k : Bytes} (h : decodeAddress s = some k) : ',' ∉ s := by
  obtain ⟨⟨tail, hs, htail⟩, -⟩ := decodeAddress_shape h
  intro hc
  have hmem : ',' ∈ s.map Char.toLower := List.mem_map.2 ⟨',', hc, by decide⟩
  rw [hs] at hmem
  rcases List.mem_append.1 hmem with hmem | hmem
  · exact absurd hmem (by decide)
  · exact absurd (htail _ hmem) (by decide)

/-- An address is never a numeral. -/
theorem decodeAddress_not_decimal {s : Str} {k : Bytes} (h : decodeAddress s = some k) :
    ¬ IsDecimal s := by
  obtain ⟨⟨tail, hs, -⟩, -⟩ := decodeAddress_shape h
  intro hd
  have hmem : 'g' ∈ s.map Char.toLower := by rw [hs]; exact List.mem_cons_self ..
  obtain ⟨c, hc, hcg⟩ := List.mem_map.1 hmem
  have hdigit := hd.2 c hc
  have hlow : c.toLower = c := by
    simp only [Char.isDigit, Bool.and_eq_true, decide_eq_true_eq] at hdigit
    rw [Char.toLower, dif_neg]
    intro hup
    exact absurd (UInt32.le_trans hup.1 hdigit.2) (by decide)
  rw [hlow] at hcg
  subst hcg
  exact absurd hdigit (by decide)

theorem decodeAddress_ne_nil {s : Str} {k : Bytes} (h : decodeAddress s = some k) : s ≠ [] := by
  rintro rfl
  exact absurd (decodeAddress_shape h).1 (by simp)

end GumptionChain
