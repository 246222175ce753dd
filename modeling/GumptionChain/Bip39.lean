import GumptionChain.Codec.CodePoint
import GumptionChain.Codec.Unicode
import GumptionChain.Env
import GumptionChain.Lib.Bits
import GumptionChain.Lib.Words

/-!
# Recovery phrases

`bip39.py`: the 24 words of a 32-byte seed.  The word list and SHA-256 are parameters,
with what the code relies on of them.

* `Bip39.seedToMnemonic_eq`, `Bip39.mnemonicToSeed_eq` — both through the 24 word numbers;
* `Bip39.mnemonic_codec` — reading undoes writing, and accepts nothing else.
-/

namespace GumptionChain
namespace Bip39

open PyStr (ofStr)

/-- `str.isspace` on one code point. -/
def space (U : Unicode) (x : CodePoint) : Bool := x.char?.any U.isSpace

/-- `bip39_wordlist.WORDLIST`. -/
structure Wordlist (U : Unicode) where
  words : List Str
  length_words : words.length = 2048
  nodup : words.Nodup
  ne_nil : ∀ w ∈ words, w ≠ []
  no_space : ∀ w ∈ words, ∀ c ∈ w, U.isSpace c = false

/-- What the two functions can raise. -/
inductive Raised where
  | valueError (message : PyStr)
  | indexError
  deriving DecidableEq

/-- `xs[i]`. -/
def item {α : Type} (xs : List α) (i : ℕ) : Except Raised α :=
  match xs[i]? with
  | some a => .ok a
  | none => .error .indexError

section Functions

variable {U : Unicode} (W : Wordlist U) (S : Sha256)

/-- The bits of a byte, the highest first. -/
def byteBits (b : UInt8) : List ℕ := Bits.ofNat 8 b.toNat

/-- The 11 bits from `i` on, read as a word number. -/
def readIndex (bits : List ℕ) (i : ℕ) : Except Raised ℕ :=
  (List.range 11).foldlM (fun idx j => return (idx <<< 1) ||| (← item bits (i + j))) 0

/-- The words that the bits make, joined. -/
def writeWords (bits : List ℕ) : Except Raised PyStr := do
  -- `range(0, len(bits), 11)`
  let starts := (List.range ((bits.length + 10) / 11)).map (11 * ·)
  let words ← starts.mapM fun i => do item W.words (← readIndex bits i)
  return Csv.join (.char ' ') (words.map ofStr)

/-- `seed_to_mnemonic`. -/
def seedToMnemonic (seed : Bytes) : Except Raised PyStr := do
  if seed.length ≠ 32 then
    throw (.valueError (ofStr ("seed_to_mnemonic requires a 32-byte seed, got ".toList ++
      natStr seed.length)))
  let checksum := S.digest seed
  writeWords W (seed.flatMap byteBits ++ byteBits (← item checksum 0))

/-- `_INDEX`. -/
def index (w : PyStr) : Option ℕ := (W.words.map ofStr).idxOf? w

/-- The bits of one word. -/
def wordBits (w : PyStr) : Except Raised (List ℕ) :=
  match index W w with
  | none => .error (.valueError (ofStr "invalid recovery word: ".toList ++ w))
  | some idx => .ok (Bits.ofNat 11 idx)

/-- `seed[i >> 3] |= bits[i] << (7 - (i % 8))`. -/
def setBit (bits : List ℕ) (seed : Bytes) (i : ℕ) : Except Raised Bytes := do
  let bit ← item bits i
  let b ← item seed (i >>> 3)
  return seed.set (i >>> 3) (b ||| UInt8.ofNat (bit <<< (7 - i % 8)))

/-- The seed that 256 bits fill. -/
def readSeed (bits : List ℕ) : Except Raised Bytes :=
  (List.range 256).foldlM (setBit bits) (List.replicate 32 0)

/-- One bit of the checksum compared. -/
def checkBit (bits : List ℕ) (checksum : Bytes) (i : ℕ) : Except Raised Unit := do
  let bit ← item bits (256 + i)
  if bit ≠ ((← item checksum 0).toNat >>> (7 - i)) &&& 1 then
    throw (.valueError (ofStr "recovery phrase checksum failed".toList))

/-- `mnemonic_to_seed`. -/
def mnemonicToSeed (mnemonic : PyStr) : Except Raised Bytes := do
  let words := Words.split (space U) (Words.trim (space U) mnemonic)
  if words.length ≠ 24 then
    throw (.valueError (ofStr "expected a 24-word recovery phrase".toList))
  let bits := (← words.mapM (wordBits W)).flatten
  let seed ← readSeed bits
  (List.range 8).forM (checkBit bits (S.digest seed))
  return seed

end Functions

/-! ## Reading and setting bits -/

theorem item_of_lt {α : Type} {xs : List α} {i : ℕ} (h : i < xs.length) :
    item xs i = .ok xs[i] := by
  rw [item, List.getElem?_eq_getElem h]

/-- The last step of a loop. -/
theorem foldlM_range_succ {ε α : Type} (f : α → ℕ → Except ε α) (a : α) (n : ℕ) :
    (List.range (n + 1)).foldlM f a = (List.range n).foldlM f a >>= fun b => f b n := by
  rw [List.range_succ, List.foldlM_append]
  simp only [List.foldlM_cons, List.foldlM_nil, bind_pure]

@[simp] theorem length_byteBits (b : UInt8) : (byteBits b).length = 8 := Bits.length_ofNat 8 _

theorem byteBits_injective {b c : UInt8} (h : byteBits b = byteBits c) : b = c :=
  UInt8.toNat_inj.1 (Bits.ofNat_injOn b.toNat_lt c.toNat_lt h)

/-- A run of bits is read as the number that it spells. -/
theorem readIndex_eq {bits : List ℕ} {i : ℕ} (h : i + 11 ≤ bits.length) :
    readIndex bits i = .ok (Bits.toNat ((bits.drop i).take 11)) := by
  have hrun : ∀ n, i + n ≤ bits.length →
      (List.range n).foldlM (fun idx j => do return (idx <<< 1) ||| (← item bits (i + j))) 0 =
        (Except.ok (Bits.toNat ((bits.drop i).take n)) : Except Raised ℕ) := by
    intro n
    induction n with
    | zero => intro _; rfl
    | succ n ih =>
      intro hn
      have hlt : n < (bits.drop i).length := by rw [List.length_drop]; omega
      rw [foldlM_range_succ, ih (by omega), List.take_succ_eq_append_getElem hlt,
        Bits.toNat_append_singleton, List.getElem_drop]
      simp only [item_of_lt (show i + n < bits.length by omega)]
      rfl
  exact hrun 11 h

/-- Setting a bit that is clear sets that entry of the byte's bits. -/
theorem byteBits_or {b : UInt8} {j bit : ℕ} (hj : j < 8) (hbit : bit < 2)
    (hclear : (byteBits b)[j]? = some 0) :
    byteBits (b ||| UInt8.ofNat (bit <<< (7 - j))) = (byteBits b).set j bit := by
  have hlt : bit <<< (7 - j) < 256 := by
    rw [Nat.shiftLeft_eq]
    calc bit * 2 ^ (7 - j) ≤ 1 * 2 ^ 7 :=
          Nat.mul_le_mul (by omega) (Nat.pow_le_pow_right Nat.two_pos (by omega))
      _ < 256 := by decide
  rw [byteBits, UInt8.toNat_or, toNat_ofNat_byte hlt]
  exact Bits.ofNat_or (w := 8) hj hbit hclear

/-- One step of filling the seed, on the bits of the seed. -/
theorem setBit_eq {bits : List ℕ} {seed : Bytes} {i : ℕ} (hi : i < bits.length) (hi' : i < 256)
    (hseed : seed.length = 32) (hbit : bits[i] < 2)
    (hclear : (seed.flatMap byteBits)[i]? = some 0) :
    ∃ seed', setBit bits seed i = .ok seed' ∧ seed'.length = 32 ∧
      seed'.flatMap byteBits = (seed.flatMap byteBits).set i bits[i] := by
  have hk : i >>> 3 < seed.length := by rw [Nat.shiftRight_eq_div_pow]; omega
  have hsplit : 8 * (i >>> 3) + i % 8 = i := by rw [Nat.shiftRight_eq_div_pow]; omega
  have hbyte : (byteBits seed[i >>> 3])[i % 8]? = some 0 := by
    rw [← Bits.group_of_flatMap length_byteBits hk, List.getElem?_take_of_lt (by omega),
      List.getElem?_drop, hsplit, hclear]
  refine ⟨seed.set (i >>> 3) (seed[i >>> 3] ||| UInt8.ofNat (bits[i] <<< (7 - i % 8))), ?_, ?_,
    ?_⟩
  · unfold setBit
    rw [item_of_lt hi, item_of_lt hk]
    rfl
  · rw [List.length_set, hseed]
  · have hset := Bits.flatMap_set length_byteBits (a := seed[i >>> 3] |||
      UInt8.ofNat (bits[i] <<< (7 - i % 8))) hk (Nat.mod_lt i (by decide))
      (byteBits_or (Nat.mod_lt i (by decide)) hbit hbyte)
    rw [hset, hsplit]

/-- The seed that is filled has the first 256 bits. -/
theorem readSeed_eq {bits : List ℕ} (hlen : 256 ≤ bits.length) (h : ∀ b ∈ bits, b < 2) :
    ∃ seed, readSeed bits = .ok seed ∧ seed.length = 32 ∧
      seed.flatMap byteBits = bits.take 256 := by
  -- what is read so far, and zeros
  have hrun : ∀ n, n ≤ 256 → ∃ seed,
      (List.range n).foldlM (setBit bits) (List.replicate 32 0) = .ok seed ∧ seed.length = 32 ∧
        seed.flatMap byteBits = bits.take n ++ List.replicate (256 - n) 0 := by
    intro n
    induction n with
    | zero =>
      have hzeros : (List.replicate 32 (0 : UInt8)).flatMap byteBits = List.replicate 256 0 := by
        rw [List.flatMap_def, List.map_replicate]
        rw [show byteBits 0 = List.replicate 8 0 from rfl, List.flatten_replicate_replicate]
      exact fun _ => ⟨List.replicate 32 0, rfl, rfl, hzeros⟩
    | succ n ih =>
      intro hn
      obtain ⟨seed, hrun, hseed, hbits⟩ := ih (by omega)
      have hlt : n < bits.length := by omega
      have htake : (bits.take n).length = n := by rw [List.length_take]; omega
      have hclear : (seed.flatMap byteBits)[n]? = some 0 := by
        rw [hbits, List.getElem?_append_right (by omega), htake, Nat.sub_self,
          List.getElem?_replicate, if_pos (by omega)]
      obtain ⟨seed', hstep, hseed', hset⟩ :=
        setBit_eq hlt (by omega) hseed (h _ (List.getElem_mem hlt)) hclear
      refine ⟨seed', ?_, hseed', ?_⟩
      · rw [foldlM_range_succ, hrun]
        exact hstep
      · rw [hset, hbits, List.set_append_right _ _ (by omega), htake, Nat.sub_self,
          List.take_succ_eq_append_getElem hlt, List.append_assoc,
          show 256 - n = (256 - (n + 1)) + 1 by omega, List.replicate_succ]
        rfl
  obtain ⟨seed, hrun, hseed, hbits⟩ := hrun 256 (le_refl _)
  exact ⟨seed, hrun, hseed, by rw [hbits, Nat.sub_self, List.replicate_zero, List.append_nil]⟩

/-! ## Word numbers -/

section WordNumbers

variable {U : Unicode} (W : Wordlist U) (S : Sha256)

/-- The word of a number. -/
def Wordlist.word (i : Fin 2048) : PyStr := ofStr (W.words.get (i.cast W.length_words.symm))

/-- The words of the numbers, joined by single spaces. -/
def phrase (idxs : List (Fin 2048)) : PyStr := Csv.join (.char ' ') (idxs.map W.word)

/-- The 11 bits of a word number. -/
def indexBits (i : Fin 2048) : List ℕ := Bits.ofNat 11 i

/-- The first byte of the hash, in bits. -/
def checksumBits (seed : Bytes) : List ℕ := byteBits ((S.digest seed).headD 0)

theorem item_digest (seed : Bytes) : item (S.digest seed) 0 = .ok ((S.digest seed).headD 0) := by
  have hlen := S.length_digest seed
  cases h : S.digest seed with
  | nil => rw [h] at hlen; cases hlen
  | cons b rest => rfl

theorem length_indexBits (i : Fin 2048) : (indexBits i).length = 11 := Bits.length_ofNat 11 _

theorem indexBits_injective {i j : Fin 2048} (h : indexBits i = indexBits j) : i = j :=
  Fin.ext (Bits.ofNat_injOn i.2 j.2 h)

theorem lt_two_of_mem_bits {idxs : List (Fin 2048)} {b : ℕ} (h : b ∈ idxs.flatMap indexBits) :
    b < 2 := by
  obtain ⟨i, -, hb⟩ := List.mem_flatMap.1 h
  exact Bits.lt_two_of_mem_ofNat hb

/-- The numbers of as many words are told by their bits. -/
theorem idxs_injective {idxs idxs' : List (Fin 2048)} (hlen : idxs.length = idxs'.length)
    (h : idxs.flatMap indexBits = idxs'.flatMap indexBits) : idxs = idxs' := by
  refine List.ext_getElem hlen fun k hk hk' => indexBits_injective ?_
  rw [← Bits.group_of_flatMap length_indexBits hk, h, Bits.group_of_flatMap length_indexBits hk']

theorem seed_injective {seed seed' : Bytes} (hlen : seed.length = seed'.length)
    (h : seed.flatMap byteBits = seed'.flatMap byteBits) : seed = seed' := by
  refine List.ext_getElem hlen fun k hk hk' => byteBits_injective ?_
  rw [← Bits.group_of_flatMap length_byteBits hk, h, Bits.group_of_flatMap length_byteBits hk']

theorem isWord_word (i : Fin 2048) : Words.IsWord (space U) (W.word i) := by
  have hmem : W.words.get (i.cast W.length_words.symm) ∈ W.words := List.get_mem ..
  refine ⟨?_, fun x hx => ?_⟩
  · rw [Wordlist.word, PyStr.ofStr, ne_eq, List.map_eq_nil_iff]
    exact W.ne_nil _ hmem
  · obtain ⟨c, hc, rfl⟩ := List.mem_map.1 hx
    exact W.no_space _ hmem c hc

theorem space_space : space U (.char ' ') = true :=
  (U.isSpace_ascii ' ' (by decide)).2 (Or.inl rfl)

/-- A phrase is split into its words. -/
theorem split_phrase (idxs : List (Fin 2048)) :
    Words.split (space U) (phrase W idxs) = idxs.map W.word := by
  refine Words.split_join space_space fun w hw => ?_
  obtain ⟨i, -, rfl⟩ := List.mem_map.1 hw
  exact isWord_word W i

/-- The table of numbers undoes the list of words. -/
theorem index_word (i : Fin 2048) : index W (W.word i) = some i.val := by
  have hnodup : (W.words.map ofStr).Nodup :=
    W.nodup.map (List.map_injective_iff.2 fun _ _ => CodePoint.char.inj)
  have hi : i.val < (W.words.map ofStr).length := by
    rw [List.length_map, W.length_words]
    exact i.2
  have hword : (W.words.map ofStr)[i.val] = W.word i := List.getElem_map ..
  rw [index, List.idxOf?_eq_some_iff]
  refine ⟨hi, hword, fun j hj hsame => ?_⟩
  exact absurd (hnodup.getElem_inj_iff.1 (hsame.trans hword.symm)) (by omega)

theorem index_eq_none {w : PyStr} (h : ∀ i, w ≠ W.word i) : index W w = none := by
  rw [index, List.idxOf?_eq_none_iff]
  intro hmem
  obtain ⟨t, ht, rfl⟩ := List.mem_map.1 hmem
  obtain ⟨k, hk, rfl⟩ := List.getElem_of_mem ht
  exact h ⟨k, by rwa [W.length_words] at hk⟩ rfl

/-! ## Writing -/

theorem mapM_ok {ε α β : Type} {f : α → Except ε β} {g : α → β} :
    ∀ {l : List α}, (∀ a ∈ l, f a = .ok (g a)) → l.mapM f = .ok (l.map g)
  | [], _ => rfl
  | a :: l, h => by
    obtain ⟨ha, hl⟩ := List.forall_mem_cons.1 h
    rw [List.mapM_cons, ha, mapM_ok hl]
    rfl

theorem lt_two_of_mem_byteBits {b : UInt8} {c : ℕ} (h : c ∈ byteBits b) : c < 2 :=
  Bits.lt_two_of_mem_ofNat h

/-- 24 groups of bits are written as the words that they number. -/
theorem writeWords_eq {bits : List ℕ} (hlen : bits.length = 264) (h : ∀ b ∈ bits, b < 2) :
    ∃ idxs : List (Fin 2048), idxs.length = 24 ∧ idxs.flatMap indexBits = bits ∧
      writeWords W bits = .ok (phrase W idxs) := by
  have hgroup (k : ℕ) : ∀ b ∈ (bits.drop (11 * k)).take 11, b < 2 :=
    fun b hb => h b (List.mem_of_mem_drop (List.mem_of_mem_take hb))
  let idx (k : ℕ) : Fin 2048 := ⟨Bits.toNat ((bits.drop (11 * k)).take 11),
    (Bits.toNat_lt (hgroup k)).trans_le
      (Nat.pow_le_pow_right Nat.two_pos (List.length_take_le 11 _))⟩
  have hread : ∀ k ∈ List.range 24, (do item W.words (← readIndex bits (11 * k))) =
      .ok (W.words.get ((idx k).cast W.length_words.symm)) := by
    intro k hk
    rw [List.mem_range] at hk
    rw [readIndex_eq (by omega)]
    exact item_of_lt _
  refine ⟨(List.range 24).map idx, by simp, ?_, ?_⟩
  · refine Bits.flatMap_eq_of_groups (w := 11) (by simp [hlen]) fun k hk => ?_
    have hk24 : k < 24 := by simpa using hk
    have hgl : ((bits.drop (11 * k)).take 11).length = 11 := by
      rw [List.length_take, List.length_drop, hlen]
      omega
    rw [List.getElem_map, List.getElem_range, indexBits]
    have := Bits.ofNat_toNat (hgroup k)
    rwa [hgl] at this
  · have hwords : ((List.range 24).map (11 * ·)).mapM (fun i => do
        item W.words (← readIndex bits i)) = .ok ((List.range 24).map fun k =>
          W.words.get ((idx k).cast W.length_words.symm)) := by
      rw [List.mapM_map]
      exact mapM_ok hread
    unfold writeWords
    simp only [hlen]
    rw [show (264 + 10) / 11 = 24 from rfl, hwords, phrase, List.map_map]
    show Except.ok _ = _
    rw [List.map_map]
    rfl

/-- The phrase of a seed: the 24 numbers that its bits and its checksum make. -/
theorem seedToMnemonic_eq {seed : Bytes} (h : seed.length = 32) :
    ∃ idxs : List (Fin 2048), idxs.length = 24 ∧
      idxs.flatMap indexBits = seed.flatMap byteBits ++ checksumBits S seed ∧
      seedToMnemonic W S seed = .ok (phrase W idxs) := by
  have hrun : seedToMnemonic W S seed =
      writeWords W (seed.flatMap byteBits ++ checksumBits S seed) := by
    unfold seedToMnemonic
    rw [if_neg (not_not.2 h)]
    dsimp only
    rw [item_digest]
    rfl
  rw [hrun]
  refine writeWords_eq W ?_ fun b hb => ?_
  · rw [List.length_append, Bits.length_flatMap length_byteBits, h, checksumBits, length_byteBits]
  · rcases List.mem_append.1 hb with hb | hb
    · obtain ⟨a, -, hb⟩ := List.mem_flatMap.1 hb
      exact lt_two_of_mem_byteBits hb
    · exact lt_two_of_mem_byteBits hb

/-! ## Reading -/

/-- A checked loop stops at the first that fails, all with one error. -/
theorem forM_eq {ε α : Type} {f : α → Except ε Unit} {p : α → Prop} [DecidablePred p] {e : ε} :
    ∀ {l : List α}, (∀ a ∈ l, f a = if p a then .ok () else .error e) →
      l.forM f = if ∀ a ∈ l, p a then .ok () else .error e
  | [], _ => by
    rw [if_pos fun a ha => absurd ha List.not_mem_nil]
    rfl
  | a :: l, h => by
    obtain ⟨ha, hl⟩ := List.forall_mem_cons.1 h
    have ih := forM_eq hl
    simp only [List.forall_mem_cons]
    rw [show (a :: l).forM f = (do f a; l.forM f) from rfl, ha, ih]
    by_cases hp : p a
    · simp only [hp, true_and, if_true]
      rfl
    · simp only [hp, false_and, if_false]
      rfl

/-- The failure of the checksum. -/
def checksumFailed : Raised := .valueError (ofStr "recovery phrase checksum failed".toList)

/-- The last 8 bits are compared with the first byte of the hash. -/
theorem checkBits_eq {bits : List ℕ} (hlen : bits.length = 264) (seed : Bytes) :
    (List.range 8).forM (checkBit bits (S.digest seed)) =
      if bits.drop 256 = checksumBits S seed then .ok () else .error checksumFailed := by
  have hstep : ∀ i ∈ List.range 8, checkBit bits (S.digest seed) i =
      if bits[256 + i]? = (checksumBits S seed)[i]? then .ok () else .error checksumFailed := by
    intro i hi
    rw [List.mem_range] at hi
    have hi' : i < (checksumBits S seed).length := by rwa [checksumBits, length_byteBits]
    have hbit : (checksumBits S seed)[i] =
        (((S.digest seed).headD 0).toNat >>> (7 - i)) &&& 1 := Bits.getElem_ofNat' hi'
    unfold checkBit
    rw [item_of_lt (show 256 + i < bits.length by omega), item_digest,
      List.getElem?_eq_getElem (show 256 + i < bits.length by omega), List.getElem?_eq_getElem hi',
      hbit]
    simp only [Option.some.injEq]
    show (if _ then _ else _) = _
    split_ifs <;> first | rfl | contradiction
  rw [forM_eq hstep]
  refine if_congr ⟨fun h => ?_, fun h i hi => ?_⟩ rfl rfl
  · refine List.ext_getElem? fun i => ?_
    rw [List.getElem?_drop]
    by_cases hi : i < 8
    · exact h i (List.mem_range.2 hi)
    · rw [List.getElem?_eq_none (by omega),
        List.getElem?_eq_none (by rw [checksumBits, length_byteBits]; omega)]
  · rw [← h, List.getElem?_drop]

/-- A phrase of 24 words is read as the seed of its first 256 bits, if the checksum agrees. -/
theorem mnemonicToSeed_eq {mnemonic : PyStr} {idxs : List (Fin 2048)} (hlen : idxs.length = 24)
    (h : Words.split (space U) mnemonic = idxs.map W.word) : ∃ seed, seed.length = 32 ∧
      seed.flatMap byteBits = (idxs.flatMap indexBits).take 256 ∧
      mnemonicToSeed W S mnemonic =
        if (idxs.flatMap indexBits).drop 256 = checksumBits S seed then .ok seed
        else .error checksumFailed := by
  have hbits : (idxs.flatMap indexBits).length = 264 := by
    rw [Bits.length_flatMap length_indexBits, hlen]
  obtain ⟨seed, hread, hseed, htake⟩ := @readSeed_eq (idxs.flatMap indexBits) (by omega)
    fun b hb => lt_two_of_mem_bits hb
  refine ⟨seed, hseed, htake, ?_⟩
  have hwords : (idxs.map W.word).mapM (wordBits W) = .ok (idxs.map indexBits) := by
    rw [List.mapM_map]
    refine mapM_ok fun i _ => ?_
    show wordBits W (W.word i) = _
    rw [wordBits, index_word]
    rfl
  unfold mnemonicToSeed
  simp only [Words.split_trim, h, List.length_map, hlen, ne_eq, not_true_eq_false, if_false, hwords]
  show (do
    let seed ← readSeed (idxs.map indexBits).flatten
    (List.range 8).forM (checkBit (idxs.map indexBits).flatten (S.digest seed))
    return seed) = _
  rw [← List.flatMap_def, hread]
  show (do
    (List.range 8).forM (checkBit (idxs.flatMap indexBits) (S.digest seed))
    return seed) = _
  rw [checkBits_eq S hbits]
  split_ifs <;> rfl

/-- Words are all of the list, or the first that is not is refused. -/
theorem readWords_cases : ∀ words : List PyStr,
    (∃ idxs : List (Fin 2048), words = idxs.map W.word) ∨
      ∃ message, words.mapM (wordBits W) = .error (.valueError message)
  | [] => Or.inl ⟨[], rfl⟩
  | w :: words => by
    by_cases hw : ∃ i, w = W.word i
    · obtain ⟨i, rfl⟩ := hw
      have hone : wordBits W (W.word i) = .ok (indexBits i) := by
        rw [wordBits, index_word]
        rfl
      rcases readWords_cases words with ⟨idxs, rfl⟩ | ⟨message, hrest⟩
      · exact Or.inl ⟨i :: idxs, rfl⟩
      · refine Or.inr ⟨message, ?_⟩
        rw [List.mapM_cons, hone, hrest]
        rfl
    · refine Or.inr ⟨ofStr "invalid recovery word: ".toList ++ w, ?_⟩
      rw [List.mapM_cons, wordBits, index_eq_none W fun i hi => hw ⟨i, hi⟩]
      rfl

/-- Anything but 24 words of the list is refused. -/
theorem mnemonicToSeed_of_not {mnemonic : PyStr}
    (h : ¬ ∃ idxs : List (Fin 2048), idxs.length = 24 ∧
      Words.split (space U) mnemonic = idxs.map W.word) :
    ∃ message, mnemonicToSeed W S mnemonic = .error (.valueError message) := by
  unfold mnemonicToSeed
  simp only [Words.split_trim]
  by_cases hlen : (Words.split (space U) mnemonic).length = 24
  · rcases readWords_cases W (Words.split (space U) mnemonic) with ⟨idxs, hidxs⟩ | ⟨message, hbad⟩
    · refine absurd ⟨idxs, ?_, hidxs⟩ h
      rw [← hlen, hidxs, List.length_map]
    · refine ⟨message, ?_⟩
      rw [if_neg (not_not.2 hlen), hbad]
      rfl
  · refine ⟨ofStr "expected a 24-word recovery phrase".toList, ?_⟩
    rw [if_pos hlen]
    rfl

/-- A phrase that is read has 24 words, whose bits are the seed's and its checksum's. -/
theorem mnemonicToSeed_eq_ok {mnemonic : PyStr} {seed : Bytes} :
    mnemonicToSeed W S mnemonic = .ok seed ↔ seed.length = 32 ∧ ∃ idxs : List (Fin 2048),
      idxs.length = 24 ∧ Words.split (space U) mnemonic = idxs.map W.word ∧
        idxs.flatMap indexBits = seed.flatMap byteBits ++ checksumBits S seed := by
  constructor
  · intro hok
    by_cases h : ∃ idxs : List (Fin 2048), idxs.length = 24 ∧
        Words.split (space U) mnemonic = idxs.map W.word
    · obtain ⟨idxs, hlen, hsplit⟩ := h
      obtain ⟨seed', hseed, htake, hrun⟩ := mnemonicToSeed_eq W S hlen hsplit
      rw [hrun] at hok
      split_ifs at hok with hsum
      obtain rfl := Except.ok.inj hok
      refine ⟨hseed, idxs, hlen, hsplit, ?_⟩
      rw [htake, ← hsum, List.take_append_drop]
    · obtain ⟨message, hbad⟩ := mnemonicToSeed_of_not W S h
      rw [hbad] at hok
      cases hok
  · rintro ⟨hlen, idxs, hidxs, hsplit, hbits⟩
    obtain ⟨seed', hseed, htake, hrun⟩ := mnemonicToSeed_eq W S hidxs hsplit
    have h256 : (seed.flatMap byteBits).length = 256 := by
      rw [Bits.length_flatMap length_byteBits, hlen]
    rw [hbits, List.take_left' h256] at htake
    obtain rfl := seed_injective (hseed.trans hlen.symm) htake
    rw [hrun, hbits, List.drop_left' h256, if_pos rfl]

/-- **The codec of recovery phrases.**  Every seed is written and read back; a text that is
read is written as its words, joined by single spaces; any other raises `ValueError`. -/
theorem mnemonic_codec :
    (∀ seed : Bytes, seed.length = 32 → ∃ mnemonic, seedToMnemonic W S seed = .ok mnemonic ∧
      mnemonicToSeed W S mnemonic = .ok seed) ∧
    (∀ mnemonic seed, mnemonicToSeed W S mnemonic = .ok seed →
      seedToMnemonic W S seed =
        .ok (Csv.join (.char ' ') (Words.split (space U) mnemonic))) ∧
    ∀ mnemonic, (∀ seed, mnemonicToSeed W S mnemonic ≠ .ok seed) →
      ∃ message, mnemonicToSeed W S mnemonic = .error (.valueError message) := by
  refine ⟨fun seed hlen => ?_, fun mnemonic seed hok => ?_, fun mnemonic hnone => ?_⟩
  · obtain ⟨idxs, hidxs, hbits, hwrite⟩ := seedToMnemonic_eq W S hlen
    exact ⟨phrase W idxs, hwrite,
      (mnemonicToSeed_eq_ok W S).2 ⟨hlen, idxs, hidxs, split_phrase W idxs, hbits⟩⟩
  · obtain ⟨hlen, idxs, hidxs, hsplit, hbits⟩ := (mnemonicToSeed_eq_ok W S).1 hok
    obtain ⟨idxs', hidxs', hbits', hwrite⟩ := seedToMnemonic_eq W S hlen
    obtain rfl := idxs_injective (hidxs.trans hidxs'.symm) (hbits.trans hbits'.symm)
    rw [hwrite, hsplit, phrase]
  · by_cases h : ∃ idxs : List (Fin 2048), idxs.length = 24 ∧
        Words.split (space U) mnemonic = idxs.map W.word
    · obtain ⟨idxs, hlen, hsplit⟩ := h
      obtain ⟨seed, -, -, hrun⟩ := mnemonicToSeed_eq W S hlen hsplit
      rw [hrun] at hnone ⊢
      split_ifs at hnone ⊢ with hsum
      · exact absurd rfl (hnone seed)
      · exact ⟨_, rfl⟩
    · exact mnemonicToSeed_of_not W S h

end WordNumbers

namespace Sample

/-- Numerals for words. -/
def wordlist (U : Unicode) : Wordlist U where
  words := (List.range 2048).map natStr
  length_words := by rw [List.length_map, List.length_range]
  nodup := List.nodup_range.map natStr_injective
  ne_nil := by
    intro w hw
    obtain ⟨n, -, rfl⟩ := List.mem_map.1 hw
    exact natStr_ne_nil n
  no_space := by
    intro w hw c hc
    obtain ⟨n, -, rfl⟩ := List.mem_map.1 hw
    have hdigit := (natStr_digits n).2 c hc
    rw [Char.isDigit, Bool.and_eq_true, decide_eq_true_eq, decide_eq_true_eq] at hdigit
    have hlo : 48 ≤ c.toNat := hdigit.1
    have hhi : c.toNat ≤ 57 := hdigit.2
    rw [Bool.eq_false_iff, ne_eq, U.isSpace_ascii c (by omega)]
    rintro (rfl | h | h)
    · exact absurd hlo (by decide)
    all_goals omega

/-- A seed, -/
def seed : Bytes := (List.range 32).map fun i => UInt8.ofNat (8 * i + 7)

/-- and its phrase. -/
def numerals : PyStr := ofStr ("56 965 1598 626 1947 1277 233 1879 763 475 1774 2040 967 1630 " ++
  "1012 1967 1469 2033 1951 1405 2035 1983 1791 1799").toList

end Sample

open GumptionChain.Sample (asciiTables shortDigest)

theorem mnemonic_codec_numerals :
    seedToMnemonic (Sample.wordlist asciiTables) shortDigest Sample.seed = .ok Sample.numerals ∧
      mnemonicToSeed (Sample.wordlist asciiTables) shortDigest Sample.numerals = .ok Sample.seed ∧
      ∃ message, mnemonicToSeed (Sample.wordlist asciiTables) shortDigest [] =
        .error (.valueError message) := by
  obtain ⟨hwritten, -, hrefused⟩ := mnemonic_codec (Sample.wordlist asciiTables) shortDigest
  have hphrase : seedToMnemonic (Sample.wordlist asciiTables) shortDigest Sample.seed =
      .ok Sample.numerals := by decide +kernel
  obtain ⟨mnemonic, hwrite, hread⟩ := hwritten Sample.seed (by decide)
  obtain rfl := Except.ok.inj (hphrase.symm.trans hwrite)
  exact ⟨hphrase, hread, hrefused [] fun _ h => by cases h⟩

end Bip39
end GumptionChain
