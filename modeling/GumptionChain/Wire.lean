import GumptionChain.Lib.Checked
import GumptionChain.Models

/-!
# Blocks as JSON

`to_dict`, `to_json`, `from_dict` and `from_json` of `block.py` and `transaction.py`: the
objects that are written, with the fields that are `None` left out, and what the wire
models make of any JSON value.  JSON text, and the conversions of pydantic's `int` and
`str`, are those of a library (`JsonLib`).

* `Block.readModel_toDict` — what the models say of a written block is what
  `blockErrors` says of the block.
-/

namespace GumptionChain

/-- A JSON value as Python reads it. -/
inductive Value where
  | null
  | bool (b : Bool)
  | int (n : ℤ)
  | float (text : Str)
  | str (s : Str)
  | arr (items : List Value)
  | obj (fields : List (String × Value))

/-- The parser of `model_validate_json`, and pydantic's conversions to `int` and `str`,
with their messages. -/
structure JsonLib where
  loads : Str → Except String Value
  asInt : Value → Except String ℤ
  asStr : Value → Except String Str
  asInt_int : ∀ n, asInt (.int n) = .ok n
  asStr_str : ∀ s, asStr (.str s) = .ok s

namespace Value

/-- `v[key]`. -/
def lookup (fields : List (String × Value)) (key : String) : Option Value :=
  (fields.find? (·.1 = key)).map Prod.snd

/-- A dictionary without the fields that are `None`. -/
def sansNone (fields : List (String × Option Value)) : List (String × Value) :=
  fields.filterMap fun p => p.2.map (p.1, ·)

theorem lookup_sansNone : ∀ {fields : List (String × Option Value)} {key : String}
    {v : Option Value}, (fields.map Prod.fst).Nodup → (key, v) ∈ fields →
      lookup (sansNone fields) key = v := by
  intro fields
  induction fields with
  | nil => exact fun _ h => absurd h List.not_mem_nil
  | cons p fields ih =>
    intro key v hn hmem
    rw [List.map_cons, List.nodup_cons] at hn
    have hskip : p.1 ≠ key → lookup (sansNone (p :: fields)) key = lookup (sansNone fields) key := by
      intro hne
      cases hp : p.2 <;> simp [lookup, sansNone, hp, hne]
    rcases List.mem_cons.1 hmem with rfl | hmem
    · cases v with
      | some v => simp [lookup, sansNone]
      | none =>
        -- a field that is left out is not found further on
        have hnone : ∀ q ∈ sansNone fields, ¬ q.1 = key := by
          intro q hq heq
          obtain ⟨r, hr, hrq⟩ := List.mem_filterMap.1 hq
          obtain ⟨w, -, rfl⟩ := Option.map_eq_some_iff.1 hrq
          exact hn.1 (List.mem_map.2 ⟨r, hr, heq⟩)
        simp only [lookup, sansNone, List.filterMap_cons, Option.map_none]
        rw [Option.map_eq_none_iff, List.find?_eq_none]
        exact fun q hq => by simpa using hnone q hq
    · have hne : p.1 ≠ key := by
        rintro rfl
        exact hn.1 (List.mem_map.2 ⟨_, hmem, rfl⟩)
      rw [hskip hne, ih hn.2 hmem]

end Value

/-! ## JSON text -/

/-- `'\\u{0:04x}'.format(n)`. -/
def unicodeEscape (n : ℕ) : Str :=
  let digits := Nat.toDigits 16 n
  '\\' :: 'u' :: (List.replicate (4 - digits.length) '0' ++ digits)

/-- `json.encoder`'s escapes with `ensure_ascii`: a character past U+FFFF takes two. -/
def escapeChar (c : Char) : Str :=
  if c = '"' then ['\\', '"']
  else if c = '\\' then ['\\', '\\']
  else if c = '\n' then ['\\', 'n']
  else if c = '\r' then ['\\', 'r']
  else if c = '\t' then ['\\', 't']
  else if c.toNat = 8 then ['\\', 'b']
  else if c.toNat = 12 then ['\\', 'f']
  else if ' ' ≤ c ∧ c ≤ '~' then [c]
  else if c.toNat < 0x10000 then unicodeEscape c.toNat
  else
    let n := c.toNat - 0x10000
    unicodeEscape (0xd800 + n / 0x400) ++ unicodeEscape (0xdc00 + n % 0x400)

/-- A quoted text. -/
def quoted (s : Str) : Str := '"' :: s.flatMap escapeChar ++ ['"']

namespace Value

mutual

/-- `json.dumps`. -/
def dumps : Value → Str
  | .null => ['n', 'u', 'l', 'l']
  | .bool true => ['t', 'r', 'u', 'e']
  | .bool false => ['f', 'a', 'l', 's', 'e']
  | .int n => intStr n
  | .float text => text
  | .str s => quoted s
  | .arr items => '[' :: [',', ' '].intercalate (dumpsItems items) ++ [']']
  | .obj fields => '\x7b' :: [',', ' '].intercalate (dumpsFields fields) ++ ['\x7d']

/-- The texts of an array's items. -/
def dumpsItems : List Value → List Str
  | [] => []
  | v :: vs => v.dumps :: dumpsItems vs

/-- The texts of an object's members. -/
def dumpsFields : List (String × Value) → List Str
  | [] => []
  | (key, v) :: fields => (quoted key.toList ++ ':' :: ' ' :: v.dumps) :: dumpsFields fields

end

end Value

/-! ## Reading fields -/

/-- A value, or the errors found in it. -/
abbrev Checked (α : Type) := Except (List ErrorDetail) α

variable {α : Type}

/-- A field without a default. -/
def needField (read : List Loc → Value → Checked α) (loc : List Loc) : Option Value → Checked α
  | none => .error [⟨loc, "Field required", none⟩]
  | some v => read loc v

/-- A field of a type `… | None` with the default `None`. -/
def readOptional (read : List Loc → Value → Checked α) (loc : List Loc) :
    Option Value → Checked (Option α)
  | none => .ok none
  | some .null => .ok none
  | some v => (read loc v).map some

/-- A `str` with a check. -/
def readStr (J : JsonLib) (check : List Loc → Str → List ErrorDetail) (loc : List Loc)
    (v : Value) : Checked Str :=
  match J.asStr v with
  | .ok s => Checked.of (check loc s) s
  | .error msg => .error [⟨loc, msg, none⟩]

/-- `Field(ge=…)`. -/
def checkGe (bound : ℕ) (loc : List Loc) (n : ℤ) : List ErrorDetail :=
  check (bound ≤ n) loc s!"Input should be greater than or equal to {bound}" none

/-- An `int` with a lower bound. -/
def readInt (J : JsonLib) (bound : ℕ) (loc : List Loc) (v : Value) : Checked ℤ :=
  match J.asInt v with
  | .ok n => Checked.of (checkGe bound loc n) n
  | .error msg => .error [⟨loc, msg, none⟩]

/-- A `Literal` of texts. -/
def readLiteral {α : Type} (of : Str → Option α) (msg : String) (loc : List Loc) :
    Value → Checked α
  | .str s => (of s).elim (.error [⟨loc, msg, none⟩]) .ok
  | _ => .error [⟨loc, msg, none⟩]

/-- A list with bounds on its length. -/
def readList (min max : ℕ) (item : List Loc → Value → Checked α) (loc : List Loc) :
    Value → Checked (List α)
  | .arr vs =>
    if max < vs.length then .error [⟨loc, lengthMsg "most" max vs.length, none⟩]
    else (Checked.all (fun p : Value × ℕ => item (loc ++ [.index p.2]) p.1) vs.zipIdx).bind
      fun items =>
        if vs.length < min then .error [⟨loc, lengthMsg "least" min vs.length, none⟩]
        else .ok items
  | _ => .error [⟨loc, "Input should be a valid array", none⟩]

/-- An object with the given fields and, by `extra='forbid'`, no others. -/
def readObject (names : List String) (loc : List Loc)
    (body : (String → Option Value) → Checked α) : Value → Checked α
  | .obj fields =>
    (Checked.both (body (Value.lookup fields)) (Checked.of
      ((fields.filter (·.1 ∉ names)).map fun p =>
        ⟨field loc p.1, "Extra inputs are not permitted", none⟩) ())).map Prod.fst
  | _ => .error [⟨loc, "Input should be an object", none⟩]

section
variable {J : JsonLib} {loc : List Loc}

theorem need_str {check : List Loc → Str → List ErrorDetail} (o : Option Str) :
    (needField (readStr J check) loc (o.map .str)).map some
      = Checked.of (required loc (check loc) o) o := by
  cases o with
  | none => rfl
  | some s => simp only [Option.map_some, needField, readStr, J.asStr_str, Checked.map_of, required]

theorem need_nat (o : Option ℕ) :
    (needField (readInt J 0) loc (o.map fun n : ℕ => Value.int (n : ℤ))).map (fun n => some n.toNat)
      = Checked.of (required loc (fun _ => []) o) o := by
  cases o with
  | none => rfl
  | some n =>
    simp only [Option.map_some, needField, readInt, J.asInt_int, required]
    rw [show checkGe 0 loc (n : ℤ) = [] by simp [checkGe, check]]
    rfl

theorem optional_str {check : List Loc → Str → List ErrorDetail} (o : Option Str) :
    readOptional (readStr J check) loc (o.map .str) = Checked.of (optional (check loc) o) o := by
  cases o with
  | none => rfl
  | some s => simp only [Option.map_some, readOptional, readStr, J.asStr_str, Checked.map_of,
      optional]

theorem readList_of {min max : ℕ} {item : List Loc → Value → Checked α}
    {errors : List Loc → α → List ErrorDetail} {toValue : α → Value}
    (h : ∀ loc a, item loc (toValue a) = Checked.of (errors loc a) a) (l : List α) :
    readList min max item loc (.arr (l.map toValue)) = Checked.of (checkList loc min max errors l) l := by
  have hitems : Checked.all (fun p : Value × ℕ => item (loc ++ [.index p.2]) p.1)
      (l.map toValue).zipIdx = Checked.of (itemErrors loc errors l) l := by
    rw [List.zipIdx_map, Checked.all_map, Checked.all_of fun p _ => h _ p.1, List.zipIdx_map_fst]
    rfl
  rw [readList, List.length_map, hitems, checkList]
  by_cases hmax : max < l.length
  · rw [if_pos hmax, if_pos hmax]
    rfl
  · rw [if_neg hmax, if_neg hmax]
    cases herr : itemErrors loc errors l with
    | nil =>
      rw [if_neg (not_not.2 rfl)]
      split_ifs <;> rfl
    | cons e es => rw [if_pos (List.cons_ne_nil _ _)]; rfl

theorem readObject_of {names : List String} {body : (String → Option Value) → Checked α}
    {fields : List (String × Option Value)} {errors : List ErrorDetail} {a : α}
    (hnames : fields.map Prod.fst = names) (hn : names.Nodup)
    (hbody : ∀ get : String → Option Value, (∀ p ∈ fields, get p.1 = p.2) →
      body get = Checked.of errors a) :
    readObject names loc body (.obj (Value.sansNone fields)) = Checked.of errors a := by
  subst hnames
  have hextra : (Value.sansNone fields).filter (·.1 ∉ fields.map Prod.fst) = [] := by
    rw [List.filter_eq_nil_iff]
    intro p hp
    obtain ⟨q, hq, hqp⟩ := List.mem_filterMap.1 hp
    obtain ⟨v, -, rfl⟩ := Option.map_eq_some_iff.1 hqp
    simpa using ⟨q.2, hq⟩
  rw [readObject, hbody _ fun p hp => Value.lookup_sansNone hn hp, hextra, List.map_nil,
    Checked.both_of, List.append_nil, Checked.map_of]

end

/-! ## Flows -/

/-- `InflowModel`. -/
def readInflow (J : JsonLib) (loc : List Loc) : Value → Checked Inflow :=
  readObject ["outflow_txid", "outflow_idx"] loc fun get =>
    (Checked.both
      ((needField (readStr J checkMillHash) (field loc "outflow_txid")
        (get "outflow_txid")).map some)
      ((needField (readInt J 0) (field loc "outflow_idx") (get "outflow_idx")).map
        fun n => some n.toNat)).map fun p => ⟨p.1, p.2⟩

/-- `asdict_sans_none`. -/
def Inflow.toDict (i : Inflow) : Value :=
  .obj (Value.sansNone [("outflow_txid", i.outflowTxid.map .str),
    ("outflow_idx", i.outflowIdx.map fun n : ℕ => Value.int (n : ℤ))])

theorem readInflow_toDict (J : JsonLib) (loc : List Loc) (i : Inflow) :
    readInflow J loc i.toDict = Checked.of (inflowErrors loc i) i := by
  refine readObject_of rfl (by decide) fun get hget => ?_
  simp only [List.forall_mem_cons] at hget
  obtain ⟨htxid, hidx, -⟩ := hget
  rw [htxid, hidx, need_str, need_nat, Checked.both_of, Checked.map_of]
  rfl

/-- The texts of `StakeKind`. -/
def StakeKind.ofStr (s : Str) : Option StakeKind :=
  if s = StakeKind.opposition.str then some .opposition
  else if s = StakeKind.support.str then some .support
  else none

/-- The fields of `OutflowModel`. -/
def readOutflowFields (J : JsonLib) (E : Env) (loc : List Loc) : Value → Checked Outflow :=
  readObject ["amount", "address", "opposition", "rescind", "support", "rescind_kind"] loc fun get =>
    (Checked.both ((needField (readInt J 1) (field loc "amount") (get "amount")).map some)
      (Checked.both
        (readOptional (readStr J checkAddress) (field loc "address") (get "address"))
        (Checked.both
          (readOptional (readStr J (checkSubject E)) (field loc "opposition") (get "opposition"))
          (Checked.both
            (readOptional (readStr J (checkSubject E)) (field loc "rescind") (get "rescind"))
            (Checked.both
              (readOptional (readStr J (checkSubject E)) (field loc "support") (get "support"))
              (readOptional (readLiteral StakeKind.ofStr
                "Input should be 'opposition' or 'support'") (field loc "rescind_kind")
                (get "rescind_kind"))))))).map
      fun (amount, address, opposition, rescind, support, rescindKind) =>
        ⟨amount, address, opposition, rescind, support, rescindKind⟩

/-- `OutflowModel`. -/
def readOutflow (J : JsonLib) (E : Env) (loc : List Loc) (v : Value) : Checked Outflow :=
  (readOutflowFields J E loc v).bind fun o => Checked.of (destinationErrors loc o) o

/-- `asdict_sans_none`. -/
def Outflow.toDict (o : Outflow) : Value :=
  .obj (Value.sansNone [("amount", o.amount.map .int), ("address", o.address.map .str),
    ("opposition", o.opposition.map .str), ("rescind", o.rescind.map .str),
    ("support", o.support.map .str),
    ("rescind_kind", o.rescindKind.map fun k => .str k.str)])

theorem need_amount {J : JsonLib} {loc : List Loc} (o : Option ℤ) :
    (needField (readInt J 1) loc (o.map .int)).map some
      = Checked.of (required loc (fun n => check (1 ≤ n) loc
          "Input should be greater than or equal to 1" none) o) o := by
  cases o with
  | none => rfl
  | some n =>
    simp only [Option.map_some, needField, readInt, J.asInt_int, Checked.map_of, required]
    rfl

theorem optional_kind {msg : String} {loc : List Loc} (o : Option StakeKind) :
    readOptional (readLiteral StakeKind.ofStr msg) loc (o.map fun k => .str k.str) = .ok o := by
  cases o with
  | none => rfl
  | some k => cases k <;> rfl

theorem readOutflow_toDict (J : JsonLib) (E : Env) (loc : List Loc) (o : Outflow) :
    readOutflow J E loc o.toDict = Checked.of (outflowErrors E loc o) o := by
  have hfields : readOutflowFields J E loc o.toDict
      = Checked.of (outflowFieldErrors E loc o) o := by
    refine readObject_of rfl (by decide) fun get hget => ?_
    simp only [List.forall_mem_cons] at hget
    obtain ⟨hamount, haddress, hopposition, hrescind, hsupport, hkind, -⟩ := hget
    rw [hamount, haddress, hopposition, hrescind, hsupport, hkind, need_amount, optional_str,
      optional_str, optional_str, optional_str, optional_kind, ← Checked.of_nil, Checked.both_of,
      Checked.both_of, Checked.both_of, Checked.both_of, Checked.both_of, Checked.map_of,
      outflowFieldErrors, List.append_nil, List.append_assoc, List.append_assoc, List.append_assoc]
  rw [readOutflow, hfields, Checked.bind_of, outflowErrors]
  cases outflowFieldErrors E loc o <;> rfl

/-! ## Transactions -/

/-- `Literal['1']`. -/
def readVersion : List Loc → Value → Checked Str :=
  readLiteral (fun s => if s = ['1'] then some s else none) "Input should be '1'"

/-- `TransactionModel`, and `txn_from_model_data`. -/
def readTransaction (J : JsonLib) (E : Env) (loc : List Loc) : Value → Checked Transaction :=
  readObject ["timestamp", "txid", "address", "signature", "inflows", "outflows", "version",
      "prev_hash"] loc fun get =>
    (Checked.both (needField (readStr J checkTimestamp) (field loc "timestamp") (get "timestamp"))
      (Checked.both
        ((needField (readStr J checkMillHash) (field loc "txid") (get "txid")).map some)
        (Checked.both
          ((needField (readStr J checkAddress) (field loc "address") (get "address")).map some)
          (Checked.both
            (readOptional (readStr J checkBase64) (field loc "signature") (get "signature"))
            (Checked.both
              (needField (readList 0 maxFlows (readInflow J)) (field loc "inflows") (get "inflows"))
              (Checked.both
                (needField (readList 1 maxFlows (readOutflow J E)) (field loc "outflows")
                  (get "outflows"))
                (Checked.both (needField readVersion (field loc "version") (get "version"))
                  (readOptional (readStr J checkMillHash) (field loc "prev_hash")
                    (get "prev_hash"))))))))).map
      fun (timestamp, txid, address, signature, inflows, outflows, version, prevHash) =>
        ⟨timestamp, txid, address, signature, inflows, outflows, version, prevHash⟩

/-- `to_dict`. -/
def Transaction.toDict (t : Transaction) : Value :=
  .obj (Value.sansNone [("timestamp", some (.str t.timestamp)), ("txid", t.txid.map .str),
    ("address", t.address.map .str), ("signature", t.signature.map .str),
    ("inflows", some (.arr (t.inflows.map Inflow.toDict))),
    ("outflows", some (.arr (t.outflows.map Outflow.toDict))), ("version", some (.str t.version)),
    ("prev_hash", t.prevHash.map .str)])

section
variable {J : JsonLib} {loc : List Loc}

theorem need_text {check : List Loc → Str → List ErrorDetail} (s : Str) :
    needField (readStr J check) loc (some (.str s)) = Checked.of (check loc s) s := by
  rw [needField, readStr, J.asStr_str]

theorem need_version (s : Str) :
    needField readVersion loc (some (.str s)) = Checked.of (checkVersion loc s) s := by
  by_cases h : s = ['1']
  · subst h
    rfl
  · simp [needField, readVersion, readLiteral, checkVersion, check, h, Checked.of]

end

theorem readTransaction_toDict (J : JsonLib) (E : Env) (loc : List Loc) (t : Transaction) :
    readTransaction J E loc t.toDict = Checked.of (transactionErrors E transactionModel loc t) t := by
  refine readObject_of rfl (by decide) fun get hget => ?_
  simp only [List.forall_mem_cons] at hget
  obtain ⟨htime, htxid, haddress, hsignature, hinflows, houtflows, hversion, hprev, -⟩ := hget
  rw [htime, htxid, haddress, hsignature, hinflows, houtflows, hversion, hprev, need_text, need_str,
    need_str, optional_str, needField, readList_of (readInflow_toDict J), needField,
    readList_of (readOutflow_toDict J E), need_version, optional_str]
  simp only [Checked.both_of, Checked.map_of, transactionErrors, transactionModel, checkPrevHash,
    List.append_assoc]

/-! ## Blocks -/

namespace Block

/-- The fields of `BlockModel`. -/
def readFields (J : JsonLib) (E : Env) : Value → Checked Block :=
  readObject ["idx", "timestamp", "block_hash", "prev_hash", "target", "proof_of_work",
      "merkle_root", "txns", "version"] [] fun get =>
    (Checked.both ((needField (readInt J 0) [.key "idx"] (get "idx")).map fun n => some n.toNat)
      (Checked.both
        ((needField (readStr J checkTimestamp) [.key "timestamp"] (get "timestamp")).map some)
        (Checked.both
          ((needField (readStr J checkMillHash) [.key "block_hash"] (get "block_hash")).map some)
          (Checked.both
            ((needField (readStr J checkMillHash) [.key "prev_hash"] (get "prev_hash")).map some)
            (Checked.both (needField (readStr J checkMillHash) [.key "target"] (get "target"))
              (Checked.both
                ((needField (readInt J 0) [.key "proof_of_work"] (get "proof_of_work")).map
                  fun n => some n.toNat)
                (Checked.both
                  ((needField (readStr J checkMillHash) [.key "merkle_root"]
                    (get "merkle_root")).map some)
                  (Checked.both
                    (needField (readList 1 maxTransactions (readTransaction J E)) [.key "txns"]
                      (get "txns"))
                    (needField readVersion [.key "version"] (get "version")))))))))).map
      fun (idx, timestamp, blockHash, prevHash, target, proofOfWork, merkleRoot, txns, version) =>
        ⟨idx, timestamp, blockHash, prevHash, target, proofOfWork, merkleRoot, txns, version⟩

/-- `BlockModel`. -/
def readModel (J : JsonLib) (E : Env) (v : Value) : Checked Block :=
  (readFields J E v).bind fun b => Checked.of b.difficultyErrors b

/-- `from_dict`, with `_block_from_model_data`. -/
def fromDict (J : JsonLib) (E : Env) (v : Value) : Except Err Block :=
  match readModel J E v with
  | .ok b => .ok { b with txns := canonicalOrder b.txns }
  | .error errors => .error (.invalidBlock errors)

/-- `from_json`. -/
def fromJson (J : JsonLib) (E : Env) (j : Str) : Except Err Block :=
  match J.loads j with
  | .ok v => fromDict J E v
  | .error msg => .error (.invalidBlock [⟨[], msg, none⟩])

/-- `to_dict`. -/
def toDict (b : Block) : Value :=
  .obj (Value.sansNone [("idx", b.idx.map fun n : ℕ => Value.int (n : ℤ)),
    ("timestamp", b.timestamp.map .str), ("block_hash", b.blockHash.map .str),
    ("prev_hash", b.prevHash.map .str), ("target", some (.str b.target)),
    ("proof_of_work", b.proofOfWork.map fun n : ℕ => Value.int (n : ℤ)),
    ("merkle_root", b.merkleRoot.map .str),
    ("txns", some (.arr (b.txns.map Transaction.toDict))), ("version", some (.str b.version))])

/-- `to_json`. -/
def toJson (b : Block) : Str := b.toDict.dumps

/-- The models read back what was written, with the errors of the typed checks. -/
theorem readModel_toDict (J : JsonLib) (E : Env) (b : Block) :
    readModel J E b.toDict = Checked.of (b.blockErrors E) b := by
  have hfields : readFields J E b.toDict = Checked.of (b.fieldErrors E) b := by
    refine readObject_of rfl (by decide) fun get hget => ?_
    simp only [List.forall_mem_cons] at hget
    obtain ⟨hidx, htime, hhash, hprev, htarget, hwork, hroot, htxns, hversion, -⟩ := hget
    rw [hidx, htime, hhash, hprev, htarget, hwork, hroot, htxns, hversion, need_nat, need_str,
      need_str, need_str, need_text, need_nat, need_str, needField,
      readList_of (readTransaction_toDict J E), need_version]
    simp only [Checked.both_of, Checked.map_of, fieldErrors, List.append_assoc]
  rw [readModel, hfields, Checked.bind_of, blockErrors]
  cases b.fieldErrors E <;> rfl

/-- A written block is read back, in the canonical order, if the wire model accepts it. -/
theorem fromDict_toDict (J : JsonLib) (E : Env) (b : Block) :
    fromDict J E b.toDict =
      if b.blockErrors E = [] then .ok { b with txns := canonicalOrder b.txns }
      else .error (.invalidBlock (b.blockErrors E)) := by
  rw [fromDict, readModel_toDict]
  cases b.blockErrors E <;> rfl

end Block

namespace Sample

/-- The conversion to `int` of what is one. -/
def strictInt : Value → Except String ℤ
  | .int n => .ok n
  | _ => .error "Input should be a valid integer"

/-- The conversion to `str` of what is one. -/
def strictStr : Value → Except String Str
  | .str s => .ok s
  | _ => .error "Input should be a valid string"

theorem strictInt_int (n : ℤ) : strictInt (.int n) = .ok n := rfl

theorem strictStr_str (s : Str) : strictStr (.str s) = .ok s := rfl

end Sample

end GumptionChain
