import GumptionChain.Preimage

/-!
# The browser's signer

`clients/sdk/gc-transaction.mjs`: the SDK rebuilds the preimage from the JSON that a
node sends, compares its hash with the identifier in the JSON and signs; and
`describeUnsigned` of `transact-glue.mjs`, which shows the JSON before.

A `TypeError` is `none`.  A text is a list of scalar values: `TextEncoder` writes
U+FFFD for a lone surrogate.

* `Json.toStr` — `String(v)` of a JSON value;
* `Sdk.signUnsignedTxn` — the signed JSON;
* `Sdk.rendering` — the inputs and outputs that are shown.
-/

namespace GumptionChain

/-! ## JSON values in JavaScript -/

/-- A number, by the text `String` gives for it. -/
structure JsNumber where
  text : Str
  comma : ',' ∉ text

/-- What `JSON.parse` gives. -/
inductive Json where
  | null
  | bool (b : Bool)
  | num (n : JsNumber)
  | str (s : Str)
  | arr (items : List Json)
  | obj (fields : List (String × Json))

namespace Json

mutual

/-- `String(v)`.  An array joins its items; an object is asked for its `toString`, and
an own field of that name is no function. -/
def toStr : Json → Option Str
  | .null => some ['n', 'u', 'l', 'l']
  | .bool true => some ['t', 'r', 'u', 'e']
  | .bool false => some ['f', 'a', 'l', 's', 'e']
  | .num n => some n.text
  | .str s => some s
  | .arr items => (itemTexts items).map (Csv.join ',')
  | .obj fields =>
    if fields.any (·.1 = "toString") then none
    else some ['[', 'o', 'b', 'j', 'e', 'c', 't', ' ', 'O', 'b', 'j', 'e', 'c', 't', ']']

/-- The texts `join` takes: `null` gives nothing. -/
def itemTexts : List Json → Option (List Str)
  | [] => some []
  | .null :: rest => (itemTexts rest).map ([] :: ·)
  | v :: rest => do
    let text ← v.toStr
    let texts ← itemTexts rest
    return text :: texts

end

/-- `v.key`; `undefined` is `some none`. -/
def get (v : Json) (key : String) : Option (Option Json) :=
  match v with
  | .null => none
  | .obj fields => some ((fields.find? (·.1 = key)).map Prod.snd)
  | _ => some none

/-- `{...v, key: value}`. -/
def assign (v : Json) (key : String) (value : Json) : Json :=
  match v with
  | .obj fields => .obj (fields.filter (·.1 ≠ key) ++ [(key, value)])
  | v => v

/-- `String(v)` where `v` may be `undefined`. -/
def stringOf : Option Json → Option Str
  | none => some ['u', 'n', 'd', 'e', 'f', 'i', 'n', 'e', 'd']
  | some v => v.toStr

/-- The text that `v ?? ''` contributes to a `join`. -/
def orEmpty : Option Json → Option Str
  | none => some []
  | some .null => some []
  | some v => v.toStr

/-- The truth value of a property. -/
def truthy : Option Json → Bool
  | none => false
  | some .null => false
  | some (.bool b) => b
  | some (.num n) => n.text ≠ ['0']
  | some (.str s) => s ≠ []
  | some (.arr _) => true
  | some (.obj _) => true

/-- The items `(v ?? []).map` goes through. -/
def items : Option Json → Option (List Json)
  | none => some []
  | some .null => some []
  | some (.arr items) => some items
  | _ => none

end Json

/-! ## The signer -/

namespace Sdk

open Json

/-- `inflowCsv`. -/
def inflowCsv (i : Json) : Option Str := do
  let txid ← stringOf (← i.get "outflow_txid")
  let idx ← stringOf (← i.get "outflow_idx")
  return Csv.join ',' [txid, idx]

/-- `outflowCsv`. -/
def outflowCsv (o : Json) : Option Str := do
  let amount ← stringOf (← o.get "amount")
  let address ← orEmpty (← o.get "address")
  let opposition ← orEmpty (← o.get "opposition")
  let rescind ← orEmpty (← o.get "rescind")
  let support ← orEmpty (← o.get "support")
  let rescindKind ← orEmpty (← o.get "rescind_kind")
  return Csv.join ',' [amount, address, opposition, rescind, support, rescindKind]

/-- `txn.prev_hash != null`: the field that a coinbase appends. -/
def prevHashFields : Option Json → Option (List Str)
  | none => some []
  | some .null => some []
  | some v => v.toStr.map ([·])

/-- `dataCsv`. -/
def dataCsv (txn : Json) : Option Str := do
  let timestamp ← stringOf (← txn.get "timestamp")
  let address ← stringOf (← txn.get "address")
  let inflows ← (← items (← txn.get "inflows")).mapM inflowCsv
  let outflows ← (← items (← txn.get "outflows")).mapM outflowCsv
  let version ← stringOf (← txn.get "version")
  let prevHash ← prevHashFields (← txn.get "prev_hash")
  return Csv.join ','
    ([timestamp, address, Csv.join ',' inflows, Csv.join ',' outflows, version] ++ prevHash)

/-- `signingData`. -/
def signingData (txn : Json) : Option Str := do
  let data ← dataCsv txn
  let txid ← stringOf (← txn.get "txid")
  return data ++ ',' :: txid

/-- `recomputed === unsigned.txid`. -/
def sameTxid (recomputed : Str) : Option Json → Bool
  | some (.str s) => recomputed = s
  | _ => false

/-- `signUnsignedTxn`.  The identifier is recomputed from an object without one, which
`dataCsv` does not read. -/
def signUnsignedTxn (E : Env) (key : SigningKey) (unsigned : Json) : Option Json := do
  let data ← dataCsv unsigned
  if sameTxid (E.millHashStr data) (← unsigned.get "txid") then
    let signature := key.sign (← signingData unsigned)
    return (unsigned.assign "address" (.str key.address)).assign "signature" (.str signature)
  else none

/-! ## What is shown -/

/-- The branch `describeUnsigned` takes for an outflow. -/
inductive Verb where
  | to
  | oppose
  | support
  | rescind
  | change
  deriving DecidableEq

/-- An outflow as it is shown: the amount, the branch, whom or what it names, and the
kind of a rescind. -/
structure Shown where
  amount : Str
  verb : Verb
  subject : Str
  kind : Str
  deriving DecidableEq

/-- What is shown of an outflow. -/
def describeOutflow (o : Json) : Option Shown := do
  let amount ← stringOf (← o.get "amount")
  let address ← o.get "address"
  let opposition ← o.get "opposition"
  let support ← o.get "support"
  let rescind ← o.get "rescind"
  let rescindKind ← o.get "rescind_kind"
  if Json.truthy address then return ⟨amount, .to, ← stringOf address, []⟩
  else if Json.truthy opposition then return ⟨amount, .oppose, ← stringOf opposition, []⟩
  else if Json.truthy support then return ⟨amount, .support, ← stringOf support, []⟩
  else if Json.truthy rescind then
    return ⟨amount, .rescind, ← stringOf rescind, ← orEmpty rescindKind⟩
  else return ⟨amount, .change, [], []⟩

/-- The inputs and outputs that `describeUnsigned` shows. -/
def rendering (unsigned : Json) : Option (ℕ × List Shown) := do
  let inflows ← items (← unsigned.get "inflows")
  let outflows ← (← items (← unsigned.get "outflows")).mapM describeOutflow
  return (inflows.length, outflows)

/-- The line of an outflow. -/
def Shown.line (o : Shown) : Str :=
  let grains := "  -> ".toList ++ o.amount ++ " grains ".toList
  match o.verb with
  | .to => grains ++ "to ".toList ++ o.subject
  | .oppose => grains ++ "OPPOSE ".toList ++ o.subject
  | .support => grains ++ "SUPPORT ".toList ++ o.subject
  | .rescind => grains ++ "RESCIND ".toList ++ o.subject ++ " (".toList ++ o.kind ++ [')']
  | .change => grains ++ "(change)".toList

/-- `describeUnsigned`. -/
def describeUnsigned (unsigned : Json) : Option Str := do
  let txid ← stringOf (← unsigned.get "txid")
  let (inputs, outputs) ← rendering unsigned
  return Csv.join '\n' ["txid: ".toList ++ txid, "inputs: ".toList ++ natStr inputs,
    "outputs:".toList, Csv.join '\n' (outputs.map Shown.line)]

end Sdk

end GumptionChain
