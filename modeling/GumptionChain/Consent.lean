import GumptionChain.Sdk

/-!
# What the browser's signature binds

The signer hashes and signs a text that it joins from untyped JSON; the confirmation
shows fields of the same JSON.  A comma in a text shifts the columns between them.

* `Sdk.readBack` — the inputs and outputs that a preimage spells, column by column
  (`readBack_dataCsv`: those of every transaction that a wire model accepts);
* `Texts.Tidy.readBack_eq` — an object whose texts hold no comma, and whose fields are
  shown when they have a text, is shown as its preimage spells it;
* `signs_what_is_shown_iff` — what an accepted transaction with the signature does is
  what was shown, exactly if the texts joined and cut again spell what they show, or
  nobody can submit them.
-/

namespace GumptionChain

namespace Sdk

open Json

/-! ## Reading a preimage back -/

/-- The texts an outflow contributes. -/
structure OutflowTexts where
  amount : Str
  address : Str
  opposition : Str
  rescind : Str
  support : Str
  rescindKind : Str

namespace OutflowTexts

/-- The six columns. -/
def columns (o : OutflowTexts) : List Str :=
  [o.amount, o.address, o.opposition, o.rescind, o.support, o.rescindKind]

/-- The text of a branch's field. -/
def subject (o : OutflowTexts) : Verb → Str
  | .to => o.address
  | .oppose => o.opposition
  | .support => o.support
  | .rescind => o.rescind
  | .change => []

/-- What a branch shows. -/
def shownAs (o : OutflowTexts) (verb : Verb) : Shown :=
  ⟨o.amount, verb, o.subject verb, if verb = .rescind then o.rescindKind else []⟩

/-- The first field, in the order `describeUnsigned` asks, that has a text. -/
def spelled (o : OutflowTexts) : Verb :=
  if o.address ≠ [] then .to
  else if o.opposition ≠ [] then .oppose
  else if o.support ≠ [] then .support
  else if o.rescind ≠ [] then .rescind
  else .change

end OutflowTexts

instance (s : Str) : Decidable (IsDecimal s) :=
  inferInstanceAs (Decidable (s ≠ [] ∧ ∀ c ∈ s, c.isDigit = true))

/-- The inflows at the head of a row of columns, counted, and the columns that follow. -/
def readInflows : List Str → ℕ × List Str
  | txid :: idx :: rest =>
    if txid ≠ [] ∧ IsDecimal idx then ((readInflows rest).1 + 1, (readInflows rest).2)
    else (0, txid :: idx :: rest)
  | rest => (0, rest)

/-- The outflows at the head of a row of columns. -/
def readOutflows : List Str → List Shown
  | amount :: address :: opposition :: rescind :: support :: rescindKind :: rest =>
    let o : OutflowTexts := ⟨amount, address, opposition, rescind, support, rescindKind⟩
    o.shownAs o.spelled :: readOutflows rest
  | _ => []

/-- The inputs and outputs that a preimage spells.  No inflow at all takes one empty
column. -/
def readBack (data : Str) : ℕ × List Shown :=
  let inflows := readInflows ((data.splitOn ',').drop 2)
  (inflows.1, readOutflows (if inflows.1 = 0 then inflows.2.drop 1 else inflows.2))

/-- The texts a transaction contributes, and the branch each outflow is shown by. -/
structure Texts where
  timestamp : Str
  address : Str
  inflows : List (Str × Str)
  outflows : List (OutflowTexts × Verb)
  version : Str
  prevHash : List Str

namespace Texts

/-- The preimage they are joined to. -/
def csv (x : Texts) : Str :=
  Csv.join ',' ([x.timestamp, x.address,
    Csv.join ',' (x.inflows.map fun i => Csv.join ',' [i.1, i.2]),
    Csv.join ',' (x.outflows.map fun o => Csv.join ',' o.1.columns), x.version] ++ x.prevHash)

/-- What is shown of them. -/
def rendering (x : Texts) : ℕ × List Shown :=
  (x.inflows.length, x.outflows.map fun o => o.1.shownAs o.2)

/-- The columns of the inflow part; no inflow at all still takes one. -/
def inflowFields (x : Texts) : List Str :=
  if x.inflows = [] then [[]] else x.inflows.flatMap fun i => [i.1, i.2]

/-- The preimage as one row of columns. -/
def fields (x : Texts) : List Str :=
  x.timestamp :: x.address ::
    (x.inflowFields ++ (x.outflows.flatMap (fun o => o.1.columns) ++ x.version :: x.prevHash))

/-- Every text is one column, inflows and outflows are told apart, and each outflow is
shown by the field that has a text. -/
structure Tidy (x : Texts) : Prop where
  comma : ∀ c ∈ x.fields, ',' ∉ c
  inflows : ∀ i ∈ x.inflows, i.1 ≠ [] ∧ IsDecimal i.2
  outflows_ne_nil : x.outflows ≠ []
  outflows : ∀ o ∈ x.outflows, ¬ IsDecimal o.1.address ∧ o.2 = o.1.spelled
  prevHash : x.prevHash.length ≤ 1

end Texts

theorem readInflows_append {a b : Str} {rest : List Str} (h : ¬ (a ≠ [] ∧ IsDecimal b)) :
    ∀ {l : List (Str × Str)}, (∀ i ∈ l, i.1 ≠ [] ∧ IsDecimal i.2) →
      readInflows (l.flatMap (fun i => [i.1, i.2]) ++ a :: b :: rest)
        = (l.length, a :: b :: rest) := by
  intro l
  induction l with
  | nil =>
    intro _
    rw [List.flatMap_nil, List.nil_append, readInflows, if_neg h]
    rfl
  | cons i l ih =>
    intro hl
    have htail := ih fun j hj => hl j (List.mem_cons_of_mem _ hj)
    rw [List.flatMap_cons, List.append_assoc, List.cons_append, List.cons_append,
      List.nil_append, readInflows, if_pos (hl i (List.mem_cons_self ..)), htail]
    rfl

theorem readOutflows_append {rest : List Str} (h : rest.length < 6) :
    ∀ l : List OutflowTexts, readOutflows (l.flatMap OutflowTexts.columns ++ rest)
      = l.map fun o => o.shownAs o.spelled := by
  intro l
  induction l with
  | nil =>
    rw [List.flatMap_nil, List.nil_append, List.map_nil]
    match rest, h with
    | [], _ | [_], _ | [_, _], _ | [_, _, _], _ | [_, _, _, _], _ | [_, _, _, _, _], _ => rfl
  | cons o l ih =>
    rw [List.flatMap_cons, List.append_assoc, List.map_cons, ← ih]
    rfl

namespace Texts

variable {x : Texts}

theorem csv_eq_join (h : x.outflows ≠ []) : x.csv = Csv.join ',' x.fields := by
  have hin : Csv.join ',' (x.inflows.map fun i => Csv.join ',' [i.1, i.2])
      = Csv.join ',' x.inflowFields := by
    unfold inflowFields
    split_ifs with hnil
    · rw [hnil]
      rfl
    · rw [List.flatMap, ← Csv.join_flatten ',' fun r hr => ?_, List.map_map]
      · rfl
      · obtain ⟨i, -, rfl⟩ := List.mem_map.1 hr
        exact List.cons_ne_nil _ _
  have hout : Csv.join ',' (x.outflows.map fun o => Csv.join ',' o.1.columns)
      = Csv.join ',' (x.outflows.flatMap fun o => o.1.columns) := by
    rw [List.flatMap, ← Csv.join_flatten ',' fun r hr => ?_, List.map_map]
    · rfl
    · obtain ⟨o, -, rfl⟩ := List.mem_map.1 hr
      exact List.cons_ne_nil _ _
  have hinNe : x.inflowFields ≠ [] := by
    unfold inflowFields
    split_ifs with hnil
    · simp
    · obtain ⟨i, is, his⟩ := List.exists_cons_of_ne_nil hnil
      simp [his]
  have houtNe : x.outflows.flatMap (fun o => o.1.columns) ≠ [] := by
    obtain ⟨o, os, hos⟩ := List.exists_cons_of_ne_nil h
    simp [hos, OutflowTexts.columns]
  rw [csv, hin, hout]
  exact Csv.join_nested ',' hinNe houtNe

/-- The inflows end where the outflows begin. -/
theorem Tidy.readInflows_eq (h : x.Tidy) {rest : List Str} :
    readInflows (x.inflowFields ++ (x.outflows.flatMap (fun o => o.1.columns) ++ rest))
      = (x.inflows.length, (if x.inflows = [] then [[]] else []) ++
          (x.outflows.flatMap (fun o => o.1.columns) ++ rest)) := by
  obtain ⟨o, os, hos⟩ := List.exists_cons_of_ne_nil h.outflows_ne_nil
  have hstop := (h.outflows o (hos ▸ List.mem_cons_self ..)).1
  by_cases hnil : x.inflows = []
  · -- the empty column is no inflow
    rw [inflowFields, if_pos hnil, hnil, hos]
    rfl
  · rw [inflowFields, if_neg hnil, if_neg hnil, hos]
    exact readInflows_append (fun hd => hstop hd.2) h.inflows

/-- A tidy transaction is shown as its preimage spells it. -/
theorem Tidy.readBack_eq (h : x.Tidy) : readBack x.csv = x.rendering := by
  have hcols : x.csv.splitOn ',' = x.fields := by
    rw [csv_eq_join h.outflows_ne_nil]
    exact List.splitOn_intercalate ',' h.comma (by simp [fields])
  have hdrop : x.fields.drop 2 = x.inflowFields ++
      (x.outflows.flatMap (fun o => o.1.columns) ++ x.version :: x.prevHash) := rfl
  have hrest : (x.version :: x.prevHash).length < 6 := by
    have := h.prevHash
    rw [List.length_cons]
    omega
  have hout : readOutflows (x.outflows.flatMap (fun o => o.1.columns) ++ x.version :: x.prevHash)
      = x.outflows.map fun o => o.1.shownAs o.2 := by
    have hread := readOutflows_append hrest (x.outflows.map Prod.fst)
    rw [List.flatMap_map, List.map_map] at hread
    rw [hread]
    exact List.map_congr_left fun o ho => by rw [Function.comp, (h.outflows o ho).2]
  rw [readBack, hcols, hdrop, h.readInflows_eq, rendering]
  by_cases hnil : x.inflows = []
  · rw [hnil, if_pos rfl, ← hout]
    rfl
  · rw [if_neg hnil, if_neg (by simpa using hnil), List.nil_append, hout]

end Texts

/-! ## The texts of a JSON transaction -/

/-- The branch `describeUnsigned` takes. -/
def verbOf (address opposition support rescind : Option Json) : Verb :=
  if Json.truthy address then .to
  else if Json.truthy opposition then .oppose
  else if Json.truthy support then .support
  else if Json.truthy rescind then .rescind
  else .change

/-- The texts of an inflow. -/
def inflowTexts (i : Json) : Option (Str × Str) := do
  let txid ← stringOf (← i.get "outflow_txid")
  let idx ← stringOf (← i.get "outflow_idx")
  return (txid, idx)

/-- The texts of an outflow. -/
def outflowTexts (o : Json) : Option (OutflowTexts × Verb) := do
  let amount ← stringOf (← o.get "amount")
  let address ← o.get "address"
  let opposition ← o.get "opposition"
  let rescind ← o.get "rescind"
  let support ← o.get "support"
  let rescindKind ← o.get "rescind_kind"
  return (⟨amount, ← orEmpty address, ← orEmpty opposition, ← orEmpty rescind,
    ← orEmpty support, ← orEmpty rescindKind⟩, verbOf address opposition support rescind)

/-- The texts of a transaction. -/
def texts (txn : Json) : Option Texts := do
  let timestamp ← stringOf (← txn.get "timestamp")
  let address ← stringOf (← txn.get "address")
  let inflows ← (← items (← txn.get "inflows")).mapM inflowTexts
  let outflows ← (← items (← txn.get "outflows")).mapM outflowTexts
  let version ← stringOf (← txn.get "version")
  let prevHash ← prevHashFields (← txn.get "prev_hash")
  return ⟨timestamp, address, inflows, outflows, version, prevHash⟩

theorem stringOf_of_truthy {v : Option Json} (h : Json.truthy v = true) :
    stringOf v = orEmpty v := by
  rcases v with _ | v
  · exact absurd h (by simp [Json.truthy])
  · cases v
    · exact absurd h (by simp [Json.truthy])
    all_goals rfl

theorem mapM_option_map {α β γ : Type} {f : α → Option γ} {g : α → Option β} {h : β → γ}
    (hf : ∀ a, f a = (g a).map h) (l : List α) : l.mapM f = (l.mapM g).map (List.map h) := by
  induction l with
  | nil => rfl
  | cons a l ih =>
    rw [List.mapM_cons, List.mapM_cons, hf, ih]
    cases g a with
    | none => rfl
    | some b =>
      cases l.mapM g with
      | none => rfl
      | some bs => rfl

theorem get_eq (v : Json) : v = .null ∨ ∃ f : String → Option Json, ∀ key, v.get key = some (f key) := by
  cases v with
  | null => exact Or.inl rfl
  | obj fields => exact Or.inr ⟨_, fun _ => rfl⟩
  | _ => exact Or.inr ⟨fun _ => none, fun _ => rfl⟩

theorem inflowCsv_eq (i : Json) :
    inflowCsv i = (inflowTexts i).map fun x => Csv.join ',' [x.1, x.2] := by
  rcases get_eq i with rfl | ⟨f, hf⟩
  · rfl
  · simp only [inflowCsv, inflowTexts, hf, Option.bind_eq_bind, Option.bind_some]
    cases stringOf (f "outflow_txid") with
    | none => rfl
    | some txid => cases stringOf (f "outflow_idx") <;> rfl

theorem outflowCsv_eq (o : Json) :
    outflowCsv o = (outflowTexts o).map fun x => Csv.join ',' x.1.columns := by
  rcases get_eq o with rfl | ⟨f, hf⟩
  · rfl
  · simp only [outflowCsv, outflowTexts, hf, Option.bind_eq_bind, Option.bind_some]
    cases stringOf (f "amount") with
    | none => rfl
    | some amount =>
      simp only [Option.bind_some]
      cases orEmpty (f "address") with
      | none => rfl
      | some address =>
        simp only [Option.bind_some]
        cases orEmpty (f "opposition") with
        | none => rfl
        | some opposition =>
          simp only [Option.bind_some]
          cases orEmpty (f "rescind") with
          | none => rfl
          | some rescind =>
            simp only [Option.bind_some]
            cases orEmpty (f "support") with
            | none => rfl
            | some support => cases orEmpty (f "rescind_kind") <;> rfl

theorem dataCsv_eq (u : Json) : dataCsv u = (texts u).map Texts.csv := by
  rcases get_eq u with rfl | ⟨f, hf⟩
  · rfl
  · simp only [dataCsv, texts, hf, Option.bind_eq_bind, Option.bind_some]
    cases stringOf (f "timestamp") with
    | none => rfl
    | some timestamp =>
      simp only [Option.bind_some]
      cases stringOf (f "address") with
      | none => rfl
      | some address =>
        simp only [Option.bind_some]
        cases items (f "inflows") with
        | none => rfl
        | some is =>
          simp only [Option.bind_some, mapM_option_map inflowCsv_eq]
          cases is.mapM inflowTexts with
          | none => rfl
          | some inflows =>
            simp only [Option.map_some, Option.bind_some]
            cases items (f "outflows") with
            | none => rfl
            | some os =>
              simp only [Option.bind_some, mapM_option_map outflowCsv_eq]
              cases os.mapM outflowTexts with
              | none => rfl
              | some outflows =>
                simp only [Option.map_some, Option.bind_some]
                cases stringOf (f "version") with
                | none => rfl
                | some version => cases prevHashFields (f "prev_hash") <;> rfl

/-- What is shown of an outflow is told by its texts. -/
theorem describeOutflow_eq {o : Json} {x : OutflowTexts × Verb}
    (h : outflowTexts o = some x) : describeOutflow o = some (x.1.shownAs x.2) := by
  rcases get_eq o with rfl | ⟨f, hf⟩
  · exact absurd h (by simp [outflowTexts, Json.get])
  · simp only [outflowTexts, hf, Option.bind_eq_bind, Option.bind_some, Option.bind_eq_some_iff]
      at h
    obtain ⟨amount, h1, address, h2, opposition, h3, rescind, h4, support, h5, kind, h6, hx⟩ := h
    have hx := (Option.some.inj hx).symm
    simp only [describeOutflow, hf, Option.bind_eq_bind, Option.bind_some, h1]
    by_cases ht : Json.truthy (f "address") = true
    · rw [if_pos ht, stringOf_of_truthy ht, h2, hx]
      simp [OutflowTexts.shownAs, OutflowTexts.subject, verbOf, ht]
    · rw [if_neg ht]
      by_cases hop : Json.truthy (f "opposition") = true
      · rw [if_pos hop, stringOf_of_truthy hop, h3, hx]
        simp [OutflowTexts.shownAs, OutflowTexts.subject, verbOf, ht, hop]
      · rw [if_neg hop]
        by_cases hsu : Json.truthy (f "support") = true
        · rw [if_pos hsu, stringOf_of_truthy hsu, h5, hx]
          simp [OutflowTexts.shownAs, OutflowTexts.subject, verbOf, ht, hop, hsu]
        · rw [if_neg hsu]
          by_cases hre : Json.truthy (f "rescind") = true
          · rw [if_pos hre, stringOf_of_truthy hre, h4, h6, hx]
            simp [OutflowTexts.shownAs, OutflowTexts.subject, verbOf, ht, hop, hsu, hre]
          · rw [if_neg hre, hx]
            simp [OutflowTexts.shownAs, OutflowTexts.subject, verbOf, ht, hop, hsu, hre]

theorem mapM_option_of {α β γ : Type} {f : α → Option β} {g : α → Option γ} {h : β → γ}
    (hfg : ∀ a b, f a = some b → g a = some (h b)) :
    ∀ {l : List α} {bs : List β}, l.mapM f = some bs →
      l.mapM g = some (bs.map h) ∧ bs.length = l.length := by
  intro l
  induction l with
  | nil =>
    intro bs hbs
    obtain rfl := Option.some.inj hbs
    exact ⟨rfl, rfl⟩
  | cons a l ih =>
    intro bs hbs
    rw [List.mapM_cons, Option.bind_eq_bind, Option.bind_eq_some_iff] at hbs
    obtain ⟨b, hb, hbs⟩ := hbs
    rw [Option.bind_eq_bind, Option.bind_eq_some_iff] at hbs
    obtain ⟨bs', hbs', heq⟩ := hbs
    obtain rfl := Option.some.inj heq
    obtain ⟨hg, hlen⟩ := ih hbs'
    rw [List.mapM_cons, hfg a b hb, hg]
    exact ⟨rfl, by rw [List.length_cons, List.length_cons, hlen]⟩

/-- What is shown is told by the texts. -/
theorem rendering_eq {u : Json} {x : Texts} (h : texts u = some x) :
    rendering u = some x.rendering := by
  rcases get_eq u with rfl | ⟨f, hf⟩
  · exact absurd h (by simp [texts, Json.get])
  · simp only [texts, hf, Option.bind_eq_bind, Option.bind_some, Option.bind_eq_some_iff] at h
    obtain ⟨timestamp, h1, address, h2, is, h3, inflows, h4, os, h5, outflows, h6, version, h7,
      prevHash, h8, hx⟩ := h
    obtain ⟨-, hlen⟩ := mapM_option_of (h := id) (fun a b hab => hab) h4
    obtain ⟨hout, -⟩ := mapM_option_of (fun _ _ => describeOutflow_eq) h6
    simp only [rendering, hf, Option.bind_eq_bind, Option.bind_some, h3, h5, hout]
    rw [← Option.some.inj hx, Texts.rendering, hlen]
    rfl

end Sdk

/-! ## What an accepted transaction does -/

/-- The amount of an outflow and whom it pays or which subject it names. -/
def Outflow.shown (o : Outflow) : Sdk.Shown :=
  let amount := optStr intStr o.amount
  match o.address, o.opposition, o.support, o.rescind with
  | some address, _, _, _ => ⟨amount, .to, address, []⟩
  | none, some subject, _, _ => ⟨amount, .oppose, subject, []⟩
  | none, none, some subject, _ => ⟨amount, .support, subject, []⟩
  | none, none, none, some subject =>
    ⟨amount, .rescind, subject, (o.rescindKind.map StakeKind.str).getD []⟩
  | none, none, none, none => ⟨amount, .change, [], []⟩

/-- The inputs and outputs of a transaction. -/
def Transaction.rendered (t : Transaction) : ℕ × List Sdk.Shown :=
  (t.inflows.length, t.outflows.map Outflow.shown)

namespace Sdk

/-- The texts an outflow contributes to the preimage the node builds. -/
def ofOutflow (o : Outflow) : OutflowTexts where
  amount := optStr intStr o.amount
  address := o.address.getD []
  opposition := o.opposition.getD []
  rescind := o.rescind.getD []
  support := o.support.getD []
  rescindKind := (o.rescindKind.map StakeKind.str).getD []

/-- The texts a transaction contributes to the preimage the node builds. -/
def ofTransaction (t : Transaction) : Texts where
  timestamp := t.timestamp
  address := optStr id t.address
  inflows := t.inflows.map Transaction.inflowPair
  outflows := t.outflows.map fun o => (ofOutflow o, (ofOutflow o).spelled)
  version := t.version
  prevHash := t.prevHash.toList

variable {E : Env} {t : Transaction}

theorem csv_ofTransaction (t : Transaction) : (ofTransaction t).csv = t.dataCsv := by
  rw [Texts.csv, Transaction.dataCsv, ofTransaction, List.map_map, List.map_map]
  rfl

theorem shown_ofOutflow {o : Outflow} (h : o.WellFormed E) :
    (ofOutflow o).shownAs (ofOutflow o).spelled = o.shown := by
  cases haddress : o.address with
  | some a =>
    have hne := h.address_ne_nil haddress
    simp [ofOutflow, OutflowTexts.shownAs, OutflowTexts.spelled, OutflowTexts.subject,
      Outflow.shown, haddress, hne]
  | none =>
    cases hopposition : o.opposition with
    | some s =>
      have hne := validateSubject_ne_nil (h.opposition s hopposition)
      simp [ofOutflow, OutflowTexts.shownAs, OutflowTexts.spelled, OutflowTexts.subject,
        Outflow.shown, haddress, hopposition, hne]
    | none =>
      cases hsupport : o.support with
      | some s =>
        have hne := validateSubject_ne_nil (h.support s hsupport)
        simp [ofOutflow, OutflowTexts.shownAs, OutflowTexts.spelled, OutflowTexts.subject,
          Outflow.shown, haddress, hopposition, hsupport, hne]
      | none =>
        cases hrescind : o.rescind with
        | some s =>
          have hne := validateSubject_ne_nil (h.rescind s hrescind)
          simp [ofOutflow, OutflowTexts.shownAs, OutflowTexts.spelled, OutflowTexts.subject,
            Outflow.shown, haddress, hopposition, hsupport, hrescind, hne]
        | none =>
          simp [ofOutflow, OutflowTexts.shownAs, OutflowTexts.spelled, OutflowTexts.subject,
            Outflow.shown, haddress, hopposition, hsupport, hrescind]

theorem fields_ofTransaction (t : Transaction) : (ofTransaction t).fields = t.fields := by
  have hin : (ofTransaction t).inflowFields = t.inflowFields := by
    by_cases hnil : t.inflows = []
    · rw [Texts.inflowFields, if_pos (by rw [ofTransaction, hnil]; rfl),
        Transaction.inflowFields, if_pos hnil]
    · rw [Texts.inflowFields, if_neg (by simpa [ofTransaction] using hnil),
        Transaction.inflowFields_of_ne_nil hnil]
      rfl
  have hout : (ofTransaction t).outflows.flatMap (fun o => o.1.columns)
      = t.outflows.flatMap Outflow.dataFields := by
    rw [ofTransaction, List.flatMap_map]
    rfl
  rw [Texts.fields, Transaction.fields, hin, hout]
  rfl

theorem rendering_ofTransaction (h : t.WellFormed E transactionModel) :
    (ofTransaction t).rendering = t.rendered := by
  rw [Texts.rendering, Transaction.rendered, ofTransaction, List.length_map, List.map_map]
  exact congrArg _ (List.map_congr_left fun o ho => shown_ofOutflow (h.outflows o ho))

theorem tidy_ofTransaction (h : t.WellFormed E transactionModel) : (ofTransaction t).Tidy where
  comma := by
    rw [fields_ofTransaction]
    exact Transaction.fields_comma h
  inflows := by
    intro p hp
    obtain ⟨i, hi, rfl⟩ := List.mem_map.1 hp
    obtain ⟨txid, htxid, hmill⟩ := (h.inflows i hi).outflowTxid
    obtain ⟨n, hn⟩ := (h.inflows i hi).outflowIdx
    simp only [Transaction.inflowPair, htxid, hn, optStr, id_eq]
    refine ⟨fun hnil => ?_, natStr_digits n⟩
    have := (validateMillHash_iff.1 hmill).2
    rw [hnil] at this
    exact absurd this (by decide)
  outflows_ne_nil := by simpa [ofTransaction] using h.outflows_ne_nil
  outflows := by
    intro p hp
    obtain ⟨o, ho, rfl⟩ := List.mem_map.1 hp
    exact ⟨Outflow.address_not_decimal (h.outflows o ho), rfl⟩
  prevHash := by
    rw [ofTransaction]
    cases t.prevHash <;> simp

/-- The preimage of a transaction that a wire model accepts spells what it does. -/
theorem readBack_dataCsv (h : t.WellFormed E transactionModel) :
    readBack t.dataCsv = t.rendered := by
  rw [← csv_ofTransaction, (tidy_ofTransaction h).readBack_eq, rendering_ofTransaction h]

/-! ## The signature binds what is shown -/

/-- What the signer relies on for the texts in `T`: signatures are base64 text and
verify under the signer's own address, and a signature of one text verifies for no
other text and under no other key. -/
structure Signs (E : Env) (key : SigningKey) (T : Set Str) : Prop where
  base64 : ∀ m ∈ T, validateBase64 (key.sign m) = true
  verifies : ∀ m ∈ T, E.validateSignature (some key.address) m (some (key.sign m)) = true
  binds : ∀ m ∈ T, ∀ m' ∈ T, ∀ a,
    E.validateSignature (some a) m' (some (key.sign m)) = true →
      m' = m ∧ decodeAddress a = decodeAddress key.address

theorem get_assign (fields : List (String × Json)) (key : String) (value : Json) :
    ((Json.obj fields).assign key value).get key = some (some value) := by
  have hnone : (fields.filter (·.1 ≠ key)).find? (·.1 = key) = none := by
    rw [List.find?_eq_none]
    intro p hp
    simpa using (List.mem_filter.1 hp).2
  simp only [Json.assign, Json.get, List.find?_append, hnone]
  simp

/-- What `signUnsignedTxn` returns carries the signature of the preimage and its hash. -/
theorem signUnsignedTxn_eq {key : SigningKey} {u v : Json} {data : Str}
    (hdata : dataCsv u = some data) (hv : signUnsignedTxn E key u = some v) :
    v.get "signature" = some (some (.str (key.sign (data ++ ',' :: E.millHashStr data)))) := by
  simp only [signUnsignedTxn, hdata, Option.bind_eq_bind, Option.bind_some,
    Option.bind_eq_some_iff] at hv
  obtain ⟨txid, htxid, hv⟩ := hv
  split_ifs at hv with hsame
  obtain ⟨text, htext, hv⟩ := Option.bind_eq_some_iff.1 hv
  -- only an object has an identifier that is a text
  obtain ⟨z, rfl⟩ : ∃ z, txid = some (.str z) := by
    unfold sameTxid at hsame
    split at hsame
    · exact ⟨_, rfl⟩
    · exact absurd hsame (by simp)
  obtain ⟨fields, rfl⟩ : ∃ fields, u = .obj fields := by
    cases u with
    | obj fields => exact ⟨fields, rfl⟩
    | null => exact absurd htxid (by simp [Json.get])
    | _ => exact absurd htxid (by simp [Json.get])
  have hz : E.millHashStr data = z := of_decide_eq_true hsame
  have htext' : text = data ++ ',' :: E.millHashStr data := by
    simp only [signingData, hdata, htxid, Option.bind_eq_bind, Option.bind_some, Json.stringOf,
      Json.toStr] at htext
    rw [← Option.some.inj htext, hz]
  rw [← Option.some.inj hv, htext']
  exact get_assign _ "signature" _

variable {key : SigningKey} {T : Set Str}

/-- The text the node verifies a transaction's signature against. -/
theorem signingData_eq (h : t.txid = some (t.calculateTxid E)) :
    t.signingData = t.dataCsv ++ ',' :: E.millHashStr t.dataCsv := by
  rw [Transaction.signingData, h, Csv.join_cons ',' _ (by simp), Csv.join_singleton]
  rfl

/-- What `validate` accepts is accepted by `TransactionModel`. -/
theorem general_of_validated {coinbase : Bool}
    (h : t.WellFormed E (if coinbase then coinbaseTransactionModel else regularTransactionModel)) :
    t.WellFormed E transactionModel := by
  refine h.general ?_
  cases coinbase
  · exact Or.inl rfl
  · exact Or.inr rfl

theorem resigned {r : TransactionRules} (σ : Str) (h : t.WellFormed E r)
    (hσ : validateBase64 σ = true) :
    Transaction.WellFormed E r { t with signature := some σ } :=
  ⟨h.timestamp, h.txid, h.address, fun _ hs => Option.some.inj hs ▸ hσ, h.inflowCount, h.inflows,
    h.outflowCount, h.outflows, h.version, h.prevHash⟩

/-- A signed text determines its preimage: identifiers have one length. -/
theorem dataCsv_of_signed {data : Str} (hhash : (E.millHashStr data).length = 64)
    (hwf : t.WellFormed E transactionModel) (hnamed : t.txid = some (t.calculateTxid E))
    (h : t.signingData = data ++ ',' :: E.millHashStr data) : t.dataCsv = data := by
  obtain ⟨z, hz, hmill⟩ := hwf.txid
  rw [hnamed, Option.some.injEq, Transaction.calculateTxid] at hz
  have hlen : (E.millHashStr t.dataCsv).length = 64 := by
    rw [hz]
    exact (validateMillHash_iff.1 hmill).2
  rw [signingData_eq hnamed] at h
  exact (List.append_inj' h (by rw [List.length_cons, List.length_cons, hlen, hhash])).1

/-- Every transaction that the node accepts with the signature `σ` has the inputs and the
outputs that are shown for `u`. -/
def SignsWhatIsShown (E : Env) (T : Set Str) (u : Json) (σ : Str) : Prop :=
  ∀ (coinbase : Bool) (t : Transaction), t.validate E coinbase = .ok () → t.signingData ∈ T →
    t.signature = some σ → rendering u = some t.rendered

/-- The signer has no transaction that a wire model accepts with this preimage. -/
def NobodySubmits (E : Env) (key : SigningKey) (data : Str) : Prop :=
  ∀ (coinbase : Bool) (t : Transaction), t.WellFormed E
      (if coinbase then coinbaseTransactionModel else regularTransactionModel) →
    t.txid = some (t.calculateTxid E) →
    t.address.bind decodeAddress = decodeAddress key.address → t.dataCsv ≠ data

/-- **The browser signs what it shows, unless a text hides a column.**  Every
transaction that the node accepts with the signature of `u` has the inputs and outputs
shown for `u` if and only if the texts of `u`, joined to one line and cut again at every
comma, spell the inputs and outputs that they show, or nobody can submit that line.  In
particular whenever the texts are tidy. -/
theorem signs_what_is_shown_iff {u v : Json} {x : Texts} {σ : Str}
    (hv : signUnsignedTxn E key u = some v) (hσ : v.get "signature" = some (some (.str σ)))
    (hx : texts u = some x) (hhash : (E.millHashStr x.csv).length = 64)
    (hT : x.csv ++ ',' :: E.millHashStr x.csv ∈ T) (hkey : Signs E key T) :
    (SignsWhatIsShown E T u σ ↔ x.rendering = readBack x.csv ∨ NobodySubmits E key x.csv) ∧
      (x.Tidy → SignsWhatIsShown E T u σ) := by
  have hdata : dataCsv u = some x.csv := by
    rw [dataCsv_eq, hx]
    rfl
  have hshown : rendering u = some x.rendering := rendering_eq hx
  rw [signUnsignedTxn_eq hdata hv, Option.some.injEq, Option.some.injEq, Json.str.injEq] at hσ
  have hiff : SignsWhatIsShown E T u σ ↔
      x.rendering = readBack x.csv ∨ NobodySubmits E key x.csv := by
    unfold SignsWhatIsShown NobodySubmits
    simp only [hshown, Option.some.injEq]
    constructor
    · intro h
      by_contra! hor
      obtain ⟨hne, coinbase, t, hwf, hnamed, howner, hcsv⟩ := hor
      -- the same transaction with the signature of `u`
      have hwf' := resigned σ hwf (hσ ▸ hkey.base64 _ hT)
      have htext : t.signingData = x.csv ++ ',' :: E.millHashStr x.csv := by
        rw [signingData_eq hnamed, hcsv]
      obtain ⟨a, ha, -⟩ := hwf.address
      have hsigned : E.validateSignature t.address t.signingData (some σ) = true := by
        have hown := hkey.verifies _ hT
        rw [ha, Option.bind_some] at howner
        rw [htext, ← hσ, ha]
        simpa only [Env.validateSignature, Env.publicKeyFromAddress, howner] using hown
      have heq := h coinbase _ (Transaction.validate_eq_ok.2 ⟨hwf', hsigned, hnamed⟩)
        (htext ▸ hT) rfl
      rw [← readBack_dataCsv (general_of_validated hwf')] at heq
      exact hne (heq.trans (congrArg readBack hcsv))
    · rintro hor coinbase t hok hmem hsig
      obtain ⟨hwf, hsigned, hnamed⟩ := Transaction.validate_eq_ok.1 hok
      have hwf' := general_of_validated hwf
      obtain ⟨a, ha, -⟩ := hwf.address
      rw [ha, hsig, ← hσ] at hsigned
      obtain ⟨htext, howner⟩ := hkey.binds _ hT _ hmem a hsigned
      have hcsv := dataCsv_of_signed hhash hwf' hnamed htext
      rcases hor with hread | hnone
      · rw [hread, ← hcsv, readBack_dataCsv hwf']
      · exact absurd hcsv (hnone coinbase t hwf hnamed (by rw [ha]; exact howner))
  exact ⟨hiff, fun htidy => hiff.2 (Or.inl htidy.readBack_eq.symm)⟩

end Sdk

namespace Sample

/-- The key that signed the spend. -/
def aliceKey : SigningKey := ⟨alice, fun _ => spend.signature.getD []⟩

/-- A JSON transaction with the header and the inflow of the spend. -/
def unsigned (outflows : List Json) (version : Str) : Json := .obj
  [("txid", .str (spend.txid.getD [])), ("timestamp", .str spend.timestamp),
    ("address", .str alice),
    ("inflows", .arr [.obj [("outflow_txid", .str (mint.txid.getD [])),
      ("outflow_idx", .num ⟨['0'], by decide⟩)]]),
    ("outflows", .arr outflows), ("version", .str version)]

/-- The transfer. -/
def toBob : Json :=
  .obj [("amount", .num ⟨['3', '0', '0'], by decide⟩), ("address", .str bob)]

/-- The stake. -/
def opposing : Json := .obj [("amount", .num ⟨['2', '0', '0'], by decide⟩),
  ("opposition", .str ['b', 'G', 'V', 'h', 'b', 'g'])]

/-- The spend, as a node sends it. -/
def honest : Json := unsigned [toBob, opposing] ['1']

/-- The same preimage, with the stake in the version. -/
def covert : Json :=
  unsigned [toBob] ("200,,bGVhbg,,,,1".toList)

/-- A signature that verifies is one of a known transaction. -/
theorem known_of_signed {blocks : List Block} {a m σ : Str}
    (h : (Env.knowing blocks).validateSignature (some a) m (some σ) = true) :
    ∃ t ∈ blocks.flatMap Block.txns, t.address.bind decodeAddress = decodeAddress a ∧
      t.signature.bind b64decode = b64decode σ := by
  simp only [Env.validateSignature, Env.publicKeyFromAddress] at h
  split at h
  · rename_i raw sig hraw hsig
    unfold Env.ed25519Verify at h
    split_ifs at h with hlen
    obtain ⟨t, ht, hmatch⟩ := List.any_eq_true.1 h
    simp only [Bool.and_eq_true, decide_eq_true_eq] at hmatch
    exact ⟨t, ht, hmatch.1.1.trans hraw.symm, hmatch.1.2.trans hsig.symm⟩
  · exact absurd h (by simp)

theorem signs : Sdk.Signs env aliceKey {spend.signingData} where
  base64 := fun _ _ => (by decide +kernel : validateBase64 (spend.signature.getD []) = true)
  verifies := by
    rintro m rfl
    exact (by decide +kernel : env.validateSignature (some alice) spend.signingData
      (some (spend.signature.getD [])) = true)
  binds := by
    rintro m hm m' hm' a h
    have hsole : ∀ t ∈ blocks.flatMap Block.txns,
        t.signature.bind b64decode = b64decode (spend.signature.getD []) →
          t.address.bind decodeAddress = decodeAddress alice := by decide +kernel
    obtain ⟨t, ht, haddress, hsig⟩ := known_of_signed h
    exact ⟨(Set.mem_singleton_iff.1 hm').trans (Set.mem_singleton_iff.1 hm).symm,
      haddress.symm.trans (hsole t ht hsig)⟩

end Sample

namespace Sdk

/-- The spend, as an honest node sends it: the node accepts it, and it does what was
shown. -/
theorem signs_what_is_shown_iff_honest :
    Sample.spend.validate Sample.env false = .ok () ∧
      SignsWhatIsShown Sample.env {Sample.spend.signingData} Sample.honest
        (Sample.spend.signature.getD []) ∧
      rendering Sample.honest = some Sample.spend.rendered := by
  have hdata : dataCsv Sample.honest = some Sample.spend.dataCsv := by decide +kernel
  have hshown : rendering Sample.honest = some Sample.spend.rendered := by decide +kernel
  have hsome : (signUnsignedTxn Sample.env Sample.aliceKey Sample.honest).isSome = true := by
    decide +kernel
  obtain ⟨v, hv⟩ := Option.isSome_iff_exists.1 hsome
  obtain ⟨x, hx, hcsv⟩ : ∃ x, texts Sample.honest = some x ∧ x.csv = Sample.spend.dataCsv := by
    rw [dataCsv_eq] at hdata
    exact Option.map_eq_some_iff.1 hdata
  have hwf : Sample.spend.WellFormed Sample.env transactionModel :=
    transactionErrors_eq_nil.1 (by decide +kernel :
      transactionErrors Sample.env transactionModel [] Sample.spend = [])
  have hread : x.rendering = readBack x.csv := by
    rw [rendering_eq hx, Option.some.injEq] at hshown
    rw [hcsv, readBack_dataCsv hwf, hshown]
  have hok : Sample.spend.validate Sample.env false = .ok () := by decide +kernel
  refine ⟨hok, (signs_what_is_shown_iff hv (signUnsignedTxn_eq hdata hv) hx ?_ ?_
    Sample.signs).1.2 (Or.inl hread), hshown⟩
  · rw [hcsv]
    decide +kernel
  · rw [hcsv]
    exact Set.mem_singleton_iff.2 (by decide +kernel)

/-- The stake hidden in the version: the browser shows one output, and the node takes
two. -/
theorem signs_what_is_shown_covert : Signs Sample.env Sample.aliceKey {Sample.spend.signingData} ∧
    ∃ v, signUnsignedTxn Sample.env Sample.aliceKey Sample.covert = some v ∧
      v.get "signature" = some (some (.str (Sample.spend.signature.getD []))) ∧
      ¬ SignsWhatIsShown Sample.env {Sample.spend.signingData} Sample.covert
        (Sample.spend.signature.getD []) := by
  have hdata : dataCsv Sample.covert = some Sample.spend.dataCsv := by decide +kernel
  have hsome : (signUnsignedTxn Sample.env Sample.aliceKey Sample.covert).isSome = true := by
    decide +kernel
  obtain ⟨v, hv⟩ := Option.isSome_iff_exists.1 hsome
  refine ⟨Sample.signs, v, hv, signUnsignedTxn_eq hdata hv, fun h => ?_⟩
  have hshown := h false Sample.spend (by decide +kernel) rfl rfl
  exact absurd hshown (by decide +kernel)

end Sdk

end GumptionChain
