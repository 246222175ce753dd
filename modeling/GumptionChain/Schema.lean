import GumptionChain.Codec.CodePoint
import GumptionChain.Codec.Unicode
import GumptionChain.Exceptions
import GumptionChain.Lib.MessageTree

/-!
# The messages of a validation error

`schema.py`: pydantic's flat list of errors as the nested dictionary that the API answers
with.

* `foldlM_addError` — the list so far decides where the dictionaries are;
* `pydantic_errors_to_messages_iff` — every message is kept under its location unless a
  marker was used as a dictionary before.
-/

namespace GumptionChain

namespace Schema

open MessageTree

/-- The index of an item, which `str` writes: pydantic counts in 64 bits. -/
structure Index where
  val : ℤ
  written : (pyStr val).isSome = true
  deriving DecidableEq

/-- A part of a location: a name, or an index. -/
inductive Part where
  | key (name : PyStr)
  | index (i : Index)
  deriving DecidableEq

/-- `str(part)`. -/
def Part.str : Part → PyStr
  | key name => name
  | index i => .ofStr ((pyStr i.val).get i.written)

/-- One of pydantic's errors. -/
structure ErrorDetails where
  loc : Option (List Part) := none
  msg : Option PyStr := none
  deriving DecidableEq

/-- `'_self'`. -/
def selfKey : PyStr := .ofStr "_self".toList

/-- `'_schema'`. -/
def schemaKey : PyStr := .ofStr "_schema".toList

namespace ErrorDetails

/-- The keys of `err.get('loc', ())`. -/
def keys (err : ErrorDetails) : List PyStr := (err.loc.getD []).map Part.str

/-- `err.get('msg', 'invalid')`. -/
def message (err : ErrorDetails) : PyStr := err.msg.getD (.ofStr "invalid".toList)

/-- Where the message of an error belongs. -/
def path (err : ErrorDetails) : List PyStr := if err.keys = [] then [schemaKey] else err.keys

/-- Where it goes if there is a dictionary. -/
def marker (err : ErrorDetails) : List PyStr :=
  if err.keys = [] then [schemaKey] else err.keys ++ [selfKey]

end ErrorDetails

/-- The body of the loop. -/
def addError (result : Fields PyStr PyStr) (err : ErrorDetails) :
    Except Err (Fields PyStr PyStr) :=
  let added := match err.keys with
    | [] => append schemaKey err.message result
    | k :: rest => add selfKey err.message k rest result
  match added with
  | some result => .ok result
  | none => .error .attributeError

/-- `pydantic_errors_to_messages`. -/
def pydanticErrorsToMessages (errors : List ErrorDetails) :
    Except Err (MessageTree PyStr PyStr) :=
  (errors.foldlM addError []).map .node

variable {fields fields' : Fields PyStr PyStr} {err : ErrorDetails} {errors : List ErrorDetails}

/-- One error: it is refused where its marker is a dictionary, and any other grows the
dictionaries above its path by its message. -/
theorem addError_cases (fields : Fields PyStr PyStr) (err : ErrorDetails) :
    (IsNode fields err.marker ∧ addError fields err = .error .attributeError) ∨
    (¬ IsNode fields err.marker ∧ ∃ fields', addError fields err = .ok fields' ∧
      (∀ path ≠ [], IsNode fields' path ↔
        IsNode fields path ∨ path <+: err.path ∧ path ≠ err.path) ∧
      ∀ n, tally n (node fields') [] = tally n (node fields) [] + hit [] err.path err.message n ∧
        ∀ path, tally n (node fields) path + hit path err.path err.message n ≤
          tally n (node fields') path) := by
  cases hkeys : err.keys with
  | nil =>
    have hpath : err.path = [schemaKey] := by rw [ErrorDetails.path, if_pos hkeys]
    have hmarker : err.marker = [schemaKey] := by rw [ErrorDetails.marker, if_pos hkeys]
    rw [hpath, hmarker]
    rcases append_cases schemaKey err.message fields with ⟨hnode, hnone⟩ | ⟨hleaf, msgs, hsome, -⟩
    · exact .inl ⟨hnode, by simp only [addError, hkeys, hnone]⟩
    · refine .inr ⟨hleaf, _, by simp only [addError, hkeys, hsome], fun path hne => ?_,
        fun n => tally_append n hsome⟩
      rw [isNode_append hsome]
      refine ⟨.inl, fun h => h.resolve_right ?_⟩
      rintro ⟨hpre, hshort⟩
      rcases List.prefix_cons_iff.1 hpre with rfl | ⟨t, rfl, ht⟩
      · exact hne rfl
      · exact hshort (by rw [List.prefix_nil.1 ht])
  | cons k rest =>
    have hpath : err.path = k :: rest := by
      rw [ErrorDetails.path, if_neg (by simp [hkeys]), hkeys]
    have hmarker : err.marker = k :: rest ++ [selfKey] := by
      rw [ErrorDetails.marker, if_neg (by simp [hkeys]), hkeys]
    rw [hpath, hmarker, ← add_eq_none (m := err.message)]
    cases hadd : add selfKey err.message k rest fields with
    | none => exact .inl ⟨rfl, by simp only [addError, hkeys, hadd]⟩
    | some fields' =>
      exact .inr ⟨by simp, fields', by simp only [addError, hkeys, hadd], isNode_add hadd,
        fun n => tally_add n hadd⟩

/-- No error comes after one that is located below its marker. -/
def MarkersFree (errors : List ErrorDetails) : Prop :=
  errors.Pairwise fun before err => ¬ (err.marker <+: before.path ∧ err.marker ≠ before.path)

instance (errors : List ErrorDetails) : Decidable (MarkersFree errors) :=
  inferInstanceAs (Decidable (errors.Pairwise _))

theorem ErrorDetails.marker_ne_nil (err : ErrorDetails) : err.marker ≠ [] := by
  unfold ErrorDetails.marker
  split_ifs <;> simp

/-- **The loop.**  It ends just if no marker was used as a dictionary before, and then every
message has been added, once, below its path. -/
theorem foldlM_addError (errors : List ErrorDetails) :
    (MarkersFree errors ∧ ∃ fields, errors.foldlM addError [] = .ok fields ∧
      (∀ path ≠ [], IsNode fields path ↔ ∃ err ∈ errors, path <+: err.path ∧ path ≠ err.path) ∧
      ∀ n, tally n (node fields) [] = errors.countP (fun err => err.message = n) ∧
        ∀ path, errors.countP (fun err => path <+: err.path ∧ err.message = n) ≤
          tally n (node fields) path) ∨
    (¬ MarkersFree errors ∧ errors.foldlM addError [] = .error .attributeError) := by
  induction errors using List.reverseRecOn with
  | nil =>
    refine .inl ⟨List.Pairwise.nil, [], rfl, fun path hne => ?_, fun n => ⟨?_, fun _ => ?_⟩⟩
    · obtain ⟨k, rest, rfl⟩ := List.exists_cons_of_ne_nil hne
      simp [IsNode, sub, MessageTree.get]
    · simp [tally, messages, fieldMessages]
    · simp
  | append_singleton errors err ih =>
    have hfree : MarkersFree (errors ++ [err]) ↔ MarkersFree errors ∧
        ∀ before ∈ errors, ¬ (err.marker <+: before.path ∧ err.marker ≠ before.path) := by
      simp [MarkersFree, List.pairwise_append]
    rw [List.foldlM_append, hfree]
    rcases ih with ⟨hbefore, fields, hfields, hnodes, htally⟩ | ⟨hbefore, hraised⟩
    · have hmarker := hnodes err.marker err.marker_ne_nil
      rcases addError_cases fields err with ⟨hnode, hraise⟩ | ⟨hleaf, fields', hok, hgrown, hadded⟩
      · refine .inr ⟨fun h => ?_, ?_⟩
        · obtain ⟨e, he, hbelow⟩ := hmarker.1 hnode
          exact h.2 e he hbelow
        · rw [hfields]
          rw [ok_bind, List.foldlM_cons, hraise]
          rfl
      · refine .inl ⟨⟨hbefore, fun e he hbelow => hleaf (hmarker.2 ⟨e, he, hbelow⟩)⟩, fields', ?_,
          fun path hne => ?_, fun n => ⟨?_, fun path => ?_⟩⟩
        · rw [hfields]
          rw [ok_bind, List.foldlM_cons, hok]
          rfl
        · rw [hgrown path hne, hnodes path hne]
          simp [or_and_right, exists_or]
        · rw [(hadded n).1, (htally n).1, hit_nil, List.countP_append, List.countP_singleton]
          simp only [decide_eq_true_eq]
        · refine le_trans ?_ ((hadded n).2 path)
          rw [List.countP_append, List.countP_singleton, hit]
          simp only [decide_eq_true_eq]
          exact Nat.add_le_add_right ((htally n).2 path) _
    · refine .inr ⟨fun h => hbefore h.1, ?_⟩
      rw [hraised]
      rfl

end Schema

/-- **Every message is kept under its location**, and nothing else is there, unless an error
without a location comes after one below `_schema`, or one at a location after one below
its `_self`: then the conversion raises. -/
theorem pydantic_errors_to_messages_iff (errors : List Schema.ErrorDetails) :
    (∃ tree, Schema.pydanticErrorsToMessages errors = .ok tree ∧
      tree.messages.Perm (errors.map Schema.ErrorDetails.message) ∧
      ∀ path msg, errors.countP (fun err => err.path = path ∧ err.message = msg) ≤
        MessageTree.tally msg tree path) ↔ Schema.MarkersFree errors := by
  rcases Schema.foldlM_addError errors with
    ⟨hfree, fields, hfields, -, htally⟩ | ⟨hmarked, hraised⟩
  · refine iff_of_true ⟨.node fields, by rw [Schema.pydanticErrorsToMessages, hfields]; rfl, ?_,
      fun path msg => ?_⟩ hfree
    · refine MessageTree.perm_of_tally fun msg => ?_
      rw [(htally msg).1, List.countP_map]
      rfl
    · refine le_trans (List.countP_mono_left fun err _ h => ?_) ((htally msg).2 path)
      simp only [decide_eq_true_eq] at h ⊢
      exact ⟨h.1 ▸ List.prefix_rfl, h.2⟩
  · refine iff_of_false (fun ⟨tree, htree, _⟩ => ?_) hmarked
    rw [Schema.pydanticErrorsToMessages, hraised] at htree
    exact absurd htree (by simp [Except.map])

namespace Sample

def text (s : String) : PyStr := .ofStr s.toList

/-- An error in a field that is named as the marker, and one of the whole object. -/
def fieldThenObject : List Schema.ErrorDetails :=
  [⟨some [.key Schema.schemaKey, .key (text "x")], some (text "Field required")⟩,
    ⟨some [], some (text "Invalid destinations")⟩]

/-- An error below a field's `_self`, and one of the field. -/
def belowThenField : List Schema.ErrorDetails :=
  [⟨some [.key (text "a"), .key Schema.selfKey, .index ⟨0, rfl⟩], some (text "Field required")⟩,
    ⟨some [.key (text "a")], some (text "Input should be a valid list")⟩]

end Sample

theorem pydantic_errors_to_messages_raises :
    Schema.pydanticErrorsToMessages Sample.fieldThenObject = .error .attributeError ∧
      Schema.pydanticErrorsToMessages Sample.belowThenField = .error .attributeError :=
  ⟨rfl, rfl⟩

end GumptionChain
