import Mathlib.Data.List.Count
import Mathlib.Order.Nat
import Mathlib.Data.List.Basic

/-!
# Messages under paths

A tree of dictionaries with lists of messages at its leaves, grown by one message at a
time.  A leaf on the way to a new message becomes a dictionary that keeps the old messages
under a marker key; a message for a dictionary goes under its marker.

* `append_cases`, `add_cases` — a message has no place exactly where the marker is a
  dictionary itself;
* `isNode_add` — the dictionaries are what messages were added below;
* `tally_add` — a message is added once, below every prefix of its path, and none is lost.
-/

variable {κ μ : Type*}

/-- A leaf with its messages, or a dictionary. -/
inductive MessageTree (κ μ : Type*) where
  | leaf (msgs : List μ)
  | node (fields : List (κ × MessageTree κ μ))

namespace MessageTree

/-- The items of a dictionary, in the order of their insertion. -/
abbrev Fields (κ μ : Type*) := List (κ × MessageTree κ μ)

mutual

/-- The messages of a tree. -/
def messages : MessageTree κ μ → List μ
  | leaf msgs => msgs
  | node fields => fieldMessages fields

/-- The messages of a dictionary. -/
def fieldMessages : Fields κ μ → List μ
  | [] => []
  | (_, t) :: rest => t.messages ++ fieldMessages rest

end

variable [DecidableEq κ]

/-- `d.get(k)`. -/
def get (k : κ) : Fields κ μ → Option (MessageTree κ μ)
  | [] => none
  | (j, t) :: rest => if j = k then some t else get k rest

/-- `d[k] = t`. -/
def set (k : κ) (t : MessageTree κ μ) : Fields κ μ → Fields κ μ
  | [] => [(k, t)]
  | (j, u) :: rest => if j = k then (j, t) :: rest else (j, u) :: set k t rest

/-- What stands under a path. -/
def sub : MessageTree κ μ → List κ → Option (MessageTree κ μ)
  | t, [] => some t
  | leaf _, _ :: _ => none
  | node fields, k :: rest =>
    match get k fields with
    | none => none
    | some t => t.sub rest

/-- There is a dictionary under a path. -/
def IsNode (fields : Fields κ μ) (path : List κ) : Prop :=
  ∃ gs, (node fields).sub path = some (node gs)

/-- `d.setdefault(k, []).append(m)`, which a dictionary under `k` refuses. -/
def append (k : κ) (m : μ) (fields : Fields κ μ) : Option (Fields κ μ) :=
  match get k fields with
  | some (node _) => none
  | some (leaf msgs) => some (set k (leaf (msgs ++ [m])) fields)
  | none => some (set k (leaf [m]) fields)

/-- The dictionary under a key: a leaf is kept under the marker. -/
def enter (marker k : κ) (fields : Fields κ μ) : Fields κ μ :=
  match get k fields with
  | some (node gs) => gs
  | some (leaf msgs) => [(marker, leaf msgs)]
  | none => []

/-- A message is added under a path, given as a first key and the rest. -/
def add (marker : κ) (m : μ) : κ → List κ → Fields κ μ → Option (Fields κ μ)
  | k, [], fields =>
    match get k fields with
    | some (node gs) => (append marker m gs).map fun gs => set k (node gs) fields
    | _ => append k m fields
  | k, j :: rest, fields =>
    (add marker m j rest (enter marker k fields)).map fun gs => set k (node gs) fields

variable {k j marker : κ} {m n : μ} {t : MessageTree κ μ} {fields fields' gs : Fields κ μ}
  {path rest : List κ}

/-! ## Lookups -/

@[simp] theorem get_set : get j (set k t fields) = if k = j then some t else get j fields := by
  induction fields with
  | nil => simp [set, get]
  | cons p fields ih =>
    obtain ⟨i, u⟩ := p
    rw [set]
    split_ifs with hi hk
    · rw [get, if_pos (hi.trans hk)]
    · rw [get, get, if_neg (hi ▸ hk), if_neg (hi ▸ hk)]
    · rw [get, ih, if_pos ‹k = j›, if_neg (‹k = j› ▸ hi)]
    · rw [get, ih, if_neg ‹¬k = j›, get]

@[simp] theorem sub_nil (t : MessageTree κ μ) : t.sub [] = some t := by cases t <;> rfl

theorem sub_cons : (node fields).sub (k :: path) = (get k fields).bind fun t => t.sub path := by
  rw [sub]
  cases get k fields <;> rfl

theorem sub_set_cons : (node (set k t fields)).sub (j :: path) =
    if k = j then t.sub path else (node fields).sub (j :: path) := by
  rw [sub_cons, get_set, sub_cons]
  split_ifs <;> rfl

@[simp] theorem not_isNode_leaf_sub {msgs : List μ} : (leaf msgs : MessageTree κ μ).sub path ≠
    some (node gs) := by
  cases path <;> simp [sub]

theorem isNode_nil : IsNode fields [] := ⟨fields, sub_nil _⟩

theorem isNode_set_node : IsNode (set k (node gs) fields) (j :: path) ↔
    if k = j then IsNode gs path else IsNode fields (j :: path) := by
  rw [IsNode, sub_set_cons]
  split_ifs <;> rfl

theorem isNode_set_leaf {msgs : List μ} (h : ∀ gs, get k fields ≠ some (node gs)) :
    IsNode (set k (leaf msgs) fields) (j :: path) ↔ IsNode fields (j :: path) := by
  rw [IsNode, sub_set_cons]
  split_ifs with hk
  · obtain rfl := hk
    refine ⟨fun ⟨gs, hgs⟩ => absurd hgs not_isNode_leaf_sub, fun ⟨gs, hgs⟩ => ?_⟩
    rw [sub_cons] at hgs
    obtain ⟨t, ht, hsub⟩ := Option.bind_eq_some_iff.1 hgs
    cases t with
    | leaf msgs => exact absurd hsub not_isNode_leaf_sub
    | node gs' => exact absurd ht (h gs')
  · rfl

theorem isNode_cons_enter (marker : κ) : IsNode fields (k :: j :: path) ↔
    IsNode (enter marker k fields) (j :: path) := by
  rw [IsNode, IsNode, sub_cons, enter]
  cases get k fields with
  | none => simp [sub, get]
  | some t =>
    cases t with
    | node gs => rfl
    | leaf msgs =>
      simp only [Option.bind_some, sub, reduceCtorEq, exists_false, false_iff, get]
      rintro ⟨gs, hgs⟩
      split_ifs at hgs
      exact absurd hgs not_isNode_leaf_sub

/-! ## One message more -/

theorem append_cases (k : κ) (m : μ) (fields : Fields κ μ) :
    (IsNode fields [k] ∧ append k m fields = none) ∨ (¬ IsNode fields [k] ∧ ∃ msgs,
      append k m fields = some (set k (leaf (msgs ++ [m])) fields) ∧
      (get k fields = some (leaf msgs) ∨ get k fields = none ∧ msgs = [])) := by
  rw [IsNode, sub_cons, append]
  cases hget : get k fields with
  | none => exact .inr ⟨by simp, [], rfl, .inr ⟨rfl, rfl⟩⟩
  | some t =>
    cases t with
    | leaf msgs => exact .inr ⟨by simp, msgs, rfl, .inl rfl⟩
    | node gs => exact .inl ⟨⟨gs, by simp⟩, rfl⟩

theorem isNode_append (h : append k m fields = some fields') (path : List κ) :
    IsNode fields' path ↔ IsNode fields path := by
  cases path with
  | nil => exact iff_of_true isNode_nil isNode_nil
  | cons j path =>
    rcases append_cases k m fields with ⟨-, hnone⟩ | ⟨-, msgs, hsome, hget⟩
    · exact absurd (hnone.symm.trans h) (by simp)
    · rw [hsome, Option.some.injEq] at h
      rw [← h]
      refine isNode_set_leaf fun gs hgs => ?_
      rcases hget with hget | ⟨hget, -⟩
      · exact absurd (hget.symm.trans hgs) (by simp)
      · exact absurd (hget.symm.trans hgs) (by simp)

/-- **A message has a place unless the marker under its path is a dictionary.** -/
theorem add_eq_none : ∀ {k : κ} {rest : List κ} {fields : Fields κ μ},
    add marker m k rest fields = none ↔ IsNode fields (k :: rest ++ [marker])
  | k, [], fields => by
    rw [add, List.singleton_append, IsNode, sub_cons]
    cases hget : get k fields with
    | none => simp [append, hget]
    | some t =>
      cases t with
      | leaf msgs => simp [append, hget, sub]
      | node gs =>
        rw [Option.bind_some, Option.map_eq_none_iff, ← IsNode]
        rcases append_cases marker m gs with ⟨hnode, hnone⟩ | ⟨hleaf, msgs, hsome, -⟩
        · exact iff_of_true hnone hnode
        · exact iff_of_false (by simp [hsome]) hleaf
  | k, j :: rest, fields => by
    rw [add, Option.map_eq_none_iff, add_eq_none]
    exact (isNode_cons_enter marker).symm

/-- **The dictionaries are what messages were added below.** -/
theorem isNode_add : ∀ {k : κ} {rest : List κ} {fields fields' : Fields κ μ},
    add marker m k rest fields = some fields' → ∀ path ≠ [],
      (IsNode fields' path ↔ IsNode fields path ∨ path <+: k :: rest ∧ path ≠ k :: rest)
  | k, [], fields, fields', h, [], hpath => absurd rfl hpath
  | k, [], fields, fields', h, i :: path, _ => by
    have hshort : ¬ (i :: path <+: [k] ∧ i :: path ≠ [k]) := by
      rintro ⟨hpre, hne⟩
      exact hne (hpre.eq_of_length_le (by simp))
    rw [or_iff_left hshort]
    rw [add] at h
    split at h
    · rename_i gs hget
      obtain ⟨gs', hgs', rfl⟩ := Option.map_eq_some_iff.1 h
      rw [isNode_set_node]
      split_ifs with hk
      · rw [isNode_append hgs', IsNode, IsNode, ← hk, sub_cons, hget]
        rfl
      · rfl
    · exact isNode_append h _
  | k, j :: rest, fields, fields', h, [], hpath => absurd rfl hpath
  | k, j :: rest, fields, fields', h, i :: path, _ => by
    rw [add] at h
    obtain ⟨gs, hgs, rfl⟩ := Option.map_eq_some_iff.1 h
    rw [isNode_set_node, List.cons_prefix_cons, ne_eq, List.cons.injEq]
    split_ifs with hk
    · obtain rfl := hk
      cases path with
      | nil => exact iff_of_true isNode_nil (.inr ⟨⟨rfl, List.nil_prefix⟩, by simp⟩)
      | cons i' path =>
        rw [isNode_add hgs _ (List.cons_ne_nil i' path), isNode_cons_enter marker]
        simp only [true_and, ne_eq]
    · exact ⟨.inl, fun h => h.resolve_right fun hpre => hk hpre.1.1.symm⟩

/-! ## No message is lost -/

section Count

variable [DecidableEq μ]

/-- How often a message is below a path. -/
def tally (m : μ) (t : MessageTree κ μ) (path : List κ) : ℕ :=
  match t.sub path with
  | none => 0
  | some u => u.messages.count m

/-- A message is below the prefixes of its path. -/
def hit (path target : List κ) (m n : μ) : ℕ := if path <+: target ∧ m = n then 1 else 0

theorem tally_nil (n : μ) (t : MessageTree κ μ) : tally n t [] = t.messages.count n := by
  rw [tally, sub_nil]

theorem perm_of_tally {t : MessageTree κ μ} {l : List μ}
    (h : ∀ n, tally n t [] = l.countP fun m => m = n) : t.messages.Perm l := by
  refine List.perm_iff_count.2 fun n => ?_
  rw [← tally_nil, h, List.count]
  exact List.countP_congr fun m _ => by simp

theorem tally_cons (n : μ) : tally n (node fields) (k :: path) =
    match get k fields with
    | none => 0
    | some t => tally n t path := by
  rw [tally, sub_cons]
  cases get k fields <;> rfl

theorem tally_leaf_cons (n : μ) (msgs : List μ) :
    tally n (leaf msgs : MessageTree κ μ) (k :: path) = 0 := rfl

theorem tally_set_cons (n : μ) : tally n (node (set k t fields)) (j :: path) =
    if k = j then tally n t path else tally n (node fields) (j :: path) := by
  rw [tally_cons, get_set, tally_cons]
  split_ifs <;> rfl

/-- Replacing what is under a key changes the messages by the difference. -/
theorem count_set (n : μ) : tally n (node (set k t fields)) [] + tally n (node fields) [k] =
    t.messages.count n + tally n (node fields) [] := by
  induction fields with
  | nil => simp [set, tally, sub, messages, fieldMessages, get]
  | cons p fields ih =>
    obtain ⟨i, u⟩ := p
    simp only [tally_nil, tally_cons, messages] at ih ⊢
    rw [set, get]
    split_ifs with hi
    · simp only [fieldMessages, List.count_append]
      omega
    · simp only [fieldMessages, List.count_append]
      omega

theorem hit_nil (path : List κ) : hit [] path m n = if m = n then 1 else 0 := by
  simp [hit]

theorem hit_cons : hit (j :: path) (k :: rest) m n = if k = j then hit path rest m n else 0 := by
  simp only [hit, List.cons_prefix_cons]
  split_ifs <;> simp_all

theorem hit_cons_nil : hit (j :: path) [] m n = 0 := by
  simp [hit]

theorem tally_append (n : μ) (h : append k m fields = some fields') :
    tally n (node fields') [] = tally n (node fields) [] + hit [] [k] m n ∧
      ∀ path, tally n (node fields) path + hit path [k] m n ≤ tally n (node fields') path := by
  rcases append_cases k m fields with ⟨-, hnone⟩ | ⟨-, msgs, hsome, hget⟩
  · exact absurd (hnone.symm.trans h) (by simp)
  rw [hsome, Option.some.injEq] at h
  have hold : tally n (node fields) [k] = msgs.count n := by
    rw [tally_cons]
    rcases hget with hget | ⟨hget, rfl⟩
    · rw [hget]
      exact tally_nil n _
    · rw [hget]
      rfl
  have hcount : (msgs ++ [m]).count n = msgs.count n + if m = n then 1 else 0 := by
    rw [List.count_append, List.count_singleton]
    simp only [beq_iff_eq]
  have hroot : tally n (node fields') [] = tally n (node fields) [] + hit [] [k] m n := by
    have hset := @count_set κ μ _ k (leaf (msgs ++ [m])) fields _ n
    rw [hold, messages, hcount, h] at hset
    rw [hit_nil]
    omega
  refine ⟨hroot, fun path => ?_⟩
  cases path with
  | nil => exact hroot.ge
  | cons j path =>
    rw [← h, tally_set_cons, hit_cons]
    split_ifs with hk
    · obtain rfl := hk
      cases path with
      | nil =>
        rw [hold, hit_nil, tally_nil, messages, hcount]
      | cons i path =>
        rw [hit_cons_nil, tally_leaf_cons, tally_cons]
        rcases hget with hget | ⟨hget, -⟩
        · rw [hget]
          exact le_rfl
        · rw [hget]
    · exact le_rfl

theorem tally_enter (n : μ) (marker k : κ) (fields : Fields κ μ) :
    tally n (node (enter marker k fields)) [] = tally n (node fields) [k] ∧
      ∀ path, tally n (node fields) (k :: path) ≤ tally n (node (enter marker k fields)) path := by
  simp only [tally_cons, enter]
  cases get k fields with
  | none => exact ⟨rfl, fun _ => Nat.zero_le _⟩
  | some t =>
    cases t with
    | node gs => exact ⟨rfl, fun _ => le_rfl⟩
    | leaf msgs =>
      have hroot : tally n (node [(marker, leaf msgs)]) [] = tally n (leaf msgs : MessageTree κ μ)
          [] := by
        simp [tally_nil, messages, fieldMessages]
      refine ⟨hroot, fun path => ?_⟩
      cases path with
      | nil => exact hroot.ge
      | cons j path => exact Nat.zero_le _

/-- What is added to the dictionary under a key is added under the key. -/
theorem tally_set_node (n : μ) {gs' : Fields κ μ}
    (hkept : tally n (node fields) [k] = tally n (node gs) [] ∧
      ∀ path, tally n (node fields) (k :: path) ≤ tally n (node gs) path)
    (hadded : tally n (node gs') [] = tally n (node gs) [] + hit [] rest m n ∧
      ∀ path, tally n (node gs) path + hit path rest m n ≤ tally n (node gs') path) :
    tally n (node (set k (node gs') fields)) [] =
        tally n (node fields) [] + hit [] (k :: rest) m n ∧
      ∀ path, tally n (node fields) path + hit path (k :: rest) m n ≤
        tally n (node (set k (node gs') fields)) path := by
  have hroot : tally n (node (set k (node gs') fields)) [] =
      tally n (node fields) [] + hit [] (k :: rest) m n := by
    have hset := @count_set κ μ _ k (node gs') fields _ n
    have hadded := hadded.1
    rw [hkept.1, ← tally_nil] at hset
    rw [hit_nil] at hadded ⊢
    omega
  refine ⟨hroot, fun path => ?_⟩
  cases path with
  | nil => exact hroot.ge
  | cons j path =>
    rw [tally_set_cons, hit_cons]
    split_ifs with hk
    · obtain rfl := hk
      exact (Nat.add_le_add_right (hkept.2 path) _).trans (hadded.2 path)
    · exact le_rfl

/-- **A message is added once, below every prefix of its path, and none is lost.** -/
theorem tally_add (n : μ) : ∀ {k : κ} {rest : List κ} {fields fields' : Fields κ μ},
    add marker m k rest fields = some fields' →
      tally n (node fields') [] = tally n (node fields) [] + hit [] (k :: rest) m n ∧
        ∀ path, tally n (node fields) path + hit path (k :: rest) m n ≤
          tally n (node fields') path
  | k, [], fields, fields', h => by
    rw [add] at h
    split at h
    · rename_i gs hget
      obtain ⟨gs', hgs', rfl⟩ := Option.map_eq_some_iff.1 h
      obtain ⟨hroot, hbelow⟩ := tally_append n hgs'
      have hat : ∀ path, tally n (node fields) (k :: path) = tally n (node gs) path := by
        intro path
        rw [tally_cons, hget]
      refine tally_set_node n ⟨hat [], fun path => (hat path).le⟩ ⟨?_, fun path => ?_⟩
      · rw [hroot, hit_nil, hit_nil]
      · cases path with
        | nil =>
          rw [hit_nil, ← hit_nil [marker]]
          exact hbelow []
        | cons j path =>
          rw [hit_cons_nil]
          exact (Nat.le_add_right _ _).trans (hbelow _)
    · exact tally_append n h
  | k, j :: rest, fields, fields', h => by
    rw [add] at h
    obtain ⟨gs, hgs, rfl⟩ := Option.map_eq_some_iff.1 h
    obtain ⟨hroot, hkept⟩ := tally_enter n marker k fields
    exact tally_set_node n ⟨hroot.symm, hkept⟩ (tally_add n hgs)

end Count

end MessageTree
