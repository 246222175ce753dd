import GumptionChain.Lib.Csv

/-!
# Forests by parent pointers

Nodes that point to a parent and carry a rank, one more than the parent's.  The
walk from a node through its parents is its root path.

* `path_eq` — the recursion of root paths, `path_suffix` — every node of a root
  path has its own root path as the rest of it, `eq_of_rank` — a root path
  holds one node of a rank at most.
* `walkUntil_spec` — a walk that stops at the first marked node splits the root
  path into the unmarked part before it and the root path of that node.
* `Marked` — the marked nodes are themselves a root path, marked with their
  ranks.  `mem_path_iff` then says how far a node's root path and the marked one
  overlap: up to the mark at which the walk stopped.
* `walk_congr` — a walk looks at nothing but the nodes it passes.
-/

namespace Forest

variable {α β : Type*} {parent parent' : α → Option α} {P : α → Prop} {rank : α → ℕ}

/-- The nodes from `a` through its parents, at most `n` of them. -/
def walk (parent : α → Option α) : ℕ → α → List α
  | 0, _ => []
  | n + 1, a => a :: (match parent a with | none => [] | some p => walk parent n p)

/-- The same walk, up to the first node that `stop` marks: the nodes before it,
and its mark. -/
def walkUntil (parent : α → Option α) (stop : α → Option β) : ℕ → α → List α × Option β
  | 0, _ => ([], none)
  | n + 1, a =>
    match stop a with
    | some v => ([], some v)
    | none =>
      match parent a with
      | none => ([a], none)
      | some p =>
        let rest := walkUntil parent stop n p
        (a :: rest.1, rest.2)

/-- Nodes in `P` have their parents in `P`, one rank lower. -/
def Ranked (P : α → Prop) (parent : α → Option α) (rank : α → ℕ) : Prop :=
  ∀ a p, P a → parent a = some p → P p ∧ rank a = rank p + 1

/-- The root path: a walk long enough to reach the root. -/
def path (parent : α → Option α) (rank : α → ℕ) (a : α) : List α := walk parent (rank a + 1) a

/-! ## Root paths -/

/-- More fuel than the rank changes nothing. -/
theorem walk_eq_path (h : Ranked P parent rank) :
    ∀ {n : ℕ} {a : α}, P a → rank a < n → walk parent n a = path parent rank a := by
  have key : ∀ (n m : ℕ) (a : α), P a → rank a < n → rank a < m →
      walk parent n a = walk parent m a := by
    intro n
    induction n with
    | zero => exact fun _ _ _ hn _ => absurd hn (Nat.not_lt_zero _)
    | succ n ih =>
      intro m a ha hn hm
      obtain ⟨m, rfl⟩ : ∃ k, m = k + 1 := ⟨m - 1, by omega⟩
      unfold walk
      cases hp : parent a with
      | none => rfl
      | some p =>
        obtain ⟨hP, hr⟩ := h a p ha hp
        exact congrArg (a :: ·) (ih m p hP (by omega) (by omega))
  intro n a ha hn
  exact key n _ a ha hn (Nat.lt_succ_self _)

theorem path_none {a : α} (hp : parent a = none) : path parent rank a = [a] := by
  rw [path, walk, hp]

theorem path_some (h : Ranked P parent rank) {a p : α} (ha : P a) (hp : parent a = some p) :
    path parent rank a = a :: path parent rank p := by
  obtain ⟨hP, hr⟩ := h a p ha hp
  rw [path, walk, hp]
  exact congrArg (a :: ·) (walk_eq_path h hP (by omega))

/-- Induction from the root up: the way every fact about root paths is
proved. -/
theorem path_induction (h : Ranked P parent rank) {motive : α → Prop}
    (root : ∀ a, P a → parent a = none → motive a)
    (step : ∀ a p, P a → P p → parent a = some p → motive p → motive a) :
    ∀ a, P a → motive a := by
  have key : ∀ n a, P a → rank a < n → motive a := by
    intro n
    induction n with
    | zero => exact fun _ _ hn => absurd hn (Nat.not_lt_zero _)
    | succ n ih =>
      intro a ha hn
      cases hp : parent a with
      | none => exact root a ha hp
      | some p =>
        obtain ⟨hP, hr⟩ := h a p ha hp
        exact step a p ha hP hp (ih p hP (by omega))
  exact fun a ha => key (rank a + 1) a ha (Nat.lt_succ_self _)

theorem self_mem_path (a : α) : a ∈ path parent rank a := by
  rw [path, walk]
  exact List.mem_cons_self ..

/-- Members of a root path are in the forest, and rank no higher than its
top. -/
theorem mem_path (h : Ranked P parent rank) {a : α} (ha : P a) :
    ∀ x ∈ path parent rank a, P x ∧ rank x ≤ rank a := by
  refine path_induction h (motive := fun a => ∀ x ∈ path parent rank a, P x ∧ rank x ≤ rank a)
    ?_ ?_ a ha
  · intro a ha hp x hx
    rw [path_none hp, List.mem_singleton] at hx
    subst hx
    exact ⟨ha, le_refl _⟩
  · intro a p ha hP hp ih x hx
    rw [path_some h ha hp, List.mem_cons] at hx
    rcases hx with rfl | hx
    · exact ⟨ha, le_refl _⟩
    · exact ⟨(ih x hx).1, by have := (ih x hx).2; have := (h a p ha hp).2; omega⟩

/-- Ranks fall strictly along a root path. -/
theorem path_pairwise (h : Ranked P parent rank) {a : α} (ha : P a) :
    (path parent rank a).Pairwise fun x y => rank y < rank x := by
  refine path_induction h (motive := fun a => (path parent rank a).Pairwise _) ?_ ?_ a ha
  · intro a _ hp
    rw [path_none hp]
    exact List.pairwise_singleton ..
  · intro a p ha hP hp ih
    rw [path_some h ha hp, List.pairwise_cons]
    refine ⟨fun x hx => ?_, ih⟩
    have := (mem_path h hP x hx).2
    have := (h a p ha hp).2
    omega

theorem path_nodup (h : Ranked P parent rank) {a : α} (ha : P a) :
    (path parent rank a).Nodup :=
  (path_pairwise h ha).imp fun hlt heq => absurd hlt (by rw [heq]; exact lt_irrefl _)

/-- A root path holds at most one node of each rank. -/
theorem eq_of_rank (h : Ranked P parent rank) {a x y : α} (ha : P a)
    (hx : x ∈ path parent rank a) (hy : y ∈ path parent rank a) (hxy : rank x = rank y) : x = y := by
  have hnodup : ((path parent rank a).map rank).Nodup :=
    List.pairwise_map.2 ((path_pairwise h ha).imp fun hlt => hlt.ne')
  exact List.inj_on_of_nodup_map hnodup hx hy hxy

/-- A root path is what lies above one of its members, then that member's own
root path. -/
theorem path_split (h : Ranked P parent rank) {a x : α} (ha : P a)
    (hx : x ∈ path parent rank a) :
    ∃ above, path parent rank a = above ++ path parent rank x ∧ ∀ y ∈ above, rank x < rank y := by
  revert x
  suffices hall : ∀ x, x ∈ path parent rank a → ∃ above,
      path parent rank a = above ++ path parent rank x ∧ ∀ y ∈ above, rank x < rank y from
    fun {x} => hall x
  refine path_induction h (motive := fun a => ∀ x, x ∈ path parent rank a → ∃ above,
    path parent rank a = above ++ path parent rank x ∧ ∀ y ∈ above, rank x < rank y) ?_ ?_ a ha
  · intro a _ hp x hx
    rw [path_none hp, List.mem_singleton] at hx
    exact ⟨[], hx ▸ rfl, by simp⟩
  · intro a p ha hP hp ih x hx
    rw [path_some h ha hp, List.mem_cons] at hx
    rcases hx with rfl | hx
    · exact ⟨[], rfl, by simp⟩
    · obtain ⟨above, heq, hab⟩ := ih x hx
      refine ⟨a :: above, ?_, ?_⟩
      · rw [path_some h ha hp, heq, List.cons_append]
      · rw [List.forall_mem_cons]
        refine ⟨?_, hab⟩
        have := (mem_path h hP x hx).2
        have := (h a p ha hp).2
        omega

theorem path_suffix (h : Ranked P parent rank) {a x : α} (ha : P a)
    (hx : x ∈ path parent rank a) : path parent rank x <:+ path parent rank a := by
  obtain ⟨above, heq, -⟩ := path_split h ha hx
  exact ⟨above, heq.symm⟩

/-- What a root path ends with is the root path of its first node. -/
theorem path_of_suffix (h : Ranked P parent rank) {a x : α} {below : List α} (ha : P a)
    (hsuf : x :: below <:+ path parent rank a) : P x ∧ path parent rank x = x :: below := by
  revert hsuf
  refine path_induction h (motive := fun a => x :: below <:+ path parent rank a →
    P x ∧ path parent rank x = x :: below) ?_ ?_ a ha
  · intro a ha hp hsuf
    rw [path_none hp, List.suffix_cons_iff, List.suffix_nil] at hsuf
    obtain heq | hnil := hsuf
    · obtain ⟨rfl, rfl⟩ := List.cons.inj heq
      exact ⟨ha, path_none hp⟩
    · cases hnil
  · intro a p ha _ hp ih hsuf
    rw [path_some h ha hp, List.suffix_cons_iff] at hsuf
    obtain heq | hsuf := hsuf
    · obtain ⟨rfl, rfl⟩ := List.cons.inj heq
      exact ⟨ha, path_some h ha hp⟩
    · exact ih hsuf

/-- Neighbours on a root path are a node and its parent. -/
theorem parent_of_path (h : Ranked P parent rank) {a x y : α} {above below : List α} (ha : P a)
    (hpath : path parent rank a = above ++ x :: y :: below) : parent x = some y := by
  obtain ⟨hx, hxpath⟩ := path_of_suffix h ha ⟨above, hpath.symm⟩
  cases hp : parent x with
  | none =>
    rw [path_none hp] at hxpath
    cases hxpath
  | some p =>
    have hrest := (List.cons.inj ((path_some h hx hp).symm.trans hxpath)).2
    rw [path, walk] at hrest
    exact congrArg some (List.cons.inj hrest).1

/-- The members of a root path at or below a given member are its own root
path. -/
theorem mem_path_iff_rank (h : Ranked P parent rank) {a c x : α} (ha : P a)
    (hc : c ∈ path parent rank a) :
    x ∈ path parent rank c ↔ x ∈ path parent rank a ∧ rank x ≤ rank c := by
  constructor
  · intro hx
    exact ⟨(path_suffix h ha hc).subset hx, (mem_path h (mem_path h ha c hc).1 x hx).2⟩
  · rintro ⟨hx, hr⟩
    obtain ⟨above, heq, hab⟩ := path_split h ha hc
    rw [heq, List.mem_append] at hx
    rcases hx with hx | hx
    · exact absurd (hab x hx) (by omega)
    · exact hx

/-! ## Walks that stop at a mark -/

/-- A stopping walk splits the root path at the first marked node. -/
theorem walkUntil_spec (h : Ranked P parent rank) (stop : α → Option β) {n : ℕ} {a : α} (ha : P a)
    (hn : rank a < n) :
    (∀ x ∈ (walkUntil parent stop n a).1, stop x = none) ∧
      (((walkUntil parent stop n a).2 = none ∧
          path parent rank a = (walkUntil parent stop n a).1) ∨
        ∃ c v, (walkUntil parent stop n a).2 = some v ∧ stop c = some v ∧
          path parent rank a = (walkUntil parent stop n a).1 ++ path parent rank c) := by
  induction n generalizing a with
  | zero => exact absurd hn (Nat.not_lt_zero _)
  | succ n ih =>
    unfold walkUntil
    cases hs : stop a with
    | some v => exact ⟨by simp, Or.inr ⟨a, v, rfl, hs, rfl⟩⟩
    | none =>
      cases hp : parent a with
      | none =>
        refine ⟨by simpa using hs, Or.inl ⟨rfl, ?_⟩⟩
        exact path_none hp
      | some p =>
        obtain ⟨hP, hr⟩ := h a p ha hp
        obtain ⟨hun, hend⟩ := ih hP (by omega)
        refine ⟨by simpa [hs] using hun, ?_⟩
        rw [path_some h ha hp]
        rcases hend with ⟨hnone, heq⟩ | ⟨c, v, hv, hc, heq⟩
        · exact Or.inl ⟨hnone, congrArg (a :: ·) heq⟩
        · exact Or.inr ⟨c, v, hv, hc, congrArg (a :: ·) heq⟩

/-- The marked nodes are the root path of a node `t`, each marked with its
rank, or there are none. -/
def Marked (P : α → Prop) (parent : α → Option α) (rank : α → ℕ) (stop : α → Option ℕ) : Prop :=
  (∀ x, P x → stop x = none) ∨
    ∃ t, P t ∧ ∀ x v, P x → (stop x = some v ↔ x ∈ path parent rank t ∧ v = rank x)

/-- Where a stopping walk ends on marks that form a root path: the members of
the node's root path are the unmarked ones passed, and the marked ones up to the
mark reached. -/
theorem mem_path_iff (h : Ranked P parent rank) {stop : α → Option ℕ}
    (hm : Marked P parent rank stop) {n : ℕ} {a x : α} (ha : P a) (hn : rank a < n) (hx : P x) :
    x ∈ path parent rank a ↔ x ∈ (walkUntil parent stop n a).1 ∨
      ∃ cap v, (walkUntil parent stop n a).2 = some cap ∧ stop x = some v ∧ v ≤ cap := by
  obtain ⟨-, hend⟩ := walkUntil_spec h stop ha hn
  rcases hend with ⟨hnone, heq⟩ | ⟨c, cap, hcap, hc, heq⟩
  · rw [heq, hnone]
    simp
  · have hcP : P c := by
      refine (mem_path h ha c ?_).1
      rw [heq]
      exact List.mem_append_right _ (self_mem_path c)
    rcases hm with hm | ⟨t, ht, hm⟩
    · exact absurd (hm c hcP) (by rw [hc]; exact Option.some_ne_none _)
    · obtain ⟨hct, rfl⟩ := (hm c cap hcP).1 hc
      rw [heq, List.mem_append, mem_path_iff_rank h ht hct, hcap]
      refine or_congr_right ⟨fun ⟨hxt, hr⟩ => ?_, ?_⟩
      · exact ⟨rank c, rank x, rfl, (hm x _ hx).2 ⟨hxt, rfl⟩, hr⟩
      · rintro ⟨cap', v, hcap', hv, hle⟩
        obtain ⟨hxt, rfl⟩ := (hm x v hx).1 hv
        rw [Option.some.injEq] at hcap'
        exact ⟨hxt, by omega⟩

/-- The unmarked nodes a stopping walk passes come before the marked ones. -/
theorem walkUntil_initial (h : Ranked P parent rank) (stop : α → Option β) {n : ℕ} {a : α}
    (ha : P a) (hn : rank a < n) : (walkUntil parent stop n a).1 <+: path parent rank a := by
  obtain ⟨-, ⟨-, heq⟩ | ⟨c, v, -, -, heq⟩⟩ := walkUntil_spec h stop ha hn
  · rw [heq]
  · exact ⟨_, heq.symm⟩

/-! ## Two forests -/

/-- Root paths agree in two forests that agree on the nodes of one of them. -/
theorem path_congr (h : Ranked P parent rank) {a : α} (ha : P a)
    (hsame : ∀ x, P x → parent' x = parent x) : path parent' rank a = path parent rank a := by
  have h' : Ranked P parent' rank := fun x p hx hp => h x p hx ((hsame x hx) ▸ hp)
  refine path_induction h (motive := fun a => path parent' rank a = path parent rank a) ?_ ?_ a ha
  · intro a ha hp
    rw [path_none hp, path_none ((hsame a ha).trans hp)]
  · intro a p ha _ hp ih
    rw [path_some h ha hp, path_some h' ha ((hsame a ha).trans hp), ih]

end Forest
