import Mathlib

/-!
# Separator-joined records

Joining fields with a one-character separator, and when the joined text can be
read back.

* `join_injective` — fields that avoid the separator are recovered from their
  join, provided there is at least one of them.
* `join_flatten` — joining records that are themselves joins is joining their
  fields in a row, so a nested record is one flat row of fields.
* `join_nested` — the same for two nested records among plain fields.
* `append_inj_of_stop` — two rows made of marked pairs followed by an unmarked
  pair split at the same place: the rule by which a variable-length list of
  pairs is told from what follows it.
* `flatMap_append_inj` — rows of one width, followed by less than a row, split
  at the same place.
-/

namespace Csv

variable {α : Type*}

/-- `sep.join(fields)`. -/
def join (sep : α) (fields : List (List α)) : List α := [sep].intercalate fields

@[simp] theorem join_nil (sep : α) : join sep [] = [] := rfl

@[simp] theorem join_singleton (sep : α) (f : List α) : join sep [f] = f := by simp [join]

theorem join_cons (sep : α) (f : List α) {fs : List (List α)} (h : fs ≠ []) :
    join sep (f :: fs) = f ++ sep :: join sep fs := by
  simp [join, List.intercalate_cons_of_ne_nil h]

/-- Fields that avoid the separator are recovered from their join. -/
theorem join_injective [DecidableEq α] {sep : α} {fs gs : List (List α)}
    (hf : fs ≠ []) (hg : gs ≠ []) (hfs : ∀ f ∈ fs, sep ∉ f) (hgs : ∀ g ∈ gs, sep ∉ g)
    (h : join sep fs = join sep gs) : fs = gs := by
  have hsplit := congrArg (List.splitOn sep) h
  rwa [join, join, List.splitOn_intercalate sep hfs hf, List.splitOn_intercalate sep hgs hg]
    at hsplit

theorem join_append (sep : α) {fs gs : List (List α)} (hf : fs ≠ []) (hg : gs ≠ []) :
    join sep (fs ++ gs) = join sep fs ++ sep :: join sep gs := by
  induction fs with
  | nil => exact absurd rfl hf
  | cons f fs ih =>
    by_cases hfs : fs = []
    · subst hfs
      rw [List.singleton_append, join_cons sep f hg, join_singleton]
    · rw [List.cons_append, join_cons sep f (by simp [hfs]), ih hfs, join_cons sep f hfs]
      simp

/-- Joining records that are joins themselves is joining all their fields. -/
theorem join_flatten (sep : α) {rs : List (List (List α))} (h : ∀ r ∈ rs, r ≠ []) :
    join sep (rs.map (join sep)) = join sep rs.flatten := by
  induction rs with
  | nil => rfl
  | cons r rs ih =>
    have hrest := ih fun x hx => h x (List.mem_cons_of_mem _ hx)
    have hr : r ≠ [] := h r (List.mem_cons_self ..)
    cases rs with
    | nil => simp
    | cons s rs =>
      have hs : (s :: rs).flatten ≠ [] := by simp [h s (by simp)]
      rw [List.map_cons, join_cons sep _ (by simp), hrest,
        show (r :: s :: rs).flatten = r ++ (s :: rs).flatten from rfl, join_append sep hr hs]

/-- Two nested rows in the middle of a row. -/
theorem join_nested (sep : α) {a b v : List α} {ins outs ps : List (List α)} (hins : ins ≠ [])
    (houts : outs ≠ []) :
    join sep ([a, b, join sep ins, join sep outs, v] ++ ps)
      = join sep (a :: b :: (ins ++ (outs ++ v :: ps))) := by
  rw [List.cons_append, join_cons sep a (by simp), List.cons_append, join_cons sep b (by simp),
    List.cons_append, join_cons sep _ (by simp), List.cons_append, join_cons sep _ (by simp),
    List.cons_append, List.nil_append, join_cons sep a (by simp), join_cons sep b (by simp [hins]),
    join_append sep hins (by simp), join_append sep houts (by simp)]

/-- Splice two rows that agree, each a list of pairs whose second field is
marked, followed by a pair whose second field is not: the pairs agree and so
does the rest. -/
theorem append_inj_of_stop {β : Type*} {mark : β → Prop} :
    ∀ {ps qs : List (β × β)} {a b a' b' : β} {rest rest' : List β},
      (∀ p ∈ ps, mark p.2) → (∀ q ∈ qs, mark q.2) → ¬ mark b → ¬ mark b' →
      ps.flatMap (fun p => [p.1, p.2]) ++ a :: b :: rest
        = qs.flatMap (fun q => [q.1, q.2]) ++ a' :: b' :: rest' →
      ps = qs ∧ a :: b :: rest = a' :: b' :: rest' := by
  intro ps
  induction ps with
  | nil =>
    intro qs a b a' b' rest rest' _ hqs hb _ h
    cases qs with
    | nil => exact ⟨rfl, by simpa using h⟩
    | cons q qs =>
      -- the left row stops where the right one still has a marked pair
      simp only [List.flatMap_nil, List.nil_append, List.flatMap_cons, List.cons_append,
        List.cons.injEq] at h
      exact absurd (h.2.1 ▸ hqs q (List.mem_cons_self ..)) hb
  | cons p ps ih =>
    intro qs a b a' b' rest rest' hps hqs hb hb' h
    cases qs with
    | nil =>
      simp only [List.flatMap_nil, List.nil_append, List.flatMap_cons, List.cons_append,
        List.cons.injEq] at h
      exact absurd (h.2.1 ▸ hps p (List.mem_cons_self ..)) hb'
    | cons q qs =>
      simp only [List.flatMap_cons, List.cons_append, List.nil_append, List.cons.injEq] at h
      obtain ⟨h1, h2, h3⟩ := h
      obtain ⟨htail, hrest⟩ := ih (fun x hx => hps x (List.mem_cons_of_mem _ hx))
        (fun x hx => hqs x (List.mem_cons_of_mem _ hx)) hb hb' h3
      exact ⟨by rw [htail, Prod.ext h1 h2], hrest⟩

/-- Rows of width `w` and a rest shorter than a row are recovered from their
concatenation. -/
theorem flatMap_append_inj {β : Type*} {f : β → List α} {w : ℕ} (hf : ∀ b, (f b).length = w) :
    ∀ {xs ys : List β} {r r' : List α}, r.length < w → r'.length < w →
      xs.flatMap f ++ r = ys.flatMap f ++ r' → xs.map f = ys.map f ∧ r = r' := by
  intro xs
  induction xs with
  | nil =>
    intro ys r r' hr _ h
    cases ys with
    | nil => exact ⟨rfl, by simpa using h⟩
    | cons y ys =>
      have hlen := congrArg List.length h
      simp only [List.flatMap_nil, List.nil_append, List.flatMap_cons, List.length_append, hf]
        at hlen
      omega
  | cons x xs ih =>
    intro ys r r' hr hr' h
    cases ys with
    | nil =>
      have hlen := congrArg List.length h
      simp only [List.flatMap_nil, List.nil_append, List.flatMap_cons, List.length_append, hf]
        at hlen
      omega
    | cons y ys =>
      simp only [List.flatMap_cons, List.append_assoc] at h
      obtain ⟨hhead, htail⟩ := List.append_inj h (by rw [hf, hf])
      obtain ⟨hmap, hrest⟩ := ih hr hr' htail
      exact ⟨by rw [List.map_cons, List.map_cons, hhead, hmap], hrest⟩

/-- Lists with equal images under a map that is injective on their elements. -/
theorem map_inj_of_mem {β γ : Type*} {f : β → γ} :
    ∀ {xs ys : List β}, (∀ x ∈ xs, ∀ y ∈ ys, f x = f y → x = y) → xs.map f = ys.map f → xs = ys := by
  intro xs
  induction xs with
  | nil =>
    intro ys _ h
    exact (List.map_eq_nil_iff.1 h.symm).symm
  | cons x xs ih =>
    intro ys hf h
    cases ys with
    | nil => exact absurd h (by simp)
    | cons y ys =>
      rw [List.map_cons, List.map_cons, List.cons.injEq] at h
      have hxy := hf x (List.mem_cons_self ..) y (List.mem_cons_self ..) h.1
      have hrest := ih (fun a ha b hb => hf a (List.mem_cons_of_mem _ ha) b
        (List.mem_cons_of_mem _ hb)) h.2
      rw [hxy, hrest]

end Csv
