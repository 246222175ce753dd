import Mathlib.Data.List.Perm.Subperm

/-!
# One pass over a list

A pass that takes an item if the items taken before admit it, and leaves it out for good
otherwise.

* `admissible_of_taken` — everything is taken only if every item is admitted by all before
  it.
-/

namespace Greedy

variable {α : Type*} (admits : List α → α → Bool)

/-- The items taken, and the items left out. -/
def pass : List α → List α → List α × List α
  | _, [] => ([], [])
  | taken, a :: rest =>
    if admits taken a then
      let r := pass (taken ++ [a]) rest
      (a :: r.1, r.2)
    else
      let r := pass taken rest
      (r.1, a :: r.2)

/-- Every item is admitted by what was taken and the items before it. -/
def Admissible : List α → List α → Prop
  | _, [] => True
  | taken, a :: rest => admits taken a = true ∧ Admissible (taken ++ [a]) rest

variable {admits} {taken l : List α}

theorem Admissible.split {before after : List α} {a : α}
    (h : Admissible admits taken (before ++ a :: after)) : admits (taken ++ before) a = true := by
  induction before generalizing taken with
  | nil =>
    rw [List.append_nil]
    exact h.1
  | cons b rest ih =>
    have hrest := ih h.2
    rwa [List.append_assoc, List.singleton_append] at hrest

theorem pass_sublist (taken l : List α) : (pass admits taken l).1.Sublist l := by
  induction l generalizing taken with
  | nil => exact List.Sublist.refl _
  | cons a rest ih =>
    simp only [pass]
    split_ifs
    · exact (ih _).cons_cons a
    · exact (ih _).cons a

theorem admissible_of_pass (h : (pass admits taken l).1 = l) : Admissible admits taken l := by
  induction l generalizing taken with
  | nil => trivial
  | cons a rest ih =>
    simp only [pass] at h
    split_ifs at h with hadmits
    · exact ⟨hadmits, ih (List.cons.inj h).2⟩
    · have hlen : (pass admits taken rest).1.length ≤ rest.length :=
        (pass_sublist taken rest).length_le
      have heq : (pass admits taken rest).1.length = (a :: rest).length := congrArg List.length h
      rw [List.length_cons] at heq
      omega

/-- What takes all of a list without repetitions admits each item. -/
theorem admissible_of_taken (hl : l.Nodup) (h : ∀ a ∈ l, a ∈ (pass admits taken l).1) :
    Admissible admits taken l :=
  admissible_of_pass ((pass_sublist taken l).eq_of_length_le (List.subperm_of_subset hl h).length_le)

end Greedy
