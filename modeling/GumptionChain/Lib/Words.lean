import Mathlib.Data.List.Basic
import GumptionChain.Lib.Csv

/-!
# Words

Runs of letters between separators, as `str.split()` finds them, with a predicate for
the separators.

* `Words.split_append` — a separator splits a text in two;
* `Words.split_trim` — separators at the ends do not matter;
* `Words.split_join` — words joined by one separator are split into themselves.
-/

namespace Words

variable {α : Type} (sep : α → Bool)

/-- The words of a text, with the word that has been begun. -/
def splitFrom : List α → List α → List (List α)
  | word, [] => if word.isEmpty then [] else [word]
  | word, c :: s =>
    if sep c then (if word.isEmpty then [] else [word]) ++ splitFrom [] s
    else splitFrom (word ++ [c]) s

/-- `s.split()`. -/
def split (s : List α) : List (List α) := splitFrom sep [] s

/-- `s.strip()`. -/
def trim (s : List α) : List α := ((s.dropWhile sep).reverse.dropWhile sep).reverse

/-- A nonempty run of letters. -/
def IsWord (w : List α) : Prop := w ≠ [] ∧ ∀ c ∈ w, sep c = false

variable {sep}

theorem splitFrom_append (c : α) (hc : sep c = true) (t : List α) :
    ∀ word s, splitFrom sep word (s ++ c :: t) = splitFrom sep word s ++ split sep t
  | word, [] => by simp only [List.nil_append, splitFrom, hc, if_true, split]
  | word, d :: s => by
    have ih (word : List α) := splitFrom_append c hc t word s
    simp only [List.cons_append, splitFrom]
    split
    · rw [ih, List.append_assoc]
    · rw [ih]

/-- A text is split at any of its separators. -/
theorem split_append {c : α} (hc : sep c = true) (s t : List α) :
    split sep (s ++ c :: t) = split sep s ++ split sep t :=
  splitFrom_append c hc t [] s

theorem split_cons {c : α} (hc : sep c = true) (s : List α) : split sep (c :: s) = split sep s :=
  split_append hc [] s

theorem split_dropWhile (s : List α) : split sep (s.dropWhile sep) = split sep s := by
  induction s with
  | nil => rfl
  | cons c s ih =>
    cases hc : sep c with
    | false => rw [List.dropWhile_cons_of_neg (by simp [hc])]
    | true => rw [List.dropWhile_cons_of_pos hc, ih, split_cons hc]

theorem split_append_of_forall (s : List α) {t : List α} (h : ∀ c ∈ t, sep c = true) :
    split sep (s ++ t) = split sep s := by
  induction t with
  | nil => rw [List.append_nil]
  | cons c t ih =>
    obtain ⟨hc, ht⟩ := List.forall_mem_cons.1 h
    have hnil : split sep t = [] := by
      have hdrop : t.dropWhile sep = [] := List.dropWhile_eq_nil_iff.2 ht
      rw [← split_dropWhile, hdrop]
      rfl
    rw [split_append hc, hnil, List.append_nil]

/-- Separators at the ends do not matter. -/
theorem split_trim (s : List α) : split sep (trim sep s) = split sep s := by
  have hend (t : List α) : split sep (t.reverse.dropWhile sep).reverse = split sep t := by
    have heq : t = (t.reverse.dropWhile sep).reverse ++ (t.reverse.takeWhile sep).reverse := by
      rw [← List.reverse_append, List.takeWhile_append_dropWhile, List.reverse_reverse]
    have hsep : ∀ c ∈ (t.reverse.takeWhile sep).reverse, sep c = true :=
      fun c hc => List.mem_takeWhile_imp (List.mem_reverse.1 hc)
    conv_rhs => rw [heq]
    rw [split_append_of_forall _ hsep]
  rw [trim, hend, split_dropWhile]

theorem splitFrom_letters : ∀ {s : List α} (word : List α), (∀ c ∈ s, sep c = false) →
    splitFrom sep word s = if (word ++ s).isEmpty then [] else [word ++ s]
  | [], word, _ => by rw [splitFrom, List.append_nil]
  | c :: s, word, h => by
    obtain ⟨hc, hs⟩ := List.forall_mem_cons.1 h
    rw [splitFrom, hc, if_neg (by simp), splitFrom_letters _ hs, List.append_assoc,
      List.singleton_append]

theorem split_word {w : List α} (h : IsWord sep w) : split sep w = [w] := by
  rw [split, splitFrom_letters [] h.2, List.nil_append, if_neg (by simp [h.1])]

/-- Words joined by one separator are split into themselves. -/
theorem split_join {c : α} (hc : sep c = true) {ws : List (List α)} (h : ∀ w ∈ ws, IsWord sep w) :
    split sep (Csv.join c ws) = ws := by
  induction ws with
  | nil => rfl
  | cons w ws ih =>
    obtain ⟨hw, hws⟩ := List.forall_mem_cons.1 h
    by_cases hne : ws = []
    · rw [hne, Csv.join_singleton, split_word hw]
    · rw [Csv.join_cons c w hne, split_append hc, split_word hw, ih hws, List.singleton_append]

end Words
