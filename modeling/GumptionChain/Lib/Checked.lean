import Mathlib

/-!
# Checks that collect their errors

A reader of untyped input reports every error it finds, not the first one.  Its results
are values of `Except (List ε)`; `both` runs two readers and keeps the errors of both,
`all` reads a list.

* `of` — a value that stands unless there are errors;
* `both_of`, `all_of`, `bind_of` — readers whose results have that form compose to one,
  with the errors appended in order.
-/

namespace Checked

variable {ε α β γ : Type}

/-- A value that stands unless there are errors. -/
def of (errors : List ε) (a : α) : Except (List ε) α :=
  match errors with
  | [] => .ok a
  | e :: es => .error (e :: es)

/-- Two results, or the errors of both. -/
def both : Except (List ε) α → Except (List ε) β → Except (List ε) (α × β)
  | .ok a, .ok b => .ok (a, b)
  | .ok _, .error e => .error e
  | .error d, .ok _ => .error d
  | .error d, .error e => .error (d ++ e)

/-- The results of a list, or the errors of all its members. -/
def all (f : α → Except (List ε) β) : List α → Except (List ε) (List β)
  | [] => .ok []
  | a :: l => (both (f a) (all f l)).map fun p => p.1 :: p.2

@[simp] theorem of_nil (a : α) : of ([] : List ε) a = .ok a := rfl

theorem of_eq_ok {errors : List ε} {a b : α} : of errors a = .ok b ↔ errors = [] ∧ a = b := by
  cases errors <;> simp [of]

@[simp] theorem map_of (f : α → β) (errors : List ε) (a : α) :
    (of errors a).map f = of errors (f a) := by
  cases errors <;> rfl

theorem both_of (d e : List ε) (a : α) (b : β) :
    both (of d a) (of e b) = of (d ++ e) (a, b) := by
  cases d with
  | nil => cases e <;> rfl
  | cons x d =>
    cases e with
    | nil => rw [List.append_nil]; rfl
    | cons y e => rfl

/-- A check of the whole that runs only when the parts are fine. -/
theorem bind_of (d : List ε) (e : α → List ε) (a : α) :
    ((of d a).bind fun a => of (e a) a) = of (if d.isEmpty then e a else d) a := by
  cases d <;> rfl

theorem all_map (f : β → Except (List ε) γ) (g : α → β) (l : List α) :
    all f (l.map g) = all (fun a => f (g a)) l := by
  induction l with
  | nil => rfl
  | cons a l ih => rw [List.map_cons, all, all, ih]

theorem all_of {f : α → Except (List ε) β} {errors : α → List ε} {value : α → β} :
    ∀ {l : List α}, (∀ a ∈ l, f a = of (errors a) (value a)) →
      all f l = of (l.flatMap errors) (l.map value) := by
  intro l
  induction l with
  | nil =>
    intro _
    rfl
  | cons a l ih =>
    intro h
    rw [all, h a (List.mem_cons_self ..), ih fun b hb => h b (List.mem_cons_of_mem _ hb), both_of,
      map_of, List.flatMap_cons, List.map_cons]

end Checked
