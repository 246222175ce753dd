import Mathlib.Data.List.Infix

/-!
# Patterns with two wildcards

SQL's `LIKE` over any alphabet: one character stands for any single character, one for any
number of them, and one makes the character after it stand for itself.

* `like_quote_append` — a quoted text stands for itself at the start of a pattern;
* `like_quote_many` — and with the second wildcard after it for all texts that start with it.
-/

namespace Like

variable {α : Type*} [DecidableEq α]

/-- What a pattern is made of. -/
inductive Token (α : Type*) where
  | lit (a : α)
  | one
  | many

/-- The special characters of a pattern. -/
structure Specials (α : Type*) where
  escape : α
  one : α
  many : α

/-- Whether a text matches: `many` is tried on every rest of the text. -/
def matchTokens : List (Token α) → List α → Bool
  | [], s => s.isEmpty
  | .lit _ :: _, [] => false
  | .lit a :: p, x :: s => x = a && matchTokens p s
  | .one :: _, [] => false
  | .one :: p, _ :: s => matchTokens p s
  | .many :: p, s => s.tails.any (matchTokens p)

namespace Specials

variable (S : Specials α)

/-- What a character stands for that is not escaped. -/
def token (c : α) : Token α := if c = S.one then .one else if c = S.many then .many else .lit c

/-- The tokens of a pattern, unless it ends in a lone escape. -/
def tokens : List α → Option (List (Token α))
  | [] => some []
  | [c] => if c = S.escape then none else some [S.token c]
  | c :: d :: p =>
    if c = S.escape then (tokens p).map (.lit d :: ·) else (tokens (d :: p)).map (S.token c :: ·)

/-- `s LIKE p`. -/
def like (p s : List α) : Bool :=
  match S.tokens p with
  | none => false
  | some ts => matchTokens ts s

/-- A text with its special characters escaped. -/
def quote (q : List α) : List α :=
  q.flatMap fun c => if c = S.escape ∨ c = S.one ∨ c = S.many then [S.escape, c] else [c]

end Specials

variable {S : Specials α} {p q s : List α} {ts : List (Token α)}

@[simp] theorem matchTokens_many (s : List α) : matchTokens [Token.many] s = true := by
  rw [matchTokens, List.any_eq_true]
  exact ⟨[], (List.mem_tails _ _).2 List.nil_suffix, rfl⟩

theorem matchTokens_lits : matchTokens (q.map .lit ++ ts) s = true ↔
    ∃ t, s = q ++ t ∧ matchTokens ts t = true := by
  induction q generalizing s with
  | nil => simp
  | cons c q ih =>
    cases s with
    | nil => simp [matchTokens]
    | cons x s =>
      rw [List.map_cons, List.cons_append, matchTokens, Bool.and_eq_true, decide_eq_true_eq, ih]
      constructor
      · rintro ⟨rfl, t, rfl, ht⟩
        exact ⟨t, rfl, ht⟩
      · rintro ⟨t, hst, ht⟩
        obtain ⟨rfl, rfl⟩ := List.cons.inj hst
        exact ⟨rfl, t, rfl, ht⟩

theorem tokens_cons {c : α} (hc : c ≠ S.escape) :
    S.tokens (c :: p) = (S.tokens p).map (S.token c :: ·) := by
  cases p with
  | nil => simp only [Specials.tokens, if_neg hc, Option.map_some]
  | cons d p => rw [Specials.tokens, if_neg hc]

/-- Quoted characters are read back as themselves. -/
theorem tokens_quote_append : S.tokens (S.quote q ++ p) = (S.tokens p).map (q.map .lit ++ ·) := by
  induction q with
  | nil => simp [Specials.quote]
  | cons c q ih =>
    rw [Specials.quote, List.flatMap_cons, List.append_assoc, ← Specials.quote]
    split_ifs with hspecial
    · rw [List.cons_append, List.cons_append, List.nil_append, Specials.tokens, if_pos rfl, ih,
        Option.map_map]
      rfl
    · rw [not_or, not_or] at hspecial
      have htoken : S.token c = .lit c := by
        rw [Specials.token, if_neg hspecial.2.1, if_neg hspecial.2.2]
      rw [List.singleton_append, tokens_cons hspecial.1, htoken, ih, Option.map_map]
      rfl

theorem like_quote_append : S.like (S.quote q ++ p) s = true ↔
    ∃ t, s = q ++ t ∧ S.like p t = true := by
  rw [Specials.like, tokens_quote_append]
  simp only [Specials.like]
  cases S.tokens p with
  | none => simp
  | some ts => exact matchTokens_lits

/-- **A quoted text with the wildcard after it matches what starts with the text.** -/
theorem like_quote_many (hmany : S.many ≠ S.escape) (hone : S.many ≠ S.one) :
    S.like (S.quote q ++ [S.many]) s = true ↔ q <+: s := by
  have hlike : ∀ t, S.like [S.many] t = true := by
    intro t
    rw [Specials.like, Specials.tokens, if_neg hmany, Specials.token, if_neg hone, if_pos rfl]
    exact matchTokens_many t
  rw [like_quote_append]
  constructor
  · rintro ⟨t, rfl, -⟩
    exact List.prefix_append q t
  · rintro ⟨t, rfl⟩
    exact ⟨t, rfl, hlike t⟩

end Like
