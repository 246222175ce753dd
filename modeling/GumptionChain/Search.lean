import GumptionChain.Codec.CodePoint
import GumptionChain.Lib.Like

/-!
# Searching for a prefix

`models.py`: the pattern that `search_subjects` gives to SQL's `LIKE`.

* `replace_eq_quote` — the three replacements quote the query;
* `search_like_pattern` — so the pattern matches what starts with it.
-/

namespace GumptionChain

/-- `s.replace(c, new)` for a single character. -/
def replaceChar {α : Type} [DecidableEq α] (c : α) (new s : List α) : List α :=
  s.flatMap fun x => if x = c then new else [x]

def backslash : CodePoint := .char '\\'

def percent : CodePoint := .char '%'

def underscore : CodePoint := .char '_'

/-- `_search_like_pattern`. -/
def searchLikePattern (query : PyStr) : PyStr :=
  let escaped := replaceChar underscore [backslash, underscore]
    (replaceChar percent [backslash, percent] (replaceChar backslash [backslash, backslash] query))
  escaped ++ [percent]

/-- `LIKE` with `escape='\\'`. -/
def sqlLike : Like.Specials CodePoint := ⟨backslash, underscore, percent⟩

theorem replace_eq_quote (q : PyStr) :
    replaceChar underscore [backslash, underscore]
      (replaceChar percent [backslash, percent] (replaceChar backslash [backslash, backslash] q)) =
        sqlLike.quote q := by
  have hp : backslash ≠ percent := by decide
  have hu : backslash ≠ underscore := by decide
  have hpu : percent ≠ underscore := by decide
  simp only [replaceChar, Like.Specials.quote, sqlLike, List.flatMap_assoc]
  congr 1
  funext x
  by_cases hx : x = backslash
  · simp [hx, hp, hu]
  · by_cases hx' : x = percent
    · simp [hx', hp.symm, hu, hpu]
    · by_cases hx'' : x = underscore
      · simp [hx'', hu.symm, hpu.symm]
      · simp [hx, hx', hx'']

/-- **A text matches the pattern of a query just if it starts with the query.** -/
theorem search_like_pattern (q s : PyStr) :
    sqlLike.like (searchLikePattern q) s = true ↔ q <+: s := by
  rw [searchLikePattern, replace_eq_quote]
  exact Like.like_quote_many (by decide) (by decide)

end GumptionChain
