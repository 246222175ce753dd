import GumptionChain.Codec.Base64

/-!
# Code points and code units

`Str` is text: its characters are Unicode scalar values. A string that came out of
JSON may hold half of a surrogate pair too, and a JavaScript string is a sequence of
UTF-16 code units.

* `PyStr` — a Python `str`, surrogates included;
* `PyStr.encode` — `str.encode()`, which refuses them;
* `PyStr.utf16` — the same string in JavaScript.
-/

namespace GumptionChain

/-- One code point: a character, or one of the `0x800` surrogates. -/
inductive CodePoint where
  | char (c : Char)
  | surrogate (n : Fin 0x800)
  deriving DecidableEq

/-- A Python `str`. -/
abbrev PyStr := List CodePoint

instance : LawfulBEq PyStr := inferInstance

/-- A JavaScript string: its code units. -/
abbrev JsStr := List UInt16

namespace CodePoint

/-- `ord(x)`. -/
def ord : CodePoint → ℕ
  | char c => c.toNat
  | surrogate n => 0xD800 + n

/-- `x.lower()` of an ASCII letter; other code points are left alone. -/
def lower : CodePoint → CodePoint
  | char c => char c.toLower
  | surrogate n => surrogate n

/-- The code units of a code point: a pair from `0x10000` on. -/
def utf16 (x : CodePoint) : JsStr :=
  if x.ord < 0x10000 then [UInt16.ofNat x.ord]
  else [UInt16.ofNat (0xD800 + (x.ord - 0x10000) / 0x400),
    UInt16.ofNat (0xDC00 + (x.ord - 0x10000) % 0x400)]

/-- The character, unless the code point is a surrogate. -/
def char? : CodePoint → Option Char
  | char c => some c
  | surrogate _ => none

end CodePoint

namespace PyStr

/-- Text as a Python `str`. -/
def ofStr (s : Str) : PyStr := s.map .char

/-- The text of a string without surrogates. -/
def str? (s : PyStr) : Option Str := s.mapM CodePoint.char?

/-- `s.encode()`: `UnicodeEncodeError` at a surrogate. -/
def encode (s : PyStr) : Option Bytes := (str? s).map utf8Encode

/-- The string in UTF-16. -/
def utf16 (s : PyStr) : JsStr := s.flatMap CodePoint.utf16

@[simp] theorem str?_nil : str? [] = some [] := rfl

theorem str?_cons (x : CodePoint) (s : PyStr) :
    str? (x :: s) = (x.char?).bind fun c => (str? s).map (c :: ·) := by
  rw [str?, List.mapM_cons]
  cases x <;> cases h : List.mapM CodePoint.char? s <;> simp [CodePoint.char?, str?, h]

@[simp] theorem str?_ofStr (s : Str) : str? (ofStr s) = some s := by
  induction s with
  | nil => rfl
  | cons c s ih =>
    rw [ofStr, List.map_cons, str?_cons, show str? (s.map .char) = some s from ih]
    rfl

theorem str?_eq_some {s : PyStr} {t : Str} : str? s = some t ↔ s = ofStr t := by
  refine ⟨fun h => ?_, fun h => h ▸ str?_ofStr t⟩
  induction s generalizing t with
  | nil =>
    obtain rfl : [] = t := Option.some.inj h
    rfl
  | cons x s ih =>
    rw [str?_cons] at h
    obtain ⟨c, hc, h⟩ := Option.bind_eq_some_iff.1 h
    obtain ⟨t', ht, rfl⟩ := Option.map_eq_some_iff.1 h
    cases x with
    | char c' =>
      obtain rfl : c' = c := Option.some.inj hc
      rw [ih ht]
      rfl
    | surrogate n => cases hc

end PyStr

end GumptionChain
