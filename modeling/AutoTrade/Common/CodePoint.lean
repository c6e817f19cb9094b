import AutoTrade.Common.Utf8

/-!
# Strings with lone surrogates

A string holds code points, not characters: `json.loads` reads `"\ud800"` into a string with a lone
surrogate, which no text has and UTF-8 refuses to encode.
-/

namespace AutoTrade

/-- A code point of a string; the surrogates are U+D800 to U+DFFF. -/
inductive CodePoint where
  | char (c : Char)
  | surrogate (offset : Fin 2048)
  deriving DecidableEq

/-- A string, as its code points. -/
abbrev PyStr := List CodePoint

instance : LawfulBEq PyStr := inferInstance

namespace CodePoint

open Utf8 (Bytes)

def toChar : CodePoint → Option Char
  | char c => some c
  | surrogate _ => none

/-- A text, as a string. -/
def ofText (t : Text) : PyStr := t.map char

/-- `string.encode("utf-8")`, nothing for a string it refuses. -/
def encode (string : PyStr) : Option Bytes := (string.mapM toChar).map Utf8.encode

/-- `bytes.decode("utf-8")`, nothing for bytes it refuses: those that no text is encoded to. -/
def decode (bytes : Bytes) : Option Text :=
  if Utf8.encode (Utf8.decode bytes) = bytes then some (Utf8.decode bytes) else none

theorem char_injective : Function.Injective char := fun _ _ same => CodePoint.char.inj same

theorem mapM_ofText (t : Text) : (ofText t).mapM toChar = some t := by
  induction t with
  | nil => rfl
  | cons c t ih =>
    change ((char c :: ofText t).mapM toChar) = _
    rw [List.mapM_cons, ih]
    rfl

variable {string : PyStr}

theorem mapM_toChar_eq_some {t : Text} : string.mapM toChar = some t ↔ string = ofText t := by
  constructor
  · intro chars
    induction string generalizing t with
    | nil =>
      rw [List.mapM_nil] at chars
      rw [← Option.some.inj chars]
      rfl
    | cons point rest ih =>
      cases point with
      | surrogate offset => simp [List.mapM_cons, toChar] at chars
      | char c =>
        rw [List.mapM_cons] at chars
        simp only [toChar, Option.pure_def, Option.bind_eq_bind, Option.bind_some,
          Option.bind_eq_some_iff, Option.some.injEq] at chars
        have ⟨rest', read, whole⟩ := chars
        rw [← whole, ih read]
        rfl
  · rintro rfl
    exact mapM_ofText t

theorem encode_eq_some {bytes : Bytes} :
    encode string = some bytes ↔ ∃ t, string = ofText t ∧ Utf8.encode t = bytes := by
  simp [encode, mapM_toChar_eq_some]

theorem encode_ofText (t : Text) : encode (ofText t) = some (Utf8.encode t) :=
  encode_eq_some.mpr ⟨t, rfl, rfl⟩

theorem encode_eq_text {t : Text} : encode string = some (Utf8.encode t) ↔ string = ofText t := by
  constructor
  · intro encoded
    have ⟨t', same, bytes⟩ := encode_eq_some.mp encoded
    rw [same, Utf8.encode_injective bytes]
  · rintro rfl
    exact encode_ofText t

theorem encode_isSome : (encode string).isSome ↔ ∀ point ∈ string, ∃ c, point = char c := by
  rw [Option.isSome_iff_exists]
  constructor
  · intro ⟨bytes, encoded⟩ point member
    have ⟨t, same, _⟩ := encode_eq_some.mp encoded
    rw [same] at member
    have ⟨c, _, its⟩ := List.mem_map.mp member
    exact ⟨c, its.symm⟩
  · intro chars
    suffices read : ∃ t, string = ofText t by
      have ⟨t, same⟩ := read
      exact ⟨_, same ▸ encode_ofText t⟩
    induction string with
    | nil => exact ⟨[], rfl⟩
    | cons point rest ih =>
      have ⟨c, first⟩ := chars point List.mem_cons_self
      have ⟨t, later⟩ := ih fun point member => chars point (List.mem_cons_of_mem _ member)
      exact ⟨c :: t, by rw [first, later]; rfl⟩

theorem decode_eq_some {bytes : Bytes} {t : Text} : decode bytes = some t ↔ bytes = Utf8.encode t := by
  rw [decode]
  constructor
  · split
    · rename_i same
      intro read
      rw [← Option.some.inj read, same]
    · exact nofun
  · rintro rfl
    rw [Utf8.decode_encode, if_pos rfl]

end CodePoint

end AutoTrade
