import Mathlib.Algebra.GroupWithZero.Nat
import Mathlib.Data.Char
import Mathlib.Data.List.Lex
import Mathlib.Data.List.Sort

/-!
# Texts

Python's `str`, kept as its characters, and the joins the keys and signatures of
a frame are made with.
-/

namespace AutoTrade

abbrev Text := List Char

instance : LawfulBEq Text := inferInstance

/-- `len(text.encode("utf-8"))`. -/
def byteLength (t : Text) : Nat := (t.map Char.utf8Size).sum

theorem byteLength_append (t u : Text) : byteLength (t ++ u) = byteLength t + byteLength u := by
  unfold byteLength
  rw [List.map_append, List.sum_append]

theorem byteLength_cons (c : Char) (t : Text) :
    byteLength (c :: t) = c.utf8Size + byteLength t := rfl

theorem byteLength_le (t : Text) : byteLength t ≤ 4 * t.length := by
  induction t with
  | nil => exact le_refl _
  | cons c t ih =>
    have size := c.utf8Size_le_four
    rw [byteLength_cons, List.length_cons]
    omega

/-- `sep.join(parts)`. -/
def joinTexts (sep : Char) (parts : List Text) : Text := [sep].intercalate parts

@[simp] theorem joinTexts_singleton (sep : Char) (part : Text) : joinTexts sep [part] = part :=
  List.intercalate_singleton

theorem splitOn_joinTexts {sep : Char} {parts : List Text} (filled : parts ≠ []) :
    (joinTexts sep parts).splitOn sep = parts.flatMap (List.splitOn sep) := by
  induction parts with
  | nil => exact absurd rfl filled
  | cons part parts ih =>
    cases parts with
    | nil => simp
    | cons next parts =>
      have join : joinTexts sep (part :: next :: parts) =
          part ++ sep :: joinTexts sep (next :: parts) := by
        simp [joinTexts, List.intercalate]
      rw [join, List.splitOn_append_cons_self, ih (List.cons_ne_nil _ _)]
      rfl

theorem joinTexts_eq_iff {sep : Char} {parts parts' : List Text} (filled : parts ≠ [])
    (filled' : parts' ≠ []) : joinTexts sep parts = joinTexts sep parts' ↔
      parts.flatMap (List.splitOn sep) = parts'.flatMap (List.splitOn sep) := by
  rw [← splitOn_joinTexts filled, ← splitOn_joinTexts filled']
  constructor
  · exact congrArg _
  · intro same
    have joined := congrArg (fun pieces => [sep].intercalate pieces) same
    simpa only [List.intercalate_splitOn] using joined

/-- The parts in the order Python sorts texts in. -/
def sortTexts (parts : List Text) : List Text := parts.insertionSort (· ≤ ·)

theorem perm_sortTexts (parts : List Text) : (sortTexts parts).Perm parts :=
  List.perm_insertionSort _ _

end AutoTrade
