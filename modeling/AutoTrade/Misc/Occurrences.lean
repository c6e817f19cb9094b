import Mathlib.Algebra.BigOperators.Group.List.Basic
import Mathlib.Data.List.Basic
import Mathlib.Tactic.Ring

/-!
# Occurrences of a list in a list

A list cut at the occurrences of another that do not overlap, from the left: the gaps between them,
joined by what is cut at, are the list, and joined by another list they are what replacing gives.
-/

namespace AutoTrade

namespace Occurrences

variable {α : Type*} [DecidableEq α]

/-- The gaps of a list past `skip` elements, which the last occurrence still covers. -/
def cut (old : List α) : Nat → List α → List (List α)
  | _, [] => [[]]
  | 0, c :: rest =>
    if old.isPrefixOf (c :: rest) then [] :: cut old (old.length - 1) rest
    else (cut old 0 rest).modifyHead (c :: ·)
  | skip + 1, _ :: rest => cut old skip rest

/-- What stands between the occurrences of `old` in a list. -/
def gaps (old t : List α) : List (List α) := cut old 0 t

/-- `t.count(old)`. -/
def count (old t : List α) : Nat := (gaps old t).length - 1

/-- `t.replace(old, new)`. -/
def replaceAll (old new t : List α) : List α := new.intercalate (gaps old t)

/-- `t.replace(old, new, 1)`. -/
def replaceFirst (old new t : List α) : List α :=
  match gaps old t with
  | first :: second :: rest => first ++ new ++ old.intercalate (second :: rest)
  | gaps => gaps.flatten

variable {old new t : List α}

theorem cut_ne_nil (skip : Nat) (t : List α) : cut old skip t ≠ [] := by
  induction t generalizing skip with
  | nil => simp [cut]
  | cons c rest ih =>
    cases skip with
    | zero =>
      rw [cut]
      split
      · simp
      · cases found : cut old 0 rest with
        | nil => exact absurd found (ih 0)
        | cons gap gaps => simp
    | succ skip => exact ih skip

theorem intercalate_cut (some : old ≠ []) (skip : Nat) (t : List α) :
    old.intercalate (cut old skip t) = t.drop skip := by
  induction t generalizing skip with
  | nil => simp [cut]
  | cons c rest ih =>
    cases skip with
    | succ skip => exact ih skip
    | zero =>
      rw [cut, List.drop_zero]
      split
      · rename_i occurs
        have ⟨tail, split⟩ := List.isPrefixOf_iff_prefix.mp occurs
        rw [List.intercalate_cons_of_ne_nil (cut_ne_nil _ _), ih, List.nil_append]
        cases old with
        | nil => exact absurd rfl some
        | cons d old =>
          have parts := List.cons.inj split
          rw [List.length_cons, Nat.add_sub_cancel, ← parts.2, ← parts.1]
          simp
      · have whole := ih 0
        cases found : cut old 0 rest with
        | nil => exact absurd found (cut_ne_nil 0 rest)
        | cons gap gaps =>
          rw [found, List.drop_zero] at whole
          rw [List.modifyHead_cons, List.intercalate_cons_cons_left, whole]

theorem intercalate_gaps (some : old ≠ []) (t : List α) : old.intercalate (gaps old t) = t :=
  intercalate_cut some 0 t

theorem count_intercalate (x : α) (sep : List α) (parts : List (List α)) :
    (sep.intercalate parts).count x =
      (parts.map (List.count x)).sum + (parts.length - 1) * sep.count x := by
  induction parts with
  | nil => simp [List.intercalate_nil]
  | cons part parts ih =>
    cases parts with
    | nil => simp
    | cons next parts =>
      rw [List.intercalate_cons_cons, List.count_append, List.count_append, ih]
      simp only [List.map_cons, List.sum_cons, List.length_cons, Nat.add_sub_cancel]
      ring

theorem count_replaceAll (x : α) (some : old ≠ []) :
    (replaceAll old new t).count x + count old t * old.count x =
      t.count x + count old t * new.count x := by
  have whole := count_intercalate x old (gaps old t)
  rw [intercalate_gaps some] at whole
  rw [replaceAll, count_intercalate, whole, count]
  ring

theorem count_replaceFirst (x : α) (some : old ≠ []) (occurs : count old t ≠ 0) :
    (replaceFirst old new t).count x + old.count x = t.count x + new.count x := by
  have whole := congrArg (List.count x) (intercalate_gaps some t)
  rw [count] at occurs
  cases found : gaps old t with
  | nil => exact absurd found (cut_ne_nil 0 t)
  | cons first rest =>
    cases rest with
    | nil =>
      rw [found] at occurs
      exact absurd rfl occurs
    | cons second rest =>
      rw [found, List.intercalate_cons_cons, List.count_append, List.count_append] at whole
      simp only [replaceFirst, found, List.count_append]
      omega

theorem mem_of_count (occurs : count old t ≠ 0) {x : α} (member : x ∈ old) (some : old ≠ []) :
    x ∈ t := by
  have whole := count_intercalate x old (gaps old t)
  rw [intercalate_gaps some] at whole
  have held : 0 < count old t * old.count x :=
    Nat.mul_pos (Nat.pos_of_ne_zero occurs) (List.count_pos_iff.mpr member)
  rw [← count] at whole
  exact List.count_pos_iff.mp (by omega)

end Occurrences

end AutoTrade
