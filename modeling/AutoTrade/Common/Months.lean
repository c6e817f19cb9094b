import Mathlib.Data.Nat.Find
import Mathlib.Order.Monotone.Basic
import Mathlib.Tactic.IntervalCases

/-!
# Months

The month a day falls into. Days are counted from the first of January of the year 1, months
from that January, so that months order as their `YYYYMM` texts do in years of four digits.
-/

namespace AutoTrade

def isLeapYear (year : Nat) : Bool :=
  year % 4 = 0 && (year % 100 ≠ 0 || year % 400 = 0)

def daysInMonth (year month : Nat) : Nat :=
  match month with
  | 1 | 3 | 5 | 7 | 8 | 10 | 12 => 31
  | 4 | 6 | 9 | 11 => 30
  | 2 => if isLeapYear year then 29 else 28
  | _ => 0

/-- The days of a month counted from January of the year 1. -/
def monthLength (month : Nat) : Nat := daysInMonth (month / 12 + 1) (month % 12 + 1)

/-- The first day of a month. -/
def firstDay : Nat → Nat
  | 0 => 0
  | month + 1 => firstDay month + monthLength month

/-- The month of a day. -/
def monthOf (day : Nat) : Nat := Nat.findGreatest (fun month => firstDay month ≤ day) day

theorem daysInMonth_pos (year : Nat) {month : Nat} (first : 1 ≤ month) (last : month ≤ 12) :
    0 < daysInMonth year month := by
  rcases Decidable.em (month = 2) with rfl | other
  · rw [daysInMonth]
    split <;> omega
  · interval_cases month
    case «2» => exact absurd rfl other
    all_goals simp [daysInMonth]

theorem monthLength_pos (month : Nat) : 0 < monthLength month := by
  have bound : month % 12 < 12 := Nat.mod_lt _ (by omega)
  exact daysInMonth_pos _ (by omega) (by omega)

theorem firstDay_strictMono : StrictMono firstDay :=
  strictMono_nat_of_lt_succ fun month => Nat.lt_add_of_pos_right (monthLength_pos month)

theorem le_firstDay (month : Nat) : month ≤ firstDay month := by
  induction month with
  | zero => exact Nat.zero_le _
  | succ month ih =>
    have days := monthLength_pos month
    rw [firstDay]
    omega

theorem le_monthOf_iff {month day : Nat} : month ≤ monthOf day ↔ firstDay month ≤ day := by
  constructor
  · intro early
    have begun : firstDay (monthOf day) ≤ day :=
      Nat.findGreatest_spec (P := fun month => firstDay month ≤ day) (Nat.zero_le day)
        (Nat.zero_le day)
    exact le_trans (firstDay_strictMono.monotone early) begun
  · intro begun
    exact Nat.le_findGreatest (le_trans (le_firstDay month) begun) begun

theorem monthOf_mono : Monotone monthOf := fun _ _ before =>
  le_monthOf_iff.mpr (le_trans (le_monthOf_iff.mp (le_refl _)) before)

theorem monthOf_firstDay (month : Nat) : monthOf (firstDay month) = month := by
  apply le_antisymm
  · exact firstDay_strictMono.le_iff_le.mp (le_monthOf_iff.mp (le_refl _))
  · exact le_monthOf_iff.mpr (le_refl _)

theorem monthOf_lt_of_lt {month day : Nat} (before : day < firstDay month) :
    monthOf day < month := by
  by_contra late
  exact absurd (le_monthOf_iff.mp (not_lt.mp late)) (not_le.mpr before)

end AutoTrade
