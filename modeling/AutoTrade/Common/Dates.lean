import AutoTrade.Common.Months
import Mathlib.Order.Cover

/-!
# Dates

Python's `date`, ordered as its `YYYYMMDD` texts are; such a text is kept as the
number it reads as.
-/

namespace AutoTrade

/-- What `date(year, month, day)` accepts. -/
def validDate (year month day : Nat) : Bool :=
  1 ≤ year && year ≤ 9999 && 1 ≤ day && day ≤ daysInMonth year month

def dateNumber (year month day : Nat) : Nat := year * 10000 + month * 100 + day

/-- A calendar date of the years 1 to 9999. -/
@[ext]
structure Date where
  year : Nat
  month : Nat
  day : Nat
  valid : validDate year month day = true
  deriving DecidableEq

namespace Date

/-- `date(year, month, day)`. -/
def of? (year month day : Nat) : Option Date :=
  if valid : validDate year month day = true then some ⟨year, month, day, valid⟩ else none

/-- `strftime("%Y%m%d")`. -/
def number (d : Date) : Nat := dateNumber d.year d.month d.day

/-- `date.fromisoformat` of eight digits. -/
def ofNumber? (n : Nat) : Option Date := of? (n / 10000) (n / 100 % 100) (n % 100)

/-- The date and one day, in the same month, the next or the next year. -/
def next? (d : Date) : Option Date :=
  of? d.year d.month (d.day + 1) <|> of? d.year (d.month + 1) 1 <|> of? (d.year + 1) 1 1

/-- The date less one day. -/
def previous? (d : Date) : Option Date :=
  if 1 < d.day then of? d.year d.month (d.day - 1)
  else if 1 < d.month then of? d.year (d.month - 1) (daysInMonth d.year (d.month - 1))
  else of? (d.year - 1) 12 31

end Date

theorem daysInMonth_le (year month : Nat) : daysInMonth year month ≤ 31 := by
  unfold daysInMonth
  split <;> first | omega | (split <;> omega)

theorem le_daysInMonth (year : Nat) {month : Nat} (first : 1 ≤ month) (last : month ≤ 12) :
    28 ≤ daysInMonth year month := by
  rcases Decidable.em (month = 2) with rfl | other
  · rw [daysInMonth]
    split <;> omega
  · interval_cases month
    case «2» => exact absurd rfl other
    all_goals simp [daysInMonth]

theorem daysInMonth_eq_zero (year : Nat) {month : Nat} (none : month = 0 ∨ 12 < month) :
    daysInMonth year month = 0 := by
  rcases none with rfl | late
  · rfl
  · unfold daysInMonth
    split <;> omega

theorem validDate_iff {year month day : Nat} : validDate year month day = true ↔
    1 ≤ year ∧ year ≤ 9999 ∧ 1 ≤ day ∧ day ≤ daysInMonth year month := by
  simp [validDate, and_assoc]

namespace Date

variable {d e : Date}

theorem month_spec (d : Date) : 1 ≤ d.month ∧ d.month ≤ 12 := by
  have ⟨_, _, begun, within⟩ := validDate_iff.mp d.valid
  by_contra outside
  have none := daysInMonth_eq_zero d.year (show d.month = 0 ∨ 12 < d.month by omega)
  omega

theorem day_spec (d : Date) :
    1 ≤ d.day ∧ d.day ≤ daysInMonth d.year d.month ∧ daysInMonth d.year d.month ≤ 31 :=
  have ⟨_, _, begun, within⟩ := validDate_iff.mp d.valid
  ⟨begun, within, daysInMonth_le _ _⟩

theorem of?_eq_some {year month day : Nat} :
    of? year month day = some d ↔ d.year = year ∧ d.month = month ∧ d.day = day := by
  unfold of?
  constructor
  · intro made
    split at made
    · obtain rfl := Option.some.inj made
      exact ⟨rfl, rfl, rfl⟩
    · cases made
  · rintro ⟨rfl, rfl, rfl⟩
    exact dif_pos d.valid

theorem number_parts (d : Date) :
    d.number / 10000 = d.year ∧ d.number / 100 % 100 = d.month ∧ d.number % 100 = d.day := by
  have ⟨_, last⟩ := d.month_spec
  have ⟨_, within, most⟩ := d.day_spec
  unfold number dateNumber
  omega

theorem number_injective : Function.Injective number := by
  intro d e same
  have ⟨year, month, day⟩ := d.number_parts
  have ⟨year', month', day'⟩ := e.number_parts
  rw [same] at year month day
  ext
  · exact year.symm.trans year'
  · exact month.symm.trans month'
  · exact day.symm.trans day'

/-- Dates order as their texts. -/
instance : LinearOrder Date := LinearOrder.lift' number number_injective

theorem le_iff : d ≤ e ↔ d.number ≤ e.number := Iff.rfl

theorem lt_iff : d < e ↔ d.number < e.number := Iff.rfl

theorem ofNumber?_number (d : Date) : ofNumber? d.number = some d := by
  have ⟨year, month, day⟩ := d.number_parts
  unfold ofNumber?
  rw [year, month, day]
  exact of?_eq_some.mpr ⟨rfl, rfl, rfl⟩

theorem number_of_ofNumber? {n : Nat} (read : ofNumber? n = some d) : d.number = n := by
  have ⟨year, month, day⟩ := of?_eq_some.mp read
  unfold number dateNumber
  omega

theorem of?_eq_none {year month day : Nat} :
    of? year month day = none ↔ ¬ validDate year month day = true := by
  unfold of?
  split <;> simp_all

theorem lt_parts (before : d < e) :
    d.year = e.year ∧ d.month = e.month ∧ d.day < e.day ∨
      d.year = e.year ∧ d.month < e.month ∨ d.year < e.year := by
  have ⟨first, last⟩ := d.month_spec
  have ⟨first', last'⟩ := e.month_spec
  have ⟨begun, within, most⟩ := d.day_spec
  have ⟨begun', within', most'⟩ := e.day_spec
  rw [lt_iff] at before
  unfold number dateNumber at before
  omega

theorem lt_of_parts (before : d.year = e.year ∧ d.month = e.month ∧ d.day < e.day ∨
      d.year = e.year ∧ d.month < e.month ∨ d.year < e.year) : d < e := by
  have ⟨first, last⟩ := d.month_spec
  have ⟨first', last'⟩ := e.month_spec
  have ⟨begun, within, most⟩ := d.day_spec
  have ⟨begun', within', most'⟩ := e.day_spec
  rw [lt_iff]
  unfold number dateNumber
  omega

theorem next?_eq_some (next : d.next? = some e) :
    e.year = d.year ∧ e.month = d.month ∧ e.day = d.day + 1 ∨
      d.day = daysInMonth d.year d.month ∧
        (e.year = d.year ∧ e.month = d.month + 1 ∧ e.day = 1 ∨
          d.month = 12 ∧ e.year = d.year + 1 ∧ e.month = 1 ∧ e.day = 1) := by
  have ⟨begun, within, _⟩ := d.day_spec
  have ⟨first, last⟩ := d.month_spec
  have ⟨low, high, _⟩ := validDate_iff.mp d.valid
  unfold next? at next
  cases same : of? d.year d.month (d.day + 1) with
  | some found =>
    rw [same] at next
    obtain rfl := Option.some.inj next
    exact .inl (of?_eq_some.mp same)
  | none =>
    have overrun := of?_eq_none.mp same
    rw [validDate_iff] at overrun
    refine .inr ⟨by omega, ?_⟩
    cases later : of? d.year (d.month + 1) 1 with
    | some found =>
      rw [same, later] at next
      obtain rfl := Option.some.inj next
      exact .inl (of?_eq_some.mp later)
    | none =>
      rw [same, later] at next
      have past := of?_eq_none.mp later
      rw [validDate_iff] at past
      have ends : d.month = 12 := by
        by_contra inside
        have days := le_daysInMonth d.year (Nat.le_add_left 1 d.month)
          (show d.month + 1 ≤ 12 by omega)
        omega
      exact .inr ⟨ends, of?_eq_some.mp next⟩

theorem covBy_of_next (next : d.next? = some e) : d ⋖ e := by
  have ⟨_, within, _⟩ := d.day_spec
  have ⟨_, last⟩ := d.month_spec
  rcases next?_eq_some next with
    ⟨year, month, day⟩ | ⟨full, ⟨year, month, day⟩ | ⟨ends, year, month, day⟩⟩
  · refine ⟨lt_of_parts (by omega), fun x after before => ?_⟩
    have := lt_parts after
    have := lt_parts before
    omega
  · refine ⟨lt_of_parts (by omega), fun x after before => ?_⟩
    have ⟨begun', within', _⟩ := x.day_spec
    rcases lt_parts after with ⟨sameYear, sameMonth, more⟩ | later
    · rw [← sameYear, ← sameMonth] at within'
      omega
    · have := lt_parts before
      omega
  · refine ⟨lt_of_parts (by omega), fun x after before => ?_⟩
    have ⟨begun', within', _⟩ := x.day_spec
    have ⟨first', last'⟩ := x.month_spec
    rcases lt_parts after with ⟨sameYear, sameMonth, more⟩ | later
    · rw [← sameYear, ← sameMonth] at within'
      omega
    · have := lt_parts before
      omega

theorem previous?_eq_some (previous : d.previous? = some e) : e.next? = some d := by
  have ⟨begun, within, _⟩ := d.day_spec
  have ⟨first, last⟩ := d.month_spec
  unfold previous? at previous
  split_ifs at previous with inside inYear
  · have ⟨year, month, day⟩ := of?_eq_some.mp previous
    have made : of? e.year e.month (e.day + 1) = some d :=
      of?_eq_some.mpr ⟨year.symm, month.symm, by omega⟩
    unfold next?
    rw [made]
    rfl
  · have ⟨year, month, day⟩ := of?_eq_some.mp previous
    have overrun : of? e.year e.month (e.day + 1) = none := by
      rw [of?_eq_none, validDate_iff, year, month, day]
      omega
    have made : of? e.year (e.month + 1) 1 = some d :=
      of?_eq_some.mpr ⟨year.symm, by omega, by omega⟩
    unfold next?
    rw [overrun, made]
    rfl
  · have ⟨year, month, day⟩ := of?_eq_some.mp previous
    have low := (validDate_iff.mp e.valid).1
    have overrun : of? e.year e.month (e.day + 1) = none := by
      rw [of?_eq_none, validDate_iff, month, day]
      simp [daysInMonth]
    have past : of? e.year (e.month + 1) 1 = none := by
      rw [of?_eq_none, validDate_iff, month, daysInMonth_eq_zero _ (.inr (by omega))]
      omega
    have made : of? (e.year + 1) 1 1 = some d := of?_eq_some.mpr ⟨by omega, by omega, by omega⟩
    unfold next?
    rw [overrun, past, made]
    rfl

theorem covBy_of_previous (previous : d.previous? = some e) : e ⋖ d :=
  covBy_of_next (previous?_eq_some previous)

/-! ## First and last days of months

Months are counted from January of the year 0, so that a month's number is twelve times its
year and the months before it in the year. -/

/-- The month of a date. -/
def monthNumber (d : Date) : Nat := d.year * 12 + (d.month - 1)

/-- A month of the years 1 to 9999. -/
def IsMonth (month : Nat) : Prop := 12 ≤ month ∧ month < 120000

theorem isMonth_monthNumber (d : Date) : IsMonth d.monthNumber := by
  have ⟨first, last⟩ := d.month_spec
  have ⟨low, high, _⟩ := validDate_iff.mp d.valid
  unfold IsMonth monthNumber
  omega

/-- The first day of a month; of no month of those years, the first of all days. -/
def firstOf (month : Nat) : Date := (of? (month / 12) (month % 12 + 1) 1).getD ⟨1, 1, 1, rfl⟩

/-- The last day of a month. -/
def lastOf (month : Nat) : Date :=
  (of? (month / 12) (month % 12 + 1) (daysInMonth (month / 12) (month % 12 + 1))).getD
    ⟨1, 1, 1, rfl⟩

variable {month : Nat}

theorem of?_firstOf (within : IsMonth month) :
    of? (month / 12) (month % 12 + 1) 1 = some (firstOf month) := by
  have days := le_daysInMonth (month / 12) (Nat.le_add_left 1 (month % 12))
    (show month % 12 + 1 ≤ 12 by omega)
  have valid : validDate (month / 12) (month % 12 + 1) 1 = true := by
    unfold IsMonth at within
    rw [validDate_iff]
    omega
  unfold firstOf of?
  rw [dif_pos valid]
  rfl

theorem of?_lastOf (within : IsMonth month) :
    of? (month / 12) (month % 12 + 1) (daysInMonth (month / 12) (month % 12 + 1)) =
      some (lastOf month) := by
  have days := le_daysInMonth (month / 12) (Nat.le_add_left 1 (month % 12))
    (show month % 12 + 1 ≤ 12 by omega)
  have valid : validDate (month / 12) (month % 12 + 1)
      (daysInMonth (month / 12) (month % 12 + 1)) = true := by
    unfold IsMonth at within
    rw [validDate_iff]
    omega
  unfold lastOf of?
  rw [dif_pos valid]
  rfl

theorem firstOf_parts (within : IsMonth month) :
    (firstOf month).year = month / 12 ∧ (firstOf month).month = month % 12 + 1 ∧
      (firstOf month).day = 1 := of?_eq_some.mp (of?_firstOf within)

theorem lastOf_parts (within : IsMonth month) :
    (lastOf month).year = month / 12 ∧ (lastOf month).month = month % 12 + 1 ∧
      (lastOf month).day = daysInMonth (month / 12) (month % 12 + 1) :=
  of?_eq_some.mp (of?_lastOf within)

theorem eq_firstOf (first : d.day = 1) : d = firstOf d.monthNumber := by
  have ⟨low, high⟩ := d.month_spec
  have ⟨year, month, day⟩ := firstOf_parts d.isMonth_monthNumber
  have counted : d.monthNumber = d.year * 12 + (d.month - 1) := rfl
  ext <;> omega

theorem firstOf_mono {month later : Nat} (within : IsMonth month) (within' : IsMonth later)
    (before : month ≤ later) : firstOf month ≤ firstOf later := by
  have ⟨year, inYear, day⟩ := firstOf_parts within
  have ⟨year', inYear', day'⟩ := firstOf_parts within'
  rw [le_iff]
  unfold number dateNumber
  omega

theorem firstOf_le_lastOf (within : IsMonth month) : firstOf month ≤ lastOf month := by
  have ⟨year, inYear, day⟩ := firstOf_parts within
  have ⟨year', inYear', day'⟩ := lastOf_parts within
  have days := le_daysInMonth (month / 12) (Nat.le_add_left 1 (month % 12))
    (show month % 12 + 1 ≤ 12 by omega)
  rw [le_iff]
  unfold number dateNumber
  omega

theorem previous?_firstOf (within : IsMonth month) (within' : IsMonth (month + 1)) :
    (firstOf (month + 1)).previous? = some (lastOf month) := by
  have ⟨year, inYear, day⟩ := firstOf_parts within'
  unfold previous?
  rw [day, if_neg (lt_irrefl 1)]
  by_cases inside : month % 12 + 1 < 12
  · have sameYear : (month + 1) / 12 = month / 12 := by omega
    have sameMonth : (month + 1) % 12 + 1 - 1 = month % 12 + 1 := by omega
    rw [year, inYear, if_pos (by omega), sameYear, sameMonth]
    exact of?_lastOf within
  · have sameYear : (month + 1) / 12 - 1 = month / 12 := by omega
    have december : month % 12 + 1 = 12 := by omega
    have last := of?_lastOf within
    rw [december] at last
    rw [year, inYear, if_neg (by omega), sameYear]
    exact last

theorem lastOf_covBy (within : IsMonth month) (within' : IsMonth (month + 1)) :
    lastOf month ⋖ firstOf (month + 1) := covBy_of_previous (previous?_firstOf within within')

theorem eq_lastOf (next : d.next? = some e) (first : e.day = 1) :
    IsMonth (e.monthNumber - 1) ∧ e.monthNumber - 1 + 1 = e.monthNumber ∧
      d = lastOf (e.monthNumber - 1) := by
  have ⟨begun, _, _⟩ := d.day_spec
  have ⟨low, high⟩ := d.month_spec
  have ⟨least, most, _⟩ := validDate_iff.mp d.valid
  have before : e.monthNumber = d.monthNumber + 1 ∧ d.day = daysInMonth d.year d.month := by
    unfold monthNumber
    rcases next?_eq_some next with same | ⟨full, other⟩ <;> omega
  have isMonth := d.isMonth_monthNumber
  rw [before.1, Nat.add_sub_cancel]
  have ⟨year, month, day⟩ := lastOf_parts isMonth
  have sameYear : d.monthNumber / 12 = d.year := by
    unfold monthNumber
    omega
  have sameMonth : d.monthNumber % 12 + 1 = d.month := by
    unfold monthNumber
    omega
  rw [sameYear] at year day
  rw [sameMonth] at month day
  refine ⟨isMonth, rfl, ?_⟩
  ext
  · exact year.symm
  · exact month.symm
  · exact before.2.trans day.symm

end Date

end AutoTrade
