import Mathlib.Data.Prod.Lex
import Mathlib.Order.Lattice

/-!
# Trade dates and instants

A trade date is the number its `YYYYMMDD` text spells, so number order is text
order. An instant is a Beijing wall-clock time: its trade date and the
microseconds since midnight (`autotrade/common/time.py`, `CN_TZ`).
-/

namespace AutoTrade

def microsPerMinute : Nat := 60 * 1000000

def microsPerDay : Nat := 24 * 60 * microsPerMinute

/-- A timezone-aware `datetime` in `CN_TZ`. -/
structure Instant where
  day : Nat
  micros : Nat
  micros_lt : micros < microsPerDay
  deriving DecidableEq

namespace Instant

def toLexPair (t : Instant) : Nat ×ₗ Nat := toLex (t.day, t.micros)

theorem toLexPair_injective : Function.Injective toLexPair := by
  rintro ⟨d, m, hm⟩ ⟨d', m', hm'⟩ h
  simp only [toLexPair, EmbeddingLike.apply_eq_iff_eq, Prod.mk.injEq] at h
  obtain ⟨rfl, rfl⟩ := h
  rfl

instance : LinearOrder Instant := LinearOrder.lift' toLexPair toLexPair_injective

theorem le_def {s t : Instant} :
    s ≤ t ↔ s.day < t.day ∨ (s.day = t.day ∧ s.micros ≤ t.micros) := by
  change toLexPair s ≤ toLexPair t ↔ _
  simp [toLexPair, Prod.Lex.le_iff]

theorem lt_def {s t : Instant} :
    s < t ↔ s.day < t.day ∨ (s.day = t.day ∧ s.micros < t.micros) := by
  change toLexPair s < toLexPair t ↔ _
  simp [toLexPair, Prod.Lex.lt_iff]

/-- The minute of the day, the order in which `strftime("%H:%M")` texts sort. -/
def minute (t : Instant) : Nat := t.micros / microsPerMinute

/-- `datetime.combine(day, time(hour, minute), tzinfo=CN_TZ)`. -/
def atMinute (day : Nat) (minute : Nat) (h : minute < 24 * 60) : Instant :=
  ⟨day, minute * microsPerMinute, by unfold microsPerDay; exact Nat.mul_lt_mul_of_pos_right h (by decide)⟩

theorem open_lt : 570 < 24 * 60 := by decide

@[simp] theorem minute_atMinute (day minute : Nat) (h : minute < 24 * 60) :
    (atMinute day minute h).minute = minute := Nat.mul_div_cancel _ (by decide)

/-- `datetime.combine(day, time.max, tzinfo=CN_TZ)`. -/
def dayEnd (day : Nat) : Instant := ⟨day, microsPerDay - 1, by decide⟩

theorem le_dayEnd {t : Instant} {day : Nat} : t ≤ dayEnd day ↔ t.day ≤ day := by
  have bound := t.micros_lt
  rw [le_def]
  simp only [dayEnd]
  constructor
  · rintro (h | ⟨h, -⟩) <;> omega
  · intro h
    rcases Nat.lt_or_eq_of_le h with h | h
    · exact .inl h
    · exact .inr ⟨h, by omega⟩

end Instant

end AutoTrade
