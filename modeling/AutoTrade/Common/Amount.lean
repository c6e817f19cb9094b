import AutoTrade.Common.Json

/-!
# Numbers that are not negative

As records carry them: counts as integers, amounts as whatever number stands in
the text.
-/

namespace AutoTrade

namespace JsonNumber

/-- The number is an integer literal: Python reads it as an `int`. -/
def isInt (n : JsonNumber) : Bool := n.text.all fun c => c ∈ "-0123456789".toList

/-- `value < 0`. -/
def isNegative (n : JsonNumber) : Bool :=
  n.text.head? = some '-' &&
    (n.text.takeWhile fun c => c ∉ ['e', 'E']).any fun c => c ∈ "123456789".toList

theorem isInt_ofNat (n : Nat) : (ofNat n).isInt = true := by
  apply List.all_eq_true.mpr
  intro c member
  have digit := mem_ofNat member
  apply decide_eq_true
  exact List.mem_cons_of_mem '-' digit

theorem isNegative_ofNat (n : Nat) : (ofNat n).isNegative = false := by
  have first : (ofNat n).text.head? ≠ some '-' := by
    intro sign
    have digit := mem_ofNat (List.mem_of_head? sign)
    exact absurd digit (by decide)
  unfold isNegative
  rw [decide_eq_false first, Bool.false_and]

end JsonNumber

/-- A non-negative number, as it stands in a record. -/
structure Amount where
  number : JsonNumber
  sign : number.isNegative = false

def zeroAmount : Amount := ⟨.ofNat 0, by decide⟩

end AutoTrade
