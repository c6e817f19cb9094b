import AutoTrade.Environment.Replay.TimeviewParts
import AutoTrade.Misc.Framing

/-!
# Part names in order

A number below ten thousand is written in four digits, so the names of parts sort by the first
number they carry: a merged part stands where the first of its sources stood.
-/

namespace AutoTrade

open JsonNumber
open SessionTree (zeroPadded)

namespace Timeview

theorem digitsOf_of_lt {n : Nat} (small : n < 10) : digitsOf n = [digitChar n] := by
  have every : ∀ n < 10, digitsOf n = [digitChar n] := by decide
  exact every n small

theorem digitsOf_step {n : Nat} (more : 10 ≤ n) :
    digitsOf n = digitsOf (n / 10) ++ [digitChar (n % 10)] := by
  have positive : 0 < n := by omega
  have positive' : 0 < n / 10 := by omega
  rw [digitsOf, digitsOf, if_neg positive.ne', if_neg positive'.ne',
    Nat.digits_def' (by norm_num) positive, List.map_cons, List.reverse_cons]

theorem zeroPadded_eq {n : Nat} (small : n < 10000) :
    zeroPadded 4 n = [n / 1000, n / 100 % 10, n / 10 % 10, n % 10].map digitChar := by
  have zero : digitChar 0 = '0' := rfl
  rw [zeroPadded]
  by_cases one : n < 10
  · rw [digitsOf_of_lt one]
    simp [zero, Nat.div_eq_of_lt one, Nat.mod_eq_of_lt one, show n / 1000 = 0 by omega,
      show n / 100 = 0 by omega, List.replicate_succ]
  rw [digitsOf_step (by omega)]
  by_cases two : n < 100
  · rw [digitsOf_of_lt (by omega)]
    simp [zero, show n / 1000 = 0 by omega, show n / 100 = 0 by omega, List.replicate_succ,
      show n / 10 % 10 = n / 10 by omega]
  rw [digitsOf_step (by omega)]
  by_cases three : n < 1000
  · rw [digitsOf_of_lt (by omega)]
    simp [zero, Nat.div_div_eq_div_mul, show n / 1000 = 0 by omega, List.replicate_succ,
      show n / 100 % 10 = n / 100 by omega]
  rw [digitsOf_step (by omega), digitsOf_of_lt (by omega)]
  simp [Nat.div_div_eq_div_mul]

theorem digitChar_lt {a b : Nat} (small : a < 10) (small' : b < 10) (lt : a < b) :
    digitChar a < digitChar b := by
  have every : ∀ a < 10, ∀ b < 10, a < b → digitChar a < digitChar b := by decide
  exact every a small b small' lt

theorem zeroPadded_lt {n m : Nat} (small : m < 10000) (lt : n < m) :
    zeroPadded 4 n < zeroPadded 4 m := by
  rw [zeroPadded_eq (lt.trans small), zeroPadded_eq small]
  simp only [List.map_cons, List.map_nil, List.cons_lt_cons_iff, List.lt_irrefl, and_false, or_false]
  -- the first digit that differs is smaller
  by_cases thousands : n / 1000 = m / 1000
  · by_cases hundreds : n / 100 % 10 = m / 100 % 10
    · by_cases tens : n / 10 % 10 = m / 10 % 10
      · rw [thousands, hundreds, tens]
        exact .inr ⟨rfl, .inr ⟨rfl, .inr ⟨rfl, digitChar_lt (by omega) (by omega) (by omega)⟩⟩⟩
      · rw [thousands, hundreds]
        exact .inr ⟨rfl, .inr ⟨rfl, .inl (digitChar_lt (by omega) (by omega) (by omega))⟩⟩
    · rw [thousands]
      exact .inr ⟨rfl, .inl (digitChar_lt (by omega) (by omega) (by omega))⟩
  · exact .inl (digitChar_lt (by omega) (by omega) (by omega))

theorem length_zeroPadded {n : Nat} (small : n < 10000) : (zeroPadded 4 n).length = 4 := by
  rw [zeroPadded_eq small]
  rfl

theorem append_lt_append {t u : Text} (same : t.length = u.length) (lt : t < u) (rest rest' : Text) :
    t ++ rest < u ++ rest' := by
  induction t generalizing u with
  | nil =>
    rw [List.length_nil, eq_comm, List.length_eq_zero_iff] at same
    rw [same] at lt
    exact absurd lt (List.lt_irrefl _)
  | cons c t ih =>
    cases u with
    | nil => cases same
    | cons d u =>
      rw [List.cons_append, List.cons_append, List.cons_lt_cons_iff]
      refine (List.cons_lt_cons_iff.mp lt).imp_right fun ⟨head, tail⟩ => ⟨head, ?_⟩
      exact ih (Nat.succ.inj same) tail

theorem append_left_lt (t : Text) {u v : Text} (lt : u < v) : t ++ u < t ++ v := by
  induction t with
  | nil => exact lt
  | cons c t ih => exact List.cons_lt_cons_iff.mpr (.inr ⟨rfl, ih⟩)

theorem ofDigits_zeroPadded (width n : Nat) :
    Nat.ofDigits 10 ((zeroPadded width n).reverse.map digitValue) = n := by
  have zero : digitValue '0' = 0 := rfl
  rw [zeroPadded, List.reverse_append, List.map_append, List.reverse_replicate, List.map_replicate,
    zero, Nat.ofDigits_append_replicate_zero]
  exact (digitsOf_spec n).2.2

theorem zeroPadded_injective (width : Nat) : Function.Injective (zeroPadded width) := by
  intro n m same
  rw [← ofDigits_zeroPadded width n, same, ofDigits_zeroPadded]

theorem underscore_not_mem (width n : Nat) : '_' ∉ zeroPadded width n := by
  intro member
  rcases List.mem_append.mp member with padding | digit
  · exact absurd (List.eq_of_mem_replicate padding) (by decide)
  · exact absurd ((digitsOf_spec n).2.1 _ digit) (by decide)

theorem partName_injective : Function.Injective partName := by
  intro seq seq' same
  exact zeroPadded_injective 4 (List.append_cancel_left (List.append_cancel_right same))

theorem rangeName_injective {stem : Text} {span span' : Nat × Nat}
    (same : rangeName stem span.1 span.2 = rangeName stem span'.1 span'.2) : span = span' := by
  simp only [rangeName, List.append_assoc, List.cons_append] at same
  have numbers := append_separator_inj (underscore_not_mem 4 span.1) (underscore_not_mem 4 span'.1)
    (List.append_cancel_left same)
  exact Prod.ext (zeroPadded_injective 4 numbers.1)
    (zeroPadded_injective 4 (List.append_cancel_right numbers.2))

theorem partName_ne_stashedMerge (seq first last : Nat) : partName seq ≠ stashedMerge first last := by
  intro same
  have heads := congrArg List.head? same
  simp [partName, stashedMerge, rangeName] at heads

/-- The numbers of the parts a file stands for. -/
abbrev Span := Nat × Nat

def spanName (span : Span) : Text :=
  if span.1 = span.2 then partName span.1 else mergedName span.1 span.2

theorem spanName_eq (span : Span) :
    ∃ rest, spanName span = "part_".toList ++ (zeroPadded 4 span.1 ++ rest) := by
  by_cases single : span.1 = span.2
  · exact ⟨parquetSuffix, by rw [spanName, if_pos single, partName, List.append_assoc]⟩
  · refine ⟨'_' :: zeroPadded 4 span.2 ++ parquetSuffix, ?_⟩
    rw [spanName, if_neg single, mergedName, rangeName]
    simp only [List.append_assoc, List.cons_append]

theorem spanName_lt {span span' : Span} (small : span'.1 < 10000) (lt : span.1 < span'.1) :
    spanName span < spanName span' := by
  obtain ⟨rest, name⟩ := spanName_eq span
  obtain ⟨rest', name'⟩ := spanName_eq span'
  rw [name, name']
  have sizes : (zeroPadded 4 span.1).length = (zeroPadded 4 span'.1).length := by
    rw [length_zeroPadded (lt.trans small), length_zeroPadded small]
  exact append_left_lt _ (append_lt_append sizes (zeroPadded_lt small lt) rest rest')

theorem partName_ne_mergedName (seq first last : Nat) : partName seq ≠ mergedName first last := by
  intro same
  have member : '_' ∈ zeroPadded 4 seq ++ parquetSuffix := by
    simp only [partName, mergedName, rangeName, List.append_assoc] at same
    rw [List.append_cancel_left same]
    simp
  rcases List.mem_append.mp member with number | suffix
  · exact underscore_not_mem 4 seq number
  · exact absurd suffix (by decide)

theorem spanName_self (seq : Nat) : spanName (seq, seq) = partName seq := if_pos rfl

theorem spanName_injective : Function.Injective spanName := by
  rintro ⟨first, last⟩ ⟨first', last'⟩ same
  by_cases single : first = last
  · subst single
    rw [spanName_self] at same
    by_cases single' : first' = last'
    · subst single'
      rw [spanName_self] at same
      rw [partName_injective same]
    · rw [spanName, if_neg single'] at same
      exact absurd same (partName_ne_mergedName _ _ _)
  · rw [spanName, if_neg single] at same
    by_cases single' : first' = last'
    · subst single'
      rw [spanName_self] at same
      exact absurd same.symm (partName_ne_mergedName _ _ _)
    · rw [spanName, if_neg single'] at same
      exact @rangeName_injective _ (first, last) (first', last') same

end Timeview

end AutoTrade
