import Mathlib.Algebra.Order.Floor.Ring
import Mathlib.Data.Int.Log
import Mathlib.Data.List.TakeWhile
import Mathlib.Data.Nat.Digits.Lemmas
import Mathlib.Data.Rat.Floor
import Mathlib.Tactic.FieldSimp
import Mathlib.Tactic.Linarith
import Mathlib.Tactic.Positivity
import Mathlib.Tactic.Ring

/-!
# Decimal numbers

A sign, a coefficient and a power of ten. A context rounds the coefficient half-even to its
precision, and to the multiples of its smallest power of ten; the form without trailing zeros
is unique, so that two numbers have one exactly if they have one sign and are rounded to one
magnitude.
-/

namespace AutoTrade

structure Decimal where
  negative : Bool
  coefficient : Nat
  exponent : Int
  deriving DecidableEq

/-- A precision, and the range of the exponent of a number's first digit. -/
structure DecimalContext where
  precision : Nat
  emin : Int
  emax : Int
  positive : 0 < precision
  ordered : emin ≤ emax

/-- How many times `p` is nearest to `n`; a tie goes to the even one. -/
def halfEven (n p : Nat) : Nat :=
  if 2 * (n % p) < p ∨ 2 * (n % p) = p ∧ n / p % 2 = 0 then n / p else n / p + 1

/-- The nearest integer; a tie goes to the even one. -/
def nearest (x : ℚ) : Int :=
  if 2 * Int.fract x < 1 ∨ 2 * Int.fract x = 1 ∧ ⌊x⌋ % 2 = 0 then ⌊x⌋ else ⌊x⌋ + 1

theorem floor_le_nearest (x : ℚ) : ⌊x⌋ ≤ nearest x := by
  unfold nearest
  split <;> omega

@[simp] theorem nearest_intCast (n : Int) : nearest n = n := by
  simp [nearest]

theorem nearest_div {p : Nat} (positive : 0 < p) (n : Nat) :
    nearest (n / p) = halfEven n p := by
  have floor : ⌊(n / p : ℚ)⌋ = (n / p : Nat) := Rat.floor_natCast_div_natCast n p
  have fract : Int.fract (n / p : ℚ) = (n % p : Nat) / p :=
    Int.fract_div_natCast_eq_div_natCast_mod
  have below : 2 * ((n % p : Nat) / p : ℚ) < 1 ↔ 2 * (n % p) < p := by
    rw [← mul_div_assoc, div_lt_one (by positivity)]
    exact_mod_cast Iff.rfl
  have tie : 2 * ((n % p : Nat) / p : ℚ) = 1 ↔ 2 * (n % p) = p := by
    rw [← mul_div_assoc, div_eq_one_iff_eq (by positivity)]
    exact_mod_cast Iff.rfl
  have even : ((n / p : Nat) : Int) % 2 = 0 ↔ n / p % 2 = 0 := by omega
  unfold nearest halfEven
  simp only [fract, below, tie, floor, even]
  split <;> push_cast <;> rfl

namespace DecimalContext

variable (context : DecimalContext)

/-- The least exponent of a last digit. -/
def etiny : Int := context.emin - context.precision + 1

/-- The exponent of the last digit a magnitude keeps. -/
def quantum (x : ℚ) : Int := max (Int.log 10 x - context.precision + 1) context.etiny

/-- A magnitude rounded half-even to the precision. -/
def round (x : ℚ) : ℚ := nearest (x / 10 ^ context.quantum x) * 10 ^ context.quantum x

/-- The first magnitude out of range. -/
def limit : ℚ := 10 ^ (context.emax + 1)

end DecimalContext

theorem ten_zpow_pos (k : Int) : (0 : ℚ) < 10 ^ k := zpow_pos (by norm_num) k

theorem ten_zpow_of_le {k l : Int} (le : l ≤ k) :
    (10 : ℚ) ^ k = (10 ^ (k - l).toNat : Nat) * 10 ^ l := by
  have exponent : ((k - l).toNat : Int) + l = k := by omega
  calc (10 : ℚ) ^ k = 10 ^ (((k - l).toNat : Int) + l) := by rw [exponent]
    _ = 10 ^ ((k - l).toNat : Int) * 10 ^ l := zpow_add₀ (by norm_num) _ _
    _ = (10 ^ (k - l).toNat : Nat) * 10 ^ l := by push_cast; rw [zpow_natCast]

namespace DecimalContext

variable {context : DecimalContext} {x : ℚ} {k : Int}

theorem round_of_multiple {n : Nat} (le : context.quantum x ≤ k) (multiple : x = n * 10 ^ k) :
    context.round x = x := by
  have whole : x / 10 ^ context.quantum x = ((n * 10 ^ (k - context.quantum x).toNat : Nat) : Int) := by
    have power := ten_zpow_of_le le
    rw [div_eq_iff (ten_zpow_pos _).ne']
    calc x = n * 10 ^ k := multiple
      _ = _ := by rw [power]; push_cast; ring
  rw [round, whole, nearest_intCast, ← whole, div_mul_cancel₀ _ (ten_zpow_pos _).ne']

@[simp] theorem round_zero : context.round 0 = 0 := by
  have here := nearest_intCast 0
  simp only [Int.cast_zero] at here
  simp [round, here]

theorem le_round (le : context.quantum x ≤ k) (large : (10 : ℚ) ^ k ≤ x) :
    (10 : ℚ) ^ k ≤ context.round x := by
  rw [ten_zpow_of_le le] at large ⊢
  have below := ten_zpow_pos (context.quantum x)
  have quotient : ((10 ^ (k - context.quantum x).toNat : Nat) : ℚ) ≤ x / 10 ^ context.quantum x :=
    (le_div_iff₀ below).mpr large
  have floor : ((10 ^ (k - context.quantum x).toNat : Nat) : Int) ≤ ⌊x / 10 ^ context.quantum x⌋ := by
    apply Int.le_floor.mpr
    exact_mod_cast quotient
  have rounded := floor.trans (floor_le_nearest _)
  unfold round
  gcongr
  exact_mod_cast rounded

end DecimalContext

namespace Decimal

/-- The number without its sign. -/
def magnitude (d : Decimal) : ℚ := d.coefficient * 10 ^ d.exponent

/-- The number. -/
def value (d : Decimal) : ℚ := if d.negative then -d.magnitude else d.magnitude

/-- The exponent of the first digit. -/
def adjusted (d : Decimal) : Int := d.exponent + Nat.log 10 d.coefficient

/-- The number with its last digit at a power of ten. -/
def roundedTo (quantum : Int) (d : Decimal) : Decimal :=
  ⟨d.negative, halfEven d.coefficient (10 ^ (quantum - d.exponent).toNat), quantum⟩

/-- The number in the precision of a context; none where it is out of range. -/
def fix (context : DecimalContext) (d : Decimal) : Option Decimal :=
  let quantum := max (d.adjusted - context.precision + 1) context.etiny
  if d.coefficient = 0 then some d
  else if context.emax < d.adjusted then none
  else if d.exponent < quantum then
    let rounded := d.roundedTo quantum
    if context.emax < rounded.adjusted then none else some rounded
  else some d

def trailingZeros (n : Nat) : Nat := ((Nat.digits 10 n).takeWhile (· = 0)).length

/-- The number without trailing zeros. -/
def reduce (d : Decimal) : Decimal :=
  if d.coefficient = 0 then ⟨d.negative, 0, 0⟩
  else
    let zeros := trailingZeros d.coefficient
    ⟨d.negative, d.coefficient / 10 ^ zeros, d.exponent + zeros⟩

/-- Rounded, and without trailing zeros. -/
def normalize (context : DecimalContext) (d : Decimal) : Option Decimal :=
  (d.fix context).map reduce

/-- The form a number has once. -/
def Reduced (d : Decimal) : Prop := d.coefficient = 0 ∧ d.exponent = 0 ∨ ¬ 10 ∣ d.coefficient

section Fix

variable {context : DecimalContext} {d r : Decimal}

theorem magnitude_pos (filled : d.coefficient ≠ 0) : 0 < d.magnitude := by
  have coefficient : (0 : ℚ) < d.coefficient := by exact_mod_cast Nat.pos_of_ne_zero filled
  exact mul_pos coefficient (ten_zpow_pos _)

@[simp] theorem magnitude_eq_zero : d.magnitude = 0 ↔ d.coefficient = 0 := by
  simp [magnitude, (ten_zpow_pos _).ne']

theorem magnitude_nonneg (d : Decimal) : 0 ≤ d.magnitude :=
  mul_nonneg (Nat.cast_nonneg _) (ten_zpow_pos _).le

@[simp] theorem value_eq_zero : d.value = 0 ↔ d.magnitude = 0 := by
  unfold value
  split <;> simp

theorem value_eq_iff : d.value = r.value ↔
    d.magnitude = r.magnitude ∧ (d.negative = r.negative ∨ d.magnitude = 0) := by
  have first := magnitude_nonneg d
  have second := magnitude_nonneg r
  unfold value
  constructor
  · intro same
    cases sign : d.negative <;> cases sign' : r.negative <;> simp only [sign, sign'] at same
    · exact ⟨same, .inl rfl⟩
    · simp only [Bool.false_eq_true, if_false, if_true] at same
      exact ⟨by linarith, .inr (by linarith)⟩
    · simp only [Bool.false_eq_true, if_false, if_true] at same
      exact ⟨by linarith, .inr (by linarith)⟩
    · exact ⟨neg_inj.mp same, .inl rfl⟩
  · rintro ⟨same, sign | zero⟩
    · rw [same, sign]
    · rw [← same, zero]
      simp

theorem log_magnitude (filled : d.coefficient ≠ 0) : Int.log 10 d.magnitude = d.adjusted := by
  have log := Int.log_natCast (R := ℚ) 10 d.coefficient
  have positive : (0 : ℚ) < d.coefficient := by exact_mod_cast Nat.pos_of_ne_zero filled
  have low := Int.zpow_log_le_self (b := 10) (by norm_num) positive
  have high := Int.lt_zpow_succ_log_self (b := 10) (by norm_num) (d.coefficient : ℚ)
  have power := ten_zpow_pos d.exponent
  rw [log] at low high
  push_cast at low high
  apply le_antisymm
  · apply Int.lt_add_one_iff.mp
    apply (Int.lt_zpow_iff_log_lt (by norm_num) (magnitude_pos filled)).mp
    calc d.magnitude < 10 ^ ((Nat.log 10 d.coefficient : Int) + 1) * 10 ^ d.exponent :=
          mul_lt_mul_of_pos_right high power
      _ = _ := by rw [← zpow_add₀ (by norm_num), adjusted]; push_cast; congr 1; ring
  · apply (Int.zpow_le_iff_le_log (by norm_num) (magnitude_pos filled)).mp
    calc ((10 : Nat) : ℚ) ^ d.adjusted = 10 ^ (Nat.log 10 d.coefficient : Int) * 10 ^ d.exponent := by
          rw [← zpow_add₀ (by norm_num), adjusted, add_comm]; push_cast; rfl
      _ ≤ d.magnitude := mul_le_mul_of_nonneg_right low power.le

theorem limit_le_magnitude (filled : d.coefficient ≠ 0) :
    context.limit ≤ d.magnitude ↔ context.emax < d.adjusted := by
  have iff := Int.zpow_le_iff_le_log (b := 10) (x := context.emax + 1) (by norm_num)
    (magnitude_pos filled)
  rw [log_magnitude filled] at iff
  unfold DecimalContext.limit
  exact iff.trans Int.add_one_le_iff

variable (context) in
theorem quantum_magnitude (filled : d.coefficient ≠ 0) :
    context.quantum d.magnitude = max (d.adjusted - context.precision + 1) context.etiny := by
  rw [DecimalContext.quantum, log_magnitude filled]

theorem adjusted_of_empty (empty : d.coefficient = 0) : d.adjusted = d.exponent := by
  simp [adjusted, empty]

theorem lt_limit (range : d.adjusted ≤ context.emax) : d.magnitude < context.limit := by
  by_cases empty : d.coefficient = 0
  · rw [magnitude_eq_zero.mpr empty]
    exact ten_zpow_pos _
  · exact lt_of_not_ge (mt (limit_le_magnitude empty).mp range.not_gt)

theorem magnitude_roundedTo {quantum : Int} (here : quantum = context.quantum d.magnitude)
    (long : d.exponent < quantum) :
    (d.roundedTo quantum).magnitude = context.round d.magnitude := by
  have power := ten_zpow_of_le long.le
  have positive : 0 < 10 ^ (quantum - d.exponent).toNat := by positivity
  have quotient : d.magnitude / 10 ^ quantum =
      d.coefficient / (10 ^ (quantum - d.exponent).toNat : Nat) := by
    rw [power, magnitude, mul_div_mul_right _ _ (ten_zpow_pos _).ne']
  rw [DecimalContext.round, ← here, quotient, nearest_div positive, Int.cast_natCast]
  rfl

theorem fix_of_filled (filled : d.coefficient ≠ 0) {quantum : Int}
    (here : quantum = context.quantum d.magnitude) :
    d.fix context = if context.emax < d.adjusted then none
      else if d.exponent < quantum then
        if context.emax < (d.roundedTo quantum).adjusted then none else some (d.roundedTo quantum)
      else some d := by
  rw [here, quantum_magnitude context filled]
  simp only [fix, if_neg filled]

theorem fix_eq_some (fixed : d.fix context = some r) :
    r.negative = d.negative ∧ r.magnitude = context.round d.magnitude ∧
      r.magnitude < context.limit := by
  by_cases filled : d.coefficient = 0
  · have zero : d.magnitude = 0 := magnitude_eq_zero.mpr filled
    simp only [fix, if_pos filled, Option.some.injEq] at fixed
    rw [← fixed, zero, DecimalContext.round_zero]
    exact ⟨rfl, rfl, ten_zpow_pos _⟩
  · generalize here : context.quantum d.magnitude = quantum
    rw [fix_of_filled filled here.symm] at fixed
    simp only [Option.ite_none_left_eq_some, not_lt] at fixed
    have ⟨range, fixed⟩ := fixed
    by_cases long : d.exponent < quantum
    · simp only [if_pos long, Option.ite_none_left_eq_some, Option.some.injEq, not_lt] at fixed
      have ⟨range', same⟩ := fixed
      subst same
      exact ⟨rfl, magnitude_roundedTo here.symm long, lt_limit range'⟩
    · simp only [if_neg long, Option.some.injEq] at fixed
      subst fixed
      have whole := DecimalContext.round_of_multiple (here ▸ not_lt.mp long) rfl
      exact ⟨rfl, whole.symm, lt_limit range⟩

theorem fix_eq_none (fixed : d.fix context = none) : context.limit ≤ context.round d.magnitude := by
  have positive := context.positive
  have ordered := context.ordered
  by_cases filled : d.coefficient = 0
  · simp [fix, filled] at fixed
  · have quantum' := quantum_magnitude context filled
    generalize here : context.quantum d.magnitude = quantum at quantum'
    rw [fix_of_filled filled here.symm] at fixed
    unfold DecimalContext.etiny at quantum'
    by_cases range : context.emax < d.adjusted
    · have first : (10 : ℚ) ^ d.adjusted ≤ d.magnitude := by
        have log := Int.zpow_log_le_self (b := 10) (by norm_num) (magnitude_pos filled)
        rw [log_magnitude filled] at log
        exact_mod_cast log
      calc context.limit ≤ 10 ^ d.adjusted := zpow_le_zpow_right₀ (by norm_num) (by omega)
        _ ≤ context.round d.magnitude := DecimalContext.le_round (by omega) first
    · by_cases long : d.exponent < quantum
      · have beyond : context.emax < (d.roundedTo quantum).adjusted := by
          by_contra inside
          simp [range, long, inside] at fixed
        rw [← magnitude_roundedTo here.symm long]
        apply (limit_le_magnitude ?_).mpr beyond
        intro empty
        have exponent := adjusted_of_empty empty
        rw [exponent] at beyond
        change context.emax < quantum at beyond
        omega
      · simp [range, long] at fixed

variable (context) in
theorem magnitude_lt (filled : d.coefficient ≠ 0) :
    d.magnitude < (10 ^ context.precision : Nat) * 10 ^ context.quantum d.magnitude := by
  have log := Int.lt_zpow_succ_log_self (b := 10) (by norm_num) d.magnitude
  have quantum := quantum_magnitude context filled
  rw [log_magnitude filled] at log
  calc d.magnitude < 10 ^ (d.adjusted + 1) := by exact_mod_cast log
    _ ≤ 10 ^ ((context.precision : Int) + context.quantum d.magnitude) :=
      zpow_le_zpow_right₀ (by norm_num) (by omega)
    _ = _ := by rw [zpow_add₀ (by norm_num), zpow_natCast]; push_cast; rfl

theorem fix_bounds (fixed : d.fix context = some r) (filled : r.coefficient ≠ 0) :
    r.coefficient ≤ 10 ^ context.precision ∧ context.etiny ≤ r.exponent := by
  by_cases empty : d.coefficient = 0
  · simp only [fix, if_pos empty, Option.some.injEq] at fixed
    exact absurd (fixed ▸ empty) filled
  · have below := magnitude_lt context empty
    have quantum' := quantum_magnitude context empty
    generalize here : context.quantum d.magnitude = quantum at below quantum'
    rw [fix_of_filled empty here.symm] at fixed
    simp only [Option.ite_none_left_eq_some, not_lt] at fixed
    have ⟨_, fixed⟩ := fixed
    have tiny : context.etiny ≤ quantum := quantum' ▸ le_max_right _ _
    by_cases long : d.exponent < quantum
    · simp only [if_pos long, Option.ite_none_left_eq_some, Option.some.injEq, not_lt] at fixed
      have ⟨_, same⟩ := fixed
      subst same
      refine ⟨?_, tiny⟩
      rw [ten_zpow_of_le long.le, ← mul_assoc] at below
      have cancelled := lt_of_mul_lt_mul_right below (ten_zpow_pos d.exponent).le
      have kept : d.coefficient < 10 ^ context.precision * 10 ^ (quantum - d.exponent).toNat := by
        exact_mod_cast cancelled
      have quotient := Nat.div_lt_of_lt_mul (Nat.mul_comm _ _ ▸ kept)
      change halfEven _ _ ≤ _
      unfold halfEven
      split <;> omega
    · simp only [if_neg long, Option.some.injEq] at fixed
      subst fixed
      rw [magnitude, ten_zpow_of_le (not_lt.mp long), ← mul_assoc] at below
      have cancelled := lt_of_mul_lt_mul_right below (ten_zpow_pos quantum).le
      have kept : d.coefficient * 10 ^ (d.exponent - quantum).toNat < 10 ^ context.precision := by
        exact_mod_cast cancelled
      have once : d.coefficient ≤ d.coefficient * 10 ^ (d.exponent - quantum).toNat :=
        Nat.le_mul_of_pos_right _ (by positivity)
      exact ⟨(once.trans_lt kept).le, tiny.trans (not_lt.mp long)⟩

end Fix

section Reduce

variable {context : DecimalContext} {d n n' : Decimal}

theorem trailingZeros_spec {n : Nat} (filled : n ≠ 0) :
    n = n / 10 ^ trailingZeros n * 10 ^ trailingZeros n ∧ ¬ 10 ∣ n / 10 ^ trailingZeros n := by
  have digits := List.takeWhile_append_dropWhile (p := (· = 0)) (l := Nat.digits 10 n)
  have zeros : (Nat.digits 10 n).takeWhile (· = 0) = List.replicate (trailingZeros n) 0 :=
    List.eq_replicate_iff.mpr ⟨rfl, fun d member => by simpa using (List.mem_takeWhile_imp member)⟩
  generalize left : (Nat.digits 10 n).dropWhile (· = 0) = rest at digits
  have split : n = Nat.ofDigits 10 rest * 10 ^ trailingZeros n := by
    conv_lhs => rw [← Nat.ofDigits_digits 10 n, ← digits, zeros, Nat.ofDigits_append]
    simp [mul_comm]
  have quotient : n / 10 ^ trailingZeros n = Nat.ofDigits 10 rest :=
    Nat.div_eq_of_eq_mul_left (by positivity) split
  rw [quotient]
  refine ⟨split, ?_⟩
  cases rest with
  | nil => exact absurd (by simpa using split) filled
  | cons first rest =>
    have member : first ∈ Nat.digits 10 n := by
      rw [← digits]
      simp
    have small := Nat.digits_lt_base (by norm_num) member
    have visible : first ≠ 0 := by
      have head := List.head_dropWhile_not (p := (· = 0)) (l := Nat.digits 10 n) (by rw [left]; simp)
      simpa [left] using head
    rw [Nat.ofDigits_cons]
    omega

theorem reduced_reduce (d : Decimal) : d.reduce.Reduced := by
  unfold reduce
  split
  · exact .inl ⟨rfl, rfl⟩
  · rename_i filled
    exact .inr (trailingZeros_spec filled).2

@[simp] theorem negative_reduce (d : Decimal) : d.reduce.negative = d.negative := by
  unfold reduce
  split <;> rfl

@[simp] theorem magnitude_reduce (d : Decimal) : d.reduce.magnitude = d.magnitude := by
  unfold reduce
  split
  · rename_i empty
    simp [magnitude, empty]
  · rename_i filled
    have split := (trailingZeros_spec filled).1
    unfold magnitude
    conv_rhs => rw [split]
    push_cast
    rw [zpow_add₀ (by norm_num), zpow_natCast]
    ring

theorem Reduced.eq (reduced : n.Reduced) (reduced' : n'.Reduced) (sign : n.negative = n'.negative)
    (same : n.magnitude = n'.magnitude) : n = n' := by
  have empty : n.coefficient = 0 ↔ n'.coefficient = 0 := by
    rw [← magnitude_eq_zero, same, magnitude_eq_zero]
  by_cases zero : n.coefficient = 0
  · have zero' := empty.mp zero
    have exponent := reduced.resolve_right (by simp [zero])
    have exponent' := reduced'.resolve_right (by simp [zero'])
    rw [Decimal.mk.injEq]
    exact ⟨sign, by rw [zero, zero'], by rw [exponent.2, exponent'.2]⟩
  · have last := reduced.resolve_left (by simp [zero])
    have last' := reduced'.resolve_left (by simp [mt empty.mpr zero])
    have cases (a b : Decimal) (low : a.exponent ≤ b.exponent) (last : ¬ 10 ∣ a.coefficient)
        (same : a.magnitude = b.magnitude) : a.exponent = b.exponent ∧ a.coefficient = b.coefficient := by
      have coefficient : a.coefficient = b.coefficient * 10 ^ (b.exponent - a.exponent).toNat := by
        rw [magnitude, magnitude, ten_zpow_of_le low, ← mul_assoc] at same
        have cancelled := mul_right_cancel₀ (ten_zpow_pos a.exponent).ne' same
        exact_mod_cast cancelled
      have level : (b.exponent - a.exponent).toNat = 0 := by
        by_contra higher
        apply last
        rw [coefficient]
        exact (dvd_pow_self 10 higher).mul_left _
      rw [level, pow_zero, mul_one] at coefficient
      exact ⟨by omega, coefficient⟩
    rw [Decimal.mk.injEq]
    rcases le_total n.exponent n'.exponent with low | low
    · have ⟨exponent, coefficient⟩ := cases n n' low last same
      exact ⟨sign, coefficient, exponent⟩
    · have ⟨exponent, coefficient⟩ := cases n' n low last' same.symm
      exact ⟨sign, coefficient.symm, exponent.symm⟩

theorem exponent_le_reduce (filled : d.coefficient ≠ 0) : d.exponent ≤ d.reduce.exponent := by
  simp [reduce, filled]

/-- What a context leaves of a number. -/
structure Normal (context : DecimalContext) (n : Decimal) : Prop where
  reduced : n.Reduced
  short : n.coefficient < 10 ^ context.precision
  tiny : n.coefficient ≠ 0 → context.etiny ≤ n.exponent
  range : n.magnitude < context.limit

theorem normalize_eq_some (normalized : d.normalize context = some n) :
    n.negative = d.negative ∧ n.magnitude = context.round d.magnitude ∧ n.Normal context := by
  have ⟨r, fixed, reduced⟩ := Option.map_eq_some_iff.mp normalized
  subst reduced
  have ⟨sign, rounded, range⟩ := fix_eq_some fixed
  have form := reduced_reduce r
  refine ⟨by rw [negative_reduce, sign], by rw [magnitude_reduce, rounded], form, ?_, ?_,
    by rwa [magnitude_reduce]⟩
  · by_cases empty : r.coefficient = 0
    · simp [reduce, empty]
    · have ⟨digits, _⟩ := fix_bounds fixed empty
      have ⟨split, last⟩ := trailingZeros_spec empty
      have coefficient : r.reduce.coefficient = r.coefficient / 10 ^ trailingZeros r.coefficient := by
        simp [reduce, empty]
      have most := (Nat.div_le_self r.coefficient (10 ^ trailingZeros r.coefficient)).trans digits
      rw [← coefficient] at most last
      apply lt_of_le_of_ne most
      intro whole
      exact last (whole ▸ dvd_pow_self 10 context.positive.ne')
  · intro filled
    have empty : r.coefficient ≠ 0 := by
      rintro empty
      simp [reduce, empty] at filled
    exact (fix_bounds fixed empty).2.trans (exponent_le_reduce empty)

theorem normalize_isSome : (d.normalize context).isSome ↔ context.round d.magnitude < context.limit := by
  unfold normalize
  rw [Option.isSome_map]
  cases fixed : d.fix context with
  | none => simpa using fix_eq_none fixed
  | some r =>
    have ⟨_, rounded, range⟩ := fix_eq_some fixed
    simpa [← rounded] using range

theorem round_of_short (short : n.coefficient < 10 ^ context.precision)
    (tiny : n.coefficient ≠ 0 → context.etiny ≤ n.exponent) :
    context.round n.magnitude = n.magnitude := by
  by_cases empty : n.coefficient = 0
  · rw [magnitude_eq_zero.mpr empty, DecimalContext.round_zero]
  · have quantum := quantum_magnitude context empty
    have tiny := tiny empty
    have digits : Nat.log 10 n.coefficient < context.precision := Nat.log_lt_of_lt_pow empty short
    unfold adjusted at quantum
    exact DecimalContext.round_of_multiple (by omega) rfl

theorem Normal.round (normal : n.Normal context) : context.round n.magnitude = n.magnitude :=
  round_of_short normal.short normal.tiny

theorem normalize_eq_of_round {d' : Decimal} (normalized : d.normalize context = some n)
    (sign : d'.negative = d.negative) (same : context.round d'.magnitude = context.round d.magnitude) :
    d'.normalize context = some n := by
  have ⟨negative, rounded, normal⟩ := normalize_eq_some normalized
  have ranged : (d'.normalize context).isSome := by
    rw [normalize_isSome, same, ← rounded]
    exact normal.range
  have ⟨n', normalized'⟩ := Option.isSome_iff_exists.mp ranged
  have ⟨negative', rounded', normal'⟩ := normalize_eq_some normalized'
  rw [normalized', normal'.reduced.eq normal.reduced (by rw [negative', sign, negative])
    (by rw [rounded', same, rounded])]

theorem Normal.normalize {d' : Decimal} (normalized : d.normalize context = some n)
    (sign : d'.negative = n.negative) (same : d'.magnitude = n.magnitude) :
    d'.normalize context = some n := by
  have ⟨negative, rounded, normal⟩ := normalize_eq_some normalized
  apply normalize_eq_of_round normalized (sign.trans negative)
  rw [same, normal.round, rounded]

end Reduce

end Decimal

end AutoTrade
