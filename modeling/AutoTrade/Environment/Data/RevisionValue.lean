import AutoTrade.Common.Json
import AutoTrade.Common.Lines
import AutoTrade.Misc.Decimals

/-!
# Canonical revision values

`autotrade/environment/data/pit.py`, `canonical_revision_value`: the one text a cell is compared
in. Python's `Decimal(text)` reads the numbers, `normalize` and `format(…, "f")` write them.
-/

namespace AutoTrade

namespace RevisionValue

open JsonNumber (digitChar digitsOf)

/-- The characters Unicode has for the decimal digits, with their values. -/
structure DecimalDigits where
  value : Char → Option Nat
  ascii : ∀ c : Char, c.toNat < 128 →
    value c = if c.isDigit then some (c.toNat - '0'.toNat) else none

/-- A table of no digits beyond ASCII. -/
def asciiDigits : DecimalDigits where
  value c := if c.toNat < 128 ∧ c.isDigit then some (c.toNat - '0'.toNat) else none
  ascii c ascii := by simp [ascii]

variable (digits : DecimalDigits)

def splitSign : Text → Bool × Text
  | '-' :: t => (true, t)
  | '+' :: t => (false, t)
  | t => (false, t)

def isExponentMark (c : Char) : Bool := c = 'e' || c = 'E'

/-- The digits behind an exponent mark, or nothing at all. -/
def readExponent : Text → Option Int
  | [] => some 0
  | _ :: t =>
    let signed := splitSign t
    if signed.2 = [] then none
    else (signed.2.mapM digits.value).map fun exponent =>
      if signed.1 then -Nat.ofDigits 10 exponent.reverse else Nat.ofDigits 10 exponent.reverse

/-- A finite number; underscores count for nothing. -/
def readDecimal (t : Text) : Option Decimal := do
  let signed := splitSign (t.filter (· ≠ '_'))
  let mantissa := signed.2.takeWhile (!isExponentMark ·)
  let whole ← (mantissa.takeWhile (· ≠ '.')).mapM digits.value
  let fraction ← ((mantissa.dropWhile (· ≠ '.')).drop 1).mapM digits.value
  let exponent ← readExponent digits (signed.2.dropWhile (!isExponentMark ·))
  if whole ++ fraction = [] then none
  else some ⟨signed.1, Nat.ofDigits 10 (whole ++ fraction).reverse, exponent - fraction.length⟩

/-- `decimal.MAX_EMAX` and `decimal.MIN_ETINY`, between which `Decimal` keeps a number. -/
def maxEmax : Int := 999999999999999999

def minEtiny : Int := -1999999999999999997

def withinLimits (d : Decimal) : Bool := d.adjusted ≤ maxEmax && minEtiny ≤ d.exponent

/-- The context `decimal` starts with. -/
def defaultContext : DecimalContext := ⟨28, -999999, 999999, by decide, by decide⟩

/-- `format(number, "f")`. -/
def fixedPoint (d : Decimal) : Text :=
  let written := digitsOf (d.coefficient * 10 ^ d.exponent.toNat)
  let places := (-d.exponent).toNat
  let padded := List.replicate (places + 1 - written.length) '0' ++ written
  (if d.negative then ['-'] else []) ++
    if places = 0 then written
    else padded.take (padded.length - places) ++ '.' :: padded.drop (padded.length - places)

/-- `text.rstrip("0").rstrip(".")` of a text that has a point. -/
def trimZeros (t : Text) : Text :=
  if '.' ∈ t then (t.rdropWhile (· = '0')).rdropWhile (· = '.') else t

/-- `decimal.Overflow`, which `normalize` raises. -/
inductive RevisionError where
  | overflow
  deriving DecidableEq

/-- The texts that stand for a missing value. -/
def missingTexts : List Text := ["nan".toList, "none".toList, "nat".toList]

/-- `canonical_revision_value` of a cell that is not missing, by the text it prints as. -/
def canonicalRevisionValue (value : Text) : Except RevisionError Text :=
  let text := stripText value
  if text.map Char.toLower ∈ missingTexts then .ok []
  else match readDecimal digits text with
    | none => .ok text
    | some decimal =>
      if !withinLimits decimal then .ok text
      else match decimal.normalize defaultContext with
        | none => .error .overflow
        | some number =>
          let normalized := trimZeros (fixedPoint number)
          .ok (if normalized = [] then ['0'] else normalized)

end RevisionValue

end AutoTrade
