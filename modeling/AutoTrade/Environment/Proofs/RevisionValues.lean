import AutoTrade.Environment.Data.RevisionValue

/-!
# What canonical revision values tell apart

A number's canonical text is read back as the number `normalize` makes of it, so that two
numbers have one text exactly if they are written with one sign and rounded to one magnitude.
-/

namespace AutoTrade

namespace RevisionValue

open JsonNumber (digitChar digitsOf)

variable {digits : DecimalDigits}

/-- Digits as `Decimal` writes them, the first one first. -/
def writeDigits (ds : List Nat) : Text := ds.map digitChar

variable (digits) in
theorem digitChar_ascii {d : Nat} (small : d < 10) : digits.value (digitChar d) = some d := by
  have every : ∀ d < 10, (digitChar d).toNat < 128 ∧ (digitChar d).isDigit = true ∧
      (digitChar d).toNat - '0'.toNat = d := by decide
  have ⟨ascii, digit, value⟩ := every d small
  rw [digits.ascii _ ascii, if_pos digit, value]

theorem mapM_writeDigits {ds : List Nat} (small : ∀ d ∈ ds, d < 10) :
    (writeDigits ds).mapM digits.value = some ds := by
  induction ds with
  | nil => rfl
  | cons d ds ih =>
    have first := digitChar_ascii digits (small d List.mem_cons_self)
    have rest := ih fun d' member => small d' (List.mem_cons_of_mem _ member)
    simp only [writeDigits] at rest ⊢
    simp [first, rest]

theorem ne_digitChar {d : Nat} (small : d < 10) {c : Char} (other : c.isDigit = false) :
    digitChar d ≠ c := by
  have every : ∀ d < 10, (digitChar d).isDigit = true := by decide
  rintro rfl
  rw [every d small] at other
  cases other

/-- The digits of a number, the first one first. -/
def digitList (n : Nat) : List Nat := if n = 0 then [0] else (Nat.digits 10 n).reverse

theorem digitsOf_eq (n : Nat) : digitsOf n = writeDigits (digitList n) := by
  unfold digitsOf digitList writeDigits
  split
  · rfl
  · rw [List.map_reverse]

theorem digitList_small {n d : Nat} (member : d ∈ digitList n) : d < 10 := by
  unfold digitList at member
  split at member
  · simp_all
  · exact Nat.digits_lt_base (by norm_num) (List.mem_reverse.mp member)

@[simp] theorem ofDigits_digitList (n : Nat) : Nat.ofDigits 10 (digitList n).reverse = n := by
  unfold digitList
  split
  · simp_all
  · rw [List.reverse_reverse, Nat.ofDigits_digits]

theorem digitList_ne_nil (n : Nat) : digitList n ≠ [] := by
  unfold digitList
  split
  · simp
  · simpa using Nat.digits_ne_nil_iff_ne_zero.mpr ‹_›

/-- A sign, digits, and a point with digits behind it if there are any. -/
def plain (negative : Bool) (whole fraction : List Nat) : Text :=
  (if negative then ['-'] else []) ++ writeDigits whole ++
    if fraction = [] then [] else '.' :: writeDigits fraction

variable {negative : Bool} {whole fraction : List Nat}

theorem mem_plain (small : ∀ d ∈ whole ++ fraction, d < 10) {c : Char}
    (member : c ∈ plain negative whole fraction) :
    c = '-' ∨ c = '.' ∨ ∃ d < 10, c = digitChar d := by
  have digit {ds : List Nat} (some : ∀ d ∈ ds, d < 10) (here : c ∈ writeDigits ds) :
      ∃ d < 10, c = digitChar d := by
    have ⟨d, inDigits, same⟩ := List.mem_map.mp here
    exact ⟨d, some d inDigits, same.symm⟩
  have first : ∀ d ∈ whole, d < 10 := fun d here => small d (List.mem_append_left _ here)
  have second : ∀ d ∈ fraction, d < 10 := fun d here => small d (List.mem_append_right _ here)
  simp only [plain, List.mem_append] at member
  rcases member with (sign | here) | rest
  · left
    cases negative <;> simp_all
  · exact .inr (.inr (digit first here))
  · by_cases none : fraction = []
    · simp [none] at rest
    · rw [if_neg none] at rest
      rcases List.mem_cons.mp rest with point | here
      · exact .inr (.inl point)
      · exact .inr (.inr (digit second here))

theorem ne_of_mem_plain (small : ∀ d ∈ whole ++ fraction, d < 10) {c e : Char}
    (member : c ∈ plain negative whole fraction) (other : e.isDigit = false) (sign : e ≠ '-')
    (point : e ≠ '.') : c ≠ e := by
  rcases mem_plain small member with rfl | rfl | ⟨d, digit, rfl⟩
  · exact sign.symm
  · exact point.symm
  · exact ne_digitChar digit other

theorem takeWhile_writeDigits {ds : List Nat} (small : ∀ d ∈ ds, d < 10) (rest : Text) :
    (writeDigits ds ++ '.' :: rest).takeWhile (· ≠ '.') = writeDigits ds ∧
      (writeDigits ds ++ '.' :: rest).dropWhile (· ≠ '.') = '.' :: rest := by
  have free : ∀ c ∈ writeDigits ds, decide (c ≠ '.') = true := by
    intro c member
    have ⟨d, inDigits, same⟩ := List.mem_map.mp member
    simpa using same ▸ ne_digitChar (small d inDigits) (by decide)
  constructor
  · rw [List.takeWhile_append_of_pos free]
    simp
  · rw [List.dropWhile_append_of_pos free]
    simp

theorem readDecimal_plain (small : ∀ d ∈ whole ++ fraction, d < 10) (filled : whole ≠ []) :
    readDecimal digits (plain negative whole fraction) =
      some ⟨negative, Nat.ofDigits 10 (whole ++ fraction).reverse, -fraction.length⟩ := by
  have first : ∀ d ∈ whole, d < 10 := fun d here => small d (List.mem_append_left _ here)
  have second : ∀ d ∈ fraction, d < 10 := fun d here => small d (List.mem_append_right _ here)
  have kept : (plain negative whole fraction).filter (· ≠ '_') = plain negative whole fraction := by
    apply List.filter_eq_self.mpr
    intro c member
    simpa using ne_of_mem_plain small member (by decide) (by decide) (by decide)
  -- what stands behind the sign
  let body := writeDigits whole ++ if fraction = [] then [] else '.' :: writeDigits fraction
  have signed : splitSign (plain negative whole fraction) = (negative, body) := by
    cases negative with
    | true => rfl
    | false =>
      cases whole with
      | nil => exact absurd rfl filled
      | cons d whole =>
        have digit := first d List.mem_cons_self
        have minus : digitChar d ≠ '-' := ne_digitChar digit (by decide)
        have plus : digitChar d ≠ '+' := ne_digitChar digit (by decide)
        simp only [plain, writeDigits, List.map_cons, List.cons_append, Bool.false_eq_true,
          if_false, List.nil_append, body]
        unfold splitSign
        split
        · rename_i same
          exact absurd (List.cons.inj same).1 minus
        · rename_i same
          exact absurd (List.cons.inj same).1 plus
        · rfl
  have unmarked : ∀ c ∈ body, (!isExponentMark c) = true := by
    intro c member
    have inside : c ∈ plain negative whole fraction := by
      simp only [plain, List.append_assoc]
      exact List.mem_append_right _ member
    have lower := ne_of_mem_plain small inside (e := 'e') (by decide) (by decide) (by decide)
    have upper := ne_of_mem_plain small inside (e := 'E') (by decide) (by decide) (by decide)
    simp [isExponentMark, lower, upper]
  have mantissa : body.takeWhile (!isExponentMark ·) = body := List.takeWhile_eq_self_iff.mpr unmarked
  have exponent : body.dropWhile (!isExponentMark ·) = [] := List.dropWhile_eq_nil_iff.mpr unmarked
  have parts : (body.takeWhile (· ≠ '.')).mapM digits.value = some whole ∧
      ((body.dropWhile (· ≠ '.')).drop 1).mapM digits.value = some fraction := by
    by_cases none : fraction = []
    · have free : ∀ c ∈ body, decide (c ≠ '.') = true := by
        intro c member
        simp only [body, none, if_true, List.append_nil] at member
        have ⟨d, inDigits, same⟩ := List.mem_map.mp member
        simpa using same ▸ ne_digitChar (first d inDigits) (by decide)
      rw [List.takeWhile_eq_self_iff.mpr free, List.dropWhile_eq_nil_iff.mpr free]
      refine ⟨?_, by simp [none]⟩
      simp only [body, none, if_true, List.append_nil]
      exact mapM_writeDigits first
    · simp only [body, if_neg none]
      have ⟨front, back⟩ := takeWhile_writeDigits first (writeDigits fraction)
      rw [front, back]
      exact ⟨mapM_writeDigits first, mapM_writeDigits second⟩
  unfold readDecimal
  simp only [kept, signed, mantissa, exponent, parts, readExponent, Option.bind_eq_bind,
    Option.bind_some]
  rw [if_neg (by simp [filled])]
  simp

theorem fixedPoint_eq (n : Decimal) : ∃ whole fraction : List Nat,
    fixedPoint n = plain n.negative whole fraction ∧ (∀ d ∈ whole ++ fraction, d < 10) ∧
      whole ≠ [] ∧ fraction.length = (-n.exponent).toNat ∧
      Nat.ofDigits 10 (whole ++ fraction).reverse = n.coefficient * 10 ^ n.exponent.toNat := by
  generalize number : n.coefficient * 10 ^ n.exponent.toNat = number'
  generalize point : (-n.exponent).toNat = places
  have written := digitsOf_eq number'
  by_cases none : places = 0
  · refine ⟨digitList number', [], ?_, fun d member => digitList_small (by simpa using member),
      digitList_ne_nil _, by simp [none], by simp⟩
    simp [fixedPoint, plain, number, point, none, written]
  · let padded := List.replicate (places + 1 - (digitList number').length) 0 ++ digitList number'
    have long : places < padded.length := by
      simp only [padded, List.length_append, List.length_replicate]
      omega
    have length : (digitsOf number').length = (digitList number').length := by
      rw [written]
      simp [writeDigits]
    have text : List.replicate (places + 1 - (digitsOf number').length) '0' ++ digitsOf number' =
        writeDigits padded := by
      rw [length, written]
      simp [writeDigits, padded, digitChar]
    have split := List.take_append_drop (padded.length - places) padded
    refine ⟨padded.take (padded.length - places), padded.drop (padded.length - places),
      ?_, ?_, ?_, ?_, ?_⟩
    · have behind : padded.drop (padded.length - places) ≠ [] := by
        intro empty
        have few := List.drop_eq_nil_iff.mp empty
        omega
      unfold fixedPoint plain
      simp only [number, point, none, if_false, behind]
      rw [text]
      simp [writeDigits]
    · intro d member
      rw [split] at member
      rcases List.mem_append.mp member with zero | digit
      · rw [List.eq_of_mem_replicate zero]
        decide
      · exact digitList_small digit
    · intro empty
      rcases List.take_eq_nil_iff.mp empty with few | few
      · omega
      · rw [few] at long
        cases long
    · rw [List.length_drop]
      omega
    · rw [split]
      simp [padded, Nat.ofDigits_append]

theorem stripText_of_visible {t : Text} (visible : ∀ c ∈ t, isSpace c = false) : stripText t = t := by
  have keep (u : Text) (inside : ∀ c ∈ u, isSpace c = false) : u.dropWhile isSpace = u := by
    cases u with
    | nil => rfl
    | cons c u => simp [inside c List.mem_cons_self]
  rw [stripText, keep t visible, keep t.reverse (by simpa using visible), List.reverse_reverse]

theorem stripText_fixedPoint (n : Decimal) : stripText (fixedPoint n) = fixedPoint n := by
  have ⟨whole, fraction, text, small, _⟩ := fixedPoint_eq n
  apply stripText_of_visible
  intro c member
  rw [text] at member
  have every : ∀ d < 10, isSpace (digitChar d) = false := by decide
  rcases mem_plain small member with rfl | rfl | ⟨d, digit, rfl⟩
  · decide
  · decide
  · exact every d digit

variable (digits) in
theorem readDecimal_fixedPoint (n : Decimal) : ∃ d : Decimal,
    readDecimal digits (fixedPoint n) = some d ∧ d.negative = n.negative ∧
      d.magnitude = n.magnitude ∧ d.exponent = min n.exponent 0 := by
  have ⟨whole, fraction, text, small, filled, places, value⟩ := fixedPoint_eq n
  have read := @readDecimal_plain digits n.negative _ _ small filled
  refine ⟨⟨n.negative, Nat.ofDigits 10 (whole ++ fraction).reverse, -fraction.length⟩,
    text ▸ read, rfl, ?_, ?_⟩
  · simp only [Decimal.magnitude, value, places]
    rcases le_total 0 n.exponent with up | down
    · have level : (-n.exponent).toNat = 0 := by omega
      conv_rhs => rw [← Int.toNat_of_nonneg up]
      rw [level]
      push_cast
      rw [zpow_natCast]
      simp
    · have level : n.exponent.toNat = 0 := by omega
      have back : -((-n.exponent).toNat : Int) = n.exponent := by omega
      rw [level, back]
      simp
  · change -(fraction.length : Int) = _
    omega

theorem trimZeros_fixedPoint {n : Decimal} (reduced : n.Reduced) :
    trimZeros (fixedPoint n) = fixedPoint n := by
  have ⟨whole, fraction, text, small, filled, places, value⟩ := fixedPoint_eq n
  rw [text]
  unfold trimZeros
  rcases List.eq_nil_or_concat fraction with none | ⟨before, last, split⟩
  · apply if_neg
    subst none
    intro member
    simp only [plain, if_true, List.append_nil, List.mem_append] at member
    rcases member with sign | digit
    · cases negative : n.negative <;> simp_all
    · have ⟨d, inDigits, same⟩ := List.mem_map.mp digit
      exact ne_digitChar (small d (by simpa using inDigits)) (by decide) same
  · rw [List.concat_eq_append] at split
    have below : n.exponent < 0 := by
      rw [split, List.length_append, List.length_singleton] at places
      omega
    have level : n.exponent.toNat = 0 := by omega
    have coefficient : n.coefficient = last + 10 * Nat.ofDigits 10 (whole ++ before).reverse := by
      rw [level, pow_zero, mul_one] at value
      rw [← value, split, ← List.append_assoc, List.reverse_append]
      simp [Nat.ofDigits_cons]
    have zero : last ≠ 0 := by
      rintro rfl
      rcases reduced with ⟨_, exponent⟩ | divides
      · omega
      · exact divides ⟨_, by simpa using coefficient⟩
    have digit : last < 10 := small last (by simp [split])
    have shape : plain n.negative whole fraction =
        ((if n.negative then ['-'] else []) ++ writeDigits whole ++ '.' :: writeDigits before) ++
          [digitChar last] := by
      simp [plain, split, writeDigits]
    have every : ∀ d < 10, d ≠ 0 → digitChar d ≠ '0' := by decide
    rw [if_pos (by simp [shape]), shape, List.rdropWhile_concat_neg, List.rdropWhile_concat_neg]
    · simpa using ne_digitChar digit (by decide)
    · simpa using every last digit zero

theorem fixedPoint_ne_nil (n : Decimal) : fixedPoint n ≠ [] := by
  have ⟨whole, fraction, text, _, filled, _⟩ := fixedPoint_eq n
  rw [text]
  simp [plain, writeDigits, filled]

variable {t : Text} {d n : Decimal}

theorem readDecimal_missing (missing : t.map Char.toLower ∈ missingTexts) :
    readDecimal digits t = none := by
  have first : ∃ c rest, t = c :: rest ∧ c.toLower = 'n' := by
    cases t with
    | nil => simp [missingTexts] at missing
    | cons c rest =>
      refine ⟨c, rest, rfl, ?_⟩
      simp only [missingTexts, List.map_cons, List.mem_cons, List.not_mem_nil, or_false] at missing
      rcases missing with same | same | same <;> exact (List.cons.inj same).1
  have ⟨c, rest, split, lower⟩ := first
  have letter : c = 'n' ∨ c = 'N' := by
    unfold Char.toLower at lower
    split at lower
    · right
      have value := congrArg (fun c : Char => c.val) lower
      apply Char.ext
      change c.val + 32 = 110 at value
      calc c.val = c.val + 32 - 32 := (UInt32.add_sub_cancel _ _).symm
        _ = 'N'.val := by rw [value]; rfl
    · exact .inl lower
  have ne {e : Char} (other : e ≠ 'n' ∧ e ≠ 'N') : c ≠ e := by
    rcases letter with rfl | rfl
    · exact other.1.symm
    · exact other.2.symm
  have ascii : c.toNat < 128 ∧ c.isDigit = false := by
    rcases letter with rfl | rfl <;> decide
  have unread : digits.value c = none := by
    rw [digits.ascii c ascii.1, if_neg (by simp [ascii.2])]
  have signed (u : Text) : splitSign (c :: u) = (false, c :: u) := by
    unfold splitSign
    split
    · rename_i same
      exact absurd (List.cons.inj same).1 (ne (by decide))
    · rename_i same
      exact absurd (List.cons.inj same).1 (ne (by decide))
    · rfl
  have kept : c ≠ '_' := ne (by decide)
  have mantissa : isExponentMark c = false := by
    simp [isExponentMark, ne (e := 'e') (by decide), ne (e := 'E') (by decide)]
  have point : c ≠ '.' := ne (by decide)
  unfold readDecimal
  rw [split, List.filter_cons_of_pos (by simpa using kept), signed]
  simp [mantissa, point, unread]

theorem canonicalRevisionValue_number (read : readDecimal digits (stripText t) = some d) :
    canonicalRevisionValue digits t =
      if withinLimits d then
        (match d.normalize defaultContext with
          | none => .error .overflow
          | some n => .ok (fixedPoint n))
      else .ok (stripText t) := by
  have number : (stripText t).map Char.toLower ∉ missingTexts := by
    intro missing
    rw [readDecimal_missing missing] at read
    cases read
  unfold canonicalRevisionValue
  simp only [if_neg number, read]
  cases within : withinLimits d with
  | false => simp
  | true =>
    cases normalized : d.normalize defaultContext with
    | none => simp
    | some n =>
      have reduced := (Decimal.normalize_eq_some normalized).2.2.reduced
      simp [trimZeros_fixedPoint reduced, fixedPoint_ne_nil]

theorem withinLimits_fixedPoint (normal : n.Normal defaultContext)
    (magnitude : d.magnitude = n.magnitude) (exponent : d.exponent = min n.exponent 0) :
    withinLimits d = true := by
  have empty : d.coefficient = 0 ↔ n.coefficient = 0 := by
    rw [← Decimal.magnitude_eq_zero, magnitude, Decimal.magnitude_eq_zero]
  unfold withinLimits maxEmax minEtiny
  by_cases zero : n.coefficient = 0
  · have level := (normal.reduced.resolve_right (by simp [zero])).2
    have first := Decimal.adjusted_of_empty (empty.mpr zero)
    rw [level] at exponent
    rw [exponent] at first
    simp [first, exponent]
  · have range := normal.range
    rw [← magnitude] at range
    have first := mt (Decimal.limit_le_magnitude (mt empty.mp zero)).mpr range.not_ge
    have tiny := normal.tiny zero
    simp only [defaultContext, DecimalContext.etiny] at first tiny
    simp only [Bool.and_eq_true, decide_eq_true_eq]
    omega

theorem canonicalRevisionValue_fixedPoint (normalized : d.normalize defaultContext = some n) :
    canonicalRevisionValue digits (fixedPoint n) = .ok (fixedPoint n) := by
  have ⟨d', read, negative, magnitude, exponent⟩ := readDecimal_fixedPoint digits n
  have normal := (Decimal.normalize_eq_some normalized).2.2
  have within := withinLimits_fixedPoint normal magnitude exponent
  have again := Decimal.Normal.normalize normalized negative magnitude
  rw [canonicalRevisionValue_number (by rwa [stripText_fixedPoint]), if_pos within, again]

theorem canonicalRevisionValue_idempotent (t : Text) :
    (canonicalRevisionValue digits t).bind (canonicalRevisionValue digits) =
      canonicalRevisionValue digits t := by
  by_cases missing : (stripText t).map Char.toLower ∈ missingTexts
  · have empty : canonicalRevisionValue digits t = .ok [] := by
      simp [canonicalRevisionValue, missing]
    rw [empty]
    change canonicalRevisionValue digits [] = _
    rfl
  · cases read : readDecimal digits (stripText t) with
    | none =>
      have text : canonicalRevisionValue digits t = .ok (stripText t) := by
        simp [canonicalRevisionValue, missing, read]
      rw [text]
      change canonicalRevisionValue digits (stripText t) = _
      simp [canonicalRevisionValue, stripText_stripText, missing, read]
    | some d =>
      rw [canonicalRevisionValue_number read]
      split
      · cases normalized : d.normalize defaultContext with
        | none => rfl
        | some n => exact canonicalRevisionValue_fixedPoint normalized
      · rename_i beyond
        change canonicalRevisionValue digits (stripText t) = _
        rw [canonicalRevisionValue_number (by rwa [stripText_stripText]), if_neg beyond,
          stripText_stripText]

theorem fixedPoint_injective {n' : Decimal} (reduced : n.Reduced) (reduced' : n'.Reduced)
    (same : fixedPoint n = fixedPoint n') : n = n' := by
  have ⟨d, read, negative, magnitude, _⟩ := readDecimal_fixedPoint asciiDigits n
  have ⟨d', read', negative', magnitude', _⟩ := readDecimal_fixedPoint asciiDigits n'
  rw [same, read', Option.some.injEq] at read
  subst read
  exact reduced.eq reduced' (negative.symm.trans negative') (magnitude.symm.trans magnitude')

/-- A text that `Decimal` reads as a finite number. -/
structure DecimalText (digits : DecimalDigits) where
  text : Text
  number : Decimal
  reads : readDecimal digits (stripText text) = some number

namespace DecimalText

/-- Whether `Decimal` has room for both numbers. -/
def bothWithin (a b : DecimalText digits) : Bool :=
  withinLimits a.number && withinLimits b.number

/-- Both texts have a canonical form, and one exactly if they denote the same number. -/
def Canonical (a b : DecimalText digits) : Prop :=
  ∃ s u, canonicalRevisionValue digits a.text = .ok s ∧ canonicalRevisionValue digits b.text = .ok u ∧
    (s = u ↔ a.number.value = b.number.value)

/-- Rounding to the precision keeps the number in range. -/
def InRange (a : DecimalText digits) : Prop :=
  withinLimits a.number = true →
    defaultContext.round a.number.magnitude < defaultContext.limit

/-- The numbers are as different as their signs and their magnitudes in the precision. -/
structure Told (a b : DecimalText digits) : Prop where
  left : a.InRange
  right : b.InRange
  /-- Different numbers of one sign are different in the precision. -/
  digits : bothWithin a b = true → a.number.value ≠ b.number.value →
    a.number.negative = b.number.negative →
    defaultContext.round a.number.magnitude ≠ defaultContext.round b.number.magnitude
  /-- Two zeros have one sign. -/
  zero : bothWithin a b = true → a.number.value = b.number.value → a.number.value = 0 →
    a.number.negative = b.number.negative
  /-- A number `Decimal` has no room for is spelled in one way. -/
  beyond : bothWithin a b = false → a.number.value = b.number.value →
    stripText a.text = stripText b.text

theorem canonical_cases (a : DecimalText digits) :
    (withinLimits a.number = true ∧ ∃ n, a.number.normalize defaultContext = some n ∧
      canonicalRevisionValue digits a.text = .ok (fixedPoint n)) ∨
    (withinLimits a.number = true ∧ ¬ a.InRange ∧
      canonicalRevisionValue digits a.text = .error .overflow) ∨
    (withinLimits a.number = false ∧
      canonicalRevisionValue digits a.text = .ok (stripText a.text)) := by
  have canonical := canonicalRevisionValue_number a.reads
  cases within : withinLimits a.number with
  | false => exact .inr (.inr ⟨rfl, by simpa [within] using canonical⟩)
  | true =>
    cases normalized : a.number.normalize defaultContext with
    | some n => exact .inl ⟨rfl, n, rfl, by simpa [within, normalized] using canonical⟩
    | none =>
      refine .inr (.inl ⟨rfl, ?_, by simpa [within, normalized] using canonical⟩)
      intro range
      have returned := Decimal.normalize_isSome.mpr (range within)
      simp [normalized] at returned

theorem InRange.canonical {a : DecimalText digits} (range : a.InRange) :
    ∃ s, canonicalRevisionValue digits a.text = .ok s := by
  rcases a.canonical_cases with ⟨_, n, _, text⟩ | ⟨_, out, _⟩ | ⟨_, text⟩
  · exact ⟨_, text⟩
  · exact absurd range out
  · exact ⟨_, text⟩

theorem inRange_of_canonical {a : DecimalText digits} {s : Text}
    (canonical : canonicalRevisionValue digits a.text = .ok s) : a.InRange := by
  rcases a.canonical_cases with ⟨_, n, normalized, _⟩ | ⟨_, _, overflow⟩ | ⟨beyond, _⟩
  · exact fun _ => Decimal.normalize_isSome.mp (by simp [normalized])
  · rw [overflow] at canonical
    cases canonical
  · intro within
    rw [within] at beyond
    cases beyond

theorem canonical_eq_iff {a b : DecimalText digits} {s u : Text}
    (left : canonicalRevisionValue digits a.text = .ok s)
    (right : canonicalRevisionValue digits b.text = .ok u) :
    s = u ↔ if bothWithin a b then a.number.negative = b.number.negative ∧
        defaultContext.round a.number.magnitude = defaultContext.round b.number.magnitude
      else stripText a.text = stripText b.text := by
  -- the text of a number with room is no text of one without
  have apart (a b : DecimalText digits) (n : Decimal)
      (normalized : a.number.normalize defaultContext = some n)
      (beyond : withinLimits b.number = false) : fixedPoint n ≠ stripText b.text := by
    intro same
    have ⟨d, read, _, magnitude, exponent⟩ := readDecimal_fixedPoint digits n
    rw [same, b.reads, Option.some.injEq] at read
    rw [read, withinLimits_fixedPoint (Decimal.normalize_eq_some normalized).2.2 magnitude exponent]
      at beyond
    cases beyond
  have alike (a b : DecimalText digits) (within : withinLimits a.number = true)
      (beyond : withinLimits b.number = false) :
      stripText a.text ≠ stripText b.text := by
    intro same
    have read := a.reads
    rw [same, b.reads, Option.some.injEq] at read
    rw [read, within] at beyond
    cases beyond
  rcases a.canonical_cases with ⟨within, n, normalized, text⟩ | ⟨_, _, overflow⟩ | ⟨beyond, text⟩
  · rcases b.canonical_cases with ⟨within', n', normalized', text'⟩ | ⟨_, _, overflow⟩ | ⟨beyond', text'⟩
    · rw [text, Except.ok.injEq] at left
      rw [text', Except.ok.injEq] at right
      have ⟨negative, magnitude, normal⟩ := Decimal.normalize_eq_some normalized
      have ⟨negative', magnitude', normal'⟩ := Decimal.normalize_eq_some normalized'
      rw [← left, ← right, if_pos (by simp [bothWithin, within, within'])]
      constructor
      · intro same
        have equal := fixedPoint_injective normal.reduced normal'.reduced same
        exact ⟨by rw [← negative, equal, negative'], by rw [← magnitude, equal, magnitude']⟩
      · rintro ⟨sign, round⟩
        rw [normal.reduced.eq normal'.reduced (by rw [negative, sign, negative'])
          (by rw [magnitude, round, magnitude'])]
    · rw [overflow] at right
      cases right
    · rw [text, Except.ok.injEq] at left
      rw [text', Except.ok.injEq] at right
      rw [← left, ← right, if_neg (by simp [bothWithin, beyond'])]
      exact iff_of_false (apart a b n normalized beyond') (alike a b within beyond')
  · rw [overflow] at left
    cases left
  · rw [text, Except.ok.injEq] at left
    rw [if_neg (by simp [bothWithin, beyond]), ← left]
    rcases b.canonical_cases with ⟨within', n', normalized', text'⟩ | ⟨_, _, overflow⟩ | ⟨_, text'⟩
    · rw [text', Except.ok.injEq] at right
      rw [← right]
      exact iff_of_false (apart b a n' normalized' beyond).symm (alike b a within' beyond).symm
    · rw [overflow] at right
      cases right
    · rw [text', Except.ok.injEq] at right
      rw [← right]

end DecimalText

open DecimalText

/-- The canonical text of a canonical text is itself, and the texts of two numbers have one
canonical form exactly if the numbers are equal, as far as both are told apart in the precision
and by their signs. -/
theorem canonical_value_iff (digits : DecimalDigits) :
    (∀ t, (canonicalRevisionValue digits t).bind (canonicalRevisionValue digits) =
      canonicalRevisionValue digits t) ∧
    ∀ a b : DecimalText digits, Canonical a b ↔ Told a b := by
  refine ⟨canonicalRevisionValue_idempotent, fun a b => ⟨?_, ?_⟩⟩
  · rintro ⟨s, u, left, right, same⟩
    have forms := canonical_eq_iff left right
    refine ⟨inRange_of_canonical left, inRange_of_canonical right, ?_, ?_, ?_⟩
    · intro within different sign round
      rw [if_pos within] at forms
      exact different (same.mp (forms.mpr ⟨sign, round⟩))
    · intro within equal _
      rw [if_pos within] at forms
      exact (forms.mp (same.mpr equal)).1
    · intro beyond equal
      rw [if_neg (by simp [beyond])] at forms
      exact forms.mp (same.mpr equal)
  · rintro ⟨left, right, told, zero, beyond⟩
    have ⟨s, canonical⟩ := left.canonical
    have ⟨u, canonical'⟩ := right.canonical
    refine ⟨s, u, canonical, canonical', ?_⟩
    have forms := canonical_eq_iff canonical canonical'
    rw [forms]
    cases within : bothWithin a b with
    | true =>
      rw [if_pos rfl]
      constructor
      · rintro ⟨sign, round⟩
        by_contra different
        exact told within different sign round
      · intro equal
        have ⟨magnitude, sign⟩ := Decimal.value_eq_iff.mp equal
        refine ⟨?_, by rw [magnitude]⟩
        rcases sign with sign | none
        · exact sign
        · exact zero within equal (Decimal.value_eq_zero.mpr none)
    | false =>
      rw [if_neg Bool.false_ne_true]
      refine ⟨?_, beyond within⟩
      intro alike
      have read := a.reads
      rw [alike, b.reads, Option.some.injEq] at read
      rw [read]

/-- A zero written with a sign. -/
def minusZero : DecimalText asciiDigits := ⟨"-0.0".toList, ⟨true, 0, -1⟩, by decide⟩

/-- A zero written without. -/
def plainZero : DecimalText asciiDigits := ⟨"0.0".toList, ⟨false, 0, -1⟩, by decide⟩

/-- Zero has two canonical texts. -/
theorem minus_zero_differs : ¬ ∀ a b : DecimalText asciiDigits, Canonical a b := by
  intro claimed
  have ⟨s, u, left, right, same⟩ := claimed minusZero plainZero
  have minus : canonicalRevisionValue asciiDigits minusZero.text = .ok "-0".toList := by decide
  have plus : canonicalRevisionValue asciiDigits plainZero.text = .ok "0".toList := by decide
  rw [minus, Except.ok.injEq] at left
  rw [plus, Except.ok.injEq] at right
  have equal := same.mpr (by simp [minusZero, plainZero, Decimal.value, Decimal.magnitude])
  rw [← left, ← right] at equal
  exact absurd equal (by decide)

end RevisionValue

end AutoTrade
