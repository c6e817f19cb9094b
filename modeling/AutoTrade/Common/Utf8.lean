import AutoTrade.Common.Text

/-!
# Text as bytes

UTF-8, and what `errors="replace"` reads of bytes that are not: a byte no character
starts with, and a character that is cut short, each read as one U+FFFD. Text that is cut
inside a character and goes on with a newline loses that character alone.
-/

namespace AutoTrade

namespace Utf8

/-- Bytes, as numbers below 256. -/
abbrev Bytes := List Nat

def encodeChar (c : Char) : Bytes :=
  let n := c.toNat
  if n < 0x80 then [n]
  else if n < 0x800 then [0xC0 + n / 64, 0x80 + n % 64]
  else if n < 0x10000 then [0xE0 + n / 4096, 0x80 + n / 64 % 64, 0x80 + n % 64]
  else [0xF0 + n / 262144, 0x80 + n / 4096 % 64, 0x80 + n / 64 % 64, 0x80 + n % 64]

/-- `text.encode("utf-8")`. -/
def encode (t : Text) : Bytes := t.flatMap encodeChar

/-- U+FFFD. -/
def replacement : Char := '\ufffd'

/-- A character that has begun: its bits so far, the bytes still owed, and what the next
one may be. -/
structure Started where
  value : Nat
  owed : Nat
  low : Nat := 0x80
  high : Nat := 0xBF

/-- The first byte of a character. -/
def lead (b : Nat) : Text × Option Started :=
  if b < 0x80 then ([Char.ofNat b], none)
  else if 0xC2 ≤ b ∧ b ≤ 0xDF then ([], some ⟨b - 0xC0, 1, 0x80, 0xBF⟩)
  else if 0xE0 ≤ b ∧ b ≤ 0xEF then
    ([], some ⟨b - 0xE0, 2, if b = 0xE0 then 0xA0 else 0x80, if b = 0xED then 0x9F else 0xBF⟩)
  else if 0xF0 ≤ b ∧ b ≤ 0xF4 then
    ([], some ⟨b - 0xF0, 3, if b = 0xF0 then 0x90 else 0x80, if b = 0xF4 then 0x8F else 0xBF⟩)
  else ([replacement], none)

/-- One more byte: the text it completes, and the character it leaves begun. -/
def feed : Option Started → Nat → Text × Option Started
  | none, b => lead b
  | some s, b =>
    if s.low ≤ b ∧ b ≤ s.high then
      let value := s.value * 64 + (b - 0x80)
      if s.owed = 1 then ([Char.ofNat value], none)
      else ([], some { value, owed := s.owed - 1 })
    else (replacement :: (lead b).1, (lead b).2)

def decodeFrom : Option Started → Bytes → Text
  | none, [] => []
  | some _, [] => [replacement]
  | s, b :: rest => (feed s b).1 ++ decodeFrom (feed s b).2 rest

/-- `bytes.decode("utf-8", errors="replace")`. -/
def decode (bytes : Bytes) : Text := decodeFrom none bytes

@[simp] theorem encode_nil : encode [] = [] := rfl

theorem encode_cons (c : Char) (t : Text) : encode (c :: t) = encodeChar c ++ encode t := rfl

theorem encode_append (t u : Text) : encode (t ++ u) = encode t ++ encode u :=
  List.flatMap_append

theorem toNat_valid (c : Char) : c.toNat < 0xD800 ∨ 0xDFFF < c.toNat ∧ c.toNat < 0x110000 := c.valid

theorem decodeFrom_cons (s : Option Started) (b : Nat) (rest : Bytes) :
    decodeFrom s (b :: rest) = (feed s b).1 ++ decodeFrom (feed s b).2 rest := by
  cases s <;> rfl

variable {s : Started}

theorem feed_within {b : Nat} (low : s.low ≤ b) (high : b ≤ s.high) (more : s.owed ≠ 1) :
    feed (some s) b = ([], some { value := s.value * 64 + (b - 0x80), owed := s.owed - 1 }) := by
  simp only [feed]
  rw [if_pos ⟨low, high⟩, if_neg more]

variable {c : Char}

theorem feed_last {b : Nat} (low : s.low ≤ b) (high : b ≤ s.high) (last : s.owed = 1)
    (value : s.value * 64 + (b - 0x80) = c.toNat) : feed (some s) b = ([c], none) := by
  simp only [feed]
  rw [if_pos ⟨low, high⟩, if_pos last, value, Char.ofNat_toNat]

/-- A character of two bytes or more. -/
inductive Tails (c : Char) : Started → Bytes → Prop where
  | last {s : Started} {b : Nat} (low : s.low ≤ b) (high : b ≤ s.high) (owed : s.owed = 1)
      (floor : 0x80 ≤ s.low) (value : s.value * 64 + (b - 0x80) = c.toNat) : Tails c s [b]
  | more {s : Started} {b : Nat} {rest : Bytes} (low : s.low ≤ b) (high : b ≤ s.high)
      (owed : s.owed ≠ 1) (floor : 0x80 ≤ s.low)
      (later : Tails c { value := s.value * 64 + (b - 0x80), owed := s.owed - 1 } rest) :
      Tails c s (b :: rest)

theorem encodeChar_cases (c : Char) :
    (encodeChar c = [c.toNat] ∧ c.toNat < 0x80) ∨
      ∃ b s rest, encodeChar c = b :: rest ∧ lead b = ([], some s) ∧ Tails c s rest ∧
        127 < c.toNat := by
  have valid := toNat_valid c
  unfold encodeChar
  generalize size : c.toNat = n at valid ⊢
  simp only
  split_ifs with one two three
  · exact .inl ⟨rfl, one⟩
  · refine .inr ⟨_, ⟨n / 64, 1, 0x80, 0xBF⟩, _, rfl, ?_, ?_, by omega⟩
    · simp only [lead]
      rw [if_neg (by omega), if_pos (by omega), Nat.add_sub_cancel_left]
    · exact .last (by simp) (by simp; omega) rfl (by simp) (by simp; omega)
  · refine .inr ⟨_, ⟨n / 4096, 2, if 0xE0 + n / 4096 = 0xE0 then 0xA0 else 0x80,
      if 0xE0 + n / 4096 = 0xED then 0x9F else 0xBF⟩, _, rfl, ?_, ?_, by omega⟩
    · simp only [lead]
      rw [if_neg (by omega), if_neg (by omega), if_pos (by omega), Nat.add_sub_cancel_left]
    · refine .more ?_ ?_ (by simp) ?_ (.last (by simp) (by simp; omega) rfl (by simp) ?_)
      · dsimp only
        split_ifs <;> omega
      · dsimp only
        split_ifs <;> omega
      · dsimp only
        split_ifs <;> omega
      · dsimp only
        omega
  · refine .inr ⟨_, ⟨n / 262144, 3, if 0xF0 + n / 262144 = 0xF0 then 0x90 else 0x80,
      if 0xF0 + n / 262144 = 0xF4 then 0x8F else 0xBF⟩, _, rfl, ?_, ?_, by omega⟩
    · simp only [lead]
      rw [if_neg (by omega), if_neg (by omega), if_neg (by omega), if_pos (by omega),
        Nat.add_sub_cancel_left]
    · refine .more ?_ ?_ (by simp) ?_ (.more (by simp) (by simp; omega) (by simp) (by simp)
        (.last (by simp) (by simp; omega) rfl (by simp) ?_))
      · dsimp only
        split_ifs <;> omega
      · dsimp only
        split_ifs <;> omega
      · dsimp only
        split_ifs <;> omega
      · dsimp only
        omega

theorem decodeFrom_tails {tails : Bytes} (owed : Tails c s tails) (rest : Bytes) :
    decodeFrom (some s) (tails ++ rest) = c :: decode rest := by
  induction owed with
  | last low high last _ value =>
    rw [List.singleton_append, decodeFrom_cons, feed_last low high last value]
    rfl
  | more low high more _ _ ih =>
    rw [List.cons_append, decodeFrom_cons, feed_within low high more]
    exact ih

theorem decode_encodeChar_append (c : Char) (rest : Bytes) :
    decode (encodeChar c ++ rest) = c :: decode rest := by
  rcases encodeChar_cases c with ⟨one, small⟩ | ⟨b, s, tails, many, starts, owed, -⟩
  · rw [one, List.singleton_append, decode, decodeFrom_cons, feed, lead, if_pos small,
      Char.ofNat_toNat]
    rfl
  · rw [many, List.cons_append, decode, decodeFrom_cons, feed, starts]
    exact decodeFrom_tails owed rest

theorem decode_encode_append (t : Text) (rest : Bytes) :
    decode (encode t ++ rest) = t ++ decode rest := by
  induction t with
  | nil => rfl
  | cons c t ih => rw [encode_cons, List.append_assoc, decode_encodeChar_append, ih, List.cons_append]

theorem decode_encode (t : Text) : decode (encode t) = t := by
  have read := decode_encode_append t []
  rwa [List.append_nil, show decode [] = [] from rfl, List.append_nil] at read

/-- No character that has begun takes in a newline. -/
def Waits (s : Option Started) : Prop := ∀ started ∈ s, 0x80 ≤ started.low

theorem lead_waits (b : Nat) : Waits (lead b).2 := by
  intro started begun
  unfold lead at begun
  split_ifs at begun <;> simp only [Option.mem_def, Option.some.injEq, reduceCtorEq] at begun
  all_goals rw [← begun]
  all_goals exact Nat.le_of_ble_eq_true rfl

theorem feed_waits (s : Option Started) (b : Nat) : Waits (feed s b).2 := by
  cases s with
  | none => exact lead_waits b
  | some s =>
    simp only [feed]
    split_ifs
    · simp [Waits]
    · simp [Waits]
    · exact lead_waits b

theorem decodeFrom_newline {s : Option Started} (waits : Waits s) (rest : Bytes) :
    decodeFrom s (10 :: rest) = decodeFrom s [] ++ '\n' :: decode rest := by
  cases s with
  | none => rfl
  | some s =>
    have floor := waits s rfl
    have refused : feed (some s) 10 = (replacement :: (lead 10).1, (lead 10).2) := by
      simp only [feed]
      rw [if_neg (by omega)]
    rw [decodeFrom_cons, refused]
    rfl

theorem decode_newline_append (line rest : Bytes) :
    decode (line ++ 10 :: rest) = decode line ++ '\n' :: decode rest := by
  have loop : ∀ s, Waits s →
      decodeFrom s (line ++ 10 :: rest) = decodeFrom s line ++ '\n' :: decode rest := by
    induction line with
    | nil => exact fun s waits => decodeFrom_newline waits rest
    | cons b line ih =>
      intro s _
      rw [List.cons_append, decodeFrom_cons, decodeFrom_cons, ih _ (feed_waits s b),
        List.append_assoc]
  exact loop none (by simp [Waits])

theorem decodeFrom_tails_cut {tails : Bytes} (owed : Tails c s tails) {n : Nat}
    (cut : n < tails.length) : decodeFrom (some s) (tails.take n) = [replacement] := by
  induction owed generalizing n with
  | last low high last floor value =>
    obtain rfl : n = 0 := by simpa using cut
    rfl
  | more low high more floor _ ih =>
    cases n with
    | zero => rfl
    | succ n =>
      rw [List.take_succ_cons, decodeFrom_cons, feed_within low high more]
      exact ih (by simpa using cut)

theorem decode_cut (t : Text) {n : Nat} (cut : n < (encode t).length) :
    ∃ x c y, t = x ++ c :: y ∧ (decode ((encode t).take n) = x ∨
      127 < c.toNat ∧ decode ((encode t).take n) = x ++ [replacement]) := by
  induction t generalizing n with
  | nil => simp at cut
  | cons c t ih =>
    rw [encode_cons] at cut ⊢
    rcases Nat.lt_or_ge n (encodeChar c).length with inside | past
    · refine ⟨[], c, t, rfl, ?_⟩
      rw [List.take_append_of_le_length inside.le]
      cases n with
      | zero => exact .inl rfl
      | succ n =>
        right
        rcases encodeChar_cases c with ⟨one, -⟩ | ⟨b, s, tails, many, starts, owed, high⟩
        · simp [one] at inside
        · rw [many] at inside ⊢
          refine ⟨high, ?_⟩
          rw [List.take_succ_cons, decode, decodeFrom_cons, feed, starts]
          exact decodeFrom_tails_cut owed (by simpa using inside)
    · obtain ⟨k, rfl⟩ := Nat.exists_eq_add_of_le past
      rw [List.length_append] at cut
      obtain ⟨x, d, y, rfl, read⟩ := ih (n := k) (by omega)
      refine ⟨c :: x, d, y, rfl, ?_⟩
      rw [List.take_append, List.take_of_length_le past, Nat.add_sub_cancel_left,
        decode_encodeChar_append]
      rcases read with read | ⟨high, read⟩
      · exact .inl (by rw [read])
      · exact .inr ⟨high, by rw [read]; rfl⟩

theorem mem_encodeChar {b : Nat} (member : b ∈ encodeChar c) : b = c.toNat ∨ 0x80 ≤ b := by
  unfold encodeChar at member
  simp only at member
  split_ifs at member <;> simp only [List.mem_cons, List.not_mem_nil, or_false] at member <;> omega

theorem ascii_not_mem_encode {t : Text} {d : Char} (ascii : d.toNat < 0x80) (none : d ∉ t) :
    d.toNat ∉ encode t := by
  intro member
  obtain ⟨c, inText, its⟩ := List.mem_flatMap.mp member
  rcases mem_encodeChar its with same | high
  · exact none (Char.toNat_inj.mp same ▸ inText)
  · omega

theorem newline_not_mem_encode {t : Text} (one : '\n' ∉ t) : 10 ∉ encode t :=
  ascii_not_mem_encode (by decide) one

theorem encode_injective : Function.Injective encode :=
  Function.LeftInverse.injective decode_encode

end Utf8

end AutoTrade
