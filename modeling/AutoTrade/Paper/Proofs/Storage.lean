import AutoTrade.Common.JsonScan
import AutoTrade.Misc.Runs
import AutoTrade.Paper.Storage

/-!
# What a journal reads back

A journal is a sequence of chunks, each the first bytes of a row and a newline. A whole
chunk whose strings break no line is one row; every other chunk is at least one skipped
line, and what else is read of it carries no identity.
-/

namespace AutoTrade

namespace Storage

open Json JsonLines JsonScan Utf8

theorem readLine_eq (read : List JsonObject × Nat) (line : Text) :
    readLine read line =
      (read.1 ++ (readLine ([], 0) line).1, read.2 + (readLine ([], 0) line).2) := by
  simp only [readLine]
  split_ifs
  · simp
  · cases loadObject (stripText line) <;> simp

theorem foldl_readLine (read : List JsonObject × Nat) (lines : List Text) :
    lines.foldl readLine read =
      (read.1 ++ (readLines lines).1, read.2 + (readLines lines).2) := by
  induction lines generalizing read with
  | nil => simp [readLines]
  | cons line lines ih =>
    have whole : readLines (line :: lines) = _ := ih (readLine ([], 0) line)
    rw [List.foldl_cons, ih, whole, readLine_eq read line]
    simp [Nat.add_assoc]

theorem readLines_append (lines more : List Text) :
    readLines (lines ++ more) = ((readLines lines).1 ++ (readLines more).1,
      (readLines lines).2 + (readLines more).2) := by
  rw [readLines, List.foldl_append]
  exact foldl_readLine (readLines lines) more

theorem readLines_cons (line : Text) (lines : List Text) :
    readLines (line :: lines) = ((readLine ([], 0) line).1 ++ (readLines lines).1,
      (readLine ([], 0) line).2 + (readLines lines).2) :=
  readLines_append [line] lines

theorem readLine_bad {line : Text} (filled : stripText line ≠ [])
    (bad : loadObject (stripText line) = none) : readLine ([], 0) line = ([], 1) := by
  simp [readLine, filled, bad]

theorem mem_readLines {lines : List Text} {row : JsonObject} (member : row ∈ (readLines lines).1) :
    ∃ line ∈ lines, loadObject (stripText line) = some row := by
  induction lines with
  | nil => simp [readLines] at member
  | cons line lines ih =>
    rw [readLines_cons, List.mem_append] at member
    rcases member with here | later
    · refine ⟨line, List.mem_cons_self, ?_⟩
      simp only [readLine] at here
      split_ifs at here
      · simp at here
      · cases loaded : loadObject (stripText line) with
        | none => simp [loaded] at here
        | some fields =>
          obtain rfl : row = fields := by simpa [loaded] using here
          rfl
    · obtain ⟨other, inside, loaded⟩ := ih later
      exact ⟨other, List.mem_cons_of_mem line inside, loaded⟩

theorem readLines_newline {t : Text} (none : '\r' ∉ t) :
    readLines (splitLines (t ++ ['\n'])) = readLines (splitLines t) := by
  have ends : t.splitOnP isLineBreak = splitLines t ∨
      t.splitOnP isLineBreak = splitLines t ++ [[]] := by
    induction t with
    | nil => exact .inr rfl
    | cons c t ih =>
      have other : c ≠ '\r' := fun same => none (same ▸ List.mem_cons_self)
      have later := ih fun member => none (List.mem_cons_of_mem c member)
      rw [List.splitOnP_cons_eq_if_modifyHead]
      cases breaks : isLineBreak c with
      | true =>
        rw [splitLines_break breaks other, if_pos rfl]
        rcases later with same | more
        · exact .inl (by rw [same])
        · exact .inr (by rw [more]; rfl)
      | false =>
        rw [splitLines_cons breaks]
        rcases later with same | more
        · left
          rw [same]
          cases lines : splitLines t with
          | nil => exact absurd (same.trans lines) (List.splitOnP_ne_nil _ _)
          | cons line lines => rfl
        · rw [more]
          cases splitLines t with
          | nil => exact .inl rfl
          | cons line lines => exact .inr rfl
  rw [show t ++ ['\n'] = t ++ '\n' :: [] from rfl, splitLines_newline none]
  rcases ends with same | more
  · rw [same]
    simp [splitLines]
  · rw [more, readLines_append, readLines_append]
    simp [readLines, readLine, splitLines, stripText]

/-- The first bytes of a row. -/
structure Chunk where
  payload : JsonObject
  size : Nat
  pos : 0 < size
  le : size ≤ (rowBytes payload).length

namespace Chunk

def bytes (c : Chunk) : Bytes := (rowBytes c.payload).take c.size

def text (c : Chunk) : Text := decode c.bytes

/-- All of the row is there. -/
def Whole (c : Chunk) : Prop := c.size = (rowBytes c.payload).length

/-- The chunk is a row and nothing else. -/
def Row (c : Chunk) : Prop := c.Whole ∧ breaksLine c.payload = false

/-- What is read of the chunk. -/
def read (c : Chunk) : List JsonObject × Nat := readLines (c.text.splitOnP isLineBreak)

theorem text_cases (c : Chunk) :
    (c.Whole ∧ c.text = dumps (obj c.payload)) ∨
      ∃ x d y, dumps (obj c.payload) = '{' :: (x ++ d :: y) ∧
        (c.text = '{' :: x ∨ 127 < d.toNat ∧ c.text = '{' :: x ++ [replacement]) := by
  rcases Nat.lt_or_eq_of_le c.le with short | whole
  · right
    obtain ⟨body, opened⟩ := dumps_obj c.payload
    have brace : encodeChar '{' = [123] := by decide
    have row : rowBytes c.payload = 123 :: encode (body ++ ['}']) := by
      rw [rowBytes, opened, encode_cons, brace]
      rfl
    obtain ⟨n, size⟩ : ∃ n, c.size = n + 1 := ⟨c.size - 1, by have := c.pos; omega⟩
    have inside : n < (encode (body ++ ['}'])).length := by
      rw [row, List.length_cons] at short
      omega
    obtain ⟨x, d, y, split, read⟩ := decode_cut _ inside
    have starts : c.text = '{' :: decode ((encode (body ++ ['}'])).take n) := by
      rw [text, bytes, row, size, List.take_succ_cons]
      exact decode_encodeChar_append '{' _
    refine ⟨x, d, y, by rw [opened, split], ?_⟩
    rcases read with cut | ⟨high, inChar⟩
    · exact .inl (by rw [starts, cut])
    · exact .inr ⟨high, by rw [starts, inChar]; rfl⟩
  · refine .inl ⟨whole, ?_⟩
    rw [text, bytes, List.take_of_length_le whole.ge, rowBytes, decode_encode]

theorem quiet_text (c : Chunk) : quiet .outside c.text = true := by
  have whole := (rounds_dumps (obj c.payload)).2
  rcases c.text_cases with ⟨-, text⟩ | ⟨x, d, y, split, text⟩
  · rwa [text]
  · rw [split, ← List.cons_append, quiet_append, Bool.and_eq_true] at whole
    rcases text with cut | ⟨high, inChar⟩
    · rw [cut]
      exact whole.1
    · rw [inChar, quiet_append, whole.1]
      -- a character past ASCII stands in a string, and U+FFFD in its place
      have plain := not_structural_of_high high
      have quote : d ≠ '"' := by
        rintro rfl
        exact absurd high (by decide)
      cases stands : scan .outside ('{' :: x) with
      | outside => simp [stands, quiet, plain, quote] at whole
      | inside => simp [quiet]
      | escaped => simp [quiet]

variable {c : Chunk}

theorem not_textBreak {d : Char} (member : d ∈ c.text) : isTextBreak d = false := by
  rcases c.text_cases with ⟨-, text⟩ | ⟨x, e, y, split, text⟩
  · exact isTextBreak_eq_false (text ▸ member)
  · have kept : ∀ d ∈ '{' :: x, isTextBreak d = false := by
      intro d inside
      have written : d ∈ dumps (obj c.payload) := by
        rw [split, ← List.cons_append]
        exact List.mem_append_left _ inside
      exact isTextBreak_eq_false written
    rcases text with cut | ⟨-, inChar⟩
    · exact kept d (cut ▸ member)
    · rw [inChar] at member
      rcases List.mem_append.mp member with inside | last
      · exact kept d inside
      · rw [List.mem_singleton.mp last]
        decide

theorem first_not_loaded {first : Text} (start : first <+: c.text)
    (proper : c.Whole → first ≠ c.text) (open_ : first ≠ []) :
    stripText first ≠ [] ∧ loadObject (stripText first) = none := by
  have brace : ∃ rest, first = '{' :: rest := by
    obtain ⟨z, whole⟩ := start
    cases first with
    | nil => exact absurd rfl open_
    | cons d first =>
      obtain ⟨body, opened⟩ := dumps_obj c.payload
      rcases c.text_cases with ⟨-, text⟩ | ⟨x, e, y, -, cut | ⟨-, inChar⟩⟩
      · rw [text, opened] at whole
        exact ⟨first, by rw [(List.cons.inj whole).1]⟩
      · rw [cut] at whole
        exact ⟨first, by rw [(List.cons.inj whole).1]⟩
      · rw [inChar] at whole
        exact ⟨first, by rw [(List.cons.inj whole).1]⟩
  obtain ⟨rest, rfl⟩ := brace
  refine ⟨stripText_brace rest, ?_⟩
  have short : ∀ {x z : Text}, dumps (obj c.payload) = x ++ z → z ≠ [] → '{' :: rest <+: x →
      loadObject (stripText ('{' :: rest)) = none := by
    rintro x z split more ⟨w, rfl⟩
    rw [List.append_assoc] at split
    exact loadObject_strip_short split (List.append_ne_nil_of_right_ne_nil _ more)
  rcases c.text_cases with ⟨whole, text⟩ | ⟨x, d, y, split, cut | ⟨high, inChar⟩⟩
  · obtain ⟨z, parts⟩ := start
    refine short (z := z) (by rw [← text, parts]) ?_ (List.prefix_refl _)
    rintro rfl
    exact proper whole (by rw [← parts, List.append_nil])
  · exact short (by rw [split]; rfl) (List.cons_ne_nil d y) (cut ▸ start)
  · rw [inChar] at start
    rcases List.prefix_concat_iff.mp start with all | inside
    · rw [all]
      have last : (stripText ('{' :: x ++ [replacement])).getLast? = some replacement := by
        have other : isSpace '{' = false := by decide
        rw [List.cons_append, stripText_eq_self other (by decide)]
        rw [← List.cons_append, List.getLast?_append]
        rfl
      rw [loadObject, loads_of_last last (by decide) (by decide)]
    · exact short (by rw [split]; rfl) (List.cons_ne_nil d y) inside

theorem later_no_identity {a piece z : Text} {b : Char} (split : c.text = a ++ b :: (piece ++ z))
    (breaks : isLineBreak b = true) {row : JsonObject}
    (loaded : loadObject (stripText piece) = some row) : row.field "event_id" = none := by
  have every : ∀ b ∈ ['\n', '\r', '\x0b', '\x0c', '\x1c', '\x1d', '\x1e', '\u0085', '\u2028',
      '\u2029'], isStructural b = false ∧ b ≠ '"' ∧ b ≠ '\\' :=
    List.all_iff_forall_prop.mp (by decide)
  obtain ⟨plain, quote, slash⟩ := every b (by simpa [isLineBreak] using breaks)
  have whole := c.quiet_text
  rw [split] at whole
  have inside := quiet_after whole plain quote slash
  rw [quiet_append, Bool.and_eq_true] at inside
  have stripped : quiet .inside (stripText piece) = true := quiet_stripText inside.1
  have object : loads (stripText piece) = some (obj row) := by
    simp only [loadObject] at loaded
    split at loaded
    · rename_i fields read
      obtain rfl := Option.some.inj loaded
      exact read
    · cases loaded
  have keys := key_plain_of_inside object stripped
  rw [JsonObject.field, Option.eq_none_iff_forall_not_mem]
  intro value found
  have letter : 'v' ∈ "event_id".toList := by decide
  exact absurd (keys _ (JsonObject.mem_of_field found) 'v' letter) (by decide)

theorem pieces_of_unbroken (unbroken : breaksLine c.payload = false) :
    c.text.splitOnP isLineBreak = [c.text] := by
  have plain : ∀ d ∈ dumps (obj c.payload), isLineBreak d = false := by
    intro d written
    by_contra breaks
    rw [Bool.not_eq_false] at breaks
    rw [(mem_dumps_break written breaks).2] at unbroken
    cases unbroken
  have each : ∀ d ∈ c.text, isLineBreak d = false := by
    intro d member
    rcases c.text_cases with ⟨-, text⟩ | ⟨x, e, y, split, text⟩
    · exact plain d (text ▸ member)
    · have kept : ∀ d ∈ '{' :: x, isLineBreak d = false := fun d inside => plain d (by
        rw [split, ← List.cons_append]
        exact List.mem_append_left _ inside)
      rcases text with cut | ⟨-, inChar⟩
      · exact kept d (cut ▸ member)
      · rw [inChar] at member
        rcases List.mem_append.mp member with inside | last
        · exact kept d inside
        · rw [List.mem_singleton.mp last]
          decide
  obtain ⟨first, later, pieces, start, -⟩ := splitOnP_pieces isLineBreak c.text
  rcases start with ⟨rfl, rfl, -⟩ | ⟨b, rest, whole, breaks⟩
  · exact pieces
  · have inside : b ∈ c.text := by
      rw [whole]
      simp
    rw [each b inside] at breaks
    cases breaks

theorem text_ne_nil (c : Chunk) : c.text ≠ [] := by
  rcases c.text_cases with ⟨-, text⟩ | ⟨x, e, y, -, text | ⟨-, text⟩⟩
  · obtain ⟨body, opened⟩ := dumps_obj c.payload
    rw [text, opened]
    exact List.cons_ne_nil _ _
  · rw [text]
    exact List.cons_ne_nil _ _
  · rw [text]
    exact List.cons_ne_nil _ _

theorem read_row (row : c.Row) : c.read = ([c.payload], 0) := by
  have text : c.text = dumps (obj c.payload) := by
    rcases c.text_cases with ⟨-, text⟩ | ⟨x, d, y, split, cut⟩
    · exact text
    · -- a whole row is read to its end
      rw [text, bytes, List.take_of_length_le row.1.ge, rowBytes, decode_encode]
  have loaded : loadObject (stripText c.text) = some c.payload := by
    rw [text]
    exact loadObject_strip_dumps c.payload
  have filled : stripText c.text ≠ [] := by
    intro blank
    rw [blank] at loaded
    cases loaded
  rw [read, pieces_of_unbroken row.2]
  simp [readLines, readLine, filled, loaded]

theorem read_scrap (unbroken : breaksLine c.payload = false) (scrap : ¬ c.Whole) :
    c.read = ([], 1) := by
  obtain ⟨filled, bad⟩ := first_not_loaded (List.prefix_refl c.text) (fun whole => absurd whole scrap)
    c.text_ne_nil
  rw [read, pieces_of_unbroken unbroken]
  exact readLine_bad filled bad

theorem read_other (other : ¬ c.Row) :
    0 < c.read.2 ∧ ∀ row ∈ c.read.1, row.field "event_id" = none := by
  obtain ⟨first, later, pieces, start, each⟩ := splitOnP_pieces isLineBreak c.text
  have proper : stripText first ≠ [] ∧ loadObject (stripText first) = none := by
    rcases start with ⟨rfl, rfl, none⟩ | ⟨b, rest, whole, breaks⟩
    · refine first_not_loaded (List.prefix_refl _) (fun whole => ?_) c.text_ne_nil
      -- a whole row without a break in it would be read
      have broken : breaksLine c.payload = true := by
        by_contra unbroken
        exact other ⟨whole, by simpa using unbroken⟩
      have text : c.text = dumps (obj c.payload) := by
        rw [text, bytes, List.take_of_length_le whole.ge, rowBytes, decode_encode]
      obtain ⟨s, inside, held⟩ := List.any_eq_true.mp broken
      obtain ⟨d, inString, raw⟩ := List.any_eq_true.mp held
      obtain ⟨breaks, high⟩ := rawBreak_spec.mp raw
      have written : d ∈ c.text := text ▸ raw_mem_dumps high inside inString
      rw [none d written] at breaks
      cases breaks
    · refine first_not_loaded ⟨b :: rest, whole.symm⟩ (fun _ same => ?_) ?_
      · rw [same] at whole
        simpa using congrArg List.length whole
      · rintro rfl
        have brace : ∀ z, c.text ≠ b :: z := by
          intro z same
          obtain ⟨body, opened⟩ := dumps_obj c.payload
          have opens : ∃ z', c.text = '{' :: z' := by
            rcases c.text_cases with ⟨-, text⟩ | ⟨x, e, y, -, text | ⟨-, text⟩⟩
            · exact ⟨_, text.trans opened⟩
            · exact ⟨_, text⟩
            · exact ⟨_, text⟩
          obtain ⟨z', opens⟩ := opens
          rw [opens] at same
          rw [← (List.cons.inj same).1] at breaks
          exact absurd breaks (by decide)
        exact brace rest whole
  have skips := readLine_bad proper.1 proper.2
  rw [read, pieces, readLines_cons, skips]
  refine ⟨by simp, ?_⟩
  intro row member
  simp only [List.nil_append] at member
  obtain ⟨piece, inside, loaded⟩ := mem_readLines member
  obtain ⟨a, b, z, split, breaks⟩ := each piece inside
  exact later_no_identity split breaks loaded

end Chunk

def bytesOf (chunks : List Chunk) : Bytes := chunks.flatMap fun c => c.bytes ++ [10]

/-- What is read of a file of chunks. -/
def readChunks (chunks : List Chunk) : List JsonObject × Nat :=
  (chunks.flatMap fun c => c.read.1, (chunks.map fun c => c.read.2).sum)

/-- A file holds chunks, the newline of the last one there or not. -/
def Holds (file : Bytes) (chunks : List Chunk) : Prop :=
  file = bytesOf chunks ∨ file ++ [10] = bytesOf chunks

theorem decode_bytesOf (chunks : List Chunk) :
    decode (bytesOf chunks) = chunks.flatMap fun c => c.text ++ ['\n'] := by
  induction chunks with
  | nil => rfl
  | cons c chunks ih =>
    have split : bytesOf (c :: chunks) = c.bytes ++ 10 :: bytesOf chunks := by
      simp [bytesOf]
    rw [split, decode_newline_append, ih]
    simp [Chunk.text]

theorem carriage_not_mem {chunks : List Chunk} : '\r' ∉ decode (bytesOf chunks) := by
  intro member
  rw [decode_bytesOf] at member
  obtain ⟨c, -, inside⟩ := List.mem_flatMap.mp member
  rcases List.mem_append.mp inside with here | last
  · exact absurd (Chunk.not_textBreak here) (by decide)
  · simp at last

theorem readJsonl_bytesOf (chunks : List Chunk) :
    readJsonl (bytesOf chunks) = readChunks chunks := by
  rw [readJsonl, universalNewlines_eq_self carriage_not_mem, decode_bytesOf]
  induction chunks with
  | nil => rfl
  | cons c chunks ih =>
    have none : '\r' ∉ c.text := fun member => absurd (Chunk.not_textBreak member) (by decide)
    rw [List.flatMap_cons, List.append_assoc, List.singleton_append, splitLines_newline none,
      readLines_append, ih]
    simp [readChunks, Chunk.read]

namespace Holds

variable {file : Bytes} {chunks : List Chunk}

theorem read_eq (holds : Holds file chunks) : readJsonl file = readChunks chunks := by
  rcases holds with rfl | open_
  · exact readJsonl_bytesOf chunks
  · have closed : decode (file ++ [10]) = decode file ++ ['\n'] := decode_newline_append file []
    have none : '\r' ∉ decode file := by
      intro member
      have inside : '\r' ∈ decode (bytesOf chunks) := by
        rw [← open_, closed]
        exact List.mem_append_left _ member
      exact carriage_not_mem inside
    have none' : '\r' ∉ decode (file ++ [10]) := open_ ▸ carriage_not_mem
    rw [← readJsonl_bytesOf, ← open_, readJsonl, readJsonl, universalNewlines_eq_self none,
      universalNewlines_eq_self none', closed, readLines_newline none]

theorem healed (holds : Holds file chunks) : file ++ healing file = bytesOf chunks := by
  rcases List.eq_nil_or_concat' chunks with rfl | ⟨before, c, rfl⟩
  · rcases holds with rfl | open_
    · rfl
    · simp [bytesOf] at open_
  · have split : bytesOf (before ++ [c]) = (bytesOf before ++ c.bytes) ++ [10] := by
      simp [bytesOf]
    rcases holds with rfl | open_
    · rw [split, healing, List.getLast?_append]
      simp
    · have same : file = bytesOf before ++ c.bytes :=
        List.append_cancel_right (open_.trans split)
      have filled : c.bytes ≠ [] := by
        rw [Chunk.bytes, ne_eq, List.take_eq_nil_iff]
        rintro (none | none)
        · exact absurd none c.pos.ne'
        · have bound := c.le
          rw [none] at bound
          exact absurd (Nat.le_zero.mp bound) c.pos.ne'
      have last : file.getLast? = some (c.bytes.getLast filled) := by
        rw [same, List.getLast?_append_of_ne_nil _ filled, List.getLast?_eq_some_getLast filled]
      have newline : '\n' ∉ dumps (obj c.payload) := fun member =>
        absurd (isTextBreak_eq_false member) (by decide)
      have other : c.bytes.getLast filled ≠ 10 := by
        intro ten
        have member : 10 ∈ rowBytes c.payload := by
          rw [← ten]
          exact List.mem_of_mem_take (List.getLast_mem filled)
        exact newline_not_mem_encode newline member
      rw [healing, last]
      simp [other, open_]

end Holds

theorem rowBytes_pos (payload : JsonObject) : 0 < (rowBytes payload).length := by
  obtain ⟨body, opened⟩ := dumps_obj payload
  rw [rowBytes, opened, encode_cons, List.length_append]
  have brace : (encodeChar '{').length = 1 := by decide
  omega

/-- The chunks once `n` bytes of a row, healing first, are written. -/
def grown (chunks : List Chunk) (file : Bytes) (payload : JsonObject) (n : Nat) : List Chunk :=
  if more : (healing file).length < n then
    chunks ++ [⟨payload, min (n - (healing file).length) (rowBytes payload).length,
      by have := rowBytes_pos payload; omega, by omega⟩]
  else chunks

theorem Holds.grow {file : Bytes} {chunks : List Chunk} (holds : Holds file chunks)
    (payload : JsonObject) (n : Nat) :
    Holds (file ++ (healing file ++ rowBytes payload ++ [10]).take n)
      (grown chunks file payload n) := by
  have healed := holds.healed
  rw [grown, List.append_assoc]
  split_ifs with more
  · rw [List.take_append, List.take_of_length_le more.le, ← List.append_assoc, healed]
    rcases Nat.lt_or_ge (rowBytes payload).length (n - (healing file).length) with past | inside
    · left
      rw [List.take_of_length_le (by rw [List.length_append]; exact past)]
      simp [bytesOf, Chunk.bytes, Nat.min_eq_right past.le]
    · right
      rw [List.take_append_of_le_length inside]
      simp [bytesOf, Chunk.bytes, Nat.min_eq_left inside]
  · rw [List.take_append_of_le_length (by omega)]
    have small : (healing file).length ≤ 1 := by
      unfold healing
      split_ifs <;> simp
    rcases Nat.eq_zero_or_pos n with rfl | pos
    · simpa using holds
    · left
      rw [List.take_of_length_le (by omega), healed]

section

variable {payload : JsonObject} {identity : Text}

theorem pending_eq (named : eventId payload = .ok identity) (file : Bytes) :
    pending file payload =
      .ok (if present file identity then [] else healing file ++ rowBytes payload ++ [10]) := by
  rw [pending, named]
  rfl

theorem appendJsonlOnce_eq (file : Bytes) (payload : JsonObject) :
    ∃ n, (healing file).length + (rowBytes payload).length < n ∧
      appendJsonlOnce file payload = tornAppend payload file n := by
  refine ⟨(healing file ++ rowBytes payload ++ [10]).length, by simp, ?_⟩
  rw [appendJsonlOnce, tornAppend, pending]
  cases eventId payload with
  | error e => rfl
  | ok identity =>
    cases there : present file identity with
    | true => simp [there, Except.map]
    | false => simp only [there, Except.map, Bool.false_eq_true, if_false, List.take_length]

variable {file : Bytes}

theorem tornAppend_holds {chunks : List Chunk} (holds : Holds file chunks)
    (named : eventId payload = .ok identity) (n : Nat) :
    ∃ file', tornAppend payload file n = .ok file' ∧
      Holds file' (if present file identity then chunks else grown chunks file payload n) := by
  rw [tornAppend, pending_eq named]
  cases there : present file identity with
  | true => exact ⟨file, by simp [Except.map], holds⟩
  | false => exact ⟨_, rfl, holds.grow payload n⟩

theorem present_congr {file file' : Bytes} (same : (readJsonl file').1 = (readJsonl file).1)
    (identity : Text) : present file' identity = present file identity := by
  rw [present, same, present]

theorem field_of_eventId (named : eventId payload = .ok identity) :
    payload.field "event_id" = some (str identity) := by
  unfold eventId at named
  split at named
  · rename_i text found
    split_ifs at named
    rw [found, Except.ok.inj named]
  · cases named

theorem present_of_mem (named : eventId payload = .ok identity)
    (member : payload ∈ (readJsonl file).1) : present file identity = true :=
  List.any_eq_true.mpr ⟨payload, member, by simpa using field_of_eventId named⟩

theorem read_grown {chunks : List Chunk} (unbroken : breaksLine payload = false) (n : Nat) :
    (readChunks (grown chunks file payload n)).1 = (readChunks chunks).1 ++
      if (healing file).length + (rowBytes payload).length ≤ n then [payload] else [] := by
  rw [grown]
  have filled := rowBytes_pos payload
  split_ifs with more whole whole
  · have row : Chunk.Row ⟨payload, min (n - (healing file).length) (rowBytes payload).length,
        by omega, by omega⟩ := ⟨by simp only [Chunk.Whole]; omega, unbroken⟩
    simp [readChunks, Chunk.read_row row]
  · have scrap : ¬ Chunk.Whole ⟨payload, min (n - (healing file).length) (rowBytes payload).length,
        by omega, by omega⟩ := by
      simp only [Chunk.Whole]
      omega
    have read := Chunk.read_scrap unbroken scrap
    simp [readChunks, read]
  · omega
  · simp

theorem tornAppend_isOk (named : eventId payload = .ok identity) (file : Bytes) (n : Nat) :
    ∃ file', tornAppend payload file n = .ok file' := by
  rw [tornAppend, pending_eq named]
  exact ⟨_, rfl⟩

theorem attempt_isOk {a : Attempt} (named : eventId a.payload = .ok identity) (file : Bytes) :
    ∃ file', attempt file a = .ok file' := by
  obtain ⟨torn, tears⟩ := foldlM_isOk (f := tornAppend a.payload) (l := a.tears)
    (fun n _ file => tornAppend_isOk named file n) file
  obtain ⟨n, -, whole⟩ := appendJsonlOnce_eq torn a.payload
  obtain ⟨file', last⟩ := tornAppend_isOk named torn n
  exact ⟨file', bind_eq_ok.mpr ⟨torn, tears, whole.trans last⟩⟩

theorem attempt_invariant {P : Bytes → Prop} {a : Attempt} {file file' : Bytes}
    (step : ∀ n file file', tornAppend a.payload file n = .ok file' → P file → P file')
    (done : attempt file a = .ok file') (start : P file) : P file' := by
  obtain ⟨torn, tears, last⟩ := bind_eq_ok.mp done
  obtain ⟨n, -, whole⟩ := appendJsonlOnce_eq torn a.payload
  exact step n torn file' (whole ▸ last) (foldlM_invariant (fun n _ => step n) tears start)

end

/-- A file of chunks of any rows. -/
def Chunked (file : Bytes) : Prop := ∃ chunks, Holds file chunks

theorem Chunked.start : Chunked [] := ⟨[], .inl rfl⟩

theorem Chunked.torn {payload : JsonObject} {identity : Text} {n : Nat} {file file' : Bytes}
    (named : eventId payload = .ok identity) (step : tornAppend payload file n = .ok file')
    (chunked : Chunked file) : Chunked file' := by
  obtain ⟨chunks, holds⟩ := chunked
  obtain ⟨file'', left, holds'⟩ := tornAppend_holds holds named n
  obtain rfl := Except.ok.inj (left.symm.trans step)
  exact ⟨_, holds'⟩

theorem Chunked.broken_not_read {file : Bytes} (chunked : Chunked file) {payload : JsonObject}
    {identity : Text} (named : eventId payload = .ok identity)
    (broken : breaksLine payload = true) : payload ∉ (readJsonl file).1 := by
  obtain ⟨chunks, holds⟩ := chunked
  rw [holds.read_eq]
  intro member
  obtain ⟨c, -, inside⟩ := List.mem_flatMap.mp member
  by_cases row : c.Row
  · rw [Chunk.read_row row, List.mem_singleton] at inside
    have unbroken := row.2
    rw [← inside, broken] at unbroken
    cases unbroken
  · have none := (Chunk.read_other row).2 payload inside
    rw [field_of_eventId named] at none
    cases none

theorem attempt_read {a : Attempt} {identity : Text} (named : eventId a.payload = .ok identity)
    (unbroken : breaksLine a.payload = false) {file file' : Bytes} (chunked : Chunked file)
    (done : attempt file a = .ok file') :
    Chunked file' ∧ (readJsonl file').1 =
      if present file identity then (readJsonl file).1 else (readJsonl file).1 ++ [a.payload] := by
  -- part of an append leaves the rows, or adds the row where it is missing
  have part : ∀ n before after, tornAppend a.payload before n = .ok after → Chunked before →
      Chunked after ∧ ((readJsonl after).1 = (readJsonl before).1 ∧
          ((healing before).length + (rowBytes a.payload).length ≤ n →
            present before identity = true) ∨
        present before identity = false ∧
          (readJsonl after).1 = (readJsonl before).1 ++ [a.payload]) := by
    intro n before after step chunked
    refine ⟨chunked.torn named step, ?_⟩
    obtain ⟨chunks, holds⟩ := chunked
    obtain ⟨after', left, holds'⟩ := tornAppend_holds holds named n
    obtain rfl := Except.ok.inj (left.symm.trans step)
    rw [holds'.read_eq, holds.read_eq]
    cases there : present before identity with
    | true => exact .inl ⟨by simp, fun _ => rfl⟩
    | false =>
      rw [if_neg (by simp), read_grown unbroken n]
      split_ifs with whole
      · exact .inr ⟨rfl, rfl⟩
      · exact .inl ⟨List.append_nil _, fun reached => absurd reached whole⟩
  have row : ∀ {at_ : Bytes}, (readJsonl at_).1 = (readJsonl file).1 ++ [a.payload] →
      present at_ identity = true := fun read => present_of_mem named (by rw [read]; simp)
  obtain ⟨torn, tears, last⟩ := bind_eq_ok.mp done
  have before : Chunked torn ∧ ((readJsonl torn).1 = (readJsonl file).1 ∨
      present file identity = false ∧ (readJsonl torn).1 = (readJsonl file).1 ++ [a.payload]) := by
    refine foldlM_invariant (P := fun torn => Chunked torn ∧ ((readJsonl torn).1 =
      (readJsonl file).1 ∨ present file identity = false ∧
        (readJsonl torn).1 = (readJsonl file).1 ++ [a.payload])) ?_ tears ⟨chunked, .inl rfl⟩
    rintro n - s s' step ⟨chunked, read⟩
    obtain ⟨chunked', left⟩ := part n s s' step chunked
    refine ⟨chunked', ?_⟩
    rcases read with same | ⟨absent, added⟩
    · rcases left with ⟨still, -⟩ | ⟨missing, more⟩
      · exact .inl (still.trans same)
      · exact .inr ⟨(present_congr same identity).symm.trans missing, by rw [more, same]⟩
    · rcases left with ⟨still, -⟩ | ⟨missing, -⟩
      · exact .inr ⟨absent, still.trans added⟩
      · rw [row added] at missing
        cases missing
  obtain ⟨n, all, whole⟩ := appendJsonlOnce_eq torn a.payload
  obtain ⟨chunked', left⟩ := part n torn file' (whole ▸ last) before.1
  refine ⟨chunked', ?_⟩
  rcases before.2 with same | ⟨absent, added⟩
  · have alike := present_congr same identity
    rcases left with ⟨still, reached⟩ | ⟨missing, more⟩
    · rw [if_pos (alike ▸ reached all.le), still, same]
    · rw [if_neg (by rw [← alike, missing]; simp), more, same]
  · rcases left with ⟨still, -⟩ | ⟨missing, -⟩
    · rw [if_neg (by simp [absent]), still, added]
    · rw [row added] at missing
      cases missing

/-- The first of each, in order. -/
def firsts (payloads : List JsonObject) : List JsonObject :=
  payloads.foldl (fun seen payload => if payload ∈ seen then seen else seen ++ [payload]) []

theorem firsts_append (payloads : List JsonObject) (payload : JsonObject) :
    firsts (payloads ++ [payload]) =
      if payload ∈ firsts payloads then firsts payloads else firsts payloads ++ [payload] :=
  List.foldl_concat ..

theorem mem_firsts {payloads : List JsonObject} {payload : JsonObject} :
    payload ∈ firsts payloads ↔ payload ∈ payloads := by
  induction payloads using List.reverseRecOn with
  | nil => simp [firsts]
  | append_singleton payloads last ih =>
    rw [firsts_append]
    split_ifs with there
    · rw [ih, List.mem_append, List.mem_singleton]
      refine ⟨.inl, ?_⟩
      rintro (member | rfl)
      · exact member
      · exact ih.mp there
    · rw [List.mem_append, ih, List.mem_append]

theorem writeAll_chunked {attempts : List Attempt}
    (named : ∀ a ∈ attempts, ∃ identity, eventId a.payload = .ok identity) {file : Bytes}
    (written : writeAll attempts = .ok file) : Chunked file := by
  refine foldlM_invariant (fun a member before after done chunked => ?_) written .start
  obtain ⟨identity, its⟩ := named a member
  exact attempt_invariant (fun n _ _ step => Chunked.torn its step) done chunked

/-- A journal returns what was written: appends with one payload to an identity, each torn
anywhere any number of times and retried, and repeated, leave a file that is read as the
payloads in the order they were first appended, exactly when no string of a payload
holds a line break that stands unescaped in its row. -/
theorem journal_round_trip (attempts : List Attempt)
    (named : ∀ a ∈ attempts, ∃ identity, eventId a.payload = .ok identity)
    (distinct : ∀ a ∈ attempts, ∀ b ∈ attempts,
      eventId a.payload = eventId b.payload → a.payload = b.payload) :
    (∃ file, writeAll attempts = .ok file ∧
        (readJsonl file).1 = firsts (attempts.map Attempt.payload)) ↔
      ∀ a ∈ attempts, breaksLine a.payload = false := by
  constructor
  · rintro ⟨file, written, read⟩ a member
    by_contra broken
    obtain ⟨identity, its⟩ := named a member
    have missing := (writeAll_chunked named written).broken_not_read its (by simpa using broken)
    rw [read, mem_firsts] at missing
    exact missing (List.mem_map_of_mem member)
  · intro unbroken
    obtain ⟨file, written⟩ := foldlM_isOk (f := attempt) (l := attempts)
      (fun a member before => by
        obtain ⟨identity, its⟩ := named a member
        exact attempt_isOk its before) []
    refine ⟨file, written, ?_⟩
    refine (foldlM_along (P := fun done file => Chunked file ∧
      (readJsonl file).1 = firsts (done.map Attempt.payload)) ?_ written ⟨.start, rfl⟩).2
    rintro done a rest before after split step ⟨chunked, read⟩
    have member : a ∈ attempts := by simp [split]
    obtain ⟨identity, its⟩ := named a member
    obtain ⟨chunked', grown⟩ := attempt_read its (unbroken a member) chunked step
    refine ⟨chunked', ?_⟩
    rw [grown, List.map_append, List.map_singleton, firsts_append]
    -- the identity is there exactly when the payload is
    have there : present before identity = true ↔ a.payload ∈ firsts (done.map Attempt.payload) := by
      rw [← read]
      refine ⟨fun known => ?_, present_of_mem its⟩
      obtain ⟨row, inFile, alike⟩ := List.any_eq_true.mp known
      rw [read, mem_firsts, List.mem_map] at inFile
      obtain ⟨b, earlier, rfl⟩ := inFile
      have inAll : b ∈ attempts := by simp [split, earlier]
      obtain ⟨identity', its'⟩ := named b inAll
      have same : identity' = identity := by
        simpa [field_of_eventId its'] using alike
      have equal := distinct a member b inAll (by rw [its, its', same])
      rw [read, mem_firsts, List.mem_map]
      exact ⟨b, earlier, equal.symm⟩
    by_cases known : present before identity = true
    · rw [if_pos known, if_pos (there.mp known), read]
    · rw [if_neg known, if_neg fun member => known (there.mpr member), read]

/-- Two notes, the first torn inside its `é`. -/
def plainNotes : List Attempt :=
  [⟨[("event_id".toList, str "a".toList), ("note".toList, str "é\n".toList)], [28]⟩,
    ⟨[("event_id".toList, str "b".toList)], []⟩]

theorem plainNotes_read : ∃ file, writeAll plainNotes = .ok file ∧
    (readJsonl file).1 = firsts (plainNotes.map Attempt.payload) := by
  refine (journal_round_trip plainNotes ?_ ?_).mpr (by decide +kernel)
  · intro a member
    rcases List.mem_pair.mp member with rfl | rfl
    · exact ⟨"a".toList, rfl⟩
    · exact ⟨"b".toList, rfl⟩
  · intro a inside b member
    rcases List.mem_pair.mp inside with rfl | rfl <;> rcases List.mem_pair.mp member with rfl | rfl
    · exact fun _ => rfl
    · exact fun same => absurd same (by decide)
    · exact fun same => absurd same (by decide)
    · exact fun _ => rfl

/-- A note with a line separator in it. -/
def separatedNote : Attempt :=
  ⟨[("event_id".toList, str "a".toList), ("note".toList, str ['x', '\u2028', 'y'])], []⟩

theorem separatedNote_lost : ¬ ∀ attempts : List Attempt,
    (∀ a ∈ attempts, ∃ identity, eventId a.payload = .ok identity) →
    (∀ a ∈ attempts, ∀ b ∈ attempts, eventId a.payload = eventId b.payload →
      a.payload = b.payload) →
    ∃ file, writeAll attempts = .ok file ∧
      (readJsonl file).1 = firsts (attempts.map Attempt.payload) := by
  intro always
  obtain ⟨file, written, read⟩ := always [separatedNote]
    (by simp only [List.mem_singleton, forall_eq]; exact ⟨"a".toList, rfl⟩) (by simp)
  have lost : (writeAll [separatedNote]).map (fun file => (readJsonl file).1) = .ok [] := by
    decide +kernel
  rw [written] at lost
  have rows : (readJsonl file).1 = [] := Except.ok.inj lost
  rw [read] at rows
  exact absurd rows (by decide)

end Storage

end AutoTrade
