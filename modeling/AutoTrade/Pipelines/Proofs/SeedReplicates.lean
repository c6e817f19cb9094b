import AutoTrade.Misc.Runs
import AutoTrade.Pipelines.Proofs.SeedLine
import Mathlib.Data.List.Dedup

/-!
# When a seed replicate is the nominee but for its seed

`seed_change` compares lines without what ends them, and ends them where the interpreter does
not. What it accepts differs in the seed line alone exactly when the two files break their lines
alike outside it, and nothing but white space and a comment shares its source line.
-/

namespace AutoTrade

namespace SeedReplicates

open Artifacts
open SourceLine
open Utf8 (Bytes)

theorem place_unique {α : Type} {p q p' q' u v : List α} {l l' m m' : α} (differ : l ≠ l')
    (even : p.length = p'.length) (first : p ++ l :: q = u ++ m :: v)
    (second : p' ++ l' :: q' = u ++ m' :: v) :
    (p = u ∧ l = m ∧ q = v) ∧ p' = u ∧ l' = m' ∧ q' = v := by
  induction p generalizing p' u with
  | nil =>
    obtain rfl := List.length_eq_zero_iff.mp even.symm
    cases u with
    | nil =>
      obtain ⟨here, later⟩ := List.cons_eq_cons.mp first
      obtain ⟨here', later'⟩ := List.cons_eq_cons.mp second
      exact ⟨⟨rfl, here, later⟩, rfl, here', later'⟩
    | cons a u =>
      have here : l = a := List.head_eq_of_cons_eq first
      have here' : l' = a := List.head_eq_of_cons_eq second
      exact absurd (here.trans here'.symm) differ
  | cons a p ih =>
    cases p' with
    | nil => cases even
    | cons a' p' =>
      have even' : p.length = p'.length := Nat.succ.inj even
      cases u with
      | nil =>
        have later : p ++ l :: q = p' ++ l' :: q' :=
          (List.tail_eq_of_cons_eq first).trans (List.tail_eq_of_cons_eq second).symm
        exact absurd (List.head_eq_of_cons_eq (List.append_inj_right later even')) differ
      | cons b u =>
        have here : a = b := List.head_eq_of_cons_eq first
        have here' : a' = b := List.head_eq_of_cons_eq second
        obtain ⟨⟨rfl, same⟩, rfl, same'⟩ :=
          ih even' (List.tail_eq_of_cons_eq first) (List.tail_eq_of_cons_eq second)
        exact ⟨⟨by rw [here], same⟩, by rw [here'], same'⟩

theorem zip_unchanged {before after : List Text} {k : Nat} (even : before.length = after.length)
    (none : ((before.zip after).zipIdx k).filter (fun entry => entry.1.1 ≠ entry.1.2) = []) :
    before = after := by
  induction before generalizing after k with
  | nil => exact (List.length_eq_zero_iff.mp even.symm).symm
  | cons old before ih =>
    cases after with
    | nil => cases even
    | cons new after =>
      rw [List.zip_cons_cons, List.zipIdx_cons] at none
      by_cases same : old = new
      · rw [List.filter_cons_of_neg (by simpa using same)] at none
        rw [same, ih (Nat.succ.inj even) none]
      · rw [List.filter_cons_of_pos (by simpa using same)] at none
        cases none

theorem zip_changed {before after : List Text} {k : Nat} {entry : (Text × Text) × Nat}
    (even : before.length = after.length)
    (one : ((before.zip after).zipIdx k).filter (fun entry => entry.1.1 ≠ entry.1.2) = [entry]) :
    ∃ u v, before = u ++ entry.1.1 :: v ∧ after = u ++ entry.1.2 :: v ∧ entry.1.1 ≠ entry.1.2 := by
  induction before generalizing after k with
  | nil => cases one
  | cons old before ih =>
    cases after with
    | nil => cases even
    | cons new after =>
      rw [List.zip_cons_cons, List.zipIdx_cons] at one
      by_cases same : old = new
      · rw [List.filter_cons_of_neg (by simpa using same)] at one
        obtain ⟨u, v, rfl, rfl, differ⟩ := ih (Nat.succ.inj even) one
        exact ⟨old :: u, v, rfl, by rw [same]; rfl, differ⟩
      · rw [List.filter_cons_of_pos (by simpa using same)] at one
        obtain ⟨rfl, none⟩ := List.cons_eq_cons.mp one
        exact ⟨[], after, by rw [zip_unchanged (Nat.succ.inj even) none]; rfl, rfl, same⟩

theorem strip_first {α : Type} {w p p' u v : List α} {m m' : α} (differ : m ≠ m')
    (first : w ++ p = u ++ m :: v) (second : w ++ p' = u ++ m' :: v) :
    ∃ u', u = w ++ u' ∧ p = u' ++ m :: v ∧ p' = u' ++ m' :: v := by
  induction w generalizing u with
  | nil => exact ⟨u, rfl, first, second⟩
  | cons a w ih =>
    cases u with
    | nil =>
      have here : a = m := List.head_eq_of_cons_eq first
      have here' : a = m' := List.head_eq_of_cons_eq second
      exact absurd (here.symm.trans here') differ
    | cons b u =>
      obtain ⟨u', rfl, rest⟩ :=
        ih (List.tail_eq_of_cons_eq first) (List.tail_eq_of_cons_eq second)
      have here : a = b := List.head_eq_of_cons_eq first
      exact ⟨u', by rw [here]; rfl, rest⟩

theorem strip_both {α : Type} {w p p' x u v : List α} {m m' : α} (differ : m ≠ m')
    (first : w ++ (p ++ x) = u ++ m :: v) (second : w ++ (p' ++ x) = u ++ m' :: v) :
    ∃ u' v', p = u' ++ m :: v' ∧ p' = u' ++ m' :: v' := by
  obtain ⟨u', -, first', second'⟩ := strip_first differ first second
  have backward := congrArg List.reverse first'
  have backward' := congrArg List.reverse second'
  simp only [List.reverse_append, List.reverse_cons, List.append_assoc, List.cons_append,
    List.nil_append] at backward backward'
  obtain ⟨v', -, here, here'⟩ := strip_first differ backward backward'
  refine ⟨u', v'.reverse, ?_, ?_⟩
  · rw [← List.reverse_inj, here]
    simp
  · rw [← List.reverse_inj, here']
    simp

variable {tables : CharTables} {δ : Type} [DecidableEq δ] {sha256 : Bytes → δ}
  {nominee replicate : Revision} {path : Text}

theorem get?_revisionFiles (revision : Revision) (path : Text) :
    (revisionFiles sha256 revision).get? path = (revision.get? path).map sha256 :=
  Dict.get?_mapValues _ _ _

theorem mem_changedPaths (injective : Function.Injective sha256) :
    path ∈ changedPaths sha256 nominee replicate ↔ nominee.get? path ≠ replicate.get? path := by
  unfold changedPaths
  rw [(perm_sortTexts _).mem_iff, List.mem_filter, List.mem_dedup, List.mem_append]
  simp only [get?_revisionFiles, (Option.map_injective injective).ne_iff, decide_eq_true_eq,
    Dict.mem_keys_iff]
  rw [and_iff_right_iff_imp]
  intro differ
  by_contra absent
  simp only [not_or, not_exists] at absent
  rw [← Option.eq_none_iff_forall_ne_some, ← Option.eq_none_iff_forall_ne_some,
    Option.map_eq_none_iff, Option.map_eq_none_iff] at absent
  exact differ (absent.1.trans absent.2.symm)

/-- What is known of a replicate that is accepted: one file differs, in one line as they are
read, and both lines give one seed name different values. -/
structure Accepted (tables : CharTables) (nominee replicate : Revision) : Prop where
  differs : ∃ path before after old new u v, "output/".toList <+: path ∧ ".py".toList <:+ path ∧
    nominee.get? path = some (Utf8.encode before) ∧
    replicate.get? path = some (Utf8.encode after) ∧
    (∀ other, other ≠ path → nominee.get? other = replicate.get? other) ∧
    splitLines before = u ++ old :: v ∧ splitLines after = u ++ new :: v ∧ old ≠ new ∧
    ∃ name value value', seedLine tables old = some (name, value) ∧
      seedLine tables new = some (name, value') ∧ isSeedName name = true ∧
      intOf tables value ≠ intOf tables value'

theorem linesOf_eq_ok {revision : Revision} {lines : List Text}
    (read : linesOf revision path = .ok lines) :
    ∃ t, revision.get? path = some (Utf8.encode t) ∧ splitLines t = lines := by
  unfold linesOf at read
  cases found : (revision.get? path).bind readTextStrict with
  | none =>
    rw [found] at read
    cases read
  | some t =>
    rw [found] at read
    obtain ⟨bytes, here, strict⟩ := Option.bind_eq_some_iff.mp found
    unfold readTextStrict at strict
    simp only at strict
    split_ifs at strict with utf8
    obtain rfl := Option.some.inj strict
    refine ⟨Utf8.decode bytes, by rw [here, utf8], ?_⟩
    rw [← splitLines_universalNewlines]
    exact Except.ok.inj read

theorem changedLine_eq_ok {before after : List Text} {change : LineChange}
    (found : changedLine path before after = .ok change) :
    ∃ u v, before = u ++ change.before :: v ∧ after = u ++ change.after :: v ∧
      change.before ≠ change.after := by
  unfold changedLine at found
  split_ifs at found with even
  split at found
  · rename_i old new line one
    obtain rfl := Except.ok.inj found
    exact zip_changed (not_not.mp even) one
  · cases found

theorem seedChanged_eq_ok {change : LineChange} {line : Text}
    (gives : seedChanged tables change = .ok line) :
    ∃ name value value', seedLine tables change.before = some (name, value) ∧
      seedLine tables change.after = some (name, value') ∧ isSeedName name = true ∧
      intOf tables value ≠ intOf tables value' := by
  unfold seedChanged at gives
  split at gives
  · rename_i old new read read'
    split_ifs at gives with refused long same
    rw [not_or, not_not, Bool.not_eq_false] at refused
    exact ⟨old.1, old.2, new.2, read, by rw [refused.1]; exact read', refused.2, same⟩
  · cases gives

theorem accepted_of_seedChange (injective : Function.Injective sha256) {line : Text}
    (accepts : seedChange tables sha256 nominee replicate = .ok line) :
    Accepted tables nominee replicate := by
  obtain ⟨change, found, gives⟩ := bind_eq_ok.mp accepts
  unfold oneLineChange at found
  cases changed : changedPaths sha256 nominee replicate with
  | nil =>
    rw [changed] at found
    cases found
  | cons path paths =>
    rw [changed] at found
    simp only at found
    split_ifs at found with several kind
    obtain ⟨before, readBefore, found⟩ := bind_eq_ok.mp found
    obtain ⟨after, readAfter, found⟩ := bind_eq_ok.mp found
    obtain ⟨t, here, rfl⟩ := linesOf_eq_ok readBefore
    obtain ⟨t', here', rfl⟩ := linesOf_eq_ok readAfter
    obtain ⟨u, v, split, split', differ⟩ := changedLine_eq_ok found
    have alone : paths = [] := by
      by_contra more
      exact several (.inl more)
    have others : ∀ other, other ≠ path → nominee.get? other = replicate.get? other := by
      intro other apart
      by_contra differs
      have member := (mem_changedPaths injective).mpr differs
      rw [changed, alone] at member
      exact apart (List.mem_singleton.mp member)
    exact ⟨⟨path, t, t', change.before, change.after, u, v, kind.1, kind.2, here,
      here', others, split, split', differ, seedChanged_eq_ok gives⟩⟩

/-- Two texts are equal but for one source line, which gives a seed name another integer. -/
def OneSeedLine (tables : CharTables) (before after : Text) : Prop :=
  ∃ first old new ending last, sourceLines before = first ++ (old, ending) :: last ∧
    sourceLines after = first ++ (new, ending) :: last ∧
    ∃ name value value', seedLine tables old = some (name, value) ∧
      seedLine tables new = some (name, value') ∧ isSeedName name = true ∧
      intOf tables value ≠ intOf tables value'

/-- Two revisions differ in one file of the strategy, and there in the seed line alone. -/
def SeedLineAlone (tables : CharTables) (nominee replicate : Revision) : Prop :=
  ∃ path before after, "output/".toList <+: path ∧ ".py".toList <:+ path ∧
    nominee.get? path = some (Utf8.encode before) ∧
    replicate.get? path = some (Utf8.encode after) ∧
    (∀ other, other ≠ path → nominee.get? other = replicate.get? other) ∧
    OneSeedLine tables before after

/-- After a line nothing but white space shares its source line, up to a comment. -/
def Trails (line : Text) (later : List Text) : Prop :=
  '#' ∈ line ∨ ∀ c ∈ firstVisible (trailing later), c = '#'

/-- Two texts break their lines alike outside one source line, and in it one line differs, with
nothing before it but white space and nothing after it but white space and a comment. -/
def BreaksAlike (before after : Text) : Prop :=
  ∃ first first' old new last last', sourceLines before = first ++ old :: last ∧
    sourceLines after = first' ++ new :: last' ∧ first.map breaks = first'.map breaks ∧
    last.map breaks = last'.map breaks ∧ old.2 = new.2 ∧
    ∃ earlier l l' later, lines old = earlier ++ l :: later ∧ lines new = earlier ++ l' :: later ∧
      l ≠ l' ∧ (∀ line ∈ earlier, ∀ c ∈ line, isSpace c = true) ∧ Trails l later ∧ Trails l' later

variable {before after l l' k g : Text} {earlier later : List Text} {line : Text × Text}

theorem seedLine_split (plain : SourceLine.Plain line)
    (split : lines line = earlier ++ l :: later) :
    seedLine tables line.1 = seedLine tables (leading earlier ++ l ++ trailing later) := by
  rw [seedLine_lines plain, split, joinTexts_append]

theorem newline_not_mem_split (split : lines line = earlier ++ l :: later) :
    '\n' ∉ leading earlier ++ l ++ trailing later := by
  have unbroken := splitLines_unbroken (SourceLine.text line)
  change ∀ line' ∈ lines line, _ at unbroken
  rw [split] at unbroken
  have none : ∀ line' ∈ earlier ++ l :: later, '\n' ∉ line' := by
    intro line' member newline
    cases unbroken line' member '\n' newline
  simp only [List.mem_append, List.mem_cons] at none
  simp only [leading, trailing, List.mem_append, List.mem_flatMap, List.mem_cons,
    List.not_mem_nil, or_false, not_or, not_exists, not_and]
  refine ⟨⟨fun line' member => ⟨none line' (.inl member), by decide⟩, none l (.inr (.inl rfl))⟩,
    fun line' member => ⟨by decide, none line' (.inr (.inr member))⟩⟩

theorem head_trailing (later : List Text) :
    trailing later = [] ∨ (trailing later).head? = some ' ' := by
  cases later with
  | nil => exact .inl rfl
  | cons l later => exact .inr rfl

theorem seedLine_alone {r r' : Text × Text}
    (lead : (leading earlier).foldlM (Scan.step tables) .lead = some .lead)
    (one : '\n' ∉ trailing later) (seed : seedLine tables l = some r) :
    seedLine tables (leading earlier ++ l ++ trailing later) = some r' ↔
      r = r' ∧ Trails l later := by
  obtain ⟨st, read, assigns⟩ := Option.bind_eq_some_iff.mp seed
  have whole : seedLine tables (leading earlier ++ l ++ trailing later) =
      readFrom tables st (trailing later) := by
    show readFrom tables .lead _ = _
    rw [List.append_assoc, readFrom_append, lead, Option.bind_some, readFrom_append, read,
      Option.bind_some]
  have comments : (∃ n v, st = .comment n v) ↔ '#' ∈ l := by
    constructor
    · rintro ⟨n, v, rfl⟩
      exact hash_of_comment (by simp) read
    · exact fun hash => comment_of_hash hash read
  rw [whole, readFrom_assigns assigns one (head_trailing later), comments]
  rfl

theorem blank_leading (earlier : List Text) :
    (∀ c ∈ leading earlier, isSpace c = true) ↔ ∀ line ∈ earlier, ∀ c ∈ line, isSpace c = true := by
  have space : isSpace ' ' = true := by decide
  induction earlier with
  | nil => simp [leading]
  | cons line earlier ih =>
    show (∀ c ∈ (line ++ [' ']) ++ leading earlier, isSpace c = true) ↔ _
    rw [List.forall_mem_append, List.forall_mem_append, List.forall_mem_singleton,
      List.forall_mem_cons, and_iff_left space]
    exact and_congr_right fun _ => ih

theorem closed_leading (earlier : List Text) :
    leading earlier = [] ∨ ∃ t, leading earlier = t ++ [' '] := by
  induction earlier with
  | nil => exact .inl rfl
  | cons line earlier ih =>
    right
    rcases ih with none | ⟨t, closed⟩
    · exact ⟨line, by simp [leading] at none ⊢; simp [none]⟩
    · refine ⟨line ++ ' ' :: t, ?_⟩
      show (line ++ [' ']) ++ leading earlier = _
      rw [closed]
      simp

variable {old new : Text} {u v : List Text} {name value value' : Text}

theorem breaksAlike_of_oneSeedLine (split : splitLines before = u ++ old :: v)
    (split' : splitLines after = u ++ new :: v) (differ : old ≠ new)
    (seed : seedLine tables old = some (name, value))
    (seed' : seedLine tables new = some (name, value')) (isSeed : isSeedName name = true)
    (alone : OneSeedLine tables before after) : BreaksAlike before after := by
  obtain ⟨first, content, content', ending, last, here, here', k, w, w', reads, reads', -, apart⟩ :=
    alone
  rw [splitLines_sourceLines, here, List.flatMap_append, List.flatMap_cons] at split
  rw [splitLines_sourceLines, here', List.flatMap_append, List.flatMap_cons] at split'
  obtain ⟨earlier, later, inside, inside'⟩ := strip_both differ split split'
  have plain := sourceLines_plain before _ (by rw [here]; simp : (content, ending) ∈ _)
  have plain' := sourceLines_plain after _ (by rw [here']; simp : (content', ending) ∈ _)
  have newline := newline_not_mem_split inside
  have newline' := newline_not_mem_split inside'
  rw [show content = (content, ending).1 from rfl, seedLine_split plain inside] at reads
  rw [show content' = (content', ending).1 from rfl, seedLine_split plain' inside'] at reads'
  have values : (k, w) ≠ (k, w') := by
    rintro same
    rw [(Prod.mk.inj same).2] at apart
    exact apart rfl
  have lead :=
    blank_before (closed_leading earlier) newline newline' seed isSeed reads reads' values
  have blank := (blank_of_lead lead).2
  have none : '\n' ∉ trailing later := fun member => newline (by simp [member])
  exact ⟨first, first, (content, ending), (content', ending), last, last, here, here', rfl, rfl,
    rfl, earlier, old, new, later, inside, inside', differ, (blank_leading earlier).mp blank,
    ((seedLine_alone lead none seed).mp reads).2, ((seedLine_alone lead none seed').mp reads').2⟩

theorem oneSeedLine_of_breaksAlike (split : splitLines before = u ++ old :: v)
    (split' : splitLines after = u ++ new :: v)
    (seed : seedLine tables old = some (name, value))
    (seed' : seedLine tables new = some (name, value')) (isSeed : isSeedName name = true)
    (apart : intOf tables value ≠ intOf tables value') (alike : BreaksAlike before after) :
    OneSeedLine tables before after := by
  obtain ⟨first, first', line, line', last, last', here, here', firsts, lasts, ended, earlier, l,
    l', later, inside, inside', differ, blank, trails, trails'⟩ := alike
  have plain : ∀ s ∈ first ++ line :: last, SourceLine.Plain s := by
    rw [← here]
    exact sourceLines_plain before
  have plain' : ∀ s ∈ first' ++ line' :: last', SourceLine.Plain s := by
    rw [← here']
    exact sourceLines_plain after
  have ends := sourceLines_ended before
  rw [here] at ends
  obtain ⟨endsFirst, endsLast, endsBetween⟩ := List.pairwise_append.mp ends
  rw [List.forall_mem_append, List.forall_mem_cons] at plain plain'
  rw [splitLines_sourceLines, here, List.flatMap_append, List.flatMap_cons, inside] at split
  rw [splitLines_sourceLines, here', List.flatMap_append, List.flatMap_cons, inside'] at split'
  have even := length_flatMap_lines plain.1 plain'.1
    (fun s member => endsBetween s member line List.mem_cons_self) firsts
  have place : (first.flatMap lines ++ earlier) ++ l :: (later ++ last.flatMap lines) =
      u ++ old :: v := by simpa using split
  have place' : (first'.flatMap lines ++ earlier) ++ l' :: (later ++ last'.flatMap lines) =
      u ++ new :: v := by simpa using split'
  obtain ⟨⟨firstSame, rfl, lastSame⟩, firstSame', rfl, lastSame'⟩ :=
    place_unique differ (by simp [even]) place place'
  have same := List.append_cancel_right (firstSame.trans firstSame'.symm)
  have same' := List.append_cancel_left (lastSame.trans lastSame'.symm)
  obtain rfl := eq_of_flatMap_lines plain.1 plain'.1 endsFirst firsts same
  obtain rfl :=
    eq_of_flatMap_lines plain.2.2 plain'.2.2 (List.pairwise_cons.mp endsLast).2 lasts same'
  have none : '\n' ∉ trailing later := fun member =>
    newline_not_mem_split inside (by simp [member])
  have passed : '\n' ∉ leading earlier := fun member =>
    newline_not_mem_split inside (by simp [member])
  have lead : (leading earlier).foldlM (Scan.step tables) .lead = some .lead :=
    fold_blank (.inl rfl) ((blank_leading earlier).mpr blank) passed
  refine ⟨first, line.1, line'.1, line.2, last, here, ?_, name, value, value', ?_, ?_, isSeed,
    apart⟩
  · rw [here', ended]
  · rw [seedLine_split plain.2.1 inside]
    exact (seedLine_alone lead none seed).mpr ⟨rfl, trails⟩
  · rw [seedLine_split plain'.2.1 inside']
    exact (seedLine_alone lead none seed').mpr ⟨rfl, trails'⟩

/-- The file that differs breaks its lines alike outside the seed's source line. -/
def FilesBreakAlike (nominee replicate : Revision) : Prop :=
  ∀ path before after, nominee.get? path = some (Utf8.encode before) →
    replicate.get? path = some (Utf8.encode after) → before ≠ after → BreaksAlike before after

/-- The characters of ASCII, as `\w` and `\d` take them. -/
def asciiTables : CharTables where
  word c := c.isAlphanum || c = '_'
  decimal c := if c.isDigit then some (c.toNat - '0'.toNat) else none
  word_ascii _ _ := rfl
  decimal_ascii _ _ := rfl
  word_of_decimal c digit := by
    cases isDigit : c.isDigit with
    | false => simp [isDigit] at digit
    | true => simp [Char.isAlphanum, isDigit]
  not_word_of_space c space := by
    simp only [isSpace, List.mem_cons, List.not_mem_nil, or_false, decide_eq_true_eq] at space
    rcases space with rfl | rfl | rfl | rfl | rfl | rfl | rfl | rfl | rfl | rfl | rfl | rfl |
      rfl | rfl | rfl | rfl | rfl | rfl | rfl | rfl | rfl | rfl | rfl | rfl | rfl | rfl | rfl |
      rfl | rfl <;> decide

/-- A revision of one strategy file. -/
def package (text : Text) : Revision :=
  Dict.ofList [("output/main.py".toList, Utf8.encode text)]

end SeedReplicates

end AutoTrade
