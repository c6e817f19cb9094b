import AutoTrade.Environment.Tools.Files
import AutoTrade.Misc.Runs

/-!
# What writes and edits change

A write that is carried out leaves the content's bytes and an edit the replaced text's, and a call
that fails leaves every file as it was, exactly when a call that gets as far as the write has no
lone surrogate to encode and an edited file no carriage return: the file is read with universal
newlines, and emptied before the content is encoded.
-/

namespace AutoTrade.FileTools

open Utf8 (Bytes)
open CodePoint (ofText)

/-- A string without lone surrogates. -/
def IsText (string : PyStr) : Prop := ∀ point ∈ string, ∃ c, point = .char c

theorem isText_ofText (t : Text) : IsText (ofText t) :=
  CodePoint.encode_isSome.mp (by rw [CodePoint.encode_ofText]; rfl)

variable {string : PyStr}

theorem encode_isSome : (CodePoint.encode string).isSome ↔ IsText string :=
  CodePoint.encode_isSome

theorem encode_eq_none : CodePoint.encode string = none ↔ ¬ IsText string := by
  rw [← encode_isSome, Option.not_isSome_iff_eq_none]

theorem not_isText : ¬ IsText string ↔ ∃ offset, .surrogate offset ∈ string := by
  constructor
  · intro other
    simp only [IsText, not_forall] at other
    have ⟨point, member, surrogate⟩ := other
    cases point with
    | char c => exact absurd ⟨c, rfl⟩ surrogate
    | surrogate offset => exact ⟨offset, member⟩
  · intro ⟨offset, member⟩ text
    have ⟨c, its⟩ := text _ member
    exact nomatch its

theorem carriage_not_mem_universalNewlines (t : Text) : '\r' ∉ universalNewlines t := by
  induction t using universalNewlines.induct with
  | case1 => simp [universalNewlines]
  | case2 rest ih => simpa [universalNewlines] using ih
  | case3 c rest other ih =>
    rw [universalNewlines]
    · by_cases carriage : c = '\r'
      · simpa [carriage] using ih
      · simpa [carriage, Ne.symm carriage] using ih
    · exact other

theorem carriage_mem_ofText {t : Text} : .char '\r' ∈ ofText t ↔ '\r' ∈ t :=
  List.mem_map_of_injective CodePoint.char_injective

namespace EditCall

variable {call : EditCall} {current : PyStr}

/-- How many occurrences `replace` replaces. -/
def replaced (call : EditCall) (current : PyStr) : Nat :=
  if call.replaceAll then call.count current else 1

theorem count_replace (point : CodePoint) (occurs : call.count current ≠ 0) :
    (call.replace current).count point + call.replaced current * call.oldText.count point =
      current.count point + call.replaced current * call.newText.count point := by
  cases all : call.replaceAll with
  | true =>
    rw [replace, replaced, if_pos all, if_pos all]
    exact Occurrences.count_replaceAll point call.old_ne_nil
  | false =>
    simpa [replace, replaced, all] using
      Occurrences.count_replaceFirst point call.old_ne_nil occurs

theorem mem_of_occurs (occurs : call.count current ≠ 0) {point : CodePoint}
    (member : point ∈ call.oldText) : point ∈ current :=
  Occurrences.mem_of_count occurs member call.old_ne_nil

theorem ne_nil_of_occurs (occurs : call.count current ≠ 0) : current ≠ [] := by
  have ⟨point, member⟩ := List.exists_mem_of_ne_nil _ call.old_ne_nil
  exact List.ne_nil_of_mem (mem_of_occurs occurs member)

theorem replaced_ne_zero (occurs : call.count current ≠ 0) : call.replaced current ≠ 0 := by
  rw [replaced]
  split
  · exact occurs
  · exact Nat.one_ne_zero

theorem mem_replace (occurs : call.count current ≠ 0) {point : CodePoint}
    (other : point ∉ current) : point ∈ call.replace current ↔ point ∈ call.newText := by
  have counts := count_replace point occurs
  rw [List.count_eq_zero_of_not_mem fun member => other (mem_of_occurs occurs member),
    List.count_eq_zero_of_not_mem other, Nat.mul_zero, Nat.add_zero, Nat.zero_add] at counts
  rw [← List.count_pos_iff, ← List.count_pos_iff, counts,
    Nat.mul_pos_iff_of_pos_left (Nat.pos_of_ne_zero (replaced_ne_zero occurs))]

theorem isText_replace {t : Text} (occurs : call.count (ofText t) ≠ 0) :
    IsText (call.replace (ofText t)) ↔ IsText call.newText := by
  have same : ∀ offset, .surrogate offset ∈ call.replace (ofText t) ↔
      .surrogate offset ∈ call.newText := fun offset =>
    mem_replace occurs fun member => not_isText.mpr ⟨offset, member⟩ (isText_ofText t)
  rw [← not_iff_not, not_isText, not_isText]
  exact exists_congr same

theorem edit_eq_ok {updated : PyStr} {n : Nat} :
    call.edit current = .ok (updated, n) ↔
      call.count current ≠ 0 ∧ (call.replaceAll = false → call.count current = 1) ∧
        (call.replace current).length ≤ maxWriteChars ∧
        updated = call.replace current ∧ n = call.count current := by
  rw [edit]
  split
  · simp [*]
  · rename_i occurs
    split
    · rename_i many
      simp only [reduceCtorEq, false_iff]
      intro ⟨_, one, _⟩
      have := one many.2
      omega
    · rename_i few
      split
      · rename_i large
        simp only [reduceCtorEq, false_iff]
        intro ⟨_, _, small, _⟩
        omega
      · rename_i small
        have one : call.replaceAll = false → call.count current = 1 := by
          intro first
          by_contra other
          exact few ⟨by omega, first⟩
        cases all : call.replaceAll with
        | true => simp [occurs, Nat.le_of_not_lt small, eq_comm]
        | false =>
          simp only [Except.ok.injEq, Prod.mk.injEq, Bool.false_eq_true, if_false]
          rw [one all]
          simp [Nat.le_of_not_lt small, eq_comm]

end EditCall

section Tools

variable {P : Type} [DecidableEq P] {relative : P → Text}
  {resolve : PyStr → Option Text → Except ToolError P} {undecodable : Bytes → Text}

variable {files : Files P} {target : P} {content : PyStr} {bytes : Bytes}

theorem write_text (writable : (files target).writable = true)
    (encoded : CodePoint.encode content = some bytes) :
    write relative files target content =
      (.ok bytes, Function.update files target { files target with bytes := some bytes }) := by
  rw [write, writeText, if_pos writable, encoded]

theorem write_surrogate (writable : (files target).writable = true) (surrogate : ¬ IsText content) :
    write relative files target content =
      (.error .unicodeEncode, Function.update files target { files target with bytes := some [] }) := by
  rw [write, writeText, if_pos writable, encode_eq_none.mpr surrogate]

theorem write_refused (refused : (files target).writable = false) :
    write relative files target content =
      (.error (.tool (notWritable (relative target))), files) := by
  rw [write, writeText, refused]
  simp

/-- No file holds other bytes. -/
def Unchanged (files after : Files P) : Prop := ∀ path, (after path).bytes = (files path).bytes

/-- The content stands at the target, and nothing else has changed. -/
def Wrote (files after : Files P) (target : P) (content : PyStr) : Prop :=
  (after target).bytes.isSome ∧ (after target).bytes = CodePoint.encode content ∧
    ∀ other ≠ target, after other = files other

/-- The occurrences that were matched in the target's own text are replaced, and nothing else has
changed. -/
def Edited (files after : Files P) (target : P) (call : EditCall) (replacements : Nat) : Prop :=
  ∃ t, (files target).bytes = some (Utf8.encode t) ∧
    replacements = call.count (ofText t) ∧ (call.replaceAll = false → replacements = 1) ∧
      Wrote files after target (call.replace (ofText t))

/-- A call of one of the tools. -/
inductive Call where
  | write (call : WriteCall)
  | edit (call : EditCall)

variable (relative resolve undecodable) in
/-- What was asked, and nothing else, is changed. -/
def DoesAsAsked (files : Files P) : Call → Prop
  | .write call =>
    match writeFile relative resolve files call with
    | (.ok _, after) => ∃ target, resolve call.path call.root = .ok target ∧
        Wrote files after target call.content
    | (.error _, after) => Unchanged files after
  | .edit call =>
    match editFile relative resolve undecodable files call with
    | (.ok value, after) => ∃ target, resolve call.path call.root = .ok target ∧
        Edited files after target call value.replacements
    | (.error _, after) => Unchanged files after

variable (resolve) in
/-- A write that every check lets through has no surrogate to encode, or an empty file to empty;
an edit has no surrogate to encode and no carriage return to read. -/
def Plain (files : Files P) : Call → Prop
  | .write call => ∀ target, writeTarget resolve call = .ok target →
      (files target).writable = true → IsText call.content ∨ (files target).bytes = some []
  | .edit call => ∀ target t, resolve call.path call.root = .ok target →
      (files target).bytes = some (Utf8.encode t) → (files target).readable = true →
      (files target).writable = true → (call.edit (ofText (universalNewlines t))).isOk = true →
      '\r' ∉ t ∧ IsText call.newText

theorem unchanged_emptied :
    Unchanged files (Function.update files target { files target with bytes := some [] }) ↔
      (files target).bytes = some [] := by
  constructor
  · intro same
    simpa using (same target).symm
  · intro empty path
    by_cases this : path = target
    · rw [this, Function.update_self, empty]
    · rw [Function.update_of_ne this]

theorem wrote_update :
    Wrote files (Function.update files target { files target with bytes := some bytes }) target
      content ↔ CodePoint.encode content = some bytes := by
  constructor
  · intro ⟨_, wrote, _⟩
    simpa using wrote.symm
  · intro encoded
    refine ⟨by simp, by simp [encoded], fun other this => ?_⟩
    rw [Function.update_of_ne this]

theorem write_doesAsAsked (files : Files P) (call : WriteCall) :
    DoesAsAsked relative resolve undecodable files (.write call) ↔
      Plain resolve files (.write call) := by
  simp only [DoesAsAsked, Plain, writeFile]
  cases checked : writeTarget resolve call with
  | error raised => simp [Unchanged]
  | ok target =>
    have resolved : resolve call.path call.root = .ok target := by
      rw [writeTarget] at checked
      split at checked
      · exact nomatch checked
      · exact mapError_eq_ok.mp checked
    simp only [Except.ok.injEq, forall_eq']
    cases permitted : (files target).writable with
    | false => simp [write_refused permitted, Except.map, Unchanged]
    | true =>
      by_cases text : IsText call.content
      · have ⟨bytes, encoded⟩ := Option.isSome_iff_exists.mp (encode_isSome.mpr text)
        simp [write_text permitted encoded, Except.map, resolved, wrote_update, encoded, text]
      · simp [write_surrogate permitted text, Except.map, unchanged_emptied, text]

theorem readText_eq_ok {shown : Text} {file : File} {current : Text} :
    readText undecodable shown file = .ok current ↔ file.readable = true ∧
      ∃ t, file.bytes = some (Utf8.encode t) ∧ current = universalNewlines t := by
  rw [readText]
  cases file.bytes with
  | none => simp
  | some bytes =>
    cases file.readable with
    | false => simp
    | true =>
      cases read : CodePoint.decode bytes with
      | none =>
        have unread : ∀ t, bytes ≠ Utf8.encode t := fun t same => by
          rw [CodePoint.decode_eq_some.mpr same] at read
          exact nomatch read
        simp [read, unread]
      | some t =>
        have same := CodePoint.decode_eq_some.mp read
        rw [same] at read ⊢
        simp [read, Utf8.encode_injective.eq_iff, eq_comm]

variable {call : EditCall}

omit [DecidableEq P] in
theorem editTarget_eq_ok {updated : PyStr} {n : Nat} :
    editTarget relative resolve undecodable files call = .ok (target, updated, n) ↔
      resolve call.path call.root = .ok target ∧ (files target).readable = true ∧
        ∃ t, (files target).bytes = some (Utf8.encode t) ∧
          call.edit (ofText (universalNewlines t)) = .ok (updated, n) := by
  simp only [editTarget, bind_eq_ok, mapError_eq_ok, readText_eq_ok, pure_eq_ok, Prod.mk.injEq]
  constructor
  · rintro ⟨_, resolved, _, ⟨readable, t, bytes, rfl⟩, _, edited, rfl, rfl⟩
    exact ⟨resolved, readable, t, bytes, edited⟩
  · rintro ⟨resolved, readable, t, bytes, edited⟩
    exact ⟨target, resolved, _, ⟨readable, t, bytes, rfl⟩, _, edited, rfl, rfl⟩

theorem edited_iff {t : Text} {updated : PyStr} {n : Nat}
    (edited : call.edit (ofText (universalNewlines t)) = .ok (updated, n))
    (encoded : CodePoint.encode updated = some bytes) :
    (n = call.count (ofText t) ∧ CodePoint.encode (call.replace (ofText t)) = some bytes) ↔
      '\r' ∉ t := by
  have ⟨occurs, one, _, same, matched⟩ := EditCall.edit_eq_ok.mp edited
  constructor
  · intro ⟨count, replaced⟩ carriage
    have ⟨u, itsText, itsBytes⟩ := CodePoint.encode_eq_some.mp encoded
    rw [← itsBytes, CodePoint.encode_eq_text, ← itsText, same] at replaced
    rw [matched] at count
    have absent : CodePoint.char '\r' ∉ ofText (universalNewlines t) := fun member =>
      carriage_not_mem_universalNewlines t (carriage_mem_ofText.mp member)
    have read := EditCall.count_replace (.char '\r') occurs
    have own := EditCall.count_replace (.char '\r') (count ▸ occurs)
    have as : call.replaced (ofText t) = call.replaced (ofText (universalNewlines t)) := by
      rw [EditCall.replaced, EditCall.replaced, count]
    rw [replaced, as] at own
    have none := List.count_eq_zero_of_not_mem absent
    have held := List.count_pos_iff.mpr (carriage_mem_ofText.mpr carriage)
    omega
  · intro none
    rw [universalNewlines_eq_self none] at matched same
    exact ⟨matched, same ▸ encoded⟩

theorem isOk_edit {current : PyStr} :
    (call.edit current).isOk = true ↔ ∃ updated n, call.edit current = .ok (updated, n) := by
  cases call.edit current with
  | error raised => simp [Except.isOk, Except.toBool]
  | ok edited => exact ⟨fun _ => ⟨edited.1, edited.2, rfl⟩, fun _ => rfl⟩

theorem edit_doesAsAsked (files : Files P) (call : EditCall) :
    DoesAsAsked relative resolve undecodable files (.edit call) ↔
      Plain resolve files (.edit call) := by
  simp only [DoesAsAsked, Plain, editFile]
  cases checked : editTarget relative resolve undecodable files call with
  | error raised =>
    simp only [Unchanged, implies_true, true_iff]
    intro target t resolved bytes readable _ edited
    have ⟨updated, n, applies⟩ := isOk_edit.mp edited
    rw [editTarget_eq_ok.mpr ⟨resolved, readable, t, bytes, applies⟩] at checked
    exact nomatch checked
  | ok step =>
    have ⟨target, updated, n⟩ := step
    have ⟨resolved, readable, t, bytes, edited⟩ := editTarget_eq_ok.mp checked
    have ⟨occurs, one, _, same, matched⟩ := EditCall.edit_eq_ok.mp edited
    have textual : IsText updated ↔ IsText call.newText := same ▸ EditCall.isText_replace occurs
    have its : ∀ {target' t'}, resolve call.path call.root = .ok target' →
        (files target').bytes = some (Utf8.encode t') → target' = target ∧ t' = t := by
      intro target' t' resolved' bytes'
      obtain rfl : target = target' := Except.ok.inj (resolved.symm.trans resolved')
      exact ⟨rfl, Utf8.encode_injective (Option.some.inj (bytes'.symm.trans bytes))⟩
    cases permitted : (files target).writable with
    | false =>
      simp only [write_refused permitted, Except.map, Unchanged, implies_true, true_iff]
      intro target' t' resolved' bytes' _ writable
      rw [(its resolved' bytes').1, permitted] at writable
      exact nomatch writable
    | true =>
      by_cases text : IsText call.newText
      · have ⟨result, encoded⟩ := Option.isSome_iff_exists.mp (encode_isSome.mpr (textual.mpr text))
        simp only [write_text permitted encoded, Except.map]
        constructor
        · intro ⟨target', resolved', t', bytes', count, _, wrote⟩ target'' t'' resolved'' bytes'' _ _ _
          obtain ⟨rfl, rfl⟩ := its resolved' bytes'
          obtain ⟨rfl, rfl⟩ := its resolved'' bytes''
          exact ⟨(edited_iff edited encoded).mp ⟨count, wrote_update.mp wrote⟩, text⟩
        · intro plain
          have ⟨absent, _⟩ := plain target t resolved bytes readable permitted
            (isOk_edit.mpr ⟨updated, n, edited⟩)
          have ⟨count, replaced⟩ := (edited_iff edited encoded).mpr absent
          exact ⟨target, resolved, t, bytes, count, fun first => matched.trans (one first),
            wrote_update.mpr replaced⟩
      · simp only [write_surrogate permitted (mt textual.mp text), Except.map, unchanged_emptied]
        constructor
        · intro empty
          have none : t = [] := by
            refine Utf8.encode_injective (Option.some.inj (bytes.symm.trans ?_))
            rw [empty, Utf8.encode_nil]
          rw [none] at occurs
          exact absurd rfl (EditCall.ne_nil_of_occurs occurs)
        · intro plain
          have ⟨_, encodes⟩ := plain target t resolved bytes readable permitted
            (isOk_edit.mpr ⟨updated, n, edited⟩)
          exact absurd encodes text

/-- `write_file` and `edit_file` change what was asked and nothing else exactly when the call is
refused by a check or has nothing that the way through text loses. -/
theorem doesAsAsked_iff (files : Files P) (call : Call) :
    DoesAsAsked relative resolve undecodable files call ↔ Plain resolve files call := by
  cases call with
  | write call => exact write_doesAsAsked files call
  | edit call => exact edit_doesAsAsked files call

end Tools

/-- One file, of two lines with DOS line ends. -/
def dosFile : Files Unit :=
  fun _ => ⟨some (Utf8.encode ['a', '\r', '\n', 'b']), true, true⟩

/-- The second line is edited. -/
def secondLine : EditCall where
  path := ofText "notes.txt".toList
  root := none
  oldText := ofText ['b']
  newText := ofText ['c']
  replaceAll := false
  old_ne_nil := List.cons_ne_nil _ _

/-- The file is overwritten with a string that UTF-8 does not encode. -/
def surrogateContent : WriteCall where
  path := ofText "notes.txt".toList
  root := none
  content := [.surrogate 0]

/-- An edit of the second line takes the first one's carriage return away, and a write that fails
leaves the file empty. -/
theorem edit_loses_carriage :
    ((editFile (fun _ => []) (fun _ _ => .ok ()) (fun _ => []) dosFile secondLine).2 ()).bytes =
        some (Utf8.encode ['a', '\n', 'c']) ∧
      ((writeFile (fun _ => []) (fun _ _ => .ok ()) dosFile surrogateContent).2 ()).bytes = some [] ∧
      ¬ DoesAsAsked (fun _ => []) (fun _ _ => .ok ()) (fun _ => []) dosFile (.edit secondLine) ∧
      ¬ DoesAsAsked (fun _ => []) (fun _ _ => .ok ()) (fun _ => []) dosFile
        (.write surrogateContent) := by
  refine ⟨by decide +kernel, by decide +kernel, fun asked => ?_, fun asked => ?_⟩
  · have plain := (edit_doesAsAsked dosFile secondLine).mp asked
    exact (plain () ['a', '\r', '\n', 'b'] rfl rfl rfl rfl (by decide +kernel)).1 (by simp)
  · rcases (write_doesAsAsked dosFile surrogateContent).mp asked () rfl rfl with text | empty
    · have ⟨c, its⟩ := text _ List.mem_cons_self
      exact nomatch its
    · exact absurd empty (by decide)

end AutoTrade.FileTools
