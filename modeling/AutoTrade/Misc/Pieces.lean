import Mathlib.Algebra.GroupWithZero.Nat
import Mathlib.Data.List.Basic
import Mathlib.Data.List.Range

/-!
# A list kept in pieces

Pieces of known lengths, each read by an offset. An index is found by bisecting the
starts of the pieces, and a prefix is read as the parts of the pieces inside it;
both read the one list the pieces make, `whole`.
-/

namespace AutoTrade

namespace Pieces

variable {α β : Type*} (len : α → Nat)

/-- Where each piece starts, from `total` on. -/
def starts : Nat → List α → List Nat
  | _, [] => []
  | total, a :: rest => total :: starts (total + len a) rest

def size (pieces : List α) : Nat := (pieces.map len).sum

/-- `bisect_right` of a sorted list: how many of its numbers are at most `index`. -/
def bisectRight (sorted : List Nat) (index : Nat) : Nat := (sorted.takeWhile (· ≤ index)).length

/-- The piece that holds `index`, and the offset in it. -/
def locate (pieces : List α) (index : Nat) : Option (α × Nat) :=
  if index < size len pieces then
    let position := bisectRight (starts len 0 pieces) index - 1
    match pieces[position]?, (starts len 0 pieces)[position]? with
    | some a, some start => some (a, index - start)
    | _, _ => none
  else none

/-- Up to the first piece that starts at `count` or later: each with its start and how
    much of it lies before `count`. -/
def spansOf (count : Nat) : List (α × Nat) → List (α × Nat × Nat)
  | [] => []
  | (a, start) :: rest =>
    if count ≤ start then [] else (a, start, min (len a) (count - start)) :: spansOf count rest

def spans (pieces : List α) (count : Nat) : Option (List (α × Nat × Nat)) :=
  if count ≤ size len pieces then some (spansOf len count (pieces.zip (starts len 0 pieces)))
  else none

/-- The list the pieces make. -/
def whole (read : α → Nat → β) (pieces : List α) : List β :=
  pieces.flatMap fun a => (List.range (len a)).map (read a)

variable {len}

@[simp] theorem whole_nil (read : α → Nat → β) : whole len read [] = [] := rfl

@[simp] theorem whole_cons (read : α → Nat → β) (a : α) (rest : List α) :
    whole len read (a :: rest) = (List.range (len a)).map (read a) ++ whole len read rest := rfl

@[simp] theorem length_whole (read : α → Nat → β) (pieces : List α) :
    (whole len read pieces).length = size len pieces := by
  induction pieces with
  | nil => rfl
  | cons a rest ih => simp [size, ih]

variable {pieces : List α}

theorem starts_ge {total start : Nat} (member : start ∈ starts len total pieces) :
    total ≤ start := by
  induction pieces generalizing total with
  | nil => simp [starts] at member
  | cons a rest ih =>
    rw [starts, List.mem_cons] at member
    rcases member with rfl | later
    · exact le_refl _
    · exact (Nat.le_add_right _ _).trans (ih later)

theorem bisect_whole (read : α → Nat → β) {total index : Nat} (after : total ≤ index)
    (inside : index < total + size len pieces) :
    ∃ position a start, bisectRight (starts len total pieces) index = position + 1 ∧
      pieces[position]? = some a ∧ (starts len total pieces)[position]? = some start ∧
      index - start < len a ∧
      (whole len read pieces)[index - total]? = some (read a (index - start)) := by
  induction pieces generalizing total with
  | nil => simp [size] at inside; omega
  | cons a rest ih =>
    have first : bisectRight (starts len total (a :: rest)) index =
        bisectRight (starts len (total + len a) rest) index + 1 := by
      simp [bisectRight, starts, after]
    by_cases here : index < total + len a
    · refine ⟨0, a, total, ?_, rfl, rfl, by omega, ?_⟩
      · have stops : bisectRight (starts len (total + len a) rest) index = 0 := by
          cases later : starts len (total + len a) rest with
          | nil => rfl
          | cons start more =>
            have bound := starts_ge (later ▸ List.mem_cons_self : start ∈ starts len _ rest)
            have beyond : ¬ start ≤ index := by omega
            simp [bisectRight, beyond]
        rw [first, stops]
      · have small : index - total < len a := by omega
        simp [List.getElem?_append, small]
    · have inside' : index < total + len a + size len rest := by
        simp only [size, List.map_cons, List.sum_cons] at inside ⊢
        omega
      obtain ⟨position, b, start, found, piece, startAt, offset, same⟩ := ih (by omega) inside'
      refine ⟨position + 1, b, start, ?_, piece, startAt, offset, ?_⟩
      · rw [first, found]
      · have beyond : ¬ index - total < len a := by omega
        rw [whole_cons, List.getElem?_append]
        simp only [List.length_map, List.length_range, beyond, if_false]
        rwa [Nat.sub_sub]

theorem locate_eq_some {index : Nat} (inside : index < size len pieces) (read : α → Nat → β) :
    ∃ a offset, locate len pieces index = some (a, offset) ∧
      a ∈ pieces ∧ offset < len a ∧ (whole len read pieces)[index]? = some (read a offset) := by
  obtain ⟨position, a, start, found, piece, startAt, offset, same⟩ :=
    bisect_whole read (Nat.zero_le index) (by simpa using inside)
  refine ⟨a, index - start, ?_, List.mem_of_getElem? piece, offset, same⟩
  simp [locate, inside, found, piece, startAt]

theorem map_locate (read : α → Nat → β) (pieces : List α) (index : Nat) :
    (locate len pieces index).map (fun place => read place.1 place.2) =
      (whole len read pieces)[index]? := by
  by_cases inside : index < size len pieces
  · obtain ⟨a, offset, found, -, -, same⟩ := locate_eq_some inside read
    rw [found, same]
    rfl
  · have outside : (whole len read pieces).length ≤ index := by simpa using inside
    rw [List.getElem?_eq_none outside]
    simp [locate, inside]

theorem zipIdx_take_range (read : Nat → β) (n used start : Nat) :
    (((List.range n).map read).take used).zipIdx start =
      (List.range (min n used)).map fun k => (read k, start + k) := by
  apply List.ext_getElem?
  intro k
  rw [List.getElem?_zipIdx, List.getElem?_take, List.getElem?_map, List.getElem?_map]
  by_cases kept : k < used
  · by_cases small : k < n
    · have inside : k < min n used := by omega
      simp [small, kept, inside]
    · have outside : ¬ k < min n used := by omega
      simp [small, kept, outside]
  · have outside : ¬ k < min n used := by omega
    simp [kept, outside]

theorem flatMap_spansOf (read : α → Nat → β) (count total : Nat) (pieces : List α) :
    (spansOf len count (pieces.zip (starts len total pieces))).flatMap
        (fun part => (List.range part.2.2).map fun k => (read part.1 k, part.2.1 + k)) =
      ((whole len read pieces).take (count - total)).zipIdx total := by
  induction pieces generalizing total with
  | nil => simp [spansOf]
  | cons a rest ih =>
    rw [starts, List.zip_cons_cons, spansOf]
    split_ifs with stop
    · simp [Nat.sub_eq_zero_of_le stop]
    · rw [List.flatMap_cons, ih, whole_cons, List.take_append, List.zipIdx_append,
        zipIdx_take_range]
      congr 1
      simp only [List.length_take, List.length_map, List.length_range, Nat.sub_sub]
      by_cases full : len a ≤ count - total
      · rw [Nat.min_eq_right full, Nat.add_comm]
      · have none : count - (total + len a) = 0 := by omega
        simp [none]

variable {parts : List (α × Nat × Nat)} {count : Nat}

theorem flatMap_spans (read : α → Nat → β) (spanned : spans len pieces count = some parts) :
    parts.flatMap (fun part => (List.range part.2.2).map fun k => (read part.1 k, part.2.1 + k)) =
      ((whole len read pieces).take count).zipIdx := by
  unfold spans at spanned
  split_ifs at spanned
  obtain rfl := Option.some.inj spanned
  exact flatMap_spansOf read count 0 pieces

theorem flatMap_spans_read (read : α → Nat → β) (spanned : spans len pieces count = some parts) :
    parts.flatMap (fun part => (List.range part.2.2).map (read part.1)) =
      (whole len read pieces).take count := by
  have indexed := congrArg (List.map Prod.fst) (flatMap_spans read spanned)
  rw [List.zipIdx_map_fst, List.map_flatMap] at indexed
  simpa [Function.comp_def] using indexed

variable {part : α × Nat × Nat}

theorem spansOf_spec {count total : Nat}
    (member : part ∈ spansOf len count (pieces.zip (starts len total pieces))) :
    part.1 ∈ pieces ∧ part.2.2 ≤ len part.1 ∧ (0 < len part.1 → 0 < part.2.2) := by
  induction pieces generalizing total with
  | nil => simp [spansOf] at member
  | cons a rest ih =>
    rw [starts, List.zip_cons_cons, spansOf] at member
    split_ifs at member with stop
    · cases member
    · rcases List.mem_cons.mp member with rfl | later
      · refine ⟨List.mem_cons_self, Nat.min_le_left _ _, fun filled => ?_⟩
        change 0 < len a at filled
        show 0 < min (len a) (count - total)
        omega
      · obtain ⟨inside, bounded, filled⟩ := ih later
        exact ⟨List.mem_cons_of_mem a inside, bounded, filled⟩

theorem spans_spec (spanned : spans len pieces count = some parts) (member : part ∈ parts) :
    part.1 ∈ pieces ∧ part.2.2 ≤ len part.1 ∧ (0 < len part.1 → 0 < part.2.2) := by
  unfold spans at spanned
  split_ifs at spanned
  obtain rfl := Option.some.inj spanned
  exact spansOf_spec member

end Pieces

end AutoTrade
