import Mathlib.Data.List.Range
import Mathlib.Order.Cover

/-!
# Tilings

A span of a linear order cut into closed windows, each beginning right after the
one before it ends: nothing lies between the end of one and the start of the next.
-/

namespace AutoTrade

variable {α : Type*} [LinearOrder α]

/-- The windows tile the span from `first` to `last`. -/
inductive Tiles : α → List (α × α) → α → Prop where
  | one {first last : α} (forward : first ≤ last) : Tiles first [(first, last)] last
  | cons {first stop start last : α} {windows : List (α × α)} (forward : first ≤ stop)
      (next : stop ⋖ start) (rest : Tiles start windows last) :
      Tiles first ((first, stop) :: windows) last

namespace Tiles

variable {first last : α} {windows : List (α × α)}

theorem le (tiles : Tiles first windows last) : first ≤ last := by
  induction tiles with
  | one forward => exact forward
  | cons forward next _ ih => exact forward.trans (next.le.trans ih)

theorem inside (tiles : Tiles first windows last) {w : α × α} (member : w ∈ windows) :
    first ≤ w.1 ∧ w.1 ≤ w.2 ∧ w.2 ≤ last := by
  induction tiles with
  | one forward =>
    obtain rfl := List.mem_singleton.mp member
    exact ⟨le_rfl, forward, le_rfl⟩
  | cons forward next rest ih =>
    rcases List.mem_cons.mp member with rfl | later
    · exact ⟨le_rfl, forward, next.le.trans rest.le⟩
    · have ⟨after, ordered, before⟩ := ih later
      exact ⟨(forward.trans next.le).trans after, ordered, before⟩

theorem pairwise (tiles : Tiles first windows last) :
    windows.Pairwise fun v w => v.2 < w.1 := by
  induction tiles with
  | one forward => exact List.pairwise_singleton _ _
  | cons forward next rest ih =>
    refine List.pairwise_cons.mpr ⟨fun w later => ?_, ih⟩
    exact next.lt.trans_le (rest.inside later).1

theorem existsUnique (tiles : Tiles first windows last) {x : α} (after : first ≤ x)
    (before : x ≤ last) : ∃! w, w ∈ windows ∧ w.1 ≤ x ∧ x ≤ w.2 := by
  induction tiles with
  | one forward =>
    refine ⟨_, ⟨List.mem_cons_self, after, before⟩, ?_⟩
    rintro v ⟨member, -⟩
    exact List.mem_singleton.mp member
  | @cons first stop start last windows forward next rest ih =>
    rcases le_or_gt x stop with here | later
    · refine ⟨(first, stop), ⟨List.mem_cons_self, after, here⟩, ?_⟩
      rintro v ⟨member, reached, -⟩
      rcases List.mem_cons.mp member with same | further
      · exact same
      · have begins := (rest.inside further).1
        exact absurd (begins.trans reached) (not_le_of_gt (here.trans_lt next.lt))
    · have ⟨w, ⟨member, inside⟩, only⟩ := ih (next.ge_of_gt later) before
      refine ⟨w, ⟨List.mem_cons_of_mem _ member, inside⟩, ?_⟩
      rintro v ⟨there, reached, past⟩
      rcases List.mem_cons.mp there with same | further
      · rw [same] at past
        exact absurd past (not_le_of_gt later)
      · exact only v ⟨further, reached, past⟩

theorem append {start last' : α} {windows' : List (α × α)} (tiles : Tiles first windows last)
    (next : last ⋖ start) (tiles' : Tiles start windows' last') :
    Tiles first (windows ++ windows') last' := by
  induction tiles with
  | one forward => exact .cons forward next tiles'
  | cons forward next' _ ih => exact .cons forward next' (ih next)

theorem of_range (opened closed : ℕ → α) {n : ℕ} (forward : ∀ i < n + 1, opened i ≤ closed i)
    (next : ∀ i < n, closed i ⋖ opened (i + 1)) :
    Tiles (opened 0) ((List.range (n + 1)).map fun i => (opened i, closed i)) (closed n) := by
  induction n with
  | zero => exact .one (forward 0 (Nat.zero_lt_succ 0))
  | succ n ih =>
    rw [List.range_succ, List.map_append]
    refine (ih (fun i inside => forward i (Nat.lt_succ_of_lt inside))
      (fun i inside => next i (Nat.lt_succ_of_lt inside))).append (next n (Nat.lt_succ_self n)) ?_
    exact .one (forward (n + 1) (Nat.lt_succ_self _))

end Tiles

end AutoTrade
