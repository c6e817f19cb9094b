import Mathlib.Algebra.Order.BigOperators.Group.List
import Mathlib.Algebra.Order.Ring.Int
import Mathlib.Data.List.Forall2
import Mathlib.Tactic.Linarith

/-!
# A ledger taken first in, first out

Items come in with an amount, and are taken from in the order they came: an item only once those
before it have nothing left. What is taken of each is kept with what took it.
-/

namespace AutoTrade

namespace Fifo

variable {α β : Type}

/-- An item, what was taken of it in order, and what is left. -/
structure Entry (α β : Type) where
  item : α
  taken : List (β × Int) := []
  left : Int

/-- What was taken of an item. -/
def Entry.used (e : Entry α β) : Int := (e.taken.map Prod.snd).sum

/-- An amount taken of the first items that have something left; and what no item accounts for. -/
def take (b : β) : Int → List (Entry α β) → List (Entry α β) × Int
  | amount, [] => ([], amount)
  | amount, e :: es =>
    let part := min amount e.left
    if 0 < part then
      let rest := take b (amount - part) es
      ({ e with taken := e.taken ++ [(b, part)], left := e.left - part } :: rest.1, rest.2)
    else
      let rest := take b amount es
      (e :: rest.1, rest.2)

/-- What was taken and what is left of an item make up its size. -/
structure Entry.Sound (size : α → Int) (e : Entry α β) : Prop where
  whole : e.used + e.left = size e.item
  positive : ∀ part ∈ e.taken, 0 < part.2
  left_nonneg : 0 ≤ e.left

/-- An entry from which nothing was taken, or one part more. -/
inductive Grown (b : β) (e : Entry α β) : Entry α β → Prop where
  | same : Grown b e e
  | part (n : Int) (positive : 0 < n) (most : n ≤ e.left) :
      Grown b e { e with taken := e.taken ++ [(b, n)], left := e.left - n }

variable {b : β} {amount : Int} {e e' : Entry α β} {es : List (Entry α β)} {size : α → Int}

namespace Grown

theorem item_eq (grown : Grown b e e') : e'.item = e.item := by
  cases grown <;> rfl

theorem taken_subset (grown : Grown b e e') : e.taken ⊆ e'.taken := by
  cases grown with
  | same => exact List.Subset.refl _
  | part n positive most => exact List.subset_append_left _ _

theorem sound (grown : Grown b e e') (sound : e.Sound size) : e'.Sound size := by
  cases grown with
  | same => exact sound
  | part n positive most =>
    refine ⟨?_, ?_, by simpa using most⟩
    · have whole := sound.whole
      simp only [Entry.used, List.map_append, List.sum_append, List.map_cons, List.map_nil,
        List.sum_cons, List.sum_nil] at whole ⊢
      omega
    · intro part member
      rcases List.mem_append.mp member with before | here
      · exact sound.positive part before
      · rw [List.mem_singleton.mp here]
        exact positive

end Grown

theorem take_nonpos (none : amount ≤ 0) (es : List (Entry α β)) :
    take b amount es = (es, amount) := by
  induction es with
  | nil => rfl
  | cons e es ih =>
    have nothing : ¬ 0 < min amount e.left := by omega
    rw [take]
    simp only [if_neg nothing, ih]

theorem take_grown (es : List (Entry α β)) : List.Forall₂ (Grown b) es (take b amount es).1 := by
  induction es generalizing amount with
  | nil => exact .nil
  | cons e es ih =>
    rw [take]
    by_cases takes : 0 < min amount e.left
    · simp only [if_pos takes]
      exact .cons (.part _ takes (min_le_right _ _)) ih
    · simp only [if_neg takes]
      exact .cons .same ih

theorem take_items (es : List (Entry α β)) :
    (take b amount es).1.map Entry.item = es.map Entry.item := by
  have grown : List.Forall₂ (Grown b) es (take b amount es).1 := take_grown es
  generalize (take b amount es).1 = es' at grown ⊢
  induction grown with
  | nil => rfl
  | cons here later ih => rw [List.map_cons, List.map_cons, here.item_eq, ih]

theorem take_sound (sound : ∀ e ∈ es, e.Sound size) :
    ∀ e ∈ (take b amount es).1, e.Sound size := by
  have grown : List.Forall₂ (Grown b) es (take b amount es).1 := take_grown es
  generalize (take b amount es).1 = es' at grown ⊢
  induction grown with
  | nil => simp
  | cons here later ih =>
    obtain ⟨first, rest⟩ := List.forall_mem_cons.mp sound
    exact List.forall_mem_cons.mpr ⟨here.sound first, ih rest⟩

theorem mem_take (member : e' ∈ (take b amount es).1) : ∃ e ∈ es, Grown b e e' := by
  have grown : List.Forall₂ (Grown b) es (take b amount es).1 := take_grown es
  generalize (take b amount es).1 = es' at grown member
  induction grown with
  | nil => cases member
  | @cons e₀ e₁ es es' here later ih =>
    rcases List.mem_cons.mp member with rfl | member
    · exact ⟨e₀, List.mem_cons_self, here⟩
    · obtain ⟨e, inside, grown⟩ := ih member
      exact ⟨e, List.mem_cons_of_mem e₀ inside, grown⟩

theorem exists_of_take (member : e ∈ es) : ∃ e' ∈ (take b amount es).1, Grown b e e' := by
  have grown : List.Forall₂ (Grown b) es (take b amount es).1 := take_grown es
  generalize (take b amount es).1 = es' at grown ⊢
  induction grown with
  | nil => cases member
  | @cons e₀ e₁ es es' here later ih =>
    rcases List.mem_cons.mp member with rfl | member
    · exact ⟨e₁, List.mem_cons_self, here⟩
    · obtain ⟨e', inside, grown⟩ := ih member
      exact ⟨e', List.mem_cons_of_mem e₁ inside, grown⟩

theorem used_take (es : List (Entry α β)) :
    ((take b amount es).1.map Entry.used).sum + (take b amount es).2 =
      (es.map Entry.used).sum + amount := by
  induction es generalizing amount with
  | nil => simp [take]
  | cons e es ih =>
    rw [take]
    by_cases takes : 0 < min amount e.left
    · have rest := @ih (amount - min amount e.left)
      simp only [if_pos takes, List.map_cons, List.sum_cons, Entry.used, List.map_append,
        List.sum_append, List.map_nil, List.sum_nil] at rest ⊢
      omega
    · have rest := @ih amount
      simp only [if_neg takes, List.map_cons, List.sum_cons] at rest ⊢
      omega

theorem take_rest (es : List (Entry α β)) (wanted : 0 ≤ amount) (sound : ∀ e ∈ es, 0 ≤ e.left) :
    (take b amount es).2 = 0 ∨ 0 < (take b amount es).2 ∧
      ∀ e ∈ (take b amount es).1, e.left = 0 := by
  induction es generalizing amount with
  | nil => rcases wanted.eq_or_lt with none | some <;> simp [take, *]
  | cons e es ih =>
    obtain ⟨first, rest⟩ := List.forall_mem_cons.mp sound
    rw [take]
    by_cases takes : 0 < min amount e.left
    · simp only [if_pos takes, List.forall_mem_cons]
      rcases @ih (amount - min amount e.left) (by omega) rest with all | ⟨more, none⟩
      · exact .inl all
      · right
        refine ⟨more, ?_, none⟩
        by_contra some
        have enough : amount - min amount e.left = 0 := by omega
        rw [enough, take_nonpos (by omega)] at more
        exact absurd more (by simp)
    · simp only [if_neg takes, List.forall_mem_cons]
      rcases ih wanted rest with all | ⟨more, none⟩
      · exact .inl all
      · right
        refine ⟨more, ?_, none⟩
        by_contra some
        have nothing : amount = 0 := by omega
        rw [nothing, take_nonpos (by omega)] at more
        exact absurd more (by simp)

theorem used_le_size (sound : ∀ e ∈ es, e.Sound size) :
    (es.map Entry.used).sum ≤ (es.map fun e => size e.item).sum := by
  induction es with
  | nil => simp
  | cons e es ih =>
    obtain ⟨first, rest⟩ := List.forall_mem_cons.mp sound
    have here := first.whole
    have left := first.left_nonneg
    have later := ih rest
    simp only [List.map_cons, List.sum_cons]
    omega

theorem used_eq_size (sound : ∀ e ∈ es, e.Sound size) (spent : ∀ e ∈ es, e.left = 0) :
    (es.map Entry.used).sum = (es.map fun e => size e.item).sum := by
  congr 1
  apply List.map_congr_left
  intro e member
  have whole := (sound e member).whole
  rw [spent e member, add_zero] at whole
  exact whole

theorem used_take_eq_min (b : β) (wanted : 0 ≤ amount) (sound : ∀ e ∈ es, e.Sound size) :
    ((take b amount es).1.map Entry.used).sum =
      min ((es.map Entry.used).sum + amount) (es.map fun e => size e.item).sum := by
  have total : ((take b amount es).1.map Entry.used).sum + (take b amount es).2 =
      (es.map Entry.used).sum + amount := used_take es
  have after : ∀ e ∈ (take b amount es).1, e.Sound size := take_sound sound
  have sizes : ((take b amount es).1.map fun e => size e.item) = es.map fun e => size e.item := by
    have items : ((take b amount es).1.map Entry.item).map size = (es.map Entry.item).map size := by
      rw [take_items]
    rw [List.map_map, List.map_map] at items
    exact items
  have most := used_le_size after
  rw [sizes] at most
  have rest : (take b amount es).2 = 0 ∨ 0 < (take b amount es).2 ∧
      ∀ e ∈ (take b amount es).1, e.left = 0 :=
    take_rest es wanted fun e member => (sound e member).left_nonneg
  rcases rest with all | ⟨more, none⟩
  · omega
  · have spent := used_eq_size after none
    rw [sizes] at spent
    omega

/-- A later entry is taken from only once an earlier one has nothing left, and no sooner. -/
def Before (sooner : β → β → Prop) (e e' : Entry α β) : Prop :=
  e'.taken ≠ [] → e.left = 0 ∧ ∀ part ∈ e.taken, ∀ part' ∈ e'.taken, sooner part.1 part'.1

theorem take_ordered {sooner : β → β → Prop} (same : sooner b b)
    (latest : ∀ e ∈ es, ∀ part ∈ e.taken, sooner part.1 b) (left : ∀ e ∈ es, 0 ≤ e.left)
    (ordered : es.Pairwise (Before sooner)) :
    (take b amount es).1.Pairwise (Before sooner) := by
  induction es generalizing amount with
  | nil => exact .nil
  | cons e es ih =>
    obtain ⟨first, rest⟩ := List.pairwise_cons.mp ordered
    obtain ⟨here, later⟩ := List.forall_mem_cons.mp latest
    obtain ⟨leftHere, leftLater⟩ := List.forall_mem_cons.mp left
    rw [take]
    by_cases takes : 0 < min amount e.left
    · simp only [if_pos takes]
      refine List.pairwise_cons.mpr ⟨?_, ih later leftLater rest⟩
      intro e' member used
      -- what comes later has not been taken from, for something was left here
      have untaken : ∀ e₀ ∈ es, e₀.taken = [] := by
        intro e₀ inside
        by_contra taken
        have := (first e₀ inside taken).1
        omega
      have more : 0 < amount - min amount e.left := by
        by_contra enough
        rw [take_nonpos (by omega)] at member
        exact used (untaken e' member)
      obtain ⟨e₀, inside, grown⟩ := mem_take member
      refine ⟨by simp only; omega, ?_⟩
      intro part mine part' others
      have last : part'.1 = b := by
        cases grown with
        | same => exact absurd (untaken _ inside) used
        | part n positive most =>
          simp only [untaken e₀ inside, List.nil_append, List.mem_singleton] at others
          rw [others]
      rw [last]
      rcases List.mem_append.mp mine with before | now
      · exact here part before
      · rw [List.mem_singleton.mp now]
        exact same
    · simp only [if_neg takes]
      refine List.pairwise_cons.mpr ⟨?_, ih later leftLater rest⟩
      intro e' member used
      by_cases none : amount ≤ 0
      · rw [take_nonpos none] at member
        exact first e' member used
      · refine ⟨by omega, ?_⟩
        intro part mine part' others
        obtain ⟨e₀, inside, grown⟩ := mem_take member
        cases grown with
        | same => exact (first _ inside used).2 part mine part' others
        | part n positive most =>
          rcases List.mem_append.mp others with before | now
          · exact (first e₀ inside (List.ne_nil_of_mem before)).2 part mine part' before
          · rw [List.mem_singleton.mp now]
            exact here part mine

theorem used_nonneg (sound : e.Sound size) : 0 ≤ e.used := by
  refine List.sum_nonneg ?_
  intro n member
  obtain ⟨part, inside, rfl⟩ := List.mem_map.mp member
  exact (sound.positive part inside).le

theorem used_pos_iff (sound : e.Sound size) : 0 < e.used ↔ e.taken ≠ [] := by
  constructor
  · intro some none
    simp [Entry.used, none] at some
  · intro some
    obtain ⟨part, member⟩ := List.exists_mem_of_ne_nil _ some
    refine (sound.positive part member).trans_le ?_
    refine List.single_le_sum ?_ _ (List.mem_map_of_mem member)
    intro n inside
    obtain ⟨part', here, rfl⟩ := List.mem_map.mp inside
    exact (sound.positive part' here).le

theorem used_eq_zero_iff (sound : ∀ e ∈ es, e.Sound size) :
    (es.map Entry.used).sum ≤ 0 ↔ ∀ e ∈ es, e.taken = [] := by
  induction es with
  | nil => simp
  | cons e es ih =>
    obtain ⟨first, rest⟩ := List.forall_mem_cons.mp sound
    have here := used_nonneg first
    have positive := used_pos_iff first
    have later : 0 ≤ (es.map Entry.used).sum := by
      refine List.sum_nonneg ?_
      intro n member
      obtain ⟨e', inside, rfl⟩ := List.mem_map.mp member
      exact used_nonneg (rest e' inside)
    rw [List.forall_mem_cons, ← ih rest, List.map_cons, List.sum_cons]
    constructor
    · intro none
      refine ⟨?_, by omega⟩
      by_contra some
      have := positive.mpr some
      omega
    · rintro ⟨none, spent⟩
      have : ¬ 0 < e.used := fun some => positive.mp some none
      omega

theorem taken_early_iff {sooner : β → β → Prop} {early : α → Prop} [DecidablePred early]
    (sound : ∀ e ∈ es, e.Sound size) (ordered : es.Pairwise (Before sooner))
    (down : es.Pairwise fun e e' => early e'.item → early e.item) :
    (∀ e ∈ es, e.taken ≠ [] → early e.item) ↔
      (es.map Entry.used).sum ≤
        ((es.filter fun e => early e.item).map fun e => size e.item).sum := by
  induction es with
  | nil => simp
  | cons e es ih =>
    obtain ⟨first, rest⟩ := List.forall_mem_cons.mp sound
    obtain ⟨before, ordered⟩ := List.pairwise_cons.mp ordered
    obtain ⟨below, down⟩ := List.pairwise_cons.mp down
    by_cases soon : early e.item
    · have early' := ih rest ordered down
      have whole := first.whole
      rw [List.filter_cons_of_pos (by simpa using soon)]
      simp only [List.forall_mem_cons, List.map_cons, List.sum_cons]
      by_cases taken : ∀ e' ∈ es, e'.taken = []
      · have none := (used_eq_zero_iff rest).mpr taken
        have left := first.left_nonneg
        have sizes := early'.mp fun e' member some => absurd (taken e' member) some
        refine iff_of_true ⟨fun _ => soon, fun e' member some => absurd (taken e' member) some⟩ ?_
        have nonneg : 0 ≤ ((es.filter fun e => early e.item).map fun e => size e.item).sum := by
          refine List.sum_nonneg ?_
          intro n member
          obtain ⟨e', inside, rfl⟩ := List.mem_map.mp member
          have sound' := rest e' (List.mem_of_mem_filter inside)
          have used := used_nonneg sound'
          have left := sound'.left_nonneg
          have whole := sound'.whole
          omega
        omega
      · -- something later was taken from, so nothing is left here
        push Not at taken
        obtain ⟨e', inside, some⟩ := taken
        have spent := (before e' inside some).1
        rw [← whole, spent, add_zero, Int.add_le_add_iff_left, ← early']
        exact and_iff_right fun _ => soon
    · have none : (e :: es).filter (fun e => early e.item) = [] := by
        rw [List.filter_eq_nil_iff]
        intro e' member
        rcases List.mem_cons.mp member with rfl | inside
        · simpa using soon
        · simpa using fun soon' => soon (below e' inside soon')
      rw [none, List.map_nil, List.sum_nil, used_eq_zero_iff sound]
      refine forall₂_congr ?_
      intro e' member
      have late : ¬ early e'.item := by
        rcases List.mem_cons.mp member with rfl | inside
        · exact soon
        · exact fun soon' => soon (below e' inside soon')
      simp [late]

end Fifo

end AutoTrade
