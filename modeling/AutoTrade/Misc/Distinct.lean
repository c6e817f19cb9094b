import Mathlib.Data.List.Basic
import Mathlib.Data.List.Nodup

/-!
# One member of each key

Of the members of a list that share a key, the first or the last.
-/

namespace AutoTrade

universe u v

variable {α : Type u} {κ : Type v} [DecidableEq κ] (key : α → κ)

/-- The first member of each key, in the order of the list. -/
def firsts : List α → List α
  | [] => []
  | x :: xs => x :: (firsts xs).filter fun y => key y ≠ key x

/-- The last member of each key, in the order of the list. -/
def lasts (xs : List α) : List α := (firsts key xs.reverse).reverse

attribute [local simp] firsts

variable {key} {x y : α} {xs ys : List α}

theorem firsts_sublist (xs : List α) : (firsts key xs).Sublist xs := by
  induction xs with
  | nil => exact List.Sublist.refl _
  | cons x xs ih =>
    apply List.Sublist.cons_cons
    exact List.filter_sublist.trans ih

theorem nodup_firsts (xs : List α) : ((firsts key xs).map key).Nodup := by
  induction xs with
  | nil => exact List.nodup_nil
  | cons x xs ih =>
    apply List.nodup_cons.mpr
    constructor
    · intro member
      have ⟨y, inside, same⟩ := List.mem_map.mp member
      simp [same] at inside
    · exact ih.sublist (List.filter_sublist.map key)

theorem mem_firsts : x ∈ firsts key xs ↔
    ∃ before after, xs = before ++ x :: after ∧ ∀ y ∈ before, key y ≠ key x := by
  induction xs with
  | nil => simp [firsts]
  | cons z xs ih =>
    simp only [firsts, List.mem_cons, List.mem_filter, decide_eq_true_eq]
    constructor
    · rintro (rfl | ⟨member, other⟩)
      · exact ⟨[], xs, rfl, by simp⟩
      · have ⟨before, after, split, apart⟩ := ih.mp member
        refine ⟨z :: before, after, by rw [split]; rfl, ?_⟩
        intro y inside
        rcases List.mem_cons.mp inside with rfl | inside
        · exact other.symm
        · exact apart y inside
    · rintro ⟨before, after, split, apart⟩
      cases before with
      | nil =>
        rw [List.nil_append] at split
        exact .inl (List.cons.inj split).1.symm
      | cons w before =>
        have ⟨first, rest⟩ := List.cons.inj split
        subst first
        refine .inr ⟨ih.mpr ⟨before, after, rest, ?_⟩, (apart z List.mem_cons_self).symm⟩
        exact fun y inside => apart y (List.mem_cons_of_mem _ inside)

theorem exists_mem_firsts (member : x ∈ xs) : ∃ y ∈ firsts key xs, key y = key x := by
  induction xs with
  | nil => cases member
  | cons z xs ih =>
    by_cases same : key z = key x
    · exact ⟨z, List.mem_cons_self, same⟩
    · rcases List.mem_cons.mp member with rfl | inside
      · exact absurd rfl same
      · have ⟨y, kept, here⟩ := ih inside
        refine ⟨y, List.mem_cons_of_mem _ (List.mem_filter.mpr ⟨kept, ?_⟩), here⟩
        simpa [here] using Ne.symm same

theorem mem_of_mem_firsts (member : x ∈ firsts key xs) : x ∈ xs := (firsts_sublist xs).subset member

theorem firsts_eq_self (distinct : (xs.map key).Nodup) : firsts key xs = xs := by
  induction xs with
  | nil => rfl
  | cons x xs ih =>
    have ⟨apart, rest⟩ := List.nodup_cons.mp distinct
    rw [firsts, ih rest]
    congr 1
    apply List.filter_eq_self.mpr
    intro y member
    simp only [decide_eq_true_eq]
    intro same
    exact apart (same ▸ List.mem_map_of_mem member)

theorem firsts_append (xs ys : List α) :
    firsts key (xs ++ ys) = firsts key xs ++ (firsts key ys).filter fun y => key y ∉ xs.map key := by
  induction xs with
  | nil => simp [firsts]
  | cons x xs ih =>
    rw [List.cons_append, firsts, ih, List.filter_append, firsts, List.cons_append, List.filter_filter]
    congr 2
    apply List.filter_congr
    intro y _
    by_cases same : key y = key x <;> simp [same]

theorem firsts_least {r : α → α → Prop} (refl : ∀ a, r a a) (sorted : xs.Pairwise r)
    (first : x ∈ firsts key xs) (member : y ∈ xs) (same : key y = key x) : r x y := by
  have ⟨before, after, split, apart⟩ := mem_firsts.mp first
  rw [split] at sorted member
  have ⟨_, behind, _⟩ := List.pairwise_append.mp sorted
  rcases List.mem_append.mp member with early | late
  · exact absurd same (apart y early)
  · rcases List.mem_cons.mp late with rfl | late
    · exact refl y
    · exact (List.pairwise_cons.mp behind).1 y late

theorem lasts_sublist (xs : List α) : (lasts key xs).Sublist xs := by
  have sublist := (@firsts_sublist _ _ _ key xs.reverse).reverse
  rwa [List.reverse_reverse] at sublist

theorem nodup_lasts (xs : List α) : ((lasts key xs).map key).Nodup := by
  rw [lasts, List.map_reverse]
  exact List.nodup_reverse.mpr (nodup_firsts _)

theorem mem_of_mem_lasts (member : x ∈ lasts key xs) : x ∈ xs := (lasts_sublist xs).subset member

theorem lasts_append (xs ys : List α) :
    lasts key (xs ++ ys) = ((lasts key xs).filter fun x => key x ∉ ys.map key) ++ lasts key ys := by
  unfold lasts
  rw [List.reverse_append, firsts_append, List.reverse_append, List.filter_reverse]
  simp only [List.map_reverse, List.mem_reverse]

theorem exists_mem_lasts (member : x ∈ xs) : ∃ y ∈ lasts key xs, key y = key x := by
  have ⟨y, kept, same⟩ := @exists_mem_firsts _ _ _ key _ _ (List.mem_reverse.mpr member)
  exact ⟨y, List.mem_reverse.mpr kept, same⟩

theorem lasts_eq_self (distinct : (xs.map key).Nodup) : lasts key xs = xs := by
  rw [lasts, firsts_eq_self, List.reverse_reverse]
  rw [List.map_reverse]
  exact List.nodup_reverse.mpr distinct

theorem lasts_filter_append {pick : α → Bool} (picked : ∀ x ∈ xs, pick x = true) :
    lasts key ((lasts key (xs ++ ys)).filter pick ++ ys) = lasts key (xs ++ ys) := by
  have distinct : (((lasts key (xs ++ ys)).filter pick).map key).Nodup :=
    (nodup_lasts (xs ++ ys)).sublist (List.filter_sublist.map key)
  rw [lasts_append, lasts_eq_self distinct, lasts_append, List.filter_append, List.filter_append]
  have stays : (((lasts key xs).filter fun x => key x ∉ ys.map key).filter pick).filter
      (fun x => key x ∉ ys.map key) = (lasts key xs).filter fun x => key x ∉ ys.map key := by
    rw [List.filter_filter, List.filter_filter]
    apply List.filter_congr
    intro x member
    simp [picked x (mem_of_mem_lasts member)]
  have goes : ((lasts key ys).filter pick).filter (fun x => key x ∉ ys.map key) = [] := by
    apply List.filter_eq_nil_iff.mpr
    intro x member
    have inside := mem_of_mem_lasts (List.mem_filter.mp member).1
    simpa using ⟨x, inside, rfl⟩
  rw [stays, goes, List.append_nil]

end AutoTrade
