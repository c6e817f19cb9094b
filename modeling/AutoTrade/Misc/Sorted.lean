import Mathlib.Data.List.Sort

/-!
# Lists taken class by class

A list taken one class at a time, the classes in ascending order, is the list
itself where it was sorted by class, and a permutation of it where it was not.
-/

namespace AutoTrade

variable {α : Type*}

variable {f : α → Nat}

theorem filter_append_filter_ne {c : Nat} {xs : List α}
    (sorted : xs.Pairwise fun x y => f x ≤ f y) (least : ∀ x ∈ xs, c ≤ f x) :
    xs.filter (fun x => f x = c) ++ xs.filter (fun x => f x ≠ c) = xs := by
  induction xs with
  | nil => rfl
  | cons x xs ih =>
    obtain ⟨first, sorted⟩ := List.pairwise_cons.mp sorted
    have rest := ih sorted fun y member => least y (List.mem_cons_of_mem _ member)
    by_cases here : f x = c
    · rw [List.filter_cons_of_pos (by simpa using here), List.filter_cons_of_neg (by simpa using here),
        List.cons_append, rest]
    · have later : ∀ y ∈ xs, f y ≠ c := fun y member equal => by
        have bound := least x List.mem_cons_self
        have order := first y member
        omega
      have none : xs.filter (fun y => f y = c) = [] :=
        List.filter_eq_nil_iff.mpr fun y member => by simpa using later y member
      rw [List.filter_cons_of_neg (by simpa using here), none,
        List.filter_cons_of_pos (by simpa using here), List.nil_append,
        List.filter_eq_self.mpr fun y member => by simpa using later y member]

theorem filter_filter_ne {c c' : Nat} (different : c' ≠ c) (xs : List α) :
    (xs.filter fun x => f x ≠ c).filter (fun x => f x = c') = xs.filter fun x => f x = c' := by
  rw [List.filter_filter]
  refine List.filter_congr fun x _ => ?_
  by_cases here : f x = c' <;> simp [here, different]

theorem flatMap_filter_of_sorted {classes : List Nat} (xs : List α)
    (sorted : xs.Pairwise fun x y => f x ≤ f y) (ascending : classes.Pairwise (· < ·))
    (covered : ∀ x ∈ xs, f x ∈ classes) :
    (classes.flatMap fun c => xs.filter fun x => f x = c) = xs := by
  induction classes generalizing xs with
  | nil =>
    have none : xs = [] := List.eq_nil_iff_forall_not_mem.mpr fun x member =>
      absurd (covered x member) List.not_mem_nil
    simp [none]
  | cons c classes ih =>
    obtain ⟨later, ascending⟩ := List.pairwise_cons.mp ascending
    have least : ∀ x ∈ xs, c ≤ f x := fun x member => by
      rcases List.mem_cons.mp (covered x member) with here | there
      · exact here.ge
      · exact (later _ there).le
    have rest := ih (xs.filter fun x => f x ≠ c) (sorted.sublist List.filter_sublist) ascending
      fun x member => by
        obtain ⟨inList, different⟩ := List.mem_filter.mp member
        rcases List.mem_cons.mp (covered x inList) with here | there
        · simp [here] at different
        · exact there
    rw [List.flatMap_cons, ← filter_append_filter_ne sorted least, filter_append_filter_ne sorted least]
    conv_rhs => rw [← filter_append_filter_ne sorted least, ← rest]
    congr 1
    refine List.flatMap_congr fun c' member => ?_
    rw [filter_filter_ne (later c' member).ne']

theorem classes_perm {n : Nat} {xs : List α} (below : ∀ x ∈ xs, f x < n) :
    ((List.range n).map fun c => xs.filter fun x => f x = c).flatten.Perm xs := by
  induction n generalizing xs with
  | zero =>
    cases xs with
    | nil => exact .nil
    | cons x xs => exact absurd (below x List.mem_cons_self) (Nat.not_lt_zero _)
  | succ n ih =>
    have earlier : ((List.range n).map fun c => xs.filter fun x => f x = c).flatten.Perm
        (xs.filter fun x => f x ≠ n) := by
      refine List.Perm.trans (.of_eq ?_) (ih fun x member => ?_)
      · refine congrArg List.flatten (List.map_congr_left fun c member => ?_)
        exact (filter_filter_ne (List.mem_range.mp member).ne xs).symm
      · have ⟨there, different⟩ := List.mem_filter.mp member
        have other : f x ≠ n := of_decide_eq_true different
        have := below x there
        omega
    have both : (xs.filter (fun x => f x = n) ++ xs.filter fun x => f x ≠ n).Perm xs := by
      simpa using List.filter_append_perm (fun x => decide (f x = n)) xs
    rw [List.range_succ, List.map_append, List.flatten_append, List.map_singleton,
      List.flatten_singleton]
    exact ((earlier.append_right _).trans List.perm_append_comm).trans both

end AutoTrade
