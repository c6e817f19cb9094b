import AutoTrade.Misc.Dict

/-!
# Locks

Processes that hold locks, shared or exclusive, as their states say. That no two of them
conflict is kept by a process that lets go of locks and by one that takes locks that are
free to it; two critical sections that need one lock exclude each other.
-/

namespace AutoTrade

inductive LockMode where
  | shared | exclusive
  deriving DecidableEq

namespace Locks

/-- Two processes may hold one lock so. -/
def compatible : Option LockMode → Option LockMode → Bool
  | some .exclusive, some _ | some .shared, some .exclusive => false
  | _, _ => true

theorem compatible_comm (m m' : Option LockMode) : compatible m m' = compatible m' m := by
  rcases m with _ | _ | _ <;> rcases m' with _ | _ | _ <;> rfl

@[simp] theorem compatible_none (m : Option LockMode) : compatible none m = true := by
  cases m <;> rfl

@[simp] theorem compatible_exclusive (m : Option LockMode) :
    compatible (some .exclusive) m = m.isNone := by
  rcases m with _ | _ | _ <;> rfl

variable {ι κ P : Type*} [DecidableEq ι] {holds : P → κ → Option LockMode}

/-- No two processes hold a lock in ways that conflict. -/
def Apart (holds : P → κ → Option LockMode) (procs : Dict ι P) : Prop :=
  ∀ i j p q, procs.get? i = some p → procs.get? j = some q → i ≠ j →
    ∀ k, compatible (holds p k) (holds q k) = true

/-- A process may take a lock: no other holds it in a way that conflicts. -/
def free (holds : P → κ → Option LockMode) (procs : Dict ι P) (i : ι) (k : κ) (mode : LockMode) :
    Bool :=
  procs.entries.all fun entry => entry.1 = i ∨ compatible (some mode) (holds entry.2 k)

variable {procs : Dict ι P} {i j : ι} {p p' q : P} {k : κ} {mode : LockMode}

theorem Apart.empty : Apart holds (Dict.empty : Dict ι P) := fun _ _ _ _ found => nomatch found

theorem free_spec (isFree : free holds procs i k mode = true) (found : procs.get? j = some q)
    (other : i ≠ j) : compatible (some mode) (holds q k) = true := by
  have each := List.all_eq_true.mp isFree (j, q) (Dict.mem_entries_iff.mpr found)
  simpa [Ne.symm other] using each

theorem Apart.erase (apart : Apart holds procs) (i : ι) : Apart holds (procs.erase i) := by
  intro a b p q found found' other
  rw [Dict.get?_erase] at found found'
  split_ifs at found found'
  exact apart a b p q found found' other

theorem Apart.set (apart : Apart holds procs)
    (takes : ∀ k, holds p' k = none ∨ (∃ p, procs.get? i = some p ∧ holds p' k = holds p k) ∨
      ∃ mode, holds p' k = some mode ∧ free holds procs i k mode = true) :
    Apart holds (procs.set i p') := by
  have fits : ∀ j q, procs.get? j = some q → i ≠ j → ∀ k,
      compatible (holds p' k) (holds q k) = true := by
    intro j q found other k
    rcases takes k with dropped | ⟨p, before, kept⟩ | ⟨mode, taken, isFree⟩
    · rw [dropped, compatible_none]
    · rw [kept]
      exact apart i j p q before found other k
    · rw [taken]
      exact free_spec isFree found other
  intro a b p q found found' other k
  rw [Dict.get?_set] at found found'
  split_ifs at found with left
  · subst left
    rw [if_neg other] at found'
    obtain rfl := Option.some.inj found
    exact fits b q found' other k
  · split_ifs at found' with right
    · subst right
      obtain rfl := Option.some.inj found'
      rw [compatible_comm]
      exact fits a p found left k
    · exact apart a b p q found found' other k

theorem Apart.eq_of_exclusive (apart : Apart holds procs) (found : procs.get? i = some p)
    (found' : procs.get? j = some q) (exclusive : holds p k = some .exclusive)
    (held : holds q k ≠ none) : i = j := by
  by_contra other
  have fits := apart i j p q found found' other k
  rw [exclusive, compatible_exclusive, Option.isNone_iff_eq_none] at fits
  exact held fits

end Locks

end AutoTrade
