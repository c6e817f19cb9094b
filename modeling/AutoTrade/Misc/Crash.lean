import Mathlib.Data.List.Basic

/-!
# Programs that may crash

Storage a program changes one operation at a time. A crash falls before an
operation, after the last one, or inside one that is not atomic and leaves
something torn: `crashes` lists every state a program may be cut off in. What a
program keeps at each of them is proved operation by operation.
-/

namespace AutoTrade

universe u v

/-- Storage, and what an operation on it does and may leave undone. -/
structure Device (σ : Type u) (ω : Type v) where
  apply : σ → ω → σ
  /-- The states an interrupted operation may leave. -/
  torn : σ → ω → List σ

namespace Device

variable {σ : Type u} {ω : Type v} (d : Device σ ω)

/-- The operations carried out, in order. -/
def run (s : σ) (ops : List ω) : σ := ops.foldl d.apply s

/-- Every state in which the operations may be cut off. -/
def crashes : σ → List ω → List σ
  | s, [] => [s]
  | s, op :: ops => s :: (d.torn s op ++ crashes (d.apply s op) ops)

@[simp] theorem run_nil (s : σ) : d.run s [] = s := rfl

@[simp] theorem run_cons (s : σ) (op : ω) (ops : List ω) :
    d.run s (op :: ops) = d.run (d.apply s op) ops := rfl

theorem run_append (s : σ) (ops ops' : List ω) :
    d.run s (ops ++ ops') = d.run (d.run s ops) ops' := List.foldl_append

@[simp] theorem crashes_nil (s : σ) : d.crashes s [] = [s] := rfl

@[simp] theorem mem_crashes_cons {s t : σ} {op : ω} {ops : List ω} :
    t ∈ d.crashes s (op :: ops) ↔
      t = s ∨ t ∈ d.torn s op ∨ t ∈ d.crashes (d.apply s op) ops := by
  simp [crashes]

theorem crashes_pair {s t : σ} {op op' : ω} (atomic : d.torn s op = [])
    (atomic' : d.torn (d.apply s op) op' = []) (cut : t ∈ d.crashes s [op, op']) :
    t = s ∨ t = d.apply s op ∨ t = d.apply (d.apply s op) op' := by
  simpa [crashes, atomic, atomic'] using cut

theorem start_mem_crashes (s : σ) (ops : List ω) : s ∈ d.crashes s ops := by
  cases ops <;> simp

theorem run_mem_crashes (s : σ) (ops : List ω) : d.run s ops ∈ d.crashes s ops := by
  induction ops generalizing s with
  | nil => simp
  | cons op ops ih =>
    apply (d.mem_crashes_cons).mpr
    exact .inr (.inr (ih (d.apply s op)))

theorem mem_crashes_append {s t : σ} {ops ops' : List ω} :
    t ∈ d.crashes s (ops ++ ops') ↔
      t ∈ d.crashes s ops ∨ t ∈ d.crashes (d.run s ops) ops' := by
  induction ops generalizing s with
  | nil =>
    simp only [List.nil_append, crashes_nil, List.mem_singleton, run_nil]
    refine ⟨.inr, ?_⟩
    rintro (rfl | later)
    · exact d.start_mem_crashes t ops'
    · exact later
  | cons op ops ih =>
    simp only [List.cons_append, mem_crashes_cons, ih, run_cons]
    tauto

theorem run_take_mem_crashes (s : σ) (ops : List ω) (n : Nat) :
    d.run s (ops.take n) ∈ d.crashes s ops := by
  have whole : d.run s (ops.take n) ∈ d.crashes s (ops.take n ++ ops.drop n) :=
    d.mem_crashes_append.mpr (.inl (d.run_mem_crashes s _))
  rwa [List.take_append_drop] at whole

theorem crashes_invariant {P : σ → Prop} {ops : List ω}
    (whole : ∀ op ∈ ops, ∀ s, P s → P (d.apply s op))
    (torn : ∀ op ∈ ops, ∀ s, P s → ∀ t ∈ d.torn s op, P t) {s : σ} (start : P s) :
    ∀ t ∈ d.crashes s ops, P t := by
  induction ops generalizing s with
  | nil =>
    intro t here
    rw [List.mem_singleton.mp here]
    exact start
  | cons op ops ih =>
    intro t here
    rcases d.mem_crashes_cons.mp here with rfl | broken | later
    · exact start
    · exact torn op List.mem_cons_self s start t broken
    · exact ih (fun op' member => whole op' (List.mem_cons_of_mem _ member))
        (fun op' member => torn op' (List.mem_cons_of_mem _ member))
        (whole op List.mem_cons_self s start) t later

theorem crashes_unchanged {α : Type*} (view : σ → α) {ops : List ω}
    (whole : ∀ op ∈ ops, ∀ s, view (d.apply s op) = view s)
    (torn : ∀ op ∈ ops, ∀ s, ∀ t ∈ d.torn s op, view t = view s) (s : σ) :
    ∀ t ∈ d.crashes s ops, view t = view s :=
  d.crashes_invariant (P := fun t => view t = view s)
    (fun op member t same => (whole op member t).trans same)
    (fun op member t same t' broken => (torn op member t t' broken).trans same) rfl

end Device

end AutoTrade
