import AutoTrade.Environment.TimeBudget
import AutoTrade.Misc.Runs
import Mathlib.MeasureTheory.Measure.Lebesgue.Basic

/-!
# Pauses extend a deadline by their union

Threads open and close pauses in any order. However these overlap, the deadline
moves by the time in which some pause was open, and the time left never grows.
-/

namespace AutoTrade

namespace InferenceTimeBudget

open Set

/-- Consecutive closed intervals, and their lengths together. -/
inductive Extent {T : Type} [AddCommGroup T] [LinearOrder T] : Set T → T → Prop where
  | nil : Extent ∅ 0
  | snoc {times : Set T} {length first last : T} (extent : Extent times length)
      (before : times ⊆ Iic first) (forward : first ≤ last) :
      Extent (times ∪ Icc first last) (length + (last - first))

/-- A budget, what the clock has read last, and the pauses there have been. -/
structure Session (Thread T : Type) where
  now : T
  budget : InferenceTimeBudget T
  /-- Who has a pause open, and since when. -/
  opened : List (Thread × T)
  closed : List (T × T)

section

variable {Thread T : Type} [AddCommGroup T] [LinearOrder T]

/-- One thread does one thing. -/
inductive Step : Session Thread T → Session Thread T → Prop where
  /-- The deadline or the time remaining is read. -/
  | look {s : Session Thread T} {now : T} (later : s.now ≤ now) : Step s { s with now := now }
  | enter {s : Session Thread T} {checked started : T} {budget : InferenceTimeBudget T}
      (thread : Thread) (later : s.now ≤ checked) (after : checked ≤ started)
      (made : s.budget.enter checked started = .ok budget) :
      Step s ⟨started, budget, (thread, started) :: s.opened, s.closed⟩
  | refused {s : Session Thread T} {checked started : T} {e : TimeBudgetError}
      (later : s.now ≤ checked) (failed : s.budget.enter checked started = .error e) :
      Step s { s with now := checked }
  | exit {s : Session Thread T} {thread : Thread} {started now : T}
      (earlier : List (Thread × T)) {others : List (Thread × T)} {budget : InferenceTimeBudget T}
      (one : s.opened = earlier ++ (thread, started) :: others) (later : s.now ≤ now)
      (ended : s.budget.exit now = .ok budget) :
      Step s ⟨now, budget, earlier ++ others, (started, now) :: s.closed⟩

namespace Session

variable (s : Session Thread T)

/-- The time in which some pause was open. -/
def paused : Set T :=
  {t | (∃ pause ∈ s.closed, t ∈ Icc pause.1 pause.2) ∨ ∃ pause ∈ s.opened, t ∈ Icc pause.2 s.now}

def deadline : T := s.budget.deadlineAt s.now

def remaining : T := s.budget.remaining s.now

/-- The budget counts the pauses there have been since its deadline was set. -/
structure Counted (deadline : T) : Prop where
  depth : s.budget.pauseDepth = s.opened.length
  started : ∀ pause ∈ s.opened, pause.2 ≤ s.now
  idle : s.opened = [] → s.budget.pauseStarted = none ∧ s.paused ⊆ Iic s.now ∧
    Extent s.paused (s.budget.deadline - deadline)
  busy : s.opened ≠ [] → ∃ first before, s.budget.pauseStarted = some first ∧ first ≤ s.now ∧
    before ⊆ Iic first ∧ Extent before (s.budget.deadline - deadline) ∧
    s.paused = before ∪ Icc first s.now

end Session

variable {s s' : Session Thread T} {deadline now : T}

omit [AddCommGroup T] in
theorem paused_later (later : s.now ≤ now) (since : ∀ pause ∈ s.opened, pause.2 ≤ s.now)
    (some : s.opened ≠ []) :
    ({ s with now := now } : Session Thread T).paused = s.paused ∪ Icc s.now now := by
  ext t
  constructor
  · rintro (ended | ⟨pause, member, after, before⟩)
    · exact .inl (.inl ended)
    · rcases le_total t s.now with early | late
      · exact .inl (.inr ⟨pause, member, after, early⟩)
      · exact .inr ⟨late, before⟩
  · rintro ((ended | ⟨pause, member, after, before⟩) | ⟨late, before⟩)
    · exact .inl ended
    · exact .inr ⟨pause, member, after, before.trans later⟩
    · have ⟨pause, member⟩ := List.exists_mem_of_ne_nil _ some
      exact .inr ⟨pause, member, (since pause member).trans late, before⟩

theorem Session.Counted.advance (counted : s.Counted deadline) (later : s.now ≤ now) :
    ({ s with now := now } : Session Thread T).Counted deadline where
  depth := counted.depth
  started pause member := (counted.started pause member).trans later
  idle quiet := by
    have quiet : s.opened = [] := quiet
    have ⟨resting, before, extent⟩ := counted.idle quiet
    have same : ({ s with now := now } : Session Thread T).paused = s.paused := by
      unfold paused
      simp only [quiet, List.not_mem_nil, false_and, exists_false, or_false]
    refine ⟨resting, ?_, same ▸ extent⟩
    rw [same]
    exact before.trans (Iic_subset_Iic.mpr later)
  busy some := by
    have ⟨first, before, pausing, since, early, extent, times⟩ := counted.busy some
    refine ⟨first, before, pausing, since.trans later, early, extent, ?_⟩
    rw [paused_later later counted.started some, times, union_assoc,
      Icc_union_Icc_eq_Icc since later]

theorem enter_eq_ok {b b' : InferenceTimeBudget T} {checked started : T} :
    b.enter checked started = .ok b' ↔ 0 < b.remaining checked ∧ b' =
      ⟨b.deadline, b.pauseDepth + 1,
        if b.pauseDepth = 0 then some started else b.pauseStarted⟩ := by
  unfold enter check
  split
  · rename_i overran
    exact ⟨nofun, fun ⟨left, _⟩ => absurd left (not_lt.mpr overran)⟩
  · rename_i left
    exact ⟨fun made => ⟨not_le.mp left, (Except.ok.inj made).symm⟩, fun made => made.2 ▸ rfl⟩

theorem exit_cases {b b' : InferenceTimeBudget T} (ended : b.exit now = .ok b') :
    b.pauseDepth - 1 = 0 ∧ (∃ started, b.pauseStarted = some started ∧
      b' = ⟨b.deadline + max 0 (now - started), 0, none⟩) ∨
    b.pauseDepth - 1 ≠ 0 ∧ b' = { b with pauseDepth := b.pauseDepth - 1 } := by
  unfold exit at ended
  split at ended
  · rename_i final
    split at ended
    · rename_i started pausing
      exact .inl ⟨final, started, pausing, (Except.ok.inj ended).symm⟩
    · cases ended
  · rename_i more
    exact .inr ⟨more, (Except.ok.inj ended).symm⟩

theorem Session.Counted.enter (counted : s.Counted deadline) (thread : Thread) :
    (⟨s.now, ⟨s.budget.deadline, s.budget.pauseDepth + 1,
        if s.budget.pauseDepth = 0 then some s.now else s.budget.pauseStarted⟩,
      (thread, s.now) :: s.opened, s.closed⟩ : Session Thread T).Counted deadline where
  depth := congrArg Nat.succ counted.depth
  started := List.forall_mem_cons.mpr ⟨le_rfl, counted.started⟩
  idle quiet := nomatch quiet
  busy _ := by
    have times : (⟨s.now, ⟨s.budget.deadline, s.budget.pauseDepth + 1,
        if s.budget.pauseDepth = 0 then some s.now else s.budget.pauseStarted⟩,
        (thread, s.now) :: s.opened, s.closed⟩ : Session Thread T).paused =
          s.paused ∪ Icc s.now s.now := by
      ext t
      simp only [paused, mem_ofPred_eq, List.exists_mem_cons_iff, mem_union]
      rw [or_assoc, @or_comm (t ∈ Icc s.now s.now)]
    rw [times]
    by_cases quiet : s.opened = []
    · have ⟨_, before, extent⟩ := counted.idle quiet
      have depth : s.budget.pauseDepth = 0 := counted.depth.trans (congrArg List.length quiet)
      exact ⟨s.now, s.paused, if_pos depth, le_rfl, before, extent, rfl⟩
    · have ⟨first, before, pausing, since, early, extent, times⟩ := counted.busy quiet
      have depth : s.budget.pauseDepth ≠ 0 := by
        rw [counted.depth]
        exact fun none => quiet (List.length_eq_zero_iff.mp none)
      refine ⟨first, before, (if_neg depth).trans pausing, since, early, extent, ?_⟩
      rw [times, union_assoc, Icc_union_Icc_eq_Icc since le_rfl]

end

section

variable {Thread T : Type} [AddCommGroup T] [LinearOrder T] [IsOrderedAddMonoid T]
  {s s' : Session Thread T} {deadline now : T}

theorem Session.Counted.exit {budget : InferenceTimeBudget T} {thread : Thread} {started : T}
    {earlier others : List (Thread × T)} (counted : s.Counted deadline)
    (one : s.opened = earlier ++ (thread, started) :: others)
    (ended : s.budget.exit s.now = .ok budget) :
    (⟨s.now, budget, earlier ++ others, (started, s.now) :: s.closed⟩ :
      Session Thread T).Counted deadline := by
  have ⟨first, before, pausing, since, early, extent, times⟩ := counted.busy (by simp [one])
  have same : (⟨s.now, budget, earlier ++ others, (started, s.now) :: s.closed⟩ :
      Session Thread T).paused = s.paused := by
    ext t
    simp only [paused, one, mem_ofPred_eq, List.mem_append, List.mem_cons, or_and_right, exists_or,
      exists_eq_left]
    rw [@or_left_comm (∃ x ∈ earlier, _), or_assoc, or_left_comm]
  have depth : s.budget.pauseDepth = (earlier ++ others).length + 1 := by
    rw [counted.depth, one]
    simp only [List.length_append, List.length_cons]
    omega
  have inOrder : ∀ pause ∈ earlier ++ others, pause.2 ≤ s.now := by
    intro pause member
    refine counted.started pause ?_
    rw [one]
    simp only [List.mem_append, List.mem_cons] at member ⊢
    tauto
  have left : s.budget.pauseDepth - 1 = (earlier ++ others).length := by omega
  rcases exit_cases ended with ⟨final, started', pausing', rfl⟩ | ⟨more, rfl⟩
  · obtain rfl := Option.some.inj (pausing.symm.trans pausing')
    have quiet := List.length_eq_zero_iff.mp (left.symm.trans final)
    refine ⟨left ▸ final.symm, inOrder, fun _ => ⟨rfl, ?_, ?_⟩, fun some => absurd quiet some⟩
    · rw [same, times]
      exact union_subset (early.trans (Iic_subset_Iic.mpr since)) fun t inside => inside.2
    · rw [same, times, max_eq_right (sub_nonneg.mpr since), add_sub_right_comm]
      exact extent.snoc early since
  · refine ⟨left, inOrder, fun quiet => ?_, fun _ => ?_⟩
    · exact absurd (left.trans (congrArg List.length quiet)) more
    · rw [same]
      exact ⟨first, before, pausing, since, early, extent, times⟩

theorem Step.counted (step : Step s s') (counted : s.Counted deadline) : s'.Counted deadline := by
  cases step with
  | look later => exact counted.advance later
  | enter thread later after made =>
    obtain ⟨_, rfl⟩ := enter_eq_ok.mp made
    exact (counted.advance (later.trans after)).enter thread
  | refused later failed => exact counted.advance later
  | exit earlier one later ended => exact (counted.advance later).exit one ended

theorem Session.Counted.extent (counted : s.Counted deadline) :
    Extent s.paused (s.deadline - deadline) := by
  unfold Session.deadline deadlineAt
  by_cases quiet : s.opened = []
  · have ⟨resting, _, extent⟩ := counted.idle quiet
    rw [resting]
    exact extent
  · have ⟨first, before, pausing, since, early, extent, times⟩ := counted.busy quiet
    rw [pausing, times]
    dsimp only
    rw [max_eq_right (sub_nonneg.mpr since), add_sub_right_comm]
    exact extent.snoc early since

theorem remaining_step (step : Step s s') (counted : s.Counted deadline) :
    s'.remaining ≤ s.remaining ∧ (s.opened ≠ [] → s'.opened ≠ [] → s'.remaining = s.remaining) := by
  -- while time only passes, what is left falls or, in a pause, stays
  have passes : ∀ {now : T}, s.now ≤ now → s.budget.remaining now ≤ s.remaining ∧
      (s.opened ≠ [] → s.budget.remaining now = s.remaining) := by
    intro now later
    unfold Session.remaining InferenceTimeBudget.remaining
    by_cases quiet : s.opened = []
    · rw [(counted.idle quiet).1]
      exact ⟨sub_le_sub_left later _, absurd quiet⟩
    · have ⟨first, _, pausing, _⟩ := counted.busy quiet
      rw [pausing]
      exact ⟨le_rfl, fun _ => rfl⟩
  cases step with
  | look later => exact ⟨(passes later).1, fun some _ => (passes later).2 some⟩
  | refused later failed => exact ⟨(passes later).1, fun some _ => (passes later).2 some⟩
  | @enter checked started budget thread later after made =>
    have passed := passes (later.trans after)
    obtain ⟨_, rfl⟩ := enter_eq_ok.mp made
    have same : s.budget.deadline - (if s.budget.pauseDepth = 0 then some started
        else s.budget.pauseStarted).getD started = s.budget.remaining started := by
      by_cases quiet : s.opened = []
      · have depth : s.budget.pauseDepth = 0 := counted.depth.trans (congrArg List.length quiet)
        rw [if_pos depth]
        unfold InferenceTimeBudget.remaining
        rw [(counted.idle quiet).1]
        rfl
      · rw [if_neg fun none => quiet (List.length_eq_zero_iff.mp (counted.depth.symm.trans none))]
        rfl
    exact ⟨same.trans_le passed.1, fun some _ => same.trans (passed.2 some)⟩
  | @exit _ _ now earlier others budget one later ended =>
    have ⟨first, _, pausing, since, _⟩ := counted.busy (by simp [one])
    have before : s.remaining = s.budget.deadline - first := by
      unfold Session.remaining InferenceTimeBudget.remaining
      rw [pausing]
      rfl
    have same : budget.remaining now = s.remaining := by
      rw [before]
      unfold InferenceTimeBudget.remaining
      rcases exit_cases ended with ⟨_, started', pausing', rfl⟩ | ⟨_, rfl⟩
      · obtain rfl := Option.some.inj (pausing.symm.trans pausing')
        rw [max_eq_right (sub_nonneg.mpr (since.trans later))]
        change s.budget.deadline + (now - first) - now = _
        rw [add_sub_assoc, sub_sub_cancel_left, sub_eq_add_neg]
      · dsimp only
        rw [pausing]
        rfl
    exact ⟨same.le, fun _ _ => same⟩

omit [IsOrderedAddMonoid T] in
theorem Session.Counted.exit_ok (counted : s.Counted deadline) (some : s.opened ≠ []) :
    ∃ budget, s.budget.exit now = .ok budget := by
  have ⟨first, _, pausing, _⟩ := counted.busy some
  unfold InferenceTimeBudget.exit
  rw [pausing]
  split <;> exact ⟨_, rfl⟩

theorem counted_run (run : Relation.ReflTransGen Step s s') (counted : s.Counted deadline) :
    s'.Counted deadline := by
  induction run with
  | refl => exact counted
  | tail _ step ih => exact step.counted ih

theorem remaining_run (run : Relation.ReflTransGen Step s s') (counted : s.Counted deadline) :
    s'.remaining ≤ s.remaining := by
  induction run with
  | refl => exact le_rfl
  | tail run step ih => exact (remaining_step step (counted_run run counted)).1.trans ih

end

/-- One thread does one thing, and a pause is open before and after it. -/
def PausedStep {Thread T : Type} [AddCommGroup T] [LinearOrder T] (s s' : Session Thread T) :
    Prop := Step s s' ∧ s.opened ≠ [] ∧ s'.opened ≠ []

theorem remaining_pausedRun {Thread T : Type} [AddCommGroup T] [LinearOrder T]
    [IsOrderedAddMonoid T] {s s' : Session Thread T} {deadline : T}
    (run : Relation.ReflTransGen PausedStep s s') (counted : s.Counted deadline) :
    s'.Counted deadline ∧ s'.remaining = s.remaining := by
  induction run with
  | refl => exact ⟨counted, rfl⟩
  | tail _ step ih =>
    have ⟨one, before, after⟩ := step
    exact ⟨one.counted ih.1, ((remaining_step one ih.1).2 before after).trans ih.2⟩

theorem Extent.volume {times : Set ℝ} {length : ℝ} (extent : Extent times length) :
    0 ≤ length ∧ MeasureTheory.volume times = ENNReal.ofReal length := by
  induction extent with
  | nil => simp
  | @snoc times length first last extent before forward ih =>
    have ⟨positive, measure⟩ := ih
    have longer := sub_nonneg.mpr forward
    refine ⟨add_nonneg positive longer, ?_⟩
    have apart : MeasureTheory.AEDisjoint MeasureTheory.volume times (Icc first last) := by
      refine MeasureTheory.measure_mono_null (fun t ⟨here, there⟩ => ?_)
        (Real.volume_singleton (a := first))
      exact le_antisymm (before here) there.1
    rw [MeasureTheory.measure_union₀ measurableSet_Icc.nullMeasurableSet apart, measure,
      Real.volume_Icc, ENNReal.ofReal_add positive longer]

/-- Whatever the threads do, the deadline has moved by the measure of the time in which some pause
was open, and every open pause can end; the time left never grows, and it stays as it is while a
pause is open. -/
theorem pauses_extend_deadline {Thread : Type} {duration target : Option ℝ} {now : ℝ}
    {b : InferenceTimeBudget ℝ} {s : Session Thread ℝ} (made : make duration target now = .ok b)
    (run : Relation.ReflTransGen Step ⟨now, b, [], []⟩ s) :
    (b.deadline ≤ s.deadline ∧
      MeasureTheory.volume s.paused = ENNReal.ofReal (s.deadline - b.deadline)) ∧
    (s.opened ≠ [] → ∀ later, ∃ budget, s.budget.exit later = .ok budget) ∧
    (∀ s', Relation.ReflTransGen Step s s' → s'.remaining ≤ s.remaining) ∧
    ∀ s', Relation.ReflTransGen PausedStep s s' → s'.remaining = s.remaining := by
  have resting : b.pauseDepth = 0 ∧ b.pauseStarted = none := by
    unfold make at made
    split at made
    · split at made
      · cases made
      · obtain rfl := Except.ok.inj made
        exact ⟨rfl, rfl⟩
    · obtain rfl := Except.ok.inj made
      exact ⟨rfl, rfl⟩
    · cases made
  have begins : (⟨now, b, [], []⟩ : Session Thread ℝ).Counted b.deadline := by
    have times : (⟨now, b, [], []⟩ : Session Thread ℝ).paused = ∅ := by simp [Session.paused]
    refine ⟨resting.1, nofun, fun _ => ⟨resting.2, ?_, ?_⟩, fun some => absurd rfl some⟩
    · rw [times]
      exact empty_subset _
    · rw [times, sub_self]
      exact .nil
  have counted := counted_run run begins
  have ⟨positive, measure⟩ := counted.extent.volume
  exact ⟨⟨sub_nonneg.mp positive, measure⟩, fun some later => counted.exit_ok some,
    fun s' run' => remaining_run run' counted, fun s' run' => (remaining_pausedRun run' counted).2⟩

/-- Two overlapping pauses, of 1 to 3 and of 2 to 5, count four seconds and not five. -/
theorem overlapping_pauses_extend :
    MeasureTheory.volume (⟨5, ⟨14, 0, none⟩, [], [(2, 5), (1, 3)]⟩ : Session Bool ℝ).paused =
      ENNReal.ofReal 4 := by
  have first : Step (⟨0, ⟨10, 0, none⟩, [], []⟩ : Session Bool ℝ)
      ⟨1, ⟨10, 1, some 1⟩, [(true, 1)], []⟩ :=
    .enter true zero_le_one le_rfl (enter_eq_ok.mpr ⟨by norm_num [remaining], rfl⟩)
  have second : Step (⟨1, ⟨10, 1, some 1⟩, [(true, 1)], []⟩ : Session Bool ℝ)
      ⟨2, ⟨10, 2, some 1⟩, [(false, 2), (true, 1)], []⟩ :=
    .enter false one_le_two le_rfl (enter_eq_ok.mpr ⟨by norm_num [remaining], rfl⟩)
  have third : Step (⟨2, ⟨10, 2, some 1⟩, [(false, 2), (true, 1)], []⟩ : Session Bool ℝ)
      ⟨3, ⟨10, 1, some 1⟩, [(false, 2)], [(1, 3)]⟩ :=
    .exit [(false, 2)] rfl (by norm_num) rfl
  have fourth : Step (⟨3, ⟨10, 1, some 1⟩, [(false, 2)], [(1, 3)]⟩ : Session Bool ℝ)
      ⟨5, ⟨14, 0, none⟩, [], [(2, 5), (1, 3)]⟩ :=
    .exit [] rfl (by norm_num) (by norm_num [exit])
  have made : make none (some (10 : ℝ)) 0 = .ok ⟨10, 0, none⟩ := rfl
  have counted := pauses_extend_deadline made
    (((Relation.ReflTransGen.single first).tail second).tail third |>.tail fourth)
  have extended :
      (⟨5, ⟨14, 0, none⟩, [], [(2, 5), (1, 3)]⟩ : Session Bool ℝ).deadline - 10 = 4 := by
    norm_num [Session.deadline, deadlineAt]
  rw [← extended]
  exact counted.1.2

end InferenceTimeBudget

end AutoTrade
