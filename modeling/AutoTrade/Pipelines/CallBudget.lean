import Mathlib.Data.NNRat.Defs
import Mathlib.Data.Rat.Defs
import Mathlib.Algebra.Order.Ring.Rat

/-!
# The call budget of a research session

`SessionCallBudget` of `autotrade/pipelines/research_session.py`: one counter,
one spend meter and one deadline for the three model roles of a session.
-/

namespace AutoTrade

/-- `SESSION_LLM_CALL_ROLES`. -/
inductive CallRole where
  | main | subagent | compact
  deriving DecidableEq

/-- The two caps a session is built with. -/
structure CallLimits where
  maxCalls : Nat
  maxApiSpend : ℚ
  maxCalls_pos : 0 < maxCalls
  maxApiSpend_pos : 0 < maxApiSpend

namespace CallLimits

/-- The sub-agent cap of `session_role_quotas`. -/
def subagentCap (limits : CallLimits) : Nat :=
  let share := limits.maxCalls * 200 / 400
  if 2 ≤ limits.maxCalls then max share 1 else share

/-- The parent reserve of `session_role_quotas`. -/
def parentReserve (limits : CallLimits) : Nat := limits.maxCalls * 50 / 400

end CallLimits

/-- `SessionCallBudget`. -/
structure CallBudget where
  limits : CallLimits
  calls : Nat
  apiSpend : ℚ
  subagentCalls : Nat
  mainCalls : Nat
  compactCalls : Nat

/-- What a refused claim raises. -/
inductive ClaimError where
  | deadlineExceeded
  | apiSpendExhausted (spent cap : ℚ)
  | callsExhausted
  deriving DecidableEq

namespace CallBudget

def new (limits : CallLimits) : CallBudget := ⟨limits, 0, 0, 0, 0, 0⟩

/-- The calls of the parent's reserve it has not claimed. -/
def parentNeeded (b : CallBudget) : Nat := b.limits.parentReserve - b.mainCalls

/-- The calls nobody has claimed. -/
def available (b : CallBudget) : Nat := b.limits.maxCalls - b.calls

/-- The counters after a granted claim. -/
def count (b : CallBudget) : CallRole → CallBudget
  | .subagent => { b with calls := b.calls + 1, subagentCalls := b.subagentCalls + 1 }
  | .main => { b with calls := b.calls + 1, mainCalls := b.mainCalls + 1 }
  | .compact => { b with calls := b.calls + 1, compactCalls := b.compactCalls + 1 }

/-- `claim`, with the time the session's clock has left. -/
def claim (b : CallBudget) (role : CallRole) (remaining : ℚ) : Except ClaimError CallBudget :=
  if remaining ≤ 0 then .error .deadlineExceeded
  else if b.limits.maxApiSpend ≤ b.apiSpend then
    .error (.apiSpendExhausted b.apiSpend b.limits.maxApiSpend)
  else if b.limits.maxCalls ≤ b.calls then .error .callsExhausted
  else if role = .subagent ∧ b.limits.subagentCap ≤ b.subagentCalls then .error .callsExhausted
  else if role ≠ .main ∧ (b.limits.maxCalls : Int) - b.calls - 1 < b.parentNeeded then
    .error .callsExhausted
  else .ok (b.count role)

/-- `charge`: a response costs what its tokens cost. -/
def charge (b : CallBudget) (usd : ℚ≥0) : CallBudget := { b with apiSpend := b.apiSpend + usd }

/-- `seed`: the counters earlier attempts of the session recorded. -/
def seed (b : CallBudget) (used : CallBudget) (spent : ℚ) : CallBudget :=
  { b with calls := used.calls, mainCalls := used.mainCalls, subagentCalls := used.subagentCalls,
           compactCalls := used.compactCalls, apiSpend := spent }

end CallBudget

/-- What happens to the budget of a session. -/
inductive CallEvent where
  | claim (role : CallRole) (remaining : ℚ)
  | charge (usd : ℚ≥0)

def CallEvent.isMain : CallEvent → Bool
  | .claim .main _ => true
  | _ => false

namespace CallBudget

def step (b : CallBudget) : CallEvent → CallBudget
  | .claim role remaining =>
    match b.claim role remaining with
    | .ok claimed => claimed
    | .error _ => b
  | .charge usd => b.charge usd

/-- The budget after a sequence of events. -/
def after (b : CallBudget) (events : List CallEvent) : CallBudget := events.foldl step b

/-- The budgets a session can get to: an attempt starts from nothing, or from the
counters an earlier attempt recorded at some point. -/
inductive Reached (limits : CallLimits) : CallBudget → Prop
  | new : Reached limits (new limits)
  | step {b : CallBudget} (event : CallEvent) : Reached limits b → Reached limits (b.step event)
  | resume {used : CallBudget} (spent : ℚ) :
      Reached limits used → Reached limits ((CallBudget.new limits).seed used spent)

theorem claim_eq_ok {b b' : CallBudget} {role : CallRole} {remaining : ℚ} :
    b.claim role remaining = .ok b' ↔
      0 < remaining ∧ b.apiSpend < b.limits.maxApiSpend ∧ b.calls < b.limits.maxCalls ∧
        (role = .subagent → b.subagentCalls < b.limits.subagentCap) ∧
        (role ≠ .main → b.parentNeeded < b.available) ∧ b' = b.count role := by
  have room : ¬ ((b.limits.maxCalls : Int) - b.calls - 1 < b.parentNeeded) ↔
      b.parentNeeded < b.available := by
    unfold available
    omega
  unfold claim
  split_ifs with late spent called capped reserved
  · simp [late]
  · simp [spent]
  · simp [called]
  · simp [capped.1, capped.2]
  · have short := mt room.mpr (not_not.mpr reserved.2)
    simp [reserved.1, short]
  · have ample : role ≠ .main → b.parentNeeded < b.available := fun other =>
      room.mp fun short => reserved ⟨other, short⟩
    have under : role = .subagent → b.subagentCalls < b.limits.subagentCap := fun sub =>
      not_le.mp fun full => capped ⟨sub, full⟩
    simp only [not_le] at late spent called
    simp only [Except.ok.injEq, late, spent, called, under, true_and]
    refine ⟨fun same => ⟨fun sub => under sub, fun other => ample other, same.symm⟩, ?_⟩
    rintro ⟨-, -, rfl⟩
    rfl

/-- The counters of a session within its quotas. -/
structure Within (b : CallBudget) : Prop where
  counted : b.calls = b.mainCalls + b.subagentCalls + b.compactCalls
  calls_le : b.calls ≤ b.limits.maxCalls
  subagent_le : b.subagentCalls ≤ b.limits.subagentCap
  reserved : b.parentNeeded ≤ b.available

theorem parentReserve_le (limits : CallLimits) : limits.parentReserve ≤ limits.maxCalls := by
  unfold CallLimits.parentReserve
  omega

theorem new_within (limits : CallLimits) : (new limits).Within := by
  refine ⟨rfl, Nat.zero_le _, Nat.zero_le _, ?_⟩
  show limits.parentReserve - 0 ≤ limits.maxCalls - 0
  have := parentReserve_le limits
  omega

variable {b : CallBudget}

theorem count_within {role : CallRole} (within : b.Within) (called : b.calls < b.limits.maxCalls)
    (capped : role = .subagent → b.subagentCalls < b.limits.subagentCap)
    (ample : role ≠ .main → b.parentNeeded < b.available) : (b.count role).Within := by
  obtain ⟨counted, -, subagent, reserved⟩ := within
  simp only [parentNeeded, available] at reserved ample
  cases role with
  | main =>
    refine ⟨?_, called, subagent, ?_⟩
    · show b.calls + 1 = b.mainCalls + 1 + b.subagentCalls + b.compactCalls
      omega
    · show b.limits.parentReserve - (b.mainCalls + 1) ≤ b.limits.maxCalls - (b.calls + 1)
      omega
  | subagent =>
    refine ⟨?_, called, capped rfl, ?_⟩
    · show b.calls + 1 = b.mainCalls + (b.subagentCalls + 1) + b.compactCalls
      omega
    · have := ample (by simp)
      show b.limits.parentReserve - b.mainCalls ≤ b.limits.maxCalls - (b.calls + 1)
      omega
  | compact =>
    refine ⟨?_, called, subagent, ?_⟩
    · show b.calls + 1 = b.mainCalls + b.subagentCalls + (b.compactCalls + 1)
      omega
    · have := ample (by simp)
      show b.limits.parentReserve - b.mainCalls ≤ b.limits.maxCalls - (b.calls + 1)
      omega

@[simp] theorem count_limits (b : CallBudget) (role : CallRole) :
    (b.count role).limits = b.limits := by
  cases role <;> rfl

@[simp] theorem count_apiSpend (b : CallBudget) (role : CallRole) :
    (b.count role).apiSpend = b.apiSpend := by
  cases role <;> rfl

theorem step_cases (b : CallBudget) (event : CallEvent) :
    (∃ role remaining, b.claim role remaining = .ok (b.count role) ∧ b.step event = b.count role) ∨
      (∃ usd, b.step event = b.charge usd) ∨ b.step event = b := by
  cases event with
  | claim role remaining =>
    cases claimed : b.claim role remaining with
    | ok b' =>
      obtain ⟨-, -, -, -, -, rfl⟩ := claim_eq_ok.mp claimed
      exact .inl ⟨role, remaining, claimed, by simp [step, claimed]⟩
    | error e => exact .inr (.inr (by simp [step, claimed]))
  | charge usd => exact .inr (.inl ⟨usd, rfl⟩)

theorem step_limits (b : CallBudget) (event : CallEvent) : (b.step event).limits = b.limits := by
  rcases b.step_cases event with ⟨role, -, -, same⟩ | ⟨usd, same⟩ | same <;> rw [same]
  · exact count_limits b role
  · rfl

theorem step_within (within : b.Within) (event : CallEvent) : (b.step event).Within := by
  rcases b.step_cases event with ⟨role, remaining, claimed, same⟩ | ⟨usd, same⟩ | same <;> rw [same]
  · obtain ⟨-, -, called, capped, ample, -⟩ := claim_eq_ok.mp claimed
    exact count_within within called capped ample
  · exact ⟨within.counted, within.calls_le, within.subagent_le, within.reserved⟩
  · exact within

theorem Reached.spec {limits : CallLimits} (reached : Reached limits b) :
    b.limits = limits ∧ b.Within := by
  induction reached with
  | new => exact ⟨rfl, new_within limits⟩
  | step event _ ih => exact ⟨(step_limits _ event).trans ih.1, step_within ih.2 event⟩
  | resume spent _ ih =>
    obtain ⟨same, within⟩ := ih
    subst same
    exact ⟨rfl, within.counted, within.calls_le, within.subagent_le, within.reserved⟩

theorem after_limits (b : CallBudget) (events : List CallEvent) :
    (b.after events).limits = b.limits := by
  induction events generalizing b with
  | nil => rfl
  | cons event events ih => exact (ih (b.step event)).trans (b.step_limits event)

theorem main_claim_ok (within : b.Within) {remaining : ℚ} (early : 0 < remaining)
    (funded : b.apiSpend < b.limits.maxApiSpend) (owed : b.mainCalls < b.limits.parentReserve) :
    b.claim .main remaining = .ok (b.count .main) := by
  have reserved := within.reserved
  simp only [parentNeeded, available] at reserved
  apply claim_eq_ok.mpr
  exact ⟨early, funded, by omega, by simp, by simp, rfl⟩

/-- Time and money are left at every claim the main role makes. -/
def MainFunded (b : CallBudget) : List CallEvent → Prop
  | [] => True
  | event :: events =>
    (∀ remaining, event = .claim .main remaining →
      0 < remaining ∧ b.apiSpend < b.limits.maxApiSpend) ∧ (b.step event).MainFunded events

theorem step_mainCalls_le (b : CallBudget) (event : CallEvent) :
    b.mainCalls ≤ (b.step event).mainCalls := by
  rcases b.step_cases event with ⟨role, -, -, same⟩ | ⟨usd, same⟩ | same <;> rw [same]
  · cases role <;> simp [count]
  · rfl

theorem reserve_le_mainCalls (within : b.Within) (events : List CallEvent)
    (funded : b.MainFunded events) :
    min b.limits.parentReserve (b.mainCalls + events.countP CallEvent.isMain) ≤
      (b.after events).mainCalls := by
  induction events generalizing b with
  | nil => simp [after]
  | cons event events ih =>
    have later := ih (step_within within event) funded.2
    have grows := b.step_mainCalls_le event
    rw [step_limits] at later
    rw [after, List.foldl_cons, List.countP_cons, ← after]
    by_cases main : event.isMain = true
    · rw [if_pos main]
      by_cases owed : b.mainCalls < b.limits.parentReserve
      · have granted : (b.step event).mainCalls = b.mainCalls + 1 := by
          unfold CallEvent.isMain at main
          split at main
          · rename_i remaining
            obtain ⟨early, cheap⟩ := funded.1 remaining rfl
            simp [step, main_claim_ok within early cheap owed, count]
          · cases main
        omega
      · omega
    · rw [if_neg main]
      omega

theorem step_apiSpend_le (b : CallBudget) (event : CallEvent) :
    b.apiSpend ≤ (b.step event).apiSpend := by
  rcases b.step_cases event with ⟨role, -, -, same⟩ | ⟨usd, same⟩ | same <;> rw [same]
  · rw [count_apiSpend]
  · exact le_add_of_nonneg_right usd.coe_nonneg

theorem apiSpend_le_after (b : CallBudget) (events : List CallEvent) :
    b.apiSpend ≤ (b.after events).apiSpend := by
  induction events generalizing b with
  | nil => exact le_rfl
  | cons event events ih => exact (b.step_apiSpend_le event).trans (ih (b.step event))

theorem claim_refused (spent : b.limits.maxApiSpend ≤ b.apiSpend) (role : CallRole)
    (remaining : ℚ) : ∀ b', b.claim role remaining ≠ .ok b' := by
  intro b' granted
  obtain ⟨-, cheap, -⟩ := claim_eq_ok.mp granted
  exact absurd cheap (not_lt.mpr spent)

/-- No interleaving of claims takes the budget over its caps or the parent's
reserve from it, and once the cap is spent nothing more is claimed. -/
theorem shared_budget_protects_parent (limits : CallLimits) (b : CallBudget)
    (reached : Reached limits b) :
    b.calls ≤ limits.maxCalls ∧ b.subagentCalls ≤ limits.subagentCap ∧
      limits.parentReserve - b.mainCalls ≤ limits.maxCalls - b.calls ∧
      (∀ later, b.MainFunded later →
        min limits.parentReserve (b.mainCalls + later.countP CallEvent.isMain) ≤
          (b.after later).mainCalls) ∧
      (limits.maxApiSpend ≤ b.apiSpend → ∀ later role remaining b',
        (b.after later).claim role remaining ≠ .ok b') := by
  obtain ⟨rfl, within⟩ := reached.spec
  refine ⟨within.calls_le, within.subagent_le, within.reserved, ?_, ?_⟩
  · intro later funded
    exact reserve_le_mainCalls within later funded
  · intro spent later
    apply claim_refused
    rw [after_limits]
    exact spent.trans (b.apiSpend_le_after later)

/-- Sixteen calls: after fourteen by sub-agents and compaction the parent still has its two. -/
theorem sixteen_calls_protect_parent :
    let limits : CallLimits := ⟨16, 50, by decide, by decide +kernel⟩
    let b := (new limits).after (List.replicate 20 (.claim .subagent 1) ++
      List.replicate 20 (.claim .compact 1))
    b.calls = 14 ∧ b.subagentCalls = 8 ∧ limits.parentReserve - b.mainCalls ≤ 16 - b.calls := by
  intro limits b
  have reached : Reached limits b := by
    show Reached limits (List.foldl step (new limits) _)
    refine List.foldlRecOn _ _ (motive := Reached limits) .new ?_
    intro c here event _
    exact here.step event
  refine ⟨by decide +kernel, by decide +kernel, ?_⟩
  exact (shared_budget_protects_parent limits b reached).2.2.1

end CallBudget

end AutoTrade
