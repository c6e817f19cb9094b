import AutoTrade.Environment.Proofs.BrokerClosure
import AutoTrade.Paper.Corrections

/-!
# Settlements close

What `RealFills.settle` books, it accounts for: the account moves by the P&L
its rows and corrections realize. A correction is measured on ledger figures,
so the ledger must only hold outcomes whose figures vanish with their shares
(`Outcome.Settled`).
-/

namespace AutoTrade

open DailyBroker

/-- An execution's row: what is filled has shares, what is not realizes nothing. -/
structure Execution.Sound (e : Execution) : Prop where
  quantity_pos : e.isFilled = true → 0 < e.quantity
  unfilled : e.isFilled = false → e.realizedPnl = none

/-- Nothing traded, nothing paid and nothing realized. -/
def Outcome.Settled (o : Outcome) : Prop :=
  o.quantity = 0 → o.proceeds = 0 ∧ o.realizedPnl = none

structure Entry.Settled (entry : Entry) : Prop where
  simulated : entry.simulated.Settled
  real : entry.real.Settled

def Ledger.Settled (ledger : Ledger) : Prop :=
  ∀ key entry, ledger.get? key = some entry → entry.Settled

def SessionsSettled (sessions : Dict Nat Ledger) : Prop :=
  ∀ day ledger, sessions.get? day = some ledger → Ledger.Settled ledger

variable {order : StrategyOrder} {e : Execution}

theorem execute_sound {b b' : DailyBroker} {bar : Option Bar} {matchedAt : Instant}
    {rawPrice : Option ℚ} (h : b.execute order bar matchedAt rawPrice = .ok (b', e)) : e.Sound := by
  refine ⟨fun _ => (execute_frame h).quantity_eq ▸ order.quantity_pos, fun unfilled => ?_⟩
  rcases execute_cases h with ⟨reason, left⟩ | ⟨_, _, _, -, -, -, -, filled⟩
  · simp only [Prod.mk.injEq] at left
    simp [left.2, rejection]
  · obtain ⟨_, _, _, -, -, cases⟩ := fillAt_cases filled
    rcases cases with ⟨-, -, left⟩ | ⟨_, -, -, left⟩ | ⟨_, _, _, -, -, left⟩ <;>
      simp only [Prod.mk.injEq] at left <;>
      simp_all [Execution.isFilled, fill, rejection]

theorem nothing_settled : nothing.Settled := fun _ => by
  simp [nothing, outcome, Outcome.proceeds]

theorem sum_quantity_pos (filled : List Execution) (positive : ∀ e ∈ filled, 0 < e.quantity)
    (nonempty : filled ≠ []) : 0 < (filled.map Execution.quantity).sum := by
  induction filled with
  | nil => exact absurd rfl nonempty
  | cons e rest ih =>
    have first := positive e List.mem_cons_self
    rw [List.map_cons, List.sum_cons]
    by_cases last : rest = []
    · simpa [last] using first
    · have := ih (fun e member => positive e (List.mem_cons_of_mem _ member)) last
      omega

variable {executions : List Execution}

theorem filter_isFilled_eq_nil (sound : ∀ e ∈ executions, e.Sound)
    (none : (outcome executions).quantity = 0) : executions.filter Execution.isFilled = [] := by
  by_contra some
  have := sum_quantity_pos (executions.filter Execution.isFilled)
    (fun e member => (sound e (List.mem_filter.mp member).1).quantity_pos
      (List.mem_filter.mp member).2) some
  exact absurd none this.ne'

theorem outcome_settled (sound : ∀ e ∈ executions, e.Sound) :
    (outcome executions).Settled := fun none => by
  have empty := filter_isFilled_eq_nil sound none
  simp [outcome, Outcome.proceeds, empty]

variable {commission : Option ℚ}

theorem recordFill_eq_ok {b b' : DailyBroker} {p : ℚ}
    (h : recordFill b order p commission = .ok (b', e)) :
    ∃ profile booked execution, recordProfile b.profile commission = .ok profile ∧
      (b.withProfile profile).execute (bareOrder order) (some (recordBar p)) order.executeAt
        (some p) = .ok (booked, execution) ∧
      execution.isFilled = true ∧ b' = booked.withProfile b.profile ∧
      e = { execution with session := order.session, limitPrice := order.limitPrice } := by
  unfold recordFill at h
  split at h
  · cases h
  rename_i profile known
  split at h
  · cases h
  rename_i booked execution executed
  split_ifs at h with filled
  simp only [Except.ok.injEq, Prod.mk.injEq] at h
  exact ⟨profile, booked, execution, known, executed, filled, h.1.symm, h.2.symm⟩

/-- What a booking leaves: a sound account that carries what it realized. -/
structure Books (b b' : DailyBroker) (realized : ℚ) : Prop where
  sound : b'.Sound
  carried_eq : b'.carried = b.carried + realized
  corporateActions_eq : b'.corporateActions = b.corporateActions

variable {b : DailyBroker}

theorem Books.refl (sound : b.Sound) : Books b b 0 := ⟨sound, by simp, rfl⟩

theorem Books.trans {b b' b'' : DailyBroker} {x y : ℚ} (h : Books b b' x) (h' : Books b' b'' y) :
    Books b b'' (x + y) :=
  ⟨h'.sound, by rw [h'.carried_eq, h.carried_eq]; ring,
    h'.corporateActions_eq.trans h.corporateActions_eq⟩

theorem execute_books {b b' : DailyBroker} {bar : Option Bar} {matchedAt : Instant}
    {rawPrice : Option ℚ} (sound : b.Sound)
    (h : b.execute order bar matchedAt rawPrice = .ok (b', e)) : Books b b' (realizedBy e) :=
  have carries := execute_carried sound h
  ⟨carries.1, carries.2, (execute_frame h).corporateActions_eq⟩

theorem recordFill_books {b b' : DailyBroker} {p : ℚ} (sound : b.Sound)
    (h : recordFill b order p commission = .ok (b', e)) :
    Books b b' (realizedBy e) ∧ e.Sound := by
  obtain ⟨profile, booked, execution, -, executed, filled, rfl, rfl⟩ := recordFill_eq_ok h
  have books := execute_books (b := b.withProfile profile) sound executed
  have executionSound := execute_sound executed
  exact ⟨⟨books.sound, books.carried_eq, books.corporateActions_eq⟩,
    ⟨executionSound.quantity_pos, executionSound.unfilled⟩⟩

theorem notTradedExecution_sound (order : StrategyOrder) (ordered : Int) :
    (notTradedExecution order ordered).Sound :=
  ⟨by simp [notTradedExecution, Execution.isFilled], fun _ => rfl⟩

theorem recordedRow_books {ordered : Int} {record : Record} {booked : DailyBroker × ExecutionRow}
    (sound : b.Sound) (h : recordedRow b order ordered record = .ok booked) :
    Books b booked.1 (realizedBy booked.2.execution) ∧ booked.2.execution.Sound := by
  unfold recordedRow at h
  split at h
  · dsimp only at h
    obtain ⟨a, made, rfl⟩ := except_map_eq_ok.mp h
    exact recordFill_books sound made
  · obtain rfl := Except.ok.inj h
    exact ⟨Books.refl sound, notTradedExecution_sound order ordered⟩

/-- The P&L the rows of a session realize. -/
def realizedByRows (rows : List ExecutionRow) : ℚ :=
  (rows.map fun row => realizedBy row.execution).sum

/-- A session in progress has booked what its rows realize. -/
structure Applying.From (b : DailyBroker) (s : Applying) : Prop where
  books : Books b s.broker (realizedByRows (s.booked.map Prod.snd))
  executions : ∀ entry ∈ s.booked, entry.2.execution.Sound

variable {key : OrderKey}

theorem Applying.From.append {s : Applying} (h : Applying.From b s) {broker : DailyBroker}
    {row : ExecutionRow} {settled : List OrderKey}
    (books : Books s.broker broker (realizedBy row.execution)) (sound : row.execution.Sound) :
    Applying.From b ⟨broker, s.booked ++ [(key, row)], settled⟩ := by
  refine ⟨?_, fun entry member => ?_⟩
  · have := h.books.trans books
    simpa [realizedByRows] using this
  · rcases List.mem_append.mp member with old | new
    · exact h.executions entry old
    · exact List.mem_singleton.mp new ▸ sound

variable {simulated : List Simulated} {records : Records} {late : List Nat} {s s' : Applying}

theorem applyOrder_cases {x : Simulated} (h : applyOrder records late simulated s x = .ok s') :
    (x.key ∈ s.settled ∧ s' = s) ∨
    ∃ record, x.key ∉ s.settled ∧
      resolve records (orderSession x.1) x.key true (orderSession x.1 ∈ late) = some record ∧
      ((record.outcome = .simulated ∧ x.2.isFilled = true ∧ ∃ p broker execution,
          x.2.price = some p ∧
          recordFill s.broker x.1 p (some x.2.commission) = .ok (broker, execution) ∧
          s' = { s with broker, booked := s.booked ++ [(x.key, { execution })] }) ∨
        (record.outcome = .simulated ∧ x.2.isFilled = false ∧
          s' = { s with booked := s.booked ++ [(x.key, { execution := x.2 })] }) ∨
        (record.outcome ≠ .simulated ∧ ∃ broker row,
          recordedRow s.broker (firstOrder simulated x) (orderedShares simulated x.key) record =
            .ok (broker, row) ∧
          s' = ⟨broker, s.booked ++ [(x.key, row)], x.key :: s.settled⟩)) := by
  unfold applyOrder at h
  by_cases done : x.key ∈ s.settled
  · rw [if_pos done] at h
    exact .inl ⟨done, (Except.ok.inj h).symm⟩
  rw [if_neg done] at h
  dsimp only at h
  split at h
  · cases h
  rename_i record resolved
  refine .inr ⟨record, done, resolved, ?_⟩
  split at h
  · rename_i simulatedOutcome
    by_cases filled : x.2.isFilled = true
    · rw [if_pos filled] at h
      split at h
      · cases h
      rename_i p priced
      obtain ⟨⟨broker, execution⟩, made, rfl⟩ := except_map_eq_ok.mp h
      exact .inl ⟨simulatedOutcome, filled, p, broker, execution, priced, made, rfl⟩
    · rw [if_neg filled] at h
      exact .inr (.inl ⟨simulatedOutcome, by simpa using filled, (Except.ok.inj h).symm⟩)
  · rename_i other
    obtain ⟨⟨broker, row⟩, made, rfl⟩ := except_map_eq_ok.mp h
    exact .inr (.inr ⟨other, broker, row, made, rfl⟩)

theorem applyOrder_from {x : Simulated} (sound : x.2.Sound) (start : Applying.From b s)
    (h : applyOrder records late simulated s x = .ok s') :
    Applying.From b s' := by
  rcases applyOrder_cases h with ⟨-, rfl⟩ | ⟨record, -, -, cases⟩
  · exact start
  rcases cases with ⟨-, -, p, broker, execution, -, made, rfl⟩ | ⟨-, unfilled, rfl⟩ |
    ⟨-, broker, row, made, rfl⟩
  · have booked := recordFill_books start.books.sound made
    exact start.append booked.1 booked.2
  · refine start.append ?_ sound
    simpa [realizedBy, sound.unfilled unfilled] using Books.refl start.books.sound
  · have booked := recordedRow_books start.books.sound made
    exact start.append booked.1 booked.2

variable {day : Nat}

theorem applyOffSheet_from (start : Applying.From b s)
    (h : applyOffSheet records day s key = .ok s') : Applying.From b s' := by
  unfold applyOffSheet at h
  split at h
  · exact Except.ok.inj h ▸ start
  split at h
  · split_ifs at h
    obtain ⟨a, made, rfl⟩ := except_map_eq_ok.mp h
    have booked := recordedRow_books start.books.sound made
    exact start.append booked.1 booked.2
  · exact Except.ok.inj h ▸ start

theorem checkCash_eq_ok {day clock : Nat} (h : checkCash day clock s = .ok s') :
    s' = s ∧ -(1 / 1000000) ≤ s.broker.cash := by
  unfold checkCash at h
  split_ifs at h with short
  exact ⟨(Except.ok.inj h).symm, not_lt.mp short⟩

theorem applyClock_from {clock : Nat} (sound : ∀ x ∈ simulated, x.2.Sound)
    (start : Applying.From b s) (h : applyClock records late day simulated s clock = .ok s') :
    Applying.From b s' := by
  unfold applyClock at h
  obtain ⟨ordered, first, later⟩ := bind_eq_ok.mp h
  obtain ⟨traded, second, last⟩ := bind_eq_ok.mp later
  obtain ⟨rfl, -⟩ := checkCash_eq_ok last
  have afterOrders : Applying.From b ordered := foldlM_invariant
    (fun x member _ _ step from' =>
      applyOrder_from (sound x (List.mem_filter.mp member).1) from' step) first start
  exact foldlM_invariant (fun _ _ _ _ step from' => applyOffSheet_from from' step) second
    afterOrders

variable {booked : List (OrderKey × ExecutionRow)}

theorem sessionLedger_get? {keys : List OrderKey} {entry : Entry}
    (h : (sessionLedger keys simulated booked).get? key = some entry) :
    key ∈ keys ∧ entry = ledgerEntry simulated booked key := by
  have loop : ∀ (l : List OrderKey) (ledger : Ledger),
      (∀ k e, ledger.get? k = some e → k ∈ keys ∧ e = ledgerEntry simulated booked k) →
      (∀ k ∈ l, k ∈ keys) → ∀ k e,
      (l.foldl (fun ledger key => ledger.set key (ledgerEntry simulated booked key)) ledger).get? k
        = some e → k ∈ keys ∧ e = ledgerEntry simulated booked k := by
    intro l
    induction l with
    | nil => exact fun ledger holds _ => holds
    | cons first rest ih =>
      intro ledger holds members
      refine ih _ (fun k e found => ?_) fun k member => members k (List.mem_cons_of_mem _ member)
      rw [Dict.get?_set] at found
      split_ifs at found with equal
      · subst equal
        exact ⟨members first List.mem_cons_self, (Option.some.inj found).symm⟩
      · exact holds k e found
  exact loop keys Dict.empty (by simp) (fun _ member => member) key entry h

theorem ledgerEntry_settled (sound : ∀ x ∈ simulated, x.2.Sound)
    (executions : ∀ entry ∈ booked, entry.2.execution.Sound) :
    (ledgerEntry simulated booked key).Settled := by
  refine ⟨outcome_settled fun e member => ?_, outcome_settled fun e member => ?_⟩
  · obtain ⟨x, inKey, rfl⟩ := List.mem_map.mp member
    exact sound x (List.mem_filter.mp inKey).1
  · obtain ⟨entry, inKey, rfl⟩ := List.mem_map.mp member
    exact executions entry (List.mem_filter.mp inKey).1

variable {applied : DailyBroker × List ExecutionRow × Ledger}

theorem applyDay_eq_ok (h : applyDay records late b day simulated = .ok applied) :
    (∀ key ∈ sessionKeys records day simulated, key.parses = true) ∧
    ∃ s, (clocksOf (sessionKeys records day simulated)).foldlM
        (applyClock records late day simulated) ⟨b, [], []⟩ = .ok s ∧
      applied = (s.broker, s.booked.map Prod.snd,
        sessionLedger (sessionKeys records day simulated) simulated s.booked) := by
  unfold applyDay at h
  dsimp only at h
  split at h
  · cases h
  rename_i parsed
  obtain ⟨s, run, rfl⟩ := except_map_eq_ok.mp h
  exact ⟨by simpa using parsed, s, run, rfl⟩

theorem applyDay_books (sound : b.Sound) (executions : ∀ x ∈ simulated, x.2.Sound)
    (h : applyDay records late b day simulated = .ok applied) :
    Books b applied.1 (realizedByRows applied.2.1) ∧ Ledger.Settled applied.2.2 := by
  obtain ⟨-, s, run, rfl⟩ := applyDay_eq_ok h
  have whole : Applying.From b s := foldlM_invariant
    (fun _ _ _ _ step from' => applyClock_from executions from' step) run
    ⟨by simpa [realizedByRows] using Books.refl sound, by simp⟩
  refine ⟨whole.books, fun key entry found => ?_⟩
  obtain ⟨-, rfl⟩ := sessionLedger_get? found
  exact ledgerEntry_settled executions whole.executions

end AutoTrade
