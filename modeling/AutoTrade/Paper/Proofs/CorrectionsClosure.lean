import AutoTrade.Paper.Proofs.FillsClosure

/-!
# Corrections close

A correction moves cash and cost by exactly the P&L its row realizes, whatever
the side, the share change and what is left of the position.
-/

namespace AutoTrade

open DailyBroker

variable {key : OrderKey} {position : Option Position} {applied target : Outcome} {change : Change}

theorem changeOf_balance {session : Nat} (appliedSettled : applied.Settled)
    (targetSettled : target.Settled)
    (h : changeOf position session key applied target = .ok change) :
    change.cash + change.basis = change.realized ∧ change.target.Settled := by
  unfold changeOf at h
  cases action : key.action with
  | buy =>
    rw [action] at h
    obtain rfl := Except.ok.inj h
    exact ⟨by simp, targetSettled⟩
  | sell =>
    rw [action] at h
    obtain ⟨unit, released, rfl⟩ := except_map_eq_ok.mp h
    -- What the sale released is what it paid less what it realized.
    have paid : unit * applied.quantity = applied.proceeds - applied.realizedPnl.getD 0 := by
      unfold releasedUnit at released
      by_cases none : applied.quantity = 0
      · obtain ⟨proceeds, realized⟩ := appliedSettled none
        simp [none, proceeds, realized]
      · rw [if_pos none] at released
        split at released
        · rename_i realized known
          obtain rfl := Except.ok.inj released
          have : (applied.quantity : ℚ) ≠ 0 := by exact_mod_cast none
          rw [known]
          field_simp
          simp
        · cases released
    have realizes : (realizedAt unit target).getD 0 = target.proceeds - unit * target.quantity := by
      unfold realizedAt
      by_cases none : target.quantity = 0
      · simp [none, (targetSettled none).1]
      · simp [none]
    refine ⟨?_, fun none => ?_⟩
    · simp only [realizes, Int.cast_sub]
      linarith
    · exact ⟨(targetSettled none).1, by simp [realizedAt, show target.quantity = 0 from none]⟩

theorem moveLots_frame {b b' : DailyBroker} {symbol : Symbol} {session : Nat} {shares : Int}
    (h : moveLots b symbol session shares = .ok b') : ∃ lots, b' = { b with lots } := by
  unfold moveLots at h
  dsimp only at h
  split_ifs at h <;> exact ⟨_, (Except.ok.inj h).symm⟩

variable {history : List (Nat × CorporateAction)}

theorem moveShares_spec {b b' : DailyBroker} {session : Nat} {shares : Int}
    (h : moveShares b history session key shares = .ok b') :
    (∃ lots, b' = { b with lots }) ∧ (shares ≠ 0 →
      exDated b history key.symbol session = false ∧
      0 ≤ ((b.positions.get? key.symbol).map Position.quantity).getD 0 + shares) := by
  unfold moveShares at h
  dsimp only at h
  by_cases still : shares = 0
  · rw [if_pos still] at h
    exact ⟨⟨b.lots, (Except.ok.inj h).symm⟩, fun moved => absurd still moved⟩
  rw [if_neg still] at h
  by_cases dated : exDated b history key.symbol session
  · rw [if_pos dated] at h
    cases h
  rw [if_neg dated] at h
  by_cases tooMany : ((b.positions.get? key.symbol).map Position.quantity).getD 0 + shares < 0 ∨
      (shares < 0 ∧
        ((b.positions.get? key.symbol).map Position.availableQuantity).getD 0 < -shares)
  · rw [if_pos tooMany] at h
    cases h
  rw [if_neg tooMany] at h
  refine ⟨?_, fun _ => ⟨by simpa using dated, not_lt.mp (not_or.mp tooMany).1⟩⟩
  by_cases taxed : b.profile.dividendTax = true
  · rw [if_neg (not_not.mpr taxed)] at h
    by_cases sale : key.action = .sell
    · rw [if_pos sale] at h
      cases h
    · rw [if_neg sale] at h
      exact moveLots_frame h
  · rw [if_pos taxed] at h
    exact ⟨b.lots, (Except.ok.inj h).symm⟩

variable {left : Option Position × ℚ}

theorem changedPosition_basis {applied : Outcome}
    (h : changedPosition position applied change key = .ok left) :
    basisOf left.1 + left.2 = basisOf position + change.basis := by
  unfold changedPosition at h
  dsimp only at h
  by_cases gone : (position.map Position.quantity).getD 0 + change.shares = 0
  · rw [if_pos gone] at h
    obtain rfl := Except.ok.inj h
    simp [basisOf]
  rw [if_neg gone] at h
  have whole : (((position.map Position.quantity).getD 0 + change.shares : Int) : ℚ) ≠ 0 := by
    exact_mod_cast gone
  cases position with
  | none =>
    dsimp only at h
    split at h
    · cases h
    · obtain rfl := Except.ok.inj h
      simp only [basisOf, Option.map_some, Option.getD_some, Position.basis, add_zero]
      exact div_mul_cancel₀ _ whole
  | some p =>
    obtain rfl := Except.ok.inj h
    simp only [basisOf, Option.map_some, Option.getD_some, Position.basis, add_zero]
    exact div_mul_cancel₀ _ whole

theorem changedPosition_sound {applied : Outcome} (sound : ∀ p ∈ position, p.Sound)
    (enough : change.shares ≠ 0 → 0 ≤ (position.map Position.quantity).getD 0 + change.shares)
    (h : changedPosition position applied change key = .ok left) : ∀ p ∈ left.1, p.Sound := by
  unfold changedPosition at h
  dsimp only at h
  by_cases gone : (position.map Position.quantity).getD 0 + change.shares = 0
  · rw [if_pos gone] at h
    obtain rfl := Except.ok.inj h
    simp
  rw [if_neg gone] at h
  cases position with
  | none =>
    have shares : change.shares ≠ 0 := fun still => gone (by simp [still])
    have positive := enough shares
    dsimp only at h
    split at h
    · cases h
    · obtain rfl := Except.ok.inj h
      intro p here
      obtain rfl := Option.some.inj here
      exact ⟨by dsimp only; omega, le_refl _⟩
  | some held =>
    obtain rfl := Except.ok.inj h
    have positive := (sound held rfl).quantity_pos
    have available := (sound held rfl).available_le
    simp only [Option.map_some, Option.getD_some] at gone enough
    intro p here
    obtain rfl := Option.some.inj here
    refine ⟨?_, by simp only [Option.map_some, Option.getD_some]; omega⟩
    simp only [Option.map_some, Option.getD_some]
    by_cases still : change.shares = 0
    · omega
    · have := enough still
      omega

variable {b : DailyBroker} {day session : Nat} {booked : DailyBroker × Outcome × CorrectionRow}
  {recorded : Option String}

theorem bookCorrection_eq_ok
    (h : bookCorrection b history day session key applied target recorded = .ok booked) :
    ∃ change moved left,
      changeOf (b.positions.get? key.symbol) session key applied target = .ok change ∧
      moveShares b history session key change.shares = .ok moved ∧
      changedPosition (b.positions.get? key.symbol) applied change key = .ok left ∧
      -(1 / 1000000) ≤ b.cash + change.cash ∧
      booked = (({ moved with cash := b.cash + change.cash } : DailyBroker).withPosition key.symbol
          left.1,
        change.target, correctionRow day session key applied target change left.2 recorded) := by
  unfold bookCorrection at h
  dsimp only at h
  obtain ⟨change, changed, h⟩ := bind_eq_ok.mp h
  obtain ⟨moved, shares, h⟩ := bind_eq_ok.mp h
  obtain ⟨left, stays, h⟩ := bind_eq_ok.mp h
  split_ifs at h with short
  exact ⟨change, moved, left, changed, shares, stays, not_lt.mp short, (Except.ok.inj h).symm⟩

theorem bookCorrection_books (sound : b.Sound) (appliedSettled : applied.Settled)
    (targetSettled : target.Settled)
    (h : bookCorrection b history day session key applied target recorded = .ok booked) :
    Books b booked.1 booked.2.2.realizedPnl ∧ booked.2.1.Settled := by
  obtain ⟨change, moved, left, changed, shares, stays, -, rfl⟩ := bookCorrection_eq_ok h
  obtain ⟨balance, settled⟩ := changeOf_balance appliedSettled targetSettled changed
  obtain ⟨⟨lots, rfl⟩, enough⟩ := moveShares_spec shares
  refine ⟨⟨?_, ?_, rfl⟩, settled⟩
  · exact withPosition_sound (b := { b with lots, cash := b.cash + change.cash }) _ sound
      (changedPosition_sound (fun p here => sound _ p here) (fun moves => (enough moves).2) stays)
  · have total := carried_withPosition { b with lots, cash := b.cash + change.cash } key.symbol
      left.1
    have basis := changedPosition_basis stays
    rw [total]
    simp only [carried, correctionRow]
    linarith

theorem targetOutcome_settled {profile : BrokerProfile} {session : Nat} {record : Record}
    {entry : Entry} {target : Outcome} (settled : entry.Settled)
    (h : targetOutcome profile session key record entry = .ok target) : target.Settled := by
  unfold targetOutcome at h
  split at h
  · exact Except.ok.inj h ▸ settled.simulated
  · exact Except.ok.inj h ▸ nothing_settled
  · rename_i fill _
    dsimp only at h
    split at h
    · cases h
    · obtain rfl := Except.ok.inj h
      exact fun none => absurd none fill.quantity_pos.ne'

theorem emptyEntry_settled : emptyEntry.Settled := ⟨nothing_settled, nothing_settled⟩

theorem Correcting.entry_settled {s : Correcting} (settled : SessionsSettled s.sessions)
    (session : Nat) (key : OrderKey) : (s.entry session key).Settled := by
  unfold Correcting.entry
  cases ledger : s.sessions.get? session with
  | none => simpa using emptyEntry_settled
  | some ledger' =>
    cases entry : ledger'.get? key with
    | none => simpa [entry] using emptyEntry_settled
    | some entry' => simpa [entry] using settled session ledger' ledger key entry' entry

theorem Ledger.Settled.set {ledger : Ledger} (settled : Ledger.Settled ledger) {key : OrderKey}
    {entry : Entry} (here : entry.Settled) : Ledger.Settled (Dict.set ledger key entry) := by
  intro other found lookup
  rw [Dict.get?_set] at lookup
  split_ifs at lookup
  · exact Option.some.inj lookup ▸ here
  · exact settled other found lookup

theorem SessionsSettled.set {sessions : Dict Nat Ledger} (settled : SessionsSettled sessions)
    {session : Nat} {ledger : Ledger} (here : Ledger.Settled ledger) :
    SessionsSettled (sessions.set session ledger) := by
  intro other found lookup
  rw [Dict.get?_set] at lookup
  split_ifs at lookup
  · exact Option.some.inj lookup ▸ here
  · exact settled other found lookup

theorem SessionsSettled.getD {sessions : Dict Nat Ledger} (settled : SessionsSettled sessions)
    (session : Nat) : Ledger.Settled ((sessions.get? session).getD Dict.empty) := by
  cases found : sessions.get? session with
  | none => intro key entry lookup; simp at lookup
  | some ledger => exact settled session ledger found

variable {records : Records} {late : List Nat}

theorem correctKey_cases {s s' : Correcting}
    (h : correctKey records late history day session s key = .ok s') :
    s' = s ∨ ∃ record target booked,
      resolve records session key ((s.entry session key).ordered ≠ 0) (session ∈ late) =
        some record ∧
      targetOutcome s.broker.profile session key record (s.entry session key) = .ok target ∧
      same (s.entry session key).real target = false ∧
      bookCorrection s.broker history day session key (s.entry session key).real target
        record.recorded = .ok booked ∧
      s' = ⟨booked.1, s.setReal session key booked.2.1, s.rows ++ [booked.2.2]⟩ := by
  unfold correctKey at h
  dsimp only at h
  split at h
  · exact .inl (Except.ok.inj h).symm
  rename_i record resolved
  split at h
  · cases h
  rename_i target targeted
  by_cases settled : same (s.entry session key).real target = true
  · rw [if_pos settled] at h
    exact .inl (Except.ok.inj h).symm
  · rw [if_neg settled] at h
    obtain ⟨booked, made, rfl⟩ := except_map_eq_ok.mp h
    exact .inr ⟨record, target, booked, resolved, targeted, by simpa using settled, made, rfl⟩

/-- The P&L the rows of a pass realize. -/
def realizedByCorrections (rows : List CorrectionRow) : ℚ :=
  (rows.map CorrectionRow.realizedPnl).sum

/-- A pass in progress has booked what its rows realize. -/
structure Correcting.From (b : DailyBroker) (s : Correcting) : Prop where
  books : Books b s.broker (realizedByCorrections s.rows)
  settled : SessionsSettled s.sessions

theorem correctKey_from {s s' : Correcting} (start : Correcting.From b s)
    (h : correctKey records late history day session s key = .ok s') : Correcting.From b s' := by
  rcases correctKey_cases h with rfl | ⟨record, target, booked, -, targeted, -, made, rfl⟩
  · exact start
  have entry := Correcting.entry_settled start.settled session key
  obtain ⟨books, settled⟩ := bookCorrection_books start.books.sound entry.real
    (targetOutcome_settled entry targeted) made
  refine ⟨?_, start.settled.set ((start.settled.getD session).set ⟨entry.simulated, settled⟩)⟩
  have whole := start.books.trans books
  simpa [realizedByCorrections] using whole

variable {mode : Mode}

theorem corrections_from {day : Nat} {corrected : Correcting} (sound : b.Sound)
    (settled : SessionsSettled mode.sessions)
    (h : corrections records late history b mode day = .ok corrected) :
    Correcting.From b corrected :=
  foldlM_invariant
    (fun _ _ _ _ session from' =>
      foldlM_invariant (fun _ _ _ _ step from' => correctKey_from from' step) session from')
    h ⟨by simpa [realizedByCorrections] using Books.refl sound, settled⟩

variable {simulated : List Simulated}

theorem settleRecorded_eq_ok {day : Nat} {settled : Settled}
    (h : settleRecorded records late history b mode day simulated = .ok settled) :
    ∃ corrected applied, corrections records late history b mode day = .ok corrected ∧
      applyDay records late corrected.broker day simulated = .ok applied ∧
      settled = ⟨applied.1, { mode with sessions := corrected.sessions.set day applied.2.2 },
        applied.2.1, corrected.rows⟩ := by
  unfold settleRecorded at h
  obtain ⟨corrected, first, h⟩ := bind_eq_ok.mp h
  obtain ⟨applied, second, rfl⟩ := except_map_eq_ok.mp h
  exact ⟨corrected, applied, first, second, rfl⟩

theorem settleRecorded_books {day : Nat} {settled : Settled} (sound : b.Sound)
    (ledger : SessionsSettled mode.sessions) (executions : ∀ x ∈ simulated, x.2.Sound)
    (h : settleRecorded records late history b mode day simulated = .ok settled) :
    Books b settled.broker
      (realizedByCorrections settled.corrections + realizedByRows settled.rows) ∧
      SessionsSettled settled.mode.sessions := by
  obtain ⟨corrected, applied, first, second, rfl⟩ := settleRecorded_eq_ok h
  have corrections := corrections_from sound ledger first
  obtain ⟨books, applied⟩ := applyDay_books corrections.books.sound executions second
  exact ⟨corrections.books.trans books, corrections.settled.set applied⟩

end AutoTrade
