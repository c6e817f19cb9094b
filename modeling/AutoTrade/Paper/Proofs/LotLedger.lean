import AutoTrade.Paper.Proofs.Booking
import AutoTrade.Paper.Proofs.CorrectionsClosure

/-!
# Corrections and the lot ledger

A correction of a taxed account moves lots that carry no dividend income, and
only where no later lot carries any: the curves of the account, and with them
the tax of the sales to come, stay as they were.
-/

namespace AutoTrade

open DailyBroker

variable {lots : List Lot}

theorem filter_before_append (sorted : (lots.map Lot.acquired).Pairwise (· ≤ ·)) (session : Nat) :
    lots = lots.filter (fun lot => lot.acquired < session) ++
      lots.filter (fun lot => ¬ lot.acquired < session) := by
  induction lots with
  | nil => rfl
  | cons lot rest ih =>
    obtain ⟨first, sorted⟩ := List.pairwise_cons.mp sorted
    have split := ih sorted
    by_cases before : lot.acquired < session
    · rw [List.filter_cons_of_pos (by simpa using before),
        List.filter_cons_of_neg (by simpa using before), List.cons_append, ← split]
    · have none : rest.filter (fun lot => lot.acquired < session) = [] := by
        refine List.filter_eq_nil_iff.mpr fun other member => ?_
        have := first _ (List.mem_map_of_mem member)
        simp only [decide_eq_true_eq]
        omega
      rw [none, List.nil_append] at split
      rw [List.filter_cons_of_neg (by simpa using before),
        List.filter_cons_of_pos (by simpa using before), none, List.nil_append, ← split]

variable {dated : Nat → Bool}

theorem noIncome_from {bound session : Nat} (kept : LotsKept bound dated lots)
    (clean : dated session = false) (later : ∀ a b, a ≤ b → dated b = true → dated a = true)
    {lot : Lot} (member : lot ∈ lots) (from' : session ≤ lot.acquired) : lot.hasIncome = false := by
  by_contra earned
  have recorded := kept.dated lot member (by simpa using earned)
  rw [later session lot.acquired from' recorded] at clean
  cases clean

theorem takeBack_append (session : Nat) (remaining : Int) (before rest : List Lot)
    (earlier : ∀ lot ∈ before, lot.acquired < session) :
    takeBack session remaining (before ++ rest) =
      ((takeBack session remaining rest).1, before ++ (takeBack session remaining rest).2) := by
  induction before with
  | nil => rfl
  | cons lot before ih =>
    have here := earlier lot List.mem_cons_self
    rw [List.cons_append, takeBack, ih fun other member => earlier other (List.mem_cons_of_mem _ member)]
    dsimp only
    rw [if_neg here.ne, List.cons_append]

theorem takeBack_spec (session : Nat) (remaining : Int) (lots : List Lot) :
    ((takeBack session remaining lots).2).map Lot.acquired = lots.map Lot.acquired ∧
      ∀ lot ∈ (takeBack session remaining lots).2, ∃ lot' ∈ lots,
        lot'.acquired = lot.acquired ∧ lot'.hasIncome = lot.hasIncome := by
  induction lots with
  | nil => simp [takeBack]
  | cons lot rest ih =>
    obtain ⟨acquired, income⟩ := ih
    unfold takeBack
    dsimp only
    split_ifs
    all_goals
      refine ⟨by simp [acquired], fun other member => ?_⟩
      rcases List.mem_cons.mp member with here | member
      · exact ⟨lot, List.mem_cons_self, here ▸ rfl, here ▸ rfl⟩
      · obtain ⟨lot', inRest, same⟩ := income other member
        exact ⟨lot', List.mem_cons_of_mem _ inRest, same⟩

/-- What a correction may put in place of the lots of a name: the same before
`session`, and only lots without income from it on. -/
structure Moved (session bound : Nat) (lots lots' : List Lot) : Prop where
  split : ∃ rest, lots' = lots.filter (fun lot => lot.acquired < session) ++ rest ∧
    (∀ lot ∈ rest, lot.hasIncome = false) ∧ (∀ lot ∈ rest, 0 < lot.quantity) ∧
    (rest.map Lot.acquired).Pairwise (· ≤ ·) ∧
    ∀ day ∈ rest.map Lot.acquired, session ≤ day ∧ day < bound

variable {session bound : Nat}

theorem Moved.taxUpTo_eq {lots lots' : List Lot} (moved : Moved session bound lots lots')
    (kept : LotsKept bound dated lots) (clean : dated session = false)
    (later : ∀ a b, a ≤ b → dated b = true → dated a = true) (day : Nat) (n : Int) :
    taxUpTo day lots' n = taxUpTo day lots n := by
  obtain ⟨rest, rfl, none, -, -, -⟩ := moved.split
  conv_rhs => rw [filter_before_append kept.sorted session]
  refine taxUpTo_append day _ _ _ none (fun lot member => ?_) n
  obtain ⟨inLots, from'⟩ := List.mem_filter.mp member
  exact noIncome_from kept clean later inLots (not_lt.mp (by simpa using from'))

theorem Moved.lotsKept {lots lots' : List Lot} (moved : Moved session bound lots lots')
    (kept : LotsKept bound dated lots) :
    LotsKept bound dated lots' := by
  obtain ⟨rest, rfl, none, positive, sorted, range⟩ := moved.split
  have before := (List.filter_sublist (p := fun lot => lot.acquired < session) (l := lots)).map
    Lot.acquired
  refine ⟨?_, ?_, ?_, ?_⟩
  · intro lot member
    rcases List.mem_append.mp member with inLots | inRest
    · exact kept.positive lot (List.mem_filter.mp inLots).1
    · exact positive lot inRest
  · rw [List.map_append, List.pairwise_append]
    refine ⟨kept.sorted.sublist before, sorted, ?_⟩
    intro a inBefore b inRest
    obtain ⟨lot, member, rfl⟩ := List.mem_map.mp inBefore
    have earlier : lot.acquired < session := by simpa using (List.mem_filter.mp member).2
    exact (earlier.trans_le (range b inRest).1).le
  · intro day member
    rw [List.map_append] at member
    rcases List.mem_append.mp member with inBefore | inRest
    · exact kept.acquired_lt day (before.mem inBefore)
    · exact (range day inRest).2
  · intro lot member earned
    rcases List.mem_append.mp member with inLots | inRest
    · exact kept.dated lot (List.mem_filter.mp inLots).1 earned
    · rw [none lot inRest] at earned
      cases earned

theorem insertIdx_append_length {α : Type} (xs ys : List α) (a : α) :
    (xs ++ ys).insertIdx xs.length a = xs ++ a :: ys := by
  induction xs with
  | nil => rfl
  | cons x xs ih => rw [List.cons_append, List.length_cons, List.insertIdx_succ_cons, ih,
      List.cons_append]

variable {shares : Int}

theorem moved_insert (kept : LotsKept bound dated lots) (clean : dated session = false)
    (later : ∀ a b, a ≤ b → dated b = true → dated a = true) (past : session < bound)
    (positive : 0 < shares) :
    Moved session bound lots (lots.insertIdx (lots.filter fun lot => lot.acquired ≤ session).length
      ⟨shares, session, 0, 0⟩) := by
  have upTo : (lots.filter fun lot => decide (lot.acquired ≤ session)) =
      lots.filter fun lot => decide (lot.acquired < session + 1) :=
    List.filter_congr fun lot _ => by simp [Nat.lt_succ_iff]
  have whole := filter_before_append kept.sorted (session + 1)
  generalize through : lots.filter (fun lot => lot.acquired < session + 1) = early at upTo whole
  generalize rest : lots.filter (fun lot => ¬ lot.acquired < session + 1) = late at whole
  have earlySorted : (early.map Lot.acquired).Pairwise (· ≤ ·) :=
    kept.sorted.sublist (through ▸ (List.filter_sublist.map _))
  have split := filter_before_append earlySorted session
  have before : early.filter (fun lot => lot.acquired < session) =
      lots.filter fun lot => lot.acquired < session := by
    rw [← through, List.filter_filter]
    refine List.filter_congr fun lot _ => ?_
    by_cases here : lot.acquired < session
    · simp [here, Nat.lt_succ_of_lt here]
    · simp [here]
  generalize today : early.filter (fun lot => ¬ lot.acquired < session) = same at split
  have inSame : ∀ lot ∈ same, lot ∈ lots ∧ lot.acquired = session := by
    intro lot member
    rw [← today, List.mem_filter, ← through, List.mem_filter] at member
    simp only [decide_eq_true_eq, decide_not, Bool.not_eq_true', decide_eq_false_iff_not] at member
    exact ⟨member.1.1, by omega⟩
  have inLate : ∀ lot ∈ late, lot ∈ lots ∧ session < lot.acquired := by
    intro lot member
    rw [← rest, List.mem_filter] at member
    simp only [decide_not, Bool.not_eq_true', decide_eq_false_iff_not] at member
    exact ⟨member.1, by omega⟩
  refine ⟨same ++ ⟨shares, session, 0, 0⟩ :: late, ?_, ?_, ?_, ?_, ?_⟩
  · rw [upTo]
    conv_lhs => rw [whole]
    rw [insertIdx_append_length, ← List.append_assoc, ← before, ← split]
  · intro lot member
    rcases List.mem_append.mp member with here | member
    · exact noIncome_from kept clean later (inSame lot here).1 (inSame lot here).2.ge
    · rcases List.mem_cons.mp member with rfl | here
      · rfl
      · exact noIncome_from kept clean later (inLate lot here).1 (inLate lot here).2.le
  · intro lot member
    rcases List.mem_append.mp member with here | member
    · exact kept.positive lot (inSame lot here).1
    · rcases List.mem_cons.mp member with rfl | here
      · exact positive
      · exact kept.positive lot (inLate lot here).1
  · rw [List.map_append, List.map_cons, List.pairwise_append, List.pairwise_cons]
    have lateSorted : (late.map Lot.acquired).Pairwise (· ≤ ·) :=
      kept.sorted.sublist (rest ▸ (List.filter_sublist.map _))
    have sameSorted : (same.map Lot.acquired).Pairwise (· ≤ ·) :=
      earlySorted.sublist (today ▸ (List.filter_sublist.map _))
    have lateAfter : ∀ day ∈ late.map Lot.acquired, session ≤ day := by
      intro day member
      obtain ⟨lot, here, rfl⟩ := List.mem_map.mp member
      exact (inLate lot here).2.le
    refine ⟨sameSorted, ⟨lateAfter, lateSorted⟩, ?_⟩
    intro a here b there
    obtain ⟨lot, inThis, rfl⟩ := List.mem_map.mp here
    rw [(inSame lot inThis).2]
    rcases List.mem_cons.mp there with rfl | there
    · exact le_refl _
    · exact lateAfter b there
  · intro day member
    obtain ⟨lot, here, rfl⟩ := List.mem_map.mp member
    rcases List.mem_append.mp here with here | here
    · exact ⟨(inSame lot here).2.ge, (inSame lot here).2 ▸ past⟩
    · rcases List.mem_cons.mp here with rfl | here
      · exact ⟨le_refl _, past⟩
      · exact ⟨(inLate lot here).2.le,
          kept.acquired_lt _ (List.mem_map_of_mem (inLate lot here).1)⟩

theorem moved_takeBack {remaining : Int} (kept : LotsKept bound dated lots)
    (clean : dated session = false) (later : ∀ a b, a ≤ b → dated b = true → dated a = true) :
    Moved session bound lots
      ((takeBack session remaining lots).2.filter fun lot => 0 < lot.quantity) := by
  have whole := filter_before_append kept.sorted session
  generalize before : lots.filter (fun lot => lot.acquired < session) = early at whole
  generalize rest : lots.filter (fun lot => ¬ lot.acquired < session) = late at whole
  have inEarly : ∀ lot ∈ early, lot ∈ lots ∧ lot.acquired < session := by
    intro lot member
    rw [← before, List.mem_filter] at member
    exact ⟨member.1, of_decide_eq_true member.2⟩
  have inLate : ∀ lot ∈ late, lot ∈ lots ∧ session ≤ lot.acquired := by
    intro lot member
    rw [← rest, List.mem_filter] at member
    simp only [decide_not, Bool.not_eq_true', decide_eq_false_iff_not] at member
    exact ⟨member.1, not_lt.mp member.2⟩
  obtain ⟨acquired, income⟩ := takeBack_spec session remaining late
  have kept' := (List.filter_sublist (p := fun lot : Lot => 0 < lot.quantity)
    (l := (takeBack session remaining late).2)).map Lot.acquired
  rw [acquired] at kept'
  refine ⟨(takeBack session remaining late).2.filter fun lot => 0 < lot.quantity, ?_, ?_, ?_, ?_, ?_⟩
  · conv_lhs => rw [whole]
    rw [takeBack_append session remaining early late fun lot member => (inEarly lot member).2,
      List.filter_append, before]
    congr 1
    exact List.filter_eq_self.mpr fun lot member =>
      decide_eq_true (kept.positive lot (inEarly lot member).1)
  · intro lot member
    obtain ⟨lot', inRest, same, earned⟩ := income lot (List.mem_filter.mp member).1
    rw [← earned]
    exact noIncome_from kept clean later (inLate lot' inRest).1 (inLate lot' inRest).2
  · exact fun lot member => of_decide_eq_true (List.mem_filter.mp member).2
  · exact (kept.sorted.sublist (rest ▸ (List.filter_sublist.map _))).sublist kept'
  · intro day member
    obtain ⟨lot, here, rfl⟩ := List.mem_map.mp (kept'.mem member)
    exact ⟨(inLate lot here).2, kept.acquired_lt _ (List.mem_map_of_mem (inLate lot here).1)⟩

/-- What a journal knows of the ex-dates of a name. -/
def pastOf (history : List (Nat × CorporateAction)) (symbol : Symbol) (session : Nat) : Bool :=
  history.any fun row => session < row.1 ∧ row.2.symbol = symbol

theorem recordsExDate_antitone (b : DailyBroker) (history : List (Nat × CorporateAction))
    (symbol : Symbol) : ∀ day day', day ≤ day' →
      b.recordsExDate (pastOf history) symbol day' = true →
      b.recordsExDate (pastOf history) symbol day = true := by
  intro day day' earlier recorded
  simp only [recordsExDate, pastOf, Bool.or_eq_true, List.any_eq_true, decide_eq_true_eq] at recorded ⊢
  rcases recorded with ⟨action, member, name, after⟩ | ⟨row, member, after, name⟩
  · exact .inl ⟨action, member, name, by omega⟩
  · exact .inr ⟨row, member, by omega, name⟩

/-- An account another step left, with the lots kept and the curves as they were. -/
structure SameCurves (bound : Nat) (past : Symbol → Nat → Bool) (b b' : DailyBroker) : Prop where
  profile_eq : b'.profile = b.profile
  currentDay_eq : b'.currentDay = b.currentDay
  corporateActions_eq : b'.corporateActions = b.corporateActions
  kept : b'.LotsKept bound past
  curve_eq : ∀ day symbol n, b'.taxCurve day symbol n = b.taxCurve day symbol n

variable {past : Symbol → Nat → Bool}

theorem SameCurves.refl {bound : Nat} {b : DailyBroker} (kept : b.LotsKept bound past) :
    SameCurves bound past b b :=
  ⟨rfl, rfl, rfl, kept, fun _ _ _ => rfl⟩

theorem SameCurves.trans {bound : Nat} {b b' b'' : DailyBroker} (h : SameCurves bound past b b')
    (h' : SameCurves bound past b' b'') :
    SameCurves bound past b b'' :=
  ⟨h'.profile_eq.trans h.profile_eq, h'.currentDay_eq.trans h.currentDay_eq,
    h'.corporateActions_eq.trans h.corporateActions_eq, h'.kept,
    fun day symbol n => (h'.curve_eq day symbol n).trans (h.curve_eq day symbol n)⟩

variable {history : List (Nat × CorporateAction)}

theorem sameCurves_of_moved {b : DailyBroker} {symbol : Symbol} {ledger : Dict Symbol (List Lot)}
    (kept : b.LotsKept bound (pastOf history)) (clean : exDated b history symbol session = false)
    (moved : Moved session bound (b.lotsOf symbol) lots)
    (replaced : ∀ other, (ledger.get? other).getD [] = if symbol = other then lots else b.lotsOf other) :
    SameCurves bound (pastOf history) b { b with lots := ledger } := by
  refine ⟨rfl, rfl, rfl, ?_, ?_⟩
  · intro other
    change LotsKept bound (b.recordsExDate (pastOf history) other) ((ledger.get? other).getD [])
    rw [replaced]
    split_ifs with here
    · subst here
      exact moved.lotsKept (kept symbol)
    · exact kept other
  · intro day other n
    unfold taxCurve
    change (if b.profile.dividendTax then taxUpTo day ((ledger.get? other).getD []) n else 0) = _
    rw [replaced]
    by_cases here : symbol = other
    · subst here
      rw [if_pos rfl, moved.taxUpTo_eq (kept symbol) clean (recordsExDate_antitone b history symbol)]
    · rw [if_neg here]

variable {b b' : DailyBroker}

theorem moveLots_sameCurves {symbol : Symbol} (kept : b.LotsKept bound (pastOf history))
    (past : session < bound) (clean : exDated b history symbol session = false)
    (h : moveLots b symbol session shares = .ok b') : SameCurves bound (pastOf history) b b' := by
  have replaced : ∀ lots : List Lot, ∀ other,
      ((if lots = [] then b.lots.erase symbol else b.lots.set symbol lots).get? other).getD [] =
        if symbol = other then lots else b.lotsOf other := by
    intro lots other
    by_cases none : lots = []
    · rw [if_pos none, lotsOf_erase, none]
    · rw [if_neg none, lotsOf_set]
  have later := recordsExDate_antitone b history symbol
  unfold moveLots at h
  dsimp only at h
  by_cases buys : 0 < shares
  · rw [if_pos buys] at h
    obtain rfl := Except.ok.inj h
    exact sameCurves_of_moved kept clean (moved_insert (kept symbol) clean later past buys)
      (replaced _)
  · rw [if_neg buys] at h
    split at h
    · cases h
    · obtain rfl := Except.ok.inj h
      exact sameCurves_of_moved kept clean (moved_takeBack (kept symbol) clean later) (replaced _)

theorem moveShares_sameCurves {key : OrderKey} (kept : b.LotsKept bound (pastOf history))
    (past : session < bound) (h : moveShares b history session key shares = .ok b') :
    SameCurves bound (pastOf history) b b' := by
  obtain ⟨-, clean⟩ := moveShares_spec h
  unfold moveShares at h
  dsimp only at h
  by_cases still : shares = 0
  · rw [if_pos still] at h
    exact Except.ok.inj h ▸ .refl kept
  rw [if_neg still] at h
  by_cases dated : exDated b history key.symbol session
  · rw [if_pos dated] at h
    cases h
  rw [if_neg dated] at h
  by_cases tooMany : ((b.positions.get? key.symbol).map Position.quantity).getD 0 + shares < 0 ∨
      (shares < 0 ∧
        ((b.positions.get? key.symbol).map Position.availableQuantity).getD 0 < -shares)
  · rw [if_pos tooMany] at h
    cases h
  rw [if_neg tooMany] at h
  by_cases taxed : b.profile.dividendTax = true
  · rw [if_neg (not_not.mpr taxed)] at h
    by_cases sale : key.action = .sell
    · rw [if_pos sale] at h
      cases h
    · rw [if_neg sale] at h
      exact moveLots_sameCurves kept past (clean still).1 h
  · rw [if_pos taxed] at h
    exact Except.ok.inj h ▸ .refl kept

theorem bookCorrection_sameCurves {b : DailyBroker} {day session bound : Nat} {key : OrderKey}
    {applied target : Outcome} {recorded : Option String}
    {booked : DailyBroker × Outcome × CorrectionRow} (kept : b.LotsKept bound (pastOf history))
    (past : session < bound)
    (h : bookCorrection b history day session key applied target recorded = .ok booked) :
    SameCurves bound (pastOf history) b booked.1 := by
  obtain ⟨change, moved, left, -, shares, -, -, rfl⟩ := bookCorrection_eq_ok h
  have same := moveShares_sameCurves kept past shares
  exact ⟨same.profile_eq, same.currentDay_eq, same.corporateActions_eq, same.kept, same.curve_eq⟩

theorem corrections_sameCurves {records : Records} {late : List Nat} {b : DailyBroker}
    {mode : Mode} {day bound : Nat} {corrected : Correcting}
    (kept : b.LotsKept bound (pastOf history))
    (past : ∀ session ∈ mode.sessions.keys, session < bound)
    (h : corrections records late history b mode day = .ok corrected) :
    SameCurves bound (pastOf history) b corrected.broker := by
  refine foldlM_invariant (P := fun s : Correcting => SameCurves bound (pastOf history) b s.broker)
    ?_ h (.refl kept)
  intro session member s s' pass same
  have earlier := past session ((List.mem_insertionSort _).mp member)
  refine foldlM_invariant (P := fun s : Correcting => SameCurves bound (pastOf history) b s.broker)
    ?_ pass same
  intro key _ t t' step so
  rcases correctKey_cases step with rfl | ⟨record, target, booked, -, -, -, made, rfl⟩
  · exact so
  · exact so.trans (bookCorrection_sameCurves so.kept earlier made)

variable {day : Nat} {order : StrategyOrder} {e : Execution}

theorem fillAt_lotsKept {at' : Instant} {p : ℚ} (today : b.currentDay = some day)
    (kept : b.LotsKept (day + 1) past) (h : b.fillAt order at' p = .ok (b', e)) :
    b'.LotsKept (day + 1) past := by
  obtain ⟨day', fee, stamp, today', -, cases⟩ := fillAt_cases h
  obtain rfl := Option.some.inj (today.symm.trans today')
  rcases cases with ⟨-, -, left⟩ | ⟨bought, -, made, left⟩ | ⟨sold, tax, realized, -, made, left⟩ <;>
    obtain ⟨rfl, rfl⟩ := Prod.mk.inj left
  · exact kept
  · exact buy_lotsKept kept made
  · exact sell_lotsKept kept made

theorem execute_lotsKept {bar : Option Bar} {at' : Instant} {rawPrice : Option ℚ}
    (today : b.currentDay = some day) (kept : b.LotsKept (day + 1) past)
    (h : b.execute order bar at' rawPrice = .ok (b', e)) : b'.LotsKept (day + 1) past := by
  rcases execute_cases h with ⟨reason, left⟩ | ⟨_, _, p, -, -, -, -, fills⟩
  · obtain ⟨rfl, rfl⟩ := Prod.mk.inj left
    exact kept
  · exact fillAt_lotsKept today kept fills

/-- An account in its session, with its lots kept. -/
structure InSession (profile : BrokerProfile) (day : Nat) (past : Symbol → Nat → Bool)
    (actions : List CorporateAction) (b : DailyBroker) : Prop where
  profile_eq : b.profile = profile
  today : b.currentDay = some day
  corporateActions_eq : b.corporateActions = actions
  kept : b.LotsKept (day + 1) past

theorem InSession.execute {profile : BrokerProfile} {day : Nat} {past : Symbol → Nat → Bool}
    {actions : List CorporateAction} {b b' : DailyBroker} {order : StrategyOrder}
    {bar : Option Bar} {at' : Instant} {rawPrice : Option ℚ} {e : Execution}
    (start : InSession profile day past actions b)
    (h : b.execute order bar at' rawPrice = .ok (b', e)) : InSession profile day past actions b' :=
  have frame := execute_frame h
  ⟨frame.profile_eq.trans start.profile_eq, frame.currentDay_eq.trans start.today,
    frame.corporateActions_eq.trans start.corporateActions_eq,
    execute_lotsKept start.today start.kept h⟩

variable {actions : List CorporateAction} {profile : BrokerProfile}

theorem InSession.recordFill {p : ℚ} {commission : Option ℚ}
    (start : InSession profile day past actions b)
    (h : recordFill b order p commission = .ok (b', e)) :
    InSession profile day past actions b' := by
  obtain ⟨profile', booked, execution, -, executed, -, rfl, -⟩ := recordFill_eq_ok h
  have lent : InSession profile' day past actions (b.withProfile profile') :=
    ⟨rfl, start.today, start.corporateActions_eq, start.kept⟩
  have left := lent.execute executed
  exact ⟨start.profile_eq, left.today, left.corporateActions_eq, left.kept⟩

variable {simulated : List Simulated}

theorem applyDay_invariant {P : DailyBroker → Prop} {records : Records} {late : List Nat}
    {b : DailyBroker} {applied : DailyBroker × List ExecutionRow × Ledger}
    (fills : ∀ b b' order p commission e, recordFill b order p commission = .ok (b', e) → P b → P b')
    (h : applyDay records late b day simulated = .ok applied) (start : P b) : P applied.1 := by
  obtain ⟨-, s, booking, rfl⟩ := applyDay_eq_ok h
  have row : ∀ (b b' : DailyBroker) order ordered record row,
      recordedRow b order ordered record = .ok (b', row) → P b → P b' := by
    intro b b' order ordered record row made holds
    unfold recordedRow at made
    split at made
    · obtain ⟨⟨broker, e⟩, booked, left⟩ := except_map_eq_ok.mp made
      obtain ⟨rfl, -⟩ := Prod.mk.inj left
      exact fills _ _ _ _ _ _ booked holds
    · obtain ⟨rfl, -⟩ := Prod.mk.inj (Except.ok.inj made)
      exact holds
  refine foldlM_invariant (P := fun s : Applying => P s.broker) ?_ (applyClocks_steps booking) start
  intro step _ s s' run holds
  cases step with
  | inl x =>
    rcases applyOrder_cases run with ⟨-, rfl⟩ | ⟨record, -, -, cases⟩
    · exact holds
    rcases cases with ⟨-, -, p, broker, e, -, made, rfl⟩ | ⟨-, -, rfl⟩ | ⟨-, broker, row', made, rfl⟩
    · exact fills _ _ _ _ _ _ made holds
    · exact holds
    · exact row _ _ _ _ _ _ made holds
  | inr key =>
    simp only [bookStep, applyOffSheet] at run
    split at run
    · exact Except.ok.inj run ▸ holds
    split at run
    · split_ifs at run
      obtain ⟨⟨broker, row'⟩, made, rfl⟩ := except_map_eq_ok.mp run
      exact row _ _ _ _ _ _ made holds
    · exact Except.ok.inj run ▸ holds

theorem executeAll_inSession {data : PaperData} {due : List StrategyOrder}
    (start : InSession profile day past actions b)
    (h : executeAll data b due = .ok (b', simulated)) : InSession profile day past actions b' := by
  refine foldlM_invariant (P := fun s : DailyBroker × List Simulated =>
    InSession profile day past actions s.1) ?_ h start
  intro order _ s s' step holds
  obtain ⟨⟨broker, e⟩, executed, rfl⟩ := except_map_eq_ok.mp step
  exact holds.execute executed

end AutoTrade
