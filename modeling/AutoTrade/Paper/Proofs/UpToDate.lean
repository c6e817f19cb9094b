import AutoTrade.Paper.Proofs.Lasting

/-!
# A settled session is up to date

Where a session lasts (`Lasts`), every entry of the ledger it leaves is what
the record in force asks for: as simulated, the simulator's own figures; filled,
the figures of the record; not traded, nothing.
-/

namespace AutoTrade

open DailyBroker

section Steps

variable {records : Records} {late : List Nat} {day : Nat} {simulated : List Simulated}
  {profile : BrokerProfile} {curve : Symbol → Int → ℚ}

theorem soldIn_filter {xs : List Simulated} (rows : ∀ x ∈ xs, SimulatedRow profile day x)
    (symbol : Symbol) : soldIn symbol (xs.map Prod.snd) =
      soldIn symbol ((xs.filter fun x => isSale symbol x.1).map Prod.snd) := by
  unfold soldIn
  rw [List.filter_map, List.filter_map, List.filter_filter]
  refine congrArg (fun l => (List.map Execution.quantity (List.map Prod.snd l)).sum) ?_
  refine List.filter_congr fun x member => ?_
  have row := rows x member
  simp only [Function.comp_apply, Execution.sells, isSale, row.symbol_eq, row.action_eq]
  cases x.2.isFilled <;> simp

variable {done rest : List (Simulated ⊕ OrderKey)} {offSheet : List OrderKey} {clocks : List Nat}
  {x : Simulated}

theorem ordersOf_subset (whole : bookingSteps simulated offSheet clocks = done ++ rest)
    (member : x ∈ ordersOf done ∨ x ∈ ordersOf rest) : x ∈ simulated := by
  have inSteps : x ∈ ordersOf (bookingSteps simulated offSheet clocks) := by
    rw [whole, ordersOf_append]
    exact List.mem_append.mpr member
  rw [ordersOf_bookingSteps] at inSteps
  obtain ⟨c, -, here⟩ := List.mem_flatMap.mp inSteps
  exact (List.mem_filter.mp here).1

theorem soldIn_inStep {s : Applying} (rows : ∀ x ∈ simulated, SimulatedRow profile day x)
    (ascending : clocks.Pairwise (· < ·)) (covered : ∀ x ∈ simulated, x.key.clock ∈ clocks)
    (unordered : ∀ key ∈ offSheet, key ∉ simulated.map Simulated.key)
    (recorded : ∀ key ∈ offSheet, key ∈ records.keys day)
    (traded : ∀ key ∈ tradesOf done, key ∈ offSheet)
    (whole : bookingSteps simulated offSheet clocks = done ++ .inl x :: rest)
    (alike : SoldAlike records late day done s) (sale : isSale x.1.symbol x.1 = true)
    (stands : asSimulated records late x.1 = true)
    (inStep : SalesInStep records late day (simulated.map Prod.fst) x.1.symbol) :
    ∃ before after, simulated = before ++ x :: after ∧
      soldIn x.1.symbol s.executions = soldIn x.1.symbol (before.map Prod.snd) := by
  have placed : (simulated.filter fun y => isSale x.1.symbol y.1).Pairwise fun y z =>
      y.key.clock ≤ z.key.clock ∧
        (asSimulated records late z.1 = true → asSimulated records late y.1 = true) := by
    have := inStep.placed
    rw [List.filter_map, List.pairwise_map] at this
    exact this
  have split := ordersOf_filter offSheet ascending covered (placed.imp And.left)
  rw [whole, ordersOf_append, ordersOf_inl, List.filter_append,
    List.filter_cons_of_pos (p := fun y : Simulated => isSale x.1.symbol y.1) (a := x) sale] at split
  -- The sales before `x` are the same in both orders.
  obtain ⟨head, tail, rfl, headEq, tailEq⟩ := List.filter_eq_append_iff.mp split.symm
  obtain ⟨skipped, after, rfl, none, -, -⟩ := List.filter_eq_cons_iff.mp tailEq
  refine ⟨head ++ skipped, after, by simp, ?_⟩
  have earlier : ∀ y ∈ (ordersOf done).filter fun y => isSale x.1.symbol y.1,
      asSimulated records late y.1 = true := by
    rw [← split, List.pairwise_append] at placed
    intro y member
    exact (placed.2.2 y member x List.mem_cons_self).2 stands
  have sold := alike.sold x.1.symbol
    (fun y member sale => earlier y (List.mem_filter.mpr ⟨member, sale⟩)) fun key member trades => by
      obtain ⟨sell, name, filled⟩ := trades
      have after := inStep.offSheet key (recorded key (traded key member))
        (by
          have := unordered key (traded key member)
          simpa [Simulated.key, List.map_map, Function.comp_def] using this)
        sell name filled x.1 (by simp) sale stands
      have before := trade_before_order ascending whole member
      have : x.key.clock = (orderKey x.1).clock := rfl
      omega
  have members : ∀ y ∈ ordersOf done, SimulatedRow profile day y := fun y member =>
    rows y (ordersOf_subset whole (.inl member))
  have members' : ∀ y ∈ head ++ skipped, SimulatedRow profile day y := fun y member =>
    rows y (by
      rcases List.mem_append.mp member with inHead | inSkipped
      · simp [inHead]
      · simp [inSkipped])
  rw [sold, soldIn_filter members, soldIn_filter members', ← headEq, List.filter_append,
    List.filter_eq_nil_iff.mpr none, List.append_nil]

/-- The morning's curves of an account. -/
abbrev morning (opened : DailyBroker) (day : Nat) : Symbol → Int → ℚ :=
  fun symbol n => opened.taxCurve day symbol n

theorem tax_inStep {opened : DailyBroker} {s : Applying} {e : Execution}
    (rows : ∀ x ∈ simulated, SimulatedRow profile day x)
    (taxes : ∀ before x after, simulated = before ++ x :: after →
      x.2.dividendTax = taxAfter (morning opened day) (before.map Prod.snd) x.2)
    (ascending : clocks.Pairwise (· < ·)) (covered : ∀ x ∈ simulated, x.key.clock ∈ clocks)
    (unordered : ∀ key ∈ offSheet, key ∉ simulated.map Simulated.key)
    (recorded : ∀ key ∈ offSheet, key ∈ records.keys day)
    (traded : ∀ key ∈ tradesOf done, key ∈ offSheet)
    (whole : bookingSteps simulated offSheet clocks = done ++ .inl x :: rest)
    (alike : SoldAlike records late day done s)
    (lasts : Lasts records late day opened (simulated.map Prod.fst))
    (stands : asSimulated records late x.1 = true)
    (tax : e.dividendTax = taxAfter (morning opened day) s.executions e)
    (symbolEq : e.symbol = x.1.symbol) (actionEq : e.action = x.1.action)
    (filled : e.isFilled = x.2.isFilled) (quantity : e.quantity = x.2.quantity) :
    e.dividendTax = x.2.dividendTax := by
  have inSimulated : x ∈ simulated := ordersOf_subset whole (.inr (by simp))
  have row := rows x inSimulated
  have sells : e.sells e.symbol = x.2.sells x.2.symbol := by
    simp only [Execution.sells, filled, symbolEq, actionEq, row.symbol_eq, row.action_eq]
  obtain ⟨before, after, place⟩ := List.append_of_mem inSimulated
  rw [tax]
  by_cases sold : x.2.sells x.2.symbol = true
  swap
  · rw [taxes before x after place, taxAfter, taxAfter, sells, if_neg sold, if_neg sold]
  have sale : x.1.action = .sell := by
    simp only [Execution.sells, Bool.and_eq_true, decide_eq_true_eq] at sold
    exact row.action_eq.symm.trans sold.2.1
  -- A name without income owes nothing on either side.
  have flat : (∀ n, morning opened day x.1.symbol n = 0) →
      taxAfter (morning opened day) s.executions e = x.2.dividendTax := by
    intro zero
    rw [taxes before x after place, taxAfter, taxAfter, symbolEq, row.symbol_eq]
    simp [zero]
  by_cases taxed : opened.profile.dividendTax = true
  · rcases lasts.taxed taxed x.1 (List.mem_map_of_mem inSimulated) sale stands with none | inStep
    · refine flat fun n => ?_
      simp only [morning, taxCurve, taxed, if_true]
      exact taxUpTo_of_noIncome day none n
    · obtain ⟨before, after, place, same⟩ := soldIn_inStep rows ascending covered unordered recorded
        traded whole alike (isSale_iff.mpr ⟨sale, rfl⟩) stands inStep
      rw [taxes before x after place, taxAfter, taxAfter, sells, if_pos sold, if_pos sold, symbolEq,
        row.symbol_eq, quantity, same]
  · refine flat fun n => ?_
    simp only [morning, taxCurve, taxed]
    rfl

theorem realOf_append (booked : List (OrderKey × ExecutionRow)) (key key' : OrderKey)
    (row : ExecutionRow) : realOf (booked ++ [(key', row)]) key =
      realOf booked key ++ if key' = key then [row.execution] else [] := by
  unfold realOf
  rw [List.filter_append, List.map_append]
  by_cases here : key' = key <;> simp [here]

/-- The orders of a key. -/
def isOf (key : OrderKey) (x : Simulated) : Bool := x.key = key

/-- What a key whose record is `outcome` has come to, the steps `done` behind it. -/
structure KeyBooked (profile : BrokerProfile) (day : Nat) (key : OrderKey) (outcome : RecordOutcome)
    (done : List (Simulated ⊕ OrderKey)) (s : Applying) : Prop where
  simulated : outcome = .simulated → key ∉ s.settled ∧
    (realOf s.booked key).map Execution.figures =
      ((ordersOf done).filter (isOf key)).map fun x => x.2.figures
  recorded : outcome ≠ .simulated →
    ((ordersOf done).filter (isOf key) = [] ∧ key ∉ s.settled ∧ realOf s.booked key = []) ∨
      ((ordersOf done).filter (isOf key) ≠ [] ∧ key ∈ s.settled ∧
        ∃ e, realOf s.booked key = [e] ∧ StandsFor profile day key outcome e)

variable {step : Simulated ⊕ OrderKey} {s s' : Applying} {outcome : RecordOutcome} {key : OrderKey}

theorem KeyBooked.other {done : List (Simulated ⊕ OrderKey)}
    (h : KeyBooked profile day key outcome done s)
    (orders : (ordersOf (done ++ [step])).filter (isOf key) = (ordersOf done).filter (isOf key))
    (real : realOf s'.booked key = realOf s.booked key)
    (settled : key ∈ s'.settled ↔ key ∈ s.settled) :
    KeyBooked profile day key outcome (done ++ [step]) s' := by
  refine ⟨?_, ?_⟩
  · rw [orders, real, settled]
    exact h.simulated
  · rw [orders, real, settled]
    exact h.recorded

theorem bookStep_keyBooked {done : List (Simulated ⊕ OrderKey)}
    (rows : ∀ x ∈ simulated, SimulatedRow profile day x)
    (member : ∀ x, step = .inl x → x ∈ simulated) (start : s.AlongOf day profile curve)
    (traded : ∀ key', step = .inr key' → key' ≠ key)
    (agrees : ∀ x ∈ simulated, x.key = key → ∀ own,
      resolve records (orderSession x.1) x.key true (orderSession x.1 ∈ late) = some own →
      own.outcome = outcome)
    (taxes : ∀ x, step = .inl x → asSimulated records late x.1 = true → ∀ e : Execution,
      e.dividendTax = taxAfter curve s.executions e → e.symbol = x.1.symbol →
      e.action = x.1.action → e.isFilled = x.2.isFilled → e.quantity = x.2.quantity →
      e.dividendTax = x.2.dividendTax) (h : KeyBooked profile day key outcome done s)
    (step' : bookStep records late day simulated s step = .ok s') :
    KeyBooked profile day key outcome (done ++ [step]) s' := by
  rcases bookStep_cases rows member start step' with ⟨x, rfl, settled, rfl⟩ |
    ⟨x, e, broker, rfl, -, stands, trade, -, symbolEq, actionEq, figures, filled, quantity, rfl⟩ |
    ⟨x, own, broker, row, rfl, fresh, resolved, other, -, -, -, -, standsFor, rfl⟩ |
    ⟨key', rfl, -, rfl⟩ |
    ⟨key', record, fill, broker, row, rfl, -, -, -, -, -, -, -, rfl⟩
  · by_cases here : x.key = key
    · subst here
      refine ⟨fun said => absurd settled (h.simulated said).1, fun said => ?_⟩
      rcases h.recorded said with ⟨-, not, -⟩ | ⟨-, inSettled, made⟩
      · exact absurd settled not
      · exact .inr ⟨by simp [isOf], inSettled, made⟩
    · exact h.other (by simp [isOf, here]) rfl Iff.rfl
  · by_cases here : x.key = key
    · have simulatedOutcome : outcome = .simulated := by
        simp only [asSimulated, Option.any_eq_true, decide_eq_true_eq] at stands
        obtain ⟨own, resolved, said⟩ := stands
        rw [← agrees x (member x rfl) here own resolved, said]
      have tax := taxes x rfl stands e (start.along.step trade).2 symbolEq actionEq filled quantity
      obtain ⟨not, same⟩ := h.simulated simulatedOutcome
      refine ⟨fun _ => ⟨not, ?_⟩, fun other => absurd simulatedOutcome other⟩
      rw [realOf_append, if_pos here, List.map_append, same, ordersOf_append, List.filter_append,
        List.map_append]
      simp [isOf, here, figures tax]
    · exact h.other (by simp [isOf, here]) (by rw [realOf_append, if_neg here, List.append_nil])
        Iff.rfl
  · by_cases here : x.key = key
    · obtain rfl := agrees x (member x rfl) here own resolved
      subst here
      refine ⟨fun said => absurd said other, fun _ => ?_⟩
      rcases h.recorded other with ⟨-, -, none⟩ | ⟨-, inSettled, -⟩
      · refine .inr ⟨by simp [isOf], List.mem_cons_self, row.execution, ?_, standsFor⟩
        rw [realOf_append, if_pos rfl, none, List.nil_append]
      · exact absurd inSettled fresh
    · refine h.other (by simp [isOf, here]) (by rw [realOf_append, if_neg here, List.append_nil]) ?_
      rw [List.mem_cons, or_iff_right (Ne.symm here)]
  · exact h.other (by simp) rfl Iff.rfl
  · have different := traded key' rfl
    exact h.other (by simp) (by rw [realOf_append, if_neg different, List.append_nil]) Iff.rfl

/-- What a trade off the sheet has come to. -/
structure KeyTraded (profile : BrokerProfile) (day : Nat) (key : OrderKey) (outcome : RecordOutcome)
    (done : List (Simulated ⊕ OrderKey)) (s : Applying) : Prop where
  filled : ∀ fill, outcome = .filled fill →
    (key ∉ tradesOf done ∧ realOf s.booked key = []) ∨
      (key ∈ tradesOf done ∧ ∃ e, realOf s.booked key = [e] ∧ StandsFor profile day key outcome e)
  unfilled : (∀ fill, outcome ≠ .filled fill) → realOf s.booked key = []

theorem KeyTraded.other {done : List (Simulated ⊕ OrderKey)}
    (h : KeyTraded profile day key outcome done s)
    (trades : (∃ fill, outcome = .filled fill) →
      (key ∈ tradesOf (done ++ [step]) ↔ key ∈ tradesOf done))
    (real : realOf s'.booked key = realOf s.booked key) :
    KeyTraded profile day key outcome (done ++ [step]) s' := by
  refine ⟨fun fill said => ?_, fun none => real.trans (h.unfilled none)⟩
  rw [trades ⟨fill, said⟩, real]
  exact h.filled fill said

theorem bookStep_keyTraded {record : Record} (rows : ∀ x ∈ simulated, SimulatedRow profile day x)
    (member : ∀ x, step = .inl x → x ∈ simulated) (start : s.AlongOf day profile curve)
    (unordered : key ∉ simulated.map Simulated.key)
    (distinct : (tradesOf (done ++ step :: rest)).Nodup)
    (found : records.fills.get? (day, key) = some record)
    (h : KeyTraded profile day key record.outcome done s)
    (step' : bookStep records late day simulated s step = .ok s') :
    KeyTraded profile day key record.outcome (done ++ [step]) s' := by
  have apart : ∀ x ∈ simulated, x.key ≠ key := fun x inSimulated equal =>
    unordered (equal ▸ List.mem_map_of_mem inSimulated)
  rcases bookStep_cases rows member start step' with ⟨x, rfl, -, rfl⟩ |
    ⟨x, e, broker, rfl, -, -, -, -, -, -, -, -, -, rfl⟩ |
    ⟨x, own, broker, row, rfl, -, -, -, -, -, -, -, -, rfl⟩ |
    ⟨key', rfl, unfilled, rfl⟩ |
    ⟨key', record', fill, broker, row, rfl, found', said, -, -, -, -, stands, rfl⟩
  · exact h.other (by simp) rfl
  · refine h.other (by simp) ?_
    rw [realOf_append, if_neg (apart x (member x rfl)), List.append_nil]
  · refine h.other (by simp) ?_
    rw [realOf_append, if_neg (apart x (member x rfl)), List.append_nil]
  · refine h.other (fun ⟨fill, said⟩ => ?_) rfl
    have different : key ≠ key' := fun equal => unfilled record (equal ▸ found) fill said
    simp [different]
  · by_cases here : key' = key
    · subst here
      obtain rfl := Option.some.inj (found.symm.trans found')
      have fresh : key' ∉ tradesOf done := by
        rw [tradesOf_append, tradesOf_inr, List.nodup_append] at distinct
        exact fun inDone => distinct.2.2 key' inDone key' List.mem_cons_self rfl
      refine ⟨fun _ _ => ?_, fun none => absurd said (none fill)⟩
      rcases h.filled fill said with ⟨-, none⟩ | ⟨inDone, -⟩
      · refine .inr ⟨by simp, row.execution, ?_, stands⟩
        rw [realOf_append, if_pos rfl, none, List.nil_append]
      · exact absurd inDone fresh
    · refine h.other (fun _ => by simp [Ne.symm here]) ?_
      rw [realOf_append, if_neg here, List.append_nil]

end Steps

variable {key : OrderKey}

theorem sessionLedger_get?_of_mem {keys : List OrderKey} {simulated : List Simulated}
    {booked : List (OrderKey × ExecutionRow)} (member : key ∈ keys) :
    (sessionLedger keys simulated booked).get? key = some (ledgerEntry simulated booked key) := by
  have loop : ∀ (keys : List OrderKey) (ledger : Ledger),
      (key ∈ keys ∨ ledger.get? key = some (ledgerEntry simulated booked key)) →
      (keys.foldl (fun ledger k => ledger.set k (ledgerEntry simulated booked k)) ledger).get? key =
        some (ledgerEntry simulated booked key) := by
    intro keys
    induction keys with
    | nil => exact fun ledger start => start.resolve_left List.not_mem_nil
    | cons first rest ih =>
      intro ledger start
      apply ih
      by_cases here : first = key
      · exact .inr (by rw [here, Dict.get?_set_self])
      · rw [Dict.get?_set_of_ne _ _ here]
        exact start.imp_left fun inKeys => (List.mem_cons.mp inKeys).resolve_left (Ne.symm here)
  exact loop keys Dict.empty (.inl member)

theorem orderedShares_ne_zero {simulated : List Simulated} :
    orderedShares simulated key ≠ 0 ↔ key ∈ simulated.map Simulated.key := by
  have total : ∀ xs : List Simulated, 0 ≤ (xs.map fun x => x.1.quantity).sum ∧
      ((xs.map fun x => x.1.quantity).sum ≠ 0 ↔ xs ≠ []) := by
    intro xs
    induction xs with
    | nil => simp
    | cons x xs ih =>
      have positive := x.1.quantity_pos
      simp only [List.map_cons, List.sum_cons, ne_eq, reduceCtorEq, not_false_eq_true, iff_true]
      omega
  rw [orderedShares, (total _).2, ofKey, ne_eq, List.filter_eq_nil_iff]
  simp

theorem mem_offSheetKeys {records : Records} {day : Nat} {simulated : List Simulated} :
    key ∈ offSheetKeys records day simulated ↔
      (∃ record, records.fills.get? (day, key) = some record) ∧
        key ∉ simulated.map Simulated.key := by
  unfold offSheetKeys
  rw [List.mem_insertionSort, List.mem_filter, Records.keys]
  refine and_congr ⟨?_, ?_⟩ (by simp)
  · intro member
    obtain ⟨k, inFills, rfl⟩ := List.mem_map.mp member
    obtain ⟨inKeys, here⟩ := List.mem_filter.mp inFills
    obtain ⟨entry, inEntries, rfl⟩ := List.mem_map.mp inKeys
    refine ⟨entry.2, ?_⟩
    rw [← of_decide_eq_true here]
    exact Dict.mem_entries_iff.mp inEntries
  · rintro ⟨record, found⟩
    refine List.mem_map.mpr ⟨(day, key), List.mem_filter.mpr ⟨?_, by simp⟩, rfl⟩
    exact List.mem_map.mpr ⟨((day, key), record), Dict.mem_entries_iff.mpr found, rfl⟩

theorem offSheetKeys_nodup (records : Records) (day : Nat) (simulated : List Simulated) :
    (offSheetKeys records day simulated).Nodup := by
  unfold offSheetKeys
  rw [(List.perm_insertionSort _ _).nodup_iff]
  refine List.Nodup.filter _ (List.Nodup.map_on ?_ (records.fills.nodup.filter _))
  intro k here k' there same
  have day_eq := of_decide_eq_true (List.mem_filter.mp here).2
  have day_eq' := of_decide_eq_true (List.mem_filter.mp there).2
  exact Prod.ext (day_eq.trans day_eq'.symm) same

theorem applyDay_upToDate {records : Records} {late : List Nat} {data : PaperData}
    {P : DailyBroker → Prop} {b opened simulator : DailyBroker} {day : Nat}
    {simulated : List Simulated} {applied : DailyBroker × List ExecutionRow × Ledger}
    (runs : Executed data P opened simulated simulator)
    (lasts : Lasts records late day opened (simulated.map Prod.fst))
    (morningOf : Along day (morning opened day) [] opened)
    (start : Along day (morning opened day) [] b) (same : b.profile = opened.profile)
    (h : applyDay records late b day simulated = .ok applied) (key : OrderKey) :
    UpToDate b.profile records late day key ((applied.2.2.get? key).getD emptyEntry) := by
  obtain ⟨rows, taxes⟩ := runs.rows morningOf
  simp only [List.nil_append] at taxes
  rw [← same] at rows
  obtain ⟨-, s, booking, rfl⟩ := applyDay_eq_ok h
  have steps := applyClocks_steps booking
  have ascending := clocksOf_ascending (sessionKeys records day simulated)
  have covered : ∀ x ∈ simulated, x.key.clock ∈ clocksOf (sessionKeys records day simulated) :=
    fun x member => mem_clocksOf.mpr
      ⟨x.key, List.mem_append_left _ (List.mem_map_of_mem member), rfl⟩
  have coveredTrades : ∀ key ∈ offSheetKeys records day simulated,
      key.clock ∈ clocksOf (sessionKeys records day simulated) := fun key member =>
    mem_clocksOf.mpr ⟨key, List.mem_append_right _ member, rfl⟩
  have unordered : ∀ key ∈ offSheetKeys records day simulated,
      key ∉ simulated.map Simulated.key := fun key member => (mem_offSheetKeys.mp member).2
  have recorded : ∀ key ∈ offSheetKeys records day simulated, key ∈ records.keys day :=
    fun key member => (List.mem_filter.mp ((List.mem_insertionSort _).mp member)).1
  generalize plan : bookingSteps simulated (offSheetKeys records day simulated)
    (clocksOf (sessionKeys records day simulated)) = l at steps
  have members : ∀ done rest step, l = done ++ step :: rest → ∀ x, step = .inl x → x ∈ simulated := by
    intro done rest step whole x here
    exact ordersOf_subset (plan.trans whole) (.inr (by simp [here]))
  have trades : ∀ done rest, l = done ++ rest → ∀ key ∈ tradesOf done,
      key ∈ offSheetKeys records day simulated := by
    intro done rest whole key member
    apply (mem_tradesOf coveredTrades).mp
    rw [plan, whole, tradesOf_append]
    exact List.mem_append_left _ member
  -- What every step keeps of the account.
  let Kept := fun (done : List (Simulated ⊕ OrderKey)) (s : Applying) =>
    s.AlongOf day b.profile (morning opened day) ∧ SoldAlike records late day done s
  have start' : Kept [] ⟨b, [], []⟩ :=
    ⟨⟨start, rfl⟩, ⟨by simp, fun symbol _ _ => by simp [Applying.executions]⟩⟩
  have keeps : ∀ done step rest s s', l = done ++ step :: rest →
      bookStep records late day simulated s step = .ok s' → Kept done s → Kept (done ++ [step]) s' := by
    rintro done step rest s s' whole run ⟨along, alike⟩
    have member := members done rest step whole
    exact ⟨bookStep_alongOf rows member along run, bookStep_soldAlike rows member along alike run⟩
  intro record resolved
  by_cases inKeys : key ∈ sessionKeys records day simulated
  swap
  · -- No order and no record: nothing resolves.
    have absent : (sessionLedger (sessionKeys records day simulated) simulated s.booked).get? key =
        none := by
      cases found : (sessionLedger (sessionKeys records day simulated) simulated s.booked).get? key with
      | none => rfl
      | some entry => exact absurd (sessionLedger_get? found).1 inKeys
    rw [absent] at resolved
    simp only [sessionKeys, List.mem_append, not_or] at inKeys
    have none : records.fills.get? (day, key) = none := by
      by_contra some
      obtain ⟨found, here⟩ := Option.ne_none_iff_exists'.mp some
      exact inKeys.2 (mem_offSheetKeys.mpr ⟨⟨found, here⟩, inKeys.1⟩)
    simp [resolve, none, emptyEntry] at resolved
  rw [sessionLedger_get?_of_mem inKeys] at resolved ⊢
  simp only [Option.getD_some] at resolved ⊢
  by_cases ordered : key ∈ simulated.map Simulated.key
  · have shares : (ledgerEntry simulated s.booked key).ordered ≠ 0 :=
      orderedShares_ne_zero.mpr ordered
    rw [decide_eq_true shares] at resolved
    have agrees : ∀ x ∈ simulated, x.key = key → ∀ own,
        resolve records (orderSession x.1) x.key true (orderSession x.1 ∈ late) = some own →
        own.outcome = record.outcome := by
      intro x member here own found
      subst here
      exact lasts.dated x.1 (List.mem_map_of_mem member) own found record resolved
    have booked : Kept l s ∧ KeyBooked b.profile day key record.outcome l s := by
      refine foldlM_along (P := fun done s => Kept done s ∧
        KeyBooked b.profile day key record.outcome done s) ?_ steps
        ⟨start', ⟨fun _ => ⟨by simp, rfl⟩, fun _ => .inl ⟨rfl, by simp, rfl⟩⟩⟩
      rintro done step rest t t' whole run ⟨kept, soFar⟩
      refine ⟨keeps done step rest t t' whole run kept, ?_⟩
      refine bookStep_keyBooked rows (members done rest step whole) kept.1 ?_ agrees ?_ soFar run
      · intro key' here equal
        subst here equal
        exact unordered key' (trades (done ++ [.inr key']) rest (by simp [whole]) key' (by simp))
          ordered
      · intro x here stands e tax symbolEq actionEq filled quantity
        subst here
        exact tax_inStep rows taxes ascending covered unordered recorded
          (trades done _ whole) (plan.trans whole) kept.2 lasts stands tax symbolEq actionEq filled
          quantity
    have all : (ordersOf l).filter (isOf key) = simulated.filter (isOf key) := by
      rw [← plan]
      refine ordersOf_filter _ ascending covered (List.pairwise_of_forall_mem_list ?_)
      intro x here y there
      have first := of_decide_eq_true (List.mem_filter.mp here).2
      have second := of_decide_eq_true (List.mem_filter.mp there).2
      exact (congrArg OrderKey.clock (first.trans second.symm)).le
    by_cases said : record.outcome = .simulated
    · obtain ⟨-, figures⟩ := booked.2.simulated said
      refine ⟨(ledgerEntry simulated s.booked key).simulated, by simp [targetOutcome, said], ?_⟩
      apply outcome_same
      rw [figures, all, List.map_map]
      rfl
    · rcases booked.2.recorded said with ⟨none, -, -⟩ | ⟨-, -, e, only, stands⟩
      · obtain ⟨x, member, here⟩ := List.mem_map.mp ordered
        rw [all, List.filter_eq_nil_iff] at none
        exact absurd (decide_eq_true here) (none x member)
      · exact upToDate_of_standsFor stands said (congrArg outcome only)
  · have shares : ¬ (ledgerEntry simulated s.booked key).ordered ≠ 0 :=
      fun some => ordered (orderedShares_ne_zero.mp some)
    rw [decide_eq_false shares] at resolved
    have found : records.fills.get? (day, key) = some record := by
      unfold resolve at resolved
      split at resolved
      · rename_i found here
        rw [here, resolved]
      · simp at resolved
    have inTrades : key ∈ tradesOf l := by
      rw [← plan, mem_tradesOf coveredTrades]
      exact mem_offSheetKeys.mpr ⟨⟨record, found⟩, ordered⟩
    have distinct : (tradesOf l).Nodup := by
      rw [← plan]
      exact tradesOf_nodup ascending (offSheetKeys_nodup _ _ _)
    have booked : Kept l s ∧ KeyTraded b.profile day key record.outcome l s := by
      refine foldlM_along (P := fun done s => Kept done s ∧
        KeyTraded b.profile day key record.outcome done s) ?_ steps
        ⟨start', ⟨fun _ _ => .inl ⟨by simp, rfl⟩, fun _ => rfl⟩⟩
      rintro done step rest t t' whole run ⟨kept, soFar⟩
      exact ⟨keeps done step rest t t' whole run kept,
        bookStep_keyTraded rows (members done rest step whole) kept.1 ordered (whole ▸ distinct)
          found soFar run⟩
    have noSimulated : (ledgerEntry simulated s.booked key).simulated = nothing := by
      have none : ofKey simulated key = [] := by
        refine List.filter_eq_nil_iff.mpr fun x member here => ordered ?_
        exact of_decide_eq_true here ▸ List.mem_map_of_mem member
      simp [ledgerEntry, none, nothing]
    cases said : record.outcome with
    | filled fill =>
      rcases booked.2.filled fill said with ⟨absent, -⟩ | ⟨-, e, only, stands⟩
      · exact absurd inTrades absent
      · exact upToDate_of_standsFor stands (by simp [said]) (congrArg outcome only)
    | simulated =>
      have none := booked.2.unfilled (by simp [said])
      refine ⟨(ledgerEntry simulated s.booked key).simulated, by simp only [targetOutcome, said], ?_⟩
      rw [noSimulated]
      simp only [ledgerEntry, none]
      exact same_refl nothing
    | notTraded =>
      have none := booked.2.unfilled (by simp [said])
      refine ⟨nothing, by simp only [targetOutcome, said], ?_⟩
      simp only [ledgerEntry, none]
      exact same_refl nothing

end AutoTrade
