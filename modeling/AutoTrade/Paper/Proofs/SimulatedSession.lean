import AutoTrade.Misc.Sorted
import AutoTrade.Paper.Engine
import AutoTrade.Paper.Proofs.RecordFill
import Mathlib.Data.List.Dedup

/-!
# A session recorded as simulated

Settled from records that all say "simulated", a session leaves the account and
the rows the simulator leaves, a ledger whose real outcomes are the simulated
ones, and nothing to correct.
-/

namespace AutoTrade

open DailyBroker

/-- Every record in force is "as simulated". -/
structure Records.Simulated (records : Records) : Prop where
  sessions : ∀ day r, records.sessions.get? day = some r → r.outcome = .simulated
  fills : ∀ k r, records.fills.get? k = some r → r.outcome = .simulated

/-- Whether a record covers an order key of a session. -/
def Records.hasOutcome (records : Records) (day : Nat) (key : OrderKey) : Bool :=
  (records.fills.get? (day, key)).isSome || (records.sessions.get? day).isSome

/-- A line that switches the book or says "as simulated". -/
def RecordLine.isSimulated : RecordLine → Bool
  | .enable => true
  | .session _ _ outcome => outcome = .simulated
  | .fill line => line.outcome = .simulated

variable {records : Records}

theorem Records.Simulated.read (h : records.Simulated) {line : RecordLine}
    (simulated : line.isSimulated = true) : (records.read line).Simulated := by
  cases line with
  | enable => exact ⟨h.sessions, h.fills⟩
  | session eventId day outcome =>
    refine ⟨fun day' r found => ?_, h.fills⟩
    simp only [Records.read, Dict.get?_set] at found
    split_ifs at found
    · obtain rfl := Option.some.inj found
      simp only [RecordLine.isSimulated, decide_eq_true_eq] at simulated
      rw [simulated]
      rfl
    · exact h.sessions day' r found
  | fill line =>
    refine ⟨h.sessions, fun k r found => ?_⟩
    simp only [Records.read, Dict.get?_set] at found
    split_ifs at found
    · obtain rfl := Option.some.inj found
      simpa [RecordLine.isSimulated] using simulated
    · exact h.fills k r found

variable {day : Nat} {key : OrderKey}

theorem Records.hasOutcome_read (h : records.hasOutcome day key = true) (line : RecordLine) :
    (records.read line).hasOutcome day key = true := by
  cases line with
  | enable => exact h
  | session eventId day' outcome =>
    simp only [hasOutcome, Records.read, Dict.get?_set, Bool.or_eq_true] at h ⊢
    rcases h with h | h
    · exact .inl h
    · by_cases same : day' = day <;> simp [same, h]
  | fill line =>
    simp only [hasOutcome, Records.read, Dict.get?_set, Bool.or_eq_true] at h ⊢
    rcases h with h | h
    · by_cases same : (line.tradeDate, line.key) = (day, key) <;> simp [same, h]
    · exact .inr h

theorem readRecords_append (lines : List RecordLine) (line : RecordLine) :
    readRecords (lines ++ [line]) = (readRecords lines).read line := by
  simp [readRecords]

theorem readRecords_simulated {lines : List RecordLine}
    (h : ∀ line ∈ lines, line.isSimulated = true) : (readRecords lines).Simulated := by
  induction lines using List.reverseRecOn with
  | nil => exact ⟨by simp [readRecords, Records.empty], by simp [readRecords, Records.empty]⟩
  | append_singleton lines line ih =>
    rw [readRecords_append]
    exact (ih fun l member => h l (List.mem_append_left _ member)).read
      (h line (by simp))

theorem resolve_of_hasOutcome (simulated : records.Simulated)
    (has : records.hasOutcome day key = true) (late : Bool) :
    ∃ record, resolve records day key true late = some record ∧ record.outcome = .simulated := by
  unfold resolve
  cases fill : records.fills.get? (day, key) with
  | some record => exact ⟨record, rfl, simulated.fills _ _ fill⟩
  | none =>
    cases session : records.sessions.get? day with
    | some record => exact ⟨record, rfl, simulated.sessions _ _ session⟩
    | none => simp [Records.hasOutcome, fill, session] at has

theorem resolve_unordered (simulated : records.Simulated) {late : Bool} {record : Record}
    (h : resolve records day key false late = some record) : record.outcome = .simulated := by
  unfold resolve at h
  cases fill : records.fills.get? (day, key) with
  | some r =>
    rw [fill] at h
    obtain rfl := Option.some.inj h
    exact simulated.fills _ _ fill
  | none => simp [fill] at h

theorem isSymbolCode_parses (code : isSymbolCode key.symbol = true) : key.parses = true := by
  unfold isSymbolCode at code
  unfold OrderKey.parses
  split at code
  · rename_i text
    rw [text]
    simp only [Bool.and_eq_true, List.all_cons, List.all_nil] at code
    have digit : ∀ c : Char, c.isDigit = true → ' ' ≠ c := fun c isDigit equal => by
      subst equal
      exact absurd isDigit (by decide)
    obtain ⟨⟨da, db, dc, dd, de, df, -⟩, market⟩ := code
    simp only [List.contains_iff_mem, List.mem_cons, List.cons.injEq, List.not_mem_nil, or_false,
      and_true] at market
    simp only [List.mem_cons, List.not_mem_nil, or_false, not_or, decide_eq_true_eq]
    refine ⟨digit _ da, digit _ db, digit _ dc, digit _ dd, digit _ de, digit _ df, by decide, ?_⟩
    rcases market with ⟨rfl, rfl⟩ | ⟨rfl, rfl⟩ | ⟨rfl, rfl⟩ <;> decide
  · cases code

theorem readRecords_parse (lines : List RecordLine) {k : Nat × OrderKey} {r : Record}
    (h : (readRecords lines).fills.get? k = some r) : k.2.parses = true := by
  induction lines using List.reverseRecOn generalizing r with
  | nil => simp [readRecords, Records.empty] at h
  | append_singleton lines line ih =>
    rw [readRecords_append] at h
    cases line with
    | enable => exact ih h
    | session eventId day outcome => exact ih h
    | fill line =>
      simp only [Records.read, Dict.get?_set] at h
      split_ifs at h with same
      · exact same ▸ isSymbolCode_parses line.symbol_code
      · exact ih h

/-- The simulator takes the account from one to the other through the orders,
every account on the way satisfying `P`. -/
inductive Executed (data : PaperData) (P : DailyBroker → Prop) :
    DailyBroker → List Simulated → DailyBroker → Prop where
  | nil {b : DailyBroker} (holds : P b) : Executed data P b [] b
  | cons {b b' b'' : DailyBroker} {order : StrategyOrder} {e : Execution} {rest : List Simulated}
      (holds : P b)
      (first : executeOrder data b order = .ok (b', e))
      (later : Executed data P b' rest b'') : Executed data P b ((order, e) :: rest) b''

namespace Executed

variable {data : PaperData} {P : DailyBroker → Prop} {b b' : DailyBroker}

theorem start {xs : List Simulated} (h : Executed data P b xs b') : P b := by
  cases h <;> assumption

theorem finish {xs : List Simulated} (h : Executed data P b xs b') : P b' := by
  induction h with
  | nil holds => exact holds
  | cons _ _ _ ih => exact ih

theorem split {xs ys : List Simulated} (h : Executed data P b (xs ++ ys) b') :
    ∃ m, Executed data P b xs m ∧ Executed data P m ys b' := by
  induction xs generalizing b with
  | nil => exact ⟨b, .nil h.start, h⟩
  | cons x xs ih =>
    cases h with
    | cons holds first later =>
      obtain ⟨m, left, right⟩ := ih later
      exact ⟨m, .cons holds first left, right⟩

end Executed

/-- The accounts the simulator goes through as it executes the due orders. -/
def simulatedAccounts (data : PaperData) : DailyBroker → List StrategyOrder → List DailyBroker
  | b, [] => [b]
  | b, order :: rest =>
    b ::
      match executeOrder data b order with
      | .error _ => []
      | .ok (b', _) => simulatedAccounts data b' rest

variable {due : List StrategyOrder}

theorem foldlM_executeDue {data : PaperData} {P : DailyBroker → Prop} {b b' : DailyBroker}
    {before simulated : List Simulated}
    (holds : ∀ account ∈ simulatedAccounts data b due, P account)
    (h : due.foldlM (executeDue data) (b, before) = .ok (b', simulated)) :
    ∃ xs, simulated = before ++ xs ∧ xs.map Prod.fst = due ∧ Executed data P b xs b' := by
  induction due generalizing b before with
  | nil =>
    have done := (foldlM_nil _ _ _).mp h
    simp only [Prod.mk.injEq] at done
    obtain ⟨rfl, rfl⟩ := done
    exact ⟨[], by simp, rfl, .nil (holds b (by simp [simulatedAccounts]))⟩
  | cons order rest ih =>
    obtain ⟨⟨b₁, s₁⟩, first, later⟩ := foldlM_cons_eq_ok.mp h
    obtain ⟨⟨b₂, e⟩, executed, left⟩ := except_map_eq_ok.mp first
    simp only [Prod.mk.injEq] at left
    obtain ⟨rfl, rfl⟩ := left
    have along : ∀ account ∈ simulatedAccounts data b₂ rest, P account := fun account member =>
      holds account (by
        rw [simulatedAccounts, executed]
        exact List.mem_cons_of_mem _ member)
    obtain ⟨xs, rfl, orders, runs⟩ := ih along later
    refine ⟨(order, e) :: xs, by simp, by simp [orders], .cons ?_ executed runs⟩
    exact holds b (by simp [simulatedAccounts])

variable {simulated : List Simulated}

theorem executeAll_executed {data : PaperData} {P : DailyBroker → Prop} {b b' : DailyBroker}
    (holds : ∀ account ∈ simulatedAccounts data b due, P account)
    (h : executeAll data b due = .ok (b', simulated)) :
    simulated.map Prod.fst = due ∧ Executed data P b simulated b' := by
  obtain ⟨xs, rfl, orders, runs⟩ := foldlM_executeDue holds h
  exact ⟨orders, by simpa using runs⟩

/-- The price an order fills at where nothing stops it. -/
def orderFillPrice (data : PaperData) (profile : BrokerProfile) (order : StrategyOrder) :
    Option ℚ :=
  match resolveExecutionPrice data.market order data.executionPrice with
  | (some bar, raw) => (price raw).bind fun base => (fillPriceOf profile order bar base).toOption
  | (none, _) => none

/-- Whether the price an order would fill at is beyond `record_fill`'s tolerance. -/
def pricedBeyondBand (data : PaperData) (profile : BrokerProfile) (order : StrategyOrder) : Bool :=
  (orderFillPrice data profile order).all fun p => beyondBand order.action p

theorem execute_price {data : PaperData} {b b' : DailyBroker} {order : StrategyOrder}
    {e : Execution}
    (h : executeOrder data b order = .ok (b', e)) (filled : e.isFilled = true)
    (beyond : pricedBeyondBand data b.profile order = true) :
    ∃ p, e.price = some p ∧ beyondBand order.action p = true := by
  rcases execute_cases h with ⟨reason, left⟩ | ⟨dayBar, base, p, -, bar, raw, reached, fills⟩
  · simp only [Prod.mk.injEq] at left
    simp [left.2, rejection, Execution.isFilled] at filled
  refine ⟨p, (fillAt_filled fills filled).2.1, ?_⟩
  unfold pricedBeyondBand orderFillPrice at beyond
  cases resolved : resolveExecutionPrice data.market order data.executionPrice with
  | mk bar' raw' =>
    rw [resolved] at bar raw beyond
    dsimp only at bar raw
    subst bar
    simpa [raw, reached, Except.toOption] using beyond

/-- The row a simulated execution is journaled as. -/
def simulatedRow (x : Simulated) : OrderKey × ExecutionRow := (x.key, { execution := x.2 })

/-- What a due order must meet for its record to reproduce it. -/
structure Reproducible (records : Records) (data : PaperData) (profile : BrokerProfile) (day : Nat)
    (order : StrategyOrder) : Prop where
  own : records.hasOutcome (orderSession order) (orderKey order) = true
  settled : records.hasOutcome day (orderKey order) = true
  parses : (orderKey order).parses = true
  beyond : pricedBeyondBand data profile order = true

theorem applyOrders_reproduce (late : List Nat) {data : PaperData} {P : DailyBroker → Prop}
    (simulated : List Simulated) {xs : List Simulated} {b b' : DailyBroker}
    (booked : List (OrderKey × ExecutionRow)) (asSimulated : records.Simulated)
    (orders : ∀ x ∈ xs, Reproducible records data b.profile day x.1)
    (runs : Executed data P b xs b') :
    xs.foldlM (applyOrder records late simulated) ⟨b, booked, []⟩ =
      .ok ⟨b', booked ++ xs.map simulatedRow, []⟩ ∧ b'.profile = b.profile := by
  induction runs generalizing booked with
  | nil => exact ⟨by simp, rfl⟩
  | @cons b b₁ b₂ order e rest holds first later ih =>
    have here := orders (order, e) List.mem_cons_self
    have frame := execute_frame first
    have profile : b₁.profile = b.profile := frame.profile_eq
    obtain ⟨record, resolved, outcome⟩ :=
      resolve_of_hasOutcome asSimulated here.own (orderSession order ∈ late)
    have step : applyOrder records late simulated ⟨b, booked, []⟩ (order, e) =
        .ok ⟨b₁, booked ++ [simulatedRow (order, e)], []⟩ := by
      unfold applyOrder
      rw [if_neg (List.not_mem_nil)]
      dsimp only [Simulated.key]
      rw [resolved]
      dsimp only
      rw [outcome]
      dsimp only
      by_cases filled : e.isFilled = true
      · obtain ⟨p, priced, beyond⟩ := execute_price first filled here.beyond
        rw [if_pos filled, priced]
        dsimp only
        rw [recordFill_reproduces first filled priced beyond]
        rfl
      · rw [if_neg filled]
        -- An order that does not fill leaves the account.
        have left : b₁ = b := by
          rcases execute_cases first with ⟨_, left⟩ | ⟨_, _, _, -, -, -, -, fills⟩
          · exact (Prod.mk.inj left).1
          · obtain ⟨_, _, _, -, -, cases⟩ := fillAt_cases fills
            rcases cases with ⟨-, -, left⟩ | ⟨_, -, -, left⟩ | ⟨_, _, _, -, -, left⟩
            · exact (Prod.mk.inj left).1
            · exact absurd (by rw [(Prod.mk.inj left).2]; rfl) filled
            · exact absurd (by rw [(Prod.mk.inj left).2]; rfl) filled
        rw [left]
        rfl
    obtain ⟨rest', profile'⟩ := ih (booked ++ [simulatedRow (order, e)]) fun x member =>
      profile ▸ orders x (List.mem_cons_of_mem _ member)
    refine ⟨foldlM_cons_eq_ok.mpr ⟨_, step, ?_⟩, profile'.trans profile⟩
    rw [rest']
    simp

theorem applyOffSheet_simulated (asSimulated : records.Simulated) (day : Nat)
    (keys : List OrderKey) (s : Applying) :
    keys.foldlM (applyOffSheet records day) s = .ok s := by
  induction keys with
  | nil => simp
  | cons key keys ih =>
    refine foldlM_cons_eq_ok.mpr ⟨s, ?_, ih⟩
    unfold applyOffSheet
    cases found : records.fills.get? (day, key) with
    | none => rfl
    | some record =>
      dsimp only
      rw [asSimulated.fills _ _ found]

theorem applyClocks_reproduce (late : List Nat) {data : PaperData} (simulated : List Simulated)
    (xs : List Simulated) {b b' : DailyBroker} (booked : List (OrderKey × ExecutionRow))
    {clocks : List Nat} (asSimulated : records.Simulated)
    (orders : ∀ x ∈ xs, Reproducible records data b.profile day x.1)
    (runs : Executed data (fun account => 0 ≤ account.cash) b xs b')
    (sorted : xs.Pairwise fun x y => x.key.clock ≤ y.key.clock)
    (ascending : clocks.Pairwise (· < ·)) (covered : ∀ x ∈ xs, x.key.clock ∈ clocks)
    (parts : ∀ c ∈ clocks, simulated.filter (fun x => x.key.clock = c) =
      xs.filter (fun x => x.key.clock = c)) :
    clocks.foldlM (applyClock records late day simulated) ⟨b, booked, []⟩ =
      .ok ⟨b', booked ++ xs.map simulatedRow, []⟩ := by
  induction clocks generalizing xs b booked with
  | nil =>
    have none : xs = [] := List.eq_nil_iff_forall_not_mem.mpr fun x member =>
      absurd (covered x member) (List.not_mem_nil)
    subst none
    cases runs
    simp
  | cons c clocks ih =>
    obtain ⟨later, ascending⟩ := List.pairwise_cons.mp ascending
    have least : ∀ x ∈ xs, c ≤ x.key.clock := fun x member => by
      rcases List.mem_cons.mp (covered x member) with here | there
      · exact here.ge
      · exact (later _ there).le
    have together := filter_append_filter_ne (f := fun x : Simulated => x.key.clock) sorted least
    rw [← together] at runs
    obtain ⟨m, now, after⟩ := runs.split
    obtain ⟨applied, profile⟩ := applyOrders_reproduce late simulated booked asSimulated
      (fun x member => orders x (List.mem_filter.mp member).1) now
    have step : applyClock records late day simulated ⟨b, booked, []⟩ c =
        .ok ⟨m, booked ++ (xs.filter fun x => x.key.clock = c).map simulatedRow, []⟩ := by
      unfold applyClock
      rw [parts c List.mem_cons_self, applied]
      refine bind_eq_ok.mpr ⟨_, rfl, ?_⟩
      rw [applyOffSheet_simulated asSimulated]
      refine bind_eq_ok.mpr ⟨_, rfl, ?_⟩
      have funded : ¬ m.cash < -(1 / 1000000) := by
        have := now.finish
        linarith
      simp only [checkCash, if_neg funded]
    have rest := ih (xs.filter fun x => x.key.clock ≠ c)
      (booked ++ (xs.filter fun x => x.key.clock = c).map simulatedRow)
      (fun x member => profile ▸ orders x (List.mem_filter.mp member).1) after
      (sorted.sublist List.filter_sublist) ascending
      (fun x member => by
        obtain ⟨inList, different⟩ := List.mem_filter.mp member
        rcases List.mem_cons.mp (covered x inList) with here | there
        · simp [here] at different
        · exact there)
      (fun c' member => by
        have different : c' ≠ c := (later c' member).ne'
        rw [parts c' (List.mem_cons_of_mem _ member),
          filter_filter_ne (f := fun x : Simulated => x.key.clock) different])
    refine foldlM_cons_eq_ok.mpr ⟨_, step, ?_⟩
    rw [rest, List.append_assoc, ← List.map_append, together]

theorem clocksOf_ascending (keys : List OrderKey) : (clocksOf keys).Pairwise (· < ·) := by
  have sorted : (clocksOf keys).Pairwise (· ≤ ·) := List.pairwise_insertionSort _ _
  have nodup : (clocksOf keys).Nodup :=
    (List.perm_insertionSort _ _).nodup_iff.mpr (List.nodup_dedup _)
  exact (sorted.and nodup).imp fun ⟨le, ne⟩ => lt_of_le_of_ne le ne

theorem mem_clocksOf {keys : List OrderKey} {c : Nat} :
    c ∈ clocksOf keys ↔ ∃ key ∈ keys, key.clock = c := by
  simp [clocksOf]

/-- The ledger entries of a session recorded as simulated: real is simulated, and
a record covers every ordered key. -/
structure Entry.Reproduced (records : Records) (day : Nat) (key : OrderKey) (entry : Entry) :
    Prop where
  real_eq : entry.real = entry.simulated
  hasOutcome : entry.ordered ≠ 0 → records.hasOutcome day key = true

theorem ledgerEntry_reproduced {data : PaperData} {profile : BrokerProfile}
    (orders : ∀ x ∈ simulated, Reproducible records data profile day x.1) :
    (ledgerEntry simulated (simulated.map simulatedRow) key).Reproduced records day key := by
  refine ⟨?_, fun ordered => ?_⟩
  · simp only [ledgerEntry, realOf, ofKey, List.filter_map, List.map_map]
    rfl
  · by_contra silent
    have none : ofKey simulated key = [] := List.filter_eq_nil_iff.mpr fun x member here => by
      have here : x.key = key := by simpa using here
      exact silent (here ▸ (orders x member).settled)
    simp [ledgerEntry, orderedShares, none] at ordered

variable {late : List Nat}

theorem applyDay_reproduces {data : PaperData} {b b' : DailyBroker}
    (asSimulated : records.Simulated)
    (orders : ∀ x ∈ simulated, Reproducible records data b.profile day x.1)
    (sorted : simulated.Pairwise fun x y => x.key.clock ≤ y.key.clock)
    (codes : ∀ k r, records.fills.get? k = some r → k.2.parses = true)
    (runs : Executed data (fun account => 0 ≤ account.cash) b simulated b') :
    applyDay records late b day simulated =
      .ok (b', simulated.map fun x => { execution := x.2 },
        sessionLedger (sessionKeys records day simulated) simulated
          (simulated.map simulatedRow)) := by
  have parsed : (sessionKeys records day simulated).find? (fun key => !key.parses) = none := by
    refine List.find?_eq_none.mpr fun key member => ?_
    rcases List.mem_append.mp member with ordered | offSheet
    · obtain ⟨x, inDay, rfl⟩ := List.mem_map.mp ordered
      simpa [Simulated.key] using (orders x inDay).parses
    · have recorded := (List.mem_filter.mp ((List.mem_insertionSort _).mp offSheet)).1
      obtain ⟨k, inFills, rfl⟩ := List.mem_map.mp recorded
      have here := (List.mem_filter.mp inFills).1
      obtain ⟨entry, inEntries, rfl⟩ := List.mem_map.mp here
      simpa using codes entry.1 entry.2 (Dict.mem_entries_iff.mp inEntries)
  have clocks := applyClocks_reproduce late simulated simulated [] asSimulated orders runs
    sorted (clocksOf_ascending (sessionKeys records day simulated))
    (fun x member => mem_clocksOf.mpr ⟨x.key, List.mem_append_left _ (List.mem_map_of_mem member),
      rfl⟩) (fun _ _ => rfl)
  unfold applyDay
  dsimp only
  rw [parsed]
  dsimp only
  rw [clocks]
  simp only [Except.map, List.nil_append, List.map_map]
  rfl

/-- Every entry of every settled session is reproduced. -/
def SessionsReproduced (records : Records) (sessions : Dict Nat Ledger) : Prop :=
  ∀ day ledger, sessions.get? day = some ledger → ∀ key entry, Dict.get? ledger key = some entry →
    entry.Reproduced records day key

theorem same_refl (o : Outcome) : same o o = true := by
  simp [same, cent]

variable {history : List (Nat × CorporateAction)}

theorem correctKey_reproduced {day session : Nat} {s : Correcting}
    (asSimulated : records.Simulated) (reproduced : SessionsReproduced records s.sessions) :
    correctKey records late history day session s key = .ok s := by
  have entry : (s.entry session key).Reproduced records session key := by
    unfold Correcting.entry
    have none : emptyEntry.Reproduced records session key :=
      ⟨rfl, fun ordered => absurd rfl ordered⟩
    cases ledger : s.sessions.get? session with
    | none => simpa using none
    | some ledger' =>
      cases found : Dict.get? ledger' key with
      | none => simpa [found] using none
      | some entry => simpa [found] using reproduced session ledger' ledger key entry found
  unfold correctKey
  dsimp only
  cases resolved : resolve records session key ((s.entry session key).ordered ≠ 0)
      (session ∈ late) with
  | none => rfl
  | some record =>
    have outcome : record.outcome = .simulated := by
      by_cases ordered : (s.entry session key).ordered = 0
      · simp only [ordered, ne_eq, not_true_eq_false, decide_false] at resolved
        exact resolve_unordered asSimulated resolved
      · obtain ⟨record', resolved', outcome⟩ :=
          resolve_of_hasOutcome asSimulated (entry.hasOutcome ordered) (session ∈ late)
        simp only [ordered, ne_eq, not_false_eq_true, decide_true] at resolved
        exact Option.some.inj (resolved.symm.trans resolved') ▸ outcome
    simp only [targetOutcome, outcome, entry.real_eq, same_refl, if_true]

theorem corrections_reproduced {b : DailyBroker} {mode : Mode} (asSimulated : records.Simulated)
    (reproduced : SessionsReproduced records mode.sessions) :
    corrections records late history b mode day = .ok ⟨b, mode.sessions, []⟩ := by
  have keys : ∀ (session : Nat) (keys : List OrderKey),
      keys.foldlM (correctKey records late history day session) ⟨b, mode.sessions, []⟩ =
        .ok ⟨b, mode.sessions, []⟩ := by
    intro session keys
    induction keys with
    | nil => simp
    | cons key keys ih =>
      exact foldlM_cons_eq_ok.mpr ⟨_, correctKey_reproduced asSimulated reproduced, ih⟩
  unfold corrections
  generalize mode.sessions.keys.insertionSort (· ≤ ·) = sessions
  induction sessions with
  | nil => simp
  | cons session sessions ih => exact foldlM_cons_eq_ok.mpr ⟨_, keys session _, ih⟩

theorem SessionsReproduced.set {records : Records} {sessions : Dict Nat Ledger}
    (reproduced : SessionsReproduced records sessions) {day : Nat} {ledger : Ledger}
    (here : ∀ key entry, Dict.get? ledger key = some entry → entry.Reproduced records day key) :
    SessionsReproduced records (sessions.set day ledger) := by
  intro day' ledger' found key entry inLedger
  rw [Dict.get?_set] at found
  split_ifs at found with same
  · subst same
    obtain rfl := Option.some.inj found
    exact here key entry inLedger
  · exact reproduced day' ledger' found key entry inLedger

theorem settleRecorded_reproduces (late : List Nat) (history : List (Nat × CorporateAction))
    {data : PaperData} {mode : Mode} {b b' : DailyBroker} (asSimulated : records.Simulated)
    (reproduced : SessionsReproduced records mode.sessions)
    (orders : ∀ x ∈ simulated, Reproducible records data b.profile day x.1)
    (sorted : simulated.Pairwise fun x y => x.key.clock ≤ y.key.clock)
    (codes : ∀ k r, records.fills.get? k = some r → k.2.parses = true)
    (runs : Executed data (fun account => 0 ≤ account.cash) b simulated b') :
    ∃ settled, settleRecorded records late history b mode day simulated = .ok settled ∧
      settled.broker = b' ∧ settled.rows = simulated.map (fun x => { execution := x.2 }) ∧
      settled.corrections = [] ∧ settled.mode.after = mode.after ∧
      SessionsReproduced records settled.mode.sessions := by
  refine ⟨⟨b', { mode with sessions := mode.sessions.set day (sessionLedger
    (sessionKeys records day simulated) simulated (simulated.map simulatedRow)) },
    simulated.map (fun x => { execution := x.2 }), []⟩, ?_, rfl, rfl, rfl, rfl, ?_⟩
  · unfold settleRecorded
    rw [corrections_reproduced asSimulated reproduced]
    refine bind_eq_ok.mpr ⟨_, rfl, ?_⟩
    dsimp only
    rw [applyDay_reproduces asSimulated orders sorted codes runs]
    rfl
  · refine reproduced.set fun key entry found => ?_
    obtain ⟨-, rfl⟩ := sessionLedger_get? found
    exact ledgerEntry_reproduced orders

end AutoTrade
