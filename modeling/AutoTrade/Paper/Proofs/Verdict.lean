import Mathlib.Algebra.Group.Prod
import AutoTrade.Paper.Proofs.Idempotent
import AutoTrade.Paper.Verdict

/-!
# The verdict's fills agree with the ledger

What `_corrected` makes of the journals is held against the fill ledger: the
rows kept and the fills held are sorted by the session that settled them, and
the journals are shown to hold, for every key never corrected, what the ledger
says it came to.
-/

namespace AutoTrade

open DailyBroker

/-- The shares filled and what they came to. -/
def netOf (executions : List Execution) : Int × ℚ :=
  (((executions.filter Execution.isFilled).map Execution.quantity).sum,
    ((executions.filter Execution.isFilled).map Execution.notional).sum)

def Outcome.net (o : Outcome) : Int × ℚ := (o.quantity, o.notional)

theorem outcome_net (executions : List Execution) :
    (outcome executions).net = netOf executions := rfl

@[simp] theorem nothing_net : nothing.net = 0 := rfl

@[simp] theorem netOf_nil : netOf [] = 0 := rfl

theorem netOf_append (executions executions' : List Execution) :
    netOf (executions ++ executions') = netOf executions + netOf executions' := by
  simp [netOf]

theorem netOf_perm {executions executions' : List Execution}
    (perm : executions.Perm executions') : netOf executions = netOf executions' := by
  have filled := perm.filter Execution.isFilled
  exact Prod.ext (filled.map _).sum_eq (filled.map _).sum_eq

variable {executions : List Execution}

theorem netOf_eq_zero (unfilled : ∀ e ∈ executions, e.isFilled = false) : netOf executions = 0 := by
  have none : executions.filter Execution.isFilled = [] :=
    List.filter_eq_nil_iff.mpr fun e member => by simp [unfilled e member]
  simp [netOf, none]

theorem unfilled_of_netOf (shares : ∀ e ∈ executions, e.isFilled = true → 0 < e.quantity)
    (none : netOf executions = 0) : ∀ e ∈ executions, e.isFilled = false := by
  intro e member
  by_contra filled
  have some : executions.filter Execution.isFilled ≠ [] :=
    List.ne_nil_of_mem (List.mem_filter.mpr ⟨member, by simpa using filled⟩)
  have positive := sum_quantity_pos _ (fun e member => shares e (List.mem_filter.mp member).1
    (List.mem_filter.mp member).2) some
  exact positive.ne' (congrArg Prod.fst none)

/-- The rows a session settled under a key. -/
def rowsUnder (k : Nat × OrderKey) (rows : List JournalRow) : List JournalRow :=
  rows.filter fun row => row.filed = k

theorem rowsUnder_append (k : Nat × OrderKey) (rows rows' : List JournalRow) :
    rowsUnder k (rows ++ rows') = rowsUnder k rows ++ rowsUnder k rows' := List.filter_append ..

variable {k : Nat × OrderKey} {rows : List JournalRow}

theorem rowsUnder_eq_nil (other : ∀ row ∈ rows, row.filed ≠ k) : rowsUnder k rows = [] :=
  List.filter_eq_nil_iff.mpr fun row member => by simp [other row member]

theorem rowsUnder_eq_self (all : ∀ row ∈ rows, row.filed = k) : rowsUnder k rows = rows :=
  List.filter_eq_self.mpr fun row member => by simp [all row member]

/-- The shares and notional a session settled under a key. -/
def netUnder (k : Nat × OrderKey) (rows : List JournalRow) : Int × ℚ :=
  netOf ((rowsUnder k rows).map JournalRow.execution)

theorem netUnder_append (k : Nat × OrderKey) (rows rows' : List JournalRow) :
    netUnder k (rows ++ rows') = netUnder k rows + netUnder k rows' := by
  simp [netUnder, rowsUnder_append, netOf_append]

theorem netUnder_perm {rows rows' : List JournalRow} (perm : rows.Perm rows')
    (k : Nat × OrderKey) : netUnder k rows = netUnder k rows' :=
  netOf_perm ((perm.filter _).map _)

section Corrected

variable {corrected : List (Nat × OrderKey)} {held : Dict (Nat × OrderKey) (List JournalRow)}

/-- Every held fill stands under its own session and key. -/
def HeldFiled (held : Dict (Nat × OrderKey) (List JournalRow)) : Prop :=
  ∀ k fills, held.get? k = some fills → ∀ row ∈ fills, row.filed = k

theorem HeldFiled.erase (filed : HeldFiled held) (k : Nat × OrderKey) :
    HeldFiled (held.erase k) := by
  intro k' fills found
  rw [Dict.get?_erase] at found
  split_ifs at found
  exact filed k' fills found

theorem mem_keys_of_mem_erase {k k' : Nat × OrderKey} (member : k' ∈ (held.erase k).keys) :
    k' ∈ held.keys := by
  obtain ⟨fills, found⟩ := Dict.mem_keys_iff.mp member
  rw [Dict.get?_erase] at found
  split_ifs at found
  exact Dict.mem_keys_iff.mpr ⟨fills, found⟩

theorem values_perm_erase {k : Nat × OrderKey} {fills : List JournalRow}
    (found : held.get? k = some fills) :
    held.values.flatten.Perm (fills ++ (held.erase k).values.flatten) :=
  ((Dict.entries_perm_erase found).map Prod.snd).flatten

theorem mem_held {row : JournalRow} (member : row ∈ held.values.flatten) :
    ∃ k fills, held.get? k = some fills ∧ row ∈ fills := by
  obtain ⟨fills, inValues, inFills⟩ := List.mem_flatten.mp member
  obtain ⟨k, found⟩ := Dict.mem_values_iff.mp inValues
  exact ⟨k, fills, found, inFills⟩

theorem rowsUnder_held (filed : HeldFiled held) (k : Nat × OrderKey) :
    (rowsUnder k held.values.flatten).Perm ((held.get? k).getD []) := by
  cases found : held.get? k with
  | none =>
    rw [rowsUnder_eq_nil fun row member same => ?_]
    · exact .refl _
    obtain ⟨k', fills, here, inFills⟩ := mem_held member
    rw [← filed k' fills here row inFills, same, found] at here
    cases here
  | some fills =>
    refine ((values_perm_erase found).filter _).trans ?_
    change (rowsUnder k _).Perm fills
    rw [rowsUnder_append, rowsUnder_eq_self (filed k fills found),
      rowsUnder_eq_nil fun row member same => ?_, List.append_nil]
    obtain ⟨k', fills', here, inFills⟩ := mem_held member
    obtain rfl : k' = k := (filed.erase k k' fills' here row inFills).symm.trans same
    simp [Dict.get?_erase] at here

theorem replaceRows_perm (rows : List JournalRow) (subset : ∀ k ∈ held.keys, k ∈ corrected) :
    (replaceRows corrected held rows).Perm
      (held.values.flatten ++ rows.filter fun row => row.identity ∉ corrected) := by
  induction rows generalizing held with
  | nil => simp [replaceRows]
  | cons row rows ih =>
    rw [replaceRows]
    split
    · rename_i fills found
      have here := subset _ (Dict.mem_keys_iff.mpr ⟨fills, found⟩)
      have rest := @ih (held.erase row.identity)
        fun k member => subset k (mem_keys_of_mem_erase member)
      simp only [List.filter_cons, here, not_true_eq_false, decide_false, Bool.false_eq_true,
        if_false]
      refine (rest.append_left fills).trans ?_
      rw [← List.append_assoc]
      exact (values_perm_erase found).symm.append_right _
    · split_ifs with here
      · simpa [List.filter_cons, here] using ih subset
      · simpa [List.filter_cons, here] using ((ih subset).cons row).trans List.perm_middle.symm

theorem replaceRows_under {k : Nat × OrderKey} (rows : List JournalRow) (filed : HeldFiled held)
    (subset : ∀ k ∈ held.keys, k ∈ corrected) (fresh : k ∉ corrected) :
    rowsUnder k (replaceRows corrected held rows) =
      rowsUnder k (rows.filter fun row => row.identity ∉ corrected) := by
  have apart : ∀ k' fills, held.get? k' = some fills → rowsUnder k fills = [] := by
    intro k' fills found
    refine rowsUnder_eq_nil fun row member same => fresh ?_
    rw [← same, filed k' fills found row member]
    exact subset k' (Dict.mem_keys_iff.mpr ⟨fills, found⟩)
  induction rows generalizing held with
  | nil =>
    refine (rowsUnder_eq_nil fun row member same => ?_)
    obtain ⟨k', fills, found, inFills⟩ := mem_held member
    have none := apart k' fills found
    exact absurd same (by simpa using List.filter_eq_nil_iff.mp none row inFills)
  | cons row rows ih =>
    rw [replaceRows]
    split
    · rename_i fills found
      have here := subset _ (Dict.mem_keys_iff.mpr ⟨fills, found⟩)
      rw [rowsUnder_append, apart _ fills found, List.nil_append, ih (filed.erase _)
        (fun k member => subset k (mem_keys_of_mem_erase member)) ?_]
      · simp [here]
      · intro k' fills' found'
        rw [Dict.get?_erase] at found'
        split_ifs at found'
        exact apart k' fills' found'
    · split_ifs with here
      · simpa [List.filter_cons, here] using ih filed subset apart
      · have rest := ih filed subset apart
        simp only [rowsUnder] at rest
        simp [rowsUnder, List.filter_cons, here, rest]

end Corrected

/-- An outcome with a price wherever it has shares, and nothing to price where it has none. -/
structure Outcome.Priced (o : Outcome) : Prop where
  none : o.quantity = 0 → o.notional = 0
  some : o.quantity ≠ 0 → ∃ p, o.price = some p ∧ p * o.quantity = o.notional

structure Entry.Priced (entry : Entry) : Prop where
  simulated : entry.simulated.Priced
  real : entry.real.Priced

/-- A key `parse_key` and `strptime` read. -/
structure OrderKey.Readable (key : OrderKey) : Prop where
  parses : key.parses = true
  clock_lt : key.clock < 24 * 60

/-- A corrected key the ledger can stand for. -/
structure Holds (sessions : Dict Nat Ledger) (k : Nat × OrderKey) : Prop where
  readable : k.2.Readable
  entry : ∃ ledger, sessions.get? k.1 = some ledger ∧ k.2 ∈ ledger.keys

theorem entryIn_eq {sessions : Dict Nat Ledger} {session : Nat} {key : OrderKey} {ledger : Ledger}
    {entry : Entry} (here : sessions.get? session = some ledger)
    (found : ledger.get? key = some entry) : entryIn sessions session key = entry := by
  simp [entryIn, here, found]

theorem heldRows_ok {sessions : Dict Nat Ledger} (holds : Holds sessions k)
    (priced : (entryIn sessions k.1 k.2).real.Priced) :
    ∃ fills, heldRows sessions k = .ok fills ∧ (∀ row ∈ fills, row.filed = k) ∧
      netOf (fills.map JournalRow.execution) = (entryIn sessions k.1 k.2).real.net := by
  obtain ⟨ledger, here, member⟩ := holds.entry
  obtain ⟨entry, found⟩ := Dict.mem_keys_iff.mp member
  rw [entryIn_eq here found] at priced ⊢
  have readable : k.2.parses = true ∧ k.2.clock < 24 * 60 :=
    ⟨holds.readable.parses, holds.readable.clock_lt⟩
  by_cases shares : entry.real.quantity = 0
  · refine ⟨[], by simp [heldRows, here, found, readable, shares], by simp, ?_⟩
    exact Prod.ext shares.symm (priced.none shares).symm
  · obtain ⟨p, price, notional⟩ := priced.some shares
    refine ⟨[heldFill k.1 k.2 readable.2 entry.real.quantity p],
      by simp [heldRows, here, found, readable, shares, price], ?_, ?_⟩
    · simp [heldFill, JournalRow.filed, Execution.orderKey]
    · simp [netOf, heldFill, Execution.isFilled, Execution.notional, Outcome.net, notional]

theorem holdRows_ok {sessions : Dict Nat Ledger} {corrected : List (Nat × OrderKey)}
    {fills : Nat × OrderKey → List JournalRow}
    (each : ∀ k ∈ corrected, heldRows sessions k = .ok (fills k)) :
    ∃ held, holdRows sessions corrected = .ok held ∧
      ∀ k, held.get? k = if k ∈ corrected then some (fills k) else none := by
  have loop : ∀ (rest : List (Nat × OrderKey)) (held : Dict (Nat × OrderKey) (List JournalRow)),
      (∀ k ∈ rest, heldRows sessions k = .ok (fills k)) →
      ∃ held', rest.foldlM (fun held k => (heldRows sessions k).map (held.set k)) held =
          .ok held' ∧
        ∀ k, held'.get? k = if k ∈ rest then some (fills k) else held.get? k := by
    intro rest
    induction rest with
    | nil => exact fun held _ => ⟨held, rfl, by simp⟩
    | cons first rest ih =>
      intro held each
      obtain ⟨held', run, gets⟩ := ih (held.set first (fills first))
        fun k member => each k (List.mem_cons_of_mem _ member)
      refine ⟨held', ?_, fun k => ?_⟩
      · rw [List.foldlM_cons, each first List.mem_cons_self]
        exact run
      · rw [gets k, Dict.get?_set]
        by_cases later : k ∈ rest
        · simp [later]
        · by_cases same : first = k
          · simp [same]
          · simp [later, same, Ne.symm same]
  exact loop corrected Dict.empty each

/-- What the verdict's fills owe the ledger: each settled session's keys come to
the record in force, and the rows of keys never corrected are as they were. -/
structure AgreesWithLedger (sessions : Dict Nat Ledger) (corrected : List (Nat × OrderKey))
    (journaled rows : List JournalRow) : Prop where
  net : ∀ session ∈ sessions.keys, ∀ key,
    netUnder (session, key) rows = (entryIn sessions session key).real.net
  unchanged : ∀ k ∉ corrected, rowsUnder k rows = rowsUnder k journaled

/-- A row whose own day is corrected only with the session that settled it, and a
fill whose session is corrected only with its own day. The two days differ where
an order was dated on a day without a session. -/
def JournalRow.correctedAlike (corrected : List (Nat × OrderKey)) (row : JournalRow) : Prop :=
  (row.identity ∈ corrected → row.filed ∈ corrected) ∧
    (row.execution.isFilled = true → row.filed ∈ corrected → row.identity ∈ corrected)

instance (corrected : List (Nat × OrderKey)) (row : JournalRow) :
    Decidable (row.correctedAlike corrected) := by
  unfold JournalRow.correctedAlike
  infer_instance

/-- What the journals and the ledger of a book keep to each other. -/
structure LedgerJournaled (sessions : Dict Nat Ledger) (corrected : List (Nat × OrderKey))
    (rows : List JournalRow) : Prop where
  net : ∀ session ∈ sessions.keys, ∀ key, (session, key) ∉ corrected →
    netUnder (session, key) rows = (entryIn sessions session key).real.net
  priced : ∀ session key, (entryIn sessions session key).Priced
  holds : ∀ k ∈ corrected, Holds sessions k
  shares : ∀ row ∈ rows, row.execution.isFilled = true → 0 < row.execution.quantity

section Agreement

variable {sessions : Dict Nat Ledger} {corrected : List (Nat × OrderKey)}
  {journaled : List JournalRow}

theorem correctedRows_ok (journals : LedgerJournaled sessions corrected journaled) :
    ∃ rows, correctedRows journaled corrected sessions = .ok rows ∧
      (∀ k ∈ corrected, netUnder k rows = (entryIn sessions k.1 k.2).real.net +
        netUnder k (journaled.filter fun row => row.identity ∉ corrected)) ∧
      ∀ k ∉ corrected, rowsUnder k rows =
        rowsUnder k (journaled.filter fun row => row.identity ∉ corrected) := by
  choose! fills read filed net using fun k member =>
    heldRows_ok (journals.holds k member) (journals.priced k.1 k.2).real
  obtain ⟨held, made, gets⟩ := holdRows_ok read
  have subset : ∀ k ∈ held.keys, k ∈ corrected := by
    intro k member
    obtain ⟨rows, found⟩ := Dict.mem_keys_iff.mp member
    by_contra fresh
    simp [gets, fresh] at found
  have heldFiled : HeldFiled held := by
    intro k rows found
    have member := subset k (Dict.mem_keys_iff.mpr ⟨rows, found⟩)
    rw [gets, if_pos member] at found
    exact Option.some.inj found ▸ filed k member
  refine ⟨replaceRows corrected held journaled, by rw [correctedRows, made]; rfl, ?_, ?_⟩
  · intro k member
    rw [netUnder_perm (replaceRows_perm journaled subset), netUnder_append, ← net k member]
    congr 1
    refine netOf_perm (((rowsUnder_held heldFiled k).trans ?_).map _)
    rw [gets, if_pos member, Option.getD_some]
  · exact fun k fresh => replaceRows_under journaled heldFiled subset fresh

theorem mem_left {k : Nat × OrderKey} {row : JournalRow} :
    row ∈ rowsUnder k (journaled.filter fun row => row.identity ∉ corrected) ↔
      row ∈ journaled ∧ row.identity ∉ corrected ∧ row.filed = k := by
  simp [rowsUnder, and_comm]

theorem agrees_iff (journals : LedgerJournaled sessions corrected journaled)
    {rows : List JournalRow} (h : correctedRows journaled corrected sessions = .ok rows) :
    AgreesWithLedger sessions corrected journaled rows ↔
      ∀ row ∈ journaled, row.correctedAlike corrected := by
  obtain ⟨rows', made, net, kept⟩ := correctedRows_ok journals
  obtain rfl : rows' = rows := Except.ok.inj (made.symm.trans h)
  constructor
  · intro agrees row member
    constructor
    · intro own
      by_contra fresh
      have here : row ∈ rowsUnder row.filed journaled := by simp [rowsUnder, member]
      rw [← agrees.unchanged _ fresh, kept _ fresh, mem_left] at here
      exact here.2.1 own
    · intro filled there
      by_contra other
      have total := agrees.net row.filed.1 ?_ row.filed.2
      · rw [Prod.mk.eta, net _ there] at total
        have unfilled := unfilled_of_netOf ?_ (add_eq_left.mp total) row.execution
          (List.mem_map_of_mem (mem_left.mpr ⟨member, other, rfl⟩))
        · rw [filled] at unfilled
          cases unfilled
        · intro e inRows
          obtain ⟨row', left, rfl⟩ := List.mem_map.mp inRows
          exact journals.shares row' (mem_left.mp left).1
      · obtain ⟨ledger, found, -⟩ := (journals.holds _ there).entry
        exact Dict.mem_keys_iff.mpr ⟨ledger, found⟩
  · intro alike
    have unchanged : ∀ k ∉ corrected, rowsUnder k rows' = rowsUnder k journaled := by
      intro k fresh
      rw [kept k fresh, rowsUnder, rowsUnder, List.filter_filter]
      refine List.filter_congr fun row member => ?_
      by_cases here : row.filed = k
      · have own : row.identity ∉ corrected := fun own => fresh (here ▸ (alike row member).1 own)
        simp [here, own]
      · simp [here]
    refine ⟨fun session settled key => ?_, unchanged⟩
    by_cases there : (session, key) ∈ corrected
    · rw [net _ there]
      refine add_eq_left.mpr (netOf_eq_zero ?_)
      intro e inRows
      obtain ⟨row, left, rfl⟩ := List.mem_map.mp inRows
      obtain ⟨member, other, same⟩ := mem_left.mp left
      by_contra filled
      exact other ((alike row member).2 (by simpa using filled) (same ▸ there))
    · rw [netUnder, unchanged _ there]
      exact journals.net session settled key there

end Agreement

end AutoTrade
