import AutoTrade.Environment.Replay.Distributions

/-!
# What an ex-date distributes

The rows of a dividend table are added up in file order. A row is read without regard
to the others, and added, it fails only by the record date of an earlier taxable row of
its symbol and day; so neither the sums nor a refusal depend on the order.
-/

namespace AutoTrade

namespace Replay

/-- The sum of rows of one symbol and day; the record date is the taxable ones'. -/
def total (hasBonus : Bool) (rows : List Dividend) : Distribution :=
  { cashPerShare := (rows.map Dividend.cash).sum
    bonusPerShare := if hasBonus then some (rows.map Dividend.bonus).sum else none
    recordDate := (rows.filterMap Dividend.recordDate).head? }

/-- The rows of a symbol and day. -/
def group (rows : List Dividend) (day : Nat) (symbol : Text) : List Dividend :=
  rows.filter fun row => row.exDate = day ∧ row.symbol = symbol

/-- What the rows distribute to a symbol on a day. -/
def aggregate (hasBonus : Bool) (rows : List Dividend) (day : Nat) (symbol : Text) :
    Option Distribution :=
  if group rows day symbol = [] then none else some (total hasBonus (group rows day symbol))

/-- The taxable rows of one symbol and day carry one record date. -/
def Agreeing (rows : List Dividend) : Prop :=
  ∀ row ∈ rows, ∀ other ∈ rows, row.exDate = other.exDate → row.symbol = other.symbol →
    ∀ date ∈ row.recordDate, ∀ date' ∈ other.recordDate, date = date'

/-- The record date a row carries, if any, is one the tax rules cover. -/
def Dividend.Dated (row : Dividend) : Prop :=
  ∀ date ∈ row.recordDate, distributionRecordDate [date] = .ok date

theorem distributionRecordDate_pair {date before : Nat}
    (dated : distributionRecordDate [date] = .ok date) (found : Nat) :
    distributionRecordDate [date, before] = .ok found ↔ date = before ∧ found = date := by
  by_cases same : date = before
  · subst same
    have once : [date, date].dedup = [date].dedup := by simp
    unfold distributionRecordDate at dated ⊢
    rw [once, dated]
    simp [eq_comm]
  · have twice : [date, before].dedup = [date, before] := by simp [same]
    simp [distributionRecordDate, twice, same]

theorem checkedRecordDate_eq_ok {recordDate before : Option Nat}
    (dated : ∀ date ∈ recordDate, distributionRecordDate [date] = .ok date)
    (checked : Option Nat) : checkedRecordDate recordDate before = .ok checked ↔
      (∀ date ∈ recordDate, ∀ date' ∈ before, date = date') ∧ checked = recordDate := by
  cases recordDate with
  | none => simp [checkedRecordDate, eq_comm]
  | some date =>
    cases before with
    | none => simp [checkedRecordDate, eq_comm]
    | some date' =>
      have pair := @distributionRecordDate_pair date date' (dated date rfl)
      rw [checkedRecordDate, except_map_eq_ok]
      simp [pair, and_assoc, @eq_comm _ (some date)]

variable {rows : List Dividend} {row : Dividend}

theorem mem_group {day : Nat} {symbol : Text} :
    row ∈ group rows day symbol ↔ row ∈ rows ∧ row.exDate = day ∧ row.symbol = symbol := by
  simp [group]

theorem group_snoc (rows : List Dividend) (row : Dividend) (day : Nat) (symbol : Text) :
    group (rows ++ [row]) day symbol =
      if row.exDate = day ∧ row.symbol = symbol then group rows day symbol ++ [row]
      else group rows day symbol := by
  unfold group
  rw [List.filter_append]
  split_ifs with here <;> simp [here]

theorem total_snoc (hasBonus : Bool) (rows : List Dividend) (row : Dividend) :
    total hasBonus (rows ++ [row]) =
      { cashPerShare := (total hasBonus rows).cashPerShare + row.cash
        bonusPerShare := if hasBonus then
            some ((total hasBonus rows).bonusPerShare.getD 0 + row.bonus) else none
        recordDate := (total hasBonus rows).recordDate.orElse fun _ => row.recordDate } := by
  have date : ((rows ++ [row]).filterMap Dividend.recordDate).head? =
      (rows.filterMap Dividend.recordDate).head?.orElse fun _ => row.recordDate := by
    rw [List.filterMap_append, List.head?_append]
    cases dated : row.recordDate <;> simp [dated]
  simp only [total, date]
  cases hasBonus <;> simp

theorem get?_day (out : ExDates) (day : Nat) (symbol : Text) :
    ((out.get? day).getD Dict.empty).get? symbol = distributionOf out day symbol := by
  unfold distributionOf
  cases out.get? day <;> rfl

theorem distributionOf_set (out : ExDates) (day day' : Nat) (symbol symbol' : Text)
    (event : Distribution) :
    distributionOf (out.set day (((out.get? day).getD Dict.empty).set symbol event)) day' symbol' =
      if day = day' ∧ symbol = symbol' then some event else distributionOf out day' symbol' := by
  unfold distributionOf
  rw [Dict.get?_set]
  by_cases here : day = day'
  · subst here
    simp only [if_true, Option.bind_some, Dict.get?_set, true_and]
    split_ifs
    · rfl
    · exact get?_day out day symbol'
  · simp [here]

variable {hasBonus : Bool}

theorem previous_eq {out : ExDates}
    (holds : ∀ day symbol, distributionOf out day symbol = aggregate hasBonus rows day symbol)
    (day : Nat) (symbol : Text) :
    (((out.get? day).getD Dict.empty).get? symbol).getD
        { bonusPerShare := if hasBonus then some 0 else none } =
      total hasBonus (group rows day symbol) := by
  rw [get?_day, holds]
  unfold aggregate
  by_cases none : group rows day symbol = []
  · rw [if_pos none, none]
    cases hasBonus <;> rfl
  · rw [if_neg none]
    rfl

theorem addDividend_eq_ok {out out' : ExDates}
    (holds : ∀ day symbol, distributionOf out day symbol = aggregate hasBonus rows day symbol)
    (dated : row.Dated) : addDividend hasBonus out row = .ok out' ↔
      (∀ date ∈ row.recordDate,
        ∀ before ∈ (total hasBonus (group rows row.exDate row.symbol)).recordDate, date = before) ∧
      out' = out.set row.exDate (((out.get? row.exDate).getD Dict.empty).set row.symbol
        (total hasBonus (group rows row.exDate row.symbol ++ [row]))) := by
  have kept : ∀ recordDate before : Option Nat,
      (∀ date ∈ recordDate, ∀ date' ∈ before, date = date') →
        (recordDate.orElse fun _ => before) = before.orElse fun _ => recordDate := by
    intro recordDate before agree
    cases recordDate with
    | none => cases before <;> rfl
    | some date =>
      cases before with
      | none => rfl
      | some date' => exact congrArg some (agree date rfl date' rfl)
  unfold addDividend
  dsimp only
  rw [previous_eq holds, total_snoc, bind_eq_ok]
  simp only [checkedRecordDate_eq_ok dated, pure_eq_ok, and_assoc, exists_and_left,
    exists_eq_left]
  apply and_congr_right
  intro agree
  rw [kept _ _ agree, eq_comm]

theorem agreeing_snoc :
    Agreeing (rows ++ [row]) ↔ Agreeing rows ∧
      ∀ other ∈ group rows row.exDate row.symbol, ∀ date ∈ row.recordDate,
        ∀ date' ∈ other.recordDate, date = date' := by
  constructor
  · intro agree
    refine ⟨fun earlier member other member' => agree earlier (by simp [member]) other
      (by simp [member']), fun other member => ?_⟩
    obtain ⟨before, day, symbol⟩ := mem_group.mp member
    exact agree row (by simp) other (by simp [before]) day.symm symbol.symm
  · rintro ⟨agree, last⟩ earlier member other member' day symbol date dated date' dated'
    rcases List.mem_append.mp member with before | same
    · rcases List.mem_append.mp member' with before' | same'
      · exact agree earlier before other before' day symbol date dated date' dated'
      · rw [List.mem_singleton.mp same'] at day symbol dated'
        exact (last earlier (mem_group.mpr ⟨before, day, symbol⟩) date' dated' date dated).symm
    · rw [List.mem_singleton.mp same] at day symbol dated
      rcases List.mem_append.mp member' with before' | same'
      · exact last other (mem_group.mpr ⟨before', day.symm, symbol.symm⟩) date dated date' dated'
      · rw [List.mem_singleton.mp same'] at dated'
        exact Option.some.inj (dated.symm.trans dated')

theorem total_recordDate {day : Nat} {symbol : Text} (agree : Agreeing rows)
    (member : row ∈ group rows day symbol) {date : Nat} (dated : date ∈ row.recordDate) :
    (total hasBonus (group rows day symbol)).recordDate = some date := by
  have carried : date ∈ (group rows day symbol).filterMap Dividend.recordDate :=
    List.mem_filterMap.mpr ⟨row, member, dated⟩
  unfold total
  cases dates : (group rows day symbol).filterMap Dividend.recordDate with
  | nil => simp [dates] at carried
  | cons first rest =>
    have head : first ∈ (group rows day symbol).filterMap Dividend.recordDate := by simp [dates]
    obtain ⟨other, member', dated'⟩ := List.mem_filterMap.mp head
    obtain ⟨within, onDay, ofSymbol⟩ := mem_group.mp member
    obtain ⟨within', onDay', ofSymbol'⟩ := mem_group.mp member'
    have same := agree row within other within' (onDay.trans onDay'.symm)
      (ofSymbol.trans ofSymbol'.symm) date dated first dated'
    simp [same]

theorem addDividends_spec (hasBonus : Bool) (dated : ∀ row ∈ rows, row.Dated) :
    ((∃ out, rows.foldlM (addDividend hasBonus) Dict.empty = .ok out) ↔ Agreeing rows) ∧
    ∀ out, rows.foldlM (addDividend hasBonus) Dict.empty = .ok out →
      ∀ day symbol, distributionOf out day symbol = aggregate hasBonus rows day symbol := by
  induction rows using List.reverseRecOn with
  | nil =>
    refine ⟨by simp [Agreeing], fun out run day symbol => ?_⟩
    rw [← (foldlM_nil _ _ _).mp run]
    rfl
  | append_singleton rows row ih =>
    obtain ⟨agrees, adds⟩ := ih fun other member => dated other (by simp [member])
    have last := dated row (by simp)
    simp only [foldlM_append_eq_ok, foldlM_cons_eq_ok, foldlM_nil]
    constructor
    · rw [agreeing_snoc, ← agrees]
      constructor
      · rintro ⟨-, out, run, out', step, -⟩
        have agree := agrees.mp ⟨out, run⟩
        refine ⟨⟨out, run⟩, fun other member date here date' there => ?_⟩
        exact ((addDividend_eq_ok (adds out run) last).mp step).1 date here date'
          (total_recordDate agree member there)
      · rintro ⟨⟨out, run⟩, agree⟩
        refine ⟨_, out, run, _, (addDividend_eq_ok (adds out run) last).mpr
          ⟨fun date here date' there => ?_, rfl⟩, rfl⟩
        obtain ⟨other, member, dated'⟩ := List.mem_filterMap.mp (List.mem_of_mem_head? there)
        exact agree other member date here date' dated'
    · rintro out ⟨before, run, after, step, rfl⟩ day symbol
      rw [((addDividend_eq_ok (adds before run) last).mp step).2, distributionOf_set, adds before run]
      unfold aggregate
      rw [group_snoc]
      by_cases here : row.exDate = day ∧ row.symbol = symbol
      · obtain ⟨rfl, rfl⟩ := here
        simp
      · simp [here]

section Rows

variable {Value : Type} (source : FrameSource Value) (columns : List String)

/-- The amount of a row in a column; an absent column holds none. -/
def rowAmount (row : String → Value) (column : String) : Option ℚ :=
  if column ∈ columns then amountOf source (row column) else some 0

/-- A row owes a record date. -/
def Taxable (row : String → Value) : Prop :=
  ∃ column ∈ [cashColumn, bonusColumn], ∃ amount ∈ rowAmount source columns row column, amount ≠ 0

def rowExDate (row : String → Value) : Option Nat := dateText source (source.str (row exDateColumn))

def rowSymbol (row : String → Value) : Text :=
  symbolText (source.str (row (symbolColumn columns)))

def rowRecordDate (row : String → Value) : Option Nat :=
  dateText source (recordDateText source columns row)

/-- The row names a day, its amounts are finite and not negative, and a taxable row names
    a record date the tax rules cover. -/
structure ValidRow (row : String → Value) : Prop where
  exDate : (rowExDate source row).isSome
  amounts : ∀ column ∈ [cashColumn, bonusColumn], (rowAmount source columns row column).isSome
  recordDate : Taxable source columns row →
    ∃ date ∈ rowRecordDate source columns row, ∃ rule, dividendTaxRule (some date) = .ok rule

/-- Two taxable rows of one symbol and day carry different record dates. -/
structure Conflicting (row other : String → Value) : Prop where
  taxable : Taxable source columns row
  taxable' : Taxable source columns other
  exDate : rowExDate source row = rowExDate source other
  symbol : rowSymbol source columns row = rowSymbol source columns other
  recordDate : rowRecordDate source columns row ≠ rowRecordDate source columns other

/-- The rows that can be read, as they are read. -/
def dividends (actions : Frame Value) : List Dividend :=
  actions.rows.filterMap fun row => (readDividend source actions.columns row).toOption

variable {source columns}

variable {row : String → Value}

theorem readAmount_eq_ok {symbol : Text} {exDate : Nat} {column : String} {amount : ℚ} :
    readAmount source columns row symbol exDate column = .ok amount ↔
      rowAmount source columns row column = some amount := by
  unfold readAmount rowAmount
  split_ifs
  · cases amountOf source (row column) <;> simp
  · simp

theorem distributionRecordDate_one {date found : Nat} :
    distributionRecordDate [date] = .ok found ↔
      found = date ∧ ∃ rule, dividendTaxRule (some date) = .ok rule := by
  have once : [date].dedup = [date] := by simp
  simp only [distributionRecordDate, once, bind_eq_ok, pure_eq_ok, mapError_eq_ok]
  constructor
  · rintro ⟨rule, covered, rfl⟩
    exact ⟨rfl, rule, covered⟩
  · rintro ⟨rfl, rule, covered⟩
    exact ⟨rule, covered, rfl⟩

theorem readRecordDate_eq_ok {date : Nat} :
    readRecordDate source columns row = .ok date ↔
      rowRecordDate source columns row = some date ∧
        ∃ rule, dividendTaxRule (some date) = .ok rule := by
  unfold readRecordDate rowRecordDate
  cases dateText source (recordDateText source columns row) with
  | none => simp
  | some found =>
    simp only [distributionRecordDate_one, Option.some.injEq]
    constructor
    · rintro ⟨rfl, covered⟩
      exact ⟨rfl, covered⟩
    · rintro ⟨rfl, covered⟩
      exact ⟨rfl, covered⟩

theorem taxable_iff {cash bonus : ℚ} (paid : rowAmount source columns row cashColumn = some cash)
    (granted : rowAmount source columns row bonusColumn = some bonus) :
    Taxable source columns row ↔ cash ≠ 0 ∨ bonus ≠ 0 := by
  simp [Taxable, paid, granted]

variable {dividend : Dividend}

theorem readDividend_eq_ok :
    readDividend source columns row = .ok dividend ↔
      rowExDate source row = some dividend.exDate ∧ rowSymbol source columns row = dividend.symbol ∧
      rowAmount source columns row cashColumn = some dividend.cash ∧
      rowAmount source columns row bonusColumn = some dividend.bonus ∧
      (Taxable source columns row → ∃ date, rowRecordDate source columns row = some date ∧
        (∃ rule, dividendTaxRule (some date) = .ok rule) ∧ dividend.recordDate = some date) ∧
      (¬ Taxable source columns row → dividend.recordDate = none) := by
  unfold readDividend
  dsimp only
  cases day : dateText source (source.str (row exDateColumn)) with
  | none => simp [rowExDate, day]
  | some exDate =>
    simp only [bind_eq_ok, readAmount_eq_ok, rowExDate, day]
    constructor
    · rintro ⟨cash, paid, bonus, granted, recordDate, dated, same⟩
      obtain rfl := pure_eq_ok.mp same
      have taxed := taxable_iff paid granted
      refine ⟨rfl, rfl, paid, granted, fun taxable => ?_, fun free => ?_⟩
      · rw [recordDateOf, if_pos (taxed.mp taxable), except_map_eq_ok] at dated
        obtain ⟨date, read, rfl⟩ := dated
        obtain ⟨names, covered⟩ := readRecordDate_eq_ok.mp (mapError_eq_ok.mp read)
        exact ⟨date, names, covered, rfl⟩
      · rw [recordDateOf, if_neg fun some => free (taxed.mpr some)] at dated
        exact (Except.ok.inj dated).symm
    · obtain ⟨symbol, exDate', cash, bonus, recordDate⟩ := dividend
      rintro ⟨day', ofSymbol, paid, granted, taxed, free⟩
      dsimp only at day' ofSymbol paid granted taxed free
      obtain rfl := Option.some.inj day'
      subst ofSymbol
      refine ⟨cash, paid, bonus, granted, recordDate, ?_, rfl⟩
      have taxable := taxable_iff paid granted
      unfold recordDateOf
      split_ifs with some
      · obtain ⟨date, names, covered, rfl⟩ := taxed (taxable.mpr some)
        exact except_map_eq_ok.mpr
          ⟨date, mapError_eq_ok.mpr (readRecordDate_eq_ok.mpr ⟨names, covered⟩), rfl⟩
      · rw [free fun owes => some (taxable.mp owes)]

theorem readDividend_isOk :
    (∃ dividend, readDividend source columns row = .ok dividend) ↔
      ValidRow source columns row := by
  constructor
  · rintro ⟨dividend, read⟩
    obtain ⟨day, -, paid, granted, taxed, -⟩ := readDividend_eq_ok.mp read
    refine ⟨by simp [day], by simp [paid, granted], fun taxable => ?_⟩
    obtain ⟨date, names, covered, -⟩ := taxed taxable
    exact ⟨date, names, covered⟩
  · intro valid
    obtain ⟨day, named⟩ := Option.isSome_iff_exists.mp valid.exDate
    obtain ⟨cash, paid⟩ := Option.isSome_iff_exists.mp (valid.amounts cashColumn (by simp))
    obtain ⟨bonus, granted⟩ := Option.isSome_iff_exists.mp (valid.amounts bonusColumn (by simp))
    by_cases taxable : Taxable source columns row
    · obtain ⟨date, names, covered⟩ := valid.recordDate taxable
      exact ⟨⟨rowSymbol source columns row, day, cash, bonus, some date⟩, readDividend_eq_ok.mpr
        ⟨named, rfl, paid, granted, fun _ => ⟨date, names, covered, rfl⟩,
          fun free => absurd taxable free⟩⟩
    · exact ⟨⟨rowSymbol source columns row, day, cash, bonus, none⟩, readDividend_eq_ok.mpr
        ⟨named, rfl, paid, granted, fun owes => absurd owes taxable, fun _ => rfl⟩⟩

variable {actions : Frame Value}

theorem mem_dividends : dividend ∈ dividends source actions ↔
    ∃ row ∈ actions.rows, readDividend source actions.columns row = .ok dividend := by
  simp [dividends, toOption_eq_some]

theorem dividends_dated (member : dividend ∈ dividends source actions) : dividend.Dated := by
  intro date dated
  obtain ⟨row, -, read⟩ := mem_dividends.mp member
  obtain ⟨-, -, -, -, taxed, free⟩ := readDividend_eq_ok.mp read
  by_cases taxable : Taxable source actions.columns row
  · obtain ⟨date', -, covered, carried⟩ := taxed taxable
    obtain rfl : date' = date := Option.some.inj (carried.symm.trans dated)
    exact distributionRecordDate_one.mpr ⟨rfl, covered⟩
  · rw [free taxable] at dated
    cases dated

theorem agreeing_dividends (valid : ∀ row ∈ actions.rows, ValidRow source actions.columns row) :
    Agreeing (dividends source actions) ↔
      ¬ ∃ row ∈ actions.rows, ∃ other ∈ actions.rows,
        Conflicting source actions.columns row other := by
  constructor
  · rintro agree ⟨row, member, other, member', conflict⟩
    obtain ⟨dividend, read⟩ := readDividend_isOk.mpr (valid row member)
    obtain ⟨dividend', read'⟩ := readDividend_isOk.mpr (valid other member')
    obtain ⟨day, ofSymbol, -, -, taxed, -⟩ := readDividend_eq_ok.mp read
    obtain ⟨day', ofSymbol', -, -, taxed', -⟩ := readDividend_eq_ok.mp read'
    obtain ⟨date, names, -, dated⟩ := taxed conflict.taxable
    obtain ⟨date', names', -, dated'⟩ := taxed' conflict.taxable'
    have same : date = date' := agree dividend (mem_dividends.mpr ⟨row, member, read⟩) dividend'
      (mem_dividends.mpr ⟨other, member', read'⟩)
      (Option.some.inj (day.symm.trans (conflict.exDate.trans day')))
      (ofSymbol.symm.trans (conflict.symbol.trans ofSymbol')) date dated date' dated'
    exact conflict.recordDate (by rw [names, names', same])
  · intro none dividend member dividend' member' day ofSymbol date dated date' dated'
    obtain ⟨row, inside, read⟩ := mem_dividends.mp member
    obtain ⟨other, inside', read'⟩ := mem_dividends.mp member'
    obtain ⟨onDay, symbol, -, -, taxed, free⟩ := readDividend_eq_ok.mp read
    obtain ⟨onDay', symbol', -, -, taxed', free'⟩ := readDividend_eq_ok.mp read'
    by_contra differ
    have taxable : Taxable source actions.columns row := by
      by_contra untaxed
      rw [free untaxed] at dated
      cases dated
    have taxable' : Taxable source actions.columns other := by
      by_contra untaxed
      rw [free' untaxed] at dated'
      cases dated'
    obtain ⟨found, names, -, carried⟩ := taxed taxable
    obtain ⟨found', names', -, carried'⟩ := taxed' taxable'
    have first : found = date := Option.some.inj (carried.symm.trans dated)
    have second : found' = date' := Option.some.inj (carried'.symm.trans dated')
    refine none ⟨row, inside, other, inside', taxable, taxable', ?_, ?_, ?_⟩
    · rw [onDay, onDay', day]
    · rw [symbol, symbol', ofSymbol]
    · rw [names, names', first, second]
      exact fun same => differ (Option.some.inj same)

end Rows

theorem aggregate_perm {rows rows' : List Dividend} (perm : rows'.Perm rows)
    (agree : Agreeing rows) (day : Nat) (symbol : Text) :
    aggregate hasBonus rows' day symbol = aggregate hasBonus rows day symbol := by
  have groups : (group rows' day symbol).Perm (group rows day symbol) := perm.filter _
  have date : (total hasBonus (group rows' day symbol)).recordDate =
      (total hasBonus (group rows day symbol)).recordDate := by
    cases carried : (total hasBonus (group rows' day symbol)).recordDate with
    | some date =>
      obtain ⟨row, member, dated⟩ := List.mem_filterMap.mp (List.mem_of_mem_head? carried)
      exact (total_recordDate agree (groups.mem_iff.mp member) dated).symm
    | none =>
      have none' : (group rows' day symbol).filterMap Dividend.recordDate = [] :=
        List.head?_eq_none_iff.mp carried
      have perm' := groups.filterMap Dividend.recordDate
      rw [none'] at perm'
      unfold total
      rw [perm'.symm.eq_nil]
      rfl
  have totals : total hasBonus (group rows' day symbol) =
      total hasBonus (group rows day symbol) := by
    have cash := (groups.map Dividend.cash).sum_eq
    have bonus := (groups.map Dividend.bonus).sum_eq
    unfold total at date ⊢
    dsimp only at date
    rw [cash, bonus, date]
  unfold aggregate
  rw [totals]
  have filled : group rows' day symbol = [] ↔ group rows day symbol = [] := by
    rw [← List.length_eq_zero_iff, groups.length_eq, List.length_eq_zero_iff]
  simp only [filled]

section Tables

variable {Value : Type} {source : FrameSource Value} {actions : Frame Value}

theorem distributionsByExDate_eq_ok {out : ExDates} :
    distributionsByExDate source (some actions) = .ok out ↔
      missingActionColumns actions.columns = [] ∧
      (∀ row ∈ actions.rows, ValidRow source actions.columns row) ∧
      (dividends source actions).foldlM (addDividend (bonusColumn ∈ actions.columns)) Dict.empty =
        .ok out := by
  unfold distributionsByExDate
  by_cases complete : missingActionColumns actions.columns = []
  · simp only [complete, ne_eq, not_true_eq_false, if_false, foldlM_reading, readDividend_isOk,
      true_and]
    rfl
  · simp [complete]

theorem distributionsByExDate_isOk :
    (∃ out, distributionsByExDate source (some actions) = .ok out) ↔
      missingActionColumns actions.columns = [] ∧
      (∀ row ∈ actions.rows, ValidRow source actions.columns row) ∧
      ¬ ∃ row ∈ actions.rows, ∃ other ∈ actions.rows,
        Conflicting source actions.columns row other := by
  simp only [distributionsByExDate_eq_ok, exists_and_left]
  apply and_congr_right
  intro _
  apply and_congr_right
  intro valid
  rw [← agreeing_dividends valid]
  exact (addDividends_spec _ fun dividend => dividends_dated).1

end Tables

end Replay

end AutoTrade
