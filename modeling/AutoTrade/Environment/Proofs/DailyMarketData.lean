import AutoTrade.Environment.Proofs.BarTables
import AutoTrade.Environment.Proofs.Distributions
import AutoTrade.Environment.Replay.DailyMarketData

/-!
# What a replay sees of a daily table

The store keeps the rows of the frame, rearranged; every column is coded and gathered
alike. What is available is a first part of the store, and the index of the days parts it.
-/

namespace AutoTrade

namespace Replay

open Arrays BarColumns Json

variable {Value : Type}

section Rows

variable (source : DailySource Value) (daily : DailyFrame Value)

/-- The date a row is of; a row of a loaded table has one. -/
def rowDay (row : String → Value) : Option Nat :=
  dateText source.toFrameSource (source.str (row "trade_date"))

def dayOf (row : String → Value) : Nat := (rowDay source row).getD 0

def symbolOf (row : String → Value) : Text := symbolText (source.str (row daily.symbolSource))

/-- The business key of a row. -/
def businessKey (row : String → Value) : Nat × Text := (dayOf source row, symbolOf source daily row)

/-- When a row is available; a row of a loaded table names it. -/
def rowAvailable (row : String → Value) : Option Instant :=
  if "available_at" ∈ daily.storedColumns then
    (availableAt source (row "available_at")).toOption
  else (rowDay source row).map defaultAvailableAt

def availableOf (row : String → Value) : Instant :=
  (rowAvailable source daily row).getD (defaultAvailableAt 0)

/-- The JSON value a column of a type keeps of a value. -/
def cellJson (dtype : Dtype) (value : Value) : Option Json :=
  match dtype with
  | .float => (source.float64 value).map fun
    | .nan => null
    | .num n => num n
  | .bool => some (Json.bool (source.bool value))
  | .int => some (num (source.int64 value))
  | .other => if source.missing value then some null else jsonScalar source value

/-- What the store keeps of a row under a name. -/
def storedCell (row : String → Value) (name : String) : Option Json :=
  if name = "trade_date" then some (dateJson (dayOf source row))
  else if name = "symbol" then some (str (symbolOf source daily row))
  else if name = "available_at" then some (str (source.iso (availableOf source daily row)))
  else cellJson source (daily.dtype name) (row name)

/-- The table reads, up to the test for duplicates. -/
structure Readable (actions : Option (Frame Value)) : Prop where
  distributed : ∃ out, distributionsByExDate source.toFrameSource actions = .ok out
  complete : daily.missingColumns = []
  dated : ∀ row ∈ daily.rows, (rowDay source row).isSome
  named : ∀ row ∈ daily.rows, symbolOf source daily row ≠ []

/-- The codes of the rows' dates and symbols. -/
def keysOf : DailyKeys :=
  let dates := sortedDistinct (daily.rows.map (dayOf source))
  let symbols := sortedDistinct (daily.rows.map (symbolOf source daily))
  ⟨daily.rows.map fun row => code dates (dayOf source row), dates,
    daily.rows.map fun row => code symbols (symbolOf source daily row), symbols⟩

end Rows

section Keys

variable {source : DailySource Value} {daily : DailyFrame Value}

theorem day_mem {row : String → Value} (member : row ∈ daily.rows) :
    dayOf source row ∈ (keysOf source daily).dates :=
  mem_sortedDistinct.mpr (List.mem_map.mpr ⟨row, member, rfl⟩)

theorem symbol_mem {row : String → Value} (member : row ∈ daily.rows) :
    symbolOf source daily row ∈ (keysOf source daily).symbols :=
  mem_sortedDistinct.mpr (List.mem_map.mpr ⟨row, member, rfl⟩)

theorem keys_eq : (keysOf source daily).keys = daily.rows.map fun row =>
    code (keysOf source daily).dates (dayOf source row) *
        max (keysOf source daily).symbols.length 1 +
      code (keysOf source daily).symbols (symbolOf source daily row) :=
  zipWith_map_map _ _ _ _

theorem keys_nodup : (keysOf source daily).keys.Nodup ↔
    (daily.rows.map (businessKey source daily)).Nodup := by
  have numbered : ∀ row ∈ daily.rows, ∀ other ∈ daily.rows,
      code (keysOf source daily).dates (dayOf source row) *
          max (keysOf source daily).symbols.length 1 +
          code (keysOf source daily).symbols (symbolOf source daily row) =
        code (keysOf source daily).dates (dayOf source other) *
          max (keysOf source daily).symbols.length 1 +
          code (keysOf source daily).symbols (symbolOf source daily other) ↔
      businessKey source daily row = businessKey source daily other := by
    intro row member other member'
    have below := code_lt_length (@symbol_mem _ source _ _ member)
    have below' := code_lt_length (@symbol_mem _ source _ _ member')
    rw [max_eq_left (by omega)]
    unfold businessKey
    rw [Prod.mk.injEq, ← code_injOn (day_mem member) (day_mem member'),
      ← code_injOn (@symbol_mem _ source _ _ member) (@symbol_mem _ source _ _ member')]
    constructor
    · intro same
      have day := congrArg (· / (keysOf source daily).symbols.length) same
      have symbol := congrArg (· % (keysOf source daily).symbols.length) same
      have filled : 0 < (keysOf source daily).symbols.length := by omega
      simp only [Nat.add_comm (_ * _), Nat.add_mul_div_right _ _ filled, Nat.add_mul_mod_self_right,
        Nat.div_eq_of_lt below, Nat.div_eq_of_lt below', Nat.mod_eq_of_lt below,
        Nat.mod_eq_of_lt below', Nat.zero_add] at day symbol
      exact ⟨day, symbol⟩
    · rintro ⟨day, symbol⟩
      rw [day, symbol]
  rw [keys_eq]
  exact nodup_map_congr numbered

theorem tradeDate_eq_ok {value : Value} {day : Nat} :
    tradeDate source value = .ok day ↔
      dateText source.toFrameSource (source.str value) = some day := by
  unfold tradeDate
  cases dateText source.toFrameSource (source.str value) <;> simp

theorem tradeDate_eq_error {value : Value} {e : DailyError}
    (stops : tradeDate source value = .error e) : e = .invalidTradeDate (source.str value) := by
  unfold tradeDate at stops
  cases named : dateText source.toFrameSource (source.str value) with
  | some day => simp [named] at stops
  | none => simpa [named, eq_comm] using stops

variable [DecidableEq Value]

theorem dates_isOk : (∃ coded, normalizedCodes (daily.series "trade_date") (tradeDate source) =
    .ok coded) ↔ ∀ row ∈ daily.rows, (rowDay source row).isSome := by
  rw [normalizedCodes_isOk]
  simp [DailyFrame.series, tradeDate_eq_ok, rowDay, Option.isSome_iff_exists]

theorem dates_eq (dated : ∀ row ∈ daily.rows, (rowDay source row).isSome) :
    normalizedCodes (daily.series "trade_date") (tradeDate source) =
      .ok ((keysOf source daily).dateCodes, (keysOf source daily).dates) := by
  have reads : ∀ value ∈ daily.series "trade_date", tradeDate source value =
      .ok ((dateText source.toFrameSource (source.str value)).getD 0) := by
    intro value member
    obtain ⟨row, inTable, rfl⟩ := List.mem_map.mp member
    obtain ⟨day, named⟩ := Option.isSome_iff_exists.mp (dated row inTable)
    exact tradeDate_eq_ok.mpr (by rw [rowDay] at named; simp [named])
  rw [normalizedCodes_map reads]
  simp only [DailyFrame.series, List.map_map]
  rfl

theorem symbols_eq : normalizedCodes (daily.series daily.symbolSource)
    (fun value => (.ok (symbolText (source.str value)) : Except DailyError Text)) =
      .ok ((keysOf source daily).symbolCodes, (keysOf source daily).symbols) := by
  rw [normalizedCodes_map (f := fun value => symbolText (source.str value)) fun _ _ => rfl]
  simp only [DailyFrame.series, List.map_map]
  rfl

theorem readKeys_eq (dated : ∀ row ∈ daily.rows, (rowDay source row).isSome) :
    readKeys source daily =
      if [] ∈ (keysOf source daily).symbols then .error .emptySymbol
      else if (daily.rows.map (businessKey source daily)).Nodup then .ok (keysOf source daily)
      else .error (.duplicateKeys (keysOf source daily).sample) := by
  have repeats : daily.rows.length ≠ 0 ∧
      (keysOf source daily).keys.dedup.length ≠ daily.rows.length ↔
      ¬ (daily.rows.map (businessKey source daily)).Nodup := by
    have count : (keysOf source daily).keys.length = daily.rows.length := by simp [keys_eq]
    rw [← keys_nodup, ← count, ← length_dedup_eq_iff]
    apply and_iff_right_of_imp
    intro differ none
    rw [List.eq_nil_of_length_eq_zero none] at differ
    exact differ rfl
  unfold readKeys
  rw [dates_eq dated, symbols_eq]
  show (if _ then _ else _) = _
  by_cases empty : [] ∈ (keysOf source daily).symbols
  · rw [if_pos empty, if_pos empty]
    rfl
  rw [if_neg empty, if_neg empty]
  by_cases distinct : (daily.rows.map (businessKey source daily)).Nodup
  · rw [if_neg fun twice => repeats.mp twice distinct, if_pos distinct]
    rfl
  · rw [if_pos (repeats.mpr distinct), if_neg distinct]
    rfl

theorem readKeys_undated (undated : ¬ ∀ row ∈ daily.rows, (rowDay source row).isSome) :
    ∃ value, readKeys source daily = .error (.invalidTradeDate value) := by
  cases read : normalizedCodes (daily.series "trade_date") (tradeDate source) with
  | ok coded => exact absurd (dates_isOk.mp ⟨coded, read⟩) undated
  | error e =>
    obtain ⟨value, -, stops⟩ := normalizedCodes_eq_error read
    rw [tradeDate_eq_error stops] at read
    refine ⟨source.str value, ?_⟩
    unfold readKeys
    rw [read]
    rfl

omit [DecidableEq Value] in
theorem unnamed_iff : [] ∈ (keysOf source daily).symbols ↔
    ¬ ∀ row ∈ daily.rows, symbolOf source daily row ≠ [] := by
  simp [keysOf, mem_sortedDistinct]

theorem readKeys_eq_ok {keys : DailyKeys} : readKeys source daily = .ok keys ↔
    (∀ row ∈ daily.rows, (rowDay source row).isSome) ∧
      (∀ row ∈ daily.rows, symbolOf source daily row ≠ []) ∧
      (daily.rows.map (businessKey source daily)).Nodup ∧ keys = keysOf source daily := by
  by_cases dated : ∀ row ∈ daily.rows, (rowDay source row).isSome
  · rw [readKeys_eq dated]
    by_cases named : ∀ row ∈ daily.rows, symbolOf source daily row ≠ []
    · rw [if_neg fun empty => unnamed_iff.mp empty named]
      by_cases distinct : (daily.rows.map (businessKey source daily)).Nodup
      · rw [if_pos distinct, Except.ok.injEq, eq_comm]
        exact ⟨fun same => ⟨dated, named, distinct, same⟩, fun read => read.2.2.2⟩
      · rw [if_neg distinct]
        exact ⟨fun read => (by cases read), fun read => absurd read.2.2.1 distinct⟩
    · rw [if_pos (unnamed_iff.mpr named)]
      exact ⟨fun read => (by cases read), fun read => absurd read.2.1 named⟩
  · obtain ⟨value, stops⟩ := readKeys_undated dated
    simp [stops, dated]

theorem readKeys_duplicate : (∃ sample, readKeys source daily = .error (.duplicateKeys sample)) ↔
    (∀ row ∈ daily.rows, (rowDay source row).isSome) ∧
      (∀ row ∈ daily.rows, symbolOf source daily row ≠ []) ∧
      ¬ (daily.rows.map (businessKey source daily)).Nodup := by
  by_cases dated : ∀ row ∈ daily.rows, (rowDay source row).isSome
  · rw [readKeys_eq dated]
    by_cases named : ∀ row ∈ daily.rows, symbolOf source daily row ≠ []
    · rw [if_neg fun empty => unnamed_iff.mp empty named]
      by_cases distinct : (daily.rows.map (businessKey source daily)).Nodup
      · rw [if_pos distinct]
        exact ⟨fun ⟨_, stops⟩ => (by cases stops), fun twice => absurd distinct twice.2.2⟩
      · rw [if_neg distinct]
        exact ⟨fun _ => ⟨dated, named, distinct⟩, fun _ => ⟨_, rfl⟩⟩
    · rw [if_pos (unnamed_iff.mpr named)]
      exact ⟨fun ⟨_, stops⟩ => (by cases stops), fun twice => absurd twice.2.1 named⟩
  · obtain ⟨value, stops⟩ := readKeys_undated dated
    simp [stops, dated]

end Keys

section Columns

variable {source : DailySource Value} {daily : DailyFrame Value}

theorem strictJson_eq_ok {α : Type} {value : Option α} {v : α} :
    strictJson value = .ok v ↔ value = some v := by
  cases value <;> simp [strictJson]

variable {e : DailyError}

theorem strictJson_eq_error {α : Type} {value : Option α} (stops : strictJson value = .error e) :
    e = .notJson := by
  cases value <;> simp_all [strictJson]

variable {value : Value}

theorem availableAt_eq_error (stops : availableAt source value = .error e)
    (sample : List (Nat × Text)) :
    e ≠ .duplicateKeys sample := by
  unfold availableAt at stops
  split at stops <;> cases stops <;> simp

variable {order : List Nat} {arranged : List (String → Value)} {row : String → Value} {k : Nat}

theorem value_coded {rows : List (String → Value)} (arrange : gather rows order = arranged)
    (codeOf : (String → Value) → Nat) (uniques : List Json) (here : arranged[k]? = some row) :
    (Column.mk (.coded (gather (rows.map codeOf) order) uniques) none).cell k =
      uniques[codeOf row]? := by
  rw [gather_map, arrange]
  simp [Column.cell, Column.carries, Column.value, here]

variable [DecidableEq Value]

variable {stamped : List Nat × List Instant}

theorem readStamps_spec (dated : ∀ row ∈ daily.rows, (rowDay source row).isSome)
    (read : readStamps source daily (keysOf source daily) = .ok stamped) :
    (∀ row ∈ daily.rows, (rowAvailable source daily row).isSome) ∧
    ∃ stampCode, stamped.1 = daily.rows.map stampCode ∧
      ∀ row ∈ daily.rows, stamped.2[stampCode row]? = some (availableOf source daily row) := by
  unfold readStamps at read
  by_cases named : "available_at" ∈ daily.storedColumns
  · rw [if_pos named] at read
    obtain ⟨stamps, parsed, rfl⟩ := except_map_eq_ok.mp read
    have parses : ∀ row ∈ daily.rows, ∃ stamp,
        availableAt source (row "available_at") = .ok stamp := by
      intro row member
      exact mapM_isOk.mp ⟨stamps, parsed⟩ _
        (mem_firstMet.mpr (List.mem_map.mpr ⟨row, member, rfl⟩))
    have finds (value : Value) (stamp : Instant) (h : availableAt source value = .ok stamp) :
        (availableAt source value).toOption = some stamp := toOption_eq_some.mpr h
    refine ⟨fun row member => ?_,
      fun row => (factorize (daily.series "available_at")).2.idxOf (row "available_at"), ?_,
      fun row member => ?_⟩
    · obtain ⟨stamp, here⟩ := parses row member
      simp [rowAvailable, named, here, Except.toOption]
    · simp [factorize, DailyFrame.series]
    · obtain ⟨stamp, here⟩ := parses row member
      have met : row "available_at" ∈ (factorize (daily.series "available_at")).2 :=
        mem_firstMet.mpr (List.mem_map.mpr ⟨row, member, rfl⟩)
      dsimp only
      rw [getElem?_of_forall₂ finds (mapM_eq_ok.mp parsed), getElem?_idxOf_of_mem met]
      simp [availableOf, rowAvailable, named, here, Except.toOption]
  · rw [if_neg named] at read
    obtain rfl := Except.ok.inj read
    have days : ∀ row ∈ daily.rows, rowDay source row = some (dayOf source row) := by
      intro row member
      obtain ⟨day, here⟩ := Option.isSome_iff_exists.mp (dated row member)
      simp [dayOf, here]
    refine ⟨fun row member => ?_, fun row => code (keysOf source daily).dates (dayOf source row),
      rfl, fun row member => ?_⟩
    · simp [rowAvailable, named, days row member]
    · simp [getElem?_code (day_mem member), availableOf, rowAvailable, named, days row member]

theorem readStamps_eq_error {keys : DailyKeys} (stops : readStamps source daily keys = .error e)
    (sample : List (Nat × Text)) :
    e ≠ .duplicateKeys sample := by
  unfold readStamps at stops
  split_ifs at stops
  cases parsed : (factorize (daily.series "available_at")).2.mapM (availableAt source) with
  | ok stamps => simp [parsed, Except.map] at stops
  | error e' =>
    simp only [parsed, Except.map, Except.error.injEq] at stops
    obtain ⟨value, -, here⟩ := mapM_eq_error parsed
    exact stops ▸ availableAt_eq_error here sample

variable {values : List Value} {column : Column}

theorem codedColumn_cell (inside : ∀ i ∈ order, i < values.length)
    (built : codedColumn source values order = .ok column)
    (here : (gather values order)[k]? = some value) :
    column.cell k = if source.missing value then some null else jsonScalar source value := by
  simp only [codedColumn, bind_eq_ok, pure_eq_ok] at built
  obtain ⟨uniques, read, rfl⟩ := built
  have member : value ∈ values := by
    rw [getElem?_gather inside] at here
    obtain ⟨i, -, found⟩ := Option.bind_eq_some_iff.mp here
    exact List.mem_of_getElem? found
  have finds (value : Value) (v : Json) (h : strictJson (jsonScalar source value) = .ok v) :
      jsonScalar source value = some v := strictJson_eq_ok.mp h
  have read := mapM_eq_ok.mp read
  simp only [Column.cell, Column.carries, Column.value, gather_map, List.getElem?_map, here,
    Option.map_some, Option.bind_some, if_true]
  by_cases gone : source.missing value
  · have any : values.any source.missing := List.any_eq_true.mpr ⟨value, member, gone⟩
    simp [gone, any]
  · have met : value ∈ firstMet (values.filter fun value => !source.missing value) :=
      mem_firstMet.mpr (List.mem_filter.mpr ⟨member, by simpa using gone⟩)
    have found : uniques[(firstMet (values.filter fun value => !source.missing value)).idxOf value]? =
        jsonScalar source value := by
      rw [getElem?_of_forall₂ finds read, getElem?_idxOf_of_mem met, Option.bind_some]
    have inUniques : (firstMet (values.filter fun value => !source.missing value)).idxOf value <
        uniques.length := read.length_eq ▸ List.idxOf_lt_length_of_mem met
    rw [if_neg gone, if_neg gone]
    split_ifs
    · rw [List.getElem?_append_left inUniques, found]
    · exact found

theorem frameColumn_cell {dtype : Dtype} (inside : ∀ i ∈ order, i < values.length)
    (built : frameColumn source dtype values order = .ok column)
    (here : (gather values order)[k]? = some value) :
    column.cell k = cellJson source dtype value := by
  cases dtype with
  | float =>
    simp only [frameColumn, bind_eq_ok, pure_eq_ok] at built
    obtain ⟨floats, read, rfl⟩ := built
    have finds (value : Value) (x : Float64) (h : strictJson (source.float64 value) = .ok x) :
        source.float64 value = some x := strictJson_eq_ok.mp h
    have read := mapM_eq_ok.mp read
    have inFloats : ∀ i ∈ order, i < floats.length := fun i member =>
      read.length_eq ▸ inside i member
    have same : (gather floats order)[k]? = source.float64 value := by
      rw [getElem?_gather inside] at here
      obtain ⟨i, at_k, found⟩ := Option.bind_eq_some_iff.mp here
      rw [getElem?_gather inFloats, at_k, Option.bind_some, getElem?_of_forall₂ finds read, found,
        Option.bind_some]
    cases known : source.float64 value with
    | none => simp [Column.cell, Column.carries, Column.value, same, cellJson, known]
    | some x => cases x <;> simp [Column.cell, Column.carries, Column.value, same, cellJson, known]
  | bool =>
    obtain rfl := Except.ok.inj built
    simp [Column.cell, Column.carries, Column.value, gather_map, here, cellJson]
  | int =>
    obtain rfl := Except.ok.inj built
    simp [Column.cell, Column.carries, Column.value, gather_map, here, cellJson]
  | other => exact codedColumn_cell inside built here

theorem mapM_strictJson_eq_error {α β : Type} {f : α → Option β} {l : List α}
    (stops : (l.mapM fun a => strictJson (f a)) = .error e) : e = .notJson := by
  obtain ⟨a, -, here⟩ := mapM_eq_error stops
  exact strictJson_eq_error here

theorem frameColumn_eq_error {dtype : Dtype}
    (stops : frameColumn source dtype values order = .error e) : e = .notJson := by
  cases dtype with
  | float =>
    cases read : values.mapM fun value => strictJson (source.float64 value) with
    | ok floats => simp [frameColumn, read, bind, Except.bind, pure, Except.pure] at stops
    | error e' =>
      simp only [frameColumn, read] at stops
      cases stops
      exact mapM_strictJson_eq_error read
  | bool => cases stops
  | int => cases stops
  | other =>
    unfold frameColumn codedColumn at stops
    cases read : (firstMet (values.filter fun value => !source.missing value)).mapM
        fun value => strictJson (jsonScalar source value) with
    | ok uniques => simp [read, bind, Except.bind, pure, Except.pure] at stops
    | error e' =>
      simp only [read] at stops
      cases stops
      exact mapM_strictJson_eq_error read

theorem storeColumn_cell (inside : ∀ i ∈ order, i < daily.rows.length)
    (arrange : gather daily.rows order = arranged)
    (dated : ∀ row ∈ daily.rows, (rowDay source row).isSome)
    (read : readStamps source daily (keysOf source daily) = .ok stamped) {name : String}
    (built : storeColumn source daily (keysOf source daily) stamped order name = .ok column)
    (here : arranged[k]? = some row) :
    column.cell k = storedCell source daily row name := by
  have member : row ∈ daily.rows := by
    rw [← arrange, getElem?_gather inside] at here
    obtain ⟨i, -, found⟩ := Option.bind_eq_some_iff.mp here
    exact List.mem_of_getElem? found
  unfold storeColumn at built
  unfold storedCell
  split_ifs at built ⊢
  · obtain rfl := Except.ok.inj built
    have coded := value_coded arrange
      (fun row => code (keysOf source daily).dates (dayOf source row))
      ((keysOf source daily).dates.map dateJson) here
    exact coded.trans (by simp [getElem?_code (day_mem member)])
  · obtain rfl := Except.ok.inj built
    have coded := value_coded arrange
      (fun row => code (keysOf source daily).symbols (symbolOf source daily row))
      ((keysOf source daily).symbols.map str) here
    exact coded.trans (by simp [getElem?_code (@symbol_mem _ source _ _ member)])
  · obtain rfl := Except.ok.inj built
    obtain ⟨-, stampCode, codes, stamps⟩ := readStamps_spec dated read
    rw [stampColumn, codes, value_coded arrange stampCode _ here]
    simp [stamps row member]
  · apply frameColumn_cell (by simpa [DailyFrame.series] using inside) built
    rw [DailyFrame.series, gather_map, arrange, List.getElem?_map, here, Option.map_some]

theorem buildStore_cell (inside : ∀ i ∈ order, i < daily.rows.length)
    (arrange : gather daily.rows order = arranged)
    (dated : ∀ row ∈ daily.rows, (rowDay source row).isSome)
    (read : readStamps source daily (keysOf source daily) = .ok stamped)
    {store : Dict Text Column}
    (built : buildStore source daily (keysOf source daily) stamped order = .ok store)
    (here : arranged[k]? = some row) (name : String) :
    ((store.get? name.toList).bind fun column => column.cell k) =
      if name ∈ daily.storedColumns ∨ name = "available_at" then storedCell source daily row name
      else none := by
  simp only [buildStore, bind_eq_ok, pure_eq_ok] at built
  obtain ⟨columns, reads, rfl⟩ := built
  have named (name : String) (column : Column) : (name.toList, column) ∈ columns ↔
      name ∈ daily.storedColumns ∧
        storeColumn source daily (keysOf source daily) stamped order name = .ok column := by
    rw [mem_of_forall₂ (fun _ _ _ h h' => Except.ok.inj (h.symm.trans h')) (mapM_eq_ok.mp reads)]
    simp only [except_map_eq_ok, Prod.mk.injEq, String.toList_inj]
    constructor
    · rintro ⟨name', member, column', stored, rfl, rfl⟩
      exact ⟨member, stored⟩
    · rintro ⟨member, stored⟩
      exact ⟨name, member, column, stored, rfl, rfl⟩
  have functional (key : Text) (column column' : Column) (h : (key, column) ∈ columns)
      (h' : (key, column') ∈ columns) : column = column' := by
    rw [← String.toList_ofList (l := key)] at h h'
    exact Except.ok.inj (((named _ _).mp h).2.symm.trans ((named _ _).mp h').2)
  have cells : ((Dict.ofList columns).get? name.toList).bind (fun column => column.cell k) =
      if name ∈ daily.storedColumns then storedCell source daily row name else none := by
    cases found : (Dict.ofList columns).get? name.toList with
    | some column =>
      obtain ⟨member, stored⟩ := (named name column).mp ((Dict.get?_ofList functional).mp found)
      rw [if_pos member]
      exact storeColumn_cell inside arrange dated read stored here
    | none =>
      have absent : name ∉ daily.storedColumns := by
        intro member
        obtain ⟨entry, stored⟩ := mapM_isOk.mp ⟨columns, reads⟩ name member
        obtain ⟨column, built, -⟩ := except_map_eq_ok.mp stored
        have there := (Dict.get?_ofList functional).mpr ((named name column).mpr ⟨member, built⟩)
        simp [found] at there
      rw [if_neg absent]
      rfl
  have keyed : availableAtKey ∈ (Dict.ofList columns).keys ↔
      "available_at" ∈ daily.storedColumns := by
    rw [Dict.mem_keys_iff]
    constructor
    · rintro ⟨column, found⟩
      exact ((named _ _).mp ((Dict.get?_ofList functional).mp found)).1
    · intro member
      obtain ⟨entry, stored⟩ := mapM_isOk.mp ⟨columns, reads⟩ _ member
      obtain ⟨column, built, -⟩ := except_map_eq_ok.mp stored
      exact ⟨column, (Dict.get?_ofList functional).mpr ((named _ _).mpr ⟨member, built⟩)⟩
  by_cases present : "available_at" ∈ daily.storedColumns
  · rw [if_pos (keyed.mpr present), cells]
    apply if_congr _ rfl rfl
    constructor
    · exact .inl
    · rintro (member | rfl)
      · exact member
      · exact present
  · rw [if_neg fun member => present (keyed.mp member), Dict.get?_set]
    by_cases same : name = "available_at"
    · subst same
      have stored : storeColumn source daily (keysOf source daily) stamped order "available_at" =
          .ok (stampColumn source stamped.1 stamped.2 order) := rfl
      rw [if_pos (show availableAtKey = "available_at".toList from rfl), if_pos (.inr rfl),
        Option.bind_some]
      exact storeColumn_cell inside arrange dated read stored here
    · have differ : availableAtKey ≠ name.toList := fun equal =>
        same (String.toList_inj.mp equal.symm)
      rw [if_neg differ, cells]
      simp [same]

theorem buildStore_eq_error {keys : DailyKeys}
    (stops : buildStore source daily keys stamped order = .error e) : e = .notJson := by
  cases read : daily.storedColumns.mapM fun name =>
      (storeColumn source daily keys stamped order name).map fun column => (name.toList, column) with
  | ok columns => simp [buildStore, read, bind, Except.bind, pure, Except.pure] at stops
  | error e' =>
    simp only [buildStore, read] at stops
    cases stops
    obtain ⟨name, -, here⟩ := mapM_eq_error read
    cases stored : storeColumn source daily keys stamped order name with
    | ok column => simp [stored, Except.map] at here
    | error e'' =>
      simp only [stored, Except.map, Except.error.injEq] at here
      subst here
      unfold storeColumn at stored
      split_ifs at stored
      exact frameColumn_eq_error stored

end Columns

section Loading

variable {source : DailySource Value} {daily : DailyFrame Value}

/-- What the rows are sorted by. -/
def arrangeKey (source : DailySource Value) (daily : DailyFrame Value) (row : String → Value) :
    Instant ×ₗ Nat ×ₗ Text :=
  toLex (availableOf source daily row, toLex (businessKey source daily row))

/-- The number a row is sorted by. -/
def sortKey (source : DailySource Value) (daily : DailyFrame Value) (row : String → Value) :
    Int ×ₗ Nat ×ₗ Nat :=
  toLex (source.epochUs (availableOf source daily row),
    toLex (code (keysOf source daily).dates (dayOf source row),
      code (keysOf source daily).symbols (symbolOf source daily row)))

theorem arrangeKey_le {row other : String → Value} (member : row ∈ daily.rows)
    (member' : other ∈ daily.rows) (le : sortKey source daily row ≤ sortKey source daily other) :
    arrangeKey source daily row ≤ arrangeKey source daily other := by
  have days := code_le_code (sortedDistinct_pairwise _) (@day_mem _ source _ _ member)
    (@day_mem _ source _ _ member')
  have sameDay := code_injOn (@day_mem _ source _ _ member) (@day_mem _ source _ _ member')
  have symbols := code_le_code (sortedDistinct_pairwise _) (@symbol_mem _ source _ _ member)
    (@symbol_mem _ source _ _ member')
  simp only [sortKey, arrangeKey, businessKey, Prod.Lex.toLex_le_toLex,
    source.epochUs_strictMono.lt_iff_lt, source.epochUs_strictMono.injective.eq_iff] at le ⊢
  rcases le with earlier | ⟨same, later | ⟨sameDate, symbol⟩⟩
  · exact .inl earlier
  · exact .inr ⟨same, .inl (lt_of_le_of_ne (days.mp later.le) fun equal =>
      later.ne (sameDay.mpr equal))⟩
  · exact .inr ⟨same, .inr ⟨sameDay.mp sameDate, symbols.mp symbol⟩⟩

/-- The places of the rows of a day. -/
def daySlice (source : DailySource Value) (arranged : List (String → Value)) (day : Nat) :
    List Nat :=
  (List.range arranged.length).filter fun k => arranged[k]?.any fun row => dayOf source row = day

section DayIndex

variable {order : List Nat} {arranged : List (String → Value)}

theorem dayIndex_eq (perm : order.Perm (List.range daily.rows.length))
    (arrange : gather daily.rows order = arranged) :
    dayIndex (keysOf source daily) order =
      Dict.ofList ((keysOf source daily).dates.map fun day => (day, daySlice source arranged day)) ∧
    ((keysOf source daily).dates.map (daySlice source arranged)).flatten.Perm
      (List.range arranged.length) := by
  have inside : ∀ i ∈ order, i < daily.rows.length := fun i member =>
    List.mem_range.mp (perm.mem_iff.mp member)
  by_cases filled : order = []
  · subst filled
    have empty : daily.rows = [] := List.eq_nil_of_length_eq_zero (by simpa using perm.symm.length_eq)
    subst arrange
    simp [dayIndex, keysOf, empty, gather, sortedDistinct, Dict.ofList]
  have byDate : gather (keysOf source daily).dateCodes order =
      arranged.map fun row => code (keysOf source daily).dates (dayOf source row) := by
    rw [← arrange, ← gather_map]
    rfl
  have inTable : ∀ row ∈ arranged, row ∈ daily.rows := by
    intro row member
    rw [← arrange] at member
    obtain ⟨i, -, found⟩ := List.mem_filterMap.mp member
    exact List.mem_of_getElem? found
  have below : ∀ c ∈ arranged.map fun row => code (keysOf source daily).dates (dayOf source row),
      c < (keysOf source daily).dates.length := by
    intro c member
    obtain ⟨row, rowIn, rfl⟩ := List.mem_map.mp member
    exact code_lt_length (day_mem (inTable row rowIn))
  have some : (keysOf source daily).dates.length ≠ 0 := by
    obtain ⟨i, member⟩ := List.exists_mem_of_ne_nil order filled
    have row := @day_mem _ source _ _ (List.getElem_mem (inside i member))
    exact (List.length_pos_of_mem row).ne'
  have pieces := split_argsort some below
  have slices : (List.range (keysOf source daily).dates.length).map (fun c =>
      (List.range (arranged.map fun row =>
        code (keysOf source daily).dates (dayOf source row)).length).filter fun k =>
          (arranged.map fun row => code (keysOf source daily).dates (dayOf source row))[k]? =
            Option.some c) = (keysOf source daily).dates.map (daySlice source arranged) := by
    apply List.ext_getElem?
    intro c
    by_cases coded : c < (keysOf source daily).dates.length
    · have day : (keysOf source daily).dates[c]? = Option.some (keysOf source daily).dates[c] :=
        List.getElem?_eq_getElem coded
      have place : code (keysOf source daily).dates (keysOf source daily).dates[c] = c :=
        List.Nodup.idxOf_getElem (sortedDistinct_nodup _) c coded
      rw [List.getElem?_map, List.getElem?_map, List.getElem?_range coded, day, Option.map_some,
        Option.map_some, List.length_map]
      apply congrArg Option.some
      apply List.filter_congr
      intro k _
      rw [List.getElem?_map]
      cases here : arranged[k]? with
      | none => simp
      | some row =>
        have same := code_injOn (day_mem (inTable row (List.mem_of_getElem? here)))
          (List.getElem_mem (h := coded))
        rw [place] at same
        simp [same]
    · rw [List.getElem?_eq_none (by simpa using coded), List.getElem?_eq_none (by simpa using coded)]
  rw [slices] at pieces
  constructor
  · have whole : dayIndex (keysOf source daily) order = Dict.ofList ((keysOf source daily).dates.zip
        (splitAt (argsort (gather (keysOf source daily).dateCodes order)) 0
          (cumsum 0 (bincount (gather (keysOf source daily).dateCodes order)
            (keysOf source daily).dates.length)).dropLast)) := if_neg filled
    rw [whole, byDate, pieces, List.map_prod_left_eq_zip]
  · have whole := flatten_indices below
    rw [slices] at whole
    have rows := perm_argsort (arranged.map fun row =>
      code (keysOf source daily).dates (dayOf source row))
    rw [whole]
    rwa [List.length_map] at rows

end DayIndex

/-- A market whose store keeps the rows of the table, in this order. -/
structure Keeps (source : DailySource Value) (daily : DailyFrame Value)
    (market : DailyMarketData) (arranged : List (String → Value)) : Prop where
  complete : daily.missingColumns = []
  perm : arranged.Perm daily.rows
  sorted : arranged.Pairwise fun row later =>
    arrangeKey source daily row ≤ arrangeKey source daily later
  distinct : (arranged.map (businessKey source daily)).Nodup
  dated : ∀ row ∈ arranged, (rowDay source row).isSome
  available : ∀ row ∈ arranged, (rowAvailable source daily row).isSome
  cells : ∀ (k : Nat) row, arranged[k]? = some row → ∀ name : String,
    (market.chunk.record k).get? name.toList =
      if name ∈ daily.storedColumns ∨ name = "available_at" then storedCell source daily row name
      else none
  length : market.chunk.length = arranged.length
  epoch : market.chunk.epoch = arranged.map fun row => source.epochUs (availableOf source daily row)
  days : market.dayRows = Dict.ofList (market.tradeDates.map fun day =>
    (day, daySlice source arranged day))
  tradeDates : market.tradeDates = sortedDistinct (arranged.map (dayOf source))
  parts : (market.tradeDates.map (daySlice source arranged)).flatten.Perm
    (List.range arranged.length)

variable {actions : Option (Frame Value)}

theorem load_keeps [DecidableEq Value] {market : DailyMarketData}
    (loaded : DailyMarketData.load source daily actions = .ok market) :
    ∃ arranged, Keeps source daily market arranged := by
  unfold DailyMarketData.load at loaded
  obtain ⟨distributions, -, loaded⟩ := bind_eq_ok.mp loaded
  obtain ⟨complete, loaded⟩ := guard_eq_ok.mp loaded
  obtain ⟨keys, readsKeys, loaded⟩ := bind_eq_ok.mp loaded
  obtain ⟨stamped, readsStamps, loaded⟩ := bind_eq_ok.mp loaded
  obtain ⟨store, builds, loaded⟩ := bind_eq_ok.mp loaded
  obtain ⟨dated, named, distinct, rfl⟩ := readKeys_eq_ok.mp readsKeys
  obtain rfl := pure_eq_ok.mp loaded
  obtain ⟨available, stampCode, codes, stamps⟩ := readStamps_spec dated readsStamps
  have epoch : gather (stamped.2.map source.epochUs) stamped.1 =
      daily.rows.map fun row => source.epochUs (availableOf source daily row) := by
    rw [codes, gather, List.filterMap_map]
    apply List.filterMap_eq_map_iff_forall_eq_some.mpr
    intro row member
    simp [stamps row member]
  have sortKeys : sortKeysOf (gather (stamped.2.map source.epochUs) stamped.1)
      (keysOf source daily) = daily.rows.map (sortKey source daily) := by
    rw [epoch]
    unfold sortKeysOf keysOf
    rw [zipWith_map_map, zipWith_map_map]
    rfl
  let order := argsort (daily.rows.map (sortKey source daily))
  have inside : ∀ i ∈ order, i < daily.rows.length := by
    intro i member
    simpa using mem_argsort.mp member
  have perm : order.Perm (List.range daily.rows.length) := by
    simpa using perm_argsort (daily.rows.map (sortKey source daily))
  have arranges : (gather daily.rows order).Perm daily.rows := perm_gather perm
  rw [sortKeys] at builds ⊢
  refine ⟨gather daily.rows order, not_not.mp complete, arranges, ?_, ?_, ?_, ?_, ?_, ?_, ?_, ?_, ?_,
    ?_⟩
  · have ascending := sorted_argsort (daily.rows.map (sortKey source daily))
    rw [gather_map, List.pairwise_map] at ascending
    exact ascending.imp_of_mem fun member member' le =>
      arrangeKey_le (arranges.mem_iff.mp member) (arranges.mem_iff.mp member') le
  · exact (arranges.map _).nodup_iff.mpr distinct
  · exact fun row member => dated row (arranges.mem_iff.mp member)
  · exact fun row member => available row (arranges.mem_iff.mp member)
  · intro k row here name
    rw [get?_record]
    exact buildStore_cell inside rfl dated readsStamps builds here name
  · exact arranges.length_eq.symm
  · show gather (gather (stamped.2.map source.epochUs) stamped.1) order = _
    rw [epoch, gather_map]
  · exact (dayIndex_eq perm rfl).1
  · exact sortedDistinct_congr fun v => ((arranges.map _).mem_iff).symm
  · exact (dayIndex_eq perm rfl).2

namespace Keeps

variable {market : DailyMarketData} {arranged : List (String → Value)}

theorem stamps_sorted (kept : Keeps source daily market arranged) :
    arranged.Pairwise fun row later =>
      availableOf source daily row ≤ availableOf source daily later := by
  apply kept.sorted.imp
  intro row later le
  rcases Prod.Lex.toLex_le_toLex.mp le with earlier | ⟨same, -⟩
  · exact earlier.le
  · exact same.le

theorem visibleCount_eq (kept : Keeps source daily market arranged) (t : Instant) :
    market.visibleCount source (.aware t) =
      some (arranged.takeWhile fun row => availableOf source daily row ≤ t).length := by
  simp only [DailyMarketData.visibleCount, kept.epoch, List.takeWhile_map, List.length_map,
    Function.comp_def, source.epochUs_strictMono.le_iff_le]

theorem visibleCount_le (kept : Keeps source daily market arranged) (t : Instant) :
    (arranged.takeWhile fun row => availableOf source daily row ≤ t).length ≤
      market.chunk.length := by
  rw [kept.length]
  exact (List.takeWhile_prefix _).length_le

end Keeps

theorem rows_take (market : DailyMarketData) {count : Nat} (inside : count ≤ market.chunk.length) :
    (DailyMarketData.table.rows market.heap count).map Prod.snd =
      some ((List.range count).map fun k => (0, k)) := by
  have pieces : DailyMarketData.table.pieces market.heap = [(0, market.chunk)] := rfl
  have size : Pieces.size Piece.length [(0, market.chunk)] = market.chunk.length := by
    simp [Pieces.size]
  unfold BarTable.rows BarTable.spans
  rw [pieces, Pieces.spans, if_pos (size ▸ inside)]
  rcases Nat.eq_zero_or_pos count with rfl | some
  · rfl
  · have used : min market.chunk.length count = count := min_eq_right inside
    simp only [Pieces.starts, List.zip_cons_cons, List.zip_nil_left, Pieces.spansOf,
      if_neg (Nat.not_le_of_lt some), Nat.sub_zero, used, Option.map_some, Heap.rowsOf]
    simp [DailyMarketData.heap, Heap.add, fillCache, List.range_eq_range']

namespace Keeps

variable {market : DailyMarketData} {arranged : List (String → Value)}

theorem visibleAt_eq (kept : Keeps source daily market arranged) (t : Instant) :
    market.visibleAt source (.aware t) = some (((List.range arranged.length).filter fun k =>
      arranged[k]?.any fun row => availableOf source daily row ≤ t).map fun k => (0, k)) := by
  have rows := rows_take market (kept.visibleCount_le t)
  obtain ⟨out, taken, seen⟩ := Option.map_eq_some_iff.mp rows
  have first := @filter_range_takeWhile _ (fun row => decide (availableOf source daily row ≤ t))
    arranged (kept.stamps_sorted.imp fun le => by
      simp only [decide_eq_true_eq]
      exact le.trans)
  unfold DailyMarketData.visibleAt
  rw [kept.visibleCount_eq, first, ← seen]
  show (DailyMarketData.table.rows market.heap _).bind _ = _
  rw [taken]
  rfl

theorem get?_dayRows (kept : Keeps source daily market arranged) {day : Nat} {offsets : List Nat} :
    market.dayRows.get? day = some offsets ↔
      day ∈ market.tradeDates ∧ offsets = daySlice source arranged day := by
  have functional (d : Nat) (v w : List Nat)
      (h : (d, v) ∈ market.tradeDates.map fun day => (day, daySlice source arranged day))
      (h' : (d, w) ∈ market.tradeDates.map fun day => (day, daySlice source arranged day)) :
      v = w := by
    simp only [List.mem_map, Prod.mk.injEq] at h h'
    obtain ⟨day, -, rfl, rfl⟩ := h
    obtain ⟨day', -, rfl, rfl⟩ := h'
    rfl
  rw [kept.days, Dict.get?_ofList functional]
  simp only [List.mem_map, Prod.mk.injEq]
  constructor
  · rintro ⟨day, member, rfl, rfl⟩
    exact ⟨member, rfl⟩
  · rintro ⟨member, rfl⟩
    exact ⟨day, member, rfl, rfl⟩

theorem symbolAt_eq (kept : Keeps source daily market arranged) {k : Nat} {row : String → Value}
    (here : arranged[k]? = some row) : market.symbolAt k = some (symbolOf source daily row) := by
  have stored : "symbol" ∈ daily.storedColumns := by
    by_contra absent
    have listed : "symbol" ∈ daily.missingColumns := by
      simp [DailyFrame.missingColumns, absent]
    simp [kept.complete] at listed
  have cell := kept.cells k row here "symbol"
  rw [if_pos (.inl stored), get?_record] at cell
  obtain ⟨column, found, reads⟩ := Option.bind_eq_some_iff.mp cell
  have value : column.value k = some (str (symbolOf source daily row)) := by
    unfold Column.cell at reads
    split_ifs at reads
    exact reads
  have held : market.chunk.columns.get? symbolKey = some column := found
  simp [DailyMarketData.symbolAt, held, value]

theorem barsForDay_eq (kept : Keeps source daily market arranged) {day : Nat} {symbol : Text}
    {k : Nat} : (market.barsForDay day).get? symbol = some k ↔
      ∃ row, arranged[k]? = some row ∧ businessKey source daily row = (day, symbol) := by
  have offsets : (market.dayRows.get? day).getD [] = daySlice source arranged day := by
    cases found : market.dayRows.get? day with
    | some offsets => exact (kept.get?_dayRows.mp found).2
    | none =>
      -- no row is of a day without an entry
      have absent : day ∉ market.tradeDates := fun member => by
        simp [kept.get?_dayRows.mpr ⟨member, rfl⟩] at found
      apply Eq.symm
      apply List.filter_eq_nil_iff.mpr
      intro k _
      cases here : arranged[k]? with
      | none => simp
      | some row =>
        simp only [Option.any_some, decide_eq_true_eq]
        rintro rfl
        exact absent (kept.tradeDates ▸ mem_sortedDistinct.mpr
          (List.mem_map.mpr ⟨row, List.mem_of_getElem? here, rfl⟩))
  have listed (symbol : Text) (k : Nat) : (symbol, k) ∈ (daySlice source arranged day).filterMap
      (fun offset => (market.symbolAt offset).map fun symbol => (symbol, offset)) ↔
        ∃ row, arranged[k]? = some row ∧ businessKey source daily row = (day, symbol) := by
    simp only [daySlice, List.mem_filterMap, List.mem_filter, List.mem_range, Option.any_eq_true,
      decide_eq_true_eq, Option.map_eq_some_iff, Prod.mk.injEq, businessKey]
    constructor
    · rintro ⟨offset, ⟨-, row, here, onDay⟩, name, named, rfl, rfl⟩
      rw [kept.symbolAt_eq here] at named
      exact ⟨row, here, onDay, Option.some.inj named⟩
    · rintro ⟨row, here, onDay, named⟩
      exact ⟨k, ⟨(List.getElem?_eq_some_iff.mp here).1, row, here, onDay⟩, symbol,
        by rw [kept.symbolAt_eq here, named], rfl, rfl⟩
  unfold DailyMarketData.barsForDay
  rw [offsets, Dict.get?_ofList, listed]
  intro symbol k k' member member'
  obtain ⟨row, here, key⟩ := (listed symbol k).mp member
  obtain ⟨other, there, key'⟩ := (listed symbol k').mp member'
  have keyed : (arranged.map (businessKey source daily))[k]? = some (day, symbol) := by
    simp [here, key]
  have keyed' : (arranged.map (businessKey source daily))[k']? = some (day, symbol) := by
    simp [there, key']
  obtain ⟨inside, at_k⟩ := List.getElem?_eq_some_iff.mp keyed
  obtain ⟨inside', at_k'⟩ := List.getElem?_eq_some_iff.mp keyed'
  exact (kept.distinct.getElem_inj_iff).mp (at_k.trans at_k'.symm)

end Keeps

variable [DecidableEq Value]

theorem load_duplicate {sample : List (Nat × Text)} :
    DailyMarketData.load source daily actions = .error (.duplicateKeys sample) ↔
      (∃ out, distributionsByExDate source.toFrameSource actions = .ok out) ∧
      daily.missingColumns = [] ∧ readKeys source daily = .error (.duplicateKeys sample) := by
  cases distributed : distributionsByExDate source.toFrameSource actions with
  | error e =>
    simp [DailyMarketData.load, distributed, Except.mapError, bind, Except.bind]
  | ok out =>
    by_cases complete : daily.missingColumns = []
    · cases keyed : readKeys source daily with
      | error e =>
        simp [DailyMarketData.load, distributed, complete, keyed, Except.mapError, bind, Except.bind]
      | ok keys =>
        have others : ∀ sample, DailyMarketData.load source daily actions ≠
            .error (.duplicateKeys sample) := by
          intro sample stops
          cases stamped : readStamps source daily keys with
          | error e =>
            simp [DailyMarketData.load, distributed, complete, keyed, stamped, Except.mapError, bind,
              Except.bind] at stops
            exact readStamps_eq_error stamped sample stops
          | ok stamps =>
            cases stored : buildStore source daily keys stamps (argsort (sortKeysOf
                (gather (stamps.2.map source.epochUs) stamps.1) keys)) with
            | error e =>
              have refused := buildStore_eq_error stored
              simp [DailyMarketData.load, distributed, complete, keyed, stamped, stored,
                Except.mapError, bind, Except.bind, refused] at stops
            | ok store =>
              simp [DailyMarketData.load, distributed, complete, keyed, stamped, stored,
                Except.mapError, bind, Except.bind, pure, Except.pure] at stops
        simp [others]
    · simp [DailyMarketData.load, distributed, complete, Except.mapError, bind, Except.bind, throw,
        throwThe, MonadExceptOf.throw]

theorem load_duplicate_iff :
    (∃ sample, DailyMarketData.load source daily actions = .error (.duplicateKeys sample)) ↔
      Readable source daily actions ∧ ¬ (daily.rows.map (businessKey source daily)).Nodup := by
  simp only [load_duplicate, exists_and_left, readKeys_duplicate]
  constructor
  · rintro ⟨distributed, complete, dated, named, twice⟩
    exact ⟨⟨distributed, complete, dated, named⟩, twice⟩
  · rintro ⟨readable, twice⟩
    exact ⟨readable.distributed, readable.complete, readable.dated, readable.named, twice⟩

/-- Of a daily table, exactly the rows available by an instant are visible then, in the
    order of the store, which keeps the rows of the table; the days part them, and a
    readable table is refused as duplicated exactly when a date and symbol stand twice,
    in whatever order. -/
theorem daily_visibility (source : DailySource Value) (daily : DailyFrame Value)
    (actions : Option (Frame Value)) :
    (∀ market, DailyMarketData.load source daily actions = .ok market →
      ∃ arranged, arranged.Perm daily.rows ∧
        (∀ (k : Nat) row, arranged[k]? = some row → ∀ name : String,
          (market.chunk.record k).get? name.toList =
            if name ∈ daily.storedColumns ∨ name = "available_at" then
              storedCell source daily row name
            else none) ∧
        (∀ row ∈ arranged, rowAvailable source daily row = some (availableOf source daily row) ∧
          rowDay source row = some (dayOf source row)) ∧
        (arranged.Pairwise fun row later =>
          arrangeKey source daily row ≤ arrangeKey source daily later) ∧
        (∀ t, market.visibleAt source (.aware t) =
          some (((List.range arranged.length).filter fun k =>
            arranged[k]?.any fun row => availableOf source daily row ≤ t).map fun k => (0, k))) ∧
        (∀ day offsets, market.dayRows.get? day = some offsets ↔
          day ∈ market.tradeDates ∧ offsets = daySlice source arranged day) ∧
        (market.tradeDates.map (daySlice source arranged)).flatten.Perm
          (List.range arranged.length) ∧
        ∀ day symbol k, (market.barsForDay day).get? symbol = some k ↔
          ∃ row, arranged[k]? = some row ∧ businessKey source daily row = (day, symbol)) ∧
    ((∃ sample, DailyMarketData.load source daily actions = .error (.duplicateKeys sample)) ↔
      Readable source daily actions ∧
        ¬ (daily.rows.map (businessKey source daily)).Nodup) ∧
    ∀ rows, rows.Perm daily.rows →
      ((∃ sample, DailyMarketData.load source { daily with rows } actions =
          .error (.duplicateKeys sample)) ↔
        ∃ sample, DailyMarketData.load source daily actions = .error (.duplicateKeys sample)) := by
  refine ⟨fun market loaded => ?_, load_duplicate_iff, fun rows perm => ?_⟩
  · obtain ⟨arranged, kept⟩ := load_keeps loaded
    refine ⟨arranged, kept.perm, kept.cells, fun row member => ?_, kept.sorted,
      fun t => kept.visibleAt_eq t, fun day offsets => kept.get?_dayRows, kept.parts,
      fun day symbol k => kept.barsForDay_eq⟩
    obtain ⟨stamp, available⟩ := Option.isSome_iff_exists.mp (kept.available row member)
    obtain ⟨day, dated⟩ := Option.isSome_iff_exists.mp (kept.dated row member)
    simp [availableOf, available, dayOf, dated]
  · rw [load_duplicate_iff, load_duplicate_iff]
    have keys : (rows.map (businessKey source { daily with rows })).Nodup ↔
        (daily.rows.map (businessKey source daily)).Nodup := (perm.map _).nodup_iff
    rw [keys]
    apply and_congr_left'
    constructor
    · intro readable
      exact ⟨readable.distributed, readable.complete,
        fun row member => readable.dated row (perm.mem_iff.mpr member),
        fun row member => readable.named row (perm.mem_iff.mpr member)⟩
    · intro readable
      exact ⟨readable.distributed, readable.complete,
        fun row member => readable.dated row (perm.mem_iff.mp member),
        fun row member => readable.named row (perm.mem_iff.mp member)⟩

end Loading

end Replay

end AutoTrade
