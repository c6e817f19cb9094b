import AutoTrade.DataSources.Tushare.WindowRefresh

/-!
# What a window refresh leaves of a partition

Which stored rows a refresh replaces is decided by their date, and which of two rows is left by
their key. A row of the answer that is dated outside the window is found by neither, when its
partition has no keys: each refresh adds it again.
-/

namespace AutoTrade

open CanonicalCell RevisionValue LakeCell Frame

variable {Cell : Type} [LakeCell Cell]

namespace Frame

theorem mem_columns_dated {f : Frame Cell} {dateColumn name : String} :
    name ∈ (f.dated dateColumn).columns ↔ name ∈ f.columns ∨ name = dateColumn := by
  unfold dated
  split
  · rename_i inside
    constructor
    · exact .inl
    · rintro (member | rfl)
      · exact member
      · exact inside
  · simp

theorem dated_of_mem {f : Frame Cell} {dateColumn : String} (inside : dateColumn ∈ f.columns) :
    f.dated dateColumn = f := if_pos inside

theorem length_dated (f : Frame Cell) (dateColumn : String) :
    (f.dated dateColumn).rows.length = f.rows.length := by
  unfold dated
  split <;> simp

end Frame

section Refresh

variable (digits : DecimalDigits) (apiName : Text) (existing refreshed : Table Cell)
  (window : DateWindow) (dateColumns keyColumns : List String)

/-- The frame with a date column, where there is one. -/
def Frame.datedBy : Option String → Frame Cell → Frame Cell
  | none, f => f
  | some dateColumn, f => f.dated dateColumn

/-- Whether a row falls into the window; where there is no date column every row does. -/
def inWindow : Option String → (String → Cell) → Bool
  | none, _ => true
  | some dateColumn, row => dateInWindow digits window dateColumn row

/-- What the answer is merged with; a partition without rows has no columns of its own. -/
def mergedWith : Frame Cell := if existing.isEmpty then refreshed.toFrame else existing.toFrame

/-- The column the rows are dated by. -/
def refreshDateColumn : Option String :=
  windowDateColumn (mergedWith existing refreshed) refreshed.toFrame dateColumns

/-- The stored rows. -/
def storedRows : List (String → Cell) :=
  (existing.datedBy (refreshDateColumn existing refreshed dateColumns)).records

/-- The rows of the answer. -/
def answerRows : List (String → Cell) :=
  (refreshed.datedBy (refreshDateColumn existing refreshed dateColumns)).records

/-- The stored rows that the window leaves. -/
def outsideRows : List (String → Cell) :=
  (storedRows existing refreshed dateColumns).filter fun row =>
    !inWindow digits window (refreshDateColumn existing refreshed dateColumns) row

/-- The last row of each key, or every row where the rows have no keys. -/
def lastRows (columns : List String) (rows : List (String → Cell)) : List (String → Cell) :=
  if Keyed keyColumns columns then lasts (rowKey keyColumns) rows else rows

/-- The rows of the window, and no others, have become those of the answer. -/
structure Replaces (merged : Frame Cell) : Prop where
  answer : ∀ row ∈ lastRows keyColumns merged.columns (answerRows existing refreshed dateColumns),
    row ∈ merged.records
  single : Keyed keyColumns merged.columns →
    ∀ row ∈ answerRows existing refreshed dateColumns,
      (merged.records.filter fun r => rowKey keyColumns r = rowKey keyColumns row).length = 1
  outside : ∀ row ∈ storedRows existing refreshed dateColumns,
    inWindow digits window (refreshDateColumn existing refreshed dateColumns) row = false →
    (Keyed keyColumns merged.columns → ∀ other ∈ answerRows existing refreshed dateColumns,
      rowKey keyColumns other ≠ rowKey keyColumns row) →
    row ∈ merged.records
  inside : ∀ row ∈ storedRows existing refreshed dateColumns,
    inWindow digits window (refreshDateColumn existing refreshed dateColumns) row = true →
    row ∉ answerRows existing refreshed dateColumns → row ∉ merged.records

/-- The same records under the same columns, in whatever order these are. -/
structure SameContent (f g : Frame Cell) : Prop where
  records : f.records = g.records
  columns : ∀ name, name ∈ f.columns ↔ name ∈ g.columns

/-- A refresh replaces the rows of its window, changes nothing when it is made again, and refuses
an empty answer where the window holds rows. -/
structure Refreshes : Prop where
  replaces : ∀ merged, windowMergedPartition digits apiName (some existing.toFrame)
      refreshed.toFrame window dateColumns keyColumns = .ok merged →
    Replaces digits existing refreshed window dateColumns keyColumns merged
  again : ∀ merged, windowMergedPartition digits apiName (some existing.toFrame)
      refreshed.toFrame window dateColumns keyColumns = .ok merged →
    ∃ after, windowMergedPartition digits apiName (some merged) refreshed.toFrame window
      dateColumns keyColumns = .ok after ∧ SameContent after merged
  refuses : refreshed.isEmpty = true →
    (∃ row ∈ storedRows existing refreshed dateColumns,
      inWindow digits window (refreshDateColumn existing refreshed dateColumns) row = true) →
    ∀ (σ : Type) (stored : σ → Option (Frame Cell))
      (publish : PublishRequest Cell → σ → σ × PublishOutcome) (fields : List String)
      (deduplicate : Bool) (state : σ), stored state = some existing.toFrame →
      ∃ defect, writeWindowMergedPartition digits stored publish apiName refreshed.toFrame fields
        keyColumns dateColumns window deduplicate state = (state, .error defect)

/-- The columns of the refreshed partition. -/
def mergedColumns : List String :=
  ((mergedWith existing refreshed).datedBy
      (refreshDateColumn existing refreshed dateColumns)).columns ++
    (refreshed.datedBy (refreshDateColumn existing refreshed dateColumns)).columns

/-- When a refresh does what it should: an answer that is stored as it came repeats no key, stored
rows outside the window that share a key are equal, unless the answer has the key, and where there
are no keys the answer is dated inside the window. -/
structure Tame : Prop where
  fresh : existing.isEmpty = true ∨ refreshDateColumn existing refreshed dateColumns = none →
    Keyed keyColumns refreshed.columns →
    ((answerRows existing refreshed dateColumns).map (rowKey keyColumns)).Nodup
  kept : ¬ (refreshed.isEmpty = true ∧ ∃ row ∈ storedRows existing refreshed dateColumns,
      inWindow digits window (refreshDateColumn existing refreshed dateColumns) row = true) →
    Keyed keyColumns (mergedColumns existing refreshed dateColumns) →
    ∀ row ∈ storedRows existing refreshed dateColumns,
    ∀ row' ∈ storedRows existing refreshed dateColumns,
      inWindow digits window (refreshDateColumn existing refreshed dateColumns) row = false →
      inWindow digits window (refreshDateColumn existing refreshed dateColumns) row' = false →
      rowKey keyColumns row = rowKey keyColumns row' →
      (∀ other ∈ answerRows existing refreshed dateColumns,
        rowKey keyColumns other ≠ rowKey keyColumns row) → row = row'
  dated : ¬ Keyed keyColumns (mergedColumns existing refreshed dateColumns) →
    ∀ row ∈ answerRows existing refreshed dateColumns,
      inWindow digits window (refreshDateColumn existing refreshed dateColumns) row = true

variable {digits apiName existing refreshed window dateColumns keyColumns}

variable {columns columns' : List String}

theorem Keyed.congr (same : ∀ name, name ∈ columns ↔ name ∈ columns') :
    Keyed keyColumns columns ↔ Keyed keyColumns columns' := by
  simp only [Keyed, same]

theorem lastRows_congr (same : ∀ name, name ∈ columns ↔ name ∈ columns')
    (rows : List (String → Cell)) :
    lastRows keyColumns columns rows = lastRows keyColumns columns' rows := by
  unfold lastRows
  exact if_congr (Keyed.congr same) rfl rfl

variable {rows : List (String → Cell)}

theorem mem_of_mem_lastRows {columns : List String} {row : String → Cell}
    (member : row ∈ lastRows keyColumns columns rows) : row ∈ rows := by
  unfold lastRows at member
  split at member
  · exact mem_of_mem_lasts member
  · exact member

/-- A merge of two frames by a date column. -/
structure MergedAt (digits : DecimalDigits) (window : DateWindow) (keyColumns : List String)
    (dateColumn : String) (f g : Frame Cell) (merged : Frame Cell × Nat) : Prop where
  records : merged.1.records = lastRows keyColumns merged.1.columns
    (((f.dated dateColumn).records.filter fun row => !dateInWindow digits window dateColumn row) ++
      (g.dated dateColumn).records)
  columns : ∀ name, name ∈ merged.1.columns ↔
    name ∈ (f.dated dateColumn).columns ∨ name ∈ (g.dated dateColumn).columns
  held : merged.2 =
    ((f.dated dateColumn).records.filter (dateInWindow digits window dateColumn)).length

theorem filter_records {f : Frame Cell} {pick : (String → Cell) → Bool}
    (same : ∀ row, pick (f.cells row) = pick row) :
    (f.rows.filter pick).map f.cells = f.records.filter pick := by
  unfold records
  rw [List.filter_map]
  congr 2
  funext row
  exact (same row).symm

variable {dateColumn : String}

theorem dateInWindow_cells {f : Frame Cell} (inside : dateColumn ∈ f.columns)
    (row : String → Cell) : dateInWindow digits window dateColumn (f.cells row) =
      dateInWindow digits window dateColumn row := by
  unfold dateInWindow
  rw [cells_of_mem inside]

theorem records_concatRows {f g : Frame Cell} (filled : f.columns ≠ []) (filled' : g.columns ≠ []) :
    (concatRows [f, g]).rows = f.records ++ g.records ∧
      ∀ row ∈ f.records ++ g.records, (concatRows [f, g]).cells row = row := by
  have wide {h : Frame Cell} (member : h ∈ [f, g]) :
      ∀ name ∈ h.columns, name ∈ (concatRows [f, g]).columns := fun name inside =>
    mem_columns_concatRows.mpr ⟨h, member, inside⟩
  have rows := @rows_concatRows _ _ [f, g] (by simp [filled, filled'])
  constructor
  · simpa using rows
  · intro row member
    rcases List.mem_append.mp member with member | member
    · have ⟨row', _, is⟩ := List.mem_map.mp member
      rw [← is, cells_of_subset (wide (by simp))]
    · have ⟨row', _, is⟩ := List.mem_map.mp member
      rw [← is, cells_of_subset (wide (by simp))]

theorem mergedAt_of_some {f g : Frame Cell} {dateColumn : String} (filled : f.isEmpty = false)
    (found : windowDateColumn f g dateColumns = some dateColumn) :
    MergedAt digits window keyColumns dateColumn f g
      (mergeExistingWindowRows digits f g window dateColumns keyColumns) := by
  have inside : dateColumn ∈ (f.dated dateColumn).columns := mem_columns_dated.mpr (.inr rfl)
  have inside' : dateColumn ∈ (g.dated dateColumn).columns := mem_columns_dated.mpr (.inr rfl)
  let outer : Frame Cell := { f.dated dateColumn with
    rows := (f.dated dateColumn).rows.filter fun row => !dateInWindow digits window dateColumn row }
  have outerRecords : outer.records = (f.dated dateColumn).records.filter
      fun row => !dateInWindow digits window dateColumn row :=
    @filter_records _ _ (f.dated dateColumn) _ fun row =>
      congrArg not (dateInWindow_cells inside row)
  have ⟨rows, whole⟩ := @records_concatRows _ _ outer (g.dated dateColumn)
    (List.ne_nil_of_mem inside) (List.ne_nil_of_mem inside')
  have columns (name : String) : name ∈ (concatRows [outer, g.dated dateColumn]).columns ↔
      name ∈ (f.dated dateColumn).columns ∨ name ∈ (g.dated dateColumn).columns := by
    rw [mem_columns_concatRows]
    simp [outer]
  have held : ((f.dated dateColumn).rows.filter (dateInWindow digits window dateColumn)).length =
      ((f.dated dateColumn).records.filter (dateInWindow digits window dateColumn)).length := by
    rw [← filter_records (dateInWindow_cells inside), List.length_map]
  rw [outerRecords] at rows whole
  unfold mergeExistingWindowRows
  rw [if_neg (by simp [filled]), found]
  simp only
  split
  · rename_i keyed
    refine ⟨?_, columns, held⟩
    rw [lastRows, if_pos keyed, ← rows]
    apply records_eq_rows
    intro row member
    exact whole row (rows ▸ mem_of_mem_lasts member)
  · rename_i unkeyed
    refine ⟨?_, columns, held⟩
    rw [lastRows, if_neg unkeyed, ← rows]
    apply records_eq_rows
    intro row member
    exact whole row (rows ▸ member)

theorem merge_of_none {f g : Frame Cell} (filled : f.isEmpty = false)
    (missing : windowDateColumn f g dateColumns = none) :
    mergeExistingWindowRows digits f g window dateColumns keyColumns = (g, f.rows.length) := by
  unfold mergeExistingWindowRows
  rw [if_neg (by simp [filled]), missing]

theorem merge_of_empty {f g : Frame Cell} (empty : f.isEmpty = true) :
    mergeExistingWindowRows digits f g window dateColumns keyColumns = (g, 0) := if_pos empty

theorem windowDateColumn_merged {f g merged : Frame Cell}
    (found : windowDateColumn f g dateColumns = some dateColumn)
    (columns : ∀ name, name ∈ merged.columns ↔
      name ∈ (f.dated dateColumn).columns ∨ name ∈ (g.dated dateColumn).columns) :
    windowDateColumn merged g dateColumns = some dateColumn := by
  have is := List.find?_some found
  rw [← found]
  unfold windowDateColumn at is ⊢
  congr 1
  funext name
  by_cases same : name = dateColumn
  · subst same
    have inside := (columns name).mpr (.inl (mem_columns_dated.mpr (.inr rfl)))
    simp only [decide_eq_true_eq] at is
    simp [is, inside]
  · simp [columns, mem_columns_dated, same]

theorem windowMergedPartition_eq_ok {f g merged : Frame Cell} :
    windowMergedPartition digits apiName (some f) g window dateColumns keyColumns = .ok merged ↔
      ¬ (g.isEmpty = true ∧
        (mergeExistingWindowRows digits f g window dateColumns keyColumns).2 ≠ 0) ∧
      (mergeExistingWindowRows digits f g window dateColumns keyColumns).1 = merged := by
  simp only [windowMergedPartition]
  split
  · rename_i refused
    simp [refused]
  · rename_i taken
    simp [taken]

theorem merge_again {g merged : Frame Cell} {dateColumn : String} (filled : merged.isEmpty = false)
    (found : windowDateColumn merged g dateColumns = some dateColumn)
    (has : dateColumn ∈ merged.columns)
    (wide : ∀ name ∈ (g.dated dateColumn).columns, name ∈ merged.columns) :
    let after := mergeExistingWindowRows digits merged g window dateColumns keyColumns
    after.1.records = lastRows keyColumns merged.columns
        ((merged.records.filter fun row => !dateInWindow digits window dateColumn row) ++
          (g.dated dateColumn).records) ∧
      (∀ name, name ∈ after.1.columns ↔ name ∈ merged.columns) ∧
      after.2 = (merged.records.filter (dateInWindow digits window dateColumn)).length := by
  have at' := @mergedAt_of_some _ _ digits window _ keyColumns _ _ _ filled found
  have ⟨records, columns, held⟩ := at'
  rw [dated_of_mem has] at records columns held
  have same (name : String) : name ∈ (mergeExistingWindowRows digits merged g window dateColumns
      keyColumns).1.columns ↔ name ∈ merged.columns := by
    rw [columns]
    exact ⟨fun inside => inside.elim id (wide name), .inl⟩
  refine ⟨?_, same, held⟩
  rw [records]
  exact lastRows_congr same _

theorem length_filter_of_nodup {row : String → Cell}
    (distinct : (rows.map (rowKey keyColumns)).Nodup) (member : row ∈ rows) :
    (rows.filter fun r => rowKey keyColumns r = rowKey keyColumns row).length = 1 := by
  have only := List.count_eq_one_of_mem distinct (List.mem_map_of_mem member)
  rw [List.count_eq_length_filter, List.filter_map, List.length_map] at only
  rw [← only]
  congr 2
  funext r
  by_cases same : rowKey keyColumns r = rowKey keyColumns row <;> simp [same]

omit [LakeCell Cell] in
theorem Table.rows_eq_nil {t : Table Cell} (empty : t.isEmpty = true) : t.rows = [] := by
  simp only [Frame.isEmpty, Bool.or_eq_true, List.isEmpty_iff] at empty
  exact empty.elim id t.cells

theorem records_datedBy_eq_nil {f : Frame Cell} {d : Option String} :
    (f.datedBy d).records = [] ↔ f.rows = [] := by
  rw [Frame.records, List.map_eq_nil_iff, ← List.length_eq_zero_iff, ← List.length_eq_zero_iff]
  cases d with
  | none => rfl
  | some dateColumn => rw [datedBy, length_dated]

omit [LakeCell Cell] in
theorem refreshDateColumn_of_filled (filled : existing.isEmpty = false) :
    refreshDateColumn existing refreshed dateColumns =
      windowDateColumn existing.toFrame refreshed.toFrame dateColumns := by
  simp [refreshDateColumn, mergedWith, filled]

omit [LakeCell Cell] in
theorem refreshDateColumn_of_empty (empty : existing.isEmpty = true) :
    refreshDateColumn existing refreshed dateColumns =
      windowDateColumn refreshed.toFrame refreshed.toFrame dateColumns := by
  simp [refreshDateColumn, mergedWith, empty]

theorem answerRows_of_unmerged
    (unmerged : existing.isEmpty = true ∨ refreshDateColumn existing refreshed dateColumns = none) :
    answerRows existing refreshed dateColumns = refreshed.records := by
  unfold answerRows
  cases found : refreshDateColumn existing refreshed dateColumns with
  | none => rfl
  | some dateColumn =>
    have empty : existing.isEmpty = true := by simpa [found] using unmerged
    rw [refreshDateColumn_of_empty empty] at found
    have is := List.find?_some found
    simp only [or_self, decide_eq_true_eq] at is
    rw [datedBy, dated_of_mem is.2]

/-- The rows of a partition are those of the answer, with the stored rows outside the window. -/
structure Merged (digits : DecimalDigits) (existing refreshed : Table Cell) (window : DateWindow)
    (dateColumns keyColumns : List String) (merged : Frame Cell) : Prop where
  filled : existing.isEmpty = false
  found : refreshDateColumn existing refreshed dateColumns ≠ none
  records : merged.records = lastRows keyColumns merged.columns
    (outsideRows digits existing refreshed window dateColumns ++
      answerRows existing refreshed dateColumns)
  columns : ∀ name, name ∈ merged.columns ↔ name ∈ mergedColumns existing refreshed dateColumns
  answered : refreshed.isEmpty = true → ∀ row ∈ storedRows existing refreshed dateColumns,
    inWindow digits window (refreshDateColumn existing refreshed dateColumns) row = false

theorem storedRows_of_empty (empty : existing.isEmpty = true) :
    storedRows existing refreshed dateColumns = [] :=
  records_datedBy_eq_nil.mpr (Table.rows_eq_nil empty)

theorem held_ne_zero_iff :
    (mergeExistingWindowRows digits existing.toFrame refreshed.toFrame window dateColumns
      keyColumns).2 ≠ 0 ↔
    ∃ row ∈ storedRows existing refreshed dateColumns,
      inWindow digits window (refreshDateColumn existing refreshed dateColumns) row = true := by
  cases filled : existing.isEmpty with
  | true => simp [merge_of_empty filled, storedRows_of_empty filled]
  | false =>
    have column := @refreshDateColumn_of_filled _ _ refreshed dateColumns filled
    cases found : windowDateColumn existing.toFrame refreshed.toFrame dateColumns with
    | none =>
      simp only [Frame.isEmpty, Bool.or_eq_false_iff, List.isEmpty_eq_false_iff] at filled
      obtain ⟨row, member⟩ := List.exists_mem_of_ne_nil _ filled.1
      have here := column.trans found
      rw [merge_of_none (by simp [Frame.isEmpty, filled]) found, storedRows, here]
      constructor
      · intro _
        exact ⟨existing.toFrame.cells row, List.mem_map_of_mem member, rfl⟩
      · intro _
        simpa using filled.1
    | some dateColumn =>
      have at' := @mergedAt_of_some _ _ digits window _ keyColumns _ _ _ filled found
      rw [at'.held, storedRows, column.trans found, ← Nat.pos_iff_ne_zero,
        List.length_filter_pos_iff]
      rfl

variable {merged : Frame Cell}

theorem merged_of_ok
    (ok : windowMergedPartition digits apiName (some existing.toFrame) refreshed.toFrame window
      dateColumns keyColumns = .ok merged) :
    ((existing.isEmpty = true ∨ refreshDateColumn existing refreshed dateColumns = none) ∧
        merged = refreshed.toFrame) ∨
      Merged digits existing refreshed window dateColumns keyColumns merged := by
  have ⟨answered, is⟩ := windowMergedPartition_eq_ok.mp ok
  cases filled : existing.isEmpty with
  | true =>
    rw [merge_of_empty filled] at is
    exact .inl ⟨.inl rfl, is.symm⟩
  | false =>
    have column := @refreshDateColumn_of_filled _ _ refreshed dateColumns filled
    cases found : windowDateColumn existing.toFrame refreshed.toFrame dateColumns with
    | none =>
      rw [merge_of_none filled found] at is
      exact .inl ⟨.inr (column.trans found), is.symm⟩
    | some dateColumn =>
      have here := column.trans found
      have at' := @mergedAt_of_some _ _ digits window _ keyColumns _ _ _ filled found
      right
      subst is
      refine ⟨filled, by simp [here], ?_, ?_, ?_⟩
      · rw [outsideRows, storedRows, answerRows, here]
        exact at'.records
      · intro name
        rw [at'.columns, mergedColumns, List.mem_append, here]
        simp [mergedWith, filled, datedBy]
      · intro empty row member
        by_contra inside
        rw [Bool.not_eq_false] at inside
        exact answered ⟨empty, held_ne_zero_iff.mpr ⟨row, member, inside⟩⟩

theorem again_iff
    (ok : windowMergedPartition digits apiName (some existing.toFrame) refreshed.toFrame window
      dateColumns keyColumns = .ok merged)
    (here : refreshDateColumn existing refreshed dateColumns = some dateColumn)
    (filled : merged.isEmpty = false) :
    (∃ after, windowMergedPartition digits apiName (some merged) refreshed.toFrame window
        dateColumns keyColumns = .ok after ∧ SameContent after merged) ↔
      lastRows keyColumns merged.columns
        ((merged.records.filter fun row => !dateInWindow digits window dateColumn row) ++
          answerRows existing refreshed dateColumns) = merged.records := by
  have ⟨found, has, wide, answered⟩ : windowDateColumn merged refreshed.toFrame dateColumns =
        some dateColumn ∧ dateColumn ∈ merged.columns ∧
      (∀ name ∈ (refreshed.dated dateColumn).columns, name ∈ merged.columns) ∧
      (refreshed.isEmpty = true → ∀ row ∈ merged.records,
        dateInWindow digits window dateColumn row = false) := by
    rcases merged_of_ok ok with ⟨unmerged, rfl⟩ | shape
    · have empty : existing.isEmpty = true := by simpa [here] using unmerged
      have found := (refreshDateColumn_of_empty empty).symm.trans here
      have is := List.find?_some found
      simp only [or_self, decide_eq_true_eq] at is
      refine ⟨found, is.2, ?_, ?_⟩
      · rw [dated_of_mem is.2]
        exact fun _ => id
      · intro none
        simp [none] at filled
    · have found := (refreshDateColumn_of_filled shape.filled).symm.trans here
      have columns (name : String) : name ∈ merged.columns ↔
          name ∈ (existing.dated dateColumn).columns ∨
            name ∈ (refreshed.dated dateColumn).columns := by
        rw [shape.columns, mergedColumns, List.mem_append, here]
        simp [mergedWith, shape.filled, datedBy]
      refine ⟨windowDateColumn_merged found columns, ?_, ?_, ?_⟩
      · exact (columns dateColumn).mpr (.inl (mem_columns_dated.mpr (.inr rfl)))
      · exact fun name inside => (columns name).mpr (.inr inside)
      · intro none row member
        rw [shape.records] at member
        have ans : answerRows existing refreshed dateColumns = [] :=
          records_datedBy_eq_nil.mpr (Table.rows_eq_nil none)
        rw [ans, List.append_nil] at member
        have outer := (List.mem_filter.mp (mem_of_mem_lastRows member)).2
        rw [here] at outer
        simpa [inWindow] using outer
  have ⟨records, columns, held⟩ :=
    @merge_again _ _ digits window dateColumns keyColumns _ _ _ filled found has wide
  have ans : answerRows existing refreshed dateColumns =
      (refreshed.dated dateColumn).records := by rw [answerRows, here]; rfl
  rw [ans, ← records]
  constructor
  · rintro ⟨after, taken, same⟩
    rw [(windowMergedPartition_eq_ok.mp taken).2]
    exact same.records
  · intro same
    refine ⟨_, windowMergedPartition_eq_ok.mpr ⟨?_, rfl⟩, same, columns⟩
    rintro ⟨none, some⟩
    rw [held, List.filter_eq_nil_iff.mpr (by simpa using answered none)] at some
    exact some rfl

theorem again_of_undated
    (undated : refreshDateColumn existing refreshed dateColumns = none ∨ refreshed.isEmpty = true) :
    windowMergedPartition digits apiName (some refreshed.toFrame) refreshed.toFrame window
      dateColumns keyColumns = .ok refreshed.toFrame := by
  apply windowMergedPartition_eq_ok.mpr
  cases filled : refreshed.isEmpty with
  | true => simp [merge_of_empty filled]
  | false =>
    have column : refreshDateColumn existing refreshed dateColumns = none := by
      simpa [filled] using undated
    have missing : windowDateColumn refreshed.toFrame refreshed.toFrame dateColumns = none := by
      apply List.find?_eq_none.mpr
      intro name member
      have here := List.find?_eq_none.mp column name member
      simp only [decide_eq_true_eq, not_and, not_or, or_self] at here ⊢
      exact fun named => (here named).2
    simp [merge_of_none filled missing]

theorem Tame.replaces (tame : Tame digits existing refreshed window dateColumns keyColumns)
    (ok : windowMergedPartition digits apiName (some existing.toFrame) refreshed.toFrame window
      dateColumns keyColumns = .ok merged) :
    Replaces digits existing refreshed window dateColumns keyColumns merged := by
  rcases merged_of_ok ok with ⟨unmerged, rfl⟩ | shape
  · have answered := answerRows_of_unmerged unmerged
    refine ⟨?_, ?_, ?_, ?_⟩
    · intro row member
      exact answered ▸ mem_of_mem_lastRows member
    · intro keyed row member
      have distinct := tame.fresh unmerged keyed
      rw [answered] at distinct member
      exact length_filter_of_nodup distinct member
    · intro row member outside
      rcases unmerged with empty | column
      · rw [storedRows_of_empty empty] at member
        cases member
      · rw [column] at outside
        cases outside
    · intro row _ _ other
      rwa [answered] at other
  · have within {row : String → Cell} (member : row ∈ merged.records) :
        row ∈ outsideRows digits existing refreshed window dateColumns ∨
        row ∈ answerRows existing refreshed dateColumns := by
      rw [shape.records] at member
      exact List.mem_append.mp (mem_of_mem_lastRows member)
    refine ⟨?_, ?_, ?_, ?_⟩
    · intro row member
      rw [shape.records]
      unfold lastRows at member ⊢
      split at member
      · rename_i keyed
        rw [if_pos keyed, lasts_append]
        exact List.mem_append_right _ member
      · rename_i unkeyed
        rw [if_neg unkeyed]
        exact List.mem_append_right _ member
    · intro keyed row member
      rw [shape.records, lastRows, if_pos keyed]
      have ⟨left, kept, same⟩ := @exists_mem_lasts _ _ _ (rowKey keyColumns) _ _
        (List.mem_append_right (outsideRows digits existing refreshed window dateColumns) member)
      rw [← same]
      exact length_filter_of_nodup (nodup_lasts _) kept
    · intro row member outside unrepeated
      have outer : row ∈ outsideRows digits existing refreshed window dateColumns :=
        List.mem_filter.mpr ⟨member, by simp [outside]⟩
      rw [shape.records]
      unfold lastRows
      split
      · rename_i keyed
        have ⟨left, kept, same⟩ := @exists_mem_lasts _ _ _ (rowKey keyColumns) _ _
          (List.mem_append_left (answerRows existing refreshed dateColumns) outer)
        have own : left = row := by
          rcases List.mem_append.mp (mem_of_mem_lasts kept) with stored | other
          · have ⟨member', outside'⟩ := List.mem_filter.mp stored
            apply tame.kept _ ((Keyed.congr shape.columns).mp keyed) left member' row member
            · simpa using outside'
            · exact outside
            · exact same
            · exact fun other answered => same ▸ unrepeated keyed other answered
            · rintro ⟨none, row', member'', inside⟩
              rw [shape.answered none row' member''] at inside
              cases inside
          · exact absurd same (unrepeated keyed left other)
        exact own ▸ kept
      · exact List.mem_append_left _ outer
    · intro row member inside other here
      rcases within here with stored | answered
      · have outside := (List.mem_filter.mp stored).2
        simp [inside] at outside
      · exact other answered

theorem lastRows_again {columns : List String} {outer answer : List (String → Cell)}
    {left : (String → Cell) → Bool} (outside : ∀ row ∈ outer, left row = true) :
    lastRows keyColumns columns
        ((lastRows keyColumns columns (outer ++ answer)).filter left ++ answer) =
      lastRows keyColumns columns (outer ++ answer) ↔
    (¬ Keyed keyColumns columns → ∀ row ∈ answer, left row = false) := by
  unfold lastRows
  split
  · rename_i keyed
    simp [keyed, lasts_filter_append outside]
  · rename_i unkeyed
    rw [List.filter_append, List.filter_eq_self.mpr outside]
    constructor
    · intro same _ row member
      have length := congrArg List.length same
      simp only [List.length_append] at length
      have none : (answer.filter left).length = 0 := by omega
      rw [List.length_eq_zero_iff, List.filter_eq_nil_iff] at none
      simpa using none row member
    · intro taken
      have none : answer.filter left = [] := by
        apply List.filter_eq_nil_iff.mpr
        simpa using taken unkeyed
      rw [none, List.append_nil]

theorem Merged.isEmpty_eq_false
    (shape : Merged digits existing refreshed window dateColumns keyColumns merged) :
    merged.isEmpty = false := by
  by_contra empty
  have none : merged.records = [] := by
    obtain ⟨dateColumn, found⟩ := Option.ne_none_iff_exists'.mp shape.found
    have dated : dateColumn ∈ merged.columns := by
      rw [shape.columns, mergedColumns, found]
      exact List.mem_append_left _ (mem_columns_dated.mpr (.inr rfl))
    have rows : merged.rows = [] := by
      simpa [Frame.isEmpty, List.ne_nil_of_mem dated] using empty
    simp [Frame.records, rows]
  have rows : outsideRows digits existing refreshed window dateColumns ++
      answerRows existing refreshed dateColumns = [] := by
    rw [shape.records, lastRows] at none
    split at none
    · apply List.eq_nil_iff_forall_not_mem.mpr
      intro row member
      obtain ⟨left, kept, _⟩ := @exists_mem_lasts _ _ _ (rowKey keyColumns) _ _ member
      rw [none] at kept
      cases kept
    · exact none
  obtain ⟨outer, answer⟩ := List.append_eq_nil_iff.mp rows
  -- nothing is left of the stored rows, nor refused
  have answered : refreshed.isEmpty = true := by
    simp [Frame.isEmpty, records_datedBy_eq_nil.mp answer]
  have stored : storedRows existing refreshed dateColumns = [] := by
    apply List.eq_nil_iff_forall_not_mem.mpr
    intro row member
    have outside := shape.answered answered row member
    exact List.filter_eq_nil_iff.mp outer row member (by simp [outside])
  have filled := shape.filled
  simp [Frame.isEmpty, records_datedBy_eq_nil.mp stored] at filled

theorem outsideRows_outside
    (here : refreshDateColumn existing refreshed dateColumns = some dateColumn) :
    ∀ row ∈ outsideRows digits existing refreshed window dateColumns,
      (!dateInWindow digits window dateColumn row) = true := by
  intro row member
  have outer := (List.mem_filter.mp member).2
  rwa [here] at outer

theorem again_iff_dated
    (ok : windowMergedPartition digits apiName (some existing.toFrame) refreshed.toFrame window
      dateColumns keyColumns = .ok merged)
    (distinct : existing.isEmpty = true → Keyed keyColumns refreshed.columns →
      ((answerRows existing refreshed dateColumns).map (rowKey keyColumns)).Nodup) :
    (∃ after, windowMergedPartition digits apiName (some merged) refreshed.toFrame window
        dateColumns keyColumns = .ok after ∧ SameContent after merged) ↔
      (¬ Keyed keyColumns (mergedColumns existing refreshed dateColumns) →
        ∀ row ∈ answerRows existing refreshed dateColumns,
          inWindow digits window (refreshDateColumn existing refreshed dateColumns) row =
            true) := by
  rcases merged_of_ok ok with ⟨unmerged, rfl⟩ | shape
  · have answered := answerRows_of_unmerged unmerged
    cases here : refreshDateColumn existing refreshed dateColumns with
    | none =>
      have same := @again_of_undated _ _ digits apiName existing refreshed window dateColumns
        keyColumns (.inl here)
      constructor
      · intro _ _ row _
        rfl
      · intro _
        exact ⟨_, same, rfl, fun _ => Iff.rfl⟩
    | some dateColumn =>
      have empty : existing.isEmpty = true := by simpa [here] using unmerged
      have columns (name : String) : name ∈ mergedColumns existing refreshed dateColumns ↔
          name ∈ refreshed.columns := by
        have found := (refreshDateColumn_of_empty empty).symm.trans here
        have is := List.find?_some found
        simp only [or_self, decide_eq_true_eq] at is
        simp [mergedColumns, mergedWith, empty, here, datedBy, dated_of_mem is.2]
      cases filled : refreshed.isEmpty with
      | true =>
        have same := @again_of_undated _ _ digits apiName existing refreshed window dateColumns
          keyColumns (.inr filled)
        have none : answerRows existing refreshed dateColumns = [] :=
          records_datedBy_eq_nil.mpr (Table.rows_eq_nil filled)
        constructor
        · intro _ _ row member
          rw [none] at member
          cases member
        · intro _
          exact ⟨_, same, rfl, fun _ => Iff.rfl⟩
      | false =>
        have own : lastRows keyColumns refreshed.columns
            ([] ++ answerRows existing refreshed dateColumns) =
              answerRows existing refreshed dateColumns := by
          unfold lastRows
          split
          · exact lasts_eq_self (distinct empty ‹_›)
          · rfl
        have again := @lastRows_again _ _ keyColumns refreshed.columns []
          (answerRows existing refreshed dateColumns)
          (fun row => !dateInWindow digits window dateColumn row) (by simp)
        rw [own] at again
        rw [again_iff ok here filled, ← answered, again, Keyed.congr columns]
        simp [inWindow]
  · have ⟨dateColumn, here⟩ := Option.ne_none_iff_exists'.mp shape.found
    rw [again_iff ok here shape.isEmpty_eq_false, shape.records,
      lastRows_again (outsideRows_outside here), Keyed.congr shape.columns, here]
    simp [inWindow]

theorem ok_of_answered
    (answered : ¬ (refreshed.isEmpty = true ∧ ∃ row ∈ storedRows existing refreshed dateColumns,
      inWindow digits window (refreshDateColumn existing refreshed dateColumns) row = true)) :
    windowMergedPartition digits apiName (some existing.toFrame) refreshed.toFrame window
      dateColumns keyColumns = .ok (mergeExistingWindowRows digits existing.toFrame
        refreshed.toFrame window dateColumns keyColumns).1 := by
  refine windowMergedPartition_eq_ok.mpr ⟨?_, rfl⟩
  rintro ⟨empty, held⟩
  exact answered ⟨empty, held_ne_zero_iff.mp held⟩

theorem write_refused (empty : refreshed.isEmpty = true)
    (held : ∃ row ∈ storedRows existing refreshed dateColumns,
      inWindow digits window (refreshDateColumn existing refreshed dateColumns) row = true)
    {σ : Type} {stored : σ → Option (Frame Cell)}
    {publish : PublishRequest Cell → σ → σ × PublishOutcome} {fields : List String}
    {deduplicate : Bool} {state : σ} (read : stored state = some existing.toFrame) :
    ∃ defect, writeWindowMergedPartition digits stored publish apiName refreshed.toFrame fields
      keyColumns dateColumns window deduplicate state = (state, .error defect) := by
  simp only [writeWindowMergedPartition, read, windowMergedPartition]
  rw [if_pos ⟨empty, held_ne_zero_iff.mpr held⟩]
  exact ⟨_, rfl⟩

theorem Tame.refreshes (tame : Tame digits existing refreshed window dateColumns keyColumns) :
    Refreshes digits apiName existing refreshed window dateColumns keyColumns where
  replaces _ ok := tame.replaces ok
  again _ ok := (again_iff_dated ok fun empty => tame.fresh (.inl empty)).mpr tame.dated
  refuses empty held _ _ _ _ _ _ read := write_refused empty held read

theorem Refreshes.distinct
    (refreshes : Refreshes digits apiName existing refreshed window dateColumns keyColumns)
    (unmerged : existing.isEmpty = true ∨ refreshDateColumn existing refreshed dateColumns = none)
    (keyed : Keyed keyColumns refreshed.columns) :
    ((answerRows existing refreshed dateColumns).map (rowKey keyColumns)).Nodup := by
  cases filled : refreshed.isEmpty with
  | true =>
    have none : answerRows existing refreshed dateColumns = [] :=
      records_datedBy_eq_nil.mpr (Table.rows_eq_nil filled)
    simp [none]
  | false =>
    have ok := @ok_of_answered _ _ digits apiName existing refreshed window dateColumns keyColumns
      (by simp [filled])
    rcases merged_of_ok ok with ⟨_, is⟩ | shape
    · rw [is] at ok
      have single := (refreshes.replaces _ ok).single keyed
      rw [answerRows_of_unmerged unmerged] at single ⊢
      apply List.nodup_iff_count_le_one.mpr
      intro key
      by_cases member : key ∈ refreshed.records.map (rowKey keyColumns)
      · have ⟨row, inside, is⟩ := List.mem_map.mp member
        have one := single row inside
        rw [List.count_eq_length_filter, List.filter_map, List.length_map, ← one, ← is]
        apply le_of_eq
        congr 2
        funext r
        by_cases same : rowKey keyColumns r = rowKey keyColumns row <;> simp [same]
      · rw [List.count_eq_zero_of_not_mem member]
        exact Nat.zero_le 1
    · rcases unmerged with empty | column
      · rw [shape.filled] at empty
        cases empty
      · exact absurd column shape.found

theorem Refreshes.tame
    (refreshes : Refreshes digits apiName existing refreshed window dateColumns keyColumns) :
    Tame digits existing refreshed window dateColumns keyColumns where
  fresh unmerged := refreshes.distinct unmerged
  kept answered keyed row member row' member' outside outside' same unrepeated := by
    have ok := @ok_of_answered _ _ digits apiName _ _ _ _ keyColumns answered
    have shape : Merged digits existing refreshed window dateColumns keyColumns
        (mergeExistingWindowRows digits existing.toFrame refreshed.toFrame window dateColumns
          keyColumns).1 := by
      rcases merged_of_ok ok with ⟨empty | column, _⟩ | shape
      · rw [storedRows_of_empty empty] at member
        cases member
      · rw [column] at outside
        cases outside
      · exact shape
    have replaces := refreshes.replaces _ ok
    have inside := replaces.outside row member outside fun _ => unrepeated
    have inside' := replaces.outside row' member' outside' fun _ other answered =>
      same ▸ unrepeated other answered
    rw [shape.records, lastRows, if_pos ((Keyed.congr shape.columns).mpr keyed)] at inside inside'
    exact List.inj_on_of_nodup_map (nodup_lasts _) inside inside' same
  dated unkeyed row member := by
    have answered : refreshed.isEmpty = false := by
      by_contra empty
      rw [answerRows,
        records_datedBy_eq_nil.mpr (Table.rows_eq_nil (by simpa using empty))] at member
      cases member
    have ok := @ok_of_answered _ _ digits apiName existing refreshed window dateColumns keyColumns
      (by simp [answered])
    have again := refreshes.again _ ok
    exact (again_iff_dated ok fun empty => refreshes.distinct (.inl empty)).mp again unkeyed row
      member

/-- A refresh replaces the rows of its window, once and for all, exactly if an answer that is
stored as it came repeats no key, stored rows outside the window share no key but one that the
answer has, and an answer to a partition without keys is dated inside the window. -/
theorem refreshes_iff_tame (digits : DecimalDigits) (apiName : Text)
    (existing refreshed : Table Cell) (window : DateWindow) (dateColumns keyColumns : List String) :
    Refreshes digits apiName existing refreshed window dateColumns keyColumns ↔
      Tame digits existing refreshed window dateColumns keyColumns :=
  ⟨Refreshes.tame, Tame.refreshes⟩

end Refresh

/-- A cell that holds a text or none, its digits ASCII. -/
structure SparseCell where
  text : Option Text
  deriving DecidableEq

namespace SparseCell

/-- `str` of the cell, which is `nan` where it is missing. -/
def print (cell : SparseCell) : Text := cell.text.getD "nan".toList

instance : LakeCell SparseCell where
  canonical cell :=
    match canonicalRevisionValue asciiDigits cell.print with
    | .ok t => t
    | .error _ => []
  str := print
  hashable _ := true
  Code := Option Text
  code := text
  decidableCode := inferInstance
  missing := ⟨none⟩
  blank := ⟨some []⟩
  dateText := print

/-- A table of announcements of one stock on the dates given. -/
def announced (dates : List String) : Table SparseCell where
  columns := ["ts_code", "ann_date"]
  rows := dates.map fun date column => if column = "ann_date" then ⟨some date.toList⟩ else
    ⟨some "000001.SZ".toList⟩
  cells none := nomatch none

/-- A row without a date is added by every refresh of a partition without keys. -/
theorem undated_row_is_doubled : ¬ ∀ (apiName : Text) (existing refreshed : Table SparseCell)
    (window : DateWindow) (dateColumns keyColumns : List String),
    Refreshes asciiDigits apiName existing refreshed window dateColumns keyColumns := by
  intro claimed
  have tame := (claimed "dividend".toList (announced ["20240105"]) (announced ["20240105", ""])
    ⟨"20240101".toList, "20240131".toList⟩ ["ann_date"] []).tame
  have unkeyed (columns : List String) : ¬ Keyed [] columns := fun keyed => keyed.1 rfl
  have dated := tame.dated (unkeyed _) _
    (List.mem_map_of_mem (List.mem_cons_of_mem _ List.mem_cons_self))
  exact absurd dated (by decide)

end SparseCell

end AutoTrade
