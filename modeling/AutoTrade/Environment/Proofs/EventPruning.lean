import AutoTrade.Environment.Data.FundamentalEvents
import Mathlib.Algebra.Order.Group.Int
import Mathlib.Data.Int.ConditionallyCompleteOrder
import Mathlib.Data.Int.Order.Basic

/-!
# Skipped month partitions

A partition is named by the Beijing month its rows become visible in, but the window's months are
those of the zones its bounds come in. Skipped partitions hold no row of the window as long as
the bounds fall into the same months in Beijing, or the difference widens the months read.
-/

namespace AutoTrade

open CanonicalCell LakeCell Frame EventCell

theorem flatMap_filter_of_nil {α β : Type} {p : α → Bool} {f : α → List β} {l : List α}
    (dropped : ∀ x ∈ l, p x = false → f x = []) : (l.filter p).flatMap f = l.flatMap f := by
  induction l with
  | nil => rfl
  | cons x xs ih =>
    have rest := ih fun y member => dropped y (List.mem_cons_of_mem _ member)
    rw [List.filter_cons, List.flatMap_cons]
    split
    · rw [List.flatMap_cons, rest]
    · rename_i out
      rw [rest, dropped x List.mem_cons_self (by simpa using out), List.nil_append]

/-- The Beijing month of an instant. -/
def cnMonth (t : Int) : Nat := (Timestamp.mk t 0).inCn.month

theorem cnMonth_mono : Monotone cnMonth := by
  intro s t before
  apply monthOf_mono
  apply Int.toNat_le_toNat
  apply Int.ediv_le_ediv
  · decide
  · exact Int.add_le_add_right before _

section Pruning

variable {Cell : Type} [EventCell Cell]

/-- The partitions of a store hold rows that become visible in the month that names them. -/
def Filed (store : EventStore Cell) : Prop :=
  ∀ directories, store = some directories → ∀ dataset partitions,
    directories dataset = some partitions → ∀ partition ∈ partitions,
      "available_at" ∈ partition.2.columns ∧
      ∀ row ∈ partition.2.rows, ∀ t, visibleFrom partition.2 row = some t →
        partition.1 = cnMonth t

variable (minTs : Option Timestamp) (maxTs : Timestamp) (observed : Bool)

/-- The records of a frame that the window shows. -/
def shownRecords (df : Frame Cell) : List (String → Cell) :=
  (df.rows.filter fun row => inTimeWindow minTs maxTs (eventInstant observed df row)).map df.cells

/-- The rows of the window among all partitions, in their order. -/
def wholeWindow (store : EventStore Cell) (datasets : List String) : List (String → Cell) :=
  datasets.flatMap fun dataset => (sortedPartitions store dataset).flatMap fun partition =>
    shownRecords minTs maxTs observed partition.2

variable (Cell) in
/-- The rows read are the rows of the window among all partitions of a store. Where partitions are
required the reader may raise instead. -/
def ReadsWhole : Prop :=
  ∀ (store : EventStore Cell), Filed store → ∀ datasets,
    (∃ events unparseable, readFundamentalEvents store maxTs datasets minTs false observed =
        .ok (events, unparseable) ∧
      events.records = wholeWindow minTs maxTs observed store datasets) ∧
    ∀ events unparseable, readFundamentalEvents store maxTs datasets minTs true observed =
        .ok (events, unparseable) →
      events.records = wholeWindow minTs maxTs observed store datasets

/-- The months of the bounds take in their Beijing months, unless the window is empty. -/
def MonthsCover : Prop :=
  (∀ bound ∈ minTs, bound.nanos ≤ maxTs.nanos) →
    (observed = true → maxTs.inCn.month ≤ maxTs.month) ∧
    ∀ bound ∈ minTs, bound.month ≤ bound.inCn.month

variable {minTs maxTs observed} {store : EventStore Cell} {datasets : List String}

variable {df : Frame Cell} {frames : List (Frame Cell)}

theorem eventInstant_concatRows (member : df ∈ frames) (dated : "available_at" ∈ df.columns)
    (row : String → Cell) :
    eventInstant observed (concatRows frames) (df.cells row) = eventInstant observed df row := by
  have available : df.cells row "available_at" = row "available_at" := cells_of_mem dated row
  unfold eventInstant
  rw [available]
  split
  · unfold visibleFrom
    rw [available]
    by_cases seen : firstSeenColumn ∈ df.columns
    · have seen' : firstSeenColumn ∈ (concatRows frames).columns :=
        mem_columns_concatRows.mpr ⟨df, member, seen⟩
      simp [seen, seen']
    · have none : df.cells row firstSeenColumn = missing := if_neg seen
      simp [seen, none, missing_na]
  · rfl

theorem Filed.partition (filed : Filed store) {dataset : String} {partition : Nat × Frame Cell}
    (member : partition ∈ sortedPartitions store dataset) :
    "available_at" ∈ partition.2.columns ∧
      ∀ row ∈ partition.2.rows, ∀ t, visibleFrom partition.2 row = some t →
        partition.1 = cnMonth t := by
  rw [sortedPartitions, List.mem_insertionSort] at member
  cases root : store with
  | none => simp [root] at member
  | some directories =>
    cases found : directories dataset with
    | none => simp [root, found] at member
    | some partitions =>
      simp only [root, Option.bind_some, found, Option.getD_some] at member
      exact filed directories root dataset partitions found partition member

theorem records_visible (dated : ∀ df ∈ frames, "available_at" ∈ df.columns) :
    ({ concatRows frames with
        rows := (concatRows frames).rows.filter fun row =>
          inTimeWindow minTs maxTs (eventInstant observed (concatRows frames) row) } :
      Frame Cell).records = frames.flatMap (shownRecords minTs maxTs observed) := by
  have rows : (concatRows frames).rows = frames.flatMap Frame.records := by
    apply rows_concatRows
    intro df member none
    have inside := dated df member
    rw [none] at inside
    cases inside
  rw [records_eq_rows]
  · dsimp only
    rw [rows, List.filter_flatMap]
    apply List.flatMap_congr
    intro df member
    unfold Frame.records shownRecords
    rw [List.filter_map]
    congr 2
    funext row
    exact congrArg _ (eventInstant_concatRows member (dated df member) row)
  · intro row member
    have ⟨inside, _⟩ := List.mem_filter.mp member
    rw [rows] at inside
    have ⟨df, member', here⟩ := List.mem_flatMap.mp inside
    have ⟨row', _, is⟩ := List.mem_map.mp here
    rw [← is]
    exact cells_of_subset (f := df) (g := concatRows frames)
      (fun name has => mem_columns_concatRows.mpr ⟨df, member', has⟩) row'

theorem shownRecords_of_isEmpty (dated : "available_at" ∈ df.columns) (empty : df.isEmpty = true) :
    shownRecords minTs maxTs observed df = [] := by
  simp only [Frame.isEmpty, Bool.or_eq_true, List.isEmpty_iff] at empty
  rcases empty with none | none
  · simp [shownRecords, none]
  · rw [none] at dated
    cases dated

theorem shown_readFrames (filed : Filed store) {dataset : String}
    (skipped : ∀ partition ∈ sortedPartitions store dataset,
      (partition.1 > maxTs.month ∧ observed = true ∨
        ∃ month ∈ minTs.map Timestamp.month, partition.1 < month) →
      shownRecords minTs maxTs observed partition.2 = []) :
    (readFrames store (minTs.map Timestamp.month) maxTs.month observed dataset).flatMap
        (shownRecords minTs maxTs observed) =
      (sortedPartitions store dataset).flatMap fun partition =>
        shownRecords minTs maxTs observed partition.2 := by
  unfold readFrames reachedPartitions
  rw [flatMap_filter_of_nil, List.flatMap_map, flatMap_filter_of_nil, flatMap_filter_of_nil]
  · intro partition member out
    apply skipped partition member
    left
    simpa using out
  · intro partition member out
    apply skipped partition (List.mem_filter.mp member).1
    right
    simpa using out
  · intro df member empty
    have ⟨partition, inside, is⟩ := List.mem_map.mp member
    have here := (List.mem_filter.mp (List.mem_filter.mp inside).1).1
    rw [← is] at empty ⊢
    exact shownRecords_of_isEmpty (filed.partition here).1 (by simpa using empty)

theorem inTimeWindow_eq_true {instant : Option Int} :
    inTimeWindow minTs maxTs instant = true ↔
      ∃ t, instant = some t ∧ t ≤ maxTs.nanos ∧ ∀ bound ∈ minTs, bound.nanos ≤ t := by
  cases instant with
  | none => simp [inTimeWindow]
  | some t => simp [inTimeWindow]

theorem visibleFrom_of_available {df : Frame Cell} {row : String → Cell} {t : Int}
    (available : stamp (row "available_at") = some t) :
    ∃ v, visibleFrom df row = some v ∧ t ≤ v := by
  unfold visibleFrom
  rw [available]
  dsimp only
  split
  · exact ⟨t, rfl, le_refl t⟩
  · split
    · rename_i seen available' _ same
      rw [Option.some.inj same]
      split
      · rename_i later
        exact ⟨seen, rfl, le_of_lt later⟩
      · exact ⟨available', rfl, le_refl _⟩
    · exact ⟨t, rfl, le_refl t⟩

variable {partition : Nat × Frame Cell}

theorem month_of_shown {row : String → Cell} {t : Int}
    (months : ∀ t, visibleFrom partition.2 row = some t → partition.1 = cnMonth t)
    (is : eventInstant observed partition.2 row = some t) :
    cnMonth t ≤ partition.1 ∧ (observed = true → partition.1 = cnMonth t) := by
  unfold eventInstant at is
  cases observed with
  | true => exact ⟨(months t is).ge, fun _ => months t is⟩
  | false =>
    have ⟨v, visible, late⟩ := @visibleFrom_of_available _ _ partition.2 row t is
    rw [months v visible]
    exact ⟨cnMonth_mono late, nofun⟩

theorem MonthsCover.skipped (cover : MonthsCover minTs maxTs observed) (filed : Filed store)
    {dataset : String} (member : partition ∈ sortedPartitions store dataset)
    (outside : partition.1 > maxTs.month ∧ observed = true ∨
      ∃ month ∈ minTs.map Timestamp.month, partition.1 < month) :
    shownRecords minTs maxTs observed partition.2 = [] := by
  have ⟨_, months⟩ := filed.partition member
  unfold shownRecords
  rw [List.map_eq_nil_iff, List.filter_eq_nil_iff]
  intro row inside shown
  have ⟨t, is, below, above⟩ := inTimeWindow_eq_true.mp shown
  have ⟨later, filed⟩ := month_of_shown (months row inside) is
  have ⟨last, first⟩ := cover fun bound given => le_trans (above bound given) below
  rcases outside with ⟨past, watched⟩ | ⟨month, given, early⟩
  · have early := cnMonth_mono below
    rw [← filed watched] at early
    exact absurd past (not_lt.mpr (le_trans early (last watched)))
  · have ⟨bound, given', named⟩ := Option.mem_map.mp given
    have begun := cnMonth_mono (above bound given')
    rw [← named] at early
    exact absurd early (not_lt.mpr (le_trans (first bound given') (le_trans begun later)))

theorem MonthsCover.shown (cover : MonthsCover minTs maxTs observed) (filed : Filed store)
    (datasets : List String) :
    (datasets.flatMap (readFrames store (minTs.map Timestamp.month) maxTs.month observed)).flatMap
        (shownRecords minTs maxTs observed) =
      wholeWindow minTs maxTs observed store datasets := by
  rw [List.flatMap_assoc]
  apply List.flatMap_congr
  intro dataset _
  exact shown_readFrames filed fun partition member => cover.skipped filed member

theorem dated_of_read (filed : Filed store) {minMonth : Option Nat} {maxMonth : Nat}
    (member : df ∈ datasets.flatMap (readFrames store minMonth maxMonth observed)) :
    "available_at" ∈ df.columns := by
  have ⟨dataset, _, inside⟩ := List.mem_flatMap.mp member
  have ⟨partition, here, is⟩ := List.mem_map.mp (List.mem_filter.mp inside).1
  rw [← is]
  exact (filed.partition (List.mem_filter.mp (List.mem_filter.mp here).1).1).1

theorem records_of_ok (filed : Filed store) {requirePartitions : Bool} {events : Frame Cell}
    {unparseable : List Text}
    (ok : readFundamentalEvents store maxTs datasets minTs requirePartitions observed =
      .ok (events, unparseable)) :
    events.records = (datasets.flatMap (readFrames store (minTs.map Timestamp.month) maxTs.month
      observed)).flatMap (shownRecords minTs maxTs observed) := by
  simp only [readFundamentalEvents] at ok
  split at ok
  · rename_i none
    cases ok
    simp [none, Frame.records]
  split at ok
  · cases ok
  split at ok
  · cases ok
  split at ok
  · cases ok
  split at ok
  · rename_i none
    cases ok
    simp [none, Frame.records]
  split at ok
  · cases ok
  · cases ok
    exact records_visible fun df => dated_of_read filed

theorem read_isOk (filed : Filed store) :
    ∃ events unparseable, readFundamentalEvents store maxTs datasets minTs false observed =
      .ok (events, unparseable) := by
  simp only [readFundamentalEvents, Bool.false_eq_true, false_and, if_false]
  split
  · exact ⟨_, _, rfl⟩
  split
  · exact ⟨_, _, rfl⟩
  · rename_i some
    have ⟨df, member⟩ := List.exists_mem_of_ne_nil _ some
    rw [if_neg]
    · exact ⟨_, _, rfl⟩
    · rw [not_not, mem_columns_concatRows]
      exact ⟨df, member, dated_of_read filed member⟩

theorem MonthsCover.readsWhole (cover : MonthsCover minTs maxTs observed) :
    ReadsWhole Cell minTs maxTs observed := by
  intro store filed datasets
  have whole {requirePartitions : Bool} {events : Frame Cell} {unparseable : List Text}
      (ok : readFundamentalEvents store maxTs datasets minTs requirePartitions observed =
        .ok (events, unparseable)) :
      events.records = wholeWindow minTs maxTs observed store datasets :=
    (records_of_ok filed ok).trans (cover.shown filed datasets)
  constructor
  · have ⟨events, unparseable, ok⟩ := @read_isOk _ _ minTs maxTs observed store datasets filed
    exact ⟨events, unparseable, ok, whole ok⟩
  · intro events unparseable ok
    exact whole ok

/-- A store of one event that becomes available at an instant. -/
def oneEvent (Cell : Type) [EventCell Cell] (dataset : String) (t : Int) : EventStore Cell :=
  some fun name => if name = dataset then
    some [(cnMonth t, ⟨["available_at"], [fun _ => stamped t]⟩)] else none

theorem filed_oneEvent (dataset : String) (t : Int) : Filed (oneEvent Cell dataset t) := by
  intro directories root name partitions found partition member
  cases root
  dsimp only at found
  split at found
  · cases found
    rw [List.mem_singleton] at member
    subst member
    refine ⟨List.mem_cons_self, ?_⟩
    intro row inside v visible
    rw [List.mem_singleton] at inside
    subst inside
    have is : visibleFrom (⟨["available_at"], [fun _ => stamped t]⟩ : Frame Cell)
        (fun _ => stamped t) = some t := by
      simp [visibleFrom, firstSeenColumn, stamp_stamped]
    rw [is] at visible
    rw [Option.some.inj visible]
  · cases found

theorem ReadsWhole.reached (reads : ReadsWhole Cell minTs maxTs observed) {t : Int}
    (below : t ≤ maxTs.nanos) (above : ∀ bound ∈ minTs, bound.nanos ≤ t) :
    ¬ (cnMonth t > maxTs.month ∧ observed = true) ∧
      ∀ bound ∈ minTs, bound.month ≤ cnMonth t := by
  have filed := @filed_oneEvent Cell _ "dividend" t
  have ⟨⟨events, unparseable, ok, whole⟩, _⟩ := reads _ filed ["dividend"]
  have records := records_of_ok filed ok
  rw [whole] at records
  have shown : inTimeWindow minTs maxTs (eventInstant observed
      (⟨["available_at"], [fun _ => stamped t]⟩ : Frame Cell) (fun _ => stamped t)) = true := by
    refine inTimeWindow_eq_true.mpr ⟨t, ?_, below, above⟩
    simp [eventInstant, visibleFrom, firstSeenColumn, stamp_stamped]
  have sorted : sortedPartitions (oneEvent Cell "dividend" t) "dividend" =
      [(cnMonth t, ⟨["available_at"], [fun _ => stamped t]⟩)] := by
    simp [sortedPartitions, oneEvent]
  by_contra skipped
  have none : readFrames (oneEvent Cell "dividend" t) (minTs.map Timestamp.month) maxTs.month
      observed "dividend" = [] := by
    unfold readFrames reachedPartitions
    rw [sorted]
    by_cases past : cnMonth t > maxTs.month ∧ observed = true
    · rw [List.filter_cons_of_neg (by simpa using past)]
      rfl
    · have ⟨bound, given, early⟩ : ∃ bound ∈ minTs, cnMonth t < bound.month := by
        simpa [past] using skipped
      have before : ∃ month ∈ minTs.map Timestamp.month, cnMonth t < month :=
        ⟨bound.month, Option.mem_map_of_mem Timestamp.month given, early⟩
      rw [List.filter_cons_of_pos (by rw [decide_eq_true_eq]; exact past), List.filter_nil,
        List.filter_cons_of_neg (by simpa using before)]
      rfl
  simp [wholeWindow, sorted, none, shownRecords, shown] at records

theorem ReadsWhole.monthsCover (reads : ReadsWhole Cell minTs maxTs observed) :
    MonthsCover minTs maxTs observed := by
  intro filled
  have last := reads.reached (le_refl maxTs.nanos) filled
  constructor
  · intro watched
    exact not_lt.mp fun past => last.1 ⟨past, watched⟩
  · intro bound given
    have own := reads.reached (filled bound given) (fun other given' => by
      rw [Option.mem_unique given' given])
    exact own.2 bound given

/-- The rows read are the rows of the window, for every store, exactly if the window is empty or
the month of its end is not before its Beijing month, nor that of its start past it. -/
theorem readsWhole_iff (Cell : Type) [EventCell Cell] (minTs : Option Timestamp) (maxTs : Timestamp)
    (observed : Bool) :
    ReadsWhole Cell minTs maxTs observed ↔ MonthsCover minTs maxTs observed :=
  ⟨ReadsWhole.monthsCover, MonthsCover.readsWhole⟩

end Pruning

/-- A cell that holds an instant or nothing. -/
structure EventValue where
  instant : Option Int

namespace EventValue

/-- The text of the cell, the instant by its count of nanoseconds. -/
def text (cell : EventValue) : Text :=
  match cell.instant with
  | none => []
  | some t => (if t < 0 then ['-'] else []) ++ (toString t.natAbs).toList

instance : EventCell EventValue where
  canonical := text
  str := text
  hashable _ := true
  Code := Option Int
  code := instant
  decidableCode := inferInstance
  missing := ⟨none⟩
  blank := ⟨none⟩
  dateText := text
  stamp := instant
  notna cell := cell.instant.isSome
  missing_na := rfl
  stamped t := ⟨some t⟩
  stamp_stamped _ := rfl

/-- Midnight in Beijing on the first of February 2024, in UTC. -/
def february : Timestamp := ⟨firstDay (2023 * 12 + 1) * nanosPerDay - 8 * nanosPerHour, 0⟩

/-- Up to the first instant of February in Beijing, which is January in UTC, the partition of
February is skipped. -/
theorem february_is_skipped : ¬ ∀ (minTs : Option Timestamp) (maxTs : Timestamp) (observed : Bool),
    ReadsWhole EventValue minTs maxTs observed := by
  intro claimed
  have cover := (claimed none february true).monthsCover
  have early := (cover (by simp)).1 rfl
  have begun := le_firstDay (2023 * 12 + 1)
  have here : ((february.nanos + 8 * nanosPerHour) / nanosPerDay).toNat =
      firstDay (2023 * 12 + 1) := by
    simp only [february, nanosPerDay, nanosPerHour]
    omega
  have before : ((february.nanos + 0) / nanosPerDay).toNat < firstDay (2023 * 12 + 1) := by
    simp only [february, nanosPerDay, nanosPerHour]
    omega
  have month : february.inCn.month = 2023 * 12 + 1 := by
    change monthOf ((february.nanos + 8 * nanosPerHour) / nanosPerDay).toNat = _
    rw [here, monthOf_firstDay]
  rw [month] at early
  exact absurd early (not_le.mpr (monthOf_lt_of_lt before))

end EventValue

end AutoTrade
