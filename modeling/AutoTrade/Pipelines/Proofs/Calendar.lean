import AutoTrade.Misc.Runs
import AutoTrade.Misc.Tiling
import AutoTrade.Pipelines.Calendar

/-!
# The stages of an experiment tile its calendar

The research years, the forward period and Held-out follow one another without a
day between or shared, and so do the steps a period is tested in.
-/

namespace AutoTrade

open Calendar Date

/-- The numbers of a window. -/
def numbers (window : Date × Date) : Nat × Nat := (window.1.number, window.2.number)

/-- From the first of a month to the last of one. -/
def WholeMonths (window : Date × Date) : Prop :=
  window.1.day = 1 ∧ window.2.day = daysInMonth window.2.year window.2.month

/-- Windows of so many months each, from a month on. -/
def monthWindows (month length count : Nat) : List (Date × Date) :=
  (List.range count).map fun i =>
    (firstOf (month + i * length), lastOf (month + (i + 1) * length - 1))

section

variable {month length count : Nat}

theorem isMonth_of_le {later : Nat} (earlier : Nat) (within : IsMonth later) (least : 12 ≤ earlier)
    (before : earlier ≤ later) : IsMonth earlier := ⟨least, before.trans_lt within.2⟩

theorem wholeMonths_lastOf {d : Date} (first : d.day = 1) (within : IsMonth month) :
    WholeMonths (d, lastOf month) := by
  have ⟨year, inYear, day⟩ := lastOf_parts within
  refine ⟨first, ?_⟩
  rw [day, year, inYear]

theorem bounds_of_lt {i : Nat} (positive : 0 < length) (inside : i < count) :
    i * length + 1 ≤ (i + 1) * length ∧ (i + 1) * length ≤ count * length := by
  refine ⟨?_, Nat.mul_le_mul_right length inside⟩
  rw [Nat.succ_mul]
  omega

theorem monthWindows_whole (within : IsMonth month) (within' : IsMonth (month + count * length - 1))
    (positive : 0 < length) {window : Date × Date}
    (member : window ∈ monthWindows month length count) : WholeMonths window := by
  have ⟨i, inside, here⟩ := List.mem_map.mp member
  have ⟨low, high⟩ := bounds_of_lt positive (List.mem_range.mp inside)
  have ⟨least, _⟩ := within
  subst here
  have opens := isMonth_of_le (month + i * length) within' (by omega) (by omega)
  exact wholeMonths_lastOf (firstOf_parts opens).2.2
    (isMonth_of_le _ within' (by omega) (by omega))

theorem tiles_monthWindows (within : IsMonth month)
    (within' : IsMonth (month + (count + 1) * length - 1)) (positive : 0 < length) :
    Tiles (firstOf month) (monthWindows month length (count + 1))
      (lastOf (month + (count + 1) * length - 1)) := by
  have ⟨least, _⟩ := within
  have tiles := Tiles.of_range (fun i => firstOf (month + i * length))
    (fun i => lastOf (month + (i + 1) * length - 1)) (n := count) ?_ ?_
  · simpa [monthWindows] using tiles
  · intro i inside
    have ⟨low, high⟩ := bounds_of_lt positive inside
    have opens := isMonth_of_le (month + i * length) within' (by omega) (by omega)
    have ends := isMonth_of_le (month + (i + 1) * length - 1) within' (by omega) (by omega)
    exact (firstOf_mono opens ends (by omega)).trans (firstOf_le_lastOf ends)
  · intro i inside
    have ⟨low, high⟩ := bounds_of_lt positive (show i < count + 1 by omega)
    have ⟨low', high'⟩ := bounds_of_lt positive (show i + 1 < count + 1 by omega)
    have ends := isMonth_of_le (month + (i + 1) * length - 1) within' (by omega) (by omega)
    have same : month + (i + 1) * length - 1 + 1 = month + (i + 1) * length := by omega
    have next := isMonth_of_le (month + (i + 1) * length) within' (by omega) (by omega)
    have adjacent := lastOf_covBy ends (same ▸ next)
    rwa [same] at adjacent

end

section

variable {d e : Date} {month : Nat}

theorem fromIsoFormat_eq_ok {name : String} {value : Nat} :
    fromIsoFormat name value = .ok d ↔ d.number = value := by
  unfold fromIsoFormat
  constructor
  · intro read
    split at read
    · rename_i found
      obtain rfl := Except.ok.inj read
      exact number_of_ofNumber? found
    · cases read
  · rintro rfl
    rw [ofNumber?_number]

theorem inRange_eq_ok {made : Option Date} : inRange made = .ok d ↔ made = some d := by
  cases made with
  | none => exact ⟨nofun, nofun⟩
  | some e => exact ⟨fun same => congrArg some (Except.ok.inj same), fun same => by cases same; rfl⟩

theorem plusMonths_eq {months : Nat} (within : IsMonth (d.monthNumber + months)) :
    plusMonths d months = .ok (firstOf (d.monthNumber + months)) :=
  inRange_eq_ok.mpr (of?_firstOf within)

theorem plusYears_eq {years : Nat} (within : IsMonth (d.monthNumber + years * 12)) :
    plusYears d years = .ok (firstOf (d.monthNumber + years * 12)) := by
  have ⟨first, last⟩ := d.month_spec
  have counted : d.monthNumber = d.year * 12 + (d.month - 1) := rfl
  have year : (d.monthNumber + years * 12) / 12 = d.year + years := by omega
  have inYear : (d.monthNumber + years * 12) % 12 + 1 = d.month := by omega
  have made := of?_firstOf within
  rw [year, inYear] at made
  exact inRange_eq_ok.mpr made

theorem plusYears_eq_ok {years : Nat} (made : plusYears d years = .ok e) :
    e.monthNumber = d.monthNumber + years * 12 ∧ e.day = 1 := by
  have ⟨year, month, day⟩ := of?_eq_some.mp (inRange_eq_ok.mp made)
  refine ⟨?_, day⟩
  unfold monthNumber
  rw [year, month]
  omega

theorem nextDay_lastOf (name : String) (within : IsMonth month) (within' : IsMonth (month + 1)) :
    nextDay name (lastOf month).number = .ok (firstOf (month + 1)).number := by
  have next := previous?_eq_some (previous?_firstOf within within')
  unfold nextDay
  rw [fromIsoFormat_eq_ok.mpr rfl]
  change (inRange (lastOf month).next? >>= fun next => pure next.number) = _
  rw [next]
  rfl

theorem windowBefore_eq (within : IsMonth month) (within' : IsMonth (month + 1)) :
    windowBefore d (firstOf (month + 1)) = .ok (numbers (d, lastOf month)) := by
  unfold windowBefore
  rw [previous?_firstOf within within']
  rfl

theorem monthNumber_lt (first : d.day = 1) (first' : e.day = 1) (before : d < e) :
    d.monthNumber < e.monthNumber := by
  have ⟨low, _⟩ := d.month_spec
  have ⟨low', _⟩ := e.month_spec
  unfold monthNumber
  have := lt_parts before
  omega

end

/-- A period that steps of so many months tile. -/
structure Stepped (start stop : Nat) (months : Int) (first last after : Date) : Prop where
  positive : 1 ≤ months
  begins : first.number = start
  ends : last.number = stop
  next : last.next? = some after
  opens : first.day = 1
  closes : after.day = 1
  forward : first < after
  even : months.toNat ∣ after.monthNumber - first.monthNumber

section

variable {start stop : Nat} {months : Int} {first last after : Date}

theorem span_eq (first after : Date) : after.year * 12 + after.month -
    (first.year * 12 + first.month) = after.monthNumber - first.monthNumber := by
  have ⟨low, _⟩ := first.month_spec
  have ⟨low', _⟩ := after.month_spec
  unfold monthNumber
  omega

theorem Stepped.parts (stepped : Stepped start stop months first last after) : ∃ count,
    (after.monthNumber - first.monthNumber) / months.toNat = count + 1 ∧
      first.monthNumber + (count + 1) * months.toNat = after.monthNumber ∧
      first = firstOf first.monthNumber ∧
      IsMonth (first.monthNumber + (count + 1) * months.toNat - 1) ∧
      last = lastOf (first.monthNumber + (count + 1) * months.toNat - 1) := by
  have positive := stepped.positive
  have before := monthNumber_lt stepped.opens stepped.closes stepped.forward
  have ⟨whole, next, ends⟩ := eq_lastOf stepped.next stepped.closes
  have ⟨count, many⟩ := stepped.even
  have filled : count ≠ 0 := by
    rintro rfl
    omega
  have ⟨count, more⟩ := Nat.exists_eq_succ_of_ne_zero filled
  subst more
  have sum : first.monthNumber + (count + 1) * months.toNat = after.monthNumber := by
    rw [mul_comm] at many
    change after.monthNumber - first.monthNumber = (count + 1) * months.toNat at many
    omega
  refine ⟨count, ?_, sum, eq_firstOf stepped.opens, ?_, ?_⟩
  · rw [many, Nat.mul_div_cancel_left _ (by omega)]
  · rw [sum]
    exact whole
  · rw [sum]
    exact ends

theorem stepWindows_eq_ok {windows : List (Nat × Nat)} :
    stepWindows start stop months = .ok windows ↔ ∃ first last after : Date,
      Stepped start stop months first last after ∧
        windows = (monthWindows first.monthNumber months.toNat
          ((after.monthNumber - first.monthNumber) / months.toNat)).map numbers := by
  have made : ∀ {first last after : Date}, Stepped start stop months first last after →
      (List.range ((after.monthNumber - first.monthNumber) / months.toNat)).mapM (fun index => do
        let opened ← plusMonths first (index * months.toNat)
        let closing ← plusMonths first ((index + 1) * months.toNat)
        windowBefore opened closing) =
      .ok ((monthWindows first.monthNumber months.toNat
        ((after.monthNumber - first.monthNumber) / months.toNat)).map numbers) := by
    intro first last after stepped
    have positive := stepped.positive
    have ⟨count, number, sum, _, whole, _⟩ := stepped.parts
    have ⟨least, _⟩ := first.isMonth_monthNumber
    have afterMonth := after.isMonth_monthNumber
    rw [number, monthWindows, List.map_map]
    refine mapM_eq_map fun index member => ?_
    have step : 0 < months.toNat := by omega
    have ⟨low, high⟩ := bounds_of_lt step (List.mem_range.mp member)
    have opens := isMonth_of_le (first.monthNumber + index * months.toNat) afterMonth
      (by omega) (by omega)
    have closes := isMonth_of_le (first.monthNumber + (index + 1) * months.toNat) afterMonth
      (by omega) (by omega)
    have ends := isMonth_of_le (first.monthNumber + (index + 1) * months.toNat - 1) afterMonth
      (by omega) (by omega)
    have same : first.monthNumber + (index + 1) * months.toNat - 1 + 1 =
        first.monthNumber + (index + 1) * months.toNat := by omega
    rw [plusMonths_eq opens, plusMonths_eq closes]
    have closed := windowBefore_eq (d := firstOf (first.monthNumber + index * months.toNat)) ends
      (same ▸ closes)
    rw [same] at closed
    exact closed
  unfold stepWindows
  constructor
  · intro ok
    dsimp only at ok
    have ⟨positive, ok⟩ := guard_eq_ok.mp ok
    have ⟨first, read, ok⟩ := bind_eq_ok.mp ok
    have ⟨last, read', ok⟩ := bind_eq_ok.mp ok
    have ⟨after, next, ok⟩ := bind_eq_ok.mp ok
    have ⟨bounds, ok⟩ := guard_eq_ok.mp ok
    have ⟨even, ok⟩ := guard_eq_ok.mp ok
    simp only [not_or, not_not, not_le] at bounds even
    rw [span_eq] at even ok
    have stepped : Stepped start stop months first last after :=
      ⟨not_lt.mp positive, fromIsoFormat_eq_ok.mp read, fromIsoFormat_eq_ok.mp read',
        inRange_eq_ok.mp next, bounds.1, bounds.2.1, bounds.2.2, Nat.dvd_of_mod_eq_zero even⟩
    exact ⟨first, last, after, stepped, Except.ok.inj (ok.symm.trans (made stepped))⟩
  · rintro ⟨first, last, after, stepped, rfl⟩
    dsimp only
    refine guard_eq_ok.mpr ⟨not_lt.mpr stepped.positive, ?_⟩
    refine bind_eq_ok.mpr ⟨first, fromIsoFormat_eq_ok.mpr stepped.begins, ?_⟩
    refine bind_eq_ok.mpr ⟨last, fromIsoFormat_eq_ok.mpr stepped.ends, ?_⟩
    refine bind_eq_ok.mpr ⟨after, inRange_eq_ok.mpr stepped.next, ?_⟩
    refine guard_eq_ok.mpr ⟨?_, ?_⟩
    · simp only [not_or, not_not, not_le]
      exact ⟨stepped.opens, stepped.closes, stepped.forward⟩
    · rw [span_eq]
      exact guard_eq_ok.mpr ⟨not_not.mpr (Nat.mod_eq_zero_of_dvd stepped.even), made stepped⟩

end

/-- The days of a slot. -/
def Slot.window (slot : Slot) : Nat × Nat := (slot.start, slot.stop)

/-- The windows cut the days from `start` to `stop`: in order, each beginning on the day after
the one before it ends, and every such day in exactly one of them. -/
structure Partitions (start stop : Nat) (windows : List (Nat × Nat)) : Prop where
  consecutive : ∃ (first last : Date) (cut : List (Date × Date)), first.number = start ∧
    last.number = stop ∧ cut.map numbers = windows ∧ Tiles first cut last
  ordered : windows.Pairwise fun v w => v.2 < w.1
  covers : ∀ day : Date, start ≤ day.number → day.number ≤ stop →
    ∃! w, w ∈ windows ∧ w.1 ≤ day.number ∧ day.number ≤ w.2

theorem Tiles.partitions {first last : Date} {cut : List (Date × Date)}
    (tiles : Tiles first cut last) :
    Partitions first.number last.number (cut.map numbers) where
  consecutive := ⟨first, last, cut, rfl, rfl, rfl, tiles⟩
  ordered := List.pairwise_map.mpr tiles.pairwise
  covers day after before := by
    have ⟨w, ⟨member, inside⟩, only⟩ := tiles.existsUnique (x := day) after before
    refine ⟨numbers w, ⟨List.mem_map_of_mem member, inside⟩, ?_⟩
    rintro v ⟨there, around⟩
    have ⟨v', member', same⟩ := List.mem_map.mp there
    subst same
    exact congrArg numbers (only v' ⟨member', around⟩)

namespace ResearchGeometry

/-- Whole years from the first of a month, a further year after them, and a later last day. -/
structure Years (g : ResearchGeometry) (start last : Date) (count : Nat) : Prop where
  begins : start.number = g.researchStart
  opens : start.day = 1
  within : IsMonth (start.monthNumber + (count + 1) * 12)
  positive : 0 < count
  researchEnds : (lastOf (start.monthNumber + count * 12 - 1)).number = g.researchEnd
  forwardEnds : (lastOf (start.monthNumber + (count + 1) * 12 - 1)).number = g.forwardEnd
  heldoutEnds : last.number = g.heldoutEnd
  later : g.forwardEnd < g.heldoutEnd

variable (g : ResearchGeometry)

theorem exists_years : ∃ start last count, g.Years start last count := by
  have checked := g.checked
  unfold postInit at checked
  have ⟨start, read, checked⟩ := bind_eq_ok.mp checked
  have ⟨last, read', checked⟩ := bind_eq_ok.mp checked
  have ⟨_, _, checked⟩ := bind_eq_ok.mp checked
  have ⟨final, read'', checked⟩ := bind_eq_ok.mp checked
  have ⟨anniversary, next, checked⟩ := bind_eq_ok.mp checked
  have ⟨bounds, checked⟩ := guard_eq_ok.mp checked
  have ⟨closing, year, checked⟩ := bind_eq_ok.mp checked
  have ⟨expected, previous, checked⟩ := bind_eq_ok.mp checked
  have ⟨same, checked⟩ := guard_eq_ok.mp checked
  simp only [not_or, not_not, not_le] at bounds same
  have ⟨opens, opens', month, later⟩ := bounds
  have ⟨number, day⟩ := plusYears_eq_ok year
  have ⟨_, _, ends⟩ := eq_lastOf (inRange_eq_ok.mp next) opens'
  have ⟨_, _, ends'⟩ := eq_lastOf (previous?_eq_some (inRange_eq_ok.mp previous)) day
  have count : anniversary.monthNumber =
      start.monthNumber + (anniversary.year - start.year) * 12 := by
    unfold monthNumber
    rw [month]
    omega
  have count' : closing.monthNumber =
      start.monthNumber + (anniversary.year - start.year + 1) * 12 := by omega
  rw [count] at ends
  rw [count'] at ends'
  refine ⟨start, final, anniversary.year - start.year, fromIsoFormat_eq_ok.mp read, opens,
    count' ▸ closing.isMonth_monthNumber, by omega, ?_, ?_, fromIsoFormat_eq_ok.mp read'', ?_⟩
  · rw [← ends]
    exact fromIsoFormat_eq_ok.mp read'
  · rw [← ends']
    exact same.symm
  · by_contra early
    rw [if_pos (not_lt.mp early)] at checked
    cases checked

variable {g} {start last : Date} {count : Nat}

namespace Years

variable (years : g.Years start last count)

include years

theorem isMonth {month : Nat} (after : start.monthNumber ≤ month)
    (before : month ≤ start.monthNumber + (count + 1) * 12) : IsMonth month :=
  isMonth_of_le month years.within (start.isMonth_monthNumber.1.trans after) before

theorem forwardStart_eq :
    g.forwardStart = .ok (firstOf (start.monthNumber + count * 12)).number := by
  have positive := years.positive
  have same : start.monthNumber + count * 12 - 1 + 1 = start.monthNumber + count * 12 := by omega
  have ends : IsMonth (start.monthNumber + count * 12 - 1) := years.isMonth (by omega) (by omega)
  have next := nextDay_lastOf "research_end" ends (years.isMonth (by omega) (by omega))
  rw [same, years.researchEnds] at next
  exact next

theorem heldoutStart_eq :
    g.heldoutStart = .ok (firstOf (start.monthNumber + (count + 1) * 12)).number := by
  have same : start.monthNumber + (count + 1) * 12 - 1 + 1 =
      start.monthNumber + (count + 1) * 12 := by omega
  have ends : IsMonth (start.monthNumber + (count + 1) * 12 - 1) :=
    years.isMonth (by omega) (by omega)
  have next := nextDay_lastOf "forward_end" ends (years.isMonth (by omega) (by omega))
  rw [same, years.forwardEnds] at next
  exact next

theorem researchYears_eq : ∃ slots, g.researchYears = .ok slots ∧ slots.map Slot.window =
    (monthWindows start.monthNumber 12 count).map numbers := by
  have positive := years.positive
  have anniversary : IsMonth (start.monthNumber + count * 12) :=
    years.isMonth (by omega) (by omega)
  have ⟨year, _, _⟩ := firstOf_parts anniversary
  have number : start.monthNumber = start.year * 12 + (start.month - 1) := rfl
  have ⟨low, high⟩ := start.month_spec
  have many : (firstOf (start.monthNumber + count * 12)).year - start.year = count := by omega
  refine ⟨(List.range count).map fun i =>
    ⟨s!"Y{i + 1}", (firstOf (start.monthNumber + i * 12)).number,
      (lastOf (start.monthNumber + (i + 1) * 12 - 1)).number,
      (lastOf (start.monthNumber + (i + 1) * 12 - 1)).number⟩, ?_, ?_⟩
  · unfold researchYears
    refine bind_eq_ok.mpr ⟨start, fromIsoFormat_eq_ok.mpr years.begins, ?_⟩
    refine bind_eq_ok.mpr ⟨_, years.forwardStart_eq, ?_⟩
    refine bind_eq_ok.mpr ⟨_, fromIsoFormat_eq_ok.mpr rfl, ?_⟩
    rw [many]
    refine mapM_eq_map fun i member => ?_
    have inside := List.mem_range.mp member
    have ends : IsMonth (start.monthNumber + (i + 1) * 12 - 1) :=
      years.isMonth (by omega) (by omega)
    have closes : IsMonth (start.monthNumber + (i + 1) * 12) :=
      years.isMonth (by omega) (by omega)
    have same : start.monthNumber + (i + 1) * 12 - 1 + 1 = start.monthNumber + (i + 1) * 12 := by
      omega
    rw [plusYears_eq (years.isMonth (by omega) (by omega)), plusYears_eq closes]
    have closed := windowBefore_eq (d := firstOf (start.monthNumber + i * 12)) ends (same ▸ closes)
    rw [same] at closed
    change (windowBefore (firstOf (start.monthNumber + i * 12)) _ >>= _) = _
    rw [closed]
    rfl
  · rw [monthWindows, List.map_map, List.map_map]
    rfl

theorem tiles_years :
    Tiles start (monthWindows start.monthNumber 12 (count + 1))
      (lastOf (start.monthNumber + (count + 1) * 12 - 1)) := by
  have tiles := tiles_monthWindows start.isMonth_monthNumber
    (years.isMonth (by omega) (by omega) : IsMonth (start.monthNumber + (count + 1) * 12 - 1))
    (Nat.zero_lt_succ 11)
  rwa [← eq_firstOf years.opens] at tiles

theorem forward_eq : ∃ slot, g.forward = .ok slot ∧ slot.stop = g.forwardEnd ∧
    slot.window = numbers (firstOf (start.monthNumber + count * 12),
      lastOf (start.monthNumber + (count + 1) * 12 - 1)) := by
  refine ⟨⟨"F", (firstOf (start.monthNumber + count * 12)).number, g.forwardEnd, g.forwardEnd⟩,
    ?_, rfl, ?_⟩
  · unfold forward
    rw [years.forwardStart_eq]
    rfl
  · unfold Slot.window numbers
    rw [years.forwardEnds]

omit years in
theorem windows_append {slots : List Slot} {slot : Slot}
    (each : slots.map Slot.window = (monthWindows start.monthNumber 12 count).map numbers)
    (last : slot.window = numbers (firstOf (start.monthNumber + count * 12),
      lastOf (start.monthNumber + (count + 1) * 12 - 1))) :
    (slots ++ [slot]).map Slot.window =
      (monthWindows start.monthNumber 12 (count + 1)).map numbers := by
  rw [List.map_append, each, List.map_singleton, last, monthWindows, monthWindows,
    List.range_succ, List.map_append, List.map_append]
  rfl

theorem heldout_spec {sessions : List Date} {slot : Slot}
    (made : g.heldout (sessions.map number) = .ok slot) : ∃ session ∈ sessions, ∃ final : Date,
      (∀ s ∈ sessions, s ≤ session) ∧ slot.stop = min g.heldoutEnd session.number ∧
      final.number = slot.stop ∧ firstOf (start.monthNumber + (count + 1) * 12) ≤ final ∧
      slot.window = numbers (firstOf (start.monthNumber + (count + 1) * 12), final) := by
  unfold heldout at made
  split at made
  · cases made
  · rename_i most found
    rw [years.heldoutStart_eq] at made
    have ⟨enough, made⟩ := guard_eq_ok.mp made
    have ⟨there, upper⟩ := List.max?_eq_some_iff.mp found
    have ⟨session, member, same⟩ := List.mem_map.mp there
    subst same
    have built := Except.ok.inj made
    subst built
    have ⟨final, ends⟩ : ∃ final : Date, final.number = min g.heldoutEnd session.number := by
      rcases min_choice g.heldoutEnd session.number with least | least
      · exact ⟨last, years.heldoutEnds.trans least.symm⟩
      · exact ⟨session, least.symm⟩
    refine ⟨session, member, final, fun s m => upper _ (List.mem_map_of_mem m), rfl, ends, ?_, ?_⟩
    · -- the sessions counted lie between the first day of Held-out and its last
      by_contra outside
      refine enough ?_
      rw [List.filter_eq_nil_iff.mpr]
      · exact Nat.zero_lt_succ 7
      · intro day _
        rw [le_iff, ends] at outside
        simp only [decide_eq_true_eq]
        omega
    · unfold Slot.window numbers
      rw [ends]

omit years in
theorem window_of_getElem? {slots : List Slot} {i : Nat} {slot : Slot}
    (each : slots.map Slot.window = (monthWindows start.monthNumber 12 count).map numbers)
    (here : slots[i]? = some slot) :
    slot.window = numbers (firstOf (start.monthNumber + i * 12),
      lastOf (start.monthNumber + (i + 1) * 12 - 1)) := by
  have mapped : (slots.map Slot.window)[i]? = some slot.window := by
    rw [List.getElem?_map, here]
    rfl
  rw [each, List.getElem?_map, monthWindows, List.getElem?_map] at mapped
  have ⟨window, found, same⟩ := Option.map_eq_some_iff.mp mapped
  have ⟨j, index, made⟩ := Option.map_eq_some_iff.mp found
  rw [List.getElem?_eq_some_iff] at index
  have ⟨inside, isIndex⟩ := index
  rw [List.getElem_range] at isIndex
  subst isIndex made
  exact same.symm

end Years

theorem validation_spec {n : Int} {research validation : List Slot}
    (split : g.splitResearch n = .ok (research, validation)) :
    g.researchYears = .ok (research ++ validation) ∧ ∃ final first later,
      research.getLast? = some final ∧ validation = first :: later ∧
      ∀ months horizon windows, validationSteps first later months = .ok (horizon, windows) →
        horizon = final.stop ∧ stepWindows first.start g.researchEnd months = .ok windows := by
  have ⟨start, last, count, years⟩ := g.exists_years
  have ⟨slots, listed, each⟩ := years.researchYears_eq
  have length : slots.length = count := by
    have same := congrArg List.length each
    simpa [monthWindows] using same
  unfold splitResearch at split
  rw [listed] at split
  have ⟨bounds, made⟩ := guard_eq_ok.mp split
  cases made
  have ⟨k, number⟩ : ∃ k : Nat, n = k + 1 := ⟨(n - 1).toNat, by omega⟩
  have toNat : n.toNat = k + 1 := by omega
  have inside : k + 1 < slots.length := by omega
  rw [toNat, List.take_append_drop]
  refine ⟨listed, slots[k], slots[k + 1], slots.drop (k + 2), ?_,
    List.drop_eq_getElem_cons inside, ?_⟩
  · rw [List.getLast?_take, if_neg (Nat.succ_ne_zero k), Nat.add_sub_cancel,
      List.getElem?_eq_getElem (by omega)]
    rfl
  · intro months horizon windows ran
    have opens := Years.window_of_getElem? each (List.getElem?_eq_getElem inside)
    have closes := Years.window_of_getElem? each
      (List.getElem?_eq_getElem (show k < slots.length by omega))
    have whole : (slots[k + 1] :: slots.drop (k + 2)).getLast? = slots[slots.length - 1]? := by
      rw [← List.drop_eq_getElem_cons inside, List.getLast?_drop, if_neg (by omega),
        List.getLast?_eq_getElem?]
    rw [List.getLast?_eq_some_getLast (List.cons_ne_nil _ _)] at whole
    have ends := Years.window_of_getElem? each whole.symm
    have lastMonth : start.monthNumber + (slots.length - 1 + 1) * 12 - 1 =
        start.monthNumber + count * 12 - 1 := by omega
    rw [lastMonth] at ends
    have stop := (congrArg Prod.snd ends).trans years.researchEnds
    unfold validationSteps at ran
    have ⟨_, stepped, ran⟩ := bind_eq_ok.mp ran
    have ⟨day, read, ran⟩ := bind_eq_ok.mp ran
    have ⟨opening, previous, ran⟩ := bind_eq_ok.mp ran
    obtain ⟨rfl, rfl⟩ := Prod.mk.inj (Except.ok.inj ran)
    have opened : day = firstOf (start.monthNumber + (k + 1) * 12) :=
      number_injective ((fromIsoFormat_eq_ok.mp read).trans (congrArg Prod.fst opens))
    have month : start.monthNumber + (k + 1) * 12 - 1 + 1 = start.monthNumber + (k + 1) * 12 := by
      omega
    have before := previous?_firstOf
      (years.isMonth (by omega) (by omega) : IsMonth (start.monthNumber + (k + 1) * 12 - 1))
      (years.isMonth (by omega) (by omega))
    rw [month, ← opened, inRange_eq_ok.mp previous] at before
    refine ⟨?_, stop ▸ stepped⟩
    rw [Option.some.inj before]
    exact (congrArg Prod.snd closes).symm

end ResearchGeometry

theorem Stepped.partitions {start stop : Nat} {months : Int} {first last after : Date}
    (stepped : Stepped start stop months first last after) : ∃ windows,
      stepWindows start stop months = .ok windows ∧ Partitions start stop windows ∧
        ∃ whole : List (Date × Date), windows = whole.map numbers ∧
          ∀ window ∈ whole, WholeMonths window := by
  have ⟨count, number, sum, begins, within, ends⟩ := stepped.parts
  have positive : 0 < months.toNat := by
    have := stepped.positive
    omega
  refine ⟨_, stepWindows_eq_ok.mpr ⟨first, last, after, stepped, rfl⟩, ?_, _, rfl, ?_⟩
  · have tiles := tiles_monthWindows first.isMonth_monthNumber within positive
    rw [← begins, ← ends] at tiles
    rw [number, ← stepped.begins, ← stepped.ends]
    exact tiles.partitions
  · rw [number]
    exact fun window member =>
      monthWindows_whole first.isMonth_monthNumber within positive member

/-- An experiment's stages partition its days, from the first to the last session replayed; and
the steps a period is tested in partition it, whenever it is a whole number of such steps. -/
theorem stages_partition :
    (∀ g : ResearchGeometry, ∃ years forward, g.researchYears = .ok years ∧
      g.forward = .ok forward ∧ forward.stop = g.forwardEnd ∧
      Partitions g.researchStart g.forwardEnd ((years ++ [forward]).map Slot.window) ∧
      ∀ (sessions : List Date) (heldout : Slot),
        g.heldout (sessions.map number) = .ok heldout →
        (∃ session ∈ sessions, (∀ s ∈ sessions, s ≤ session) ∧
          heldout.stop = min g.heldoutEnd session.number) ∧
        Partitions g.researchStart heldout.stop
          ((years ++ [forward, heldout]).map Slot.window)) ∧
    (∀ (g : ResearchGeometry) (n : Int) (research validation : List Slot),
      g.splitResearch n = .ok (research, validation) →
      g.researchYears = .ok (research ++ validation) ∧ ∃ final first later,
        research.getLast? = some final ∧ validation = first :: later ∧
        ∀ months horizon windows, validationSteps first later months = .ok (horizon, windows) →
          horizon = final.stop ∧ Partitions first.start g.researchEnd windows) ∧
    (∀ (start stop : Nat) (months : Int),
      (∃ windows, stepWindows start stop months = .ok windows) ↔
        ∃ first last after, Stepped start stop months first last after) ∧
    ∀ (start stop : Nat) (months : Int) (windows : List (Nat × Nat)),
      stepWindows start stop months = .ok windows →
        Partitions start stop windows ∧ ∃ whole : List (Date × Date),
          windows = whole.map numbers ∧ ∀ window ∈ whole, WholeMonths window := by
  have steps : ∀ (start stop : Nat) (months : Int) (windows : List (Nat × Nat)),
      stepWindows start stop months = .ok windows →
        Partitions start stop windows ∧ ∃ whole : List (Date × Date),
          windows = whole.map numbers ∧ ∀ window ∈ whole, WholeMonths window := by
    intro start stop months windows ran
    have ⟨first, last, after, stepped, _⟩ := stepWindows_eq_ok.mp ran
    have ⟨_, ran', partitions⟩ := stepped.partitions
    obtain rfl := Except.ok.inj (ran'.symm.trans ran)
    exact partitions
  refine ⟨fun g => ?_, fun g n research validation split => ?_, fun start stop months => ?_, steps⟩
  · have ⟨start, last, count, years⟩ := g.exists_years
    have ⟨slots, listed, each⟩ := years.researchYears_eq
    have ⟨forward, made, stop, window⟩ := years.forward_eq
    have both := ResearchGeometry.Years.windows_append each window
    refine ⟨slots, forward, listed, made, stop, ?_, fun sessions heldout clipped => ?_⟩
    · rw [both, ← years.begins, ← years.forwardEnds]
      exact years.tiles_years.partitions
    · have ⟨session, member, final, upper, clip, ends, after, days⟩ := years.heldout_spec clipped
      refine ⟨⟨session, member, upper, clip⟩, ?_⟩
      have adjacent := lastOf_covBy
        (years.isMonth (by omega) (by omega) : IsMonth (start.monthNumber + (count + 1) * 12 - 1))
        (years.isMonth (by omega) (by omega))
      have month : start.monthNumber + (count + 1) * 12 - 1 + 1 =
          start.monthNumber + (count + 1) * 12 := by omega
      rw [month] at adjacent
      have tiles := years.tiles_years.append adjacent (.one after)
      have split : slots ++ [forward, heldout] = slots ++ [forward] ++ [heldout] := by simp
      rw [split, List.map_append, both, ← years.begins, ← ends, List.map_singleton, days,
        ← List.map_singleton, ← List.map_append]
      exact tiles.partitions
  · have ⟨listed, final, first, later, last, same, each⟩ := g.validation_spec split
    refine ⟨listed, final, first, later, last, same, fun months horizon windows ran => ?_⟩
    have ⟨opening, stepped⟩ := each months horizon windows ran
    exact ⟨opening, (steps _ _ _ _ stepped).1⟩
  · constructor
    · rintro ⟨windows, ran⟩
      have ⟨first, last, after, stepped, _⟩ := stepWindows_eq_ok.mp ran
      exact ⟨first, last, after, stepped⟩
    · rintro ⟨first, last, after, stepped⟩
      have ⟨windows, ran, _⟩ := stepped.partitions
      exact ⟨windows, ran⟩

example : stepWindows 20230701 20240630 6 = .ok [(20230701, 20231231), (20240101, 20240630)] := by
  decide

end AutoTrade
