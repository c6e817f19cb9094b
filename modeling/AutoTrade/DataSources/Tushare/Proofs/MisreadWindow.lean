import AutoTrade.DataSources.Tushare.Proofs.EventWindow
import Mathlib.Logic.Equiv.Basic

/-!
# Rows under the fields of an empty half

The fields of the first half of a window stand for both, also where that half is empty and was
served with its fields in another order. A client that swaps two fields everywhere but in the
second half of such a window has its rows misread.
-/

namespace AutoTrade

variable {Cell : Type}

section Steady

variable {held : Holding Cell} {order : Nat → Nat → List String} {limit startDate endDate : Nat}
  {session : List (Exchange Cell)}

/-- A client that serves the rows in one order, the fields in an order for each window. -/
def Holding.steady (held : Holding Cell) (order : Nat → Nat → List String) : Client Cell :=
  fun _ request => .ok
    { fields := order request.startDate request.endDate
      items := (((held.inWindow request.startDate request.endDate).drop request.offset).take
        request.limit).map fun row => (order request.startDate request.endDate).map row.values }

theorem Holding.steady_servedBy (perm : ∀ low high, (order low high).Perm held.fields) :
    held.ServedBy (held.steady order) := by
  intro session request answer answered
  cases answered
  refine ⟨perm _ _, _, ?_, ?_, rfl⟩
  · exact ((List.take_sublist _ _).trans (List.drop_sublist _ _)).subperm
  · rw [List.length_take, List.length_drop]

variable [DecidableEq Cell] {client : Client Cell} {offset : Nat} {positive : 0 < limit}
  {paging : Paging Cell} {answer : ApiResult Cell}

theorem pagesFrom_of_full
    (answered : client paging.session ⟨startDate, endDate, limit, offset⟩ = .ok answer)
    (consistent : ¬ (paging.resultFields ≠ [] ∧ answer.items ≠ [] ∧
      answer.fields ≠ paging.resultFields))
    (unseen : ¬ (answer.items ≠ [] ∧ answer ∈ paging.pagePayloads))
    (full : limit ≤ answer.items.length) (within : offset + limit ≤ vendorMaxOffset) :
    pagesFrom client startDate endDate limit positive false offset paging =
      pagesFrom client startDate endDate limit positive false (offset + limit)
        (paging.add answer
          (paging.session ++ [(⟨startDate, endDate, limit, offset⟩, answer)])) := by
  conv_lhs => rw [pagesFrom]
  have asked : client.ask paging.session ⟨startDate, endDate, limit, offset⟩ =
      .ok (answer, paging.session ++ [(⟨startDate, endDate, limit, offset⟩, answer)]) :=
    Client.ask_eq_ok.mpr ⟨answered, rfl⟩
  simp only [asked, bind, Except.bind]
  rw [if_neg consistent, if_neg (by simpa using unseen), if_neg (not_lt.mpr full),
    if_neg (not_lt.mpr within)]

theorem pagesFrom_of_short
    (answered : ∀ session, client session ⟨startDate, endDate, limit, offset⟩ = .ok answer)
    (consistent : ¬ (paging.resultFields ≠ [] ∧ answer.items ≠ [] ∧
      answer.fields ≠ paging.resultFields))
    (unseen : ¬ (answer.items ≠ [] ∧ answer ∈ paging.pagePayloads))
    (short : answer.items.length < limit) :
    ∃ session, pagesFrom client startDate endDate limit positive false offset paging =
      .ok (paging.add answer session) := by
  rw [pagesFrom]
  have asked (session : List (Exchange Cell)) :
      client.ask session ⟨startDate, endDate, limit, offset⟩ =
        .ok (answer, session ++ [(⟨startDate, endDate, limit, offset⟩, answer)]) :=
    Client.ask_eq_ok.mpr ⟨answered session, rfl⟩
  simp only [asked, bind, Except.bind]
  rw [if_neg consistent, if_neg (by simpa using unseen), if_pos short]
  split
  · rename_i boundary
    rw [if_neg (by simpa using boundary.1)]
    exact ⟨_, rfl⟩
  · exact ⟨_, rfl⟩

omit [DecidableEq Cell] in
theorem Holding.values_injective {fields : List String} (perm : fields.Perm held.fields)
    (day : Nat) :
    ∀ row ∈ held.inWindow day day, ∀ row' ∈ held.inWindow day day,
      fields.map row.values = fields.map row'.values → row = row' := by
  intro row member row' member' same
  simp only [inWindow, List.mem_filter, decide_eq_true_eq] at member member'
  apply List.inj_on_of_nodup_map held.distinct member.1 member'.1
  have cells := List.map_inj_left.mp same
  have same' : held.fields.map row.values = held.fields.map row'.values :=
    List.map_congr_left fun name inside => cells name (perm.mem_iff.mpr inside)
  rw [same', show row.day = row'.day by omega]

theorem steady_pages {day : Nat} (perm : (order day day).Perm held.fields)
    (capped : (held.inWindow day day).length / limit * limit ≤ vendorMaxOffset)
    (whole : limit ∣ offset) (bound : offset ≤ (held.inWindow day day).length)
    (named : paging.resultFields ≠ [] → paging.resultFields = order day day)
    (items : paging.allItems = ((held.inWindow day day).take offset).map
      fun row => (order day day).map row.values)
    (seen : ∀ page ∈ paging.pagePayloads, ∀ item ∈ page.items, item ∈ paging.allItems) :
    ∃ last, pagesFrom (held.steady order) day day limit positive false offset paging = .ok last ∧
      last.resultFields = order day day ∧
      last.allItems = (held.inWindow day day).map fun row => (order day day).map row.values := by
  induction left : (held.inWindow day day).length - offset using Nat.strong_induction_on
    generalizing offset paging with
  | _ n ih =>
    let answer : ApiResult Cell :=
      { fields := order day day
        items := (((held.inWindow day day).drop offset).take limit).map
          fun row => (order day day).map row.values }
    have answered (session : List (Exchange Cell)) :
        held.steady order session ⟨day, day, limit, offset⟩ = .ok answer := rfl
    have consistent : ¬ (paging.resultFields ≠ [] ∧ answer.items ≠ [] ∧
        answer.fields ≠ paging.resultFields) := by
      rintro ⟨some, _, other⟩
      exact other (named some).symm
    have distinct := (held.nodup_inWindow day day)
    have unseen : ¬ (answer.items ≠ [] ∧ answer ∈ paging.pagePayloads) := by
      rintro ⟨filled, member⟩
      have ⟨item, inside⟩ := List.exists_mem_of_ne_nil _ filled
      have earlier := seen answer member item inside
      rw [items] at earlier
      have ⟨row, behind, is⟩ := List.mem_map.mp inside
      have ⟨row', before, is'⟩ := List.mem_map.mp earlier
      have late : row ∈ (held.inWindow day day).drop offset := List.mem_of_mem_take behind
      have same := held.values_injective perm day row (List.mem_of_mem_drop late) row'
        (List.mem_of_mem_take before) (is.trans is'.symm)
      have apart := List.disjoint_take_drop distinct (le_refl offset)
      exact apart (same ▸ before) late
    have added (session : List (Exchange Cell)) :
        (paging.add answer session).resultFields = order day day ∧
        (paging.add answer session).allItems = ((held.inWindow day day).take (offset + limit)).map
          fun row => (order day day).map row.values := by
      constructor
      · unfold Paging.add
        split
        · rfl
        · exact named ‹_›
      · rw [List.take_add, List.map_append, ← items]
        rfl
    have length : answer.items.length = min limit ((held.inWindow day day).length - offset) := by
      rw [List.length_map, List.length_take, List.length_drop]
    by_cases full : limit ≤ answer.items.length
    · have within : offset + limit ≤ vendorMaxOffset := by
        have ⟨pages, count⟩ := whole
        apply le_trans _ capped
        rw [count, ← Nat.mul_succ, Nat.mul_comm]
        apply Nat.mul_le_mul_right
        rw [Nat.le_div_iff_mul_le positive, Nat.mul_comm, Nat.mul_succ, ← count]
        omega
      have ⟨fields, rows⟩ := added (paging.session ++ [(⟨day, day, limit, offset⟩, answer)])
      rw [pagesFrom_of_full (answered _) consistent unseen full within]
      apply ih _ _ (Nat.dvd_add whole (Nat.dvd_refl limit)) _ (fun _ => fields) rows _ rfl
      · omega
      · omega
      · intro page member item inside
        rcases List.mem_cons.mp member with rfl | earlier
        · exact List.mem_append_right _ inside
        · exact List.mem_append_left _ (seen page earlier item inside)
    · have ⟨session, read⟩ := @pagesFrom_of_short _ limit day day _ _ _ positive _ _ answered
        consistent unseen (not_le.mp full)
      have ⟨fields, rows⟩ := added session
      refine ⟨_, read, fields, ?_⟩
      rw [rows, List.take_of_length_le (by omega)]

theorem repeatedRows_of_nodup {items : List (List Cell)} (distinct : items.Nodup) :
    repeatedRows limit items = 0 := by
  unfold repeatedRows
  rw [List.length_eq_zero_iff, List.filter_eq_nil_iff]
  rintro ⟨item, index⟩ member
  have ⟨bound, is⟩ := List.getElem?_eq_some_iff.mp (List.mem_zipIdx_iff_getElem?.mp member)
  have first : items.idxOf item = index := by
    dsimp only at bound is
    rw [← is]
    exact distinct.idxOf_getElem index bound
  simp [first]

theorem queryEventWindow_of_short (ordered : startDate < endDate)
    (answered : client session ⟨startDate, endDate, limit, 0⟩ = .ok answer)
    (short : answer.items.length < limit) :
    queryEventWindow client limit startDate endDate session =
      .ok (answer, 1, session ++ [(⟨startDate, endDate, limit, 0⟩, answer)]) := by
  have asked : client.ask session ⟨startDate, endDate, limit, 0⟩ =
      .ok (answer, session ++ [(⟨startDate, endDate, limit, 0⟩, answer)]) :=
    Client.ask_eq_ok.mpr ⟨answered, rfl⟩
  rw [queryEventWindow, if_pos ordered]
  simp only [asked, bind, Except.bind]
  rw [if_pos short]
  rfl

theorem queryEventWindow_of_halves {between after : List (Exchange Cell)}
    {left right : ApiResult Cell} {leftRequests rightRequests : Nat} (ordered : startDate < endDate)
    (answered : client session ⟨startDate, endDate, limit, 0⟩ = .ok answer)
    (full : limit ≤ answer.items.length)
    (first : queryEventWindow client limit startDate (startDate + (endDate - startDate) / 2)
      (session ++ [(⟨startDate, endDate, limit, 0⟩, answer)]) = .ok (left, leftRequests, between))
    (second : queryEventWindow client limit (startDate + (endDate - startDate) / 2 + 1) endDate
      between = .ok (right, rightRequests, after))
    (alike : ¬ (left.items ≠ [] ∧ right.items ≠ [] ∧ left.fields ≠ right.fields)) :
    queryEventWindow client limit startDate endDate session =
      .ok (⟨if left.fields = [] then right.fields else left.fields, left.items ++ right.items⟩,
        1 + leftRequests + rightRequests, after) := by
  have asked : client.ask session ⟨startDate, endDate, limit, 0⟩ =
      .ok (answer, session ++ [(⟨startDate, endDate, limit, 0⟩, answer)]) :=
    Client.ask_eq_ok.mpr ⟨answered, rfl⟩
  rw [queryEventWindow, if_pos ordered]
  simp only [asked, bind, Except.bind]
  rw [if_neg (not_lt.mpr full)]
  simp only [first, second]
  rw [if_neg alike]
  rfl

theorem steady_day {day : Nat} (perm : (order day day).Perm held.fields) (some : limit ≠ 0)
    (capped : (held.inWindow day day).length / limit * limit ≤ vendorMaxOffset) :
    ∃ result requests after, queryEventWindow (held.steady order) limit day day session =
      .ok (result, requests, after) ∧ result.fields = order day day := by
  have positive : 0 < limit := Nat.pos_of_ne_zero some
  have ⟨last, read, fields, items⟩ := @steady_pages _ held order limit _ 0 positive
    ⟨[], [], [], 0, session⟩ day perm capped (Nat.dvd_zero _) (Nat.zero_le _) (by simp) (by simp)
    (by simp)
  have distinct : last.allItems.Nodup := by
    rw [items]
    exact (held.nodup_inWindow day day).map_on (held.values_injective perm day)
  have paged : queryPaged (held.steady order) day day limit false session =
      .ok (⟨last.resultFields, last.allItems⟩, last.pages, last.session) := by
    unfold queryPaged
    simp only [if_neg some, read, bind, Except.bind]
    rfl
  refine ⟨⟨last.resultFields, last.allItems⟩, last.pages, last.session, ?_, fields⟩
  rw [queryEventWindow, if_neg (lt_irrefl day)]
  simp only [paged, bind, Except.bind]
  rw [if_neg (by simp [some]), if_neg (by simp [repeatedRows_of_nodup distinct])]
  rfl

theorem steady_runs {fields : List String} (perm : ∀ low high, (order low high).Perm held.fields)
    (some : limit ≠ 0)
    (capped : ∀ day, startDate ≤ day → day ≤ endDate →
      (held.inWindow day day).length / limit * limit ≤ vendorMaxOffset)
    (ordered : startDate ≤ endDate)
    (kept : ∀ low high, startDate ≤ low → low ≤ high → high ≤ endDate → order low high = fields) :
    ∃ result requests after, queryEventWindow (held.steady order) limit startDate endDate session =
      .ok (result, requests, after) ∧ result.fields = fields := by
  induction span : endDate - startDate using Nat.strong_induction_on
    generalizing startDate endDate session with
  | _ n ih =>
    have own := kept startDate endDate (le_refl _) ordered (le_refl _)
    rcases Nat.lt_or_eq_of_le ordered with less | rfl
    · let answer : ApiResult Cell :=
        { fields := order startDate endDate
          items := (((held.inWindow startDate endDate).drop 0).take limit).map
            fun row => (order startDate endDate).map row.values }
      have answered : held.steady order session ⟨startDate, endDate, limit, 0⟩ = .ok answer := rfl
      by_cases full : limit ≤ (held.inWindow startDate endDate).length
      · have ⟨left, _, between, first, fields'⟩ := @ih _ (by omega) startDate
          (startDate + (endDate - startDate) / 2)
          (session ++ [(⟨startDate, endDate, limit, 0⟩, answer)])
          (fun day low high => capped day low (by omega)) (by omega)
          (fun low high inside here inside' => kept low high inside here (by omega)) rfl
        have ⟨right, _, _, second, fields''⟩ := @ih _ (by omega)
          (startDate + (endDate - startDate) / 2 + 1) endDate between
          (fun day low high => capped day (by omega) high) (by omega)
          (fun low high inside here inside' => kept low high (by omega) here inside') rfl
        refine ⟨_, _, _, queryEventWindow_of_halves less answered ?_ first second ?_, ?_⟩
        · simpa [answer] using full
        · simp [fields', fields'']
        · simp [fields', fields'']
      · refine ⟨_, _, _, queryEventWindow_of_short less answered ?_, own⟩
        simpa [answer] using Nat.lt_of_not_le full
    · have ⟨result, requests, after, read, fields'⟩ := @steady_day _ held order limit session _ _
        (perm _ _) some (capped _ (le_refl _) (le_refl _))
      exact ⟨result, requests, after, read, fields'.trans own⟩

end Steady

section Complete

variable [DecidableEq Cell] {held : Holding Cell} {limit startDate endDate : Nat}

/-- Whichever client serves the rows, a query raises or returns every row of the window once, each
value under the field it was served with. -/
def Completes (held : Holding Cell) (limit startDate endDate : Nat) : Prop :=
  ∀ client, held.ServedBy client → ∀ session result requests after,
    queryEventWindow client limit startDate endDate session = .ok (result, requests, after) →
    ∃ log, after = session ++ log ∧ Complete held startDate endDate log result

/-- A query returns nothing without a page limit, and nothing of a day that runs past the offset
cap; where it returns rows, no window that is halved has an empty first half. -/
def Legible (held : Holding Cell) (limit startDate endDate : Nat) : Prop :=
  limit = 0 ∨
  (∃ day, startDate ≤ day ∧ day ≤ endDate ∧
    vendorMaxOffset < (held.inWindow day day).length / limit * limit) ∨
  Leading held limit startDate endDate

theorem Legible.completes (legible : Legible held limit startDate endDate) :
    Completes held limit startDate endDate := by
  intro client serves session result requests after ok
  have ⟨log, is, told⟩ := told_of_ok serves ok
  refine ⟨log, is, told.rows, told.once, ?_⟩
  rcases legible with zero | ⟨day, low, high, beyond⟩ | leading
  · intro answer member item inside
    have rows := told.rows
    rw [told.zero zero, eq_comm, List.flatMap_eq_nil_iff] at rows
    rw [rows answer member] at inside
    cases inside
  · by_cases zero : limit = 0
    · simp [zero] at beyond
    · exact absurd (told.capped zero day low high) (not_le.mpr beyond)
  · exact told.served leading

section Swapped

variable {name name' : String} {low high : Nat}

/-- The order that keeps two fields in place in one window, and swaps them everywhere else. -/
def Holding.swapped (held : Holding Cell) (name name' : String) (low high : Nat) :
    Nat → Nat → List String := fun startDate endDate =>
  if low ≤ startDate ∧ endDate ≤ high then held.fields
  else held.fields.map (Equiv.swap name name')

omit [DecidableEq Cell] in
theorem Holding.swapped_perm (inside : name ∈ held.fields) (inside' : name' ∈ held.fields)
    (startDate endDate : Nat) :
    (held.swapped name name' low high startDate endDate).Perm held.fields := by
  unfold swapped
  split
  · exact List.Perm.refl _
  · apply (List.perm_ext_iff_of_nodup (held.named.map (Equiv.swap name name').injective)
      held.named).mpr
    have stays (field : String) (member : field ∈ held.fields) :
        Equiv.swap name name' field ∈ held.fields := by
      rw [Equiv.swap_apply_def]
      split
      · exact inside'
      · split
        · exact inside
        · exact member
    intro field
    constructor
    · intro member
      have ⟨field', member', is⟩ := List.mem_map.mp member
      exact is ▸ stays field' member'
    · intro member
      refine List.mem_map.mpr ⟨_, stays field member, Equiv.swap_apply_self name name' field⟩

omit [DecidableEq Cell] in
theorem Holding.readCell_swapped (inside : name ∈ held.fields) (inside' : name' ∈ held.fields)
    {row : VendorRow Cell} (differ : row.values name ≠ row.values name') :
    readCell (held.fields.map (Equiv.swap name name')) (held.fields.map row.values) ≠
      readCell held.fields (held.fields.map row.values) := by
  intro same
  have values : held.fields.map row.values =
      (held.fields.map (Equiv.swap name name')).map
        fun field => row.values (Equiv.swap name name' field) := by
    rw [List.map_map]
    apply List.map_congr_left
    intro field _
    simp
  have here := congrFun same name
  rw [readCell_map, if_pos inside] at here
  rw [values, readCell_map, if_pos, Equiv.swap_apply_left] at here
  · exact differ (Option.some.inj here).symm
  · exact List.mem_map.mpr ⟨name', inside', Equiv.swap_apply_right name name'⟩

theorem steady_halves {order : Nat → Nat → List String} {fields : List String} (named : fields ≠ [])
    (halves : Halves held limit startDate endDate) {session : List (Exchange Cell)}
    {answer : ApiResult Cell}
    (answered : held.steady order session ⟨startDate, endDate, limit, 0⟩ = .ok answer)
    {left right : ApiResult Cell} {leftRequests rightRequests : Nat}
    {log log' : List (Exchange Cell)}
    (first : queryEventWindow (held.steady order) limit startDate
      (startDate + (endDate - startDate) / 2)
      (session ++ [(⟨startDate, endDate, limit, 0⟩, answer)]) = .ok (left, leftRequests,
        session ++ [(⟨startDate, endDate, limit, 0⟩, answer)] ++ log))
    (second : queryEventWindow (held.steady order) limit
      (startDate + (endDate - startDate) / 2 + 1) endDate
      (session ++ [(⟨startDate, endDate, limit, 0⟩, answer)] ++ log) = .ok (right, rightRequests,
        session ++ [(⟨startDate, endDate, limit, 0⟩, answer)] ++ log ++ log'))
    (leftFields : left.fields = fields) (alike : left.items = [] ∨ right.fields = fields) :
    ∃ result requests log'', queryEventWindow (held.steady order) limit startDate endDate session =
        .ok (result, requests, session ++ log'') ∧
      result.fields = fields ∧ finals log'' = finals log ++ finals log' := by
  have full : limit ≤ answer.items.length := by
    cases answered
    simpa using halves.2
  have read := queryEventWindow_of_halves halves.1 answered full first second (by
    rintro ⟨filled, _, other⟩
    rcases alike with empty | same
    · exact filled empty
    · exact other (leftFields.trans same.symm))
  refine ⟨⟨fields, left.items ++ right.items⟩, 1 + leftRequests + rightRequests,
    (⟨startDate, endDate, limit, 0⟩, answer) :: (log ++ log'), ?_, rfl, ?_⟩
  · rw [read, leftFields, if_neg named]
    congr 3
    simp
  · rw [finals_halved halves.1 full, finals_append]

/-- A query that returns a row under swapped fields it was not served with. -/
def Misread (held : Holding Cell) (name name' : String) (low high limit startDate endDate : Nat) :
    Prop :=
  ∀ session, ∃ result requests log,
    queryEventWindow (held.steady (held.swapped name name' low high)) limit startDate endDate
      session = .ok (result, requests, session ++ log) ∧
    result.fields = held.fields.map (Equiv.swap name name') ∧
    ∃ answer ∈ finals log, ∃ item ∈ answer.items,
      readCell (held.fields.map (Equiv.swap name name')) item ≠ readCell answer.fields item

theorem Misread.of_empty_half (inside : name ∈ held.fields) (inside' : name' ∈ held.fields)
    (halves : Halves held limit startDate endDate) (some : limit ≠ 0)
    (capped : ∀ day, startDate ≤ day → day ≤ endDate →
      (held.inWindow day day).length / limit * limit ≤ vendorMaxOffset)
    (empty : held.inWindow startDate (startDate + (endDate - startDate) / 2) = [])
    {row : VendorRow Cell}
    (member : row ∈ held.inWindow (startDate + (endDate - startDate) / 2 + 1) endDate)
    (differ : row.values name ≠ row.values name') :
    Misread held name name' (startDate + (endDate - startDate) / 2 + 1) endDate limit startDate
      endDate := by
  intro session
  have ordered := halves.1
  have perm (low high : Nat) := @Holding.swapped_perm _ held name name'
    (startDate + (endDate - startDate) / 2 + 1) endDate inside inside' low high
  have serves := Holding.steady_servedBy perm
  have ⟨answer, answered⟩ : ∃ answer, held.steady (held.swapped name name'
      (startDate + (endDate - startDate) / 2 + 1) endDate) session
        ⟨startDate, endDate, limit, 0⟩ = .ok answer := ⟨_, rfl⟩
  have ⟨left, _, between, first, fields⟩ := @steady_runs _ held _ limit startDate
    (startDate + (endDate - startDate) / 2)
    (session ++ [(⟨startDate, endDate, limit, 0⟩, answer)]) _
    (held.fields.map (Equiv.swap name name')) perm some
    (fun day before behind => capped day before (by omega)) (by omega)
    (fun low high _ here behind => if_neg (by omega))
  have ⟨log, is, told⟩ := told_of_ok serves first
  have ⟨right, _, after, second, _⟩ := @steady_runs _ held _ limit
    (startDate + (endDate - startDate) / 2 + 1) endDate between _ held.fields perm some
    (fun day before behind => capped day (by omega) behind) (by omega)
    (fun low high before _ behind => if_pos ⟨before, behind⟩)
  have ⟨log', is', told'⟩ := told_of_ok serves second
  subst is is'
  have none : left.items = [] := by
    have length := told.length_eq
    rwa [empty, List.length_nil, List.length_eq_zero_iff] at length
  have named : held.fields.map (Equiv.swap name name') ≠ [] :=
    List.ne_nil_of_mem (List.mem_map_of_mem inside)
  have ⟨result, requests, log'', read, fields', kept⟩ :=
    steady_halves named halves answered first second fields (.inl none)
  refine ⟨result, requests, log'', read, fields', ?_⟩
  -- the row as it was served in the second half
  have here := told'.once.mem_iff.mpr (List.mem_map_of_mem member)
  have ⟨final, inside'', rows⟩ := List.mem_flatMap.mp here
  have ⟨item, itemInside, same⟩ := List.mem_map.mp rows
  have ⟨_, stands⟩ := told'.stands serves inside''
  have ⟨row', _, itemIs⟩ := stands item itemInside
  have finalFields : final.fields = held.fields := by
    have ⟨x, logged, is⟩ := List.mem_map.mp inside''
    have ⟨before, behind, _, asked⟩ := told'.asked x (List.mem_filter.mp logged).1
    have own := congrArg ApiResult.fields (Except.ok.inj asked)
    rw [← is, ← own]
    exact if_pos ⟨before, behind⟩
  refine ⟨final, by rw [kept]; exact List.mem_append_right _ inside'', item, itemInside, ?_⟩
  rw [itemIs, finalFields] at same ⊢
  rw [held.readCell_served (List.Perm.refl _)] at same
  apply held.readCell_swapped inside inside'
  have value := congrFun same name
  have value' := congrFun same name'
  simp only [Holding.record, inside, inside', if_true, Option.some.injEq] at value value'
  rwa [value, value']

theorem Misread.of_half (inside : name ∈ held.fields) (inside' : name' ∈ held.fields)
    (halves : Halves held limit startDate endDate) (some : limit ≠ 0)
    (capped : ∀ day, startDate ≤ day → day ≤ endDate →
      (held.inWindow day day).length / limit * limit ≤ vendorMaxOffset)
    (half : high ≤ startDate + (endDate - startDate) / 2 ∧ Misread held name name' low high limit
        startDate (startDate + (endDate - startDate) / 2) ∨
      startDate + (endDate - startDate) / 2 < low ∧ Misread held name name' low high limit
        (startDate + (endDate - startDate) / 2 + 1) endDate) :
    Misread held name name' low high limit startDate endDate := by
  intro session
  have ordered := halves.1
  have perm := fun startDate endDate =>
    @Holding.swapped_perm _ held name name' low high inside inside' startDate endDate
  have serves := Holding.steady_servedBy perm
  have named : held.fields.map (Equiv.swap name name') ≠ [] :=
    List.ne_nil_of_mem (List.mem_map_of_mem inside)
  have ⟨answer, answered⟩ : ∃ answer, held.steady (held.swapped name name' low high) session
      ⟨startDate, endDate, limit, 0⟩ = .ok answer := ⟨_, rfl⟩
  rcases half with ⟨behind, misread⟩ | ⟨before, misread⟩
  · have ⟨left, _, log, first, fields, final, member, item, here, differ⟩ :=
      misread (session ++ [(⟨startDate, endDate, limit, 0⟩, answer)])
    have ⟨right, _, after, second, fields'⟩ := @steady_runs _ held _ limit
      (startDate + (endDate - startDate) / 2 + 1) endDate
      (session ++ [(⟨startDate, endDate, limit, 0⟩, answer)] ++ log) _
      (held.fields.map (Equiv.swap name name')) perm some
      (fun day low high => capped day (by omega) high) (by omega)
      (fun low high _ here _ => if_neg (by omega))
    have ⟨log', is, _⟩ := told_of_ok serves second
    subst is
    have ⟨result, requests, log'', read, fields'', kept⟩ :=
      steady_halves named halves answered first second fields (.inr fields')
    exact ⟨result, requests, log'', read, fields'', final,
      by rw [kept]; exact List.mem_append_left _ member, item, here, differ⟩
  · have ⟨left, _, between, first, fields⟩ := @steady_runs _ held _ limit startDate
      (startDate + (endDate - startDate) / 2)
      (session ++ [(⟨startDate, endDate, limit, 0⟩, answer)]) _
      (held.fields.map (Equiv.swap name name')) perm some
      (fun day low high => capped day low (by omega)) (by omega)
      (fun low high _ _ _ => if_neg (by omega))
    have ⟨log, is, _⟩ := told_of_ok serves first
    subst is
    have ⟨right, _, log', second, fields', final, member, item, here, differ⟩ :=
      misread (session ++ [(⟨startDate, endDate, limit, 0⟩, answer)] ++ log)
    have ⟨result, requests, log'', read, fields'', kept⟩ :=
      steady_halves named halves answered first second fields (.inr fields')
    exact ⟨result, requests, log'', read, fields'', final,
      by rw [kept]; exact List.mem_append_right _ member, item, here, differ⟩

omit [DecidableEq Cell] in
theorem Met.inside {low high : Nat} (met : Met held limit startDate endDate low high) :
    startDate ≤ low ∧ high ≤ endDate := by
  induction met with
  | whole => exact ⟨le_refl _, le_refl _⟩
  | left _ halves ih =>
    have ordered := halves.1
    exact ⟨ih.1, by omega⟩
  | right _ halves ih =>
    have ordered := halves.1
    exact ⟨by omega, ih.2⟩

theorem Misread.of_met (inside : name ∈ held.fields) (inside' : name' ∈ held.fields)
    (some : limit ≠ 0)
    (capped : ∀ day, startDate ≤ day → day ≤ endDate →
      (held.inWindow day day).length / limit * limit ≤ vendorMaxOffset) {low' high' : Nat}
    (met : Met held limit startDate endDate low' high') (within : low' ≤ low ∧ high ≤ high')
    (misread : Misread held name name' low high limit low' high') :
    Misread held name name' low high limit startDate endDate := by
  induction met with
  | whole => exact misread
  | left met halves ih =>
    have ⟨before, behind⟩ := met.inside
    have ordered := halves.1
    apply ih (by omega)
    apply Misread.of_half inside inside' halves some
    · exact fun day early late => capped day (by omega) (by omega)
    · exact .inl ⟨within.2, misread⟩
  | right met halves ih =>
    have ⟨before, behind⟩ := met.inside
    have ordered := halves.1
    apply ih (by omega)
    apply Misread.of_half inside inside' halves some
    · exact fun day early late => capped day (by omega) (by omega)
    · exact .inr ⟨by omega, misread⟩

theorem Completes.legible (completes : Completes held limit startDate endDate) :
    Legible held limit startDate endDate := by
  by_contra illegible
  simp only [Legible, Leading, Holding.Uniform, not_or, not_exists, not_and, not_lt, not_forall]
    at illegible
  have ⟨limited, capped, low, high, met, halves, empty, row, member, name, inside, name', inside',
    differ⟩ := illegible
  have ⟨before, behind⟩ := met.inside
  have ordered := halves.1
  have misread := Misread.of_met inside inside' limited capped met ⟨by omega, le_refl high⟩
    (Misread.of_empty_half inside inside' halves limited
      (fun day early late => capped day (by omega) (by omega)) empty member differ)
  have ⟨result, requests, log, read, fields, final, kept, item, here, other⟩ := misread []
  have ⟨log', is, complete⟩ := completes _
    (Holding.steady_servedBy (Holding.swapped_perm inside inside')) _ _ _ _ read
  rw [List.append_cancel_left is] at kept
  have same := complete.served final kept item here
  rw [fields] at same
  exact other same

end Swapped

/-- A window is complete, under every client that serves its rows, exactly if no window that is
halved has an empty first half and a second half that reads differently under other fields, or
nothing is returned for want of a page limit or for a day beyond the offset cap. -/
theorem completes_iff_legible (held : Holding Cell) (limit startDate endDate : Nat) :
    Completes held limit startDate endDate ↔ Legible held limit startDate endDate :=
  ⟨Completes.legible, Legible.completes⟩

end Complete

/-- A stock whose number of holders was announced on one day. -/
def holderNumber : Holding String where
  fields := ["ts_code", "holder_num"]
  rows := [⟨1, fun name => if name = "ts_code" then "000001.SZ" else "52000"⟩]
  named := by simp
  distinct := List.nodup_singleton _

/-- Asked for with the day before it, one row to a page, the row may be misread. -/
theorem row_behind_empty_day_is_misread :
    ¬ ∀ (held : Holding String) (limit startDate endDate : Nat),
      Completes held limit startDate endDate := by
  intro claimed
  rcases (claimed holderNumber 1 0 1).legible with zero | ⟨day, _, _, beyond⟩ | leading
  · cases zero
  · have one : (holderNumber.inWindow day day).length ≤ 1 := List.length_filter_le _ _
    simp only [vendorMaxOffset, Nat.div_one, Nat.mul_one] at beyond
    omega
  · have same := leading 0 1 .whole ⟨Nat.zero_lt_one, le_refl _⟩ rfl _ List.mem_cons_self
      "ts_code" List.mem_cons_self "holder_num" (List.mem_cons_of_mem _ List.mem_cons_self)
    simp at same

end AutoTrade
