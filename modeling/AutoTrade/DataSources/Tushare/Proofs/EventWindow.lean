import AutoTrade.DataSources.Tushare.EventWindow
import AutoTrade.Misc.Runs
import Mathlib.Data.List.Perm.Subperm
import Mathlib.Data.List.Nodup

/-!
# What a queried window holds

A vendor that serves a fixed set of rows is asked for a window in halves and pages. What comes
back is every row of the window, under the fields of its first half.
-/

namespace AutoTrade

/-- What a row of `frame(result)` holds under a name. -/
def readCell {Cell : Type} (fields : List String) (item : List Cell) (name : String) :
    Option Cell := (fields.zip item).lookup name

/-- A row of a vendor, and the day it is found by. -/
structure VendorRow (Cell : Type) where
  day : Nat
  values : String → Cell

/-- The rows that a vendor holds, under its fields. -/
structure Holding (Cell : Type) where
  fields : List String
  rows : List (VendorRow Cell)
  named : fields.Nodup
  distinct : (rows.map fun row => (row.day, fields.map row.values)).Nodup

variable {Cell : Type}

namespace Holding

def inWindow (held : Holding Cell) (startDate endDate : Nat) : List (VendorRow Cell) :=
  held.rows.filter fun row => startDate ≤ row.day ∧ row.day ≤ endDate

def record (held : Holding Cell) (row : VendorRow Cell) (name : String) : Option Cell :=
  if name ∈ held.fields then some (row.values name) else none

/-- An answer to a request: as many distinct rows of the window as are left past the offset and
fit the limit, whichever they are, under the fields in any order. -/
structure Served (held : Holding Cell) (request : WindowRequest) (answer : ApiResult Cell) :
    Prop where
  fields : answer.fields.Perm held.fields
  rows : ∃ rows : List (VendorRow Cell),
    rows.Subperm (held.inWindow request.startDate request.endDate) ∧
    rows.length = min request.limit
      ((held.inWindow request.startDate request.endDate).length - request.offset) ∧
    answer.items = rows.map fun row => answer.fields.map row.values

/-- A client of the vendor, which may also raise. -/
def ServedBy (held : Holding Cell) (client : Client Cell) : Prop :=
  ∀ session request answer, client session request = .ok answer → held.Served request answer

end Holding

/-- The answers of a session that were kept, which are those to days, and those to longer windows
that do not fill the page. -/
def finals (log : List (Exchange Cell)) : List (ApiResult Cell) :=
  (log.filter fun x => ¬ (x.1.startDate < x.1.endDate ∧ x.1.limit ≤ x.2.items.length)).map Prod.snd

/-- Every row of the window is returned once, each value under the field it was served with. -/
structure Complete (held : Holding Cell) (startDate endDate : Nat) (log : List (Exchange Cell))
    (result : ApiResult Cell) : Prop where
  rows : result.items = (finals log).flatMap ApiResult.items
  once : ((finals log).flatMap fun answer => answer.items.map (readCell answer.fields)).Perm
    ((held.inWindow startDate endDate).map held.record)
  served : ∀ answer ∈ finals log, ∀ item ∈ answer.items,
    readCell result.fields item = readCell answer.fields item

theorem readCell_map {fields : List String} (values : String → Cell) (name : String) :
    readCell fields (fields.map values) name =
      if name ∈ fields then some (values name) else none := by
  unfold readCell
  induction fields with
  | nil => rfl
  | cons field fields ih =>
    rw [List.map_cons, List.zip_cons_cons, List.lookup_cons]
    by_cases same : name = field
    · simp [same]
    · rw [beq_false_of_ne same]
      simp [same, ih]

theorem Holding.readCell_served (held : Holding Cell) {fields : List String}
    (perm : fields.Perm held.fields) (row : VendorRow Cell) :
    readCell fields (fields.map row.values) = held.record row := by
  funext name
  rw [readCell_map, Holding.record]
  exact if_congr perm.mem_iff rfl rfl

theorem finals_append (log log' : List (Exchange Cell)) :
    finals (log ++ log') = finals log ++ finals log' := by
  simp [finals]

theorem finals_day {log : List (Exchange Cell)}
    (day : ∀ x ∈ log, ¬ x.1.startDate < x.1.endDate) : finals log = log.map Prod.snd := by
  unfold finals
  rw [List.filter_eq_self.mpr]
  intro x member
  simp [day x member]

theorem Holding.inWindow_halves (held : Holding Cell) {startDate middle endDate : Nat}
    (low : startDate ≤ middle) (high : middle ≤ endDate) :
    (held.inWindow startDate middle ++ held.inWindow (middle + 1) endDate).Perm
      (held.inWindow startDate endDate) := by
  have split := List.filter_append_perm (fun row : VendorRow Cell => decide (row.day ≤ middle))
    (held.inWindow startDate endDate)
  have left : (held.inWindow startDate endDate).filter (fun row => decide (row.day ≤ middle)) =
      held.inWindow startDate middle := by
    unfold inWindow
    rw [List.filter_filter]
    apply List.filter_congr
    intro row _
    simp only [← Bool.decide_and]
    congr 1
    apply propext
    omega
  have right : (held.inWindow startDate endDate).filter (fun row => !decide (row.day ≤ middle)) =
      held.inWindow (middle + 1) endDate := by
    unfold inWindow
    rw [List.filter_filter]
    apply List.filter_congr
    intro row _
    simp only [← decide_not, ← Bool.decide_and]
    congr 1
    apply propext
    omega
  rwa [left, right] at split

section Query

variable {client : Client Cell} {session after : List (Exchange Cell)} {request : WindowRequest}

theorem Client.ask_eq_ok {answer : ApiResult Cell} :
    client.ask session request = .ok (answer, after) ↔
      client session request = .ok answer ∧ after = session ++ [(request, answer)] := by
  unfold Client.ask
  cases client session request with
  | error message => simp
  | ok other =>
    simp only [Except.ok.injEq, Prod.mk.injEq]
    constructor
    · rintro ⟨rfl, rfl⟩
      exact ⟨rfl, rfl⟩
    · rintro ⟨rfl, rfl⟩
      exact ⟨rfl, rfl⟩

variable [DecidableEq Cell] {startDate endDate limit offset : Nat} {positive : 0 < limit}
  {paging last : Paging Cell}

theorem pagesFrom_eq_ok
    (ok : pagesFrom client startDate endDate limit positive false offset paging = .ok last) :
    ∃ answer,
    client paging.session ⟨startDate, endDate, limit, offset⟩ = .ok answer ∧
    (paging.resultFields ≠ [] → answer.items ≠ [] → answer.fields = paging.resultFields) ∧
    let session := paging.session ++ [(⟨startDate, endDate, limit, offset⟩, answer)]
    (answer.items.length < limit ∧ (last = paging.add answer session ∨ ∃ again,
        client session ⟨startDate, endDate, limit, offset⟩ = .ok again ∧ again.items = [] ∧
        last = { paging.add answer session with
          session := session ++ [(⟨startDate, endDate, limit, offset⟩, again)] }) ∨
      limit ≤ answer.items.length ∧ offset + limit ≤ vendorMaxOffset ∧
        pagesFrom client startDate endDate limit positive false (offset + limit)
          (paging.add answer session) = .ok last) := by
  rw [pagesFrom] at ok
  have ⟨⟨answer, next⟩, asked, rest⟩ := bind_eq_ok.mp ok
  have ⟨answered, is⟩ := Client.ask_eq_ok.mp asked
  subst is
  have ⟨consistent, rest⟩ := guard_eq_ok.mp rest
  have ⟨_, rest⟩ := guard_eq_ok.mp rest
  refine ⟨answer, answered, ?_, ?_⟩
  · intro named filled
    by_contra other
    exact consistent ⟨named, filled, other⟩
  split at rest
  · rename_i short
    left
    refine ⟨short, ?_⟩
    dsimp only at rest
    split at rest
    · have ⟨⟨again, next⟩, asked, rest⟩ := bind_eq_ok.mp rest
      have ⟨answered, is⟩ := Client.ask_eq_ok.mp asked
      subst is
      have ⟨empty, rest⟩ := guard_eq_ok.mp rest
      exact .inr ⟨again, answered, by simpa using empty, (pure_eq_ok.mp rest).symm⟩
    · exact .inl (pure_eq_ok.mp rest).symm
  · rename_i full
    right
    refine ⟨not_lt.mp full, ?_⟩
    split at rest
    · exact absurd rest throw_ne_ok
    · rename_i within
      exact ⟨not_lt.mp within, rest⟩

theorem queryEventWindow_eq_ok {result : ApiResult Cell} {requests : Nat}
    (ok : queryEventWindow client limit startDate endDate session = .ok (result, requests, after)) :
    (startDate < endDate ∧ client session ⟨startDate, endDate, limit, 0⟩ = .ok result ∧
      after = session ++ [(⟨startDate, endDate, limit, 0⟩, result)] ∧
      result.items.length < limit) ∨
    (startDate < endDate ∧ ∃ first left right between leftRequests rightRequests,
      client session ⟨startDate, endDate, limit, 0⟩ = .ok first ∧ limit ≤ first.items.length ∧
      queryEventWindow client limit startDate (startDate + (endDate - startDate) / 2)
        (session ++ [(⟨startDate, endDate, limit, 0⟩, first)]) = .ok (left, leftRequests, between) ∧
      queryEventWindow client limit (startDate + (endDate - startDate) / 2 + 1) endDate between =
        .ok (right, rightRequests, after) ∧
      (left.items ≠ [] → right.items ≠ [] → left.fields = right.fields) ∧
      result = ⟨if left.fields = [] then right.fields else left.fields,
        left.items ++ right.items⟩) ∨
    (¬ startDate < endDate ∧
      queryPaged client startDate endDate limit false session = .ok (result, requests, after) ∧
      (limit = 0 → result.items = []) ∧ repeatedRows limit result.items = 0) := by
  rw [queryEventWindow] at ok
  split at ok
  · rename_i ordered
    have ⟨⟨first, next⟩, asked, rest⟩ := bind_eq_ok.mp ok
    have ⟨answered, is⟩ := Client.ask_eq_ok.mp asked
    subst is
    dsimp only at rest
    split at rest
    · rename_i short
      have is := pure_eq_ok.mp rest
      simp only [Prod.mk.injEq] at is
      have ⟨same, _, whole⟩ := is
      subst same
      exact .inl ⟨ordered, answered, whole.symm, short⟩
    · rename_i full
      have ⟨⟨left, leftRequests, between⟩, first', rest⟩ := bind_eq_ok.mp rest
      have ⟨⟨right, rightRequests, next⟩, second, rest⟩ := bind_eq_ok.mp rest
      have ⟨consistent, rest⟩ := guard_eq_ok.mp rest
      have is := pure_eq_ok.mp rest
      simp only [Prod.mk.injEq] at is
      have ⟨same, _, whole⟩ := is
      subst whole
      refine .inr (.inl ⟨ordered, first, left, right, between, leftRequests, rightRequests,
        answered, not_lt.mp full, first', second, ?_, same.symm⟩)
      intro filled filled'
      by_contra other
      exact consistent ⟨filled, filled', other⟩
  · rename_i day
    have ⟨⟨paged, pages, next⟩, read, rest⟩ := bind_eq_ok.mp ok
    have ⟨divides, rest⟩ := guard_eq_ok.mp rest
    have ⟨unrepeated, rest⟩ := guard_eq_ok.mp rest
    have is := pure_eq_ok.mp rest
    simp only [Prod.mk.injEq] at is
    have ⟨same, same', same''⟩ := is
    subst same same' same''
    refine .inr (.inr ⟨day, read, ?_, by simpa using unrepeated⟩)
    intro zero
    by_contra filled
    exact divides ⟨zero, filled⟩

end Query

section Pages

theorem Holding.nodup_inWindow (held : Holding Cell) (startDate endDate : Nat) :
    (held.inWindow startDate endDate).Nodup := (List.Nodup.of_map _ held.distinct).filter _

/-- The rows of pages of one window, in the order they were served. -/
structure Reading (held : Holding Cell) (client : Client Cell) (startDate endDate limit : Nat)
    (paging : Paging Cell) (log : List (Exchange Cell)) (rows : List (VendorRow Cell)) : Prop where
  asked : ∀ x ∈ log, x.1.startDate = startDate ∧ x.1.endDate = endDate ∧
    ∃ session, client session x.1 = .ok x.2
  answered : log.flatMap (fun x => x.2.items) = paging.allItems
  alike : ∀ x ∈ log, x.2.items ≠ [] → x.2.fields = paging.resultFields
  fields : log = [] ∧ paging.resultFields = [] ∨ paging.resultFields.Perm held.fields
  items : paging.allItems = rows.map fun row => paging.resultFields.map row.values
  inside : ∀ row ∈ rows, row ∈ held.inWindow startDate endDate
  -- the rows of one page are distinct
  apart : ∀ (i j : Nat) (hi : i < rows.length) (hj : j < rows.length), i / limit = j / limit →
    rows[i] = rows[j] → i = j

variable {held : Holding Cell} {client : Client Cell} {startDate endDate limit : Nat}
  {paging : Paging Cell} {log : List (Exchange Cell)} {rows : List (VendorRow Cell)}
  {answer : ApiResult Cell} {session : List (Exchange Cell)}

theorem Reading.add (serves : held.ServedBy client)
    (reading : Reading held client startDate endDate limit paging log rows)
    (positive : 0 < limit) (whole : limit ∣ rows.length) {before : List (Exchange Cell)}
    (answered : client before ⟨startDate, endDate, limit, rows.length⟩ = .ok answer)
    (consistent : paging.resultFields ≠ [] → answer.items ≠ [] →
      answer.fields = paging.resultFields) :
    ∃ more : List (VendorRow Cell),
      more.length = min limit ((held.inWindow startDate endDate).length - rows.length) ∧
      answer.items.length = more.length ∧
      Reading held client startDate endDate limit (paging.add answer session)
        (log ++ [(⟨startDate, endDate, limit, rows.length⟩, answer)]) (rows ++ more) := by
  have ⟨perm, more, subperm, length, items⟩ := serves _ _ _ answered
  have stays : log ≠ [] → (paging.add answer session).resultFields = paging.resultFields := by
    intro some
    unfold Paging.add
    split
    · rename_i none
      have empty := reading.fields.resolve_left fun first => some first.1
      rw [none] at empty ⊢
      exact (perm.trans empty.symm).eq_nil
    · rfl
  have here : answer.items ≠ [] → answer.fields = (paging.add answer session).resultFields := by
    intro filled
    unfold Paging.add
    split
    · rfl
    · rename_i named
      exact consistent named filled
  refine ⟨more, length, by rw [items, List.length_map], ?_, ?_, ?_, ?_, ?_, ?_, ?_⟩
  · intro x member
    rcases List.mem_append.mp member with earlier | last
    · exact reading.asked x earlier
    · rw [List.mem_singleton.mp last]
      exact ⟨rfl, rfl, before, answered⟩
  · rw [List.flatMap_append, reading.answered, List.flatMap_singleton]
    rfl
  · intro x member filled
    rcases List.mem_append.mp member with earlier | last
    · rw [stays (List.ne_nil_of_mem earlier)]
      exact reading.alike x earlier filled
    · rw [List.mem_singleton.mp last] at filled ⊢
      exact here filled
  · right
    unfold Paging.add
    split
    · exact perm
    · rename_i named
      exact reading.fields.elim (fun none => absurd none.2 named) id
  · have kept : paging.allItems =
        rows.map fun row => (paging.add answer session).resultFields.map row.values := by
      by_cases some : log = []
      · have none := reading.answered
        rw [some, List.flatMap_nil] at none
        have items := reading.items
        rw [← none, eq_comm, List.map_eq_nil_iff] at items
        simp [← none, items]
      · rw [stays some]
        exact reading.items
    have added : answer.items =
        more.map fun row => (paging.add answer session).resultFields.map row.values := by
      by_cases filled : answer.items = []
      · rw [items, List.map_eq_nil_iff] at filled
        simp [items, filled]
      · rw [← here filled]
        exact items
    rw [List.map_append, ← kept, ← added]
    rfl
  · intro row member
    rcases List.mem_append.mp member with earlier | last
    · exact reading.inside row earlier
    · exact subperm.subset last
  · have distinct : more.Nodup :=
      have ⟨_, perm, sublist⟩ := subperm
      perm.nodup ((held.nodup_inWindow startDate endDate).sublist sublist)
    have ⟨pages, count⟩ := whole
    intro i j hi hj same alike
    by_cases early : i < rows.length
    · by_cases early' : j < rows.length
      · simp only [List.getElem_append_left early, List.getElem_append_left early'] at alike
        exact reading.apart i j early early' same alike
      · have first := (Nat.div_lt_iff_lt_mul positive).mpr (by rwa [count, Nat.mul_comm] at early)
        have second : pages ≤ j / limit := by
          rw [Nat.le_div_iff_mul_le positive, Nat.mul_comm, ← count]
          exact not_lt.mp early'
        omega
    · by_cases early' : j < rows.length
      · have first := (Nat.div_lt_iff_lt_mul positive).mpr (by rwa [count, Nat.mul_comm] at early')
        have second : pages ≤ i / limit := by
          rw [Nat.le_div_iff_mul_le positive, Nat.mul_comm, ← count]
          exact not_lt.mp early
        omega
      · rw [List.getElem_append_right (not_lt.mp early),
          List.getElem_append_right (not_lt.mp early')] at alike
        have index := (distinct.getElem_inj_iff).mp alike
        omega

theorem Reading.pages [DecidableEq Cell] (serves : held.ServedBy client)
    {positive : 0 < limit} {last : Paging Cell}
    (reading : Reading held client startDate endDate limit paging log rows)
    (whole : limit ∣ rows.length)
    (bound : rows.length ≤ (held.inWindow startDate endDate).length)
    (within : rows.length ≤ vendorMaxOffset)
    (ok : pagesFrom client startDate endDate limit positive false rows.length paging = .ok last) :
    ∃ log' rows', last.session = paging.session ++ log' ∧
      rows'.length = (held.inWindow startDate endDate).length ∧ log ++ log' ≠ [] ∧
      rows'.length / limit * limit ≤ vendorMaxOffset ∧
      Reading held client startDate endDate limit last (log ++ log') rows' := by
  induction left : (held.inWindow startDate endDate).length - rows.length using
    Nat.strong_induction_on generalizing log rows paging with
  | _ n ih =>
    have ⟨answer, answered, consistent, rest⟩ := pagesFrom_eq_ok ok
    have ⟨more, length, count, next⟩ := @Reading.add _ _ _ _ _ _ _ _ _ answer
      (paging.session ++ [(⟨startDate, endDate, limit, rows.length⟩, answer)]) serves reading
      positive whole _ answered consistent
    have ended : more.length < limit →
        (rows ++ more).length / limit * limit ≤ vendorMaxOffset := by
      intro short
      have ⟨pages, count⟩ := whole
      rw [List.length_append, count, Nat.mul_add_div positive, Nat.div_eq_of_lt short, Nat.add_zero,
        Nat.mul_comm, ← count]
      exact within
    rcases rest with ⟨short, is | ⟨again, answered', empty, is⟩⟩ | ⟨full, bounded, rest⟩
    · refine ⟨[(⟨startDate, endDate, limit, rows.length⟩, answer)], rows ++ more, ?_, ?_,
        List.append_ne_nil_of_right_ne_nil _ (List.cons_ne_nil _ _), ended (by omega), is ▸ next⟩
      · rw [is]
        rfl
      · rw [List.length_append]
        omega
    · have ⟨asked, seen, alike, fields, items, inside, apart⟩ := next
      refine ⟨[(⟨startDate, endDate, limit, rows.length⟩, answer),
        (⟨startDate, endDate, limit, rows.length⟩, again)], rows ++ more, ?_, ?_,
        List.append_ne_nil_of_right_ne_nil _ (List.cons_ne_nil _ _), ended (by omega), ?_⟩
      · simp [is]
      · rw [List.length_append]
        omega
      · -- the boundary read once more adds no row
        have split : log ++ [(⟨startDate, endDate, limit, rows.length⟩, answer),
            (⟨startDate, endDate, limit, rows.length⟩, again)] =
            (log ++ [((⟨startDate, endDate, limit, rows.length⟩ : WindowRequest), answer)]) ++
              [(⟨startDate, endDate, limit, rows.length⟩, again)] := by simp
        rw [split, is]
        refine ⟨?_, ?_, ?_, ?_, items, inside, apart⟩
        · intro x member
          rcases List.mem_append.mp member with earlier | last
          · exact asked x earlier
          · rw [List.mem_singleton.mp last]
            exact ⟨rfl, rfl, _, answered'⟩
        · rw [List.flatMap_append, seen, List.flatMap_singleton, empty, List.append_nil]
        · intro x member filled
          rcases List.mem_append.mp member with earlier | last
          · exact alike x earlier filled
          · rw [List.mem_singleton.mp last] at filled
            exact absurd empty filled
        · exact .inr (fields.resolve_left fun none => by simp at none)
    · have grown : (rows ++ more).length = rows.length + limit := by
        rw [List.length_append]
        omega
      rw [← grown] at rest
      have ⟨log', rows', session', length', _, capped, reading'⟩ := ih _ (by omega) next
        (by rw [grown]; exact Nat.dvd_add whole (Nat.dvd_refl limit)) (by omega) (by omega) rest rfl
      refine ⟨(⟨startDate, endDate, limit, rows.length⟩, answer) :: log', rows', ?_, length', ?_,
        capped, ?_⟩
      · simp [session', Paging.add]
      · exact List.append_ne_nil_of_right_ne_nil _ (List.cons_ne_nil _ _)
      · simpa using reading'

theorem nodup_of_unrepeated [DecidableEq Cell] {items : List (List Cell)}
    {f : VendorRow Cell → List Cell} (is : items = rows.map f)
    (apart : ∀ (i j : Nat) (hi : i < rows.length) (hj : j < rows.length), i / limit = j / limit →
      rows[i] = rows[j] → i = j)
    (unrepeated : repeatedRows limit items = 0) : rows.Nodup := by
  have pages (i : Nat) (hi : i < rows.length) : items.idxOf (f rows[i]) / limit = i / limit := by
    have none := List.filter_eq_nil_iff.mp (List.length_eq_zero_iff.mp unrepeated) (f rows[i], i)
    have member : (f rows[i], i) ∈ items.zipIdx :=
      List.mem_zipIdx_iff_getElem?.mpr (by simp [is, hi])
    simpa using none member
  apply List.nodup_iff_injective_getElem.mpr
  intro i j same
  apply Fin.ext
  apply apart i j i.isLt j.isLt _ same
  rw [← pages i i.isLt, ← pages j j.isLt]
  exact congrArg (fun row => items.idxOf (f row) / limit) same

end Pages

section Windows

/-- A window that is halved. -/
def Halves (held : Holding Cell) (limit startDate endDate : Nat) : Prop :=
  startDate < endDate ∧ limit ≤ (held.inWindow startDate endDate).length

/-- The windows that querying a window comes to. -/
inductive Met (held : Holding Cell) (limit startDate endDate : Nat) : Nat → Nat → Prop
  | whole : Met held limit startDate endDate startDate endDate
  | left {low high : Nat} (met : Met held limit startDate endDate low high)
      (halves : Halves held limit low high) :
      Met held limit startDate endDate low (low + (high - low) / 2)
  | right {low high : Nat} (met : Met held limit startDate endDate low high)
      (halves : Halves held limit low high) :
      Met held limit startDate endDate (low + (high - low) / 2 + 1) high

/-- A row that holds one value under all its fields. -/
def Holding.Uniform (held : Holding Cell) (row : VendorRow Cell) : Prop :=
  ∀ name ∈ held.fields, ∀ name' ∈ held.fields, row.values name = row.values name'

/-- No window that is halved has an empty first half, unless the fields of the rows in its second
half cannot be told apart. -/
def Leading (held : Holding Cell) (limit startDate endDate : Nat) : Prop :=
  ∀ low high, Met held limit startDate endDate low high → Halves held limit low high →
    held.inWindow low (low + (high - low) / 2) = [] →
    ∀ row ∈ held.inWindow (low + (high - low) / 2 + 1) high, held.Uniform row

variable {held : Holding Cell} {client : Client Cell} {limit startDate endDate : Nat}

theorem Met.trans {low high low' high' : Nat} (outer : Met held limit startDate endDate low high)
    (inner : Met held limit low high low' high') : Met held limit startDate endDate low' high' := by
  induction inner with
  | whole => exact outer
  | left _ halves ih => exact .left ih halves
  | right _ halves ih => exact .right ih halves

theorem readCell_uniform {row : VendorRow Cell} (uniform : held.Uniform row)
    {fields fields' : List String} (perm : fields.Perm held.fields)
    (perm' : fields'.Perm held.fields) :
    readCell fields (fields'.map row.values) = held.record row := by
  rw [← held.readCell_served perm row]
  congr 1
  cases named : held.fields with
  | nil =>
    rw [named] at perm perm'
    rw [perm.eq_nil, perm'.eq_nil]
  | cons first rest =>
    have is (list : List String) (perm : list.Perm held.fields) :
        list.map row.values = List.replicate held.fields.length (row.values first) := by
      rw [← perm.length_eq, ← List.map_const']
      apply List.map_congr_left
      intro name member
      exact uniform name (perm.subset member) first (named ▸ List.mem_cons_self)
    rw [is fields perm, is fields' perm']

/-- What is known of a query that returns. -/
structure Told (held : Holding Cell) (client : Client Cell) (limit startDate endDate : Nat)
    (log : List (Exchange Cell)) (result : ApiResult Cell) : Prop where
  asked : ∀ x ∈ log, startDate ≤ x.1.startDate ∧ x.1.endDate ≤ endDate ∧
    ∃ session, client session x.1 = .ok x.2
  rows : result.items = (finals log).flatMap ApiResult.items
  once : ((finals log).flatMap fun answer => answer.items.map (readCell answer.fields)).Perm
    ((held.inWindow startDate endDate).map held.record)
  fields : result.fields.Perm held.fields
  zero : limit = 0 → result.items = []
  capped : limit ≠ 0 → ∀ day, startDate ≤ day → day ≤ endDate →
    (held.inWindow day day).length / limit * limit ≤ vendorMaxOffset
  served : Leading held limit startDate endDate → ∀ answer ∈ finals log, ∀ item ∈ answer.items,
    readCell result.fields item = readCell answer.fields item

theorem map_readCell {answer : ApiResult Cell} {rows : List (VendorRow Cell)}
    (perm : answer.fields.Perm held.fields)
    (items : answer.items = rows.map fun row => answer.fields.map row.values) :
    answer.items.map (readCell answer.fields) = rows.map held.record := by
  rw [items, List.map_map]
  exact List.map_congr_left fun row _ => held.readCell_served perm row

theorem length_inWindow_le {low high : Nat} (inside : startDate ≤ low) (inside' : high ≤ endDate) :
    (held.inWindow low high).length ≤ (held.inWindow startDate endDate).length := by
  apply List.Sublist.length_le
  apply List.monotone_filter_right
  intro row
  simp only [decide_eq_true_eq]
  omega

variable {result : ApiResult Cell} {log : List (Exchange Cell)}

theorem Told.stands (serves : held.ServedBy client)
    (told : Told held client limit startDate endDate log result) {answer : ApiResult Cell}
    (member : answer ∈ finals log) :
    answer.fields.Perm held.fields ∧ ∀ item ∈ answer.items,
      ∃ row ∈ held.inWindow startDate endDate, item = answer.fields.map row.values := by
  have ⟨x, kept, is⟩ := List.mem_map.mp member
  have ⟨low, high, session, answered⟩ := told.asked x (List.mem_filter.mp kept).1
  have ⟨perm, rows, subperm, _, items⟩ := serves _ _ _ answered
  rw [is] at perm items
  refine ⟨perm, ?_⟩
  intro item inside
  rw [items] at inside
  have ⟨row, member', same⟩ := List.mem_map.mp inside
  refine ⟨row, ?_, same.symm⟩
  have here := subperm.subset member'
  simp only [Holding.inWindow, List.mem_filter, decide_eq_true_eq] at here ⊢
  exact ⟨here.1, by omega, by omega⟩

theorem Told.short (serves : held.ServedBy client) {session : List (Exchange Cell)}
    {result : ApiResult Cell}
    (answered : client session ⟨startDate, endDate, limit, 0⟩ = .ok result)
    (short : result.items.length < limit) :
    Told held client limit startDate endDate [(⟨startDate, endDate, limit, 0⟩, result)] result := by
  have ⟨perm, rows, subperm, length, items⟩ := serves _ _ _ answered
  have count : result.items.length = rows.length := by rw [items, List.length_map]
  dsimp only at subperm length
  have whole : rows.Perm (held.inWindow startDate endDate) := by
    apply subperm.perm_of_length_le
    omega
  have kept : finals [((⟨startDate, endDate, limit, 0⟩ : WindowRequest), result)] = [result] := by
    simp [finals, short]
  refine ⟨?_, ?_, ?_, perm, ?_, ?_, ?_⟩
  · intro x member
    rw [List.mem_singleton.mp member]
    exact ⟨le_refl _, le_refl _, session, answered⟩
  · rw [kept, List.flatMap_singleton]
  · rw [kept, List.flatMap_singleton, map_readCell perm items]
    exact whole.map _
  · omega
  · intro _ day low high
    have fits := @length_inWindow_le _ held _ _ _ _ low high
    rw [Nat.div_eq_of_lt (by omega), Nat.zero_mul]
    exact Nat.zero_le _
  · intro _ answer member item _
    rw [kept, List.mem_singleton] at member
    rw [member]

theorem Told.day [DecidableEq Cell] (serves : held.ServedBy client)
    {session after : List (Exchange Cell)} {result : ApiResult Cell} {pages : Nat}
    (day : ¬ startDate < endDate)
    (read : queryPaged client startDate endDate limit false session = .ok (result, pages, after))
    (zero : limit = 0 → result.items = []) (unrepeated : repeatedRows limit result.items = 0) :
    ∃ log, after = session ++ log ∧ Told held client limit startDate endDate log result := by
  unfold queryPaged at read
  have ⟨last, paged, is⟩ := bind_eq_ok.mp read
  have same := pure_eq_ok.mp is
  simp only [Prod.mk.injEq] at same
  have ⟨result', _, after'⟩ := same
  have fresh : Reading held client startDate endDate (if limit = 0 then 10000 else limit)
      ⟨[], [], [], 0, session⟩ [] [] :=
    ⟨by simp, rfl, by simp, .inl ⟨rfl, rfl⟩, rfl, by simp, by simp⟩
  have ⟨log, rows, session', length, asked, capped, reading⟩ :=
    fresh.pages serves (Nat.dvd_zero _) (Nat.zero_le _) (Nat.zero_le _) paged
  rw [List.nil_append] at asked reading
  have fields := reading.fields.resolve_left fun none => asked none.1
  subst result'
  have distinct : rows.Nodup := by
    by_cases none : limit = 0
    · have empty := zero none
      rw [reading.items, List.map_eq_nil_iff] at empty
      rw [empty]
      exact List.nodup_nil
    · have apart := reading.apart
      rw [if_neg none] at apart
      exact nodup_of_unrepeated reading.items apart unrepeated
  have whole : rows.Perm (held.inWindow startDate endDate) :=
    (distinct.subperm reading.inside).perm_of_length_le length.ge
  have kept : finals log = log.map Prod.snd := by
    apply finals_day
    intro x member
    have ⟨low, high, _⟩ := reading.asked x member
    rw [low, high]
    exact day
  have alike {answer : ApiResult Cell} (member : answer ∈ finals log) {item : List Cell}
      (inside : item ∈ answer.items) : answer.fields = last.resultFields := by
    rw [kept] at member
    have ⟨x, member', is⟩ := List.mem_map.mp member
    rw [← is] at inside ⊢
    exact reading.alike x member' (List.ne_nil_of_mem inside)
  have items : (finals log).flatMap ApiResult.items = last.allItems := by
    rw [kept, List.flatMap_map]
    exact reading.answered
  refine ⟨log, by rw [← after', session'], ?_, items.symm, ?_, fields, zero, ?_, ?_⟩
  · intro x member
    have ⟨low, high, answered⟩ := reading.asked x member
    exact ⟨low.ge, high.le, answered⟩
  · have same : ((finals log).flatMap fun answer => answer.items.map (readCell answer.fields)) =
        ((finals log).flatMap ApiResult.items).map (readCell last.resultFields) := by
      rw [List.map_flatMap]
      apply List.flatMap_congr
      intro answer member
      apply List.map_congr_left
      intro item inside
      rw [alike member inside]
    have served : last.allItems.map (readCell last.resultFields) = rows.map held.record :=
      @map_readCell _ _ ⟨last.resultFields, last.allItems⟩ _ fields reading.items
    rw [same, items, served]
    exact whole.map _
  · intro some day low high
    rw [if_neg some, length] at capped
    have same : startDate = day ∧ endDate = day := by omega
    rwa [same.1, same.2] at capped
  · intro _ answer member item inside
    rw [alike member inside]

theorem finals_halved {first : ApiResult Cell} {log : List (Exchange Cell)}
    (ordered : startDate < endDate) (full : limit ≤ first.items.length) :
    finals ((⟨startDate, endDate, limit, 0⟩, first) :: log) = finals log := by
  simp [finals, ordered, full]

theorem Told.length_eq (told : Told held client limit startDate endDate log result) :
    result.items.length = (held.inWindow startDate endDate).length := by
  have length := told.once.length_eq
  rw [List.length_map] at length
  rw [told.rows, ← length, List.length_flatMap, List.length_flatMap]
  simp

theorem Told.halves (serves : held.ServedBy client) {session log log' : List (Exchange Cell)}
    {first left right : ApiResult Cell} (ordered : startDate < endDate)
    (answered : client session ⟨startDate, endDate, limit, 0⟩ = .ok first)
    (full : limit ≤ first.items.length)
    (told : Told held client limit startDate (startDate + (endDate - startDate) / 2) log left)
    (told' : Told held client limit (startDate + (endDate - startDate) / 2 + 1) endDate log' right)
    (alike : left.items ≠ [] → right.items ≠ [] → left.fields = right.fields) :
    Told held client limit startDate endDate
      ((⟨startDate, endDate, limit, 0⟩, first) :: (log ++ log'))
      ⟨if left.fields = [] then right.fields else left.fields, left.items ++ right.items⟩ := by
  have low : startDate ≤ startDate + (endDate - startDate) / 2 := by omega
  have high : startDate + (endDate - startDate) / 2 ≤ endDate := by omega
  have named : (if left.fields = [] then right.fields else left.fields) = left.fields := by
    split
    · rename_i none
      have perm := told.fields
      rw [none] at perm ⊢
      exact (told'.fields.trans perm.symm).eq_nil
    · rfl
  have halves : Halves held limit startDate endDate := by
    have ⟨_, _, _, length, items⟩ := serves _ _ _ answered
    rw [items, List.length_map, length] at full
    exact ⟨ordered, by dsimp only at full; omega⟩
  have kept := (@finals_halved _ _ _ _ _ (log ++ log') ordered full).trans (finals_append log log')
  rw [named]
  refine ⟨?_, ?_, ?_, told.fields, ?_, ?_, ?_⟩
  · intro x member
    rcases List.mem_cons.mp member with rfl | member
    · exact ⟨le_refl _, le_refl _, session, answered⟩
    · rcases List.mem_append.mp member with earlier | later
      · have ⟨before, behind, asked⟩ := told.asked x earlier
        exact ⟨before, by omega, asked⟩
      · have ⟨before, behind, asked⟩ := told'.asked x later
        exact ⟨by omega, behind, asked⟩
  · rw [kept, List.flatMap_append, told.rows, told'.rows]
  · rw [kept, List.flatMap_append]
    apply (told.once.append told'.once).trans
    rw [← List.map_append]
    exact (held.inWindow_halves low high).map _
  · intro none
    rw [told.zero none, told'.zero none, List.append_nil]
  · intro some day before behind
    by_cases early : day ≤ startDate + (endDate - startDate) / 2
    · exact told.capped some day before early
    · exact told'.capped some day (by omega) behind
  · intro leading answer member item inside
    rw [kept] at member
    rcases List.mem_append.mp member with earlier | later
    · apply told.served _ answer earlier item inside
      exact fun low high met => leading low high (Met.trans (.left .whole halves) met)
    · by_cases empty : left.items = []
      · -- the rows of the second half stand under the fields of the empty first one
        have length := told.length_eq
        rw [empty, List.length_nil, eq_comm, List.length_eq_zero_iff] at length
        have uniform := leading startDate endDate .whole halves length
        have ⟨perm, rows⟩ := told'.stands serves later
        have ⟨row, member, is⟩ := rows item inside
        rw [is, readCell_uniform (uniform row member) told.fields perm, held.readCell_served perm]
      · have filled : right.items ≠ [] := by
          rw [told'.rows]
          intro none
          rw [List.flatMap_eq_nil_iff.mp none answer later] at inside
          cases inside
        rw [alike empty filled]
        apply told'.served _ answer later item inside
        exact fun low high met => leading low high (Met.trans (.right .whole halves) met)

theorem told_of_ok [DecidableEq Cell] (serves : held.ServedBy client)
    {session after : List (Exchange Cell)} {requests : Nat}
    (ok : queryEventWindow client limit startDate endDate session = .ok (result, requests, after)) :
    ∃ log, after = session ++ log ∧ Told held client limit startDate endDate log result := by
  induction span : endDate - startDate using Nat.strong_induction_on
    generalizing startDate endDate session after result requests with
  | _ n ih =>
    rcases queryEventWindow_eq_ok ok with ⟨_, answered, is, short⟩ |
      ⟨ordered, first, left, right, between, _, _, answered, full, first', second, alike, is⟩ |
      ⟨day, read, zero, unrepeated⟩
    · exact ⟨_, is, Told.short serves answered short⟩
    · have ⟨log, is', told⟩ := ih _ (by omega) first' rfl
      have ⟨log', is'', told'⟩ := ih _ (by omega) second rfl
      refine ⟨(⟨startDate, endDate, limit, 0⟩, first) :: (log ++ log'), by simp [is', is''], ?_⟩
      rw [is]
      exact Told.halves serves ordered answered full told told' alike
    · exact Told.day serves day read zero unrepeated

end Windows

end AutoTrade
