import AutoTrade.Common.Text

/-!
# Querying a window of dates

`query_paged` of `autotrade/data_sources/tushare/common.py` and `query_event_window` of
`autotrade/data_sources/tushare/download.py`. Dates are days, which the texts of four-digit
years order alike; cells are equal where `json.dumps` writes them alike.
-/

namespace AutoTrade

/-- `ApiResult`. -/
structure ApiResult (Cell : Type) where
  fields : List String
  items : List (List Cell)
  deriving DecidableEq

/-- `VENDOR_MAX_OFFSET`. -/
def vendorMaxOffset : Nat := 100000

/-- The params of a request for the rows of a window of dates. -/
structure WindowRequest where
  startDate : Nat
  endDate : Nat
  limit : Nat
  offset : Nat

/-- A request with its answer. -/
abbrev Exchange (Cell : Type) : Type := WindowRequest × ApiResult Cell

/-- `client.query` of one dataset, after what has been asked so far. -/
abbrev Client (Cell : Type) : Type :=
  List (Exchange Cell) → WindowRequest → Except Text (ApiResult Cell)

/-- What a query raises, with what its text is made of. -/
inductive QueryError where
  | client (message : Text)
  | inconsistentFields
  | repeatedPage (offset limit : Nat)
  | secondRead (offset limit : Nat)
  | offsetCap (limit : Nat)
  | inconsistentHalves (startDate endDate : Nat)
  | repeatedRows (startDate repeated pages : Nat)
  | zeroDivision

variable {Cell : Type}

/-- A request, put to the client. -/
def Client.ask (client : Client Cell) (session : List (Exchange Cell)) (request : WindowRequest) :
    Except QueryError (ApiResult Cell × List (Exchange Cell)) :=
  match client session request with
  | .error message => .error (.client message)
  | .ok answer => .ok (answer, session ++ [(request, answer)])

/-- What `query_paged` has read so far. -/
structure Paging (Cell : Type) where
  resultFields : List String
  allItems : List (List Cell)
  pagePayloads : List (ApiResult Cell)
  pages : Nat
  session : List (Exchange Cell)

/-- A page more. -/
def Paging.add (paging : Paging Cell) (result : ApiResult Cell) (session : List (Exchange Cell)) :
    Paging Cell where
  resultFields := if paging.resultFields = [] then result.fields else paging.resultFields
  allItems := paging.allItems ++ result.items
  pagePayloads := result :: paging.pagePayloads
  pages := paging.pages + 1
  session := session

variable [DecidableEq Cell]

/-- The pages from an offset on. -/
def pagesFrom (client : Client Cell) (startDate endDate limit : Nat) (positive : 0 < limit)
    (allowRepeatedPages : Bool) (offset : Nat) (paging : Paging Cell) :
    Except QueryError (Paging Cell) := do
  let request : WindowRequest := ⟨startDate, endDate, limit, offset⟩
  let (result, session) ← client.ask paging.session request
  if paging.resultFields ≠ [] ∧ result.items ≠ [] ∧ result.fields ≠ paging.resultFields then
    throw .inconsistentFields
  if result.items ≠ [] ∧ result ∈ paging.pagePayloads ∧ ¬ allowRepeatedPages then
    throw (.repeatedPage offset limit)
  let paging := paging.add result session
  if result.items.length < limit then
    if result.items = [] ∧ paging.allItems ≠ [] then
      let (again, session) ← client.ask session request
      if again.items ≠ [] then
        throw (.secondRead offset limit)
      return { paging with session := session }
    else
      return paging
  else if offset + limit > vendorMaxOffset then
    throw (.offsetCap limit)
  else
    pagesFrom client startDate endDate limit positive allowRepeatedPages (offset + limit) paging
termination_by vendorMaxOffset + 1 - offset

/-- `query_paged`. -/
def queryPaged (client : Client Cell) (startDate endDate pageLimit : Nat)
    (allowRepeatedPages : Bool) (session : List (Exchange Cell)) :
    Except QueryError (ApiResult Cell × Nat × List (Exchange Cell)) := do
  let limit := if pageLimit = 0 then 10000 else pageLimit
  have positive : 0 < limit := by
    dsimp only [limit]
    split <;> omega
  let paging ← pagesFrom client startDate endDate limit positive allowRepeatedPages 0
    ⟨[], [], [], 0, session⟩
  return (⟨paging.resultFields, paging.allItems⟩, paging.pages, paging.session)

/-- How many rows have been served on an earlier page. -/
def repeatedRows (pageLimit : Nat) (items : List (List Cell)) : Nat :=
  (items.zipIdx.filter fun row => items.idxOf row.1 / pageLimit ≠ row.2 / pageLimit).length

/-- `query_event_window`. -/
def queryEventWindow (client : Client Cell) (pageLimit startDate endDate : Nat)
    (session : List (Exchange Cell)) :
    Except QueryError (ApiResult Cell × Nat × List (Exchange Cell)) :=
  if startDate < endDate then do
    let (result, session) ← client.ask session ⟨startDate, endDate, pageLimit, 0⟩
    if result.items.length < pageLimit then
      return (result, 1, session)
    let middle := startDate + (endDate - startDate) / 2
    let (left, leftRequests, session) ← queryEventWindow client pageLimit startDate middle session
    let (right, rightRequests, session) ←
      queryEventWindow client pageLimit (middle + 1) endDate session
    if left.items ≠ [] ∧ right.items ≠ [] ∧ left.fields ≠ right.fields then
      throw (.inconsistentHalves startDate endDate)
    let fields := if left.fields = [] then right.fields else left.fields
    return (⟨fields, left.items ++ right.items⟩, 1 + leftRequests + rightRequests, session)
  else do
    let (result, pages, session) ← queryPaged client startDate endDate pageLimit false session
    -- the page of a row is `index // page_limit`
    if pageLimit = 0 ∧ result.items ≠ [] then
      throw .zeroDivision
    let repeated := repeatedRows pageLimit result.items
    if repeated ≠ 0 then
      throw (.repeatedRows startDate repeated pages)
    return (result, pages, session)
termination_by endDate - startDate

end AutoTrade
