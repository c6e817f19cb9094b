import AutoTrade.Environment.BarColumns

/-!
# Tables over a heap of chunks

The operations of `BarTable`, and what a run of them does to the heap. The naive
tables beside them are the accepted batches themselves: plain lists of JSON records.
-/

namespace AutoTrade

namespace BarColumns

open Json JsonLines

/-- The chunks made so far, and the offsets of the rows each of them has cached. -/
structure Heap where
  chunks : List Chunk := []
  rows : List (List Nat) := []

def Heap.add (heap : Heap) (chunk : Chunk) : Heap :=
  ⟨heap.chunks ++ [chunk], heap.rows ++ [[]]⟩

/-- A `BarTable`: the places of its chunks. -/
structure BarTable where
  chunks : List Nat := []
  monotonic : Bool := true

/-- A chunk and its place, which is its identity. -/
abbrev Piece : Type := Nat × Chunk

abbrev Piece.length (piece : Piece) : Nat := piece.2.length

/-- A `_Row`: the place of its chunk, and its offset there. -/
abbrev Row : Type := Nat × Nat

namespace Chunk

/-- `list(row)`. -/
def rowKeys (chunk : Chunk) (offset : Nat) : List Text :=
  (chunk.columns.entries.filter fun entry => entry.2.carries offset).map Prod.fst

/-- `row[key]`; none is a KeyError. -/
def rowGet (chunk : Chunk) (offset : Nat) (key : Text) : Option Json :=
  (chunk.columns.get? key).bind fun column => column.cell offset

/-- `row.items()`. -/
def rowItems (chunk : Chunk) (offset : Nat) : List (Text × Json) :=
  (chunk.rowKeys offset).filterMap fun key => (chunk.rowGet offset key).map fun v => (key, v)

/-- `len(row)`. -/
def rowLength (chunk : Chunk) (offset : Nat) : Nat :=
  if chunk.sparse then (chunk.rowKeys offset).length else chunk.columns.entries.length

end Chunk

/-- The object a row reads as, and its number of keys. -/
def Heap.rowReading (heap : Heap) (row : Row) : Option (Json × Nat) :=
  heap.chunks[row.1]?.map fun chunk =>
    (strictIdentity (obj (chunk.rowItems row.2)), chunk.rowLength row.2)

/-- The cache of a chunk after `while len(cached) < used`. -/
def fillCache (cached : List Nat) (used : Nat) : List Nat :=
  cached ++ List.range' cached.length (used - cached.length)

/-- The loop of `rows`. -/
def Heap.rowsOf (heap : Heap) : List (Piece × Nat × Nat) → Heap × List Row
  | [] => (heap, [])
  | (piece, _, used) :: rest =>
    let cached := fillCache (heap.rows.getD piece.1 []) used
    let more := Heap.rowsOf { heap with rows := heap.rows.set piece.1 cached } rest
    (more.1, (cached.take used).map (fun offset => (piece.1, offset)) ++ more.2)

/-- `argmax`: the first place of the largest. -/
def argmax (xs : List Int) : Nat := xs.idxOf (xs.max?.getD 0)

/-- A turn of the loop of `max_available_at`. -/
def laterStamp (latest : Option Instant) (part : Piece × Nat × Nat) : Option Instant :=
  match part.1.2.availableAt (argmax (part.1.2.epoch.take part.2.2)) with
  | none => latest
  | some stamp => if latest.all fun latest => latest < stamp then some stamp else latest

/-- A turn of the loop of `history`, for the rows whose text is `target`. -/
def historyOf (printable : Char → Bool) (target : Text) (part : Piece × Nat × Nat) : List Nat :=
  let start := part.2.1
  let used := part.2.2
  match part.1.2.columns.get? symbolKey with
  | none => if target = pyStr printable null then (List.range used).map (start + ·) else []
  | some column =>
    match column.values with
    | .coded codes uniques =>
      let matching := (List.range uniques.length).filter fun code =>
        uniques[code]?.any fun item => pyStr printable item = target
      let masked := fun offset => codes[offset]?.any fun code => code ∈ matching
      let found := fun offset =>
        match column.present with
        | none => masked offset
        | some present =>
          let absent := !present.getD offset false
          (masked offset && !absent) || (target = pyStr printable null && absent)
      ((List.range used).filter found).map (start + ·)
    | _ =>
      ((List.range used).filter fun offset =>
        pyStr printable ((column.cell offset).getD null) = target).map (start + ·)

variable {ρ : Type}

namespace BarTable

variable (heap : Heap) (table : BarTable)

def pieces : List Piece :=
  table.chunks.filterMap fun place => heap.chunks[place]?.map fun chunk => (place, chunk)

def length : Nat := Pieces.size Piece.length (table.pieces heap)

/-- `_locate`; none is an IndexError. -/
def locate (index : Nat) : Option (Piece × Nat) :=
  Pieces.locate Piece.length (table.pieces heap) index

/-- `_spans`. -/
def spans (count : Nat) : Option (List (Piece × Nat × Nat)) :=
  Pieces.spans Piece.length (table.pieces heap) count

def row (index : Nat) : Option Row :=
  (table.locate heap index).map fun place => (place.1.1, place.2)

def rows (count : Nat) : Option (Heap × List Row) := (table.spans heap count).map heap.rowsOf

def record (index : Nat) : Option Record :=
  (table.locate heap index).map fun place => place.1.2.record place.2

def availableAt (index : Nat) : Option Instant :=
  (table.locate heap index).bind fun place => place.1.2.availableAt place.2

def maxAvailableAt (count : Nat) : Option (Option Instant) :=
  if count = 0 then some none
  else if table.monotonic then (table.availableAt heap (count - 1)).map some
  else (table.spans heap count).map fun parts => parts.foldl laterStamp none

/-- `history(symbol, count)`, `target` being `str(symbol)`. -/
def history (printable : Char → Bool) (target : Text) (count : Nat) : Option (List Nat) :=
  (table.spans heap count).map fun parts => parts.flatMap (historyOf printable target)

/-- `prefix_matches`; `same` is `self is other`. -/
def prefixMatches (same : Bool) (other : BarTable) (count : Nat) : Bool :=
  if table.length heap < count ∨ other.length heap < count then false
  else if count = 0 ∨ same then true
  else
    let mine := (table.spans heap count).getD []
    let theirs := (other.spans heap count).getD []
    if mine.length = theirs.length ∧ ((mine.zip theirs).all fun pair =>
        pair.1.1.1 = pair.2.1.1 && pair.1.2.2 = pair.2.2.2) then true
    else (List.range count).all fun index =>
      (table.record heap index).map recordIdentity = (other.record heap index).map recordIdentity

/-- `still_monotonic and self._length`: whether the chunk goes on in order. -/
def goesOn (source : BarSource ρ) (chunk : Chunk) (ordered : Bool) : Bool :=
  table.monotonic && ordered &&
    (table.length heap = 0 ||
      match table.maxAvailableAt heap (table.length heap), chunk.epoch.head? with
      | some (some latest), some first => source.epochUs latest ≤ first
      | _, _ => false)

/-- `extended`; none is the table itself. -/
def extended (source : BarSource ρ) (records : List ρ) (inferenceAt : Option Instant)
    (decodedJson monotonic : Bool) : Except BarError (Option (Heap × BarTable)) := do
  if monotonic && !table.monotonic then throw .notMonotonic
  let after := if monotonic then (table.maxAvailableAt heap (table.length heap)).join else none
  let (chunk, ordered) ← chunkFromRecords source records inferenceAt decodedJson after
  if chunk.length = 0 then return none
  return some (heap.add chunk,
    ⟨table.chunks ++ [heap.chunks.length], table.goesOn heap source chunk ordered⟩)

end BarTable

/-- A call that makes a table or fills a cache. -/
inductive TableCall (ρ : Type) where
  | new
  | extended (table : Nat) (records : List ρ) (inferenceAt : Option Instant)
      (decodedJson monotonic : Bool)
  | rows (table count : Nat)

/-- The tables made so far, over their heap. -/
structure Tables where
  heap : Heap := {}
  tables : List BarTable := []

/-- A call that raises leaves everything as it was. -/
def Tables.step (source : BarSource ρ) (state : Tables) : TableCall ρ → Tables
  | .new => { state with tables := state.tables ++ [{}] }
  | .extended place records inferenceAt decodedJson monotonic =>
    match state.tables[place]? with
    | none => state
    | some table =>
      match table.extended state.heap source records inferenceAt decodedJson monotonic with
      | .ok (some (heap, longer)) => ⟨heap, state.tables ++ [longer]⟩
      | _ => state
  | .rows place count =>
    match (state.tables[place]?).bind fun table => table.rows state.heap count with
    | some (heap, _) => { state with heap }
    | none => state

def Tables.run (source : BarSource ρ) (calls : List (TableCall ρ)) : Tables :=
  calls.foldl (Tables.step source) {}

namespace Plain

/-- The instant a record is available at. -/
def stamp (source : BarSource ρ) (record : Record) : Option Instant :=
  match record.get? availableAtKey with
  | some (str raw) => source.parse raw
  | _ => none

/-- The tests of a batch, from the instant before it on. -/
def check (source : BarSource ρ) (inferenceAt : Option Instant) (behind : Bool) :
    Option Instant → List Record → Except BarError Unit
  | _, [] => .ok ()
  | previous, record :: rest =>
    match stamp source record with
    | none => .error .badAvailableAt
    | some instant =>
      if inferenceAt.any fun decision => decision < instant then .error .notVisible
      else if behind && previous.any fun previous => instant < previous then .error .notMonotonic
      else check source inferenceAt behind (some instant) rest

/-- The records' instants, in arrival order. -/
def stamps (source : BarSource ρ) (records : List Record) : List Instant :=
  records.filterMap (stamp source)

/-- The records `extended` appends to `records`. -/
def extended (source : BarSource ρ) (records : List Record) (values : List ρ)
    (inferenceAt : Option Instant) (decodedJson monotonic : Bool) :
    Except BarError (List Record) := do
  if monotonic && !decide ((stamps source records).Pairwise (· ≤ ·)) then throw .notMonotonic
  let batch ← values.mapM (readBar source decodedJson)
  let after := if monotonic then (stamps source records).getLast? else none
  check source inferenceAt after.isSome after batch
  return batch

/-- The batches of each table, in arrival order. -/
def step (source : BarSource ρ) (tables : List (List (List Record))) :
    TableCall ρ → List (List (List Record))
  | .new => tables ++ [[]]
  | .extended place values inferenceAt decodedJson monotonic =>
    match tables[place]? with
    | none => tables
    | some batches =>
      match extended source batches.flatten values inferenceAt decodedJson monotonic with
      | .error _ | .ok [] => tables
      | .ok batch => tables ++ [batches ++ [batch]]
  | .rows _ _ => tables

def run (source : BarSource ρ) (calls : List (TableCall ρ)) : List (List (List Record)) :=
  calls.foldl (step source) []

variable (records : List Record)

def rows (count : Nat) : Option (List Record) :=
  if count ≤ records.length then some (records.take count) else none

def availableAt (source : BarSource ρ) (index : Nat) : Option Instant :=
  records[index]?.bind (stamp source)

def maxAvailableAt (source : BarSource ρ) (count : Nat) : Option (Option Instant) :=
  (rows records count).map fun records => (stamps source records).max?

/-- The text of a record's symbol. -/
def symbolText (printable : Char → Bool) (record : Record) : Text :=
  pyStr printable ((record.get? symbolKey).getD null)

def history (printable : Char → Bool) (target : Text) (count : Nat) : Option (List Nat) :=
  (rows records count).map fun records => (List.range count).filter fun index =>
    records[index]?.any fun record => symbolText printable record = target

def prefixMatches (other : List Record) (count : Nat) : Bool :=
  count ≤ records.length && count ≤ other.length &&
    (records.take count).map recordIdentity = (other.take count).map recordIdentity

end Plain

end BarColumns

end AutoTrade
