import AutoTrade.Environment.Proofs.BarReadings

/-!
# Tables over a run

An extension leaves the chunks there were and adds one, so every table made so far
goes on reading the batches it was made from.
-/

namespace AutoTrade

namespace BarColumns

open Json JsonLines

variable {ρ : Type} {source : BarSource ρ}

variable {batches : List (List Record)} {table : BarTable} {heap heap' : Heap}

theorem Represents.grows (represents : Represents source heap table batches)
    (grown : heap.chunks <+: heap'.chunks) :
    Represents source heap' table batches :=
  ⟨represents.chunks.imp fun _ _ ⟨chunk, at_place, encodes⟩ =>
    ⟨chunk, getElem?_of_grown grown at_place, encodes⟩, represents.monotonic⟩

theorem represents_new (source : BarSource ρ) (heap : Heap) : Represents source heap {} [] :=
  ⟨List.Forall₂.nil, by simp [Plain.stamps]⟩

theorem stamps_append (records more : List Record) :
    Plain.stamps source (records ++ more) =
      Plain.stamps source records ++ Plain.stamps source more := List.filterMap_append

theorem Represents.after_eq {heap : Heap} (represents : Represents source heap table batches)
    (sorted : table.monotonic = true) :
    (table.maxAvailableAt heap (table.length heap)).join =
      (Plain.stamps source batches.flatten).getLast? := by
  rw [represents.monotonic, decide_eq_true_eq] at sorted
  rw [represents.maxAvailableAt_eq, represents.length]
  unfold Plain.maxAvailableAt Plain.rows
  rw [if_pos le_rfl, List.take_length, Option.map_some, Option.join_some, max?_of_sorted sorted]

theorem Represents.goesOn_eq {heap : Heap} (represents : Represents source heap table batches)
    {chunk : Chunk} {batch : List Record} (encodes : Encodes source chunk batch)
    {after : Option Instant} {ordered : Bool}
    (placed : after = none ∨ after = (Plain.stamps source batches.flatten).getLast?)
    (inOrder : ordered = decide ((after.toList ++ Plain.stamps source batch).Pairwise (· ≤ ·))) :
    table.goesOn heap source chunk ordered =
      decide ((Plain.stamps source (batches ++ [batch]).flatten).Pairwise (· ≤ ·)) := by
  have whole : (batches ++ [batch]).flatten = batches.flatten ++ batch := by simp
  rw [whole, stamps_append, Bool.eq_iff_iff, decide_eq_true_eq, sorted_append]
  unfold BarTable.goesOn
  rw [Bool.and_eq_true, Bool.and_eq_true, represents.monotonic, inOrder, decide_eq_true_eq,
    decide_eq_true_eq, represents.length, represents.maxAvailableAt_eq, encodes.epoch]
  obtain ⟨first, rest, stamps⟩ : ∃ first rest, Plain.stamps source batch = first :: rest := by
    refine List.exists_cons_of_length_pos ?_
    rw [stamps_length encodes.stamped]
    exact List.length_pos_iff.mpr encodes.filled
  rw [stamps, List.map_cons, List.head?_cons, List.head?_cons]
  unfold Plain.maxAvailableAt Plain.rows
  rw [if_pos le_rfl, List.take_length, Option.map_some]
  have size : (Plain.stamps source batches.flatten).length = batches.flatten.length :=
    stamps_length represents.stamped
  generalize batches.flatten.length = length at size ⊢
  by_cases sorted : (Plain.stamps source batches.flatten).Pairwise (· ≤ ·)
  · rw [max?_of_sorted sorted]
    cases latest : (Plain.stamps source batches.flatten).getLast? with
    | none =>
      have empty : length = 0 := by
        rw [← size, List.getLast?_eq_none_iff.mp latest, List.length_nil]
      have noAfter : after = none := by
        rcases placed with none | is
        · exact none
        · exact is.trans latest
      simp [sorted, empty, noAfter]
    | some last =>
      have filled : length ≠ 0 := by
        rw [← size]
        intro empty
        rw [List.length_eq_zero_iff.mp empty] at latest
        cases latest
      have epochs : source.epochUs last ≤ source.epochUs first ↔ last ≤ first :=
        source.epochUs_strictMono.le_iff_le
      rcases placed with rfl | is
      · simp [sorted, filled, epochs]
      · rw [is, latest]
        have joined : (Option.some last).toList ++ (first :: rest) = [last] ++ first :: rest := rfl
        rw [joined, sorted_append]
        simp [sorted, filled, epochs]
  · simp [sorted]

theorem Represents.extended {heap : Heap} (represents : Represents source heap table batches)
    (values : List ρ) (inferenceAt : Option Instant) (decodedJson monotonic : Bool) :
    match table.extended heap source values inferenceAt decodedJson monotonic with
    | .error error => Plain.extended source batches.flatten values inferenceAt decodedJson
        monotonic = .error error
    | .ok none => Plain.extended source batches.flatten values inferenceAt decodedJson
        monotonic = .ok []
    | .ok (some (heap', longer)) => ∃ batch, batch ≠ [] ∧
        Plain.extended source batches.flatten values inferenceAt decodedJson monotonic =
          .ok batch ∧
        heap.chunks <+: heap'.chunks ∧ heap'.rows = heap.rows ++ [[]] ∧
        Represents source heap' longer (batches ++ [batch]) := by
  by_cases refused : (monotonic && !table.monotonic) = true
  · have left : table.extended heap source values inferenceAt decodedJson monotonic =
        .error .notMonotonic := by
      unfold BarTable.extended
      rw [if_pos refused]
      rfl
    rw [left]
    unfold Plain.extended
    rw [← represents.monotonic, if_pos refused]
    rfl
  let after := if monotonic then (Plain.stamps source batches.flatten).getLast? else none
  have same : (if monotonic then (table.maxAvailableAt heap (table.length heap)).join else none) =
      after := by
    by_cases asked : monotonic = true
    · have sorted : table.monotonic = true := by simpa [asked] using refused
      simp only [after, if_pos asked]
      exact represents.after_eq sorted
    · simp only [after, if_neg asked]
  have placed : after = none ∨ after = (Plain.stamps source batches.flatten).getLast? := by
    by_cases asked : monotonic = true
    · exact .inr (if_pos asked)
    · exact .inl (if_neg asked)
  have left : table.extended heap source values inferenceAt decodedJson monotonic =
      (chunkFromRecords source values inferenceAt decodedJson after).bind fun made =>
        if made.1.length = 0 then .ok none
        else .ok (some (heap.add made.1,
          ⟨table.chunks ++ [heap.chunks.length], table.goesOn heap source made.1 made.2⟩)) := by
    unfold BarTable.extended
    rw [if_neg refused, same]
    rfl
  have right : Plain.extended source batches.flatten values inferenceAt decodedJson monotonic =
      (values.mapM (readBar source decodedJson)).bind fun batch =>
        (Plain.check source inferenceAt after.isSome after batch).bind fun _ => .ok batch := by
    unfold Plain.extended
    rw [← represents.monotonic, if_neg refused]
    rfl
  rw [left, right]
  cases made : chunkFromRecords source values inferenceAt decodedJson after with
  | error error =>
    have refuses := chunkFromRecords_map source values inferenceAt decodedJson after
    rw [made] at refuses
    show (values.mapM (readBar source decodedJson)).bind _ = _
    cases read : values.mapM (readBar source decodedJson) with
    | error error' =>
      rw [read] at refuses
      exact congrArg Except.error (Except.error.inj refuses).symm
    | ok batch =>
      rw [read] at refuses
      have checks : Plain.check source inferenceAt after.isSome after batch = .error error :=
        refuses.symm
      show (Plain.check source inferenceAt after.isSome after batch).bind _ = _
      rw [checks]
      rfl
  | ok out =>
    obtain ⟨chunk, ordered⟩ := out
    obtain ⟨batch, read, checked, length, encodes, inOrder⟩ := chunkFromRecords_eq_ok made
    have accepted : ((values.mapM (readBar source decodedJson)).bind fun batch =>
        (Plain.check source inferenceAt after.isSome after batch).bind fun _ => .ok batch) =
        Except.ok batch := by
      rw [read]
      show (Plain.check source inferenceAt after.isSome after batch).bind _ = _
      rw [checked]
      rfl
    rw [accepted]
    by_cases empty : chunk.length = 0
    · simp only [Except.bind, if_pos empty]
      rw [length, List.length_eq_zero_iff] at empty
      exact congrArg Except.ok empty
    · simp only [Except.bind, if_neg empty]
      have filled : batch ≠ [] := by
        rw [length] at empty
        exact List.ne_nil_of_length_pos (Nat.pos_of_ne_zero empty)
      have grown : heap.chunks <+: (heap.add chunk).chunks := List.prefix_append _ _
      refine ⟨batch, filled, rfl, grown, rfl, ?_, ?_⟩
      · refine List.rel_append (represents.grows grown).chunks (List.Forall₂.cons ?_ .nil)
        exact ⟨chunk, List.getElem?_concat_length, encodes filled⟩
      · exact represents.goesOn_eq (encodes filled) placed inOrder

/-- The tables made so far are the naive ones. -/
structure Refining (source : BarSource ρ) (state : Tables) (plain : List (List (List Record))) :
    Prop where
  kept : CachesKept state.heap
  tables : List.Forall₂ (Represents source state.heap) state.tables plain

variable {plain : List (List (List Record))} {state : Tables}

theorem Refining.at_place (refining : Refining source state plain) {i : Nat}
    (at_i : state.tables[i]? = some table) :
    ∃ batches, plain[i]? = some batches ∧ Represents source state.heap table batches := by
  obtain ⟨inside, same⟩ := List.getElem?_eq_some_iff.mp at_i
  have inside' : i < plain.length := by rwa [← refining.tables.length_eq]
  have pair := List.Forall₂.get refining.tables inside inside'
  rw [List.get_eq_getElem, List.get_eq_getElem, same] at pair
  exact ⟨plain[i], List.getElem?_eq_getElem inside', pair⟩

theorem Refining.step (refining : Refining source state plain) (call : TableCall ρ) :
    Refining source (state.step source call) (Plain.step source plain call) ∧
      state.heap.chunks <+: (state.step source call).heap.chunks ∧
      state.tables <+: (state.step source call).tables ∧
      plain <+: Plain.step source plain call := by
  have same := List.prefix_refl state.heap.chunks
  cases call with
  | new =>
    refine ⟨⟨refining.kept, ?_⟩, same, List.prefix_append _ _, List.prefix_append _ _⟩
    exact List.rel_append refining.tables
      (List.Forall₂.cons (represents_new source state.heap) .nil)
  | extended place values inferenceAt decodedJson monotonic =>
    unfold Tables.step Plain.step
    cases at_place : state.tables[place]? with
    | none =>
      have outside : plain[place]? = none := by
        rw [List.getElem?_eq_none_iff, ← refining.tables.length_eq]
        exact List.getElem?_eq_none_iff.mp at_place
      simp only [at_place, outside]
      exact ⟨refining, same, List.prefix_refl _, List.prefix_refl _⟩
    | some table =>
      obtain ⟨batches, at_plain, represents⟩ := refining.at_place at_place
      have extends_ := represents.extended values inferenceAt decodedJson monotonic
      simp only [at_place, at_plain]
      cases made : table.extended state.heap source values inferenceAt decodedJson monotonic with
      | error error =>
        rw [made] at extends_
        simp only at extends_
        simp only [extends_]
        exact ⟨refining, same, List.prefix_refl _, List.prefix_refl _⟩
      | ok longer =>
        rw [made] at extends_
        cases longer with
        | none =>
          simp only at extends_
          simp only [extends_]
          exact ⟨refining, same, List.prefix_refl _, List.prefix_refl _⟩
        | some out =>
          obtain ⟨heap', longer⟩ := out
          obtain ⟨batch, filled, plainly, grown, rows, represents'⟩ := extends_
          obtain ⟨record, rest, rfl⟩ := List.exists_cons_of_ne_nil filled
          simp only [plainly]
          refine ⟨⟨?_, ?_⟩, grown, List.prefix_append _ _, List.prefix_append _ _⟩
          · intro cached member
            rw [rows] at member
            rcases List.mem_append.mp member with old | new
            · exact refining.kept cached old
            · exact ⟨0, List.mem_singleton.mp new⟩
          · exact List.rel_append (refining.tables.imp fun _ _ held => held.grows grown)
              (List.Forall₂.cons represents' .nil)
  | rows place count =>
    cases out : (state.tables[place]?).bind fun table => table.rows state.heap count with
    | none =>
      simp only [Tables.step, Plain.step, out]
      exact ⟨refining, same, List.prefix_refl _, List.prefix_refl _⟩
    | some filled =>
      obtain ⟨heap', handed⟩ := filled
      obtain ⟨table, -, handed'⟩ := Option.bind_eq_some_iff.mp out
      obtain ⟨parts, -, spanned⟩ := Option.map_eq_some_iff.mp handed'
      obtain ⟨-, chunks, kept⟩ := rowsOf_spec refining.kept parts
      rw [spanned] at chunks kept
      have grown : state.heap.chunks <+: heap'.chunks := chunks ▸ List.prefix_refl _
      simp only [Tables.step, Plain.step, out]
      exact ⟨⟨kept, refining.tables.imp fun _ _ held => held.grows grown⟩, grown,
        List.prefix_refl _, List.prefix_refl _⟩

theorem Refining.run (refining : Refining source state plain) (calls : List (TableCall ρ)) :
    Refining source (calls.foldl (Tables.step source) state)
        (calls.foldl (Plain.step source) plain) ∧
      state.heap.chunks <+: (calls.foldl (Tables.step source) state).heap.chunks ∧
      state.tables <+: (calls.foldl (Tables.step source) state).tables ∧
      plain <+: calls.foldl (Plain.step source) plain := by
  induction calls generalizing state plain with
  | nil => exact ⟨refining, List.prefix_refl _, List.prefix_refl _, List.prefix_refl _⟩
  | cons call rest ih =>
    obtain ⟨next, chunks, tables, naive⟩ := refining.step call
    obtain ⟨last, chunks', tables', naive'⟩ := ih next
    exact ⟨last, chunks.trans chunks', tables.trans tables', naive.trans naive'⟩

theorem refining_start (source : BarSource ρ) : Refining source {} [] :=
  ⟨fun _ member => (List.not_mem_nil member).elim, List.Forall₂.nil⟩

/-- A table reads as a list of records. Bars are compared as strict JSON. -/
structure ReadsAs (source : BarSource ρ) (printable : Char → Bool) (heap : Heap) (table : BarTable)
    (records : List Record) : Prop where
  length : table.length heap = records.length
  record : ∀ index, (table.record heap index).map recordIdentity =
    records[index]?.map recordIdentity
  rows : ∀ count, (table.rows heap count).map (fun out => out.2.map out.1.rowReading) =
    (Plain.rows records count).map
      (List.map fun record => some (recordIdentity record, record.entries.length))
  availableAt : ∀ index, table.availableAt heap index = Plain.availableAt records source index
  maxAvailableAt : ∀ count, table.maxAvailableAt heap count =
    Plain.maxAvailableAt records source count
  history : ∀ target count, table.history heap printable target count =
    Plain.history records printable target count

/-- Every table reads as its records, and any two compare as theirs do. -/
structure Refines (source : BarSource ρ) (printable : Char → Bool) (state : Tables)
    (plain : List (List (List Record))) : Prop where
  tables : List.Forall₂ (fun table batches =>
    ReadsAs source printable state.heap table batches.flatten) state.tables plain
  prefixes : ∀ (i j : Nat) (table other : BarTable) (batches batches' : List (List Record)),
    state.tables[i]? = some table → state.tables[j]? = some other →
    plain[i]? = some batches → plain[j]? = some batches' →
    ∀ count, table.prefixMatches state.heap (i = j) other count =
      Plain.prefixMatches batches.flatten batches'.flatten count

/-- A table reads in one heap as in another. -/
structure Unchanged (printable : Char → Bool) (heap heap' : Heap) (table : BarTable) : Prop where
  record : table.record heap = table.record heap'
  availableAt : table.availableAt heap = table.availableAt heap'
  maxAvailableAt : table.maxAvailableAt heap = table.maxAvailableAt heap'
  history : table.history heap printable = table.history heap' printable

/-- At every moment of a run every table reads as its records, and no later call, one
    that is refused included, changes what a table reads. -/
structure ReadsRecords (source : BarSource ρ) (printable : Char → Bool)
    (calls : List (TableCall ρ)) : Prop where
  refines : ∀ done, done <+: calls →
    Refines source printable (Tables.run source done) (Plain.run source done)
  lasts : ∀ done more, done ++ more = calls → ∀ (i : Nat) table,
    (Tables.run source done).tables[i]? = some table →
      (Tables.run source calls).tables[i]? = some table ∧
        Unchanged printable (Tables.run source done).heap (Tables.run source calls).heap table

theorem pieces_grown (represents : Represents source heap table batches)
    (grown : heap.chunks <+: heap'.chunks) :
    table.pieces heap = table.pieces heap' := by
  unfold BarTable.pieces
  refine List.filterMap_congr fun place member => ?_
  obtain ⟨i, inside, rfl⟩ := List.getElem_of_mem member
  have inside' : i < batches.length := by rwa [← represents.chunks.length_eq]
  obtain ⟨chunk, at_place, -⟩ := List.Forall₂.get represents.chunks inside inside'
  rw [List.get_eq_getElem] at at_place
  rw [at_place, getElem?_of_grown grown at_place]

theorem unchanged_of_pieces {printable : Char → Bool}
    (same : table.pieces heap = table.pieces heap') : Unchanged printable heap heap' table := by
  have locate : table.locate heap = table.locate heap' := by
    unfold BarTable.locate
    rw [same]
  have spans : table.spans heap = table.spans heap' := by
    unfold BarTable.spans
    rw [same]
  have availableAt : table.availableAt heap = table.availableAt heap' := by
    unfold BarTable.availableAt
    rw [locate]
  refine ⟨?_, availableAt, ?_, ?_⟩
  · unfold BarTable.record
    rw [locate]
  · unfold BarTable.maxAvailableAt
    rw [availableAt, spans]
  · unfold BarTable.history
    rw [spans]

/-- A run reads as its records exactly when, in every accepted batch, symbols that are
    the same strict JSON have one text. -/
theorem tables_read_records_iff (source : BarSource ρ) (printable : Char → Bool)
    (calls : List (TableCall ρ)) :
    ReadsRecords source printable calls ↔
      ∀ batches ∈ Plain.run source calls, ∀ batch ∈ batches, SymbolsAgree printable batch := by
  have whole := ((refining_start source).run calls).1
  constructor
  · intro reads batches member
    obtain ⟨i, inside, rfl⟩ := List.getElem_of_mem member
    have inside' : i < (Tables.run source calls).tables.length := by
      show i < (calls.foldl (Tables.step source) {}).tables.length
      rwa [whole.tables.length_eq]
    have represents := List.Forall₂.get whole.tables inside' inside
    have here := List.Forall₂.get (reads.refines calls (List.prefix_refl _)).tables inside' inside
    exact (represents.history_iff printable).mp here.history
  · intro agree
    constructor
    · rintro done ⟨more, rfl⟩
      obtain ⟨refining, -⟩ := (refining_start source).run done
      obtain ⟨-, -, -, naive⟩ := refining.run more
      have agree' : ∀ batches ∈ Plain.run source done, ∀ batch ∈ batches,
          SymbolsAgree printable batch := by
        intro batches member
        apply agree
        unfold Plain.run
        rw [List.foldl_append]
        exact naive.subset member
      constructor
      · refine List.forall₂_iff_get.mpr ⟨refining.tables.length_eq, fun i inside inside' => ?_⟩
        have represents := List.Forall₂.get refining.tables inside inside'
        exact {
          length := represents.length
          record := represents.record_eq
          rows := represents.rows_eq refining.kept
          availableAt := represents.availableAt_eq
          maxAvailableAt := represents.maxAvailableAt_eq
          history := (represents.history_iff printable).mpr
            (agree' _ (List.get_mem _ ⟨i, inside'⟩)) }
      · intro i j table other batches batches' at_i at_j plain_i plain_j count
        obtain ⟨known, here, represents⟩ := refining.at_place at_i
        obtain ⟨known', here', represents'⟩ := refining.at_place at_j
        obtain rfl : batches = known := Option.some.inj (plain_i.symm.trans here)
        obtain rfl : batches' = known' := Option.some.inj (plain_j.symm.trans here')
        refine represents.prefixMatches_eq represents' _ (fun same => ?_) count
        have one : i = j := of_decide_eq_true same
        subst one
        exact Option.some.inj (plain_i.symm.trans plain_j)
    · rintro done more rfl i table at_i
      obtain ⟨refining, -⟩ := (refining_start source).run done
      obtain ⟨-, grown, tables, -⟩ := refining.run more
      obtain ⟨batches, -, represents⟩ := refining.at_place at_i
      unfold Tables.run at at_i ⊢
      rw [List.foldl_append]
      exact ⟨getElem?_of_grown tables at_i, unchanged_of_pieces (pieces_grown represents grown)⟩

/-- An instant of the close of 2024-01-02, and its `isoformat`. -/
def closeInstant : Instant := Instant.atMinute 20240102 900 (by decide)

def closeText : Text := "2024-01-02T15:00:00+08:00".toList

/-- The number of an instant; the year's days lie as many microseconds apart as days do. -/
def microsOf (t : Instant) : Nat := t.day * microsPerDay + t.micros

/-- Texts of instants that are as Python's at the close. -/
def closeDateTimes : DateTimes where
  iso t := if t = closeInstant then closeText else JsonNumber.digitsOf (microsOf t)
  parse text :=
    if text = closeText then some closeInstant
    else
      let n := Nat.ofDigits 10 (text.reverse.map JsonNumber.digitValue)
      some ⟨n / microsPerDay, n % microsPerDay, Nat.mod_lt _ (by decide)⟩
  parse_iso t := by
    by_cases isClose : t = closeInstant
    · rw [if_pos isClose, if_pos rfl, isClose]
    · have other : JsonNumber.digitsOf (microsOf t) ≠ closeText := by
        intro same
        have dash : '-' ∈ (JsonNumber.ofNat (microsOf t)).text := by
          show '-' ∈ JsonNumber.digitsOf (microsOf t)
          rw [same]
          decide +kernel
        exact absurd (JsonNumber.mem_ofNat dash) (by decide +kernel)
      rw [if_neg isClose, if_neg other]
      have value : Nat.ofDigits 10 ((JsonNumber.digitsOf (microsOf t)).reverse.map
          JsonNumber.digitValue) = microsOf t := (JsonNumber.digitsOf_spec _).2.2
      simp only [value]
      have day : microsOf t / microsPerDay = t.day := by
        unfold microsOf
        rw [Nat.mul_comm, Nat.mul_add_div (by decide), Nat.div_eq_of_lt t.micros_lt, Nat.add_zero]
      have micros : microsOf t % microsPerDay = t.micros := by
        unfold microsOf
        rw [Nat.mul_comm, Nat.mul_add_mod, Nat.mod_eq_of_lt t.micros_lt]
      cases t
      simp only [day, micros]

/-- Decoded records. -/
def closeSource : BarSource Record where
  toDateTimes := closeDateTimes
  epochUs t := microsOf t - 1747040688000000000
  epochUs_strictMono := by
    intro s t less
    have bound := s.micros_lt
    have later : microsOf s < microsOf t := by
      unfold microsOf
      rcases Instant.lt_def.mp less with day | ⟨day, micros⟩
      · have days : (s.day + 1) * microsPerDay ≤ t.day * microsPerDay :=
          Nat.mul_le_mul_right _ day
        rw [Nat.add_one_mul] at days
        omega
      · rw [day]
        omega
    show (microsOf s : Int) - _ < microsOf t - _
    omega
  decoded := some
  jsonMapping := some

/-- A record whose symbol is an object of two members. -/
def objectSymbol (first second : Text × Json) : Record :=
  ⟨[(symbolKey, obj [first, second]), (availableAtKey, str closeText)],
    show [symbolKey, availableAtKey].Nodup by decide +kernel⟩

def codeMember : Text × Json := ("code".toList, str "600000".toList)

def marketMember : Text × Json := ("market".toList, str "SH".toList)

/-- A table extended by one object twice, its members in either order. -/
def objectSymbolCalls : List (TableCall Record) :=
  [.new, .extended 0 [objectSymbol codeMember marketMember,
    objectSymbol marketMember codeMember] none true false]

def objectSymbolText : Text :=
  Plain.symbolText (fun _ => true) (objectSymbol marketMember codeMember)

/-- The second row is not in the history of its own symbol's text. -/
theorem object_symbol_unfound :
    ¬ ReadsRecords closeSource (fun _ => true) objectSymbolCalls := by
  intro reads
  have tables := (reads.refines objectSymbolCalls (List.prefix_refl _)).tables
  have found : ((Tables.run closeSource objectSymbolCalls).tables[1]?.bind fun table =>
      table.history (Tables.run closeSource objectSymbolCalls).heap (fun _ => true)
        objectSymbolText 2) = some [] := by decide +kernel
  have naive : ((Plain.run closeSource objectSymbolCalls)[1]?.bind fun batches =>
      Plain.history batches.flatten (fun _ => true) objectSymbolText 2) = some [1] := by
    decide +kernel
  obtain ⟨table, at_table, found⟩ := Option.bind_eq_some_iff.mp found
  obtain ⟨batches, at_batches, naive⟩ := Option.bind_eq_some_iff.mp naive
  obtain ⟨inside, rfl⟩ := List.getElem?_eq_some_iff.mp at_table
  obtain ⟨inside', rfl⟩ := List.getElem?_eq_some_iff.mp at_batches
  have here := (List.Forall₂.get tables inside inside').history objectSymbolText 2
  rw [List.get_eq_getElem, List.get_eq_getElem, found, naive] at here
  exact absurd here (by decide)

end BarColumns

end AutoTrade
