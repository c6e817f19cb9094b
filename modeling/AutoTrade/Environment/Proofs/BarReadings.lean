import AutoTrade.Environment.Proofs.BarTables

/-!
# Histories, rows and prefixes of a table

A table finds a symbol's rows by the texts of the values it stored, so its history is
the records' own where two symbols of a batch that are the same strict JSON have one
text. The rows it hands out and the prefixes it compares are the records' own always.
-/

namespace AutoTrade

namespace BarColumns

open Json JsonLines

variable {ρ : Type} {source : BarSource ρ}

/-- The text of the symbol a row of a batch reads. -/
def textRead (printable : Char → Bool) (batch : List Record) (offset : Nat) : Text :=
  pyStr printable ((cellOf batch symbolKey offset).getD null)

variable {printable : Char → Bool}

theorem any_mem_matching {target : Text} {uniques : List Json} (code : Nat) :
    (decide (code ∈ (List.range uniques.length).filter fun code =>
        uniques[code]?.any fun item => pyStr printable item = target)) =
      uniques[code]?.any fun item => pyStr printable item = target := by
  rw [Bool.eq_iff_iff, decide_eq_true_eq, List.mem_filter, List.mem_range]
  constructor
  · exact fun found => found.2
  · intro found
    refine ⟨?_, found⟩
    cases known : uniques[code]? with
    | none => rw [known] at found; cases found
    | some item => exact (List.getElem?_eq_some_iff.mp known).1

theorem historyOf_eq {target : Text} {part : Piece × Nat × Nat} {batch : List Record}
    (encodes : Encodes source part.1.2 batch) (bounded : part.2.2 ≤ batch.length) :
    historyOf printable target part =
      ((List.range part.2.2).filter fun offset => textRead printable batch offset = target).map
        (part.2.1 + ·) := by
  obtain ⟨⟨place, chunk⟩, start, used⟩ := part
  change Encodes source chunk batch at encodes
  change used ≤ batch.length at bounded
  have cell : ∀ offset ∈ List.range used,
      cellOf batch symbolKey offset = chunk.rowGet offset symbolKey := fun offset inside =>
    (encodes.cells offset ((List.mem_range.mp inside).trans_le bounded) symbolKey).symm
  unfold historyOf
  cases held : chunk.columns.get? symbolKey with
  | none =>
    have texts : ∀ offset ∈ List.range used,
        textRead printable batch offset = pyStr printable null := by
      intro offset inside
      rw [textRead, cell offset inside, Chunk.rowGet, held, Option.bind_none, Option.getD_none]
    simp only
    rw [List.filter_congr fun offset inside => by rw [texts offset inside]]
    by_cases isNone : target = pyStr printable null
    · simp [isNone]
    · simp [isNone, Ne.symm isNone]
  | some column =>
    have texts : ∀ offset ∈ List.range used,
        textRead printable batch offset = pyStr printable ((column.cell offset).getD null) := by
      intro offset inside
      rw [textRead, cell offset inside, Chunk.rowGet, held, Option.bind_some]
    have valued : ∀ offset ∈ List.range used, column.carries offset = true →
        ∃ v, column.value offset = some v := fun offset inside carries =>
      Option.isSome_iff_exists.mp (encodes.valued offset
        ((List.mem_range.mp inside).trans_le bounded) symbolKey column held carries)
    simp only
    split
    · rename_i codes uniques coded
      congr 1
      refine List.filter_congr fun offset inside => ?_
      rw [texts offset inside]
      have masked (v : Json) (reads : column.value offset = some v) :
          (codes[offset]?.any fun code => decide (code ∈ (List.range uniques.length).filter
            fun code => uniques[code]?.any fun item => pyStr printable item = target)) =
            decide (pyStr printable v = target) := by
        unfold Column.value at reads
        rw [coded] at reads
        obtain ⟨code, at_offset, unique⟩ := Option.bind_eq_some_iff.mp reads
        rw [at_offset, Option.any_some, any_mem_matching, unique, Option.any_some]
      have carried := valued offset inside
      unfold Column.carries at carried
      unfold Column.cell Column.carries
      cases present : column.present with
      | none =>
        rw [present] at carried
        obtain ⟨v, reads⟩ := carried rfl
        simp only [masked v reads, reads, if_true, Option.getD_some]
      | some flags =>
        rw [present] at carried
        simp only at carried ⊢
        by_cases flag : flags.getD offset false = true
        · obtain ⟨v, reads⟩ := carried flag
          simp only [masked v reads, flag, reads, if_true, Option.getD_some]
          simp
        · have absent : flags.getD offset false = false := Bool.eq_false_iff.mpr flag
          simp only [absent, Bool.false_eq_true, if_false, Option.getD_none, eq_comm]
          simp
    · congr 1
      exact List.filter_congr fun offset inside => by rw [texts offset inside]

theorem map_snd_filter_zipIdx {α : Type} (l : List α) (p : α → Bool) :
    ((l.zipIdx.filter fun entry => p entry.1).map Prod.snd) =
      (List.range l.length).filter fun i => l[i]?.any p := by
  have places : l.zipIdx.map Prod.snd = List.range l.length := by
    rw [List.zipIdx_map_snd, List.range_eq_range']
  rw [← places, List.filter_map]
  congr 1
  refine List.filter_congr fun entry member => ?_
  have at_place := List.mem_zipIdx_iff_getElem?.mp member
  simp [at_place]

theorem filter_map_flatMap {α β γ : Type} (l : List α) (f : α → List β) (p : β → Bool) (g : β → γ) :
    (l.flatMap fun a => ((f a).filter p).map g) = ((l.flatMap f).filter p).map g := by
  rw [List.filter_flatMap, List.map_flatMap]

namespace Represents

variable {heap : Heap} {table : BarTable} {batches : List (List Record)}

/-- The symbol texts a table reads, in arrival order. -/
def textsRead (printable : Char → Bool) (batches : List (List Record)) : List Text :=
  batches.flatMap fun batch => (List.range batch.length).map (textRead printable batch)

theorem length_textsRead (printable : Char → Bool) (batches : List (List Record)) :
    (textsRead printable batches).length = batches.flatten.length := by
  simp [textsRead, List.length_flatMap]

theorem history_eq (represents : Represents source heap table batches) (printable : Char → Bool)
    (target : Text) (count : Nat) :
    table.history heap printable target count =
      if count ≤ batches.flatten.length then
        some ((List.range count).filter fun i =>
          ((textsRead printable batches).take count)[i]?.any fun text => text = target)
      else none := by
  have bound := represents.spans_eq count
  unfold BarTable.history
  cases spanned : table.spans heap count with
  | none =>
    rw [spanned] at bound
    rw [if_neg (of_decide_eq_false bound.symm)]
    rfl
  | some parts =>
    rw [spanned] at bound
    have inside : count ≤ batches.flatten.length := of_decide_eq_true bound.symm
    rw [if_pos inside, Option.map_some]
    congr 1
    let read : Piece → Nat → Text := fun piece offset =>
      pyStr printable ((piece.2.rowGet offset symbolKey).getD null)
    have whole : Pieces.whole Piece.length read (table.pieces heap) = textsRead printable batches :=
      represents.whole_flatMap fun piece batch _ encodes => List.map_congr_left fun offset inside => by
        show pyStr printable _ = textRead printable batch offset
        rw [encodes.cells offset (List.mem_range.mp inside) symbolKey]
        rfl
    have indexed := Pieces.flatMap_spans read spanned
    rw [whole] at indexed
    have found : ∀ part ∈ parts, historyOf printable target part =
        (((List.range part.2.2).map fun k => (read part.1 k, part.2.1 + k)).filter
          fun entry => entry.1 = target).map Prod.snd := by
      intro part member
      obtain ⟨batch, -, encodes, bounded, -⟩ := represents.part_encodes spanned member
      rw [historyOf_eq encodes bounded, List.filter_map, List.map_map]
      congr 1
      refine List.filter_congr fun offset inside => ?_
      have cell := encodes.cells offset ((List.mem_range.mp inside).trans_le bounded) symbolKey
      show decide (textRead printable batch offset = target) = decide (read part.1 offset = target)
      rw [textRead, ← cell]
    have length : ((textsRead printable batches).take count).length = count := by
      rw [List.length_take, length_textsRead, Nat.min_eq_left inside]
    have places := map_snd_filter_zipIdx ((textsRead printable batches).take count)
      fun text => text = target
    rw [length] at places
    rw [List.flatMap_congr found, filter_map_flatMap, indexed]
    exact places

end Represents

/-- In the batch, symbols that are the same strict JSON have one text. -/
def SymbolsAgree (printable : Char → Bool) (batch : List Record) : Prop :=
  ∀ record ∈ batch, ∀ other ∈ batch,
    strictIdentity ((record.get? symbolKey).getD null) =
      strictIdentity ((other.get? symbolKey).getD null) →
    Plain.symbolText printable record = Plain.symbolText printable other

theorem eq_null_of_identity {v : Json} (same : strictIdentity v = null) : v = null := by
  cases v with
  | null => rfl
  | bool | num | str | arr | obj => cases same

theorem textRead_eq {printable : Char → Bool} {batch : List Record} {record : Record}
    (member : record ∈ batch) : ∃ first ∈ batch,
      (readBack batch symbolKey ((record.get? symbolKey).getD null)) =
        some ((first.get? symbolKey).getD null) ∧
      strictIdentity ((first.get? symbolKey).getD null) =
        strictIdentity ((record.get? symbolKey).getD null) ∧
      ∀ k, batch[k]? = some record →
        textRead printable batch k = Plain.symbolText printable first := by
  obtain ⟨v, found⟩ := Option.isSome_iff_exists.mp (isSome_readBack member symbolKey)
  obtain ⟨first, inside, rfl⟩ := List.mem_map.mp (List.mem_of_find?_eq_some found)
  have same := firstAlike_identity found
  refine ⟨first, inside, found, same, fun k at_k => ?_⟩
  unfold textRead cellOf Plain.symbolText
  rw [at_k, Option.bind_some]
  cases held : record.get? symbolKey with
  | none =>
    rw [held, Option.getD_none] at same
    rw [eq_null_of_identity same]
    rfl
  | some w =>
    rw [held, Option.getD_some] at found
    rw [Option.bind_some, found, Option.getD_some]

theorem textRead_iff {batch : List Record} :
    (∀ k (inside : k < batch.length),
      textRead printable batch k = Plain.symbolText printable batch[k]) ↔
      SymbolsAgree printable batch := by
  constructor
  · intro reads record member other member' same
    obtain ⟨k, inside, rfl⟩ := List.getElem_of_mem member
    obtain ⟨k', inside', rfl⟩ := List.getElem_of_mem member'
    obtain ⟨first, -, found, -, text⟩ := @textRead_eq printable _ _ member
    obtain ⟨first', -, found', -, text'⟩ := @textRead_eq printable _ _ member'
    -- one search finds the first of both
    have one : (first.get? symbolKey).getD null = (first'.get? symbolKey).getD null := by
      unfold readBack firstAlike at found found'
      rw [same] at found
      exact Option.some.inj (found.symm.trans found')
    rw [← reads k inside, ← reads k' inside', text k (List.getElem?_eq_getElem inside),
      text' k' (List.getElem?_eq_getElem inside')]
    unfold Plain.symbolText
    rw [one]
  · intro agree k inside
    obtain ⟨first, member, -, same, text⟩ := textRead_eq (List.getElem_mem inside)
    rw [text k (List.getElem?_eq_getElem inside)]
    exact agree first member _ (List.getElem_mem inside) same

theorem textsRead_iff {batches : List (List Record)} :
    Represents.textsRead printable batches =
        batches.flatten.map (Plain.symbolText printable) ↔
      ∀ batch ∈ batches, SymbolsAgree printable batch := by
  induction batches with
  | nil => simp [Represents.textsRead]
  | cons batch rest ih =>
    rw [List.forall_mem_cons, ← ih, ← textRead_iff, List.flatten_cons, List.map_append]
    unfold Represents.textsRead
    rw [List.flatMap_cons]
    constructor
    · intro same
      obtain ⟨first, later⟩ := List.append_inj same (by simp)
      refine ⟨fun k inside => ?_, later⟩
      have here := congrArg (fun texts => texts[k]?) first
      simpa [inside] using here
    · rintro ⟨first, later⟩
      rw [range_map_getElem first, later]

theorem Represents.history_iff {heap : Heap} {table : BarTable} {batches : List (List Record)}
    (represents : Represents source heap table batches) (printable : Char → Bool) :
    (∀ target count, table.history heap printable target count =
        Plain.history batches.flatten printable target count) ↔
      ∀ batch ∈ batches, SymbolsAgree printable batch := by
  rw [← textsRead_iff]
  have naive (target : Text) (count : Nat) (inside : count ≤ batches.flatten.length) :
      Plain.history batches.flatten printable target count =
        some ((List.range count).filter fun i =>
          ((batches.flatten.map (Plain.symbolText printable)).take count)[i]?.any
            fun text => text = target) := by
    unfold Plain.history Plain.rows
    rw [if_pos inside, Option.map_some]
    congr 1
    refine List.filter_congr fun i member => ?_
    rw [← List.map_take, List.getElem?_map, Option.any_map]
  constructor
  · intro same
    have length := length_textsRead printable batches
    refine List.ext_getElem (by rw [length, List.length_map]) fun i inside inside' => ?_
    rw [length] at inside
    -- the row is in the history of its own text
    have here := same (batches.flatten.map (Plain.symbolText printable))[i] batches.flatten.length
    rw [represents.history_eq, if_pos le_rfl, naive _ _ le_rfl,
      List.take_of_length_le (by rw [length]), List.take_of_length_le (List.length_map _).le] at here
    have member : i ∈ (List.range batches.flatten.length).filter fun k =>
        (batches.flatten.map (Plain.symbolText printable))[k]?.any fun text =>
          text = (batches.flatten.map (Plain.symbolText printable))[i] := by
      rw [List.mem_filter, List.mem_range]
      exact ⟨inside, by rw [List.getElem?_eq_getElem inside']; simp⟩
    rw [← Option.some.inj here] at member
    have found := (List.mem_filter.mp member).2
    rw [List.getElem?_eq_getElem (by rw [length]; exact inside), Option.any_some] at found
    exact of_decide_eq_true found
  · intro same target count
    rw [represents.history_eq, same]
    split_ifs with inside
    · exact (naive target count inside).symm
    · unfold Plain.history Plain.rows
      rw [if_neg inside]
      rfl

/-- Every cache is of a chunk's first rows. -/
def CachesKept (heap : Heap) : Prop := ∀ cached ∈ heap.rows, ∃ n, cached = List.range n

theorem fillCache_range (n used : Nat) : fillCache (List.range n) used = List.range (max n used) := by
  unfold fillCache
  rw [List.length_range, List.range_eq_range', List.range_eq_range']
  have appended := List.range'_append_1 (s := 0) (m := n) (n := used - n)
  rw [Nat.zero_add] at appended
  rw [appended]
  congr 1
  omega

theorem cache_range {heap : Heap} (kept : CachesKept heap) (place : Nat) :
    ∃ n, heap.rows.getD place [] = List.range n := by
  rw [List.getD_eq_getElem?_getD]
  cases at_place : heap.rows[place]? with
  | none => exact ⟨0, rfl⟩
  | some cached => exact kept cached (List.mem_of_getElem? at_place)

theorem rowsOf_spec {heap : Heap} (kept : CachesKept heap) (parts : List (Piece × Nat × Nat)) :
    (heap.rowsOf parts).2 = parts.flatMap (fun part =>
        (List.range part.2.2).map fun offset => (part.1.1, offset)) ∧
      (heap.rowsOf parts).1.chunks = heap.chunks ∧ CachesKept (heap.rowsOf parts).1 := by
  induction parts generalizing heap with
  | nil => exact ⟨rfl, rfl, kept⟩
  | cons part rest ih =>
    obtain ⟨piece, start, used⟩ := part
    obtain ⟨n, cached⟩ := cache_range kept piece.1
    have kept' : CachesKept { heap with
        rows := heap.rows.set piece.1 (fillCache (heap.rows.getD piece.1 []) used) } := by
      intro cached' member
      rcases List.mem_or_eq_of_mem_set member with old | new
      · exact kept cached' old
      · exact ⟨max n used, by rw [new, cached, fillCache_range]⟩
    obtain ⟨rows, chunks, kept''⟩ := ih kept'
    refine ⟨?_, chunks, kept''⟩
    show List.map _ (List.take used (fillCache _ used)) ++ _ = _
    rw [rows, cached, fillCache_range, List.take_range, Nat.min_eq_left (Nat.le_max_right n used),
      List.flatMap_cons]

namespace Represents

variable {heap : Heap} {table : BarTable} {batches : List (List Record)}

theorem rows_eq (represents : Represents source heap table batches) (kept : CachesKept heap)
    (count : Nat) :
    (table.rows heap count).map (fun out => out.2.map out.1.rowReading) =
      (Plain.rows batches.flatten count).map
        (List.map fun record => some (recordIdentity record, record.entries.length)) := by
  have bound := represents.spans_eq count
  unfold BarTable.rows Plain.rows
  cases spanned : table.spans heap count with
  | none =>
    rw [spanned] at bound
    rw [if_neg (of_decide_eq_false bound.symm)]
    rfl
  | some parts =>
    rw [spanned] at bound
    rw [if_pos (of_decide_eq_true bound.symm), Option.map_some, Option.map_some, Option.map_some]
    obtain ⟨rows, chunks, -⟩ := rowsOf_spec kept parts
    let read : Piece → Nat → Option (Json × Nat) := fun piece offset =>
      some (strictIdentity (obj (piece.2.rowItems offset)), piece.2.rowLength offset)
    have whole : Pieces.whole Piece.length read (table.pieces heap) =
        batches.flatten.map fun record =>
          some (recordIdentity record, record.entries.length) :=
      represents.whole fun piece batch _ encodes k inside => by
        obtain ⟨same, entries⟩ := encodes.record_same inside
        show some (strictIdentity (obj (piece.2.rowItems k)), piece.2.rowLength k) = _
        rw [rowItems_eq, encodes.rowLength inside, ← same, ← entries]
        rfl
    have readings := Pieces.flatMap_spans_read read spanned
    rw [whole, ← List.map_take] at readings
    rw [rows, List.map_flatMap, ← readings]
    congr 1
    refine List.flatMap_congr fun part member => ?_
    obtain ⟨batch, at_place, -⟩ := represents.part_encodes spanned member
    rw [List.map_map]
    refine List.map_congr_left fun offset _ => ?_
    simp [Heap.rowReading, chunks, at_place, read]

end Represents

theorem flatMap_same {β : Type} {mine theirs : List (Piece × Nat × Nat)} {read : Piece → Nat → β}
    (length : mine.length = theirs.length)
    (same : ∀ pair ∈ mine.zip theirs, pair.1.1 = pair.2.1 ∧ pair.1.2.2 = pair.2.2.2) :
    (mine.flatMap fun part => (List.range part.2.2).map (read part.1)) =
      theirs.flatMap fun part => (List.range part.2.2).map (read part.1) := by
  induction mine generalizing theirs with
  | nil =>
    rw [List.length_eq_zero_iff.mp length.symm]
  | cons part rest ih =>
    cases theirs with
    | nil => cases length
    | cons part' rest' =>
      obtain ⟨piece, used⟩ := same (part, part') List.mem_cons_self
      rw [List.flatMap_cons, List.flatMap_cons, ih (Nat.succ.inj length)
        fun pair member => same pair (List.mem_cons_of_mem _ member), piece, used]

theorem Represents.prefixMatches_eq {heap : Heap} {table other : BarTable}
    {batches batches' : List (List Record)} (represents : Represents source heap table batches)
    (represents' : Represents source heap other batches') (same : Bool)
    (one : same = true → batches = batches') (count : Nat) :
    table.prefixMatches heap same other count =
      Plain.prefixMatches batches.flatten batches'.flatten count := by
  unfold BarTable.prefixMatches Plain.prefixMatches
  rw [represents.length, represents'.length]
  by_cases short : batches.flatten.length < count ∨ batches'.flatten.length < count
  · rw [if_pos short]
    symm
    rcases short with short | short <;> simp only [not_le.mpr short, decide_false, Bool.false_and,
      Bool.and_false]
  rw [if_neg short]
  push Not at short
  obtain ⟨inside, inside'⟩ := short
  simp only [inside, inside', decide_true, Bool.and_self, Bool.true_and]
  by_cases shortcut : count = 0 ∨ same = true
  · rw [if_pos shortcut]
    rcases shortcut with rfl | isSame
    · simp
    · rw [one isSame]
      simp
  rw [if_neg shortcut]
  have rows : ((List.range count).all fun index =>
        (table.record heap index).map recordIdentity = (other.record heap index).map recordIdentity) =
      decide ((batches.flatten.take count).map recordIdentity =
        (batches'.flatten.take count).map recordIdentity) := by
    rw [Bool.eq_iff_iff, List.all_eq_true, decide_eq_true_eq]
    simp only [decide_eq_true_eq, represents.record_eq, represents'.record_eq, List.mem_range]
    constructor
    · intro each
      refine List.ext_getElem? fun k => ?_
      rw [List.getElem?_map, List.getElem?_map, List.getElem?_take, List.getElem?_take]
      split_ifs with small
      · exact each k small
      · rfl
    · intro equal k small
      have here := congrArg (fun identities => identities[k]?) equal
      simpa only [List.getElem?_map, List.getElem?_take, if_pos small] using here
  split_ifs with chunks
  · symm
    rw [decide_eq_true_eq]
    obtain ⟨length, pairs⟩ := chunks
    obtain ⟨mine, spanned⟩ := Option.isSome_iff_exists.mp
      ((represents.spans_eq count).trans (decide_eq_true inside))
    obtain ⟨theirs, spanned'⟩ := Option.isSome_iff_exists.mp
      ((represents'.spans_eq count).trans (decide_eq_true inside'))
    rw [spanned, spanned', Option.getD_some, Option.getD_some] at length pairs
    let read : Piece → Nat → Json := fun piece offset => recordIdentity (piece.2.record offset)
    have reads : ∀ (piece : Piece) (batch : List Record), heap.chunks[piece.1]? = some piece.2 →
        Encodes source piece.2 batch → ∀ k (inside : k < batch.length),
          read piece k = recordIdentity batch[k] :=
      fun piece batch _ encodes k inside => (encodes.record_same inside).1
    have left := Pieces.flatMap_spans_read read spanned
    have right := Pieces.flatMap_spans_read read spanned'
    rw [represents.whole reads, ← List.map_take] at left
    rw [represents'.whole reads, ← List.map_take] at right
    rw [← left, ← right]
    refine flatMap_same length fun pair member => ?_
    have alike := List.all_eq_true.mp pairs pair member
    rw [Bool.and_eq_true, decide_eq_true_eq, decide_eq_true_eq] at alike
    obtain ⟨batch, at_place, -⟩ := represents.part_encodes spanned (List.of_mem_zip member).1
    obtain ⟨batch', at_place', -⟩ := represents'.part_encodes spanned' (List.of_mem_zip member).2
    rw [alike.1] at at_place
    exact ⟨Prod.ext alike.1 (Option.some.inj (at_place.symm.trans at_place')), alike.2⟩
  · exact rows

end BarColumns

end AutoTrade
