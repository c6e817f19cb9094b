import AutoTrade.Environment.Proofs.BarChunks

/-!
# A table reads as its records

Each reading of a table goes through the chunks of it; what the chunks of its batches
read, the table reads of the records in arrival order.
-/

namespace AutoTrade

namespace BarColumns

open Json JsonLines

variable {ρ : Type} {source : BarSource ρ}

theorem sortFields_pairwise (fields : JsonObject) :
    (sortFields fields).Pairwise fun a b => a.1 ≤ b.1 := by
  induction fields with
  | nil => exact List.Pairwise.nil
  | cons entry fields ih =>
    obtain ⟨key, v⟩ := entry
    exact List.Pairwise.orderedInsert _ _ ih

theorem recordIdentity_congr {record other : Record}
    (same : ∀ key, (record.get? key).map strictIdentity = (other.get? key).map strictIdentity) :
    recordIdentity record = recordIdentity other ∧
      record.entries.length = other.entries.length := by
  have values (d : Record) (key : Text) :
      (d.mapValues fun _ v => strictIdentity v).get? key = (d.get? key).map strictIdentity :=
    Dict.lookup_map (fun _ => strictIdentity) key d.entries
  have perm : (record.mapValues fun _ v => strictIdentity v).entries.Perm
      (other.mapValues fun _ v => strictIdentity v).entries :=
    Dict.equiv_of_get? fun key => by rw [values, values, same]
  have sorted : sortFields record.entries = sortFields other.entries := by
    have left := perm_sortFields record.entries
    have right := perm_sortFields other.entries
    refine List.Perm.eq_of_pairwise ?_ (sortFields_pairwise _) (sortFields_pairwise _)
      (left.trans (perm.trans right.symm))
    rintro ⟨key, v⟩ ⟨key', v'⟩ inside inside' le ge
    obtain rfl : key = key' := le_antisymm le ge
    have held : (record.mapValues fun _ v => strictIdentity v).get? key = some v :=
      Dict.mem_entries_iff.mp (left.subset inside)
    have held' : (record.mapValues fun _ v => strictIdentity v).get? key = some v' :=
      Dict.mem_entries_iff.mp (perm.symm.subset (right.subset inside'))
    rw [Option.some.inj (held.symm.trans held')]
  constructor
  · show obj (sortFields record.entries) = obj (sortFields other.entries)
    rw [sorted]
  · simpa using perm.length_eq

theorem get?_record (chunk : Chunk) (offset : Nat) (key : Text) :
    (chunk.record offset).get? key = chunk.rowGet offset key := Dict.get?_filterMap

theorem rowItems_eq (chunk : Chunk) (offset : Nat) :
    chunk.rowItems offset = (chunk.record offset).entries := by
  have reads : ∀ entry ∈ chunk.columns.entries,
      chunk.rowGet offset entry.1 = entry.2.cell offset := by
    intro entry member
    have held := Dict.mem_entries_iff.mp member
    simp [Chunk.rowGet, held]
  show (((chunk.columns.entries.filter fun entry => entry.2.carries offset).map
    Prod.fst).filterMap _) = chunk.columns.entries.filterMap _
  rw [List.filterMap_map, List.filterMap_filter]
  refine List.filterMap_congr fun entry member => ?_
  rw [Function.comp_apply, reads entry member]
  cases carried : entry.2.carries offset <;> simp [Column.cell, carried]

theorem rowLength_eq (chunk : Chunk) (offset : Nat) :
    chunk.rowLength offset = (chunk.rowKeys offset).length := by
  unfold Chunk.rowLength
  split_ifs with sparse
  · rfl
  · -- a chunk that is not sparse has no column with absences
    have all : ∀ entry ∈ chunk.columns.entries, entry.2.carries offset = true := by
      intro entry member
      have noMask : entry.2.present = none := by
        have whole : ¬ chunk.columns.values.any fun column => column.present.isSome := sparse
        rw [List.any_eq_true, not_exists] at whole
        have here := whole entry.2
        rw [not_and] at here
        simpa using here (List.mem_map_of_mem member)
      unfold Column.carries
      rw [noMask]
    unfold Chunk.rowKeys
    rw [List.filter_eq_self.mpr all, List.length_map]

namespace Encodes

variable {chunk : Chunk} {batch : List Record}

theorem record_same (encodes : Encodes source chunk batch) {offset : Nat}
    (inside : offset < batch.length) :
    recordIdentity (chunk.record offset) = recordIdentity batch[offset] ∧
      (chunk.record offset).entries.length = batch[offset].entries.length := by
  apply recordIdentity_congr
  intro key
  rw [get?_record, encodes.cells offset inside key]
  exact cellOf_identity (List.getElem?_eq_getElem inside) key

theorem rowLength (encodes : Encodes source chunk batch) {offset : Nat}
    (inside : offset < batch.length) :
    chunk.rowLength offset = (chunk.record offset).entries.length := by
  rw [rowLength_eq, ← rowItems_eq]
  unfold Chunk.rowItems
  have known : ∀ key ∈ chunk.rowKeys offset, (chunk.rowGet offset key).isSome := by
    intro key member
    obtain ⟨⟨key, column⟩, kept, rfl⟩ := List.mem_map.mp member
    obtain ⟨entry, carries⟩ := List.mem_filter.mp kept
    have held := Dict.mem_entries_iff.mp entry
    have valued := encodes.valued offset inside key column held carries
    change column.carries offset = true at carries
    simpa [Chunk.rowGet, held, Column.cell, carries] using valued
  generalize chunk.rowKeys offset = keys at known ⊢
  induction keys with
  | nil => rfl
  | cons key rest ih =>
    obtain ⟨v, here⟩ := Option.isSome_iff_exists.mp (known key List.mem_cons_self)
    have later := ih fun other member => known other (List.mem_cons_of_mem key member)
    rw [List.filterMap_cons_some (by rw [here]; rfl), List.length_cons, List.length_cons, later]

end Encodes

/-- The chunk at a place reads a batch. -/
def Holds (source : BarSource ρ) (heap : Heap) (place : Nat) (batch : List Record) : Prop :=
  ∃ chunk, heap.chunks[place]? = some chunk ∧ Encodes source chunk batch

/-- A table has the records of some batches. -/
structure Represents (source : BarSource ρ) (heap : Heap) (table : BarTable)
    (batches : List (List Record)) : Prop where
  chunks : List.Forall₂ (Holds source heap) table.chunks batches
  monotonic : table.monotonic =
    decide ((Plain.stamps source batches.flatten).Pairwise (· ≤ ·))

theorem forall₂_pieces {heap : Heap} {places : List Nat} {batches : List (List Record)}
    (holds : List.Forall₂ (Holds source heap) places batches) :
    List.Forall₂ (fun (piece : Piece) batch =>
        heap.chunks[piece.1]? = some piece.2 ∧ Encodes source piece.2 batch)
      (places.filterMap fun place => heap.chunks[place]?.map fun chunk => (place, chunk))
      batches := by
  induction holds with
  | nil => exact List.Forall₂.nil
  | cons here _ ih =>
    obtain ⟨chunk, at_place, encodes⟩ := here
    rw [List.filterMap_cons_some (by rw [at_place]; rfl)]
    exact List.Forall₂.cons ⟨at_place, encodes⟩ ih

theorem range_map_getElem {α β : Type} {l : List α} {g : Nat → β} {f : α → β}
    (same : ∀ k (inside : k < l.length), g k = f l[k]) : (List.range l.length).map g = l.map f := by
  refine List.ext_getElem (by simp) fun k inside _ => ?_
  simpa using same k (by simpa using inside)

namespace Represents

variable {heap : Heap} {table : BarTable} {batches : List (List Record)} {β : Type}

theorem pieces (represents : Represents source heap table batches) :
    List.Forall₂ (fun (piece : Piece) batch =>
      heap.chunks[piece.1]? = some piece.2 ∧ Encodes source piece.2 batch)
      (table.pieces heap) batches := forall₂_pieces represents.chunks

theorem whole_flatMap (represents : Represents source heap table batches)
    {read : Piece → Nat → β} {block : List Record → List β}
    (reads : ∀ (piece : Piece) batch, heap.chunks[piece.1]? = some piece.2 →
      Encodes source piece.2 batch → (List.range batch.length).map (read piece) = block batch) :
    Pieces.whole Piece.length read (table.pieces heap) = batches.flatMap block := by
  have encoded := represents.pieces
  clear represents
  generalize table.pieces heap = pieces at encoded ⊢
  induction encoded with
  | nil => rfl
  | cons here _ ih =>
    obtain ⟨at_place, encodes⟩ := here
    rw [Pieces.whole_cons, List.flatMap_cons, ih]
    congr 1
    show (List.range (Chunk.length _)).map _ = _
    rw [encodes.length]
    exact reads _ _ at_place encodes

theorem whole (represents : Represents source heap table batches)
    {read : Piece → Nat → β} {f : Record → β}
    (reads : ∀ (piece : Piece) batch, heap.chunks[piece.1]? = some piece.2 →
      Encodes source piece.2 batch → ∀ k (inside : k < batch.length),
        read piece k = f batch[k]) :
    Pieces.whole Piece.length read (table.pieces heap) = batches.flatten.map f := by
  rw [List.map_flatten, ← List.flatMap_def]
  exact represents.whole_flatMap fun piece batch at_place encodes =>
    range_map_getElem (reads piece batch at_place encodes)

theorem length (represents : Represents source heap table batches) :
    table.length heap = batches.flatten.length := by
  have same : Pieces.whole Piece.length (fun _ _ => ()) (table.pieces heap) =
      batches.flatten.map fun _ => () := represents.whole fun _ _ _ _ _ _ => rfl
  have lengths := congrArg List.length same
  rwa [Pieces.length_whole, List.length_map] at lengths

theorem record_eq (represents : Represents source heap table batches) (index : Nat) :
    (table.record heap index).map recordIdentity =
      batches.flatten[index]?.map recordIdentity := by
  have places := @Pieces.map_locate _ _ Piece.length
    (fun (piece : Piece) offset => recordIdentity (piece.2.record offset)) (table.pieces heap) index
  rw [represents.whole fun piece batch _ encodes k inside => (encodes.record_same inside).1,
    List.getElem?_map] at places
  rw [← places]
  unfold BarTable.record BarTable.locate
  rw [Option.map_map]
  rfl

theorem availableAt_eq (represents : Represents source heap table batches) (index : Nat) :
    table.availableAt heap index = Plain.availableAt batches.flatten source index := by
  have places := @Pieces.map_locate _ _ Piece.length
    (fun (piece : Piece) offset => piece.2.availableAt offset) (table.pieces heap) index
  rw [represents.whole fun piece batch _ encodes k inside => (encodes.availableAt k inside).trans
    (by rw [List.getElem?_eq_getElem inside, Option.bind_some]), List.getElem?_map] at places
  unfold BarTable.availableAt BarTable.locate Plain.availableAt
  cases located : Pieces.locate Piece.length (table.pieces heap) index with
  | none =>
    rw [located] at places
    cases at_index : batches.flatten[index]? with
    | none => rfl
    | some record => rw [at_index] at places; cases places
  | some place =>
    rw [located] at places
    cases at_index : batches.flatten[index]? with
    | none => rw [at_index] at places; cases places
    | some record =>
      rw [at_index] at places
      exact Option.some.inj places

theorem spans_eq (represents : Represents source heap table batches) (count : Nat) :
    (table.spans heap count).isSome = decide (count ≤ batches.flatten.length) := by
  unfold BarTable.spans Pieces.spans
  have size : Pieces.size Piece.length (table.pieces heap) = batches.flatten.length :=
    represents.length
  rw [size]
  split_ifs with inside
  · exact (decide_eq_true inside).symm
  · exact (decide_eq_false inside).symm

end Represents

theorem getElem?_stamps {records : List Record}
    (stamped : ∀ record ∈ records, (Plain.stamp source record).isSome) (k : Nat) :
    (Plain.stamps source records)[k]? = records[k]?.bind (Plain.stamp source) := by
  induction records generalizing k with
  | nil => rfl
  | cons record rest ih =>
    obtain ⟨stamp, here⟩ := Option.isSome_iff_exists.mp (stamped record List.mem_cons_self)
    have later := ih fun other member => stamped other (List.mem_cons_of_mem record member)
    unfold Plain.stamps at later ⊢
    rw [List.filterMap_cons_some here]
    cases k with
    | zero => simp [here]
    | succ k => simpa using later k

theorem stamps_take {records : List Record}
    (stamped : ∀ record ∈ records, (Plain.stamp source record).isSome) (count : Nat) :
    Plain.stamps source (records.take count) = (Plain.stamps source records).take count := by
  refine List.ext_getElem? fun k => ?_
  rw [getElem?_stamps fun record member => stamped record (List.mem_of_mem_take member),
    List.getElem?_take, List.getElem?_take, getElem?_stamps stamped]
  split_ifs <;> rfl

theorem argmax_spec {xs : List Int} (filled : xs ≠ []) :
    ∃ v, xs[argmax xs]? = some v ∧ ∀ x ∈ xs, x ≤ v := by
  obtain ⟨v, largest⟩ := Option.isSome_iff_exists.mp (List.isSome_max?_of_ne_nil filled)
  obtain ⟨member, bound⟩ := List.max?_eq_some_iff.mp largest
  refine ⟨v, ?_, bound⟩
  have place : argmax xs = xs.idxOf v := by
    unfold argmax
    rw [largest, Option.getD_some]
  rw [place, List.getElem?_eq_getElem (List.idxOf_lt_length_of_mem member), List.getElem_idxOf]

theorem Encodes.latest {chunk : Chunk} {batch : List Record} (encodes : Encodes source chunk batch)
    {used : Nat} (some_used : 0 < used) (bounded : used ≤ batch.length) :
    ∃ stamp, chunk.availableAt (argmax (chunk.epoch.take used)) = some stamp ∧
      ((List.range used).filterMap chunk.availableAt).max? = some stamp := by
  have reads : (List.range used).filterMap chunk.availableAt =
      (Plain.stamps source batch).take used := by
    have rows : (List.range used).map chunk.availableAt =
        (batch.take used).map (Plain.stamp source) := by
      refine List.ext_getElem (by simpa using bounded) fun k inside _ => ?_
      have small : k < used := by simpa using inside
      simp [encodes.availableAt k (by omega), List.getElem?_eq_getElem (small.trans_le bounded)]
    have stamps := congrArg (List.filterMap id) rows
    rw [List.filterMap_map, List.filterMap_map] at stamps
    rw [← stamps_take encodes.stamped]
    exact stamps
  have epochs : chunk.epoch.take used =
      ((Plain.stamps source batch).take used).map source.epochUs := by
    rw [encodes.epoch, List.map_take]
  have length : ((Plain.stamps source batch).take used).length = used := by
    rw [List.length_take, stamps_length encodes.stamped, Nat.min_eq_left bounded]
  have filled : chunk.epoch.take used ≠ [] := by
    rw [epochs]
    intro empty
    rw [List.map_eq_nil_iff] at empty
    rw [empty] at length
    exact absurd length some_used.ne
  obtain ⟨v, at_place, bound⟩ := argmax_spec filled
  rw [reads]
  generalize argmax (chunk.epoch.take used) = place at at_place ⊢
  rw [epochs] at at_place bound
  rw [List.getElem?_map, Option.map_eq_some_iff] at at_place
  obtain ⟨stamp, here, rfl⟩ := at_place
  have inside : place < used := by
    have small := (List.getElem?_eq_some_iff.mp here).1
    rwa [length] at small
  refine ⟨stamp, ?_, List.max?_eq_some_iff.mpr ⟨List.mem_of_getElem? here, ?_⟩⟩
  · rw [encodes.availableAt place (by omega), ← getElem?_stamps encodes.stamped]
    rwa [List.getElem?_take_of_lt inside] at here
  · intro other member
    exact source.epochUs_strictMono.le_iff_le.mp (bound _ (List.mem_map_of_mem member))

theorem max?_append_some {earlier later : List Instant} {stamp : Instant}
    (latest : later.max? = some stamp) : (earlier ++ later).max? =
      if earlier.max?.all fun before => before < stamp then some stamp else earlier.max? := by
  obtain ⟨member, bound⟩ := List.max?_eq_some_iff.mp latest
  cases before : earlier.max? with
  | none =>
    rw [List.max?_eq_none_iff.mp before]
    simpa using latest
  | some largest =>
    obtain ⟨member', bound'⟩ := List.max?_eq_some_iff.mp before
    simp only [Option.all_some, decide_eq_true_eq]
    split_ifs with less
    · refine List.max?_eq_some_iff.mpr ⟨List.mem_append_right _ member, fun t inside => ?_⟩
      rcases List.mem_append.mp inside with early | late
      · exact (bound' t early).trans less.le
      · exact bound t late
    · refine List.max?_eq_some_iff.mpr ⟨List.mem_append_left _ member', fun t inside => ?_⟩
      rcases List.mem_append.mp inside with early | late
      · exact bound' t early
      · exact (bound t late).trans (not_lt.mp less)

theorem foldl_laterStamp {parts : List (Piece × Nat × Nat)}
    (latest : ∀ part ∈ parts, ∃ stamp,
      part.1.2.availableAt (argmax (part.1.2.epoch.take part.2.2)) = some stamp ∧
        ((List.range part.2.2).filterMap part.1.2.availableAt).max? = some stamp)
    (earlier : List Instant) :
    parts.foldl laterStamp earlier.max? =
      (earlier ++ parts.flatMap fun part =>
        (List.range part.2.2).filterMap part.1.2.availableAt).max? := by
  induction parts generalizing earlier with
  | nil => rw [List.foldl_nil, List.flatMap_nil, List.append_nil]
  | cons part rest ih =>
    obtain ⟨stamp, found, largest⟩ := latest part List.mem_cons_self
    have next : laterStamp earlier.max? part =
        (earlier ++ (List.range part.2.2).filterMap part.1.2.availableAt).max? := by
      rw [max?_append_some largest]
      unfold laterStamp
      rw [found]
    rw [List.foldl_cons, next, ih fun other member => latest other (List.mem_cons_of_mem part member),
      List.flatMap_cons, List.append_assoc]

theorem max?_of_sorted {stamps : List Instant} (sorted : stamps.Pairwise (· ≤ ·)) :
    stamps.max? = stamps.getLast? := by
  induction stamps using List.reverseRecOn with
  | nil => rfl
  | append_singleton earlier last =>
    rw [List.getLast?_concat]
    refine List.max?_eq_some_iff.mpr ⟨by simp, fun t inside => ?_⟩
    rcases List.mem_append.mp inside with early | isLast
    · exact (List.pairwise_append.mp sorted).2.2 t early last (by simp)
    · exact (List.mem_singleton.mp isLast).le

namespace Represents

variable {heap : Heap} {table : BarTable} {batches : List (List Record)}

theorem stamped (represents : Represents source heap table batches) :
    ∀ record ∈ batches.flatten, (Plain.stamp source record).isSome := by
  intro record member
  obtain ⟨batch, inside, held⟩ := List.mem_flatten.mp member
  obtain ⟨i, small, rfl⟩ := List.getElem_of_mem inside
  have pair := List.Forall₂.get represents.chunks (i := i)
    (by rw [represents.chunks.length_eq]; exact small) small
  obtain ⟨chunk, -, encodes⟩ := pair
  exact encodes.stamped record held

theorem part_encodes (represents : Represents source heap table batches) {count : Nat}
    {parts : List (Piece × Nat × Nat)} (spanned : table.spans heap count = some parts)
    {part : Piece × Nat × Nat} (member : part ∈ parts) :
    ∃ batch, heap.chunks[part.1.1]? = some part.1.2 ∧ Encodes source part.1.2 batch ∧
      part.2.2 ≤ batch.length ∧ 0 < part.2.2 := by
  obtain ⟨inside, bounded, filled⟩ := Pieces.spans_spec spanned member
  obtain ⟨batch, -, at_place, encodes⟩ : ∃ batch ∈ batches,
      heap.chunks[part.1.1]? = some part.1.2 ∧ Encodes source part.1.2 batch := by
    obtain ⟨i, small, same⟩ := List.getElem_of_mem inside
    have small' : i < batches.length := by rwa [← represents.pieces.length_eq]
    have pair := List.Forall₂.get represents.pieces small small'
    rw [List.get_eq_getElem, List.get_eq_getElem, same] at pair
    exact ⟨batches[i], List.getElem_mem small', pair⟩
  have length : Piece.length part.1 = batch.length := encodes.length
  rw [length] at bounded filled
  exact ⟨batch, at_place, encodes, bounded, filled (List.length_pos_iff.mpr encodes.filled)⟩

theorem maxAvailableAt_eq (represents : Represents source heap table batches) (count : Nat) :
    table.maxAvailableAt heap count =
      Plain.maxAvailableAt batches.flatten source count := by
  have bound := represents.spans_eq count
  unfold BarTable.maxAvailableAt Plain.maxAvailableAt Plain.rows
  by_cases zero : count = 0
  · simp [zero, Plain.stamps]
  rw [if_neg zero]
  by_cases monotonic : table.monotonic = true
  · -- the latest of instants in order is the last
    rw [if_pos monotonic, represents.availableAt_eq]
    have sorted := monotonic
    rw [represents.monotonic, decide_eq_true_eq] at sorted
    by_cases inside : count ≤ batches.flatten.length
    · have small : count - 1 < batches.flatten.length := by omega
      have last : batches.flatten[count - 1]? = some batches.flatten[count - 1] :=
        List.getElem?_eq_getElem small
      have here := getElem?_stamps represents.stamped (count - 1)
      rw [last, Option.bind_some] at here
      obtain ⟨stamp, stamped⟩ := Option.isSome_iff_exists.mp
        (represents.stamped _ (List.getElem_mem small))
      rw [stamped] at here
      rw [if_pos inside, Option.map_some, stamps_take represents.stamped,
        max?_of_sorted (sorted.sublist (List.take_sublist _ _)), List.getLast?_take, if_neg zero,
        here, Option.some_or]
      unfold Plain.availableAt
      rw [last, Option.bind_some, stamped, Option.map_some]
    · have outside : batches.flatten[count - 1]? = none :=
        List.getElem?_eq_none (by omega)
      rw [if_neg inside]
      unfold Plain.availableAt
      rw [outside, Option.bind_none, Option.map_none, Option.map_none]
  · rw [if_neg monotonic]
    cases spanned : table.spans heap count with
    | none =>
      rw [spanned] at bound
      have outside : ¬ count ≤ batches.flatten.length := of_decide_eq_false bound.symm
      rw [if_neg outside]
      rfl
    | some parts =>
      rw [spanned] at bound
      have inside : count ≤ batches.flatten.length := of_decide_eq_true bound.symm
      rw [if_pos inside, Option.map_some, Option.map_some]
      congr 1
      have folds := foldl_laterStamp (fun part member => by
        obtain ⟨batch, -, encodes, bounded, filled⟩ := represents.part_encodes spanned member
        exact encodes.latest filled bounded) []
      have whole := represents.whole fun piece batch _ encodes k inside =>
        (encodes.availableAt k inside).trans
          (by rw [List.getElem?_eq_getElem inside, Option.bind_some])
      have read := Pieces.flatMap_spans_read
        (fun (piece : Piece) offset => piece.2.availableAt offset) spanned
      rw [whole, ← List.map_take] at read
      have stamps := congrArg (List.filterMap id) read
      rw [List.filterMap_flatMap, List.filterMap_map] at stamps
      simp only [List.filterMap_map] at stamps
      rw [List.max?_nil, List.nil_append] at folds
      rw [folds]
      exact congrArg List.max? stamps

end Represents

end BarColumns

end AutoTrade
