import AutoTrade.Environment.Proofs.BarColumns

/-!
# A chunk is the batch it was made from

The loop over a batch accepts what the naive tests accept, with the same error where
they refuse, and the chunk it leaves reads every record and every instant of it.
-/

namespace AutoTrade

namespace BarColumns

open Json JsonLines

variable {ρ : Type} {source : BarSource ρ}

theorem sorted_concat {earlier : List Instant} {t : Instant} :
    (earlier ++ [t]).Pairwise (· ≤ ·) ↔
      earlier.Pairwise (· ≤ ·) ∧ ∀ last ∈ earlier.getLast?, last ≤ t := by
  simp [← List.isChain_iff_pairwise, List.isChain_append]

theorem sorted_append {earlier later : List Instant} :
    (earlier ++ later).Pairwise (· ≤ ·) ↔ earlier.Pairwise (· ≤ ·) ∧ later.Pairwise (· ≤ ·) ∧
      ∀ last ∈ earlier.getLast?, ∀ first ∈ later.head?, last ≤ first := by
  simp [← List.isChain_iff_pairwise, List.isChain_append]

theorem getElem?_of_grown {α : Type} {l l' : List α} (grown : l <+: l') {i : Nat} {a : α}
    (at_i : l[i]? = some a) : l'[i]? = some a := by
  obtain ⟨more, rfl⟩ := grown
  rw [List.getElem?_append_left (List.getElem?_eq_some_iff.mp at_i).1, at_i]

/-- What is cached of the texts parsed so far. -/
def Parsed (source : BarSource ρ) (scan : StampScan) : Prop :=
  ∀ raw stamp code, scan.parsed.get? raw = some (stamp, code) →
    source.parse raw = some stamp ∧ scan.stamps[code]? = some stamp ∧
      scan.uniques[code]? = some (str raw)

/-- The tests of an instant behind another. -/
def admits (inferenceAt : Option Instant) (behind : Bool) (previous : Option Instant)
    (stamp : Instant) : Except BarError Unit :=
  if inferenceAt.any fun decision => decision < stamp then .error .notVisible
  else if behind && previous.any fun previous => stamp < previous then .error .notMonotonic
  else .ok ()

variable {stamp : Instant}

theorem check_cons (inferenceAt : Option Instant) (behind : Bool) (previous : Option Instant)
    (record : Record) (rest : List Record) (stamped : Plain.stamp source record = some stamp) :
    Plain.check source inferenceAt behind previous (record :: rest) =
      (admits inferenceAt behind previous stamp).bind fun _ =>
        Plain.check source inferenceAt behind (some stamp) rest := by
  rw [Plain.check, stamped]
  unfold admits
  simp only
  split_ifs <;> rfl

theorem place_eq (inferenceAt after : Option Instant) (scan : StampScan) (stamp : Instant)
    (code : Nat) : scan.place source inferenceAt after stamp code =
      (admits inferenceAt after.isSome scan.previous stamp).map fun _ =>
        { scan with
          ordered := scan.ordered && !(scan.previous.any fun previous => stamp < previous)
          previous := some stamp
          codes := scan.codes ++ [code]
          epoch := scan.epoch ++ [source.epochUs stamp] } := by
  unfold StampScan.place admits
  simp only [Bool.and_comm after.isSome]
  split_ifs <;> rfl

/-- What an accepted record leaves. -/
structure Pushed (source : BarSource ρ) (scan scan' : StampScan) (record : Record) : Prop where
  parsed : Parsed source scan'
  stamped : ∃ raw stamp code, record.get? availableAtKey = some (str raw) ∧
    source.parse raw = some stamp ∧ scan'.previous = some stamp ∧
    scan'.epoch = scan.epoch ++ [source.epochUs stamp] ∧
    scan'.ordered = (scan.ordered && !(scan.previous.any fun previous => stamp < previous)) ∧
    scan'.codes = scan.codes ++ [code] ∧ scan'.stamps[code]? = some stamp ∧
    scan'.uniques[code]? = some (str raw)
  stamps : scan.stamps <+: scan'.stamps
  uniques : scan.uniques <+: scan'.uniques

variable {scan : StampScan} {record : Record}

theorem push_of_stamped (inferenceAt after : Option Instant) (parsed : Parsed source scan)
    (level : scan.stamps.length = scan.uniques.length) {raw : Text}
    (held : record.get? availableAtKey = some (str raw)) (reads : source.parse raw = some stamp) :
    ∃ scan', scan.push source inferenceAt after record =
        (admits inferenceAt after.isSome scan.previous stamp).map (fun _ => scan') ∧
      Pushed source scan scan' record ∧ scan'.previous = some stamp ∧
      scan'.stamps.length = scan'.uniques.length := by
  unfold StampScan.push
  simp only [held]
  cases known : scan.parsed.get? raw with
  | some entry =>
    obtain ⟨stamp', code⟩ := entry
    obtain ⟨reads', at_code, unique⟩ := parsed raw stamp' code known
    obtain rfl : stamp' = stamp := Option.some.inj (reads'.symm.trans reads)
    exact ⟨_, place_eq inferenceAt after scan stamp' code,
      ⟨parsed, ⟨raw, stamp', code, held, reads, rfl, rfl, rfl, rfl, at_code, unique⟩,
        List.prefix_refl _, List.prefix_refl _⟩, rfl, level⟩
  | none =>
    simp only [reads]
    refine ⟨_, place_eq inferenceAt after _ stamp _, ⟨?_, ?_, ?_, ?_⟩, rfl, ?_⟩
    · intro raw' stamp' code' held'
      simp only [Dict.get?_set] at held'
      split_ifs at held' with same
      · cases held'
        subst same
        exact ⟨reads, by simp, by simp [level]⟩
      · obtain ⟨reads', at_code, unique⟩ := parsed raw' stamp' code' held'
        exact ⟨reads', getElem?_of_grown (List.prefix_append _ _) at_code,
          getElem?_of_grown (List.prefix_append _ _) unique⟩
    · exact ⟨raw, stamp, _, held, reads, rfl, rfl, rfl, rfl, by simp, by simp [level]⟩
    · exact List.prefix_append _ _
    · exact List.prefix_append _ _
    · simp [level]

/-- The texts parsed so far each have their instant and their code. -/
structure Scanning (source : BarSource ρ) (scan : StampScan) : Prop where
  parsed : Parsed source scan
  level : scan.stamps.length = scan.uniques.length

variable {inferenceAt after : Option Instant}

theorem push_unstamped (parsed : Parsed source scan)
    (unstamped : Plain.stamp source record = none) :
    scan.push source inferenceAt after record = .error .badAvailableAt := by
  unfold Plain.stamp at unstamped
  unfold StampScan.push
  split
  · rename_i raw held
    simp only [held] at unstamped
    cases known : scan.parsed.get? raw with
    | some entry =>
      obtain ⟨stamp, code⟩ := entry
      exact nomatch (parsed raw stamp code known).1.symm.trans unstamped
    | none => simp [unstamped]
  · rfl

theorem stamp_eq_some :
    Plain.stamp source record = some stamp ↔
      ∃ raw, record.get? availableAtKey = some (str raw) ∧ source.parse raw = some stamp := by
  unfold Plain.stamp
  constructor
  · intro stamped
    split at stamped
    · rename_i raw held
      exact ⟨raw, held, stamped⟩
    · cases stamped
  · rintro ⟨raw, held, reads⟩
    simp [held, reads]

theorem scan_check (inferenceAt after : Option Instant) (scanning : Scanning source scan)
    (rows : List Record) :
    (rows.foldlM (StampScan.push source inferenceAt after) scan).map (fun _ => ()) =
      Plain.check source inferenceAt after.isSome scan.previous rows := by
  induction rows generalizing scan with
  | nil => rfl
  | cons record rest ih =>
    rw [List.foldlM_cons]
    cases stamped : Plain.stamp source record with
    | none =>
      rw [push_unstamped scanning.parsed stamped, Plain.check, stamped]
      rfl
    | some stamp =>
      obtain ⟨raw, held, reads⟩ := stamp_eq_some.mp stamped
      obtain ⟨scan', pushes, pushed, before, level⟩ :=
        push_of_stamped inferenceAt after scanning.parsed scanning.level held reads
      rw [pushes, check_cons _ _ _ _ _ stamped]
      cases admits inferenceAt after.isSome scan.previous stamp with
      | error error => rfl
      | ok _ =>
        have goes := ih ⟨pushed.parsed, level⟩
        rw [before] at goes
        exact goes

/-- What the loop has of the records done. -/
structure Scanned (source : BarSource ρ) (after : Option Instant) (done : List Record)
    (scan : StampScan) : Prop where
  scanning : Scanning source scan
  previous : scan.previous = (after.toList ++ Plain.stamps source done).getLast?
  ordered : scan.ordered = decide ((after.toList ++ Plain.stamps source done).Pairwise (· ≤ ·))
  epoch : scan.epoch = (Plain.stamps source done).map source.epochUs
  length : scan.codes.length = done.length
  coded : ∀ (i : Nat) record, done[i]? = some record → ∃ raw stamp code,
    record.get? availableAtKey = some (str raw) ∧ source.parse raw = some stamp ∧
      scan.codes[i]? = some code ∧ scan.stamps[code]? = some stamp ∧
      scan.uniques[code]? = some (str raw)

theorem scanned_nil (source : BarSource ρ) (after : Option Instant) :
    Scanned source after [] { previous := after } where
  scanning := ⟨by simp [Parsed, Dict.get?, Dict.lookup, Dict.empty], rfl⟩
  previous := by cases after <;> rfl
  ordered := by cases after <;> simp [Plain.stamps]
  epoch := rfl
  length := rfl
  coded := by simp

theorem Scanned.push {done : List Record} {scan scan' : StampScan}
    (scanned : Scanned source after done scan)
    (pushes : scan.push source inferenceAt after record = .ok scan') :
    Scanned source after (done ++ [record]) scan' := by
  cases stamped : Plain.stamp source record with
  | none =>
    rw [push_unstamped scanned.scanning.parsed stamped] at pushes
    cases pushes
  | some stamp =>
    obtain ⟨raw, held, reads⟩ := stamp_eq_some.mp stamped
    obtain ⟨next, runs, pushed, before, level⟩ :=
      push_of_stamped inferenceAt after scanned.scanning.parsed scanned.scanning.level held reads
    rw [runs, except_map_eq_ok] at pushes
    obtain ⟨-, -, rfl⟩ := pushes
    obtain ⟨raw', stamp', code, held', reads', -, epoch, ordered, codes, at_code, unique⟩ :=
      pushed.stamped
    obtain rfl : raw = raw' := by simpa [held] using held'
    obtain rfl : stamp = stamp' := Option.some.inj (reads.symm.trans reads')
    have more : Plain.stamps source (done ++ [record]) = Plain.stamps source done ++ [stamp] := by
      simp [Plain.stamps, stamped]
    refine ⟨⟨pushed.parsed, level⟩, ?_, ?_, ?_, ?_, ?_⟩
    · rw [before, more, ← List.append_assoc, List.getLast?_concat]
    · rw [ordered, scanned.ordered, scanned.previous, more, ← List.append_assoc,
        decide_eq_decide.mpr sorted_concat, Bool.decide_and]
      congr 1
      cases (after.toList ++ Plain.stamps source done).getLast? with
      | none => simp
      | some last => simp [← decide_not]
    · rw [epoch, scanned.epoch, more, List.map_append, List.map_singleton]
    · rw [codes, List.length_append, List.length_append, scanned.length]
      rfl
    · intro i other at_i
      rcases Nat.lt_or_ge i done.length with inside | outside
      · rw [List.getElem?_append_left inside] at at_i
        obtain ⟨raw', stamp', code', held', reads', at_i', at_code', unique'⟩ :=
          scanned.coded i other at_i
        exact ⟨raw', stamp', code', held', reads',
          getElem?_of_grown (codes ▸ List.prefix_append _ _) at_i',
          getElem?_of_grown pushed.stamps at_code', getElem?_of_grown pushed.uniques unique'⟩
      · rw [List.getElem?_append_right outside, List.getElem?_singleton] at at_i
        split_ifs at at_i with zero
        obtain rfl := Option.some.inj at_i
        refine ⟨raw, stamp, code, held, reads, ?_, at_code, unique⟩
        have last : i = scan.codes.length := by rw [scanned.length]; omega
        rw [codes, last, List.getElem?_concat_length]

theorem scanned_foldlM {rows : List Record}
    (run : rows.foldlM (StampScan.push source inferenceAt after) { previous := after } = .ok scan) :
    Scanned source after rows scan := by
  refine @foldlM_along _ _ _ _ (Scanned source after) rows ?_ _ _ run (scanned_nil source after)
  intro done record rest scan scan' _ pushes scanned
  exact scanned.push pushes

/-- A chunk reads the records of a batch. -/
structure Encodes (source : BarSource ρ) (chunk : Chunk) (batch : List Record) : Prop where
  length : chunk.length = batch.length
  filled : batch ≠ []
  stamped : ∀ record ∈ batch, (Plain.stamp source record).isSome
  cells : ∀ offset < batch.length, ∀ key, chunk.rowGet offset key = cellOf batch key offset
  valued : ∀ offset < batch.length, ∀ key column, chunk.columns.get? key = some column →
    column.carries offset → (column.value offset).isSome
  availableAt : ∀ offset < batch.length,
    chunk.availableAt offset = batch[offset]?.bind (Plain.stamp source)
  epoch : chunk.epoch = (Plain.stamps source batch).map source.epochUs

theorem stamps_length {batch : List Record}
    (stamped : ∀ record ∈ batch, (Plain.stamp source record).isSome) :
    (Plain.stamps source batch).length = batch.length := by
  induction batch with
  | nil => rfl
  | cons record rest ih =>
    obtain ⟨stamp, here⟩ := Option.isSome_iff_exists.mp (stamped record List.mem_cons_self)
    have later := ih fun other member => stamped other (List.mem_cons_of_mem record member)
    unfold Plain.stamps at later ⊢
    rw [List.filterMap_cons_some here, List.length_cons, List.length_cons, later]

theorem encodes_of_scan {after : Option Instant} {batch : List Record}
    (scanned : Scanned source after batch scan) (filled : batch ≠ []) :
    Encodes source ⟨Dict.ofList ((columnKeys batch).map fun key =>
      (key, if key = availableAtKey then ⟨.coded scan.codes scan.uniques, none⟩
        else columnOf batch key)), batch.length, scan.epoch, scan.stamps⟩ batch := by
  have keyed : ∀ record ∈ batch, ∃ raw, record.get? availableAtKey = some (str raw) := by
    intro record member
    obtain ⟨i, inside, at_i⟩ := List.getElem_of_mem member
    obtain ⟨raw, -, -, held, -⟩ := scanned.coded i record (by rw [List.getElem?_eq_getElem inside, at_i])
    exact ⟨raw, held⟩
  have hasStamp : availableAtKey ∈ columnKeys batch := by
    obtain ⟨record, member⟩ := List.exists_mem_of_ne_nil batch filled
    obtain ⟨raw, held⟩ := keyed record member
    exact ((columnKeys_spec batch).2 _).mpr ⟨record, member, Dict.mem_keys_iff.mpr ⟨_, held⟩⟩
  refine ⟨rfl, filled, ?_, ?_, ?_, ?_, scanned.epoch⟩
  · intro record member
    obtain ⟨i, inside, at_i⟩ := List.getElem_of_mem member
    obtain ⟨raw, stamp, -, held, reads, -⟩ :=
      scanned.coded i record (by rw [List.getElem?_eq_getElem inside, at_i])
    exact Option.isSome_iff_exists.mpr ⟨stamp, stamp_eq_some.mpr ⟨raw, held, reads⟩⟩
  · intro offset inside key
    have at_offset := List.getElem?_eq_getElem inside
    show ((Dict.ofList _).get? key).bind _ = _
    rw [get?_ofList_map]
    by_cases known : key ∈ columnKeys batch
    · rw [if_pos known, Option.bind_some]
      by_cases stamp : key = availableAtKey
      · subst stamp
        obtain ⟨raw, -, code, held, -, at_i, -, unique⟩ := scanned.coded offset _ at_offset
        -- every text of the column is itself, so the first like it is the same text
        have alike : readBack batch availableAtKey (str raw) = some (str raw) := by
          apply firstAlike_of_plain
          · intro v member
            obtain ⟨record, inside, rfl⟩ := List.mem_map.mp member
            obtain ⟨raw', held'⟩ := keyed record inside
            rw [held']
            rfl
          · exact List.mem_map.mpr ⟨_, List.getElem_mem inside, by rw [held]; rfl⟩
        unfold cellOf
        rw [if_pos rfl, at_offset, Option.bind_some, held, Option.bind_some, alike]
        simp [Column.cell, Column.carries, Column.value, at_i, unique]
      · rw [if_neg stamp]
        exact columnOf_cell at_offset key
    · rw [if_neg known, Option.bind_none]
      have absent : (batch[offset]).get? key = none := by
        apply Dict.get?_eq_none_iff.mpr
        intro held
        exact known (((columnKeys_spec batch).2 key).mpr ⟨_, List.getElem_mem inside, held⟩)
      unfold cellOf
      rw [at_offset, Option.bind_some, absent, Option.bind_none]
  · intro offset inside key column held carries
    have at_offset := List.getElem?_eq_getElem inside
    change (Dict.ofList _).get? key = _ at held
    rw [get?_ofList_map] at held
    split_ifs at held with known stamp
    · obtain rfl := Option.some.inj held
      obtain ⟨raw, -, code, -, -, at_i, -, unique⟩ := scanned.coded offset _ at_offset
      simp [Column.value, at_i, unique]
    · obtain rfl := Option.some.inj held
      rw [columnOf_value at_offset]
      exact isSome_readBack (List.getElem_mem inside) key
  · intro offset inside
    have at_offset := List.getElem?_eq_getElem inside
    obtain ⟨raw, stamp, code, held, reads, at_i, at_code, -⟩ := scanned.coded offset _ at_offset
    have stamped : Plain.stamp source batch[offset] = some stamp :=
      stamp_eq_some.mpr ⟨raw, held, reads⟩
    unfold Chunk.availableAt
    simp only [get?_ofList_map, if_pos hasStamp, if_true, Option.map_some]
    rw [at_i, Option.bind_some, at_code, at_offset, Option.bind_some, stamped]

theorem chunkFromRecords_eq_ok {values : List ρ} {inferenceAt : Option Instant} {decodedJson : Bool}
    {after : Option Instant} {chunk : Chunk} {ordered : Bool}
    (made : chunkFromRecords source values inferenceAt decodedJson after = .ok (chunk, ordered)) :
    ∃ batch, values.mapM (readBar source decodedJson) = .ok batch ∧
      Plain.check source inferenceAt after.isSome after batch = .ok () ∧
      chunk.length = batch.length ∧
      (batch ≠ [] → Encodes source chunk batch) ∧
      ordered = decide ((after.toList ++ Plain.stamps source batch).Pairwise (· ≤ ·)) := by
  unfold chunkFromRecords at made
  obtain ⟨batch, read, made⟩ := bind_eq_ok.mp made
  obtain ⟨scan, run, made⟩ := bind_eq_ok.mp made
  obtain ⟨rfl, rfl⟩ := Prod.mk.inj (pure_eq_ok.mp made)
  have scanned := scanned_foldlM run
  have checked := scan_check inferenceAt after (scanned_nil source after).scanning batch
  rw [run] at checked
  exact ⟨batch, read, checked.symm, rfl, encodes_of_scan scanned, scanned.ordered⟩

theorem chunkFromRecords_map (source : BarSource ρ) (values : List ρ) (inferenceAt : Option Instant)
    (decodedJson : Bool) (after : Option Instant) :
    (chunkFromRecords source values inferenceAt decodedJson after).map (fun _ => ()) =
      (values.mapM (readBar source decodedJson)).bind fun batch =>
        Plain.check source inferenceAt after.isSome after batch := by
  unfold chunkFromRecords
  cases values.mapM (readBar source decodedJson) with
  | error error => rfl
  | ok batch =>
    have checked := scan_check inferenceAt after (scanned_nil source after).scanning batch
    show (Except.bind (batch.foldlM (StampScan.push source inferenceAt after)
      { previous := after }) _).map _ = Plain.check source inferenceAt after.isSome after batch
    rw [← checked]
    cases batch.foldlM (StampScan.push source inferenceAt after) { previous := after } <;> rfl

end BarColumns

end AutoTrade
