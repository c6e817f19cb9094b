import AutoTrade.Paper.BookJournals
import AutoTrade.Paper.Proofs.Storage

/-!
# When a book can be read

A write either leaves whole rows as whole rows, or leaves a line that no later write takes
away. So the readers that refuse a damaged line read a book exactly when no write to their
journals ever left one.
-/

namespace AutoTrade

namespace BookJournals

open Json JsonLines Storage Utf8

/-- The write adds part of its row, or a row that is not one line. -/
def Write.LeavesScrap (w : Write) (file : Bytes) : Prop :=
  ∃ identity, eventId w.payload = .ok identity ∧ present file identity = false ∧
    (∀ n ∈ w.torn, (healing file).length < n) ∧
    (breaksLine w.payload = true ∨
      ∃ n ∈ w.torn, n < (healing file).length + (rowBytes w.payload).length)

theorem eventId_eq_ok {payload : JsonObject} {identity : Text} :
    eventId payload = .ok identity ↔
      payload.field "event_id" = some (str identity) ∧ identity ≠ [] := by
  rw [eventId]
  split
  · rename_i t found
    split_ifs with blank
    · simp only [found, Option.some.injEq, str.injEq, false_iff, not_and, not_not]
      rintro rfl
      exact blank
    · simp only [found, Except.ok.injEq, Option.some.injEq, str.injEq]
      constructor
      · rintro rfl
        exact ⟨rfl, blank⟩
      · exact And.left
  · rename_i other
    simp only [reduceCtorEq, false_iff, not_and]
    intro found
    exact absurd found (other identity)

section

variable (chunks : List Chunk) (file : Bytes) {payload : JsonObject} {n : Nat}

theorem readChunks_concat (chunks : List Chunk) (c : Chunk) :
    readChunks (chunks ++ [c]) =
      ((readChunks chunks).1 ++ c.read.1, (readChunks chunks).2 + c.read.2) := by
  simp [readChunks]

theorem readChunks_healed (none : n ≤ (healing file).length) :
    readChunks (grown chunks file payload n) = readChunks chunks := by
  rw [grown, dif_neg (by omega)]

theorem readChunks_row (unbroken : breaksLine payload = false)
    (whole : (healing file).length + (rowBytes payload).length ≤ n) :
    readChunks (grown chunks file payload n) =
      ((readChunks chunks).1 ++ [payload], (readChunks chunks).2) := by
  have filled := rowBytes_pos payload
  rw [grown, dif_pos (by omega), readChunks_concat, Chunk.read_row]
  · rfl
  · refine ⟨?_, unbroken⟩
    simp only [Chunk.Whole]
    omega

theorem readChunks_scrap (more : (healing file).length < n)
    (bad : breaksLine payload = true ∨ n < (healing file).length + (rowBytes payload).length) :
    ∃ scrap : List JsonObject × Nat, 0 < scrap.2 ∧
      (∀ row ∈ scrap.1, row.field "event_id" = none) ∧
      readChunks (grown chunks file payload n) =
        ((readChunks chunks).1 ++ scrap.1, (readChunks chunks).2 + scrap.2) := by
  rw [grown, dif_pos more, readChunks_concat]
  have filled := rowBytes_pos payload
  obtain ⟨skips, bare⟩ := Chunk.read_other (c := ⟨payload, min (n - (healing file).length)
    (rowBytes payload).length, by omega, by omega⟩) (by
      rintro ⟨whole, unbroken⟩
      rcases bad with broken | short
      · simp only [broken, Bool.true_eq_false] at unbroken
      · simp only [Chunk.Whole] at whole
        omega)
  exact ⟨_, skips, bare, rfl⟩

end

theorem present_iff {payload : JsonObject} {identity : Text}
    (named : eventId payload = .ok identity) (file : Bytes) :
    present file identity = true ↔ ∃ row ∈ (readJsonl file).1, eventId row = eventId payload := by
  have filled := (eventId_eq_ok.mp named).2
  rw [present, List.any_eq_true, named]
  simp [eventId_eq_ok, filled]

namespace Write

variable {w : Write} {file file' : Bytes} {identity : Text}

theorem onFile_eq (w : Write) (file : Bytes) :
    ∃ n, w.onFile file = tornAppend w.payload file n ∧
      ((∀ m ∈ w.torn, (healing file).length < m) ↔ (healing file).length < n) ∧
      ((∃ m ∈ w.torn, m < (healing file).length + (rowBytes w.payload).length) ↔
        n < (healing file).length + (rowBytes w.payload).length) ∧
      (w.torn = none → (healing file).length + (rowBytes w.payload).length < n) := by
  rw [onFile]
  cases torn : w.torn with
  | none =>
    obtain ⟨n, all, whole⟩ := appendJsonlOnce_eq file w.payload
    refine ⟨n, whole, ?_, ?_, fun _ => all⟩
    · simp only [Option.mem_def, reduceCtorEq, false_implies, implies_true, true_iff]
      omega
    · simp only [Option.mem_def, reduceCtorEq, false_and, exists_false, false_iff]
      omega
  | some n => exact ⟨n, rfl, by simp, by simp, by simp⟩

theorem onFile_isOk (named : eventId w.payload = .ok identity) (file : Bytes) :
    ∃ file', w.onFile file = .ok file' := by
  obtain ⟨n, same, -⟩ := w.onFile_eq file
  rw [same]
  exact tornAppend_isOk named file n

theorem onFile_read (named : eventId w.payload = .ok identity) (chunked : Chunked file)
    (done : w.onFile file = .ok file') :
    Chunked file' ∧ (readJsonl file).2 ≤ (readJsonl file').2 ∧
      (w.LeavesScrap file → (readJsonl file).2 < (readJsonl file').2) ∧
      (¬ w.LeavesScrap file → (readJsonl file').2 = (readJsonl file).2 ∧
        ((readJsonl file').1 = (readJsonl file).1 ∧
            (w.torn = none → present file identity = true) ∨
          present file identity = false ∧
            (readJsonl file').1 = (readJsonl file).1 ++ [w.payload])) := by
  obtain ⟨n, same, more, short, whole⟩ := w.onFile_eq file
  obtain ⟨chunks, holds⟩ := chunked
  obtain ⟨left, torn, holds'⟩ := tornAppend_holds holds named n
  obtain rfl : left = file' := Except.ok.inj (torn.symm.trans (same.symm.trans done))
  have scrap : w.LeavesScrap file ↔ present file identity = false ∧
      (healing file).length < n ∧ (breaksLine w.payload = true ∨
        n < (healing file).length + (rowBytes w.payload).length) := by
    simp only [LeavesScrap, named, Except.ok.injEq, exists_eq_left', more, short]
  refine ⟨⟨_, holds'⟩, ?_⟩
  rw [scrap, holds'.read_eq, holds.read_eq]
  cases there : present file identity with
  | true => simp
  | false =>
    rw [if_neg (by simp)]
    rcases Nat.lt_or_ge (healing file).length n with written | none
    · by_cases bad : breaksLine w.payload = true ∨
          n < (healing file).length + (rowBytes w.payload).length
      · obtain ⟨added, some, -, read⟩ := readChunks_scrap chunks file written bad
        have skips : (readChunks chunks).2 < (readChunks (grown chunks file w.payload n)).2 := by
          rw [read]
          simp only
          omega
        exact ⟨skips.le, fun _ => skips, fun fine => absurd ⟨rfl, written, bad⟩ fine⟩
      · have fine := not_or.mp bad
        rw [readChunks_row chunks file (by simpa using fine.1) (by omega)]
        exact ⟨le_refl _, fun scrap => absurd scrap.2.2 bad, fun _ => ⟨rfl, .inr ⟨rfl, rfl⟩⟩⟩
    · rw [readChunks_healed chunks file none]
      refine ⟨le_refl _, fun scrap => absurd scrap.2.1 (by omega), fun _ => ⟨rfl, .inl ⟨rfl, ?_⟩⟩⟩
      intro untorn
      have := whole untorn
      omega

end Write

/-- Every identity written is the identity of one row, and every row was written. -/
structure EachOnce (rows : List JsonObject) (writes : List Write) : Prop where
  once : (rows.map eventId).Nodup
  only : ∀ row ∈ rows, ∃ w ∈ writes, w.payload = row
  all : ∀ w ∈ writes, ∃ row ∈ rows, eventId row = eventId w.payload

theorem EachOnce.perm {rows rows' : List JsonObject} {writes : List Write}
    (each : EachOnce rows writes) (same : rows'.Perm rows) : EachOnce rows' writes where
  once := (same.map eventId).nodup_iff.mpr each.once
  only row member := each.only row (same.mem_iff.mp member)
  all w member := by
    obtain ⟨row, inside, alike⟩ := each.all w member
    exact ⟨row, same.mem_iff.mpr inside, alike⟩

/-- The writes to the journals a test names. -/
def writesTo (writes : List Write) (test : Text → Bool) : List Write :=
  writes.filter fun w => test w.name

/-- The writes that were not torn. -/
def finished (writes : List Write) : List Write := writes.filter fun w => w.torn.isNone

/-- What is read of a journal all of whose writes left whole rows. -/
structure Intact (name : Text) (writes : List Write) (file : Bytes) : Prop where
  chunked : Chunked file
  skipped : (readJsonl file).2 = 0
  once : ((readJsonl file).1.map eventId).Nodup
  only : ∀ row ∈ (readJsonl file).1, ∃ w ∈ writesTo writes (· = name), w.payload = row
  all : ∀ w ∈ finished (writesTo writes (· = name)),
    ∃ row ∈ (readJsonl file).1, eventId row = eventId w.payload

theorem Intact.start (name : Text) : Intact name [] [] where
  chunked := .start
  skipped := rfl
  once := List.nodup_nil
  only _ member := nomatch member
  all _ member := nomatch member

theorem writesTo_concat (writes : List Write) (w : Write) (test : Text → Bool) :
    writesTo (writes ++ [w]) test =
      if test w.name then writesTo writes test ++ [w] else writesTo writes test := by
  cases here : test w.name <;> simp [writesTo, here]

variable {name : Text}

theorem Intact.other {writes : List Write} {file : Bytes} {w : Write}
    (intact : Intact name writes file) (elsewhere : w.name ≠ name) :
    Intact name (writes ++ [w]) file := by
  have same : writesTo (writes ++ [w]) (· = name) = writesTo writes (· = name) := by
    rw [writesTo_concat, if_neg (by simpa using elsewhere)]
  exact ⟨intact.chunked, intact.skipped, intact.once, same ▸ intact.only, same ▸ intact.all⟩

theorem Intact.step {writes : List Write} {file file' : Bytes} {w : Write} {identity : Text}
    (intact : Intact w.name writes file) (named : eventId w.payload = .ok identity)
    (done : w.onFile file = .ok file') (whole : ¬ w.LeavesScrap file) :
    Intact w.name (writes ++ [w]) file' := by
  obtain ⟨chunked, -, -, kept⟩ := Write.onFile_read named intact.chunked done
  obtain ⟨skipped, rows⟩ := kept whole
  have grown : writesTo (writes ++ [w]) (· = w.name) = writesTo writes (· = w.name) ++ [w] := by
    rw [writesTo_concat, if_pos (by simp)]
  refine ⟨chunked, skipped.trans intact.skipped, ?_, ?_, ?_⟩
  · rcases rows with ⟨same, -⟩ | ⟨absent, added⟩
    · rw [same]
      exact intact.once
    · rw [added, List.map_append, List.nodup_append]
      refine ⟨intact.once, List.nodup_singleton _, ?_⟩
      rintro a earlier b last rfl
      obtain ⟨row, inside, its⟩ := List.mem_map.mp earlier
      have there := (present_iff named file).mpr ⟨row, inside, by simpa [its] using last⟩
      simp [there] at absent
  · intro row member
    rw [grown]
    rcases rows with ⟨same, -⟩ | ⟨-, added⟩
    · obtain ⟨w', earlier, its⟩ := intact.only row (same ▸ member)
      exact ⟨w', List.mem_append_left _ earlier, its⟩
    · rw [added] at member
      rcases List.mem_append.mp member with before | last
      · obtain ⟨w', earlier, its⟩ := intact.only row before
        exact ⟨w', List.mem_append_left _ earlier, its⟩
      · exact ⟨w, by simp, (List.mem_singleton.mp last).symm⟩
  · have keeps : ∀ row ∈ (readJsonl file).1, row ∈ (readJsonl file').1 := by
      intro row member
      rcases rows with ⟨same, -⟩ | ⟨-, added⟩
      · rwa [same]
      · rw [added]
        exact List.mem_append_left _ member
    rw [grown]
    intro w' member
    simp only [finished, List.filter_append, List.mem_append] at member
    rcases member with earlier | last
    · obtain ⟨row, inside, alike⟩ := intact.all w' earlier
      exact ⟨row, keeps row inside, alike⟩
    · obtain ⟨here, untorn⟩ := List.mem_filter.mp last
      obtain rfl := List.mem_singleton.mp here
      rcases rows with ⟨same, reached⟩ | ⟨-, added⟩
      · obtain ⟨row, inside, alike⟩ :=
          (present_iff named file).mp (reached (Option.isNone_iff_eq_none.mp untorn))
        exact ⟨row, keeps row inside, alike⟩
      · exact ⟨w'.payload, by rw [added]; simp, rfl⟩

/-- The journals the verdict and the status are read from. -/
def isRead (name : Text) : Bool :=
  name = equityName || name = correctionsName || name = verdictLogName || isExecutions name

/-- No write to a journal that is read ever left less than a whole row. -/
def NoScraps (writes : List Write) : Prop :=
  ∀ done w rest dir, writes = done ++ w :: rest → writeBook done = .ok dir →
    isRead w.name = true → ¬ w.LeavesScrap (dir.file w.name)

theorem Directory.file_set (dir : Directory) (name name' : Text) (file : Bytes) :
    Directory.file (dir.set name file) name' = if name = name' then file else dir.file name' := by
  simp only [Directory.file, Dict.get?_set]
  split_ifs <;> rfl

namespace Write

variable {w : Write} {dir dir' : Directory} {identity : Text}

theorem apply_eq_ok : w.apply dir = .ok dir' ↔
    ∃ file, w.onFile (dir.file w.name) = .ok file ∧ dir.set w.name file = dir' := except_map_eq_ok

theorem apply_isOk (named : eventId w.payload = .ok identity) (dir : Directory) :
    ∃ dir', w.apply dir = .ok dir' := by
  obtain ⟨file, done⟩ := onFile_isOk named (dir.file w.name)
  exact ⟨_, apply_eq_ok.mpr ⟨file, done, rfl⟩⟩

theorem apply_skipped (named : eventId w.payload = .ok identity) (done : w.apply dir = .ok dir')
    (name : Text) (chunked : Chunked (dir.file name)) :
    Chunked (dir'.file name) ∧ (readJsonl (dir.file name)).2 ≤ (readJsonl (dir'.file name)).2 := by
  obtain ⟨file, written, rfl⟩ := apply_eq_ok.mp done
  rw [Directory.file_set]
  split_ifs with here
  · subst here
    have read := onFile_read named chunked written
    exact ⟨read.1, read.2.1⟩
  · exact ⟨chunked, le_refl _⟩

end Write

variable {writes : List Write} {dir : Directory}

theorem writeBook_isOk (named : ∀ w ∈ writes, ∃ identity, eventId w.payload = .ok identity) :
    ∃ dir, writeBook writes = .ok dir := by
  refine foldlM_isOk (fun w member dir => ?_) _
  obtain ⟨identity, its⟩ := named w member
  exact Write.apply_isOk its dir

theorem writeBook_chunked (named : ∀ w ∈ writes, ∃ identity, eventId w.payload = .ok identity)
    (run : writeBook writes = .ok dir) (name : Text) : Chunked (dir.file name) := by
  refine foldlM_invariant (P := fun dir => Chunked (Directory.file dir name)) ?_ run .start
  intro w member before after step chunked
  obtain ⟨identity, its⟩ := named w member
  exact (Write.apply_skipped its step name chunked).1

theorem writeBook_intact (named : ∀ w ∈ writes, ∃ identity, eventId w.payload = .ok identity)
    (clean : NoScraps writes) (run : writeBook writes = .ok dir) (read : isRead name = true) :
    Intact name writes (dir.file name) := by
  refine (foldlM_along (P := fun done dir => writeBook done = .ok dir ∧
    Intact name done (Directory.file dir name)) ?_ run ⟨rfl, .start name⟩).2
  rintro done w rest before after split step ⟨sofar, intact⟩
  refine ⟨foldlM_append_eq_ok.mpr ⟨before, sofar, foldlM_cons_eq_ok.mpr ⟨after, step, rfl⟩⟩, ?_⟩
  obtain ⟨identity, its⟩ := named w (by simp [split])
  obtain ⟨file, written, rfl⟩ := Write.apply_eq_ok.mp step
  rw [Directory.file_set]
  split_ifs with here
  · subst here
    exact intact.step its written (clean done w rest before split sofar read)
  · exact intact.other here

theorem writeBook_scrap (named : ∀ w ∈ writes, ∃ identity, eventId w.payload = .ok identity)
    (run : writeBook writes = .ok dir) {done rest : List Write} {w : Write} {before : Directory}
    (split : writes = done ++ w :: rest) (sofar : writeBook done = .ok before)
    (scrap : w.LeavesScrap (before.file w.name)) : 0 < (readJsonl (dir.file w.name)).2 := by
  subst split
  obtain ⟨before', sofar', later⟩ := foldlM_append_eq_ok.mp run
  obtain rfl : before = before' := Except.ok.inj (sofar.symm.trans sofar')
  obtain ⟨after, step, later⟩ := foldlM_cons_eq_ok.mp later
  have chunked := writeBook_chunked (fun w' member => named w' (List.mem_append_left _ member))
    sofar w.name
  obtain ⟨identity, its⟩ := named w (by simp)
  obtain ⟨file, written, rfl⟩ := Write.apply_eq_ok.mp step
  refine (foldlM_invariant (P := fun dir => Chunked (Directory.file dir w.name) ∧
    0 < (readJsonl (Directory.file dir w.name)).2) ?_ later ?_).2
  · rintro w' member s s' step' ⟨chunked', counted⟩
    obtain ⟨identity', its'⟩ := named w' (by simp [member])
    have grows := Write.apply_skipped its' step' w.name chunked'
    exact ⟨grows.1, Nat.lt_of_lt_of_le counted grows.2⟩
  · have read := Write.onFile_read its chunked written
    rw [Directory.file_set, if_pos rfl]
    exact ⟨read.1, Nat.lt_of_le_of_lt (Nat.zero_le _) (read.2.2.1 scrap)⟩

theorem noScraps_of_whole (named : ∀ w ∈ writes, ∃ identity, eventId w.payload = .ok identity)
    (run : writeBook writes = .ok dir)
    (whole : ∀ name, isRead name = true → (readJsonl (dir.file name)).2 = 0) :
    NoScraps writes := by
  intro done w rest before split sofar its scrap
  have counted := writeBook_scrap named run split sofar scrap
  rw [whole w.name its] at counted
  exact absurd counted (lt_irrefl 0)

/-- What the writers of a book keep to: an identity is new for every emission, the rows of
a journal have the fields its readers ask for, and a torn append is made again. -/
structure Emitted (writes : List Write) : Prop where
  named : ∀ w ∈ writes, ∃ identity, eventId w.payload = .ok identity
  oneJournal : ∀ w ∈ writes, ∀ w' ∈ writes, eventId w.payload = eventId w'.payload →
    w.name = w'.name
  dated : ∀ w ∈ writes, w.name = equityName → (w.payload.field "trade_date").isSome
  fills : ∀ w ∈ writes, isExecutions w.name = true → isFill w.payload = true
  transition : ∀ w ∈ writes, w.name = verdictLogName →
    eventId w.payload = .ok "terminal".toList ∧ (w.payload.field "status").isSome
  retried : ∀ done w rest, writes = done ++ w :: rest → w.torn ≠ none →
    ∃ w' ∈ rest, w'.torn = none ∧ w'.name = w.name ∧ eventId w'.payload = eventId w.payload

theorem mem_writesTo {test : Text → Bool} {w : Write} :
    w ∈ writesTo writes test ↔ w ∈ writes ∧ test w.name = true := List.mem_filter

theorem Emitted.finished (emitted : Emitted writes) {w : Write} (member : w ∈ writes) :
    ∃ w' ∈ BookJournals.finished writes, w'.name = w.name ∧
      eventId w'.payload = eventId w.payload := by
  cases torn : w.torn with
  | none => exact ⟨w, List.mem_filter.mpr ⟨member, by simp [torn]⟩, rfl, rfl⟩
  | some n =>
    obtain ⟨done, rest, split⟩ := List.append_of_mem member
    obtain ⟨w', later, untorn, name, alike⟩ := emitted.retried done w rest split (by simp [torn])
    exact ⟨w', List.mem_filter.mpr ⟨by simp [split, later], by simp [untorn]⟩, name, alike⟩

theorem Intact.eachOnce {file : Bytes} (emitted : Emitted writes)
    (intact : Intact name writes file) :
    EachOnce (readJsonl file).1 (writesTo writes (· = name)) where
  once := intact.once
  only := intact.only
  all w member := by
    obtain ⟨inside, here⟩ := mem_writesTo.mp member
    obtain ⟨w', done, same, alike⟩ := emitted.finished inside
    obtain ⟨inside', untorn⟩ := List.mem_filter.mp done
    have there : w' ∈ writesTo writes (· = name) := mem_writesTo.mpr ⟨inside', same ▸ here⟩
    obtain ⟨row, read, its⟩ := intact.all w' (List.mem_filter.mpr ⟨there, untorn⟩)
    exact ⟨row, read, its.trans alike⟩

variable (shown : Json → Text)

theorem Directory.mem_executionNames :
    name ∈ dir.executionNames ↔ name ∈ dir.keys ∧ isExecutions name = true := by
  rw [executionNames, (perm_sortTexts _).mem_iff, List.mem_filter]

theorem Directory.nodup_executionNames (dir : Directory) : dir.executionNames.Nodup :=
  (perm_sortTexts _).nodup_iff.mpr (dir.nodup.filter _)

theorem Directory.read_missing (missing : name ∉ dir.keys) :
    readJsonl (dir.file name) = ([], 0) := by
  rw [file, Dict.get?_eq_none_iff.mpr missing]
  rfl

theorem skipped_of_read {shown : Json → Text} {journals : Journals} {status : Text}
    (read : readJournals shown dir = .ok journals) (settled : bookStatus shown dir = .ok status)
    (its : isRead name = true) : (readJsonl (dir.file name)).2 = 0 := by
  simp only [readJournals] at read
  split_ifs at read with damaged
  simp only [bookStatus] at settled
  split_ifs at settled with two
  rw [not_not, Nat.add_eq_zero_iff, Nat.add_eq_zero_iff,
    List.sum_eq_zero_iff_forall_eq_nat] at damaged
  obtain ⟨⟨equity, corrections⟩, executions⟩ := damaged
  simp only [isRead, Bool.or_eq_true, decide_eq_true_eq] at its
  rcases its with ((rfl | rfl) | rfl) | fills
  · exact equity
  · exact corrections
  · exact not_not.mp fun counted => two (.inl counted)
  · by_cases there : name ∈ dir.keys
    · refine executions _ (List.mem_map.mpr ⟨readJsonl (dir.file name), ?_, rfl⟩)
      exact List.mem_map.mpr ⟨name, Directory.mem_executionNames.mpr ⟨there, fills⟩, rfl⟩
    · rw [Directory.read_missing there]

theorem sortByDate_isOk {equity : List JsonObject}
    (dated : ∀ row ∈ equity, (row.field "trade_date").isSome) :
    ∃ days, sortByDate shown equity = .ok days ∧ days.Perm equity := by
  have each : ∀ row ∈ equity, ∃ day, shownField shown row "trade_date" = .ok day := by
    intro row member
    obtain ⟨value, found⟩ := Option.isSome_iff_exists.mp (dated row member)
    cases value <;> exact ⟨_, by rw [shownField, found]⟩
  obtain ⟨pairs, read⟩ := mapM_isOk (f := fun row =>
    (shownField shown row "trade_date").map fun day => (day, row)).mpr fun row member => by
      obtain ⟨day, found⟩ := each row member
      exact ⟨(day, row), by rw [found]; rfl⟩
  refine ⟨_, by rw [sortByDate, read]; rfl, ?_⟩
  have rows : pairs.map Prod.snd = equity := by
    have zipped := mapM_eq_ok.mp read
    clear read
    induction zipped with
    | nil => rfl
    | cons here _ ih =>
      obtain ⟨day, -, rfl⟩ := except_map_eq_ok.mp here
      simpa using ih (fun row member => dated row (List.mem_cons_of_mem _ member))
        fun row member => each row (List.mem_cons_of_mem _ member)
  exact ((List.perm_insertionSort _ pairs).map Prod.snd).trans (.of_eq rows)

theorem eachOnce_executions (emitted : Emitted writes)
    (intact : ∀ name, isRead name = true → Intact name writes (dir.file name)) :
    EachOnce (dir.executionNames.flatMap fun name => (readJsonl (dir.file name)).1)
      (writesTo writes isExecutions) := by
  have journal : ∀ name ∈ dir.executionNames, isExecutions name = true ∧
      EachOnce (readJsonl (dir.file name)).1 (writesTo writes (· = name)) := by
    intro name member
    have fills := (Directory.mem_executionNames.mp member).2
    exact ⟨fills, (intact name (by simp [isRead, fills])).eachOnce emitted⟩
  refine ⟨?_, ?_, ?_⟩
  · rw [List.map_flatMap, List.nodup_flatMap]
    refine ⟨fun name member => (journal name member).2.once, ?_⟩
    refine dir.nodup_executionNames.imp_of_mem ?_
    intro name name' member member' other
    -- an identity in two journals would be one journal's
    refine List.disjoint_left.mpr ?_
    intro identity inside inside'
    obtain ⟨row, read, rfl⟩ := List.mem_map.mp inside
    obtain ⟨row', read', alike⟩ := List.mem_map.mp inside'
    obtain ⟨w, written, rfl⟩ := (journal name member).2.only row read
    obtain ⟨w', written', rfl⟩ := (journal name' member').2.only row' read'
    obtain ⟨inAll, here⟩ := mem_writesTo.mp written
    obtain ⟨inAll', here'⟩ := mem_writesTo.mp written'
    have same := emitted.oneJournal w' inAll' w inAll alike
    rw [of_decide_eq_true here, of_decide_eq_true here'] at same
    exact other same.symm
  · intro row member
    obtain ⟨name, inside, read⟩ := List.mem_flatMap.mp member
    obtain ⟨fills, each⟩ := journal name inside
    obtain ⟨w, written, its⟩ := each.only row read
    obtain ⟨inAll, here⟩ := mem_writesTo.mp written
    exact ⟨w, mem_writesTo.mpr ⟨inAll, of_decide_eq_true here ▸ fills⟩, its⟩
  · intro w written
    obtain ⟨inAll, fills⟩ := mem_writesTo.mp written
    have each := (intact w.name (by simp [isRead, fills])).eachOnce emitted
    obtain ⟨row, read, alike⟩ := each.all w (mem_writesTo.mpr ⟨inAll, by simp⟩)
    have there : w.name ∈ dir.keys := by
      by_contra missing
      rw [Directory.read_missing missing] at read
      cases read
    exact ⟨row, List.mem_flatMap.mpr
      ⟨w.name, Directory.mem_executionNames.mpr ⟨there, fills⟩, read⟩, alike⟩

/-- What a book's readers return counts every row once, and the status is the one of the
transition that was written, if one was. -/
structure Counted (shown : Json → Text) (writes : List Write) (journals : Journals)
    (status : Text) : Prop where
  equity : EachOnce journals.equity (writesTo writes (· = equityName))
  corrections : EachOnce journals.corrections (writesTo writes (· = correctionsName))
  executions : EachOnce journals.executions (writesTo writes isExecutions)
  observing : writesTo writes (· = verdictLogName) = [] → status = "observing".toList
  settled : writesTo writes (· = verdictLogName) ≠ [] →
    ∃ w ∈ writesTo writes (· = verdictLogName), shownField shown w.payload "status" = .ok status

theorem readJournals_counted (emitted : Emitted writes)
    (intact : ∀ name, isRead name = true → Intact name writes (dir.file name)) :
    ∃ journals, readJournals shown dir = .ok journals ∧
      EachOnce journals.equity (writesTo writes (· = equityName)) ∧
      EachOnce journals.corrections (writesTo writes (· = correctionsName)) ∧
      EachOnce journals.executions (writesTo writes isExecutions) := by
  have equity := intact equityName (by simp [isRead])
  have corrections := intact correctionsName (by simp [isRead])
  have fills := eachOnce_executions emitted intact
  have none : ∀ n ∈ (dir.executionNames.map fun name => readJsonl (dir.file name)).map Prod.snd,
      n = 0 := by
    simp only [List.map_map, List.mem_map, Function.comp_apply, forall_exists_index, and_imp,
      forall_apply_eq_imp_iff₂]
    intro name member
    have its := (Directory.mem_executionNames.mp member).2
    exact (intact name (by simp [isRead, its])).skipped
  have dated : ∀ row ∈ (readJsonl (dir.file equityName)).1, (row.field "trade_date").isSome := by
    intro row member
    obtain ⟨w, written, rfl⟩ := equity.only row member
    obtain ⟨inAll, here⟩ := mem_writesTo.mp written
    exact emitted.dated w inAll (of_decide_eq_true here)
  have all : ∀ row ∈ dir.executionNames.flatMap fun name => (readJsonl (dir.file name)).1,
      isFill row = true := by
    intro row member
    obtain ⟨w, written, rfl⟩ := fills.only row member
    obtain ⟨inAll, here⟩ := mem_writesTo.mp written
    exact emitted.fills w inAll here
  obtain ⟨days, sorted, same⟩ := sortByDate_isOk shown dated
  refine ⟨⟨days, (readJsonl (dir.file correctionsName)).1,
    dir.executionNames.flatMap fun name => (readJsonl (dir.file name)).1⟩, ?_,
    (equity.eachOnce emitted).perm same, corrections.eachOnce emitted, fills⟩
  simp only [readJournals]
  rw [if_neg, sorted]
  · show Except.ok _ = Except.ok _
    rw [List.flatMap_map, List.filter_eq_self.mpr all]
  · rw [equity.skipped, corrections.skipped, List.sum_eq_zero_iff_forall_eq_nat.mpr none]
    simp

theorem bookStatus_settled (emitted : Emitted writes)
    (intact : Intact verdictLogName writes (dir.file verdictLogName)) :
    ∃ status, bookStatus shown dir = .ok status ∧
      (writesTo writes (· = verdictLogName) = [] → status = "observing".toList) ∧
      (writesTo writes (· = verdictLogName) ≠ [] →
        ∃ w ∈ writesTo writes (· = verdictLogName),
          shownField shown w.payload "status" = .ok status) := by
  have each := intact.eachOnce emitted
  have written : ∀ w ∈ writesTo writes (· = verdictLogName),
      eventId w.payload = .ok "terminal".toList ∧ (w.payload.field "status").isSome := by
    intro w member
    obtain ⟨inAll, here⟩ := mem_writesTo.mp member
    exact emitted.transition w inAll (of_decide_eq_true here)
  cases rows : (readJsonl (dir.file verdictLogName)).1 with
  | nil =>
    have none : writesTo writes (· = verdictLogName) = [] := by
      apply List.eq_nil_iff_forall_not_mem.mpr
      intro w member
      obtain ⟨row, read, -⟩ := each.all w member
      rw [rows] at read
      cases read
    refine ⟨"observing".toList, ?_, fun _ => rfl, fun some => absurd none some⟩
    simp [bookStatus, intact.skipped, rows]
  | cons row more =>
    have identity : ∀ row' ∈ (readJsonl (dir.file verdictLogName)).1,
        eventId row' = .ok "terminal".toList := by
      intro row' member
      obtain ⟨w, inside, rfl⟩ := each.only row' member
      exact (written w inside).1
    have single : more = [] := by
      cases more with
      | nil => rfl
      | cons next more =>
        have once := each.once
        rw [rows] at once identity
        have alike := (identity row (by simp)).trans (identity next (by simp)).symm
        simp [alike] at once
    obtain ⟨w, inside, its⟩ := each.only row (by rw [rows]; exact List.mem_cons_self)
    obtain ⟨value, found⟩ := Option.isSome_iff_exists.mp (written w inside).2
    obtain ⟨status, shows⟩ : ∃ status, shownField shown row "status" = .ok status := by
      rw [← its]
      cases value <;> exact ⟨_, by rw [shownField, found]⟩
    refine ⟨status, ?_, fun none => ?_, fun _ => ⟨w, inside, by rw [its]; exact shows⟩⟩
    · simp [bookStatus, intact.skipped, rows, single, shows]
    · rw [none] at inside
      cases inside

/-- A book can be read and every row written is counted once, over any appends to its
journals, each torn anywhere any number of times and made again, exactly when no append to
a journal that is read ever left bytes of a row short of all of it, or a row with a line
break that stands unescaped in it. -/
theorem book_read_iff (shown : Json → Text) (writes : List Write) (emitted : Emitted writes) :
    (∃ dir journals status, writeBook writes = .ok dir ∧
        readJournals shown dir = .ok journals ∧ bookStatus shown dir = .ok status ∧
        Counted shown writes journals status) ↔
      NoScraps writes := by
  constructor
  · rintro ⟨dir, journals, status, run, read, settled, -⟩
    exact noScraps_of_whole emitted.named run fun name => skipped_of_read read settled
  · intro clean
    obtain ⟨dir, run⟩ := writeBook_isOk emitted.named
    have intact : ∀ name, isRead name = true → Intact name writes (dir.file name) :=
      fun name its => writeBook_intact emitted.named clean run its
    obtain ⟨journals, read, equity, corrections, executions⟩ :=
      readJournals_counted shown emitted intact
    obtain ⟨status, shows, observing, settled⟩ :=
      bookStatus_settled shown emitted (intact verdictLogName (by simp [isRead]))
    exact ⟨dir, journals, status, run, read, shows,
      equity, corrections, executions, observing, settled⟩

theorem retried_first {first again : Write} {more : List Write}
    (whole : writes = first :: again :: more) (untorn : ∀ w ∈ writes.tail, w.torn = none)
    (name : again.name = first.name) (alike : eventId again.payload = eventId first.payload) :
    ∀ done w rest, writes = done ++ w :: rest → w.torn ≠ none →
      ∃ w' ∈ rest, w'.torn = none ∧ w'.name = w.name ∧ eventId w'.payload = eventId w.payload := by
  subst whole
  intro done w rest split torn
  cases done with
  | nil =>
    obtain ⟨rfl, rfl⟩ := List.cons.inj split
    exact ⟨again, List.mem_cons_self, untorn again List.mem_cons_self, name, alike⟩
  | cons _ done =>
    obtain ⟨-, later⟩ := List.cons.inj split
    exact absurd (untorn w (later ▸ List.mem_append_right done List.mem_cons_self)) torn

/-- A settled day torn just before its newline, its fill, and the transition. -/
def settledWrites : List Write :=
  let day := [("event_id".toList, str "a".toList), ("trade_date".toList, str "20260105".toList)]
  [⟨equityName, day, some 43⟩, ⟨equityName, day, none⟩,
    ⟨"executions_20260105.jsonl".toList,
      [("event_id".toList, str "b".toList), ("kind".toList, str "execution".toList)], none⟩,
    ⟨verdictLogName,
      [("event_id".toList, str "terminal".toList), ("status".toList, str "killed".toList)], none⟩]

theorem settledWrites_emitted : Emitted settledWrites where
  named := by
    simp only [settledWrites, List.forall_mem_cons, List.not_mem_nil, false_implies,
      implies_true, and_true]
    exact ⟨⟨"a".toList, rfl⟩, ⟨"a".toList, rfl⟩, ⟨"b".toList, rfl⟩, ⟨"terminal".toList, rfl⟩⟩
  oneJournal := by decide +kernel
  dated := by decide +kernel
  fills := by decide +kernel
  transition := by decide +kernel
  retried := retried_first rfl (by decide) rfl rfl

theorem settledWrites_read : ∃ dir journals status, writeBook settledWrites = .ok dir ∧
    readJournals dumps dir = .ok journals ∧ bookStatus dumps dir = .ok status ∧
    Counted dumps settledWrites journals status := by
  refine (book_read_iff dumps settledWrites settledWrites_emitted).mpr ?_
  obtain ⟨dir, run⟩ := writeBook_isOk settledWrites_emitted.named
  have checked : ((writeBook settledWrites).toOption.all fun dir =>
      dir.entries.all fun entry => (readJsonl entry.2).2 = 0) = true := by decide +kernel
  rw [run] at checked
  refine noScraps_of_whole settledWrites_emitted.named run fun name _ => ?_
  cases found : dir.get? name with
  | none => rw [Directory.file, found]; rfl
  | some file =>
    have whole := List.all_eq_true.mp checked (name, file) (Dict.mem_entries_iff.mpr found)
    rw [Directory.file, found]
    exact of_decide_eq_true whole

/-- The same day torn inside its row. -/
def tornWrites : List Write :=
  let day := [("event_id".toList, str "a".toList), ("trade_date".toList, str "20260105".toList)]
  [⟨equityName, day, some 5⟩, ⟨equityName, day, none⟩]

theorem tornWrites_blocked : ¬ ∀ writes : List Write, Emitted writes →
    ∃ dir journals status, writeBook writes = .ok dir ∧
      readJournals dumps dir = .ok journals ∧ bookStatus dumps dir = .ok status ∧
      Counted dumps writes journals status := by
  intro always
  obtain ⟨dir, journals, status, run, read, -⟩ := always tornWrites
    { named := by
        simp only [tornWrites, List.forall_mem_cons, List.not_mem_nil, false_implies,
          implies_true, and_true]
        exact ⟨⟨"a".toList, rfl⟩, ⟨"a".toList, rfl⟩⟩
      oneJournal := by decide +kernel
      dated := by decide +kernel
      fills := by decide +kernel
      transition := by decide +kernel
      retried := retried_first rfl (by decide) rfl rfl }
  have blocked : ((writeBook tornWrites).toOption.all fun dir =>
      (readJournals dumps dir).toOption.isNone) = true := by decide +kernel
  rw [run] at blocked
  have none : (readJournals dumps dir).toOption.isNone = true := blocked
  rw [read] at none
  cases none

end BookJournals

end AutoTrade
