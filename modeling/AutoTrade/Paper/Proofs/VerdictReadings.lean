import AutoTrade.Paper.Proofs.BookJournals
import AutoTrade.Paper.VerdictReadings

/-!
# A verdict settles once

The log of transitions is empty while a book is observing. The first append to it leaves
either the one transition or a line that no reader goes past, and from then on nothing
writes to it. So every reading from then on carries that transition, and the checkpoints
tested lie between what two readings recorded as checked.
-/

namespace AutoTrade

namespace PaperVerdict

open Json JsonLines Storage BookJournals Utf8

variable {F : Type}

/-- A row that can end a book. -/
structure Terminal (row : JsonObject) : Prop where
  identity : eventId row = .ok "terminal".toList
  status : ∃ status ∈ ["killed".toList, "confirmed".toList], row.field "status" = some (str status)

theorem transitionRow_terminal (e : Evidence F) (recordedAt : Text) (reason : Reason) (index : Nat)
    (day : Text) : Terminal (transitionRow e recordedAt reason index day) where
  identity := rfl
  status := by
    refine ⟨reason.status, by cases reason <;> decide, ?_⟩
    simp [transitionRow, JsonObject.field_ofFields_cons]

section

variable [LT F] [DecidableLT F] {rules : VerdictRules F} {e : Evidence F} {recordedAt : Text}
  {checked index : Nat} {days : List Text} {found : Option JsonObject × List Nat}

theorem mem_tested {c : Nat}
    (member : c ∈ if tests rules e checked index then [index + 1] else []) :
    c = index + 1 ∧ c % rules.checkpointDays = 0 ∧ checked < c := by
  split_ifs at member with tested
  · obtain rfl := List.mem_singleton.mp member
    simp only [tests, decide_eq_true_eq] at tested
    exact ⟨rfl, tested.2.2⟩
  · cases member

variable [Zero F]

theorem firstTransition_tested
    (search : firstTransition rules e recordedAt checked index days = .ok found) :
    found.2.Pairwise (· < ·) ∧ ∀ c ∈ found.2,
      index < c ∧ c ≤ index + days.length ∧ checked < c ∧ c % rules.checkpointDays = 0 := by
  fun_induction firstTransition rules e recordedAt checked index days generalizing found with
  | case1 index =>
    obtain rfl := Except.ok.inj search
    exact ⟨.nil, fun c member => nomatch member⟩
  | case2 index day days stop ends => cases search
  | case3 index day days tested reason =>
    obtain rfl := Except.ok.inj search
    refine ⟨?_, fun c member => ?_⟩
    · simp only [tested]
      split_ifs <;> simp
    · obtain ⟨rfl, multiple, past⟩ := mem_tested member
      exact ⟨by omega, by simp, past, multiple⟩
  | case4 index day days tested goes =>
    rename_i ih
    obtain ⟨later, rest, rfl⟩ := except_map_eq_ok.mp search
    obtain ⟨ordered, each⟩ := ih rest
    refine ⟨List.pairwise_append.mpr ⟨?_, ordered, fun c member c' member' => ?_⟩,
      fun c member => ?_⟩
    · simp only [tested]
      split_ifs <;> simp
    · have here := (mem_tested member).1
      have there := (each c' member').1
      omega
    · rw [List.length_cons]
      rcases List.mem_append.mp member with here | there
      · obtain ⟨rfl, multiple, past⟩ := mem_tested here
        exact ⟨by omega, by omega, past, multiple⟩
      · obtain ⟨low, high, past, multiple⟩ := each c there
        exact ⟨by omega, by omega, past, multiple⟩

theorem firstTransition_terminal {row : JsonObject}
    (search : firstTransition rules e recordedAt checked index days = .ok found)
    (ends : found.1 = some row) : Terminal row := by
  fun_induction firstTransition rules e recordedAt checked index days generalizing found with
  | case1 index =>
    obtain rfl := Except.ok.inj search
    cases ends
  | case2 index day days stop stops => cases search
  | case3 index day days tested reason =>
    obtain rfl := Except.ok.inj search
    obtain rfl := Option.some.inj ends
    exact transitionRow_terminal e recordedAt reason index day
  | case4 index day days tested goes =>
    rename_i ih
    obtain ⟨later, rest, rfl⟩ := except_map_eq_ok.mp search
    exact ih rest ends

end

section

variable [LT F] [DecidableLT F] [Zero F] {shown : Json → Text} {rules : VerdictRules F}
  {files : Files} {equity : List JsonObject} {visit : Visit F} {reading : Reading}

/-- The reading carries the transition and its status. -/
structure Carries (reading : Reading) (row : JsonObject) : Prop where
  transition : reading.transition = some row
  status : row.field "status" = some reading.status

/-- The reading carries no transition. -/
structure Open (reading : Reading) : Prop where
  transition : reading.transition = none
  status : reading.status = str "observing".toList

theorem evidenceReading_eq_ok
    (read : evidenceReading shown rules files equity visit = .ok reading) :
    ∃ stored, bookStatus shown files.dir = .ok stored ∧
      ((reading.status = str stored ∧ reading.tested = [] ∧
          reading.checkedThrough = files.checkedThrough ∧
          reading.transition = if stored ≠ "observing".toList then
            (readJsonl (files.dir.file verdictLogName)).1.head? else none) ∨
        ∃ e dates, transitionOn rules files visit stored e dates =
            .ok (reading.transition, reading.tested) ∧
          statusOf reading.transition = .ok reading.status ∧
          reading.checkedThrough = max files.checkedThrough
            (dates.length / rules.checkpointDays * rules.checkpointDays)) := by
  obtain ⟨stored, status, read⟩ := bind_eq_ok.mp read
  obtain ⟨dates, dated, read⟩ := bind_eq_ok.mp read
  refine ⟨stored, mapError_eq_ok.mp status, ?_⟩
  by_cases none : dates = []
  · rw [if_pos none] at read
    obtain rfl := pure_eq_ok.mp read
    exact .inl ⟨rfl, rfl, rfl, rfl⟩
  · rw [if_neg none] at read
    have ordered : ¬ (¬ dates.Nodup ∨ dates ≠ sortTexts dates) := by
      intro unordered
      rw [if_pos unordered] at read
      cases read
    rw [if_neg ordered] at read
    cases measured : visit.evidence with
    | none =>
      rw [measured] at read
      cases read
    | some e =>
      rw [measured] at read
      obtain ⟨found, search, read⟩ := bind_eq_ok.mp read
      obtain ⟨status, its, read⟩ := bind_eq_ok.mp read
      obtain rfl := pure_eq_ok.mp read
      exact .inr ⟨e, dates, search, its, rfl⟩

theorem evidenceReading_observing (observing : bookStatus shown files.dir = .ok "observing".toList)
    (read : evidenceReading shown rules files equity visit = .ok reading) :
    files.checkedThrough ≤ reading.checkedThrough ∧ reading.tested.Pairwise (· < ·) ∧
      (∀ c ∈ reading.tested, files.checkedThrough < c ∧ c ≤ reading.checkedThrough) ∧
      (Open reading ∨ ∃ row, Terminal row ∧ Carries reading row) := by
  obtain ⟨stored, its, ⟨status, none, same, transition⟩ | ⟨e, dates, search, status, checked⟩⟩ :=
    evidenceReading_eq_ok read
  · obtain rfl := Except.ok.inj (its.symm.trans observing)
    rw [none, same]
    exact ⟨le_refl _, .nil, by simp, .inl ⟨by simp [transition], status⟩⟩
  · obtain rfl := Except.ok.inj (its.symm.trans observing)
    rw [transitionOn, if_neg (by simp)] at search
    obtain ⟨ordered, each⟩ := firstTransition_tested search
    refine ⟨by omega, ordered, fun c member => ?_, ?_⟩
    · obtain ⟨-, reached, past, multiple⟩ := each c member
      refine ⟨past, ?_⟩
      -- the last checkpoint is the last multiple among the days
      obtain ⟨q, rfl⟩ := Nat.dvd_of_mod_eq_zero multiple
      have below : q ≤ dates.length / rules.checkpointDays := by
        rw [Nat.le_div_iff_mul_le rules.positive, Nat.mul_comm]
        omega
      have last := Nat.mul_le_mul_right rules.checkpointDays below
      rw [Nat.mul_comm q] at last
      omega
    · cases ends : reading.transition with
      | none =>
        rw [ends] at status
        exact .inl ⟨ends, (Except.ok.inj status).symm⟩
      | some row =>
        refine .inr ⟨row, firstTransition_terminal search ends, ends, ?_⟩
        rw [ends, statusOf] at status
        cases found : row.field "status" with
        | none => simp [found] at status
        | some value => simpa [found] using status

theorem evidenceReading_settled {row : JsonObject} (terminal : Terminal row)
    (rows : (readJsonl (files.dir.file verdictLogName)).1 = [row])
    (read : evidenceReading shown rules files equity visit = .ok reading) :
    files.checkedThrough ≤ reading.checkedThrough ∧ reading.tested = [] ∧ Carries reading row := by
  obtain ⟨t, known, written⟩ := terminal.status
  have settled : t ≠ "observing".toList := by
    have every : ∀ t ∈ ["killed".toList, "confirmed".toList], t ≠ "observing".toList := by decide
    exact every t known
  have shows : ∀ stored, bookStatus shown files.dir = .ok stored → stored = t := by
    intro stored its
    simp only [bookStatus, rows, shownField, written] at its
    split_ifs at its
    exact (Except.ok.inj its).symm
  obtain ⟨stored, its, ⟨status, none, same, transition⟩ | ⟨e, dates, search, status, checked⟩⟩ :=
    evidenceReading_eq_ok read
  · obtain rfl := shows stored its
    rw [if_pos settled, rows] at transition
    exact ⟨same.ge, none, transition, by rw [written, status]⟩
  · obtain rfl := shows stored its
    rw [transitionOn, if_pos settled, rows] at search
    obtain ⟨transition, none⟩ := Prod.mk.inj (Except.ok.inj search)
    have carried : reading.transition = some row := transition.symm
    simp only [carried, statusOf, written, Except.ok.injEq] at status
    exact ⟨by omega, none.symm, carried, by rw [written, status]⟩

end

/-- A line no reader goes past, in a log without a transition. -/
structure Damaged (log : Bytes) : Prop where
  skipped : 0 < (readJsonl log).2
  bare : ∀ row ∈ (readJsonl log).1, row.field "event_id" = none

theorem onFile_nil {w : Write} {file : Bytes} {identity : Text}
    (named : eventId w.payload = .ok identity) (done : w.onFile [] = .ok file) :
    file = [] ∧ w.torn ≠ none ∨ Damaged file ∨ readJsonl file = ([w.payload], 0) := by
  obtain ⟨n, same, -, -, whole⟩ := w.onFile_eq []
  have empty : Holds [] [] := .inl rfl
  obtain ⟨left, torn, holds⟩ := tornAppend_holds empty named n
  obtain rfl : left = file := Except.ok.inj (torn.symm.trans (same.symm.trans done))
  have absent : present [] identity = false := rfl
  rw [absent, if_neg (by simp)] at holds
  rcases Nat.eq_zero_or_pos n with rfl | some
  · left
    rw [tornAppend, pending_eq named, absent] at torn
    exact ⟨(Except.ok.inj torn).symm, fun untorn => absurd (whole untorn) (Nat.not_lt_zero _)⟩
  · right
    by_cases bad : breaksLine w.payload = true ∨
        n < (healing []).length + (rowBytes w.payload).length
    · left
      obtain ⟨scrap, skips, bare, read⟩ := readChunks_scrap [] [] some bad
      have added : readJsonl left = scrap := by
        rw [holds.read_eq, read]
        simp [readChunks]
      exact ⟨added ▸ skips, added ▸ bare⟩
    · right
      have fine := not_or.mp bad
      rw [holds.read_eq]
      exact readChunks_row [] [] (by simpa using fine.1) (by omega)

/-- `verdict.jsonl`. -/
def Course.log (c : Course) : Bytes := c.files.dir.file verdictLogName

theorem checkedThrough_le {files files' : Files} {crash : Option Crash} {reading : Reading}
    (whole : crash = none → files'.record = some reading)
    (crashed : crash ≠ none → files'.record = files.record)
    (grows : files.checkedThrough ≤ reading.checkedThrough) :
    files.checkedThrough ≤ files'.checkedThrough := by
  by_cases ended : crash = none
  · simpa [Files.checkedThrough, whole ended] using grows
  · simp [Files.checkedThrough, crashed ended]

section

variable [LT F] [DecidableLT F] [Zero F] {shown : Json → Text} {rules : VerdictRules F}

theorem recordVerdictLocked_eq_ok {files files' : Files} {visit : Visit F} {reading : Reading}
    (done : recordVerdictLocked shown rules files visit = .ok (reading, files')) :
    (∃ equity, evidenceReading shown rules files equity visit = .ok reading) ∧
      ∃ torn, logTransition shown files.dir reading.transition torn = .ok files'.dir ∧
        (visit.crash = none → torn = none ∧ files'.record = some reading) ∧
        (visit.crash ≠ none → files'.record = files.record) := by
  obtain ⟨its, read, done⟩ := bind_eq_ok.mp done
  obtain ⟨journals, -, evidence⟩ := bind_eq_ok.mp read
  have equity : ∃ equity, evidenceReading shown rules files equity visit = .ok its :=
    ⟨journals.equity, evidence⟩
  cases crash : visit.crash with
  | none =>
    rw [crash] at done
    obtain ⟨dir, logged, done⟩ := bind_eq_ok.mp done
    obtain ⟨rfl, rfl⟩ := Prod.mk.inj (pure_eq_ok.mp done)
    exact ⟨equity, none, logged, fun _ => ⟨rfl, rfl⟩, fun crashed => absurd rfl crashed⟩
  | some at_ =>
    cases at_ with
    | inAppend bytes =>
      rw [crash] at done
      obtain ⟨dir, logged, done⟩ := bind_eq_ok.mp done
      obtain ⟨rfl, rfl⟩ := Prod.mk.inj (pure_eq_ok.mp done)
      exact ⟨equity, some bytes, logged, by simp, fun _ => rfl⟩
    | beforeRecord =>
      rw [crash] at done
      obtain ⟨dir, logged, done⟩ := bind_eq_ok.mp done
      obtain ⟨rfl, rfl⟩ := Prod.mk.inj (pure_eq_ok.mp done)
      exact ⟨equity, none, logged, by simp, fun _ => rfl⟩

theorem logTransition_settled {dir dir' : Directory} {transition : Option JsonObject}
    {torn : Option Nat} (settled : bookStatus shown dir ≠ .ok "observing".toList)
    (logged : logTransition shown dir transition torn = .ok dir') : dir' = dir := by
  cases transition with
  | none => exact (Except.ok.inj logged).symm
  | some row =>
    rw [logTransition, if_neg settled] at logged
    exact (Except.ok.inj logged).symm

theorem logTransition_observing {dir dir' : Directory} {row : JsonObject} {torn : Option Nat}
    (observing : bookStatus shown dir = .ok "observing".toList)
    (logged : logTransition shown dir (some row) torn = .ok dir') :
    Write.onFile ⟨verdictLogName, row, torn⟩ (dir.file verdictLogName) =
      .ok (dir'.file verdictLogName) := by
  rw [logTransition, if_pos observing] at logged
  obtain ⟨file, written, rfl⟩ := Write.apply_eq_ok.mp (mapError_eq_ok.mp logged)
  rw [Directory.file_set, if_pos rfl]
  exact written

/-- A status other than observing stays, with its transition. -/
def Follows (earlier later : Reading) : Prop :=
  earlier.status ≠ str "observing".toList →
    later.status = earlier.status ∧ later.transition = earlier.transition

theorem Open.follows {earlier : Reading} (open_ : Open earlier) (later : Reading) :
    Follows earlier later := fun settled => absurd open_.status settled

theorem Carries.follows {earlier later : Reading} {row : JsonObject} (carries : Carries earlier row)
    (carries' : Carries later row) : Follows earlier later := fun _ =>
  ⟨Option.some.inj (carries'.status.symm.trans carries.status),
    carries'.transition.trans carries.transition.symm⟩

/-- What the readings so far come to. -/
structure Once (history : List Reading) : Prop where
  tested : (history.flatMap Reading.tested).Nodup
  follows : history.Pairwise Follows

theorem Once.concat {history : List Reading} {reading : Reading} {checked : Nat}
    (once : Once history) (ordered : reading.tested.Pairwise (· < ·))
    (before : ∀ r ∈ history, ∀ c ∈ r.tested, c ≤ checked)
    (past : ∀ c ∈ reading.tested, checked < c) (follows : ∀ r ∈ history, Follows r reading) :
    Once (history ++ [reading]) where
  tested := by
    rw [List.flatMap_append, List.flatMap_singleton, List.nodup_append]
    refine ⟨once.tested, ordered.imp fun less => less.ne, ?_⟩
    rintro c earlier c' later rfl
    obtain ⟨r, member, inside⟩ := List.mem_flatMap.mp earlier
    exact absurd (before r member c inside) (Nat.not_le.mpr (past c later))
  follows := List.pairwise_append.mpr ⟨once.follows, List.pairwise_singleton _ _,
    fun r member r' last => List.mem_singleton.mp last ▸ follows r member⟩

/-- The three states of a book: observing, with every reading open and its tests checked;
settled by one row; or with a log that cannot be read. -/
inductive Sound (c : Course) : Prop where
  | observing (empty : c.log = []) (all : ∀ r ∈ c.history, Open r)
      (checked : ∀ r ∈ c.history, ∀ t ∈ r.tested, t ≤ c.files.checkedThrough)
  | settled {row : JsonObject} (terminal : Terminal row) (rows : readJsonl c.log = ([row], 0))
      (all : ∀ r ∈ c.history, Open r ∨ Carries r row)
  | damaged (damaged : Damaged c.log)

theorem bookStatus_of_empty {dir : Directory} (empty : dir.file verdictLogName = []) :
    bookStatus shown dir = .ok "observing".toList := by
  rw [bookStatus, empty]
  rfl

theorem bookStatus_of_settled {dir : Directory} {row : JsonObject} (terminal : Terminal row)
    (rows : readJsonl (dir.file verdictLogName) = ([row], 0)) :
    bookStatus shown dir ≠ .ok "observing".toList := by
  obtain ⟨t, known, written⟩ := terminal.status
  have every : ∀ t ∈ ["killed".toList, "confirmed".toList], t ≠ "observing".toList := by decide
  intro observing
  simp only [bookStatus, rows, shownField, written] at observing
  split_ifs at observing
  exact every t known (Except.ok.inj observing)

theorem not_read_of_damaged {files : Files} {equity : List JsonObject} {visit : Visit F}
    (damaged : Damaged (files.dir.file verdictLogName)) (reading : Reading) :
    evidenceReading shown rules files equity visit ≠ .ok reading := by
  intro read
  obtain ⟨stored, its, -⟩ := evidenceReading_eq_ok read
  rw [bookStatus, if_pos (.inl damaged.skipped.ne')] at its
  cases its

/-- What one event does: the state stays sound, what is checked and read only grows, and a
log that something was written to stays as it is. -/
structure Advances (c c' : Course) : Prop where
  sound : Sound c'
  once : Once c'.history
  checked : c.files.checkedThrough ≤ c'.files.checkedThrough
  history : c.history <+: c'.history
  log : c.log ≠ [] → c'.log = c.log

theorem Sound.append {c : Course} (sound : Sound c) (once : Once c.history) (w : Write)
    (other : w.name ≠ verdictLogName) :
    Advances c (c.step shown rules (.append w other)) := by
  simp only [Course.step]
  cases done : w.apply c.files.dir with
  | error e => exact ⟨sound, once, le_refl _, List.prefix_refl _, fun _ => rfl⟩
  | ok dir =>
    obtain ⟨file, -, rfl⟩ := Write.apply_eq_ok.mp done
    have same : Directory.file (c.files.dir.set w.name file) verdictLogName = c.log := by
      rw [Directory.file_set, if_neg other, Course.log]
    refine ⟨?_, once, le_refl _, List.prefix_refl _, fun _ => same⟩
    cases sound with
    | observing empty all checked => exact .observing (same.trans empty) all checked
    | settled terminal rows all => exact .settled terminal (by rw [Course.log, same, rows]) all
    | damaged damaged =>
      refine .damaged ?_
      rw [Course.log, same]
      exact damaged

theorem prefix_left {history : List Reading} {reading : Reading} {left : Prop} [Decidable left] :
    history <+: if left then history ++ [reading] else history := by
  split_ifs
  · exact List.prefix_append _ _
  · exact List.prefix_refl _

theorem step_settled {c : Course} {files : Files} {visit : Visit F} {reading : Reading}
    {row : JsonObject} (once : Once c.history) (terminal : Terminal row)
    (rows : readJsonl c.log = ([row], 0)) (all : ∀ r ∈ c.history, Open r ∨ Carries r row)
    (done : recordVerdictLocked shown rules c.files visit = .ok (reading, files)) :
    Advances c ⟨files, if visit.crash.isNone ∨
      files.dir.file verdictLogName ≠ c.files.dir.file verdictLogName
        then c.history ++ [reading] else c.history⟩ := by
  obtain ⟨⟨equity, read⟩, torn, logged, whole, crashed⟩ := recordVerdictLocked_eq_ok done
  obtain ⟨grows, none, carries⟩ := evidenceReading_settled terminal (congrArg Prod.fst rows) read
  have same : files.dir = c.files.dir :=
    logTransition_settled (bookStatus_of_settled terminal rows) logged
  refine ⟨?_, ?_, checkedThrough_le (fun crash => (whole crash).2) crashed grows, prefix_left,
    fun _ => by rw [Course.log, Course.log, same]⟩
  · refine .settled terminal (by rw [Course.log, same]; exact rows) fun r member => ?_
    split_ifs at member
    · rcases List.mem_append.mp member with earlier | last
      · exact all r earlier
      · exact .inr (List.mem_singleton.mp last ▸ carries)
    · exact all r member
  · show Once (if _ then _ else _)
    split_ifs
    · refine ⟨by simpa [none] using once.tested, List.pairwise_append.mpr
        ⟨once.follows, List.pairwise_singleton _ _, fun r member r' last => ?_⟩⟩
      obtain rfl := List.mem_singleton.mp last
      rcases all r member with still | held
      · exact still.follows r'
      · exact held.follows carries
    · exact once

theorem step_observing {c : Course} {files : Files} {visit : Visit F} {reading : Reading}
    (once : Once c.history) (empty : c.log = []) (all : ∀ r ∈ c.history, Open r)
    (checked : ∀ r ∈ c.history, ∀ t ∈ r.tested, t ≤ c.files.checkedThrough)
    (done : recordVerdictLocked shown rules c.files visit = .ok (reading, files)) :
    Advances c ⟨files, if visit.crash.isNone ∨
      files.dir.file verdictLogName ≠ c.files.dir.file verdictLogName
        then c.history ++ [reading] else c.history⟩ := by
  obtain ⟨⟨equity, read⟩, torn, logged, whole, crashed⟩ := recordVerdictLocked_eq_ok done
  have observing : bookStatus shown c.files.dir = .ok "observing".toList :=
    bookStatus_of_empty empty
  obtain ⟨grows, ordered, between, ends⟩ := evidenceReading_observing observing read
  have added : Once (c.history ++ [reading]) := once.concat ordered checked
    (fun t member => (between t member).1) fun r member => (all r member).follows reading
  have after : Once (if visit.crash.isNone ∨
      files.dir.file verdictLogName ≠ c.files.dir.file verdictLogName
        then c.history ++ [reading] else c.history) := by
    split_ifs
    · exact added
    · exact once
  refine ⟨?_, after, checkedThrough_le (fun crash => (whole crash).2) crashed grows, prefix_left,
    fun filled => absurd empty filled⟩
  rcases ends with open_ | ⟨row, terminal, carries⟩
  · -- no transition: the log stays empty, and the record holds what was tested
    have same : c.files.dir = files.dir := by
      rw [open_.transition] at logged
      exact Except.ok.inj logged
    have still : files.dir.file verdictLogName = [] := same ▸ empty
    by_cases crash : visit.crash = none
    · have record : files.checkedThrough = reading.checkedThrough := by
        simp [Files.checkedThrough, (whole crash).2]
      have history : ∀ r, (r ∈ if visit.crash.isNone ∨
          files.dir.file verdictLogName ≠ c.files.dir.file verdictLogName
            then c.history ++ [reading] else c.history) → r ∈ c.history ∨ r = reading := by
        intro r member
        rw [if_pos (by simp [crash])] at member
        simpa using member
      refine .observing still (fun r member => ?_) fun r member t inside => ?_
      · rcases history r member with earlier | rfl
        · exact all r earlier
        · exact open_
      · rw [record]
        rcases history r member with earlier | rfl
        · exact (checked r earlier t inside).trans grows
        · exact (between t inside).2
    · rw [if_neg (by simp [crash, same])]
      refine .observing still all fun r member t inside => ?_
      rw [Files.checkedThrough, crashed crash]
      exact checked r member t inside
  · have written := logTransition_observing observing (carries.transition ▸ logged)
    have named : eventId (Write.mk verdictLogName row torn).payload = .ok "terminal".toList :=
      terminal.identity
    rw [show c.files.dir.file verdictLogName = [] from empty] at written ⊢
    rcases onFile_nil named written with ⟨still, partly⟩ | damaged | rows
    · have crash : visit.crash ≠ none := fun none => partly (whole none).1
      rw [if_neg (by simp [crash, still])]
      refine .observing still all fun r member t inside => ?_
      rw [Files.checkedThrough, crashed crash]
      exact checked r member t inside
    · exact .damaged damaged
    · refine .settled terminal rows fun r member => ?_
      split_ifs at member
      · rcases List.mem_append.mp member with earlier | last
        · exact .inl (all r earlier)
        · exact .inr (List.mem_singleton.mp last ▸ carries)
      · exact .inl (all r member)

theorem Sound.reading {c : Course} (sound : Sound c) (once : Once c.history) (visit : Visit F) :
    Advances c (c.step shown rules (.reading visit)) := by
  simp only [Course.step]
  cases done : recordVerdictLocked shown rules c.files visit with
  | error e => exact ⟨sound, once, le_refl _, List.prefix_refl _, fun _ => rfl⟩
  | ok result =>
    cases sound with
    | observing empty all checked => exact step_observing once empty all checked done
    | settled terminal rows all => exact step_settled once terminal rows all done
    | damaged damaged =>
      obtain ⟨⟨equity, read⟩, -⟩ := recordVerdictLocked_eq_ok done
      exact absurd read (not_read_of_damaged damaged result.1)

theorem Advances.trans {c c' c'' : Course} (first : Advances c c') (second : Advances c' c'') :
    Advances c c'' where
  sound := second.sound
  once := second.once
  checked := first.checked.trans second.checked
  history := first.history.trans second.history
  log filled := by
    have same := first.log filled
    rw [second.log (same ▸ filled), same]

theorem Sound.run {c : Course} (sound : Sound c) (once : Once c.history) (events : List (Event F)) :
    Advances c (c.run shown rules events) := by
  induction events generalizing c with
  | nil => exact ⟨sound, once, le_refl _, List.prefix_refl _, fun _ => rfl⟩
  | cons event events ih =>
    have first : Advances c (c.step shown rules event) := by
      cases event with
      | append w other => exact sound.append once w other
      | reading visit => exact sound.reading once visit
    exact first.trans (ih first.sound first.once)

end

/-- The rows of a log that are transitions. -/
def transitions (log : Bytes) : List JsonObject :=
  (readJsonl log).1.filter fun row => eventId row = .ok "terminal".toList

theorem Sound.transitions_le {c : Course} (sound : Sound c) : (transitions c.log).length ≤ 1 := by
  rw [transitions]
  cases sound with
  | observing empty all checked =>
    rw [empty]
    exact Nat.zero_le _
  | settled terminal rows all =>
    rw [rows]
    exact List.length_filter_le _ _
  | damaged damaged =>
    rw [List.filter_eq_nil_iff.mpr]
    · exact Nat.zero_le _
    · intro row member identity
      have held := (eventId_eq_ok.mp (of_decide_eq_true identity)).1
      rw [damaged.bare row member] at held
      cases held

end PaperVerdict

end AutoTrade
