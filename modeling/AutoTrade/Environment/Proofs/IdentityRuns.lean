import AutoTrade.Environment.Proofs.Identity
import Mathlib.Data.List.Pairwise

/-!
# Runs of the reference store

Whatever the processes do, and wherever they are cut off or a write fails, the store holds a table
that is read back; the table only grows, by one entry at a time, and what a call returns is in it.
-/

namespace AutoTrade.AgentRefStore

open SessionTree (RefNamespace AgentRef isUuid4)
open Utf8 (Bytes)

variable {host : Host}

def Table.Has (table : Table) (returned : Returned) : Prop :=
  ∃ e ∈ table.entries, (e.refs, e.source.val, e.refText) = returned

theorem Entry.Apart.symm {e e' : Entry} (apart : e.Apart e') : e'.Apart e :=
  ⟨fun same => apart.1 ⟨same.1.symm, same.2.symm⟩, apart.2.symm⟩

theorem Table.eq_or_apart (table : Table) {e e' : Entry} (member : e ∈ table.entries)
    (member' : e' ∈ table.entries) : e = e' ∨ e.Apart e' := by
  have symm : Std.Symm fun e e' : Entry => e = e' ∨ e.Apart e' :=
    ⟨fun _ _ related => related.imp Eq.symm Entry.Apart.symm⟩
  exact List.Pairwise.forall_of_forall (fun _ _ => .inl rfl) (table.apart.imp Or.inr) member member'

theorem Table.Has.iff {table : Table} {refs refs' : RefNamespace}
    {source source' text text' : PyStr}
    (has : table.Has (refs, source, text)) (has' : table.Has (refs', source', text')) :
    (refs = refs' ∧ source = source') ↔ text = text' := by
  have ⟨e, member, same⟩ := has
  have ⟨e', member', same'⟩ := has'
  cases same
  cases same'
  rcases table.eq_or_apart member member' with rfl | apart
  · simp
  · exact iff_of_false (fun same => apart.1 ⟨same.1, Subtype.ext same.2⟩) apart.2

theorem Table.Has.mono {table table' : Table} {returned : Returned} (has : table.Has returned)
    (grows : table.entries <+: table'.entries) : table'.Has returned := by
  have ⟨e, member, same⟩ := has
  exact ⟨e, grows.subset member, same⟩

theorem Table.not_has_empty (returned : Returned) : ¬ Table.empty.Has returned :=
  fun ⟨_, member, _⟩ => nomatch member

/-- The files hold a table: none while it is empty, or the whole text of it. -/
def Keeps (host : Host) (files : Files) (table : Table) : Prop :=
  files.store = none ∧ table = .empty ∨
    ∃ bytes, CodePoint.encode (serialized host table) = some bytes ∧
      files.store = some ⟨bytes, 0o600⟩ ∧ files.hostMode = some 0o700 ∧ files.lock = true

theorem Keeps.read {files : Files} {table : Table} (keeps : Keeps host files table)
    (there : files.store.isSome = true) : readUnlocked host files = .ok table := by
  rcases keeps with ⟨none, _⟩ | ⟨bytes, encoded, store, mode, _⟩
  · rw [none] at there
    exact nomatch there
  · exact readUnlocked_serialized encoded store mode

theorem Keeps.there {files : Files} {table : Table} (keeps : Keeps host files table)
    {returned : Returned} (has : table.Has returned) :
    files.store.isSome = true ∧ files.lock = true := by
  rcases keeps with ⟨_, rfl⟩ | ⟨bytes, _, store, _, lock⟩
  · exact absurd has (Table.not_has_empty returned)
  · exact ⟨by rw [store]; rfl, lock⟩

theorem Keeps.absent {files : Files} {table : Table} (keeps : Keeps host files table)
    (absent : files.store = none) : table = .empty := by
  rcases keeps with ⟨_, empty⟩ | ⟨bytes, _, store, _⟩
  · exact empty
  · rw [store] at absent
    exact nomatch absent

/-- What no call takes back: the mode of the directory, the lock file, and the table. -/
structure Files.Grows (files files' : Files) : Prop where
  host : files.hostMode = some 0o700 → files'.hostMode = some 0o700
  lock : files.lock = true → files'.lock = true
  store : files.store.isSome = true → files'.store.isSome = true

theorem Files.Grows.refl (files : Files) : files.Grows files := ⟨id, id, id⟩

theorem Files.Grows.trans {files files' files'' : Files} (grows : files.Grows files')
    (grows' : files'.Grows files'') : files.Grows files'' :=
  ⟨grows'.host ∘ grows.host, grows'.lock ∘ grows.lock, grows'.store ∘ grows.store⟩

theorem Keeps.mono {files files' : Files} {table : Table} (keeps : Keeps host files table)
    (grows : files.Grows files') (same : files'.store = files.store) : Keeps host files' table := by
  rcases keeps with ⟨none, empty⟩ | ⟨bytes, encoded, store, mode, lock⟩
  · exact .inl ⟨same.trans none, empty⟩
  · exact .inr ⟨bytes, encoded, same.trans store, grows.host mode, grows.lock lock⟩

/-- A writer has the directory private and the lock file made, or is going to. -/
def Prepared (files : Files) (steps : List Opening) : Prop :=
  (.chmodHost ∈ steps ∨ files.hostMode = some 0o700) ∧ (.createLock ∈ steps ∨ files.lock = true)

/-- How far the writing of a table has come. -/
inductive Writes (host : Host) (files : Files) (table : Table) (temp : Text) (new : Table) :
    List WriteStep → Prop where
  | begun (grows : table.entries <+: new.entries) :
      Writes host files table temp new (writeSteps host new)
  | created {mode : Nat} (grows : table.entries <+: new.entries)
      (file : files.temps.get? temp = some ⟨[], mode⟩) :
      Writes host files table temp new [.chmodTemp, .write (serialized host new), .sync, .replace,
        .chmodStore, .syncDirectory]
  | closed (grows : table.entries <+: new.entries)
      (file : files.temps.get? temp = some ⟨[], 0o600⟩) :
      Writes host files table temp new [.write (serialized host new), .sync, .replace, .chmodStore,
        .syncDirectory]
  | filled {bytes : Bytes} (grows : table.entries <+: new.entries)
      (encoded : CodePoint.encode (serialized host new) = some bytes)
      (file : files.temps.get? temp = some ⟨bytes, 0o600⟩) :
      Writes host files table temp new [.sync, .replace, .chmodStore, .syncDirectory]
  | synced {bytes : Bytes} (grows : table.entries <+: new.entries)
      (encoded : CodePoint.encode (serialized host new) = some bytes)
      (file : files.temps.get? temp = some ⟨bytes, 0o600⟩) :
      Writes host files table temp new [.replace, .chmodStore, .syncDirectory]
  | replaced (same : new = table) : Writes host files table temp new [.chmodStore, .syncDirectory]
  | settled (same : new = table) : Writes host files table temp new [.syncDirectory]
  | done (same : new = table) : Writes host files table temp new []

/-- The answer of a call that has written its table. -/
def Due (new : Table) : Task → Outcome → Prop
  | .initialize', .ready => True
  | .getOrCreate refs source, .ref text => new.Has (refs, source.val, text)
  | _, _ => False

/-- Nothing had been returned that spares the call its write. -/
def Unknown (known : List Returned) : Task → Prop
  | .initialize' => known = []
  | .getOrCreate refs source => ∀ text, (refs, source.val, text) ∉ known
  | .resolve _ _ => True

def StageOk (host : Host) (files : Files) (table : Table) (task : Task) (known : List Returned) :
    Stage → Prop
  | .called => True
  | .guarding => task.mode = .exclusive ∧ known = []
  | .opening steps => task.mode = .exclusive → Prepared files steps
  | .waiting => task.mode = .exclusive → Prepared files []
  | .locked => task.mode = .exclusive → Prepared files []
  | .lockedGuarding => task.mode = .exclusive ∧ Prepared files [] ∧ known = [] ∧ files.store = none
  | .writing temp new steps answer => task.mode = .exclusive ∧ Prepared files [] ∧
      Writes host files table temp new steps ∧ Due new task answer ∧ Unknown known task
  | .cleaning _ => task.mode = .exclusive ∧ Unknown known task

/-- The errors that say that something is not there; the others say that the table cannot be read,
or that the arguments are not valid. -/
def StoreError.isAbsence : StoreError → Bool
  | .corruptExperiment => true
  | .unavailable => true
  | .notRegular => true
  | .unknown _ => true
  | _ => false

/-- A call gave the answer that had been given before, unless a system call outside the writing of
the table failed. -/
def Faithful (known : List Returned) (task : Task) (outcome : Outcome) : Prop :=
  match task with
  | .initialize' => known ≠ [] → outcome = .ready ∨ outcome = .failed false
  | .getOrCreate refs source => ∀ text, (refs, source.val, text) ∈ known →
      outcome = .ref text ∨ outcome = .failed false
  | .resolve refs ref => ∀ source, (refs, source, refText ref) ∈ known →
      outcome = .source source ∨ outcome = .failed false

/-- How a call may end. -/
structure Right (table : Table) (task : Task) (known : List Returned) (outcome : Outcome) :
    Prop where
  returned : ∀ returned ∈ task.returns outcome, table.Has returned
  resolved : ∀ {refs ref source}, task = .resolve refs ref → outcome = .source source →
    table.Has (refs, source, refText ref)
  readable : ∀ {error}, outcome = .raised error → error.isAbsence = true
  faithful : Faithful known task outcome

theorem Right.mono {table table' : Table} {task : Task} {known : List Returned} {outcome : Outcome}
    (right : Right table task known outcome) (grows : table.entries <+: table'.entries) :
    Right table' task known outcome where
  returned r member := (right.returned r member).mono grows
  resolved same same' := (right.resolved same same').mono grows
  readable := right.readable
  faithful := right.faithful

theorem right_failed (table : Table) (task : Task) (known : List Returned) (writing : Bool)
    (unknown : writing = true → Unknown known task ∧ task.mode = .exclusive) :
    Right table task known (.failed writing) where
  returned := nofun
  resolved := nofun
  readable := nofun
  faithful := by
    cases writing with
    | false => cases task <;> exact fun _ => by simp
    | true =>
      have ⟨unknown, writes⟩ := unknown rfl
      cases task with
      | initialize' => exact fun some => absurd unknown some
      | getOrCreate refs source => exact fun text before => absurd before (unknown text)
      | resolve refs ref => exact nomatch writes

def NextOk (host : Host) (files : Files) (table : Table) (task : Task) (known : List Returned) :
    Next → Prop
  | .goes stage => StageOk host files table task known stage
  | .ends outcome => Right table task known outcome

/-- What a step of a call at a stage leads to: the table may have grown, and only a writer that
holds the lock changes the table or what is written beside it. -/
structure Leads (host : Host) (files : Files) (table : Table) (task : Task) (known : List Returned)
    (stage : Stage) (files' : Files) (table' : Table) (next : Next) : Prop where
  keeps : Keeps host files' table'
  prefix' : table.entries <+: table'.entries
  grows : files.Grows files'
  alone : files'.store = files.store ∧ files'.temps = files.temps ∧ table' = table ∨
    stage.isLocked = true ∧ task.mode = .exclusive
  ok : NextOk host files' table' task known next

section Call

variable {files files' : Files} {table : Table} {task : Task} {known : List Returned}
  {stage : Stage} {next : Next} {draws : Draws}

theorem Leads.still (keeps : Keeps host files table)
    (ok : NextOk host files table task known next) :
    Leads host files table task known stage files table next :=
  ⟨keeps, List.prefix_refl _, .refl files, .inl ⟨rfl, rfl, rfl⟩, ok⟩

theorem Leads.opened (keeps : Keeps host files table) (grows : files.Grows files')
    (same : files'.store = files.store ∧ files'.temps = files.temps)
    (ok : NextOk host files' table task known next) :
    Leads host files table task known stage files' table next :=
  ⟨keeps.mono grows same.1, List.prefix_refl _, grows, .inl ⟨same.1, same.2, rfl⟩, ok⟩

variable {refs : RefNamespace} {source : Source}

theorem ofSource?_has {entry : Entry} (found : table.ofSource? refs source = some entry) :
    table.Has (refs, source.val, entry.refText) := by
  have member := List.mem_of_find?_eq_some found
  have same := List.find?_some found
  simp only [Bool.and_eq_true, decide_eq_true_eq] at same
  have ⟨refs, source⟩ := same
  exact ⟨entry, member, by rw [refs, source]⟩

theorem ofRef?_has {text : PyStr} {entry : Entry} (found : table.ofRef? refs text = some entry) :
    table.Has (refs, entry.source.val, text) := by
  have member := List.mem_of_find?_eq_some found
  have same := List.find?_some found
  simp only [Bool.and_eq_true, decide_eq_true_eq] at same
  have ⟨refs, text⟩ := same
  exact ⟨entry, member, by rw [refs, text]⟩

theorem obtain'_cases (moves : obtain' host draws table refs source = some next) :
    (∃ entry, table.ofSource? refs source = some entry ∧ next = .ends (.ref entry.refText)) ∨
      table.ofSource? refs source = none ∧
        ∃ (ref : AgentRef refs) (fresh : ∀ e ∈ table.entries, e.Apart ⟨refs, source, ref⟩),
          next = .goes (.writing draws.temp (table.append ⟨refs, source, ref⟩ fresh)
            (writeSteps host (table.append ⟨refs, source, ref⟩ fresh)) (.ref (refText ref))) := by
  rw [obtain'] at moves
  split at moves
  · rename_i entry found
    exact .inl ⟨entry, found, (Option.some.inj moves).symm⟩
  · rename_i absent
    have ⟨⟨ref, fresh⟩, _, same⟩ := Option.map_eq_some_iff.mp moves
    exact .inr ⟨absent, ref, table.apart_of_absent absent fresh, same.symm⟩

theorem obtain'_ok (keeps : Keeps host files table) (had : ∀ r ∈ known, table.Has r)
    (prepared : Prepared files []) (moves : obtain' host draws table refs source = some next) :
    Leads host files table (.getOrCreate refs source) known stage files table next := by
  refine .still keeps ?_
  rcases obtain'_cases moves with ⟨entry, found, rfl⟩ | ⟨absent, ref, fresh, rfl⟩
  · have has := ofSource?_has found
    refine ⟨?_, nofun, nofun, ?_⟩
    · intro returned member
      rw [Task.returns, List.mem_singleton] at member
      rwa [member]
    · intro text before
      have same := ((had _ before).iff has).mp ⟨rfl, rfl⟩
      exact .inl (by rw [same])
  · refine ⟨rfl, prepared, .begun (List.prefix_append _ _), ?_, ?_⟩
    · exact ⟨⟨refs, source, ref⟩, List.mem_append_right _ List.mem_cons_self, rfl⟩
    · intro text before
      have ⟨e, member, same⟩ := had _ before
      have ⟨refs, rest⟩ := Prod.mk.inj same
      exact (fresh e member).1 ⟨refs, Subtype.ext (Prod.mk.inj rest).1⟩

theorem raised_ok (table : Table) {error : StoreError} (absence : error.isAbsence = true)
    (faithful : Faithful known task (.raised error)) :
    Right table task known (.raised error) where
  returned := nofun
  resolved := nofun
  readable same := Outcome.raised.inj same ▸ absence
  faithful := faithful

theorem known_eq_nil (keeps : Keeps host files table) (had : ∀ r ∈ known, table.Has r)
    (absent : files.store.isSome = false ∨ files.lock = false) : known = [] := by
  cases known with
  | nil => rfl
  | cons returned known =>
    have ⟨there, lock⟩ := keeps.there (had returned List.mem_cons_self)
    rcases absent with absent | absent
    · rw [there] at absent
      exact nomatch absent
    · rw [lock] at absent
      exact nomatch absent

theorem faithful_nil (task : Task) (outcome : Outcome) : Faithful [] task outcome := by
  cases task with
  | initialize' => exact fun some => absurd rfl some
  | getOrCreate refs source => exact nofun
  | resolve refs ref => exact nofun

theorem body_ok (keeps : Keeps host files table) (had : ∀ r ∈ known, table.Has r)
    (prepared : task.mode = .exclusive → Prepared files [])
    (moves : body host draws files task = some next) :
    Leads host files table task known stage files table next := by
  have guards : files.store.isSome = false → task.mode = .exclusive →
      Leads host files table task known stage files table (.goes .lockedGuarding) := by
    intro absent writes
    refine .still keeps ⟨writes, prepared writes, known_eq_nil keeps had (.inl absent), ?_⟩
    simpa using absent
  cases task with
  | initialize' =>
    rw [body] at moves
    split at moves
    · rename_i there
      rw [keeps.read there] at moves
      rw [← Option.some.inj moves]
      exact .still keeps ⟨by simp [Task.returns], by simp, by simp, fun _ => .inl rfl⟩
    · rename_i absent
      rw [← Option.some.inj moves]
      exact guards (by simpa using absent) rfl
  | getOrCreate refs source =>
    rw [body] at moves
    split at moves
    · rename_i there
      rw [keeps.read there] at moves
      exact obtain'_ok keeps had (prepared rfl) moves
    · rename_i absent
      rw [← Option.some.inj moves]
      exact guards (by simpa using absent) rfl
  | resolve refs ref =>
    rw [body] at moves
    by_cases there : files.store.isSome = true
    · rw [keeps.read there] at moves
      simp only at moves
      cases found : table.ofRef? refs (refText ref) with
      | some entry =>
        rw [found] at moves
        rw [← Option.some.inj moves]
        have has := ofRef?_has found
        refine .still keeps ⟨by simp [Task.returns], ?_, by simp, ?_⟩
        · intro refs' ref' source same same'
          cases same
          cases same'
          exact has
        · intro source before
          have same := ((had _ before).iff has).mpr rfl
          exact .inl (by rw [same.2])
      | none =>
        rw [found] at moves
        rw [← Option.some.inj moves]
        refine .still keeps (raised_ok table rfl ?_)
        intro source before
        obtain ⟨e, member, same⟩ := had _ before
        obtain ⟨sameRefs, rest⟩ := Prod.mk.inj same
        have other := List.find?_eq_none.mp found e member
        simp only [Bool.and_eq_true, decide_eq_true_eq, not_and] at other
        exact absurd (Prod.mk.inj rest).2 (other sameRefs)
    · have absent : files.store = none := by simpa using there
      have unread : readUnlocked host files = .error .notRegular := by rw [readUnlocked, absent]
      rw [unread] at moves
      rw [← Option.some.inj moves, known_eq_nil keeps had (.inl (by simpa using there))]
      exact .still keeps (raised_ok table rfl (faithful_nil _ _))

theorem corrupt_ok (keeps : Keeps host files table) (nothing : known = []) :
    Leads host files table task known stage files table (.ends (.raised .corruptExperiment)) :=
  .still keeps (raised_ok table rfl (nothing ▸ faithful_nil _ _))

theorem begin'_ok (keeps : Keeps host files table) (absent : files.store = none)
    (nothing : known = []) (prepared : Prepared files [])
    (moves : begin' host draws task = some next) :
    Leads host files table task known stage files table next := by
  have empty := keeps.absent absent
  rw [nothing]
  cases task with
  | initialize' =>
    rw [begin', Option.some.injEq] at moves
    rw [← moves]
    refine .still keeps ⟨rfl, prepared, ?_, trivial, rfl⟩
    rw [empty]
    exact .begun (List.prefix_refl _)
  | getOrCreate refs source =>
    rw [empty] at keeps ⊢
    exact obtain'_ok keeps nofun prepared moves
  | resolve refs ref => exact nomatch moves

theorem opened_ok {step : Opening} {rest : List Opening} (keeps : Keeps host files table)
    (prepared : task.mode = .exclusive → Prepared files (step :: rest))
    (opens : files.opened host step = some files') :
    Leads host files table task known stage files' table (.goes (.opening rest)) := by
  cases step with
  | makeHost =>
    rw [Files.opened, Option.some.injEq] at opens
    rw [← opens]
    have kept : files.hostMode = some 0o700 →
        some (files.hostMode.getD host.newDirectory) = some 0o700 := fun mode => by rw [mode]; rfl
    refine .opened keeps ⟨kept, id, id⟩ ⟨rfl, rfl⟩ fun writes => ?_
    have ⟨mode, lock⟩ := prepared writes
    exact ⟨(by simpa using mode : _ ∨ _).imp_right kept, by simpa using lock⟩
  | chmodHost =>
    have ⟨mode, there, same⟩ := Option.map_eq_some_iff.mp opens
    rw [← same]
    refine .opened keeps ⟨fun _ => rfl, id, id⟩ ⟨rfl, rfl⟩ fun writes => ?_
    exact ⟨.inr rfl, by simpa using (prepared writes).2⟩
  | createLock =>
    have ⟨mode, there, same⟩ := Option.map_eq_some_iff.mp opens
    rw [← same]
    refine .opened keeps ⟨id, fun _ => rfl, id⟩ ⟨rfl, rfl⟩ fun writes => ?_
    exact ⟨by simpa using (prepared writes).1, .inr rfl⟩
  | openLock =>
    rw [Files.opened] at opens
    split at opens
    · rw [← Option.some.inj opens]
      refine .opened keeps (.refl files) ⟨rfl, rfl⟩ fun writes => ?_
      have ⟨mode, lock⟩ := prepared writes
      exact ⟨by simpa using mode, by simpa using lock⟩
    · exact nomatch opens

theorem Prepared.of_eq {steps : List Opening} (prepared : Prepared files steps)
    (grows : files.Grows files') : Prepared files' steps :=
  ⟨prepared.1.imp_right grows.host, prepared.2.imp_right grows.lock⟩

variable {step : WriteStep} {temp : Text}

theorem written_ok {new : Table} {rest : List WriteStep} {answer : Outcome}
    (keeps : Keeps host files table) (writes : task.mode = .exclusive)
    (prepared : Prepared files []) (progress : Writes host files table temp new (step :: rest))
    (due : Due new task answer) (unknown : Unknown known task)
    (done : files.written host temp step = some files') :
    ∃ table', Leads host files table task known (.writing temp new (step :: rest) answer) files'
      table' (.goes (.writing temp new rest answer)) := by
  have ready : files.hostMode = some 0o700 ∧ files.lock = true := by simpa [Prepared] using prepared
  -- only what is written beside the table changes
  have beside : ∀ {temps : Dict Text File} {rest : List WriteStep},
      files' = { files with temps } → Writes host files' table temp new rest →
      ∃ table', Leads host files table task known (.writing temp new (step :: rest) answer) files'
        table' (.goes (.writing temp new rest answer)) := by
    rintro temps rest rfl progress
    exact ⟨table, keeps.mono ⟨id, id, id⟩ rfl, List.prefix_refl _, ⟨id, id, id⟩,
      .inr ⟨rfl, writes⟩, writes, prepared.of_eq ⟨id, id, id⟩, progress, due, unknown⟩
  cases progress with
  | begun grows =>
    rw [Files.written] at done
    split at done
    · exact nomatch done
    · have same := (Option.some.inj done).symm
      exact beside same (.created grows (by rw [same, Dict.get?_set_self]))
  | created grows file =>
    rw [Files.written, file, Option.map_some, Option.some.injEq] at done
    exact beside done.symm (.closed grows (by rw [← done, Dict.get?_set_self]))
  | closed grows file =>
    rw [Files.written, file] at done
    have ⟨file, first, wrote⟩ := Option.bind_eq_some_iff.mp done
    have ⟨bytes, encoded, same⟩ := Option.bind_eq_some_iff.mp wrote
    have same := Option.some.inj same
    refine beside same.symm (.filled grows encoded ?_)
    rw [← same, Dict.get?_set_self, ← Option.some.inj first]
    rfl
  | filled grows encoded file =>
    have same : files' = files := (Option.some.inj done).symm
    exact beside same (.synced grows encoded (by rw [same, file]))
  | synced grows encoded file =>
    rw [Files.written, file, Option.map_some, Option.some.injEq] at done
    have still : files.Grows files' := by
      rw [← done]
      exact ⟨id, id, fun _ => rfl⟩
    refine ⟨new, .inr ⟨_, encoded, by rw [← done], still.host ready.1, still.lock ready.2⟩, grows,
      still, .inr ⟨rfl, writes⟩, writes, prepared.of_eq still, .replaced rfl, due, unknown⟩
  | replaced same =>
    have ⟨file, store, same'⟩ := Option.map_eq_some_iff.mp done
    have unchanged : files'.store = files.store := by
      rcases keeps with ⟨none, _⟩ | ⟨bytes, _, kept, _⟩
      · exact nomatch none.symm.trans store
      · have alike := Option.some.inj (store.symm.trans kept)
        rw [← same', kept, alike]
    have grows : files.Grows files' := by
      rw [← same']
      exact ⟨id, id, fun _ => rfl⟩
    exact ⟨table, keeps.mono grows unchanged, List.prefix_refl _, grows, .inr ⟨rfl, writes⟩, writes,
      prepared.of_eq grows, .settled same, due, unknown⟩
  | settled same =>
    have still : files' = files := (Option.some.inj done).symm
    rw [still]
    exact ⟨table, keeps, List.prefix_refl _, .refl files, .inr ⟨rfl, writes⟩, writes, prepared,
      .done same, due, unknown⟩

theorem torn_ok (left : files' ∈ files.torn temp step) :
    files'.store = files.store ∧ files.Grows files' := by
  have still : files' ∈ [files] → files'.store = files.store ∧ files.Grows files' := by
    intro here
    rw [List.mem_singleton.mp here]
    exact ⟨rfl, .refl files⟩
  cases step with
  | write text =>
    rw [Files.torn] at left
    split at left
    · rcases List.mem_cons.mp left with here | some
      · exact still (List.mem_singleton.mpr here)
      · have ⟨n, _, same⟩ := List.mem_map.mp some
        rw [← same]
        exact ⟨rfl, ⟨id, id, id⟩⟩
    · exact still left
  | _ => exact still left

theorem torn_leads (keeps : Keeps host files table) (writes : task.mode = .exclusive)
    (locked : stage.isLocked = true) (left : files' ∈ files.torn temp step)
    (ok : NextOk host files' table task known next) :
    Leads host files table task known stage files' table next :=
  have ⟨same, grows⟩ := torn_ok left
  ⟨keeps.mono grows same, List.prefix_refl _, grows, .inr ⟨locked, writes⟩, ok⟩

theorem due_right {answer : Outcome} (due : Due table task answer) (unknown : Unknown known task) :
    Right table task known answer := by
  cases task with
  | initialize' =>
    cases answer with
    | ready => exact ⟨nofun, nofun, nofun, fun _ => .inl rfl⟩
    | _ => exact due.elim
  | getOrCreate refs source =>
    cases answer with
    | ref text =>
      refine ⟨?_, nofun, nofun, fun text before => absurd before (unknown text)⟩
      intro returned member
      rw [Task.returns, List.mem_singleton] at member
      rwa [member]
    | _ => exact due.elim
  | resolve refs ref => cases answer <;> exact due.elim

theorem advance_ok {isFree : Bool} (keeps : Keeps host files table)
    (had : ∀ r ∈ known, table.Has r) (ok : StageOk host files table task known stage)
    (moves : advance host isFree draws files task stage = some (files', next)) :
    ∃ table', Leads host files table task known stage files' table' next := by
  have same : ∀ {next' : Next}, some (files, next') = some (files', next) →
      NextOk host files table task known next' →
      ∃ table', Leads host files table task known stage files' table' next := by
    intro next' moves ok
    cases moves
    exact ⟨table, .still keeps ok⟩
  have creates : ∀ {stage : Stage}, task.mode = .exclusive → NextOk host files table task known
      (.goes (.opening creating)) :=
    fun _ _ => ⟨.inl (by simp [creating]), .inl (by simp [creating])⟩
  cases stage with
  | called =>
    cases task with
    | resolve refs ref =>
      rw [advance] at moves
      split at moves
      · exact same moves nofun
      · rename_i absent
        refine same moves (raised_ok table rfl ?_)
        rw [known_eq_nil keeps had (.inr (by simpa using absent))]
        exact faithful_nil _ _
    | initialize' =>
      simp only [advance] at moves
      split at moves
      · exact same moves (@creates .called rfl)
      · rename_i absent
        exact same moves ⟨rfl, known_eq_nil keeps had (.inl (by simpa using absent))⟩
    | getOrCreate refs source =>
      simp only [advance] at moves
      split at moves
      · exact same moves (@creates .called rfl)
      · rename_i absent
        exact same moves ⟨rfl, known_eq_nil keeps had (.inl (by simpa using absent))⟩
  | guarding =>
    have ⟨writes, nothing⟩ := ok
    rw [advance] at moves
    split at moves
    · cases moves
      exact ⟨table, corrupt_ok keeps nothing⟩
    · exact same moves (@creates .called writes)
  | opening steps =>
    cases steps with
    | nil => exact same moves ok
    | cons step rest =>
      rw [advance] at moves
      split at moves
      · rename_i files'' opens
        cases moves
        exact ⟨table, opened_ok keeps ok opens⟩
      · exact same moves (right_failed table task known false nofun)
  | waiting =>
    rw [advance] at moves
    split at moves
    · exact same moves ok
    · exact nomatch moves
  | locked =>
    have ⟨next', body', moved⟩ := Option.map_eq_some_iff.mp moves
    cases moved
    exact ⟨table, body_ok keeps had ok body'⟩
  | lockedGuarding =>
    have ⟨writes, prepared, nothing, absent⟩ := ok
    rw [advance] at moves
    split at moves
    · cases moves
      exact ⟨table, corrupt_ok keeps nothing⟩
    · have ⟨next', begins, moved⟩ := Option.map_eq_some_iff.mp moves
      cases moved
      exact ⟨table, begin'_ok keeps absent nothing prepared begins⟩
  | writing temp new steps answer =>
    have ⟨writes, prepared, progress, due, unknown⟩ := ok
    cases steps with
    | nil =>
      cases progress with
      | done alike =>
        rw [alike] at due
        exact same moves (due_right due unknown)
    | cons step rest =>
      rw [advance] at moves
      split at moves
      · rename_i files'' wrote
        cases moves
        exact written_ok keeps writes prepared progress due unknown wrote
      · exact same moves ⟨writes, unknown⟩
  | cleaning temp =>
    have ⟨writes, unknown⟩ := ok
    cases moves
    exact ⟨table, keeps.mono ⟨id, id, id⟩ rfl, List.prefix_refl _, ⟨id, id, id⟩, .inr ⟨rfl, writes⟩,
      right_failed table task known true fun _ => ⟨unknown, writes⟩⟩

theorem faults_ok (keeps : Keeps host files table) (ok : StageOk host files table task known stage)
    (fault : (files', next) ∈ faults files stage) :
    Leads host files table task known stage files' table next := by
  have outside : (files', next) ∈ [(files, Next.ends (.failed false))] →
      Leads host files table task known stage files' table next := by
    intro here
    cases List.mem_singleton.mp here
    exact .still keeps (right_failed table task known false nofun)
  have inside : Unknown known task ∧ task.mode = .exclusive →
      (files', next) ∈ [(files, Next.ends (.failed true))] →
      Leads host files table task known stage files' table next := by
    intro writer here
    cases List.mem_singleton.mp here
    exact .still keeps (right_failed table task known true fun _ => writer)
  cases stage with
  | writing temp new steps answer =>
    have ⟨writes, prepared, progress, due, unknown⟩ := ok
    cases steps with
    | nil => exact inside ⟨unknown, writes⟩ fault
    | cons step rest =>
      have ⟨files'', left, same⟩ := List.mem_map.mp fault
      cases same
      exact torn_leads keeps writes rfl left ⟨writes, unknown⟩
  | cleaning temp => exact inside ⟨ok.2, ok.1⟩ fault
  | _ => exact outside fault

theorem remains_ok (keeps : Keeps host files table) (ok : StageOk host files table task known stage)
    (left : files' ∈ remains files stage) :
    Leads host files table task known stage files' table (.ends (.failed false)) := by
  have failed := right_failed table task known false nofun
  have outside : files' ∈ [files] →
      Leads host files table task known stage files' table (.ends (.failed false)) := by
    intro here
    rw [List.mem_singleton.mp here]
    exact .still keeps failed
  cases stage with
  | writing temp new steps answer =>
    cases steps with
    | nil => exact outside left
    | cons step rest => exact torn_leads keeps ok.1 rfl left failed
  | _ => exact outside left

end Call

theorem Writes.of_temps {files files' : Files} {table new : Table} {temp : Text}
    {steps : List WriteStep} (progress : Writes host files table temp new steps)
    (same : files'.temps = files.temps) : Writes host files' table temp new steps := by
  cases progress with
  | begun grows => exact .begun grows
  | created grows file => exact .created grows (same ▸ file)
  | closed grows file => exact .closed grows (same ▸ file)
  | filled grows encoded file => exact .filled grows encoded (same ▸ file)
  | synced grows encoded file => exact .synced grows encoded (same ▸ file)
  | replaced alike => exact .replaced alike
  | settled alike => exact .settled alike
  | done alike => exact .done alike

theorem StageOk.frame {files files' : Files} {table table' : Table} {task : Task}
    {known : List Returned} {stage : Stage} (ok : StageOk host files table task known stage)
    (grows : files.Grows files')
    (apart : files'.store = files.store ∧ files'.temps = files.temps ∧ table' = table ∨
      stage.isLocked = false) : StageOk host files' table' task known stage := by
  cases stage with
  | called => trivial
  | guarding => exact ok
  | opening steps => exact fun writes => (ok writes).of_eq grows
  | waiting => exact fun writes => (ok writes).of_eq grows
  | locked => exact fun writes => (ok writes).of_eq grows
  | lockedGuarding =>
    have ⟨writes, prepared, nothing, absent⟩ := ok
    rcases apart with ⟨store, _⟩ | unlocked
    · exact ⟨writes, prepared.of_eq grows, nothing, store.trans absent⟩
    · exact nomatch unlocked
  | writing temp new steps answer =>
    have ⟨writes, prepared, progress, due, unknown⟩ := ok
    rcases apart with ⟨_, temps, rfl⟩ | unlocked
    · exact ⟨writes, prepared.of_eq grows, progress.of_temps temps, due, unknown⟩
    · exact nomatch unlocked
  | cleaning temp => exact ok

variable {ι : Type} [DecidableEq ι]

/-- What holds of every state that the processes reach: the files hold a table, and it has all
that has been returned. -/
structure Kept (host : Host) (s : State ι) (table : Table) : Prop where
  keeps : Keeps host s.files table
  returned : ∀ r ∈ s.returned, table.Has r
  apart : Locks.Apart holds s.procs
  procs : ∀ i proc, s.procs.get? i = some proc →
    (∀ r ∈ proc.known, table.Has r) ∧ StageOk host s.files table proc.task proc.known proc.stage
  endings : ∀ ending ∈ s.endings, Right table ending.task ending.known ending.outcome

section Run

variable {s s' : State ι} {table table' : Table} {i : ι} {proc : Proc} {files : Files} {next : Next}

theorem Kept.others (kept : Kept host s table) (present : s.procs.get? i = some proc)
    (leads : Leads host s.files table proc.task proc.known proc.stage files table' next)
    {j : ι} {other : Proc} (found : s.procs.get? j = some other) (apart : i ≠ j) :
    (∀ r ∈ other.known, table'.Has r) ∧
      StageOk host files table' other.task other.known other.stage := by
  have ⟨had, ok⟩ := kept.procs j other found
  refine ⟨fun r member => (had r member).mono leads.prefix', ok.frame leads.grows ?_⟩
  rcases leads.alone with same | ⟨locked, writes⟩
  · exact .inl same
  · have exclusive : holds proc () = some .exclusive := by rw [holds, if_pos locked, writes]
    refine .inr (Bool.eq_false_iff.mpr fun held => ?_)
    have some : holds other () ≠ none := by
      rw [holds, if_pos held]
      exact nofun
    exact apart (kept.apart.eq_of_exclusive present found exclusive some)

/-- A process takes the lock only when it is free to it. -/
def Takes (isFree : Bool) (stage : Stage) : Next → Prop
  | .goes stage' => stage'.isLocked = true → stage.isLocked = true ∨ isFree = true
  | .ends _ => True

theorem advance_takes {isFree : Bool} {draws : Draws} {files' : Files} {task : Task} {stage : Stage}
    (moves : advance host isFree draws files task stage = some (files', next)) :
    Takes isFree stage next := by
  cases next with
  | ends outcome => trivial
  | goes stage' =>
    intro taken
    cases stage with
    | waiting =>
      rw [advance] at moves
      split at moves
      · rename_i free
        exact .inr free
      · exact nomatch moves
    | locked => exact .inl rfl
    | lockedGuarding => exact .inl rfl
    | writing temp new steps answer => exact .inl rfl
    | cleaning temp => exact .inl rfl
    | called =>
      cases task <;>
      · simp only [advance] at moves
        split at moves <;> cases moves <;> exact nomatch taken
    | guarding =>
      rw [advance] at moves
      split at moves <;> cases moves
      exact nomatch taken
    | opening steps =>
      cases steps with
      | nil =>
        cases moves
        exact nomatch taken
      | cons step rest =>
        rw [advance] at moves
        split at moves <;> cases moves
        exact nomatch taken

theorem faults_takes {files' : Files} {stage : Stage} (fault : (files', next) ∈ faults files stage)
    (isFree : Bool) : Takes isFree stage next := by
  cases next with
  | ends outcome => trivial
  | goes stage' =>
    intro _
    cases stage with
    | writing temp new steps answer => exact .inl rfl
    | cleaning temp => exact .inl rfl
    | _ => cases List.mem_singleton.mp fault

theorem Kept.after (kept : Kept host s table) (present : s.procs.get? i = some proc)
    (leads : Leads host s.files table proc.task proc.known proc.stage files table' next)
    (takes : Takes (Locks.free holds s.procs i () proc.task.mode) proc.stage next) :
    Kept host (s.after i proc files next) table' := by
  have ⟨had, _⟩ := kept.procs i proc present
  have before : ∀ r ∈ s.returned, table'.Has r := fun r member =>
    (kept.returned r member).mono leads.prefix'
  have endings : ∀ ending ∈ s.endings, Right table' ending.task ending.known ending.outcome :=
    fun ending member => (kept.endings ending member).mono leads.prefix'
  cases next with
  | goes stage =>
    refine ⟨leads.keeps, before, ?_, ?_, endings⟩
    · refine kept.apart.set fun k => ?_
      cases locked : stage.isLocked with
      | false => exact .inl (by simp [holds, locked])
      | true =>
        rcases takes locked with held | free
        · exact .inr (.inl ⟨proc, present, by simp [holds, locked, held]⟩)
        · exact .inr (.inr ⟨proc.task.mode, by simp [holds, locked], free⟩)
    · intro j other found
      rw [State.after, Dict.get?_set] at found
      split at found
      · cases found
        exact ⟨fun r member => (had r member).mono leads.prefix', leads.ok⟩
      · rename_i apart
        exact kept.others present leads found apart
  | ends outcome =>
    have right : Right table' proc.task proc.known outcome := leads.ok
    refine ⟨leads.keeps, ?_, kept.apart.erase i, ?_, ?_⟩
    · intro r member
      rcases List.mem_append.mp member with old | new
      · exact before r old
      · exact right.returned r new
    · intro j other found
      rw [State.after, Dict.get?_erase] at found
      split at found
      · exact nomatch found
      · rename_i apart
        exact kept.others present leads found apart
    · intro ending member
      rcases List.mem_append.mp member with old | new
      · exact endings ending old
      · rw [List.mem_singleton.mp new]
        exact right

theorem after_files : (s.after i proc files next).files = files := by
  cases next <;> rfl

theorem Kept.step (kept : Kept host s table) (step : Step host s s') :
    ∃ table', Kept host s' table' ∧ table.entries <+: table'.entries ∧
      s.files.Grows s'.files := by
  cases step with
  | @call i call task absent valid =>
    refine ⟨table, ⟨kept.keeps, kept.returned, ?_, ?_, kept.endings⟩, List.prefix_refl _, .refl _⟩
    · exact kept.apart.set fun _ => .inl rfl
    · intro j other found
      rw [Dict.get?_set] at found
      split at found
      · cases found
        exact ⟨kept.returned, trivial⟩
      · exact kept.procs j other found
  | @goes i proc draws files next present moves =>
    have ⟨had, ok⟩ := kept.procs i proc present
    have ⟨table', leads⟩ := advance_ok kept.keeps had ok moves
    refine ⟨table', kept.after present leads (advance_takes moves), leads.prefix', ?_⟩
    rw [after_files]
    exact leads.grows
  | @raises i proc files next present fault =>
    have ⟨_, ok⟩ := kept.procs i proc present
    have leads := faults_ok kept.keeps ok fault
    refine ⟨table, kept.after present leads (faults_takes fault _), List.prefix_refl _, ?_⟩
    rw [after_files]
    exact leads.grows
  | @ends i proc files present left =>
    have ⟨_, ok⟩ := kept.procs i proc present
    have leads := remains_ok kept.keeps ok left
    refine ⟨table, ⟨leads.keeps, kept.returned, kept.apart.erase i, ?_, kept.endings⟩,
      List.prefix_refl _, leads.grows⟩
    intro j other found
    rw [Dict.get?_erase] at found
    split at found
    · exact nomatch found
    · rename_i apart
      exact kept.others present leads found apart
  | records work =>
    refine ⟨table, ⟨kept.keeps.mono ⟨id, id, id⟩ rfl, kept.returned, kept.apart, ?_, kept.endings⟩,
      List.prefix_refl _, ⟨id, id, id⟩⟩
    intro j other found
    have ⟨had, ok⟩ := kept.procs j other found
    exact ⟨had, ok.frame ⟨id, id, id⟩ (.inl ⟨rfl, rfl, rfl⟩)⟩

theorem Kept.run (kept : Kept host s table) (reached : Reaches host s s') :
    ∃ table', Kept host s' table' ∧ table.entries <+: table'.entries ∧
      s.files.Grows s'.files := by
  induction reached with
  | refl => exact ⟨table, kept, List.prefix_refl _, .refl _⟩
  | tail _ step ih =>
    have ⟨middle, kept', more, grows⟩ := ih
    have ⟨table', kept'', more', grows'⟩ := kept'.step step
    exact ⟨table', kept'', more.trans more', grows.trans grows'⟩

end Run

/-- Wherever the processes get from an experiment without a table: the table can be read, once it
is there, and from then on no entry of it is lost; what has been returned is in it; a source has
one reference and a reference one source; and a call gave the answer that had been given before,
unless a system call outside the writing of the table failed. -/
theorem references_persist {files : Files} (fresh : files.store = none) {s s' : State ι}
    (reached : Reaches host (.start files) s) (later : Reaches host s s') :
    (s.files.store.isSome = true → ∃ table, readUnlocked host s.files = .ok table) ∧
      (∀ table, readUnlocked host s.files = .ok table →
        (∀ r ∈ s.returned, table.Has r) ∧
          ∃ table', readUnlocked host s'.files = .ok table' ∧ table.entries <+: table'.entries) ∧
      (∀ refs refs' source source' text text', (refs, source, text) ∈ s.returned →
        (refs', source', text') ∈ s.returned →
          ((refs = refs' ∧ source = source') ↔ text = text')) ∧
      ∀ ending ∈ s.endings, Faithful ending.known ending.task ending.outcome ∧
        (∀ error, ending.outcome = .raised error → error.isAbsence = true) ∧
        ∀ refs ref source, ending.task = .resolve refs ref → ending.outcome = .source source →
          ∃ table, readUnlocked host s.files = .ok table ∧
            table.Has (refs, source, refText ref) := by
  have start : Kept host (.start files : State ι) .empty :=
    ⟨.inl ⟨fresh, rfl⟩, by simp [State.start], .empty, by simp [State.start], by simp [State.start]⟩
  obtain ⟨table, kept, _⟩ := start.run reached
  obtain ⟨table', kept', more, grows⟩ := kept.run later
  refine ⟨fun there => ⟨table, kept.keeps.read there⟩, ?_, ?_, ?_⟩
  · intro table'' read
    have there : s.files.store.isSome = true := by
      cases absent : s.files.store with
      | none =>
        rw [readUnlocked, absent] at read
        cases read
      | some file => rfl
    have same := Except.ok.inj ((kept.keeps.read there).symm.trans read)
    rw [← same]
    exact ⟨kept.returned, table', kept'.keeps.read (grows.store there), more⟩
  · intro refs refs' source source' text text' member member'
    exact (kept.returned _ member).iff (kept.returned _ member')
  · intro ending member
    have right := kept.endings ending member
    refine ⟨right.faithful, fun error raised => right.readable raised, ?_⟩
    intro refs ref source same same'
    have has := right.resolved same same'
    exact ⟨table, kept.keeps.read (kept.keeps.there has).1, has⟩

/-- The next step of the only process. -/
def State.turn (host : Host) (draws : Draws) (s : State Unit) : Option (State Unit) := do
  let proc ← s.procs.get? ()
  let (files, next) ← advance host (Locks.free holds s.procs () () proc.task.mode) draws s.files
    proc.task proc.stage
  pure (s.after () proc files next)

theorem reaches_turns (draws : Draws) {turns : List Unit} {s s' : State Unit}
    (ran : turns.foldlM (fun s _ => s.turn host draws) s = some s') : Reaches host s s' := by
  induction turns generalizing s with
  | nil => exact Option.some.inj ran ▸ .refl
  | cons turn turns ih =>
    have ⟨middle, first, rest⟩ := Option.bind_eq_some_iff.mp ran
    have ⟨proc, present, moved⟩ := Option.bind_eq_some_iff.mp first
    have ⟨⟨files, next⟩, moves, same⟩ := Option.bind_eq_some_iff.mp moved
    refine .head ?_ (ih rest)
    rw [← Option.some.inj same]
    exact .goes present moves

def loneHost : Host := ⟨PyValue.lit "trial", [], fun _ => [], fun _ => true, 0o600, 0o700⟩

def loneDraws : Draws :=
  ⟨[⟨"0b0e4a52-7a3c-4c1e-9f5d-2d6a8c1e7f30".toList, by decide⟩], "t".toList⟩

/-- An experiment with nothing in it. -/
def noFiles : Files := ⟨none, false, none, .empty, ⟨none, none, none⟩⟩

def loneTask : Task := .getOrCreate .session ⟨PyValue.lit "s1", by decide⟩

/-- What is returned to a process alone in an experiment with nothing in it can be read back. -/
theorem references_persist_alone : ∃ s : State Unit, Reaches loneHost (.start noFiles) s ∧
    s.returned.length = 1 ∧ ∀ table, readUnlocked loneHost s.files = .ok table →
      ∀ r ∈ s.returned, table.Has r := by
  have called : Step loneHost (.start noFiles : State Unit) _ :=
    .call (rfl : (State.start noFiles : State Unit).procs.get? () = none)
      (rfl : admitted loneHost (.getOrCreate (.str (PyValue.lit "session"))
        (.str (PyValue.lit "s1"))) = .ok loneTask)
  have ran : ((List.replicate 17 ()).foldlM (fun s _ => State.turn loneHost loneDraws s)
      (⟨noFiles, Dict.empty.set () ⟨loneTask, [], .called⟩, [], []⟩ : State Unit)).map
        (·.returned.length) = some 1 := by decide +kernel
  have ⟨s, turns, one⟩ := Option.map_eq_some_iff.mp ran
  have reached : Reaches loneHost (.start noFiles) s := .head called (reaches_turns loneDraws turns)
  exact ⟨s, reached, one, fun table read =>
    ((references_persist rfl reached .refl).2.1 table read).1⟩

end AutoTrade.AgentRefStore
