import AutoTrade.DataSources.Tushare.Retention
import AutoTrade.Misc.Runs
import Mathlib.Data.List.ReduceOption

/-!
# A pinned release stays

A prune that removes releases holds the updater lock from its start and the registry lock
while it reads the consumers and renames. So nothing is recorded between its reading of a
directory and its last rename, and what a directory keeps is kept, or still to be read, or
pinned in a directory under `data` that is still to be read.
-/

namespace AutoTrade

namespace Retention

open ResearchRelease

namespace Place

variable {p : Place} {name g : Text}

/-- A directory holds a pin of a generation. -/
def HasPin (p : Place) (g : Text) : Prop :=
  ∃ slot r, p.pins.get? slot = some (.record r) ∧ r.generation = g

/-- A directory records a generation: a seed or a data directory as long as it does, an
experiment or a book unless it was over while it held a pin. -/
def Protects (p : Place) (g : Text) : Prop :=
  match p.kind with
  | .data provider => provider = .names g ∨ p.HasPin g
  | .experiment _ _ | .book _ => p.lapsed = false ∧ p.HasPin g

/-- A directory that is over and holds a pin has lapsed. -/
def Marked (p : Place) : Prop := p.pins.entries ≠ [] → p.kind.over = true → p.lapsed = true

theorem HasPin.nonempty (has : p.HasPin g) : p.pins.entries ≠ [] := by
  obtain ⟨slot, r, found, -⟩ := has
  exact List.ne_nil_of_mem (Dict.mem_entries_iff.mpr found)

theorem HasPin.pinned (has : p.HasPin g) {pinned : List Text} (read : p.pinned = .ok pinned) :
    g ∈ pinned := by
  obtain ⟨slot, r, found, rfl⟩ := has
  obtain ⟨generations, each, rfl⟩ := except_map_eq_ok.mp read
  have member : Pin.record r ∈ p.pins.values := Dict.mem_values_iff.mpr ⟨slot, found⟩
  obtain ⟨o, there, valid⟩ := mem_of_mapM each member
  obtain ⟨-, -, rfl⟩ := except_map_eq_ok.mp valid
  exact List.reduceOption_mem_iff.mpr there

theorem pinned_generation_isSome (has : p.HasPin g) (open_ : p.kind.over = false)
    {more : List (Text × KeepReason)} (read : p.consumes name = .ok more) :
    g ∈ more.map Prod.fst := by
  unfold consumes at read
  cases kind : p.kind with
  | data provider =>
    simp only [kind, bind_eq_ok, pure_eq_ok] at read
    obtain ⟨seed, -, pinned, all, rfl⟩ := read
    simp [has.pinned all]
  | experiment hidden console =>
    rw [kind] at open_ read
    cases console with
    | none => simp [Kind.over] at open_
    | some c =>
      obtain ⟨rfl, running⟩ : hidden = false ∧ c.ended = false := by simpa [Kind.over] using open_
      simp only [running, Bool.or_self, Bool.false_eq_true, if_false, bind_eq_ok, pure_eq_ok] at read
      obtain ⟨pinned, all, seed, -, rfl⟩ := read
      simp [has.pinned all]
  | book verdict =>
    rw [kind] at open_ read
    cases verdict with
    | stops => cases read
    | unreadable =>
      obtain ⟨pinned, all, rfl⟩ := except_map_eq_ok.mp read
      simp [has.pinned all]
    | status t =>
      have live : t ≠ "killed".toList := by
        rintro rfl
        simp [Kind.over] at open_
      simp only [if_neg live] at read
      obtain ⟨pinned, all, rfl⟩ := except_map_eq_ok.mp read
      simp [has.pinned all]

theorem Protects.consumed (protects : p.Protects g) (marked : p.Marked) (named : g ≠ [])
    {more : List (Text × KeepReason)} (read : p.consumes name = .ok more) :
    g ∈ more.map Prod.fst := by
  unfold Protects at protects
  cases kind : p.kind with
  | data provider =>
    rw [kind] at protects
    rcases protects with rfl | has
    · simp only [consumes, kind, Provider.generation, if_neg named, bind_eq_ok, pure_eq_ok] at read
      obtain ⟨seed, there, pinned, -, rfl⟩ := read
      obtain rfl := Except.ok.inj there
      simp
    · exact pinned_generation_isSome has (by rw [kind]; rfl) read
  | experiment hidden console =>
    rw [kind] at protects
    refine pinned_generation_isSome protects.2 ?_ read
    by_contra isOver
    have lapsed := marked protects.2.nonempty (by simpa using isOver)
    simp [protects.1] at lapsed
  | book verdict =>
    rw [kind] at protects
    refine pinned_generation_isSome protects.2 ?_ read
    by_contra isOver
    have lapsed := marked protects.2.nonempty (by simpa using isOver)
    simp [protects.1] at lapsed

end Place

namespace Lake

variable {lake lake' : Lake} {fromLake : Release → Bool} {i j : Nat} {name g : Text}
  {p : Place} {process : Process} {at_ : PruneAt} {apply : Bool} {todo : List Text}
  {reasons : List (Text × KeepReason)} {out : Option Text}

/-- The generation the raw record names. -/
def RawNames (lake : Lake) (g : Text) : Prop := ∃ state, lake.raw = .record state g

/-- A directory of the lake records a generation. -/
def Holds (lake : Lake) (name g : Text) : Prop :=
  ∃ p, lake.places.get? name = some p ∧ p.Protects g

/-- A directory under `data` has a generation pinned. -/
def DataPin (lake : Lake) (name g : Text) : Prop :=
  ∃ p provider, lake.places.get? name = some p ∧ p.kind = .data provider ∧ p.HasPin g

/-- A release is recorded: by the raw generation record or by a directory. -/
def Protected (lake : Lake) (g : Text) : Prop :=
  g ≠ [] ∧ (lake.RawNames g ∨ ∃ name, lake.Holds name g)

/-- A release is published and complete. -/
def Published (lake : Lake) (g : Text) : Prop :=
  ∃ tree release, lake.releases.get? g = some tree ∧ completeRelease g tree = some release

/-- What a prune that renames has kept when these directories are left to read. -/
structure Kept (lake : Lake) (todo : List Text) (reasons : List (Text × KeepReason)) : Prop where
  raw : ∀ g, g ≠ [] → lake.RawNames g → g ∈ reasons.map Prod.fst
  held : ∀ name g, g ≠ [] → lake.Holds name g →
    g ∈ reasons.map Prod.fst ∨ name ∈ todo ∨ ∃ name' ∈ todo, lake.DataPin name' g

/-- The directories a prune has left to read, and what it has kept. -/
def reads : PruneAt → Option (List Text × List (Text × KeepReason))
  | .reading todo reasons => some (todo, reasons)
  | .retiring _ reasons => some ([], reasons)
  | _ => none

structure Sound (lake : Lake) : Prop where
  apart : Locks.Apart Process.holds lake.procs
  marked : ∀ name p, lake.places.get? name = some p → p.Marked
  dry : ∀ i todo reasons, lake.procs.get? i ≠ some (.prune false (.retiring todo reasons))
  kept : ∀ i at_ todo reasons, lake.procs.get? i = some (.prune true at_) →
    reads at_ = some (todo, reasons) → lake.Kept todo reasons

/-- No prune that renames has read a consumer. -/
def Unreading (lake : Lake) : Prop :=
  ∀ i at_, lake.procs.get? i = some (.prune true at_) → reads at_ = none

theorem registry_of_reads {process : Process} {pair : List Text × List (Text × KeepReason)}
    (is : process = .prune apply at_) (reading : reads at_ = some pair) :
    process.holds .registry = some .exclusive := by
  subst is
  cases at_ with
  | reading | retiring => rfl
  | started | removing => cases reading

theorem Sound.unreading (sound : lake.Sound) (found : lake.procs.get? i = some process)
    (other : ∀ apply at_, process ≠ .prune apply at_)
    (held : process.holds .registry = some .exclusive ∨ process.holds .updater ≠ none) :
    lake.Unreading := by
  intro j at_ prune
  by_contra reading
  obtain ⟨pair, reading⟩ := Option.ne_none_iff_exists'.mp reading
  have same : j = i := by
    rcases held with registry | updater
    · refine (sound.apart.eq_of_exclusive found prune registry ?_).symm
      rw [registry_of_reads rfl reading]
      simp
    · exact sound.apart.eq_of_exclusive prune found rfl updater
  subst same
  rw [prune] at found
  exact other true at_ (Option.some.inj found).symm

theorem unreading_of_free (free : lake.free i .updater .exclusive = true)
    (idle : lake.procs.get? i = none) : lake.Unreading := by
  intro j at_ prune
  have other : i ≠ j := by
    rintro rfl
    rw [idle] at prune
    cases prune
  have fits := Locks.free_spec free prune other
  simp [Process.holds] at fits

theorem Kept.mono (is : lake.Kept todo reasons) (raw : lake'.raw = lake.raw)
    (holds : ∀ name g, lake'.Holds name g → lake.Holds name g ∨ ∃ name', lake.DataPin name' g)
    (pins : ∀ name ∈ todo, ∀ g, lake.DataPin name g → lake'.DataPin name g) :
    lake'.Kept todo reasons where
  raw g named names := is.raw g named (by simpa [RawNames, raw] using names)
  held name g named held := by
    have before : g ∈ reasons.map Prod.fst ∨ name ∈ todo ∨ ∃ name' ∈ todo, lake.DataPin name' g := by
      rcases holds name g held with same | ⟨name', p, provider, found, data, has⟩
      · exact is.held name g named same
      · have bySeed : lake.Holds name' g := ⟨p, found, by simp [Place.Protects, data, has]⟩
        rcases is.held name' g named bySeed with there | left | other
        · exact .inl there
        · exact .inr (.inr ⟨name', left, p, provider, found, data, has⟩)
        · exact .inr (.inr other)
    rcases before with there | left | ⟨name', left, pin⟩
    · exact .inl there
    · exact .inr (.inl left)
    · exact .inr (.inr ⟨name', left, pins name' left g pin⟩)

variable {target : Target} {wants : Option Text} {required : List Text} {pinAt_ next : PinAt}
  {found : Found}

/-- What one step of a pin may do. A pin is recorded under the registry lock or a share of
the updater lock. -/
structure PinStep (lake : Lake) (i : Nat) (target : Target) (wants : Option Text)
    (required : List Text) (pinAt_ : PinAt) (lake' : Lake) (out : Option Text) : Prop where
  procs : lake'.procs = lake.procs.erase i ∨ ∃ next : PinAt,
    lake'.procs = lake.procs.set i (.pin target wants required next) ∧
    ∀ k, (Process.pin target wants required next).holds k = none ∨
      (Process.pin target wants required next).holds k =
        (Process.pin target wants required pinAt_).holds k ∨
      ∃ mode, (Process.pin target wants required next).holds k = some mode ∧
        lake.free i k mode = true
  raw : lake'.raw = lake.raw
  releases : ∀ g tree, lake.releases.get? g = some tree → lake'.releases.get? g = some tree
  loaded : ∀ g ∈ out, lake'.Published g
  places : lake'.places = lake.places ∨ ∃ p pin,
    lake.places.get? target.place = some p ∧
    lake'.places = lake.places.set target.place
      ⟨p.kind, p.pins.set target.slot pin, p.lapsed || p.kind.over⟩ ∧
    ((Process.pin target wants required pinAt_).holds .registry = some .exclusive ∨
      (Process.pin target wants required pinAt_).holds .updater ≠ none)

theorem loadExperimentPin_published {pin : Pin}
    (loaded : loadExperimentPin lake.releases fromLake pin = some g) : lake.Published g := by
  cases pin with
  | unreadable => cases loaded
  | record r =>
    simp only [loadExperimentPin] at loaded
    split at loaded
    · cases loaded
    · rename_i tree found
      split at loaded
      · cases loaded
      · rename_i release complete
        split_ifs at loaded
        obtain rfl := Option.some.inj loaded
        exact ⟨tree, release, found, complete⟩

theorem PinStep.ends (loaded : ∀ g ∈ out, lake.Published g) :
    PinStep lake i target wants required pinAt_ (lake.finish i) out where
  procs := .inl rfl
  raw := rfl
  releases _ _ found := found
  loaded := loaded
  places := .inl rfl

theorem PinStep.stops : PinStep lake i target wants required pinAt_ (lake.finish i) none :=
  .ends fun _ member => nomatch member

theorem PinStep.goes
    (takes : ∀ k, (Process.pin target wants required next).holds k = none ∨
      (Process.pin target wants required next).holds k =
        (Process.pin target wants required pinAt_).holds k ∨
      ∃ mode, (Process.pin target wants required next).holds k = some mode ∧
        lake.free i k mode = true) :
    PinStep lake i target wants required pinAt_
      (lake.setProcess i (.pin target wants required next)) none where
  procs := .inr ⟨next, rfl, takes⟩
  raw := rfl
  releases _ _ found := found
  loaded _ member := nomatch member
  places := .inl rfl

theorem PinStep.records {release : Release} {copied : Bool}
    (held : (Process.pin target wants required pinAt_).holds .registry = some .exclusive ∨
      (Process.pin target wants required pinAt_).holds .updater ≠ none)
    (step : lake.recordPin fromLake i target release copied = (lake', out)) :
    PinStep lake i target wants required pinAt_ lake' out := by
  unfold recordPin at step
  split at step
  · cases step
    exact .stops
  · rename_i p found
    split_ifs at step
    · cases step
      exact .stops
    · cases step
      exact ⟨.inl rfl, rfl, fun _ _ found => found,
        fun g loaded => loadExperimentPin_published loaded,
        .inr ⟨p, _, found, rfl, held⟩⟩

theorem PinStep.publishes {tree : ReleaseTree} (absent : lake.releases.get? g = none)
    (rest : PinStep lake i target wants required pinAt_ lake' none) :
    PinStep lake i target wants required pinAt_
      { lake' with releases := lake.releases.set g tree } none where
  procs := rest.procs
  raw := rest.raw
  releases g' tree' found := by
    have other : g ≠ g' := by
      rintro rfl
      rw [absent] at found
      cases found
    exact (Dict.get?_set_of_ne lake.releases tree other).trans found
  loaded _ member := nomatch member
  places := rest.places

theorem advancePin_spec
    (step : lake.advancePin fromLake i target wants required pinAt_ found = some (lake', out)) :
    PinStep lake i target wants required pinAt_ lake' out := by
  cases pinAt_ with
  | started =>
    simp only [advancePin] at step
    split at step
    · split at step
      · cases step
        exact .stops
      · rename_i loaded
        split_ifs at step
        · cases step
          exact .ends fun g named => loadExperimentPin_published (by rw [loaded, named])
        · cases step
          exact .stops
    · split at step
      · split_ifs at step with isFree
        cases step
        refine .goes fun k => ?_
        cases k with
        | updater => exact .inl rfl
        | registry => exact .inr (.inr ⟨.exclusive, rfl, isFree⟩)
        | pin target' => exact .inr (.inl rfl)
      · split_ifs at step with missing isFree
        · cases step
          exact .stops
        · cases step
          refine .goes fun k => ?_
          cases k with
          | updater => exact .inr (.inr ⟨.shared, rfl, isFree⟩)
          | registry => exact .inl rfl
          | pin target' => exact .inr (.inl rfl)
        · cases step
          exact .goes fun k => .inr (.inl (by cases k <;> rfl))
  | named wanted =>
    simp only [advancePin] at step
    split at step
    · cases step
      exact .stops
    · split_ifs at step
      · exact .records (.inl rfl) (Option.some.inj step)
      · cases step
        exact .stops
  | newest =>
    simp only [advancePin] at step
    split at step
    · cases step
      exact .stops
    · cases step
      exact .stops
    · split at step
      · cases step
        refine .goes fun k => ?_
        cases k with
        | updater => exact .inl rfl
        | registry => exact .inl rfl
        | pin target' => exact .inr (.inl rfl)
      · split_ifs at step with isFree
        cases step
        refine .goes fun k => ?_
        cases k with
        | updater => exact .inr (.inl rfl)
        | registry => exact .inr (.inr ⟨.exclusive, rfl, isFree⟩)
        | pin target' => exact .inr (.inl rfl)
  | publishing generation =>
    have goes : PinStep lake i target wants required (.publishing generation)
        (lake.setProcess i (.pin target wants required (.recording generation))) none := by
      refine .goes fun k => ?_
      cases k with
      | updater => exact .inr (.inl rfl)
      | registry => exact .inl rfl
      | pin target' => exact .inr (.inl rfl)
    simp only [advancePin] at step
    split at step
    · split at step
      · cases step
        exact .stops
      · split_ifs at step
        · cases step
          exact goes
        · cases step
          exact .stops
    · rename_i absent
      split at step
      · cases step
        exact .stops
      · split at step
        · cases step
          exact .publishes absent .stops
        · cases step
          exact .publishes absent goes
  | recording generation =>
    simp only [advancePin] at step
    split at step
    · cases step
      exact .stops
    · exact .records (.inr (by simp [Process.holds])) (Option.some.inj step)
  | fallingBack =>
    simp only [advancePin] at step
    split_ifs at step with isFree
    cases step
    refine .goes fun k => ?_
    cases k with
    | updater => exact .inl rfl
    | registry => exact .inr (.inr ⟨.exclusive, rfl, isFree⟩)
    | pin target' => exact .inr (.inl rfl)
  | fallback =>
    simp only [advancePin] at step
    split at step
    · cases step
      exact .stops
    · exact .records (.inl rfl) (Option.some.inj step)

theorem PinStep.prunes (step : PinStep lake i target wants required pinAt_ lake' out)
    (found : lake'.procs.get? j = some (.prune apply at_)) :
    lake.procs.get? j = some (.prune apply at_) := by
  rcases step.procs with procs | ⟨next, procs, -⟩
  · rw [procs, Dict.get?_erase] at found
    split_ifs at found
    exact found
  · rw [procs, Dict.get?_set] at found
    split_ifs at found
    · cases found
    · exact found

theorem marked_recorded (p : Place) (pins : Dict Text Pin) :
    Place.Marked ⟨p.kind, pins, p.lapsed || p.kind.over⟩ := by
  intro _ isOver
  simp only [isOver, Bool.or_true]

theorem PinStep.sound (sound : lake.Sound)
    (found : lake.procs.get? i = some (.pin target wants required pinAt_))
    (step : PinStep lake i target wants required pinAt_ lake' out) : lake'.Sound where
  apart := by
    rcases step.procs with procs | ⟨next, procs, takes⟩
    · rw [procs]
      exact sound.apart.erase i
    · rw [procs]
      refine sound.apart.set fun k => ?_
      rcases takes k with dropped | same | taken
      · exact .inl dropped
      · exact .inr (.inl ⟨_, found, same⟩)
      · exact .inr (.inr taken)
  marked name p here := by
    rcases step.places with places | ⟨q, pin, there, places, -⟩
    · rw [places] at here
      exact sound.marked name p here
    · rw [places, Dict.get?_set] at here
      split_ifs at here
      · obtain rfl := Option.some.inj here
        exact marked_recorded q _
      · exact sound.marked name p here
  dry j todo reasons retiring := sound.dry j todo reasons (step.prunes retiring)
  kept j at_ todo reasons prune reading := by
    rcases step.places with places | ⟨p, pin, there, places, held⟩
    · refine (sound.kept j at_ todo reasons (step.prunes prune) reading).mono step.raw ?_ ?_
      · intro name g holds
        simpa [Holds, places] using Or.inl holds
      · intro name _ g holds
        simpa [DataPin, places] using holds
    · have unreading : lake.Unreading := sound.unreading found (by simp) held
      rw [unreading j at_ (step.prunes prune)] at reading
      cases reading

theorem Kept.congr (is : lake.Kept todo reasons) (raw : lake'.raw = lake.raw)
    (places : lake'.places = lake.places) : lake'.Kept todo reasons :=
  is.mono raw (fun name g holds => .inl (by simpa [Holds, places] using holds))
    fun name _ g pin => by simpa [DataPin, places] using pin

theorem Sound.finish (sound : lake.Sound) (i : Nat) : (lake.finish i).Sound where
  apart := sound.apart.erase i
  marked := sound.marked
  dry j todo reasons found := by
    rw [Lake.finish, Dict.get?_erase] at found
    split_ifs at found
    exact sound.dry j todo reasons found
  kept j at_ todo reasons found reading := by
    rw [Lake.finish, Dict.get?_erase] at found
    split_ifs at found
    exact (sound.kept j at_ todo reasons found reading).congr rfl rfl

theorem Sound.goes {next : PruneAt} (sound : lake.Sound)
    (procs : lake'.procs = lake.procs.set i (.prune apply next)) (raw : lake'.raw = lake.raw)
    (places : lake'.places = lake.places)
    (takes : ∀ k, (Process.prune apply next).holds k = none ∨
      (∃ process, lake.procs.get? i = some process ∧
        (Process.prune apply next).holds k = process.holds k) ∨
      ∃ mode, (Process.prune apply next).holds k = some mode ∧ lake.free i k mode = true)
    (dry : ∀ todo reasons, next = .retiring todo reasons → apply = true)
    (kept : ∀ todo reasons, apply = true → reads next = some (todo, reasons) →
      lake.Kept todo reasons) : lake'.Sound where
  apart := by
    rw [procs]
    exact sound.apart.set takes
  marked name p here := sound.marked name p (by rw [← places]; exact here)
  dry j todo reasons found := by
    rw [procs, Dict.get?_set] at found
    split_ifs at found
    · have same := Option.some.inj found
      simp only [Process.prune.injEq] at same
      have applies := dry todo reasons same.2
      rw [same.1] at applies
      cases applies
    · exact sound.dry j todo reasons found
  kept j at_ todo reasons found reading := by
    rw [procs, Dict.get?_set] at found
    split_ifs at found
    · have same := Option.some.inj found
      simp only [Process.prune.injEq] at same
      exact (kept todo reasons same.1 (by rw [same.2, reading])).congr raw places
    · exact (sound.kept j at_ todo reasons found reading).congr raw places

theorem Sound.continues {next : PruneAt} (sound : lake.Sound)
    (found : lake.procs.get? i = some (.prune apply at_))
    (procs : lake'.procs = lake.procs.set i (.prune apply next)) (raw : lake'.raw = lake.raw)
    (places : lake'.places = lake.places)
    (holds : ∀ k, (Process.prune apply next).holds k = none ∨
      (Process.prune apply next).holds k = (Process.prune apply at_).holds k)
    (dry : ∀ todo reasons, next = .retiring todo reasons → apply = true)
    (kept : ∀ todo reasons, apply = true → reads next = some (todo, reasons) →
      lake.Kept todo reasons) : lake'.Sound := by
  refine sound.goes procs raw places (fun k => ?_) dry kept
  rcases holds k with dropped | same
  · exact .inl dropped
  · exact .inr (.inl ⟨_, found, same⟩)

theorem Kept.start (read : lake.keptRaw = .ok reasons) : lake.Kept lake.places.keys reasons where
  raw g named names := by
    obtain ⟨state, record⟩ := names
    simp only [keptRaw, record, if_neg named] at read
    obtain rfl := Except.ok.inj read
    simp
  held name g named held := by
    obtain ⟨p, found, -⟩ := held
    exact .inr (.inl (Dict.mem_keys_iff.mpr ⟨p, found⟩))

theorem Kept.gone (is : lake.Kept (name :: todo) reasons) (gone : lake.places.get? name = none) :
    lake.Kept todo reasons where
  raw := is.raw
  held name' g named held := by
    rcases is.held name' g named held with there | left | ⟨other, left, pin⟩
    · exact .inl there
    · rcases List.mem_cons.mp left with rfl | left
      · obtain ⟨p, found, -⟩ := held
        rw [gone] at found
        cases found
      · exact .inr (.inl left)
    · rcases List.mem_cons.mp left with rfl | left
      · obtain ⟨p, provider, found, -⟩ := pin
        rw [gone] at found
        cases found
      · exact .inr (.inr ⟨other, left, pin⟩)

theorem Kept.read {more : List (Text × KeepReason)} (is : lake.Kept (name :: todo) reasons)
    (found : lake.places.get? name = some p) (marked : p.Marked)
    (read : p.consumes name = .ok more) : lake.Kept todo (reasons ++ more) where
  raw g named names := by
    rw [List.map_append]
    exact List.mem_append_left _ (is.raw g named names)
  held name' g named held := by
    rw [List.map_append, List.mem_append]
    rcases is.held name' g named held with there | left | ⟨other, left, pin⟩
    · exact .inl (.inl there)
    · rcases List.mem_cons.mp left with rfl | left
      · obtain ⟨q, found', protects⟩ := held
        rw [found] at found'
        obtain rfl := Option.some.inj found'
        exact .inl (.inr (protects.consumed marked named read))
      · exact .inr (.inl left)
    · rcases List.mem_cons.mp left with rfl | left
      · obtain ⟨q, provider, found', data, has⟩ := pin
        rw [found] at found'
        obtain rfl := Option.some.inj found'
        have protects : p.Protects g := by simp [Place.Protects, data, has]
        exact .inl (.inr (protects.consumed marked named read))
      · exact .inr (.inr ⟨other, left, pin⟩)

theorem Kept.protected (is : lake.Kept [] reasons) (isProtected : lake.Protected g) :
    g ∈ reasons.map Prod.fst := by
  obtain ⟨named, names | ⟨name, holds⟩⟩ := isProtected
  · exact is.raw g named names
  · rcases is.held name g named holds with there | left | ⟨name', left, -⟩
    · exact there
    · cases left
    · cases left

theorem Sound.prune (sound : lake.Sound) (found : lake.procs.get? i = some (.prune apply at_))
    (step : lake.advancePrune i apply at_ = some lake') :
    lake'.Sound ∧ ∀ g tree, lake.Protected g → lake.releases.get? g = some tree →
      lake'.releases.get? g = some tree := by
  have kept := sound.kept i at_
  cases at_ with
  | started =>
    simp only [advancePrune] at step
    split_ifs at step with isFree
    split at step
    · cases step
      exact ⟨sound.finish i, fun _ _ _ there => there⟩
    · rename_i reasons read
      cases step
      refine ⟨sound.goes rfl rfl rfl (fun k => ?_) (fun _ _ h => nomatch h) ?_,
        fun _ _ _ there => there⟩
      · cases k with
        | updater => exact .inr (.inl ⟨_, found, rfl⟩)
        | registry => exact .inr (.inr ⟨.exclusive, rfl, isFree⟩)
        | pin target => exact .inl rfl
      · intro todo' reasons' _ reading
        cases reading
        exact Kept.start read
  | reading todo reasons =>
    cases todo with
    | nil =>
      simp only [advancePrune] at step
      split at step
      · cases step
        exact ⟨sound.finish i, fun _ _ _ there => there⟩
      · split_ifs at step with applies
        · cases step
          refine ⟨sound.continues found rfl rfl rfl (fun k => .inr (by cases k <;> rfl))
            (fun _ _ _ => applies) ?_, fun _ _ _ there => there⟩
          intro todo' reasons' _ reading
          cases reading
          subst applies
          exact kept [] reasons found rfl
        · cases step
          exact ⟨sound.finish i, fun _ _ _ there => there⟩
    | cons name todo =>
      simp only [advancePrune] at step
      split at step
      · rename_i gone
        cases step
        refine ⟨sound.continues found rfl rfl rfl (fun k => .inr (by cases k <;> rfl))
          (fun _ _ h => nomatch h) ?_, fun _ _ _ there => there⟩
        intro todo' reasons' applies reading
        cases reading
        subst applies
        exact (kept _ reasons found rfl).gone gone
      · rename_i p here
        split at step
        · cases step
          exact ⟨sound.finish i, fun _ _ _ there => there⟩
        · rename_i more read
          cases step
          refine ⟨sound.continues found rfl rfl rfl (fun k => .inr (by cases k <;> rfl))
            (fun _ _ h => nomatch h) ?_, fun _ _ _ there => there⟩
          intro todo' reasons' applies reading
          cases reading
          subst applies
          exact (kept _ reasons found rfl).read here (sound.marked name p here) read
  | retiring todo reasons =>
    have applies : apply = true := by
      cases apply with
      | true => rfl
      | false => exact absurd found (sound.dry i todo reasons)
    subst applies
    have all : lake.Kept [] reasons := kept [] reasons found rfl
    cases todo with
    | nil =>
      simp only [advancePrune] at step
      cases step
      refine ⟨sound.continues found rfl rfl rfl (fun k => ?_) (fun _ _ _ => rfl)
        (fun _ _ _ h => nomatch h), fun _ _ _ there => there⟩
      cases k with
      | updater => exact .inr rfl
      | registry => exact .inl rfl
      | pin target => exact .inl rfl
    | cons generation todo =>
      simp only [advancePrune] at step
      split_ifs at step with named
      · cases step
        refine ⟨sound.continues found rfl rfl rfl (fun k => .inr (by cases k <;> rfl))
          (fun _ _ _ => rfl) ?_, fun _ _ _ there => there⟩
        intro todo' reasons' _ reading
        cases reading
        exact all
      · cases step
        refine ⟨sound.continues found rfl rfl rfl (fun k => .inr (by cases k <;> rfl))
          (fun _ _ _ => rfl) ?_, ?_⟩
        · intro todo' reasons' _ reading
          cases reading
          exact all
        · intro g tree isProtected there
          have other : generation ≠ g := by
            rintro rfl
            exact named (all.protected isProtected)
          simpa [Dict.get?_erase, other] using there
  | removing todo =>
    cases todo with
    | nil =>
      simp only [advancePrune] at step
      cases step
      exact ⟨sound.finish i, fun _ _ _ there => there⟩
    | cons tree todo =>
      simp only [advancePrune] at step
      cases step
      exact ⟨sound.continues found rfl rfl rfl (fun k => .inr (by cases k <;> rfl))
        (fun _ _ h => nomatch h) (fun _ _ _ h => nomatch h), fun _ _ _ there => there⟩

theorem todo_of_unread (unread : lake.unread = true)
    (found : lake.procs.get? i = some (.prune apply at_))
    (reading : reads at_ = some (todo, reasons)) : todo = [] := by
  have each := List.all_eq_true.mp unread _ (Dict.mem_values_iff.mpr ⟨i, found⟩)
  cases at_ with
  | reading => simp at each
  | retiring =>
    cases reading
    rfl
  | started | removing => cases reading

theorem Sound.places (sound : lake.Sound) {places : Dict Text Place}
    (marked : ∀ name p, places.get? name = some p → p.Marked)
    (holds : ∀ name g, Holds { lake with places } name g →
      lake.Holds name g ∨ ∃ name', lake.DataPin name' g)
    (pins : lake.unread = true ∨ ∀ name g, lake.DataPin name g → DataPin { lake with places } name g) :
    Sound { lake with places } where
  apart := sound.apart
  marked := marked
  dry := sound.dry
  kept j at_ todo reasons found reading := by
    refine (sound.kept j at_ todo reasons found reading).mono rfl holds ?_
    intro name left g pin
    rcases pins with unread | pins
    · rw [todo_of_unread unread found reading] at left
      cases left
    · exact pins name g pin

theorem Sound.set (sound : lake.Sound) (name : Text) {place : Place} (marked : place.Marked)
    (holds : ∀ g, place.Protects g → lake.Holds name g ∨ ∃ name', lake.DataPin name' g)
    (pins : lake.unread = true ∨ ∀ g, lake.DataPin name g →
      (∃ provider, place.kind = .data provider) ∧ place.HasPin g) :
    Sound { lake with places := lake.places.set name place } := by
  refine sound.places (fun name' p found => ?_) (fun name' g held => ?_) ?_
  · rw [Dict.get?_set] at found
    split_ifs at found
    · obtain rfl := Option.some.inj found
      exact marked
    · exact sound.marked name' p found
  · obtain ⟨p, found, protects⟩ := held
    rw [Dict.get?_set] at found
    split_ifs at found with same
    · subst same
      obtain rfl := Option.some.inj found
      exact holds g protects
    · exact .inl ⟨p, found, protects⟩
  · refine pins.imp_right fun pins name' g pin => ?_
    by_cases same : name = name'
    · subst same
      obtain ⟨⟨provider, kind⟩, has⟩ := pins g pin
      exact ⟨place, provider, Dict.get?_set_self _ _ _, kind, has⟩
    · obtain ⟨p, provider, found, kind, has⟩ := pin
      exact ⟨p, provider, by rw [Dict.get?_set_of_ne _ _ same]; exact found, kind, has⟩

theorem dataPin_of_pinnedInData (pinned : lake.pinnedInData g = true) :
    ∃ name, lake.DataPin name g := by
  obtain ⟨p, member, data⟩ := List.any_eq_true.mp pinned
  obtain ⟨name, found⟩ := Dict.mem_values_iff.mp member
  cases kind : p.kind with
  | data provider =>
    simp only [kind] at data
    obtain ⟨pin, member, same⟩ := List.any_eq_true.mp data
    obtain ⟨slot, there⟩ := Dict.mem_values_iff.mp member
    cases pin with
    | unreadable => cases same
    | record r => exact ⟨name, p, provider, found, kind, slot, r, there, by simpa using same⟩
  | experiment | book => simp [kind] at data

theorem hasPin_moved {slot slot' : Text} {pin : Pin} (there : p.pins.get? slot = some pin)
    (has : Place.HasPin { p with pins := (p.pins.erase slot).set slot' pin } g) : p.HasPin g := by
  obtain ⟨slot'', r, found, same⟩ := has
  rw [Dict.get?_set, Dict.get?_erase] at found
  split_ifs at found
  · obtain rfl := Option.some.inj found
    exact ⟨slot, r, there, same⟩
  · exact ⟨slot'', r, found, same⟩

theorem protects_of_pins {p q : Place} (kind : p.kind = q.kind) (lapsed : p.lapsed = q.lapsed)
    (has : p.HasPin g → q.HasPin g) (protects : p.Protects g) : q.Protects g := by
  unfold Place.Protects at protects ⊢
  rw [kind, lapsed] at protects
  cases other : q.kind with
  | data provider =>
    rw [other] at protects
    exact protects.imp_right has
  | experiment | book =>
    rw [other] at protects
    exact ⟨protects.1, has protects.2⟩

theorem protects_changed {kind : Kind} {isOver : Bool} (may : mayBecome p.kind kind = true)
    (protects : Place.Protects ⟨kind, p.pins, p.lapsed || isOver⟩ g) : p.Protects g := by
  unfold Place.Protects at protects ⊢
  cases before : p.kind with
  | data provider =>
    rw [before] at may
    cases kind with
    | data provider' =>
      rcases protects with rfl | has
      · exact .inl (by simpa [mayBecome, Kind.seed] using may)
      · exact .inr has
    | experiment | book => cases may
  | experiment hidden console =>
    rw [before] at may
    cases kind with
    | experiment hidden' console' =>
      exact ⟨(Bool.or_eq_false_iff.mp protects.1).1, protects.2⟩
    | data | book => cases may
  | book verdict =>
    rw [before] at may
    cases kind with
    | book verdict' => exact ⟨(Bool.or_eq_false_iff.mp protects.1).1, protects.2⟩
    | data | experiment => cases may

theorem Sound.writes (sound : lake.Sound) (unreading : lake.Unreading) (raw : RawFile) :
    Sound { lake with raw } where
  apart := sound.apart
  marked := sound.marked
  dry := sound.dry
  kept j at_ todo reasons found reading := by
    rw [unreading j at_ found] at reading
    cases reading

theorem Sound.begins (sound : lake.Sound)
    (takes : ∀ k, process.holds k = none ∨
      ∃ mode, process.holds k = some mode ∧ lake.free i k mode = true)
    (fresh : ∀ apply at_, process = .prune apply at_ → at_ = .started) :
    (lake.setProcess i process).Sound where
  apart := sound.apart.set fun k => (takes k).imp_right .inr
  marked := sound.marked
  dry j todo reasons found := by
    rw [setProcess, Dict.get?_set] at found
    split_ifs at found
    · cases fresh _ _ (Option.some.inj found)
    · exact sound.dry j todo reasons found
  kept j at_ todo reasons found reading := by
    rw [setProcess, Dict.get?_set] at found
    split_ifs at found
    · rw [fresh _ _ (Option.some.inj found)] at reading
      cases reading
    · exact (sound.kept j at_ todo reasons found reading).congr rfl rfl

theorem step_sound {action : Action} (sound : lake.Sound)
    (step : lake.step fromLake action = some (lake', out)) :
    lake'.Sound ∧
      (∀ g tree, lake.Protected g → lake.releases.get? g = some tree →
        lake'.releases.get? g = some tree) ∧
      ∀ g ∈ out, lake'.Published g := by
  cases action with
  | beginPin i target wants required =>
    simp only [Lake.step] at step
    split_ifs at step with idle
    cases step
    refine ⟨sound.begins (fun k => ?_) (fun _ _ h => nomatch h), fun _ _ _ there => there,
      fun g member => nomatch member⟩
    cases k with
    | updater | registry => exact .inl rfl
    | pin target' =>
      by_cases same : target = target'
      · subst same
        exact .inr ⟨.exclusive, by simp [Process.holds], idle.2⟩
      · exact .inl (by simp [Process.holds, same])
  | beginPrune i apply =>
    simp only [Lake.step] at step
    split_ifs at step with idle
    cases step
    refine ⟨sound.begins (fun k => ?_) (fun _ _ h => by cases h; rfl), fun _ _ _ there => there,
      fun g member => nomatch member⟩
    cases k with
    | updater =>
      cases apply with
      | false => exact .inl rfl
      | true => exact .inr ⟨.exclusive, rfl, idle.2 rfl⟩
    | registry | pin => exact .inl rfl
  | beginUpdate i =>
    simp only [Lake.step] at step
    split_ifs at step with idle
    cases step
    have unreading : lake.Unreading := unreading_of_free idle.2 idle.1
    refine ⟨(sound.writes unreading _).begins (fun k => ?_) (fun _ _ h => nomatch h),
      fun _ _ _ there => there, fun g member => nomatch member⟩
    cases k with
    | updater => exact .inr ⟨.exclusive, rfl, idle.2⟩
    | registry | pin => exact .inl rfl
  | advance i found =>
    simp only [Lake.step] at step
    split at step
    · cases step
    · rename_i here
      have pin := advancePin_spec step
      exact ⟨pin.sound sound here, fun g tree _ there => pin.releases g tree there, pin.loaded⟩
    · rename_i here
      obtain ⟨after, steps, same⟩ := Option.map_eq_some_iff.mp step
      cases same
      have pruned := sound.prune here steps
      exact ⟨pruned.1, pruned.2, fun g member => nomatch member⟩
    · rename_i here
      cases step
      have unreading : lake.Unreading :=
        sound.unreading here (by simp) (.inr (by simp [Process.holds]))
      exact ⟨(sound.writes unreading _).finish i, fun _ _ _ there => there,
        fun g member => nomatch member⟩
  | stop i =>
    cases step
    exact ⟨sound.finish i, fun _ _ _ there => there, fun g member => nomatch member⟩
  | create name kind =>
    simp only [Lake.step] at step
    split_ifs at step with fresh
    cases step
    have nothing : ∀ g, ¬Place.HasPin ⟨kind, Dict.empty, false⟩ g := by
      rintro g ⟨slot, r, found, -⟩
      cases found
    refine ⟨sound.set name (fun nonempty => absurd rfl nonempty) (fun g protects => ?_)
      (.inr fun g pin => ?_), fun _ _ _ there => there, fun g member => nomatch member⟩
    · cases kind with
      | data provider =>
        rcases protects with rfl | has
        · cases fresh.2
        · exact absurd has (nothing g)
      | experiment | book => exact absurd protects.2 (nothing g)
    · obtain ⟨p, provider, found, -⟩ := pin
      rw [fresh.1] at found
      cases found
  | change name kind =>
    simp only [Lake.step] at step
    split at step
    · cases step
    · rename_i p here
      split_ifs at step with may
      cases step
      have marked := sound.marked name p here
      refine ⟨sound.set name (fun nonempty isOver => ?_) (fun g protects => .inl ⟨p, here, ?_⟩)
        (.inr fun g pin => ?_), fun _ _ _ there => there, fun g member => nomatch member⟩
      · simp [show p.pins.entries ≠ [] from nonempty, show kind.over = true from isOver]
      · exact protects_changed may protects
      · obtain ⟨q, provider, found, data, has⟩ := pin
        rw [here] at found
        obtain rfl := Option.some.inj found
        rw [data] at may
        cases kind with
        | data provider' => exact ⟨⟨provider', rfl⟩, has⟩
        | experiment | book => cases may
  | bindSeed name generation =>
    simp only [Lake.step] at step
    split at step
    · rename_i pins lapsed here
      split_ifs at step with pinned
      cases step
      refine ⟨sound.set name (fun _ isOver => nomatch isOver) (fun g protects => ?_)
        (.inr fun g pin => ?_), fun _ _ _ there => there, fun g member => nomatch member⟩
      · rcases protects with names | has
        · cases names
          exact .inr (dataPin_of_pinnedInData pinned)
        · exact .inl ⟨_, here, .inr has⟩
      · obtain ⟨q, provider, found, data, has⟩ := pin
        rw [here] at found
        obtain rfl := Option.some.inj found
        exact ⟨⟨_, rfl⟩, has⟩
    · cases step
  | moveCache name slot slot' =>
    simp only [Lake.step] at step
    split at step
    · cases step
    · rename_i p here
      split at step
      · cases step
      · rename_i pin there
        split_ifs at step with may
        cases step
        refine ⟨sound.set name (fun _ isOver => ?_) (fun g protects => .inl ⟨p, here, ?_⟩)
          (.inl may.2), fun _ _ _ there => there, fun g member => nomatch member⟩
        · exact sound.marked name p here (List.ne_nil_of_mem (Dict.mem_entries_iff.mpr there)) isOver
        · exact protects_of_pins (p := { p with pins := (p.pins.erase slot).set slot' pin })
            rfl rfl (hasPin_moved there) protects
  | delete name =>
    simp only [Lake.step] at step
    split_ifs at step with unread
    cases step
    refine ⟨sound.places (fun name' p found => ?_) (fun name' g held => .inl ?_) (.inl unread),
      fun _ _ _ there => there, fun g member => nomatch member⟩
    · rw [Dict.get?_erase] at found
      split_ifs at found
      exact sound.marked name' p found
    · obtain ⟨p, found, protects⟩ := held
      rw [Dict.get?_erase] at found
      split_ifs at found
      exact ⟨p, found, protects⟩

/-- A lake nothing runs on. -/
def Quiet (lake : Lake) : Prop :=
  lake.procs = Dict.empty ∧ ∀ name p, lake.places.get? name = some p → p.Marked

theorem Quiet.sound (quiet : lake.Quiet) : lake.Sound where
  apart := by
    rw [quiet.1]
    exact Locks.Apart.empty
  marked := quiet.2
  dry j todo reasons found := by
    rw [quiet.1] at found
    cases found
  kept j at_ todo reasons found := by
    rw [quiet.1] at found
    cases found

theorem run_sound {actions : List Action} (sound : lake.Sound)
    (ran : run fromLake lake actions = some lake') : lake'.Sound := by
  induction actions generalizing lake with
  | nil =>
    cases ran
    exact sound
  | cons action actions ih =>
    obtain ⟨after, step, rest⟩ := Option.bind_eq_some_iff.mp ran
    exact ih (step_sound sound step).1 rest

/-- However pins, publications, prunes, updates and the changes of experiments, seeds and
books follow one another, no step takes a release away that the raw record, a seed, a pin
under `data`, an experiment or a book records, and a pin that returns names a release that is
published and complete. -/
theorem recorded_releases_stay {start : Lake} {actions : List Action} {action : Action}
    (quiet : start.Quiet) (ran : run fromLake start actions = some lake)
    (step : lake.step fromLake action = some (lake', out)) :
    (∀ g tree, lake.Protected g → lake.releases.get? g = some tree →
      lake'.releases.get? g = some tree) ∧
      ∀ g ∈ out, lake'.Published g :=
  (step_sound (run_sound quiet.sound ran) step).2

/-- A complete release of a generation. -/
def wholeRelease (generation : Text) : ReleaseTree where
  manifest := .read ⟨"research_release".toList, 2, generation, "2026-01-01".toList,
    "status.json".toList, .verified, some ⟨"/r".toList, "/e".toList, "/q".toList⟩⟩
  roots := true
  raw := .record .committed generation
  datasets := []

/-- A lake at its second generation, its first one pinned by an experiment. -/
def pinnedLake (console : Option Console) : Lake where
  raw := .record .committed "g2".toList
  releases := Dict.ofList [("g1".toList, wholeRelease "g1".toList),
    ("g2".toList, wholeRelease "g2".toList)]
  hidden := []
  places := Dict.ofList [("e".toList, ⟨.experiment false console,
    Dict.ofList [([], .record ⟨true, "g1".toList, true⟩)], false⟩)]
  procs := Dict.empty

/-- A prune from its start to its end. -/
def pruneOnce (steps : Nat) : List Action :=
  .beginPrune 0 true :: List.replicate steps (.advance 0 {})

theorem recorded_releases_stay_pinned :
    let console : Console := ⟨.missing, false, .read none⟩
    ∃ lake lake' out, run (fun _ => true) (pinnedLake (some console)) (pruneOnce 4) = some lake ∧
      lake.step (fun _ => true) (.advance 0 {}) = some (lake', out) ∧
      lake'.releases.get? "g1".toList = some (wholeRelease "g1".toList) := by
  intro console
  have runs : (run (fun _ => true) (pinnedLake (some console)) (pruneOnce 4)).any (fun lake =>
      (lake.places.get? "e".toList).any (fun p => p.kind = .experiment false (some console) ∧
        p.lapsed = false ∧ p.pins.get? [] = some (.record ⟨true, "g1".toList, true⟩)) ∧
      lake.releases.get? "g1".toList = some (wholeRelease "g1".toList) ∧
      (lake.step (fun _ => true) (.advance 0 {})).isSome) = true := by
    decide +kernel
  obtain ⟨lake, ran, holds⟩ := (Option.any_eq_true _ _).mp runs
  obtain ⟨placed, there, steps⟩ := of_decide_eq_true holds
  obtain ⟨p, found, kept⟩ := (Option.any_eq_true _ _).mp placed
  obtain ⟨kind, open_, pin⟩ := of_decide_eq_true kept
  obtain ⟨⟨lake', out⟩, step⟩ := Option.isSome_iff_exists.mp steps
  have isProtected : lake.Protected "g1".toList :=
    ⟨by decide, .inr ⟨_, p, found, by rw [Place.Protects, kind]; exact ⟨open_, [], _, pin, rfl⟩⟩⟩
  have quiet : (pinnedLake (some console)).Quiet := by
    refine ⟨rfl, fun name p found nonempty isOver => ?_⟩
    have all : (pinnedLake (some console)).places.values.all (fun p => !p.kind.over) = true := by
      decide +kernel
    have here := List.all_eq_true.mp all p (Dict.mem_values_iff.mpr ⟨name, found⟩)
    simp [isOver] at here
  exact ⟨lake, lake', out, ran, step,
    (recorded_releases_stay quiet ran step).1 _ _ isProtected there⟩

/-- A release goes while an experiment that has not ended has it pinned, when the experiment
has no console directory. -/
theorem consoleless_release_removed :
    ¬∀ (fromLake : Release → Bool) (start lake : Lake) (actions : List Action),
      start.procs = Dict.empty → run fromLake start actions = some lake →
      ∀ name p console slot r tree, start.places.get? name = some p →
        lake.places.get? name = some p → p.kind = .experiment false console →
        console.any Console.ended = false → p.pins.get? slot = some (.record r) →
        start.releases.get? r.generation = some tree →
        lake.releases.get? r.generation = some tree := by
  intro claim
  have runs : (run (fun _ => true) (pinnedLake none) (pruneOnce 6)).any (fun lake =>
      lake.places = (pinnedLake none).places ∧ lake.releases.get? "g1".toList = none) = true := by
    decide +kernel
  obtain ⟨lake, ran, holds⟩ := (Option.any_eq_true _ _).mp runs
  obtain ⟨places, gone⟩ := of_decide_eq_true holds
  have found : (pinnedLake none).places.get? "e".toList = some ⟨.experiment false none,
      Dict.ofList [([], .record ⟨true, "g1".toList, true⟩)], false⟩ := by decide +kernel
  have stays := claim (fun _ => true) (pinnedLake none) lake (pruneOnce 6) rfl ran "e".toList _ none
    [] ⟨true, "g1".toList, true⟩ (wholeRelease "g1".toList) found (by rw [places]; exact found) rfl
    rfl (by decide +kernel) (by decide +kernel)
  rw [gone] at stays
  cases stays

end Lake

end Retention

end AutoTrade
