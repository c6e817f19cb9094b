import AutoTrade.Webui.Memory
import AutoTrade.Pipelines.Proofs.Skills

/-!
# What a write to the curated library leaves

An entry is staged beside the library, and of the library only the renames of the entry change
anything: `moves` are those that have been done, and `Swap` is what the library is after them. The
one moment at which an entry is neither the old one nor the new one is between the rename that
moves the old one out and the one that moves the new one in, or the old one back.
-/

namespace AutoTrade.CuratedLibrary

open PyValue (lit)
open Utf8 (Bytes)
open Faults
open Skills

variable {disk after : LibraryDisk} {events : List (Event LibraryOp)} {name : FileName}

/-- The renames of entries that have been done. -/
def moves (events : List (Event LibraryOp)) : List LibraryOp :=
  events.filterMap fun event =>
    match event with
    | .did (.moveOut name) => some (.moveOut name)
    | .did (.moveIn name) => some (.moveIn name)
    | .did (.moveBack name) => some (.moveBack name)
    | _ => none

@[simp] theorem moves_append (events events' : List (Event LibraryOp)) :
    moves (events ++ events') = moves events ++ moves events' := List.filterMap_append

theorem moves_silent (silent : events = [] ∨ events = [.unread]) : moves events = [] := by
  rcases silent with rfl | rfl <;> rfl

/-- What is done beside the library. -/
def Beside : LibraryOp → Prop
  | .moveOut _ => False
  | .moveIn _ => False
  | .moveBack _ => False
  | .makeLibrary => False
  | _ => True

theorem library_apply_beside {op : LibraryOp} (beside : Beside op) (disk : LibraryDisk) :
    (disk.apply op).library = disk.library := by
  cases op <;> first | rfl | exact beside.elim

theorem library_torn {op : LibraryOp} (torn : disk.torn op after) :
    after.library = disk.library := by
  cases op with
  | writeFile name place payload =>
    have ⟨_, n, same⟩ := torn
    rw [same]
    rfl
  | removeStaging => exact torn
  | _ => exact torn.elim

theorem moves_beside (each : ∀ op, .did op ∈ events → Beside op) : moves events = [] := by
  refine List.filterMap_eq_nil_iff.mpr fun event member => ?_
  split <;> first | rfl | exact (each _ member).elim

section Beside

variable {α : Type} {program : LibraryProgram α}

theorem beside_reaches (uses : program.Uses Beside)
    (reaches : Reaches libraryDevice program disk events after) :
    after.library = disk.library ∧ moves events = [] := by
  have ⟨kept, each⟩ := reaches.invariant (P := fun s => s.library = disk.library) uses
    (fun op beside s _ same => (library_apply_beside beside s).trans same)
    (fun op _ s t torn same => (library_torn torn).trans same) rfl
  exact ⟨kept, moves_beside each⟩

end Beside

variable {violation : PyStr → PyStr} {libraryPath stagedPath : PyStr}

theorem makeParents_beside (dir rest : Place) :
    (makeParents (fun disk : LibraryDisk => fun place =>
      (disk.stagedItem name).bind fun item => item.nodes.get? place)
      (LibraryOp.makeDirectory name) dir rest).Uses Beside := by
  induction rest generalizing dir with
  | nil => trivial
  | cons part rest ih =>
    refine uses_bind uses_reading fun there => ?_
    cases there with
    | none => exact uses_bind (uses_performing trivial) fun _ => ih _
    | some node =>
      cases node with
      | directory writable => exact ih _
      | _ => exact uses_bind (f := fun _ => _) trivial fun _ => ih _

theorem stageFiles_beside (files : List (PyStr × Bytes)) :
    (stageFiles violation name files).Uses Beside := by
  induction files with
  | nil => trivial
  | cons file files ih =>
    refine uses_bind (uses_ofExcept _) fun place => ?_
    refine uses_bind (makeParents_beside [] _) fun _ => ?_
    exact uses_bind (uses_performing trivial) fun _ => ih

theorem removeStaging_beside : removeStaging.Uses Beside := ⟨trivial, trivial, trivial⟩

/-- What a library is after the renames of an entry that has been staged. -/
inductive Swap (name : FileName) (library : SkillsTree) (new : SkillItem) :
    List LibraryOp → SkillsTree → Prop where
  | untouched : Swap name library new [] library
  | out (replaces : isDirectory (library.items.get? name) = true) :
      Swap name library new [.moveOut name] (library.without name)
  | swapped (replaces : isDirectory (library.items.get? name) = true) :
      Swap name library new [.moveOut name, .moveIn name] ((library.without name).set name new)
  | back {old : SkillItem} (found : library.items.get? name = some old)
      (replaces : isDirectory (some old) = true) :
      Swap name library new [.moveOut name, .moveBack name] ((library.without name).set name old)
  | added (fresh : isDirectory (library.items.get? name) = false) :
      Swap name library new [.moveIn name] (library.set name new)

theorem moveEntryIn_reaches (reaches : Reaches libraryDevice (moveEntryIn name) disk events after) :
    (moves events = [] ∧ after = disk) ∨
      (moves events = [.moveIn name] ∧ disk.legal (.moveIn name) = true ∧
        after = disk.apply (.moveIn name)) ∨
      moves events = [.moveBack name] ∧ disk.legal (.moveBack name) = true ∧
        after = disk.apply (.moveBack name) := by
  rcases reaches_handle.mp reaches with moving | ⟨error, mid, before, events', failing, later, rfl⟩
  · rcases reaches_performing.mp moving with ⟨rfl, rfl⟩ | ⟨rfl, legal, rfl⟩ | ⟨rfl, left⟩ | ⟨rfl, left⟩
    · exact .inl ⟨rfl, rfl⟩
    · exact .inr (.inl ⟨rfl, legal, rfl⟩)
    · exact .inl ⟨rfl, left.resolve_right id⟩
    · exact left.elim
  · rcases ends_performing.mp failing with ⟨_, impossible, _⟩ | ⟨rfl, _, left⟩
    · exact nomatch impossible
    · obtain rfl : mid = disk := left.resolve_right id
      have quiet : moves [.failed (.moveIn name)] = [] := rfl
      rw [moves_append, quiet, List.nil_append]
      rcases reaches_bind.mp later with asking | ⟨replaced, mid', during, events'', asked, later, rfl⟩
      · have ⟨there, silent⟩ := reaches_reading.mp asking
        exact .inl ⟨moves_silent silent, there⟩
      · obtain ⟨rfl, rfl, _⟩ := ends_reading_ok.mp asked
        rw [List.nil_append]
        cases replaced with
        | false =>
          have ⟨quiet', there⟩ := reaches_raise.mp later
          exact .inl ⟨by rw [quiet']; rfl, there⟩
        | true =>
          change Reaches libraryDevice (act (.moveBack name) >>= fun _ => throw error) _ _ _
            at later
          rcases reaches_bind.mp later with backing | ⟨_, _, moved, _, back, raised, rfl⟩
          · rcases reaches_performing.mp backing with
              ⟨rfl, rfl⟩ | ⟨rfl, legal, rfl⟩ | ⟨rfl, left⟩ | ⟨rfl, left⟩
            · exact .inl ⟨rfl, rfl⟩
            · exact .inr (.inr ⟨rfl, legal, rfl⟩)
            · exact .inl ⟨rfl, left.resolve_right id⟩
            · exact left.elim
          · have ⟨quiet', there⟩ := reaches_raise.mp raised
            obtain ⟨rfl, legal, rfl⟩ := ends_performing_ok.mp back
            rw [quiet', there]
            exact .inr (.inr ⟨rfl, legal, rfl⟩)

theorem moveEntryIn_ok (ends : Ends libraryDevice (moveEntryIn name) disk events (.ok ()) after) :
    moves events = [.moveIn name] := by
  rcases ends_handle.mp ends with ⟨_, _, moving⟩ | ⟨error, mid, before, events', failing, later, rfl⟩
  · have ⟨did, _⟩ := ends_performing_ok.mp moving
    rw [did]
    rfl
  · have ⟨replaced, _, _, _, _, later, _⟩ := ends_bind_ok.mp later
    cases replaced with
    | false => exact nomatch (ends_raise.mp later).2.1
    | true =>
      have ⟨_, _, _, _, _, raised, _⟩ := ends_bind_ok.mp later
      exact nomatch (ends_raise.mp raised).2.1

variable {library : SkillsTree} {new : SkillItem}

theorem library_moveIn (here : disk.library = some library)
    (staged : disk.stagedItem name = some new) :
    (disk.apply (.moveIn name)).library = some (library.set name new) := by
  rw [LibraryDisk.apply, staged, LibraryDisk.setEntry, LibraryDisk.inLibrary]
  change disk.library.map _ = _
  rw [here]
  rfl

theorem library_moveOut (here : disk.library = some library) :
    (disk.apply (.moveOut name)).library = some (library.without name) := by
  change disk.library.map _ = _
  rw [here]
  rfl

theorem stagedItem_moveOut : (disk.apply (.moveOut name)).stagedItem name = disk.stagedItem name := by
  cases staging : disk.staging with
  | none => simp [LibraryDisk.apply, LibraryDisk.stagedItem, LibraryDisk.staged, staging,
      LibraryDisk.inLibrary, LibraryDisk.inStaging]
  | some staging' => simp [LibraryDisk.apply, LibraryDisk.stagedItem, LibraryDisk.staged, staging,
      LibraryDisk.inLibrary, LibraryDisk.inStaging]

theorem moved_moveOut (legal : disk.legal (.moveOut name) = true) :
    (disk.apply (.moveOut name)).moved = disk.entry name := by
  cases staging : disk.staging with
  | none => simp [LibraryDisk.legal, staging] at legal
  | some staging' => simp [LibraryDisk.apply, LibraryDisk.moved, staging, LibraryDisk.inLibrary,
      LibraryDisk.inStaging]

theorem library_moveBack {old : SkillItem} (here : disk.library = some library)
    (moved : disk.moved = some old) :
    (disk.apply (.moveBack name)).library = some (library.set name old) := by
  rw [LibraryDisk.apply, moved, LibraryDisk.setEntry, LibraryDisk.inLibrary]
  change disk.library.map _ = _
  rw [here]
  rfl

theorem swapEntry_reaches (here : disk.library = some library)
    (staged : disk.stagedItem name = some new) (empty : disk.moved = none)
    (reaches : Reaches libraryDevice (swapEntry name) disk events after) :
    ∃ tree, after.library = some tree ∧ Swap name library new (moves events) tree := by
  have entry : disk.entry name = library.items.get? name := by
    rw [LibraryDisk.entry, here]
    rfl
  rcases reaches_bind.mp reaches with asking | ⟨replacing, mid, during, events', asked, later, rfl⟩
  · obtain ⟨rfl, silent⟩ := reaches_reading.mp asking
    have quiet : moves events = [] := moves_silent silent
    exact ⟨library, here, quiet ▸ .untouched⟩
  · obtain ⟨rfl, rfl, answer⟩ := ends_reading_ok.mp asked
    rw [List.nil_append]
    have answer : isDirectory (library.items.get? name) = replacing := by
      rw [← entry]
      exact Except.ok.inj answer
    cases replacing with
    | false =>
      rcases moveEntryIn_reaches later with ⟨quiet, rfl⟩ | ⟨moved, _, rfl⟩ | ⟨_, legal, _⟩
      · exact ⟨library, here, quiet ▸ .untouched⟩
      · exact ⟨_, library_moveIn here staged, moved ▸ .added answer⟩
      · rw [LibraryDisk.legal, empty] at legal
        simp at legal
    | true =>
      change Reaches libraryDevice (act (.moveOut name) >>= fun _ => moveEntryIn name) _ _ _
        at later
      rcases reaches_bind.mp later with moving | ⟨_, mid', out, events'', moving, later, rfl⟩
      · rcases reaches_performing.mp moving with
          ⟨rfl, rfl⟩ | ⟨rfl, legal, rfl⟩ | ⟨rfl, left⟩ | ⟨rfl, left⟩
        · exact ⟨library, here, .untouched⟩
        · exact ⟨_, library_moveOut here, .out answer⟩
        · obtain rfl := left.resolve_right id
          exact ⟨library, here, .untouched⟩
        · exact left.elim
      · obtain ⟨rfl, legal, rfl⟩ := ends_performing_ok.mp moving
        have gone : (mid.apply (.moveOut name)).library = some (library.without name) :=
          library_moveOut here
        have moved : moves [.did (.moveOut name)] = [.moveOut name] := rfl
        rw [moves_append, moved]
        rcases moveEntryIn_reaches later with ⟨quiet, rfl⟩ | ⟨moved', _, rfl⟩ | ⟨moved', legal', rfl⟩
        · rw [quiet]
          exact ⟨_, gone, .out answer⟩
        · rw [moved']
          exact ⟨_, library_moveIn gone (stagedItem_moveOut.trans staged), .swapped answer⟩
        · have back := (moved_moveOut legal).trans entry
          cases found : library.items.get? name with
          | none =>
            rw [found] at answer
            exact nomatch answer
          | some old =>
            rw [found] at back answer
            rw [moved']
            exact ⟨_, library_moveBack gone back, .back found answer⟩

theorem swapEntry_ok (ends : Ends libraryDevice (swapEntry name) disk events (.ok ()) after) :
    .moveIn name ∈ moves events := by
  obtain ⟨replacing, _, _, events', _, rest, rfl⟩ := ends_bind_ok.mp ends
  cases replacing with
  | false => simp [moveEntryIn_ok rest]
  | true =>
    obtain ⟨_, _, _, _, _, moving, rfl⟩ := ends_bind_ok.mp rest
    simp [moveEntryIn_ok moving]

theorem within_set (tree : SkillsTree) (name : FileName) (item : SkillItem)
    (change : SkillItem → SkillItem) :
    (tree.set name item).within name change = tree.set name (change item) := by
  have there : (tree.set name item).items.get? name = some item := Dict.get?_set_self _ _ _
  rw [SkillsTree.within, there]
  change { tree with items := (tree.items.set name item).set name (change item) } = _
  rw [Dict.set_set]
  rfl

/-- The entry alone is staged, with these files so far. -/
def Building (name : FileName) (files : Place → Option Bytes) (disk : LibraryDisk) : Prop :=
  ∃ item, disk.staging = some ⟨some (SkillsTree.empty.set name item), none⟩ ∧
    ∀ place, item.fileAt place = files place

variable {files : Place → Option Bytes}

theorem Building.within {files' : Place → Option Bytes} {change : SkillItem → SkillItem}
    (built : Building name files disk)
    (changed : ∀ item, disk.stagedItem name = some item → (∀ place, item.fileAt place = files place) →
      ∀ place, (change item).fileAt place = files' place) :
    Building name files' (disk.inStaged fun tree => tree.within name change) := by
  have ⟨item, there, its⟩ := built
  refine ⟨change item, ?_, changed item ?_ its⟩
  · rw [LibraryDisk.inStaged, LibraryDisk.inStaging, there]
    exact congrArg (fun tree => some (Staging.mk (some tree) none)) (within_set _ _ _ _)
  · rw [LibraryDisk.stagedItem, LibraryDisk.staged, there]
    exact Dict.get?_set_self _ _ _

variable {item : SkillItem} {place : Place}

theorem fileAt_write (may : item.mayPut place = true) (node : SkillNode) (other : Place) :
    (item.write place node).fileAt other =
      if other = place then node.content? else item.fileAt other := by
  rw [SkillItem.fileAt, SkillItem.nodes_write may, Dict.get?_set]
  by_cases same : place = other
  · rw [if_pos same, if_pos same.symm]
    rfl
  · rw [if_neg same, if_neg (Ne.symm same)]
    rfl

theorem built_makeDirectory (built : Building name files disk)
    (legal : disk.legal (.makeDirectory name place) = true) :
    Building name files (disk.apply (.makeDirectory name place)) := by
  refine built.within fun item there its other => ?_
  rw [LibraryDisk.legal, there] at legal
  have ⟨may, missing⟩ := Bool.and_eq_true_iff.mp legal
  rw [fileAt_write may, ← its other]
  split
  · rename_i same
    rw [same, SkillItem.fileAt, Option.isNone_iff_eq_none.mp missing]
    rfl
  · rfl

theorem built_writeFile {payload : Bytes} (built : Building name files disk)
    (legal : disk.legal (.writeFile name place payload) = true) :
    Building name (fun other => if other = place then some payload else files other)
      (disk.apply (.writeFile name place payload)) := by
  refine built.within fun item there its other => ?_
  rw [LibraryDisk.legal, there] at legal
  rw [fileAt_write legal, its other]
  rfl

theorem makeParents_built {dir rest : Place} (built : Building name files disk)
    (ends : Ends libraryDevice (makeParents (fun disk : LibraryDisk => fun place =>
      (disk.stagedItem name).bind fun item => item.nodes.get? place)
      (LibraryOp.makeDirectory name) dir rest) disk events (.ok ()) after) :
    Building name files after := by
  induction rest generalizing dir disk events with
  | nil =>
    obtain ⟨_, _, rfl⟩ := ends_done.mp ends
    exact built
  | cons part rest ih =>
    have ⟨there, mid, _, _, asked, later, _⟩ := ends_bind_ok.mp ends
    obtain ⟨rfl, _⟩ := ends_reading_ok.mp asked
    cases there with
    | none =>
      have ⟨_, mid', _, _, making, later', _⟩ := ends_bind_ok.mp later
      obtain ⟨_, legal, rfl⟩ := ends_performing_ok.mp making
      exact ih (built_makeDirectory built legal) later'
    | some node =>
      cases node with
      | directory writable => exact ih built later
      | _ =>
        have ⟨_, _, _, _, raised, _⟩ := ends_bind_ok.mp later
        exact nomatch (ends_raise.mp raised).2.1

/-- The files that are there when some have been written, each to the place that its path has. -/
def written (payloads : List (PyStr × Bytes)) (files : Place → Option Bytes) :
    Place → Option Bytes :=
  payloads.foldl (fun files file place =>
    if place.map Subtype.val = Search.partsOf file.1 then some file.2 else files place) files

theorem stageFiles_built {payloads : List (PyStr × Bytes)} (built : Building name files disk)
    (ends : Ends libraryDevice (stageFiles violation name payloads) disk events (.ok ()) after) :
    Building name (written payloads files) after := by
  induction payloads generalizing files disk events with
  | nil =>
    obtain ⟨_, _, rfl⟩ := ends_done.mp ends
    exact built
  | cons file payloads ih =>
    have ⟨place, mid, _, _, parsed, later, _⟩ := ends_bind_ok.mp ends
    obtain ⟨_, read, rfl⟩ := ends_ofExcept.mp parsed
    have ⟨_, mid', _, _, made, later', _⟩ := ends_bind_ok.mp later
    have built' := makeParents_built built made
    have ⟨_, mid'', _, _, wrote, rest, _⟩ := ends_bind_ok.mp later'
    obtain ⟨_, legal, rfl⟩ := ends_performing_ok.mp wrote
    have built'' := ih (built_writeFile built' legal) rest
    have place_iff : ∀ other : Place,
        other.map Subtype.val = Search.partsOf file.1 ↔ other = place := by
      intro other
      rw [← (validateSkillPath_eq_ok.mp read.symm).1]
      exact Subtype.val_injective.list_map.eq_iff
    rw [written, List.foldl_cons]
    simp only [place_iff]
    exact built''

/-- What is known of an entry that is about to be moved into a library. -/
structure Ready (violation : PyStr → PyStr) (libraryPath : PyStr) (library : SkillsTree)
    (name : FileName) (files : Place → Option Bytes) (new : SkillItem) : Prop where
  item : ItemAllowed violation true name new
  accepted : TreeAllowed violation false library
  budget : assertLibraryBudget violation libraryPath (some library) (library.items.get? name)
    new.stats (isDirectory (library.items.get? name)) = .ok ()
  its : ∀ place, new.fileAt place = files place

variable {requireWritable : Bool}

theorem reads_of_allowed {node : SkillNode}
    (allowed : NodeAllowed violation requireWritable place node) :
    node.reads = node.content? := by
  cases node with
  | link => exact allowed.2.elim
  | _ => rfl

theorem entryUsage_eq (allowed : ItemAllowed violation requireWritable name item) :
    entryUsage item = (item.files, item.bytes) := by
  obtain ⟨_, ⟨writable, found, _⟩, _, each⟩ := allowed
  have count : ∀ l : List (Place × SkillNode), (∀ entry ∈ l, entry.2.reads = entry.2.content?) →
      (l.filterMap fun entry => entry.2.reads.map List.length).length =
        (l.map fun entry => entry.2.stats.files).sum ∧
      (l.filterMap fun entry => entry.2.reads.map List.length).sum =
        (l.map fun entry => entry.2.stats.bytes).sum := by
    intro l plain
    induction l with
    | nil => exact ⟨rfl, rfl⟩
    | cons entry l ih =>
      obtain ⟨files, bytes⟩ := ih fun other member => plain other (List.mem_cons_of_mem _ member)
      have first := plain entry List.mem_cons_self
      rw [List.map_cons, List.map_cons, List.sum_cons, List.sum_cons, List.filterMap_cons, first]
      cases entry.2 with
      | file content => simp [SkillNode.content?, SkillNode.stats, files, bytes, Nat.add_comm]
      | _ => simpa [SkillNode.content?, SkillNode.stats] using ⟨files, bytes⟩
  have plain : ∀ entry ∈ item.below.entries, entry.2.reads = entry.2.content? := by
    intro entry member
    obtain ⟨inside, there⟩ := mem_below.mp member
    exact reads_of_allowed (each _ _ inside there)
  obtain ⟨files, bytes⟩ := count item.below.entries plain
  refine Prod.ext (files.trans ?_) (bytes.trans ?_)
  · exact sum_below found SkillsStats.files rfl
  · exact sum_below found SkillsStats.bytes rfl

theorem ItemAllowed.weaken (allowed : ItemAllowed violation true name item)
    (requireWritable : Bool) : ItemAllowed violation requireWritable name item := by
  have ⟨named, ⟨writable, found, may⟩, filed, each⟩ := allowed
  refine ⟨named, ⟨writable, found, fun _ => may rfl⟩, filed, fun place node inside there => ?_⟩
  have ⟨clear, its⟩ := each place node inside there
  refine ⟨clear, ?_⟩
  cases node with
  | directory writable => exact ⟨its.1, fun _ => its.2 rfl⟩
  | _ => exact its

theorem assertLibraryBudget_eq_ok {entry : Option SkillItem} {staged : SkillsStats}
    {replacing : Bool}
    (ok : assertLibraryBudget violation libraryPath (some library) entry staged replacing = .ok ()) :
    library.stats.count + (if replacing then 0 else 1) ≤ maxSkills ∧
      (library.stats.files : Int) -
        (if replacing then (entry.map entryUsage).getD (0, 0) else (0, 0)).1 + staged.files ≤
          maxSkillsFiles ∧
      (library.stats.bytes : Int) -
        (if replacing then (entry.map entryUsage).getD (0, 0) else (0, 0)).2 + staged.bytes ≤
          maxSkillsBytes := by
  have ⟨current, checked, ok⟩ := bind_eq_ok.mp ok
  obtain ⟨tree, there, _, rfl⟩ := validateSkillsTree_eq_ok.mp checked
  cases there
  have ⟨count, ok⟩ := guard_eq_ok.mp ok
  have ⟨files, ok⟩ := guard_eq_ok.mp ok
  have ⟨bytes, _⟩ := lastGuard_eq_ok.mp ok
  exact ⟨Nat.not_lt.mp count, Int.not_lt.mp files, Int.not_lt.mp bytes⟩

variable {files : Place → Option Bytes}

theorem Ready.allowed (ready : Ready violation libraryPath library name files new) :
    TreeAllowed violation false (library.set name new) := by
  obtain ⟨regular, _, items, fits⟩ := ready.accepted
  refine ⟨regular, by simp, fun other item found => ?_, ?_⟩
  · change (library.items.set name new).get? other = some item at found
    rw [Dict.get?_set] at found
    split at found
    · rename_i same
      cases found
      subst same
      exact ItemAllowed.weaken ready.item false
    · exact items other item found
  · obtain ⟨count, files', bytes⟩ := assertLibraryBudget_eq_ok ready.budget
    rw [stats_set]
    cases found : library.items.get? name with
    | none =>
      rw [found] at count files' bytes
      have whole : library.without name = library := by
        rw [SkillsTree.without, Dict.erase_of_fresh found]
      rw [whole]
      simp only [isDirectory, Option.map_none, Bool.false_eq_true, if_false] at count files' bytes
      refine ⟨count, ?_, ?_⟩
      · have sum : (library.stats.add new.stats).files = library.stats.files + new.files := rfl
        have staged : new.stats.files = new.files := rfl
        omega
      · have sum : (library.stats.add new.stats).bytes = library.stats.bytes + new.bytes := rfl
        have staged : new.stats.bytes = new.bytes := rfl
        omega
    | some old =>
      have allowed := items name old found
      obtain ⟨writable, itself, _⟩ := allowed.2.1
      have directory : isDirectory (some old) = true := by
        rw [isDirectory, Option.map_some, node_eq_iff.mpr itself]
      rw [found, directory] at count files' bytes
      simp only [if_true, Option.map_some, Option.getD_some, entryUsage_eq allowed] at files' bytes
      have total := stats_without found
      rw [total] at count files' bytes
      refine ⟨count, ?_, ?_⟩
      · have sum : ((library.without name).stats.add new.stats).files =
          (library.without name).stats.files + new.stats.files := rfl
        have sum' : ((library.without name).stats.add old.stats).files =
          (library.without name).stats.files + old.files := rfl
        omega
      · have sum : ((library.without name).stats.add new.stats).bytes =
          (library.without name).stats.bytes + new.stats.bytes := rfl
        have sum' : ((library.without name).stats.add old.stats).bytes =
          (library.without name).stats.bytes + old.bytes := rfl
        omega

section Install

variable {payloads : List (PyStr × Bytes)} {result : Except Failure Unit}

theorem stageEntry_beside :
    (stageEntry violation libraryPath stagedPath name payloads).Uses Beside := by
  refine uses_bind (uses_performing trivial) fun _ => ?_
  refine uses_bind (uses_performing trivial) fun _ => ?_
  refine uses_bind (stageFiles_beside payloads) fun _ => ?_
  exact uses_bind uses_reading fun _ => uses_reading

theorem stageEntry_ready (here : disk.library = some library)
    (fresh : disk.staging = some ⟨none, none⟩)
    (ends : Ends libraryDevice (stageEntry violation libraryPath stagedPath name payloads) disk
      events (.ok ()) after) :
    ∃ new, Ready violation libraryPath library name (written payloads fun _ => none) new ∧
      after.stagedItem name = some new ∧ after.moved = none := by
  obtain ⟨kept, _⟩ := beside_reaches stageEntry_beside (reaches_of_ends ends)
  obtain ⟨_, disk₁, _, _, made, rest, _⟩ := ends_bind_ok.mp ends
  obtain ⟨_, _, rfl⟩ := ends_performing_ok.mp made
  obtain ⟨_, disk₂, _, _, item, rest', _⟩ := ends_bind_ok.mp rest
  obtain ⟨_, _, rfl⟩ := ends_performing_ok.mp item
  have built : Building name (fun _ => none) ((disk.apply .makeTree).apply (.makeItem name)) := by
    refine ⟨.single (.directory true), ?_, fun place => ?_⟩
    · change ((disk.staging.map _).map _) = _
      rw [fresh]
      rfl
    · rw [SkillItem.fileAt, SkillItem.single, Dict.get?_set]
      split <;> rfl
  obtain ⟨_, disk₃, _, _, files, checks, _⟩ := ends_bind_ok.mp rest'
  obtain ⟨new, there, its⟩ := stageFiles_built built files
  obtain ⟨staged, disk₄, _, _, first, second, _⟩ := ends_bind_ok.mp checks
  obtain ⟨rfl, _, checked⟩ := ends_reading_ok.mp first
  obtain ⟨rfl, _, budget⟩ := ends_reading_ok.mp second
  have alone : after.staged = some (SkillsTree.empty.set name new) := by
    rw [LibraryDisk.staged, there]
    rfl
  have itself : (SkillsTree.empty.set name new).items.get? name = some new :=
    Dict.get?_set_self _ _ _
  rw [alone] at checked
  obtain ⟨tree, same, allowed, rfl⟩ := validateSkillsTree_eq_ok.mp checked
  cases same
  have total : (SkillsTree.empty.set name new).stats = new.stats := by
    rw [stats_set]
    ext
    · rfl
    · exact Nat.zero_add _
    · exact Nat.zero_add _
  have there' : after.library = some library := kept.trans here
  have entry : after.entry name = library.items.get? name := by
    rw [LibraryDisk.entry, there']
    rfl
  rw [there', entry, total] at budget
  refine ⟨new, ⟨allowed.items name new itself, ?_, budget, its⟩, ?_, ?_⟩
  · obtain ⟨_, current, _⟩ := bind_eq_ok.mp budget
    obtain ⟨tree, same, accepted, _⟩ := validateSkillsTree_eq_ok.mp current
    cases same
    exact accepted
  · rw [LibraryDisk.stagedItem, alone]
    exact itself
  · rw [LibraryDisk.moved, there]
    rfl

theorem makeLibrary_reaches (reaches : Reaches libraryDevice makeLibrary disk events after) :
    moves events = [] ∧ after.staging = disk.staging ∧
      (after.library = disk.library ∨ disk.library = none ∧ after.library = some .empty) := by
  rcases reaches_bind.mp reaches with asking | ⟨missing, mid, during, events', asked, later, rfl⟩
  · obtain ⟨rfl, silent⟩ := reaches_reading.mp asking
    exact ⟨moves_silent silent, rfl, .inl rfl⟩
  · obtain ⟨rfl, rfl, answer⟩ := ends_reading_ok.mp asked
    have answer : mid.library.isNone = missing := Except.ok.inj answer
    cases missing with
    | false =>
      obtain ⟨rfl, rfl⟩ := reaches_done.mp later
      exact ⟨rfl, rfl, .inl rfl⟩
    | true =>
      have none := Option.isNone_iff_eq_none.mp answer
      rcases reaches_performing.mp later with
        ⟨rfl, rfl⟩ | ⟨rfl, _, rfl⟩ | ⟨rfl, left⟩ | ⟨rfl, left⟩
      · exact ⟨rfl, rfl, .inl rfl⟩
      · exact ⟨rfl, rfl, .inr ⟨none, rfl⟩⟩
      · obtain rfl := left.resolve_right id
        exact ⟨rfl, rfl, .inl rfl⟩
      · exact left.elim

theorem makeLibrary_ok (ends : Ends libraryDevice makeLibrary disk events (.ok ()) after) :
    after.library = some (disk.library.getD .empty) := by
  have ⟨missing, mid, _, _, asked, later, _⟩ := ends_bind_ok.mp ends
  obtain ⟨rfl, _, answer⟩ := ends_reading_ok.mp asked
  have answer : mid.library.isNone = missing := Except.ok.inj answer
  cases missing with
  | false =>
    obtain ⟨_, _, rfl⟩ := ends_done.mp later
    cases there : after.library with
    | none =>
      rw [there] at answer
      exact nomatch answer
    | some library => rfl
  | true =>
    obtain ⟨_, _, rfl⟩ := ends_performing_ok.mp later
    rw [Option.isNone_iff_eq_none.mp answer]
    rfl

/-- What is known of the library at every moment of a write that installs an entry. -/
def Installing (violation : PyStr → PyStr) (libraryPath : PyStr) (library : Option SkillsTree)
    (name : FileName) (files : Place → Option Bytes) (replace : Bool)
    (events : List (Event LibraryOp)) (after : LibraryDisk) : Prop :=
  (moves events = [] ∧
    (after.library = library ∨ library = none ∧ after.library = some .empty)) ∨
  ∃ new tree, checkDestination ((library.getD .empty).items.get? name) name replace = .ok () ∧
    Ready violation libraryPath (library.getD .empty) name files new ∧
    after.library = some tree ∧ Swap name (library.getD .empty) new (moves events) tree

theorem installing_swap (here : disk.library = some library)
    (fresh : disk.staging = some ⟨none, none⟩)
    (reaches : Reaches libraryDevice (do
      stageEntry violation libraryPath stagedPath name payloads
      swapEntry name) disk events after) :
    (moves events = [] ∧ after.library = some library) ∨
      ∃ new tree, Ready violation libraryPath library name (written payloads fun _ => none) new ∧
        after.library = some tree ∧ Swap name library new (moves events) tree := by
  rcases reaches_bind.mp reaches with staging | ⟨_, mid, before, events', staged, swap, rfl⟩
  · have ⟨kept, quiet⟩ := beside_reaches stageEntry_beside staging
    exact .inl ⟨quiet, kept.trans here⟩
  · have ⟨kept, quiet⟩ := beside_reaches stageEntry_beside (reaches_of_ends staged)
    have ⟨new, ready, there, empty⟩ := stageEntry_ready here fresh staged
    have ⟨tree, its, swapped⟩ := swapEntry_reaches (kept.trans here) there empty swap
    rw [moves_append, quiet, List.nil_append]
    exact .inr ⟨new, tree, ready, its, swapped⟩

theorem removeStaging_reaches (reaches : Reaches libraryDevice removeStaging disk events after) :
    after.library = disk.library ∧ moves events = [] := beside_reaches removeStaging_beside reaches

theorem installEntry_reaches {start : Option SkillsTree} {replace : Bool}
    (reaches : Reaches libraryDevice
      (installEntry violation libraryPath stagedPath name payloads replace) ⟨start, none⟩ events
      after) :
    Installing violation libraryPath start name (written payloads fun _ => none) replace events
      after := by
  rcases reaches_bind.mp reaches with asking | ⟨_, _, _, events₁, asked, making, rfl⟩
  · obtain ⟨rfl, silent⟩ := reaches_reading.mp asking
    exact .inl ⟨moves_silent silent, .inl rfl⟩
  obtain ⟨rfl, rfl, admitted⟩ := ends_reading_ok.mp asked
  have admitted : checkDestination ((start.getD .empty).items.get? name) name replace = .ok () := by
    rw [← admitted]
    cases start <;> rfl
  rw [List.nil_append]
  rcases reaches_bind.mp making with making' | ⟨_, disk₁, before, events₂, made, staging, rfl⟩
  · have ⟨quiet, _, library⟩ := makeLibrary_reaches making'
    exact .inl ⟨quiet, library⟩
  have ⟨quiet, unstaged, library⟩ := makeLibrary_reaches (reaches_of_ends made)
  have here := makeLibrary_ok made
  rw [Installing, moves_append, quiet, List.nil_append]
  rcases reaches_bind.mp staging with staging' | ⟨_, disk₂, before', events₃, staged, writing, rfl⟩
  · rcases reaches_performing.mp staging' with
      ⟨rfl, rfl⟩ | ⟨rfl, _, rfl⟩ | ⟨rfl, left⟩ | ⟨rfl, left⟩
    · exact .inl ⟨rfl, library⟩
    · exact .inl ⟨rfl, library⟩
    · obtain rfl := left.resolve_right id
      exact .inl ⟨rfl, library⟩
    · exact left.elim
  obtain ⟨rfl, _, rfl⟩ := ends_performing_ok.mp staged
  have began : moves [.did .makeStaging] = [] := rfl
  rw [moves_append, began, List.nil_append]
  have here' : (disk₁.apply .makeStaging).library = some (start.getD .empty) := here
  have settle : ∀ {events disk}, (moves events = [] ∧
        LibraryDisk.library disk = some (start.getD .empty)) ∨
      (∃ new tree, Ready violation libraryPath (start.getD .empty) name
        (written payloads fun _ => none) new ∧ disk.library = some tree ∧
        Swap name (start.getD .empty) new (moves events) tree) →
      Installing violation libraryPath start name (written payloads fun _ => none) replace events
        disk := by
    rintro events disk (⟨still, there⟩ | ⟨new, tree, swapped⟩)
    · refine .inl ⟨still, ?_⟩
      cases start with
      | none => exact .inr ⟨rfl, there⟩
      | some library => exact .inl there
    · exact .inr ⟨new, tree, admitted, swapped⟩
  rcases reaches_andFinally.mp writing with swapping | ⟨result, disk₃, _, _, swapped, removing, rfl⟩
  · exact settle (installing_swap here' rfl swapping)
  · have ⟨kept, still⟩ := removeStaging_reaches removing
    rw [moves_append, still, List.append_nil, kept]
    exact settle (installing_swap here' rfl (reaches_of_ends swapped))

theorem installEntry_ok {start : Option SkillsTree} {replace : Bool}
    (ends : Ends libraryDevice
      (installEntry violation libraryPath stagedPath name payloads replace) ⟨start, none⟩ events
      (.ok ()) after) : .moveIn name ∈ moves events := by
  obtain ⟨_, _, _, events₁, _, rest, rfl⟩ := ends_bind_ok.mp ends
  obtain ⟨_, _, _, events₂, _, rest', rfl⟩ := ends_bind_ok.mp rest
  obtain ⟨_, _, _, events₃, _, writing, rfl⟩ := ends_bind_ok.mp rest'
  obtain ⟨_, _, _, _, body, rfl, ⟨rfl, _⟩ | ⟨_, impossible, _⟩⟩ := ends_andFinally.mp writing
  · obtain ⟨_, _, _, _, _, swap, rfl⟩ := ends_bind_ok.mp body
    simp [swapEntry_ok swap]
  · exact nomatch impossible

end Install

theorem written_text {payloads : List (PyStr × Bytes)}
    (spelled : ∀ file ∈ payloads, ∃ place : Place, file.1 = place.text)
    (distinct : (payloads.map Prod.fst).Nodup) (files : Place → Option Bytes) (place : Place) :
    written payloads files place = (Dict.lookup place.text payloads).or (files place) := by
  induction payloads generalizing files with
  | nil => rfl
  | cons file payloads ih =>
    obtain ⟨text, payload⟩ := file
    obtain ⟨place', rfl⟩ := spelled _ List.mem_cons_self
    have ⟨fresh, distinct'⟩ := List.nodup_cons.mp distinct
    have spelled' := fun file member => spelled file (List.mem_cons_of_mem _ member)
    have same_iff : place.map Subtype.val = Search.partsOf place'.text ↔ place' = place := by
      rw [partsOf_text, Subtype.val_injective.list_map.eq_iff]
      exact eq_comm
    rw [written, List.foldl_cons]
    refine (ih spelled' distinct' _).trans ?_
    simp only [same_iff]
    by_cases here : place' = place
    · subst here
      have missing : Dict.lookup place'.text payloads = none := by
        rw [← Option.not_isSome_iff_eq_none, Dict.lookup_isSome]
        exact fresh
      rw [missing, if_pos rfl]
      simp [Dict.lookup]
    · rw [if_neg here]
      have apart : place'.text ≠ place.text := fun same => here (Place.text_injective same)
      simp [Dict.lookup, apart]

theorem get?_entryFiles {text : PyStr} {payload : Bytes} :
    (entryFiles item).get? text = some payload ↔ ∃ place : Place, text = place.text ∧
      place ≠ [] ∧ (item.nodes.get? place).bind SkillNode.reads = some payload := by
  have mem : ∀ {text payload}, (text, payload) ∈
      (item.below.entries.insertionSort fun a b =>
        a.1.map (·.val.map Search.ordinal) ≤ b.1.map (·.val.map Search.ordinal)).filterMap
          (fun entry => entry.2.reads.map (entry.1.text, ·)) ↔
      ∃ place : Place, text = place.text ∧ place ≠ [] ∧
        (item.nodes.get? place).bind SkillNode.reads = some payload := by
    intro text payload
    rw [List.mem_filterMap]
    constructor
    · rintro ⟨⟨place, node⟩, member, read⟩
      have ⟨payload', reads, its⟩ := Option.map_eq_some_iff.mp read
      have ⟨inside, there⟩ := mem_below.mp ((List.mem_insertionSort _).mp member)
      have ⟨text', payload''⟩ := Prod.ext_iff.mp its
      refine ⟨place, text'.symm, inside, ?_⟩
      rw [there, Option.bind_some, reads]
      exact congrArg some payload''
    · rintro ⟨place, rfl, inside, read⟩
      have ⟨node, there, reads⟩ := Option.bind_eq_some_iff.mp read
      refine ⟨(place, node), (List.mem_insertionSort _).mpr (mem_below.mpr ⟨inside, there⟩), ?_⟩
      rw [reads]
      rfl
  rw [entryFiles, Dict.get?_ofList, mem]
  intro text payload payload' first second
  obtain ⟨place₁, rfl, _, read⟩ := mem.mp first
  obtain ⟨place₂, same, _, read'⟩ := mem.mp second
  rw [← Place.text_injective same, read] at read'
  exact Option.some.inj read'

namespace CuratedWrite

/-- The files of the entry that the write is to leave, by those of the old one. -/
def newFiles (write : CuratedWrite) (old : Option SkillItem) (place : Place) : Option Bytes :=
  match write with
  | create _ content => if place = [skillFilename] then CodePoint.encode content else none
  | update _ content =>
    if place = [skillFilename] then CodePoint.encode content
    else old.bind fun item => item.fileAt place
  | delete _ => none

/-- What is in the library now is entirely the new entry; for a deletion that is nothing. -/
def IsNew (write : CuratedWrite) (old now : Option SkillItem) : Prop :=
  match write with
  | delete _ => now = none
  | _ => ∃ item, now = some item ∧ (∃ writable, item.node = .directory writable) ∧
      ∀ place, item.fileAt place = write.newFiles old place

/-- The entry is entirely the old one or entirely the new one, and all others are untouched. -/
def Whole (write : CuratedWrite) (before after : LibraryDisk) : Prop :=
  ∀ name : FileName, if name.val = write.name then
      after.entry name = before.entry name ∨ write.IsNew (before.entry name) (after.entry name)
    else after.entry name = before.entry name

/-- The old entry of an update has been moved out, and neither it nor the new one moved in. -/
def BetweenRenames (write : CuratedWrite) (events : List (Event LibraryOp)) : Prop :=
  match write with
  | update name _ => ∃ entry : FileName, entry.val = name ∧ moves events = [.moveOut entry]
  | _ => False

end CuratedWrite

variable {tree : SkillsTree}

theorem entry_set (there : after.library = some tree) (other : FileName)
    (same : tree = library.set name item) :
    after.entry other = if other = name then some item else library.items.get? other := by
  rw [LibraryDisk.entry, there, same]
  change (library.items.set name item).get? other = _
  rw [Dict.get?_set]
  by_cases here : name = other
  · rw [if_pos here, if_pos here.symm]
  · rw [if_neg here, if_neg (Ne.symm here)]

theorem entry_without (there : after.library = some tree) (other : FileName)
    (same : tree = library.without name) :
    after.entry other = if other = name then none else library.items.get? other := by
  rw [LibraryDisk.entry, there, same]
  change (library.items.erase name).get? other = _
  rw [Dict.get?_erase]
  by_cases here : name = other
  · rw [if_pos here, if_pos here.symm]
  · rw [if_neg here, if_neg (Ne.symm here)]

theorem without_set_entry (there : after.library = some tree) (other : FileName)
    (same : tree = (library.without name).set name item) :
    after.entry other = if other = name then some item else library.items.get? other := by
  rw [entry_set there other same]
  split
  · rfl
  · rename_i apart
    change (library.items.erase name).get? other = _
    rw [Dict.get?_erase, if_neg (Ne.symm apart)]

theorem entry_start (start : Option SkillsTree) (other : FileName) :
    LibraryDisk.entry ⟨start, none⟩ other = (start.getD .empty).items.get? other := by
  cases start <;> rfl

variable {replace : Bool}

theorem replaces_of_directory {there : Option SkillItem}
    (ok : checkDestination there name replace = .ok ()) (directory : isDirectory there = true) :
    replace = true := by
  have ⟨clear, _⟩ := guard_eq_ok.mp ok
  have found : isThere there = true := by
    cases there with
    | none => exact nomatch directory
    | some item =>
      rw [isDirectory, Option.map_some] at directory
      rw [isThere, Option.map_some]
      generalize item.node = node at directory ⊢
      match node with
      | .directory _ => rfl
      | .link .directory => rfl
  simpa [found] using clear

theorem Installing.entry {start : Option SkillsTree} {files : Place → Option Bytes}
    (installing : Installing violation libraryPath start name files replace events after)
    (other : FileName) :
    (moves events ≠ [.moveOut name] ∧ after.entry other = LibraryDisk.entry ⟨start, none⟩ other) ∨
    (∃ new, Ready violation libraryPath (start.getD .empty) name files new ∧
      moves events ≠ [.moveOut name] ∧ after.entry other =
        if other = name then some new else LibraryDisk.entry ⟨start, none⟩ other) ∨
    moves events = [.moveOut name] ∧ replace = true ∧
      isDirectory (LibraryDisk.entry ⟨start, none⟩ name) = true ∧ after.entry other =
        if other = name then none else LibraryDisk.entry ⟨start, none⟩ other := by
  rcases installing with ⟨quiet, library⟩ | ⟨new, tree, admitted, ready, there, swap⟩
  · refine .inl ⟨by rw [quiet]; exact nofun, ?_⟩
    rcases library with same | ⟨rfl, made⟩
    · rw [LibraryDisk.entry, same]
      rfl
    · rw [LibraryDisk.entry, made]
      rfl
  · simp only [entry_start]
    generalize all : moves events = renames at swap
    cases swap with
    | untouched =>
      refine .inl ⟨nofun, ?_⟩
      rw [LibraryDisk.entry, there]
      rfl
    | out replaces =>
      exact .inr (.inr ⟨rfl, replaces_of_directory admitted replaces, replaces,
        entry_without there other rfl⟩)
    | swapped replaces =>
      exact .inr (.inl ⟨new, ready, nofun, without_set_entry there other rfl⟩)
    | @back old found replaces =>
      refine .inl ⟨nofun, ?_⟩
      rw [without_set_entry there other rfl]
      split
      · rename_i same
        rw [same, found]
      · rfl
    | added fresh => exact .inr (.inl ⟨new, ready, nofun, entry_set there other rfl⟩)

variable {bytes : Bytes}

theorem written_create (place : Place) :
    written [(skillFilename.val, bytes)] (fun _ => none) place =
      if place = [skillFilename] then some bytes else none := by
  have spelled : skillFilename.val = Place.text [skillFilename] := rfl
  rw [written_text]
  · rw [Dict.lookup, spelled]
    by_cases same : place = [skillFilename]
    · rw [if_pos same, same, if_pos rfl]
      rfl
    · rw [if_neg same, if_neg fun text => same (Place.text_injective text).symm]
      rfl
  · intro file member
    rw [List.mem_singleton.mp member]
    exact ⟨_, spelled⟩
  · simp

theorem written_update (allowed : ItemAllowed violation requireWritable name item) (place : Place) :
    written ((entryFiles item).set skillFilename.val bytes).entries (fun _ => none) place =
      if place = [skillFilename] then some bytes else item.fileAt place := by
  have spelled : skillFilename.val = Place.text [skillFilename] := rfl
  obtain ⟨_, ⟨writable, itself, _⟩, _, each⟩ := allowed
  have reads : ∀ place, place ≠ [] →
      (item.nodes.get? place).bind SkillNode.reads = item.fileAt place := by
    intro place inside
    cases found : item.nodes.get? place with
    | none => rw [SkillItem.fileAt, found]; rfl
    | some node =>
      rw [SkillItem.fileAt, found]
      exact reads_of_allowed (each place node inside found)
  have old : (entryFiles item).get? place.text = item.fileAt place := by
    refine Option.ext fun payload => get?_entryFiles.trans ⟨?_, fun found => ?_⟩
    · rintro ⟨place', same, inside, read⟩
      rw [Place.text_injective same, ← reads place' inside]
      exact read
    · have inside : place ≠ [] := by
        rintro rfl
        simp [SkillItem.fileAt, itself, SkillNode.content?] at found
      exact ⟨place, rfl, inside, (reads place inside).trans found⟩
  rw [written_text]
  · change (((entryFiles item).set skillFilename.val bytes).get? place.text).or none = _
    rw [Option.or_none, Dict.get?_set, spelled, old]
    by_cases same : place = [skillFilename]
    · rw [if_pos same, same, if_pos rfl]
    · rw [if_neg same, if_neg fun text => same (Place.text_injective text).symm]
  · intro file member
    have found := Dict.mem_entries_iff.mp member
    rw [Dict.get?_set] at found
    split at found
    · rename_i same
      exact ⟨_, same.symm.trans spelled⟩
    · obtain ⟨place', same, _⟩ := get?_entryFiles.mp found
      exact ⟨place', same⟩
  · exact Dict.nodup _

variable {start : Option SkillsTree}

theorem entryName_val {text : PyStr} (ok : entryName violation text = .ok name) :
    name.val = text := by
  have ⟨entry, named, rest⟩ := bind_eq_ok.mp ok
  have ⟨_, same⟩ := guard_eq_ok.mp rest
  rw [← pure_eq_ok.mp same]
  exact (validateSkillName_eq_ok.mp named).1

theorem encodeContent_eq_ok {content : PyStr} :
    encodeContent content = .ok bytes ↔ CodePoint.encode content = some bytes := by
  rw [encodeContent]
  split
  · rename_i found
    rw [found]
    simp
  · rename_i found
    rw [found]
    simp

theorem whole_of_library (write : CuratedWrite) (kept : after.library = start) :
    write.Whole ⟨start, none⟩ after := by
  intro other
  have entry : after.entry other = LibraryDisk.entry ⟨start, none⟩ other := by
    rw [LibraryDisk.entry, kept]
    rfl
  split
  · exact .inl entry
  · exact entry

theorem Installing.whole {write : CuratedWrite} {files : Place → Option Bytes} {replace : Bool}
    (named : name.val = write.name)
    (fresh : ∀ new, Ready violation libraryPath (start.getD .empty) name files new →
      write.IsNew (LibraryDisk.entry ⟨start, none⟩ name) (some new))
    (gone : ¬ write.IsNew (LibraryDisk.entry ⟨start, none⟩ name) none)
    (between : write.BetweenRenames events ↔ replace = true ∧ moves events = [.moveOut name])
    (installing : Installing violation libraryPath start name files replace events after) :
    write.Whole ⟨start, none⟩ after ↔ ¬ write.BetweenRenames events := by
  rw [between]
  constructor
  · rintro whole ⟨_, moved⟩
    have here := whole name
    rw [if_pos named] at here
    rcases installing.entry name with ⟨other, _⟩ | ⟨_, _, other, _⟩ | ⟨_, _, directory, entry⟩
    · exact other moved
    · exact other moved
    · rw [if_pos rfl] at entry
      rw [entry] at here
      rcases here with same | new
      · rw [← same] at directory
        exact nomatch directory
      · exact gone new
  · intro settled other
    have same_iff : other.val = write.name ↔ other = name := by
      rw [← named]
      exact Subtype.ext_iff.symm
    simp only [same_iff]
    rcases installing.entry other with ⟨_, entry⟩ | ⟨new, ready, _, entry⟩ | ⟨moved, replaces, _⟩
    · split
      · exact .inl entry
      · exact entry
    · split
      · rename_i same
        subst same
        rw [if_pos rfl] at entry
        rw [entry]
        exact .inr (fresh new ready)
      · rename_i apart
        rwa [if_neg apart] at entry
    · exact absurd ⟨replaces, moved⟩ settled

theorem Ready.directory {files : Place → Option Bytes}
    (ready : Ready violation libraryPath library name files new) :
    ∃ writable, new.node = .directory writable := by
  have ⟨_, ⟨writable, itself, _⟩, _⟩ := ready.item
  exact ⟨writable, node_eq_iff.mpr itself⟩

variable {text content : PyStr}

theorem create_whole
    (reaches : Reaches libraryDevice
      (createCuratedEntry violation libraryPath stagedPath text content) ⟨start, none⟩ events after) :
    (CuratedWrite.create text content).Whole ⟨start, none⟩ after := by
  rcases reaches_bind.mp reaches with asking | ⟨name, _, _, _, naming, rest, rfl⟩
  · obtain ⟨_, rfl⟩ := reaches_ofExcept.mp asking
    exact whole_of_library _ rfl
  obtain ⟨rfl, named, rfl⟩ := ends_ofExcept.mp naming
  rcases reaches_bind.mp rest with asking | ⟨bytes, _, _, _, encoding, rest', rfl⟩
  · obtain ⟨_, rfl⟩ := reaches_ofExcept.mp asking
    exact whole_of_library _ rfl
  obtain ⟨rfl, encoded, rfl⟩ := ends_ofExcept.mp encoding
  have settle : ∀ {events}, Reaches libraryDevice (installEntry violation libraryPath stagedPath name
      [(skillFilename.val, bytes)] false) ⟨start, none⟩ events after →
      (CuratedWrite.create text content).Whole ⟨start, none⟩ after := fun {events'} installing => by
    have between : (CuratedWrite.create text content).BetweenRenames events' ↔
        false = true ∧ moves events' = [.moveOut name] := ⟨False.elim, fun h => nomatch h.1⟩
    refine (Installing.whole (entryName_val named.symm) (fun new ready => ?_) ?_ between
      (installEntry_reaches installing)).mpr id
    · refine ⟨new, rfl, ready.directory, fun place => ?_⟩
      rw [ready.its, written_create, CuratedWrite.newFiles, encodeContent_eq_ok.mp encoded.symm]
    · exact fun ⟨_, impossible, _⟩ => nomatch impossible
  rcases reaches_bind.mp rest' with installing | ⟨_, _, _, _, installed, last, _⟩
  · exact settle installing
  · obtain ⟨_, rfl⟩ := reaches_done.mp last
    exact settle (reaches_of_ends installed)

theorem directoryEntry_eq_ok (ok : directoryEntry disk name = .ok item) :
    disk.entry name = some item := by
  rw [directoryEntry] at ok
  split at ok
  · exact nomatch ok
  · rename_i found
    split at ok
    · rw [found, Except.ok.inj ok]
    · exact nomatch ok

theorem update_isNew (found : LibraryDisk.entry ⟨start, none⟩ name = some item)
    (encoded : encodeContent content = .ok bytes)
    (ready : Ready violation libraryPath (start.getD .empty) name
      (written ((entryFiles item).set skillFilename.val bytes).entries fun _ => none) new) :
    (CuratedWrite.update text content).IsNew (LibraryDisk.entry ⟨start, none⟩ name) (some new) := by
  refine ⟨new, rfl, ready.directory, fun place => ?_⟩
  have old := entry_start start name ▸ found
  rw [ready.its, written_update (ready.accepted.items name item old), CuratedWrite.newFiles,
    encodeContent_eq_ok.mp encoded, found]
  rfl

theorem update_whole
    (reaches : Reaches libraryDevice
      (updateCuratedEntry violation libraryPath stagedPath text content) ⟨start, none⟩ events after) :
    (CuratedWrite.update text content).Whole ⟨start, none⟩ after ↔
      ¬ (CuratedWrite.update text content).BetweenRenames events := by
  have nothing : ∀ {events}, moves events = [] → ((CuratedWrite.update text content).Whole
      ⟨start, none⟩ ⟨start, none⟩ ↔ ¬ (CuratedWrite.update text content).BetweenRenames events) := by
    refine fun quiet => ⟨fun _ => ?_, fun _ => whole_of_library _ rfl⟩
    rintro ⟨_, _, moved⟩
    rw [quiet] at moved
    exact nomatch moved
  rcases reaches_bind.mp reaches with asking | ⟨name, _, _, _, naming, rest, rfl⟩
  · obtain ⟨rfl, rfl⟩ := reaches_ofExcept.mp asking
    exact nothing rfl
  obtain ⟨rfl, named, rfl⟩ := ends_ofExcept.mp naming
  rw [List.nil_append]
  rcases reaches_bind.mp rest with asking | ⟨item, _, _, _, looking, rest₁, rfl⟩
  · obtain ⟨rfl, silent⟩ := reaches_reading.mp asking
    exact nothing (moves_silent silent)
  obtain ⟨rfl, rfl, looked⟩ := ends_reading_ok.mp looking
  have found := directoryEntry_eq_ok looked
  rw [List.nil_append]
  rcases reaches_bind.mp rest₁ with asking | ⟨files, _, _, _, reading, rest₂, rfl⟩
  · obtain ⟨rfl, silent⟩ := reaches_reading.mp asking
    exact nothing (moves_silent silent)
  obtain ⟨rfl, rfl, read⟩ := ends_reading_ok.mp reading
  cases read
  rw [List.nil_append]
  rcases reaches_bind.mp rest₂ with asking | ⟨bytes, _, _, _, encoding, rest₃, rfl⟩
  · obtain ⟨rfl, rfl⟩ := reaches_ofExcept.mp asking
    exact nothing rfl
  obtain ⟨rfl, encoded, rfl⟩ := ends_ofExcept.mp encoding
  rw [List.nil_append]
  have named' := entryName_val named.symm
  have settle : ∀ {events}, Reaches libraryDevice (installEntry violation libraryPath stagedPath name
      ((entryFiles item).set skillFilename.val bytes).entries true) ⟨start, none⟩ events after →
      ((CuratedWrite.update text content).Whole ⟨start, none⟩ after ↔
        ¬ (CuratedWrite.update text content).BetweenRenames events) := fun {events'} installing => by
    have between : (CuratedWrite.update text content).BetweenRenames events' ↔
        true = true ∧ moves events' = [.moveOut name] := by
      constructor
      · rintro ⟨entry, its, moved⟩
        rw [Subtype.ext (its.trans named'.symm)] at moved
        exact ⟨rfl, moved⟩
      · exact fun ⟨_, moved⟩ => ⟨name, named', moved⟩
    refine Installing.whole named' (fun new ready => ?_) ?_ between (installEntry_reaches installing)
    · exact update_isNew found encoded.symm ready
    · exact fun ⟨_, impossible, _⟩ => nomatch impossible
  rcases reaches_bind.mp rest₃ with installing | ⟨_, _, _, _, installed, last, rfl⟩
  · exact settle installing
  · obtain ⟨rfl, rfl⟩ := reaches_done.mp last
    rw [List.append_nil]
    exact settle (reaches_of_ends installed)

theorem moveOut_reaches (kept : disk.library = start)
    (reaches : Reaches libraryDevice (act (.moveOut name)) disk events after) :
    after.library = start ∨ ∃ library, start = some library ∧
      after.library = some (library.without name) := by
  rcases reaches_performing.mp reaches with ⟨_, rfl⟩ | ⟨_, _, rfl⟩ | ⟨_, left⟩ | ⟨_, left⟩
  · exact .inl kept
  · cases start with
    | none =>
      left
      change disk.library.map _ = _
      rw [kept]
      rfl
    | some library => exact .inr ⟨library, rfl, library_moveOut kept⟩
  · rw [left.resolve_right id]
    exact .inl kept
  · exact left.elim

theorem delete_whole {text : PyStr}
    (reaches : Reaches libraryDevice (deleteCuratedEntry violation text) ⟨start, none⟩ events after) :
    (CuratedWrite.delete text).Whole ⟨start, none⟩ after := by
  rcases reaches_bind.mp reaches with asking | ⟨name, _, _, _, naming, rest, rfl⟩
  · obtain ⟨_, rfl⟩ := reaches_ofExcept.mp asking
    exact whole_of_library _ rfl
  obtain ⟨rfl, named, rfl⟩ := ends_ofExcept.mp naming
  have named' := (validateSkillName_eq_ok.mp named.symm).1
  rcases reaches_bind.mp rest with asking | ⟨item, _, _, _, looking, rest₁, rfl⟩
  · obtain ⟨rfl, _⟩ := reaches_reading.mp asking
    exact whole_of_library _ rfl
  obtain ⟨rfl, _, looked⟩ := ends_reading_ok.mp looking
  have stages : (act .makeStaging).Uses Beside := ⟨trivial, trivial, trivial⟩
  rcases reaches_bind.mp rest₁ with staging | ⟨_, disk₁, _, _, staged, rest₂, rfl⟩
  · exact whole_of_library _ (beside_reaches stages staging).1
  have kept : disk₁.library = start := (beside_reaches stages (reaches_of_ends staged)).1
  have settle : ∀ {events disk}, Reaches libraryDevice
      ((act (.moveOut name)).andFinally removeStaging) disk₁ events disk →
      (CuratedWrite.delete text).Whole ⟨start, none⟩ disk := fun {events disk} moving => by
    have moved : disk.library = start ∨ ∃ library, start = some library ∧
        disk.library = some (library.without name) := by
      rcases reaches_andFinally.mp moving with moving | ⟨_, _, _, _, moved, removing, _⟩
      · exact moveOut_reaches kept moving
      · rw [(removeStaging_reaches removing).1]
        exact moveOut_reaches kept (reaches_of_ends moved)
    rcases moved with unmoved | ⟨library, rfl, gone⟩
    · exact whole_of_library _ unmoved
    · intro other
      have entry := entry_without gone other rfl
      split
      · rename_i here
        rw [if_pos (Subtype.ext (here.trans named'.symm))] at entry
        exact .inr entry
      · rename_i apart
        have apart' : other ≠ name := fun same => apart (by rw [same]; exact named')
        rw [if_neg apart'] at entry
        exact entry
  rcases reaches_bind.mp rest₂ with moving | ⟨_, _, _, _, moved, last, _⟩
  · exact settle moving
  · obtain ⟨_, rfl⟩ := reaches_done.mp last
    exact settle (reaches_of_ends moved)

theorem Installing.installed {files : Place → Option Bytes}
    (installing : Installing violation libraryPath start name files replace events after)
    (moved : .moveIn name ∈ moves events) :
    ∃ new tree, Ready violation libraryPath (start.getD .empty) name files new ∧
      after.library = some tree ∧ TreeAllowed violation false tree ∧
      after.entry name = some new := by
  rcases installing with ⟨quiet, _⟩ | ⟨new, tree, _, ready, there, swap⟩
  · rw [quiet] at moved
    exact nomatch moved
  · refine ⟨new, tree, ready, there, ?_⟩
    generalize moves events = renames at swap moved
    cases swap with
    | untouched => exact nomatch moved
    | out => simp at moved
    | swapped =>
      have entry := without_set_entry there name rfl
      rw [if_pos rfl] at entry
      exact ⟨ready.allowed.without_set, entry⟩
    | back => simp at moved
    | added =>
      have entry := entry_set there name rfl
      rw [if_pos rfl] at entry
      exact ⟨ready.allowed, entry⟩

/-- The library, as the mount's validator accepts it. -/
def Accepted (violation : PyStr → PyStr) (libraryPath : PyStr) (disk : LibraryDisk) : Prop :=
  ∃ stats, validateSkillsTree violation false libraryPath disk.library = .ok stats

theorem create_lands {result : WriteResult}
    (ends : Ends libraryDevice (createCuratedEntry violation libraryPath stagedPath text content)
      ⟨start, none⟩ events (.ok result) after) :
    Accepted violation libraryPath after ∧ ∀ name : FileName, name.val = text →
      (CuratedWrite.create text content).IsNew (LibraryDisk.entry ⟨start, none⟩ name)
        (after.entry name) := by
  have ⟨name, _, _, _, naming, rest, _⟩ := ends_bind_ok.mp ends
  obtain ⟨rfl, named, rfl⟩ := ends_ofExcept.mp naming
  have ⟨bytes, _, _, _, encoding, rest', _⟩ := ends_bind_ok.mp rest
  obtain ⟨rfl, encoded, rfl⟩ := ends_ofExcept.mp encoding
  have ⟨_, _, _, _, installed, last, _⟩ := ends_bind_ok.mp rest'
  obtain ⟨_, _, rfl⟩ := ends_done.mp last
  have installing := installEntry_reaches (reaches_of_ends installed)
  have ⟨new, tree, ready, there, allowed, entry⟩ := installing.installed (installEntry_ok installed)
  refine ⟨⟨_, validateSkillsTree_eq_ok.mpr ⟨tree, there, allowed, rfl⟩⟩, fun other same => ?_⟩
  obtain rfl : other = name := Subtype.ext (same.trans (entryName_val named.symm).symm)
  rw [entry]
  refine ⟨new, rfl, ready.directory, fun place => ?_⟩
  rw [ready.its, written_create, CuratedWrite.newFiles, encodeContent_eq_ok.mp encoded.symm]

theorem update_lands {result : WriteResult}
    (ends : Ends libraryDevice (updateCuratedEntry violation libraryPath stagedPath text content)
      ⟨start, none⟩ events (.ok result) after) :
    Accepted violation libraryPath after ∧ ∀ name : FileName, name.val = text →
      (CuratedWrite.update text content).IsNew (LibraryDisk.entry ⟨start, none⟩ name)
        (after.entry name) := by
  have ⟨name, _, _, _, naming, rest, _⟩ := ends_bind_ok.mp ends
  obtain ⟨rfl, named, rfl⟩ := ends_ofExcept.mp naming
  have ⟨item, _, _, _, looking, rest₁, _⟩ := ends_bind_ok.mp rest
  obtain ⟨rfl, _, looked⟩ := ends_reading_ok.mp looking
  have ⟨files, _, _, _, reading, rest₂, _⟩ := ends_bind_ok.mp rest₁
  obtain ⟨rfl, _, read⟩ := ends_reading_ok.mp reading
  cases read
  have ⟨bytes, _, _, _, encoding, rest₃, _⟩ := ends_bind_ok.mp rest₂
  obtain ⟨rfl, encoded, rfl⟩ := ends_ofExcept.mp encoding
  have ⟨_, _, _, _, installed, last, _⟩ := ends_bind_ok.mp rest₃
  obtain ⟨_, _, rfl⟩ := ends_done.mp last
  have installing := installEntry_reaches (reaches_of_ends installed)
  have ⟨new, tree, ready, there, allowed, entry⟩ := installing.installed (installEntry_ok installed)
  refine ⟨⟨_, validateSkillsTree_eq_ok.mpr ⟨tree, there, allowed, rfl⟩⟩, fun other same => ?_⟩
  obtain rfl : other = name := Subtype.ext (same.trans (entryName_val named.symm).symm)
  rw [entry]
  exact update_isNew (directoryEntry_eq_ok looked) encoded.symm ready

/-- Whatever fails in a write, and whenever the library is looked at or the process dies: the entry
is the old one or the new one and all others are as they were, but for an update that has moved the
old entry out and put nothing in its place. A write that succeeds leaves the new entry, and a
library that is accepted. -/
theorem curated_write_whole_iff (violation : PyStr → PyStr) (libraryPath stagedPath : PyStr)
    (write : CuratedWrite) (library : Option SkillsTree) :
    (∀ events disk, Reaches libraryDevice (write.run violation libraryPath stagedPath)
      ⟨library, none⟩ events disk →
      (write.Whole ⟨library, none⟩ disk ↔ ¬ write.BetweenRenames events)) ∧
    ∀ events result disk, (∀ name, write ≠ .delete name) →
      Ends libraryDevice (write.run violation libraryPath stagedPath) ⟨library, none⟩ events
        (.ok result) disk →
      Accepted violation libraryPath disk ∧ ∀ name : FileName, name.val = write.name →
        write.IsNew (LibraryDisk.entry ⟨library, none⟩ name) (disk.entry name) := by
  constructor
  · intro events disk reaches
    cases write with
    | create name content => exact iff_of_true (create_whole reaches) id
    | update name content => exact update_whole reaches
    | delete name => exact iff_of_true (delete_whole reaches) id
  · intro events result disk other ends
    cases write with
    | create name content => exact create_lands ends
    | update name content => exact update_lands ends
    | delete name => exact absurd rfl (other name)

section Example

def notes : FileName := ⟨lit "notes", isName_notes⟩

def notesItem : SkillItem :=
  (SkillItem.single (.directory true)).write [skillFilename] (.file (Utf8.encode "# Notes".toList))

/-- A library with one entry. -/
def notesLibrary : SkillsTree := SkillsTree.empty.set notes notesItem

def notesUpdate : CuratedWrite := .update notes.val (lit "# Other notes")

/-- An update in which the operations are done or fail as told. -/
def notesRun (told : List Bool) :
    List (Event LibraryOp) × LibraryDisk × Option (Except Failure WriteResult) :=
  (notesUpdate.run (fun _ => []) [] []).follow libraryDevice ⟨some notesLibrary, none⟩ told

theorem update_lands_in_notes :
    notesUpdate.Whole ⟨some notesLibrary, none⟩ (notesRun (List.replicate 7 true)).2.1 ∧
      Accepted (fun _ => []) [] (notesRun (List.replicate 7 true)).2.1 := by
  have all := curated_write_whole_iff (fun _ => []) [] [] notesUpdate (some notesLibrary)
  have landed : (notesRun (List.replicate 7 true)).2.2 = some (.ok ⟨notes, lit "updated"⟩) := by
    decide
  refine ⟨(all.1 _ _ (reaches_follow _ _ _)).mpr ?_, (all.2 _ _ _ nofun (ends_follow landed)).1⟩
  have renames : moves (notesRun (List.replicate 7 true)).1 = [.moveOut notes, .moveIn notes] := by
    decide
  rintro ⟨_, _, moved⟩
  exact nomatch renames.symm.trans moved

theorem notes_gone_between_renames :
    Accepted (fun _ => []) [] ⟨some notesLibrary, none⟩ ∧
    (∃ events disk, Reaches libraryDevice (notesUpdate.run (fun _ => []) [] [])
      ⟨some notesLibrary, none⟩ events disk ∧ ¬ notesUpdate.Whole ⟨some notesLibrary, none⟩ disk) ∧
    ∃ events disk, Ends libraryDevice (notesUpdate.run (fun _ => []) [] [])
      ⟨some notesLibrary, none⟩ events (.error .os) disk ∧
      disk.staging.isNone = true ∧ ¬ notesUpdate.Whole ⟨some notesLibrary, none⟩ disk := by
  have lost : ∀ disk : LibraryDisk, (disk.entry notes).isNone = true →
      ¬ notesUpdate.Whole ⟨some notesLibrary, none⟩ disk := by
    intro disk missing whole
    have named : notes.val = notesUpdate.name := rfl
    have here := whole notes
    rw [if_pos named, Option.isNone_iff_eq_none.mp missing] at here
    rcases here with old | ⟨_, new, _⟩
    · exact nomatch old
    · exact nomatch new
  -- the rename that moves the new entry in fails, and the one that moves the old one back
  have failed : (notesRun (List.replicate 5 true ++ [false, false, true])).2.2 =
      some (.error .os) := by decide
  refine ⟨⟨⟨1, 1, 7⟩, by decide⟩, ⟨_, _, reaches_follow _ _ (List.replicate 5 true), ?_⟩,
    ⟨_, _, ends_follow failed, ?_, ?_⟩⟩
  · exact lost _ (by decide)
  · decide
  · exact lost _ (by decide)

end Example

end AutoTrade.CuratedLibrary
