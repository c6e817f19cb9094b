import AutoTrade.Environment.Tools.Workspace

/-!
# What the file tools reach

A write goes to one file, at a place in the workspace that is not under `skills/` and no read-only
file; but the place may have a name that begins with a dot, when a link leads there. What is read is
below the place that a root leads to.
-/

namespace AutoTrade.Workspace

open PyValue (lit)
open FileTree (Tree Place Step Target Kind Errno stepsTo realpath maxLinks Leads Settled)
open Search (partsOf startsWithDot pathText slash)
open FileTools (WriteCall EditCall WriteValue EditValue)

section Paths

variable {circular : Place PyStr → Except Failure (Place PyStr)} {mayCreate : Place PyStr → Bool}
  {shown : PyStr → Text} {repr : PyStr → PyStr} {disk after : Disk} {root target : Place PyStr}
  {path : PyStr}

variable {place : Place PyStr}

theorem resolvePath_of_realPlace (real : realPlace disk target = some place) :
    resolvePath circular disk target = .ok place := by
  rw [resolvePath, real]

theorem realPlace_of_stat (there : stat disk target = .ok place) :
    realPlace disk target = some place :=
  FileTree.realpath_of_walk there

theorem stat_of_pathExists (there : pathExists disk target = true) :
    ∃ place, stat disk target = .ok place := by
  rw [pathExists] at there
  cases found : stat disk target with
  | ok place => exact ⟨place, rfl⟩
  | error _ =>
    rw [found] at there
    exact nomatch there

theorem realPlace_settled (settled : Settled disk.links place) :
    realPlace disk place = some place := by
  have leads : Leads disk.links [] (stepsTo place) ([] ++ place) place.length := settled.leads
  exact FileTree.realpath_eq_some_iff.mpr ⟨_, leads⟩

theorem settled_realPlace (real : realPlace disk target = some place) :
    Settled disk.links place := by
  have ⟨_, leads⟩ := FileTree.realpath_eq_some_iff.mp real
  exact leads.settled FileTree.settled_nil

theorem fileAt_of_isFile (real : realPlace disk target = some place)
    (file : isFile disk target = true) : (disk.fileAt place).isSome := by
  rw [isFile] at file
  split at file
  · rename_i place' walked
    cases real.symm.trans (realPlace_of_stat walked)
    exact file
  · exact nomatch file

variable {mustExist : Bool}

theorem resolve_eq_ok (ok : resolve circular disk root path mustExist (some false) = .ok target) :
    (pathExists disk (root ++ partsOf path) = true ∧
        resolvePath circular disk (root ++ partsOf path) = .ok target ∧ isFile disk target = true) ∨
      pathExists disk (root ++ partsOf path) = false ∧ target = root ++ partsOf path := by
  rw [resolve] at ok
  have ⟨_, ok⟩ := guard_eq_ok.mp ok
  split at ok
  · have ⟨never, _⟩ := guard_eq_ok.mp ok
    exact absurd rfl never
  · have ⟨_, ok⟩ := guard_eq_ok.mp ok
    have ⟨_, ok⟩ := guard_eq_ok.mp ok
    have ⟨_, ok⟩ := guard_eq_ok.mp ok
    have ⟨_, _, ok⟩ := bind_eq_ok.mp ok
    have ⟨_, ok⟩ := guard_eq_ok.mp ok
    have ⟨_, ok⟩ := guard_eq_ok.mp ok
    split at ok
    · rename_i there
      have ⟨actual, resolved, ok⟩ := bind_eq_ok.mp ok
      have ⟨_, ok⟩ := guard_eq_ok.mp ok
      have ⟨_, ok⟩ := guard_eq_ok.mp ok
      have ⟨file, ok⟩ := guard_eq_ok.mp ok
      cases ok
      exact .inl ⟨there, resolved, by simpa using file⟩
    · rename_i missing
      have ⟨_, _, ok⟩ := bind_eq_ok.mp ok
      have ⟨_, ok⟩ := guard_eq_ok.mp ok
      have ⟨_, ok⟩ := guard_eq_ok.mp ok
      cases ok
      exact .inr ⟨by simpa using missing, rfl⟩

theorem relative_eq_ok {text : PyStr} (ok : relative circular disk root target = .ok text) :
    ∃ place, resolvePath circular disk target = .ok place ∧ root <+: place ∧
      text = asPosix (place.drop root.length) := by
  have ⟨place, resolved, ok⟩ := bind_eq_ok.mp ok
  refine ⟨place, resolved, ?_⟩
  split at ok
  · rename_i inside
    cases ok
    exact ⟨List.isPrefixOf_iff_prefix.mp inside, rfl⟩
  · exact nomatch ok

/-- The places below the root of a workspace that a typed write may go to. -/
structure Typed (parts : Place PyStr) : Prop where
  skills : parts.head? ≠ some skillsDir
  readonly : ∀ file ∈ readonlyFiles, parts ≠ [file] ∧ parts ≠ [outputDir, file]

theorem removePrefix_append (start text : PyStr) : removePrefix start (start ++ text) = text := by
  rw [removePrefix, if_pos (List.isPrefixOf_iff_prefix.mpr (List.prefix_append _ _)),
    List.drop_left]

theorem typed_of_text {parts : Place PyStr}
    (skills : ¬ (asPosix parts = skillsDir ∨ (skillsDir ++ lit "/").isPrefixOf (asPosix parts)))
    (readonly : ¬ (asPosix parts ∈ readonlyFiles ∨
      removePrefix (outputDir ++ lit "/") (asPosix parts) ∈ readonlyFiles)) : Typed parts := by
  constructor
  · intro head
    cases parts with
    | nil => exact nomatch head
    | cons part parts =>
      cases Option.some.inj head
      refine skills ?_
      cases parts with
      | nil => exact .inl (by simp [asPosix, pathText])
      | cons next parts =>
        refine .inr (List.isPrefixOf_iff_prefix.mpr ?_)
        simp only [asPosix, pathText, List.intercalate_cons_cons]
        exact List.prefix_append _ _
  · intro file member
    constructor
    · rintro rfl
      exact readonly (.inl (by simpa [asPosix, pathText] using member))
    · rintro rfl
      refine readonly (.inr ?_)
      have text : asPosix [outputDir, file] = outputDir ++ lit "/" ++ file := by
        simp [asPosix, pathText, List.intercalate_cons_cons, lit, CodePoint.ofText, slash]
      rwa [text, removePrefix_append]

variable {rootName : Option Text}

theorem resolveTarget_eq_ok
    (ok : resolveTarget circular disk root path rootName mustExist = .ok target) :
    resolve circular disk root (addressed disk root path rootName) mustExist (some false) =
        .ok target ∧
      ∃ place, resolvePath circular disk target = .ok place ∧ root <+: place ∧
        Typed (place.drop root.length) := by
  have ⟨target', resolved, ok⟩ := bind_eq_ok.mp ok
  have ⟨text, shown, ok⟩ := bind_eq_ok.mp ok
  have ⟨skills, ok⟩ := guard_eq_ok.mp ok
  have ⟨readonly, ok⟩ := guard_eq_ok.mp ok
  cases ok
  have ⟨place, real, inside, same⟩ := relative_eq_ok shown
  subst same
  exact ⟨resolved, place, real, inside, typed_of_text skills readonly⟩

/-- Every file is what it was. -/
def Unwritten (before after : Disk) : Prop := ∀ place, after.fileAt place = before.fileAt place

theorem room_of_resolve
    (resolved : resolve circular disk root path mustExist (some false) = .ok target)
    (made : disk.mkdirs mayCreate target.dropLast = (.ok (), after))
    (opened : after.openWrite target = .ok place) :
    realPlace disk (root ++ partsOf path) = some place ∧ realPlace disk target = some place ∧
      (after.dirAt place.dropLast = true ∧ after.free place = true ∨
        (after.fileAt place).isSome) := by
  obtain ⟨links, files⟩ := FileTree.mkdirs_keeps mayCreate disk target.dropLast
  rw [made] at links files
  obtain ⟨real, _, there⟩ := FileTree.openWrite_eq_ok opened
  rw [links] at real
  rcases resolve_eq_ok resolved with ⟨here, found, file⟩ | ⟨missing, same⟩
  · -- a file that is there is its own place
    obtain ⟨actual, walked⟩ := stat_of_pathExists here
    have spelled := realPlace_of_stat walked
    rw [resolvePath_of_realPlace spelled] at found
    cases found
    have own := realPlace_settled (settled_realPlace spelled)
    cases own.symm.trans real
    refine ⟨spelled, own, .inr ?_⟩
    rw [files]
    exact fileAt_of_isFile own file
  · subst same
    refine ⟨real, real, there.elim (fun walked => ?_) .inl⟩
    rcases FileTree.mkdirs_eq_ok made with same | ⟨directory, above, inside, free⟩
    · rw [pathExists, stat, ← same, walked] at missing
      cases missing
    · -- nothing is in a directory that is new
      have some : root ++ partsOf path ≠ [] := by
        intro empty
        rw [empty, pathExists, stat, stepsTo, List.map_nil, Tree.walk] at missing
        cases missing
      obtain ⟨plain, gone⟩ := FileTree.free_iff.mp (free ((root ++ partsOf path).getLast some))
      have none : after.walk false maxLinks []
          (stepsTo ((root ++ partsOf path).dropLast ++ [_])) = _ :=
        FileTree.walk_concat above inside plain
      rw [List.dropLast_append_getLast some, walked, gone] at none
      cases none

/-- Nothing is written and the call fails. -/
def Refused {α : Type} (before : Disk) (outcome : Outcome α) : Prop :=
  (∃ failure, outcome.result = .error failure) ∧ outcome.written = [] ∧
    Unwritten before outcome.disk

/-- One file is written. -/
def WritesAt {α : Type} (place : Place PyStr) (before : Disk) (outcome : Outcome α) : Prop :=
  outcome.written = [place] ∧ (outcome.disk.fileAt place).isSome ∧
    ∀ other ≠ place, outcome.disk.fileAt other = before.fileAt other

variable (mayCreate shown) in
theorem writeText_cases (text content : PyStr) (opened : disk.openWrite target = .ok place)
    (room : disk.dirAt place.dropLast = true ∧ disk.free place = true ∨
      (disk.fileAt place).isSome) :
    Refused disk (writeText mayCreate shown disk target text content) ∨
      WritesAt place disk (writeText mayCreate shown disk target text content) := by
  have put : ∀ content, ((disk.putFile place content).fileAt place).isSome ∧
      ∀ other ≠ place, (disk.putFile place content).fileAt other = disk.fileAt other := by
    intro content
    refine ⟨?_, fun other differ => ?_⟩
    · rw [FileTree.fileAt_putFile content room, if_pos rfl]
      rfl
    · rw [FileTree.fileAt_putFile content room, if_neg differ]
  rw [writeText, opened]
  simp only [FileTools.writeText]
  split
  · refine .inr ⟨rfl, ?_⟩
    split
    · exact put _
    · exact put _
  · refine .inl ⟨⟨_, rfl⟩, rfl, ?_⟩
    -- a file that may not be written keeps its bytes
    cases found : disk.fileAt place with
    | none =>
      simp only [Workspace.opened, found]
      exact fun _ => rfl
    | some file =>
      simp only [Workspace.opened, found]
      intro other
      rw [FileTree.fileAt_putFile _ room]
      split
      · rename_i same
        rw [same, found]
      · rfl

theorem write_cases (content : PyStr)
    (resolved : resolveTarget circular disk root path rootName mustExist = .ok target) :
    Refused disk (write circular mayCreate shown disk root target content) ∨
      ∃ place, realPlace disk (root ++ partsOf (addressed disk root path rootName)) = some place ∧
        root <+: place ∧ Typed (place.drop root.length) ∧
        WritesAt place disk (write circular mayCreate shown disk root target content) := by
  have ⟨checked, place, real, inside, typed⟩ := resolveTarget_eq_ok resolved
  have ⟨_, files⟩ := FileTree.mkdirs_keeps mayCreate disk target.dropLast
  rw [write]
  split
  · exact .inl ⟨⟨_, rfl⟩, rfl, fun _ => rfl⟩
  · rename_i text _
    split
    · rename_i made
      rw [made] at files
      exact .inl ⟨⟨_, rfl⟩, rfl, files⟩
    · rename_i made
      rw [made] at files
      exact .inl ⟨⟨_, rfl⟩, rfl, files⟩
    · rename_i after made
      rw [made] at files
      cases opened : after.openWrite target with
      | error errno =>
        rw [writeText, opened]
        exact .inl ⟨⟨_, rfl⟩, rfl, files⟩
      | ok place' =>
        have ⟨spelled, own, room⟩ := room_of_resolve checked made opened
        rw [resolvePath_of_realPlace own] at real
        cases real
        rcases writeText_cases mayCreate shown text content opened room with
          ⟨failed, none, same⟩ | ⟨one, there, others⟩
        · exact .inl ⟨failed, none, fun other => (same other).trans (files other)⟩
        · exact .inr ⟨_, spelled, inside, typed, one, there,
            fun other differ => (others other differ).trans (files other)⟩

/-- What is asked of a typed write: it refuses, or one file is written, at a place in the workspace
that is allowed and has no name that begins with a dot. -/
def Bounded {α : Type} (root : Place PyStr) (before : Disk) (outcome : Outcome α) : Prop :=
  Refused before outcome ∨ ∃ place, root <+: place ∧ Typed (place.drop root.length) ∧
    (∀ name ∈ place.drop root.length, startsWithDot name = false) ∧ WritesAt place before outcome

/-- The place that a path leads to has no name that begins with a dot. -/
def LeadsToShown (disk : Disk) (root : Place PyStr) (path : PyStr) (rootName : Option Text) :
    Prop :=
  ∀ place, realPlace disk (root ++ partsOf (addressed disk root path rootName)) = some place →
    ∀ name ∈ place.drop root.length, startsWithDot name = false

theorem bounded_iff {α : Type} {outcome : Outcome α}
    (cases : Refused disk outcome ∨
      ∃ place, realPlace disk (root ++ partsOf (addressed disk root path rootName)) = some place ∧
        root <+: place ∧ Typed (place.drop root.length) ∧ WritesAt place disk outcome) :
    Bounded root disk outcome ↔ outcome.written = [] ∨ LeadsToShown disk root path rootName := by
  constructor
  · rintro (⟨_, none, _⟩ | ⟨place, _, _, dotless, one, _⟩)
    · exact .inl none
    · rcases cases with ⟨_, none, _⟩ | ⟨place', real, _, _, one', _⟩
      · exact .inl none
      · have same := (List.cons.inj (one.symm.trans one')).1
        subst same
        refine .inr fun found real' => ?_
        cases real.symm.trans real'
        exact dotless
  · rcases cases with refused | ⟨place, real, inside, typed, one, there⟩
    · exact fun _ => .inl refused
    · rintro (none | shown)
      · exact nomatch one.symm.trans none
      · exact .inr ⟨place, inside, typed, shown place real, one, there⟩

theorem writeFile_cases (call : WriteCall) :
    Refused disk (writeFile circular mayCreate shown disk root call) ∨
      ∃ place, realPlace disk (root ++ partsOf (addressed disk root call.path call.root)) =
          some place ∧
        root <+: place ∧ Typed (place.drop root.length) ∧
        WritesAt place disk (writeFile circular mayCreate shown disk root call) := by
  rw [writeFile]
  split
  · exact .inl ⟨⟨_, rfl⟩, rfl, fun _ => rfl⟩
  · split
    · exact .inl ⟨⟨_, rfl⟩, rfl, fun _ => rfl⟩
    · rename_i target resolved
      rcases write_cases call.content resolved with ⟨⟨failure, failed⟩, rest⟩ | wrote
      · refine .inl ⟨⟨failure, ?_⟩, rest⟩
        simp only [failed]
        rfl
      · exact .inr wrote

theorem editFile_cases (undecodable : Utf8.Bytes → Text) (call : EditCall) :
    Refused disk (editFile circular mayCreate shown undecodable disk root call) ∨
      ∃ place, realPlace disk (root ++ partsOf (addressed disk root call.path call.root)) =
          some place ∧
        root <+: place ∧ Typed (place.drop root.length) ∧
        WritesAt place disk (editFile circular mayCreate shown undecodable disk root call) := by
  rw [editFile]
  split
  · exact .inl ⟨⟨_, rfl⟩, rfl, fun _ => rfl⟩
  · rename_i target text updated count edited
    have ⟨target', resolved, edited⟩ := bind_eq_ok.mp edited
    have ⟨_, _, edited⟩ := bind_eq_ok.mp edited
    have ⟨_, _, edited⟩ := bind_eq_ok.mp edited
    have ⟨_, _, edited⟩ := bind_eq_ok.mp edited
    cases edited
    rcases write_cases _ resolved with ⟨⟨failure, failed⟩, rest⟩ | wrote
    · refine .inl ⟨⟨failure, ?_⟩, rest⟩
      simp only [failed]
      rfl
    · exact .inr wrote

/-- A place below the one that a root leads to. -/
def BelowRoot (disk : Disk) (layout : Layout) (root : Place PyStr) (name : Text)
    (place : Place PyStr) : Prop :=
  ∃ path own, base layout root name = .ok path ∧ realPlace disk path = some own ∧ own <+: place

theorem safeSubpath_eq_ok {base : Place PyStr} {own : Place PyStr}
    (real : realPlace disk base = some own)
    (ok : safeSubpath circular repr disk base path = .ok target)
    (there : realPlace disk target = some place) : own <+: place := by
  have settled := realPlace_settled (settled_realPlace real)
  have ⟨own', resolved, ok⟩ := bind_eq_ok.mp ok
  rw [resolvePath_of_realPlace real] at resolved
  cases resolved
  split at ok
  · cases ok
    cases settled.symm.trans there
    exact List.prefix_refl _
  · have ⟨_, ok⟩ := guard_eq_ok.mp ok
    have ⟨_, ok⟩ := guard_eq_ok.mp ok
    have ⟨_, ok⟩ := guard_eq_ok.mp ok
    have ⟨_, ok⟩ := guard_eq_ok.mp ok
    have ⟨target', _, ok⟩ := bind_eq_ok.mp ok
    have ⟨_, inside, ok⟩ := bind_eq_ok.mp ok
    cases ok
    have ⟨place', here, inside⟩ := bind_eq_ok.mp inside
    have ⟨own', resolved, inside⟩ := bind_eq_ok.mp inside
    rw [resolvePath_of_realPlace there] at here
    rw [resolvePath_of_realPlace settled] at resolved
    cases here
    cases resolved
    split at inside
    · exact nomatch inside
    · rename_i below
      exact List.isPrefixOf_iff_prefix.mp (by simpa using below)

theorem realPlace_of_isDir (directory : disk.isDir target = true) :
    ∃ place, realPlace disk target = some place := by
  rw [Tree.isDir] at directory
  split at directory
  · rename_i place walked
    exact ⟨place, FileTree.realpath_of_walk walked⟩
  · cases directory

variable {layout : Layout} {name : Text}

theorem resolveSearch_eq_ok {accepted : PyStr}
    (ok : resolveSearch circular repr disk layout root name path = .ok (target, accepted)) :
    ∃ place, realPlace disk target = some place ∧ BelowRoot disk layout root name place := by
  have ⟨base, found, ok⟩ := bind_eq_ok.mp ok
  have ⟨directory, ok⟩ := guard_eq_ok.mp ok
  have inside : disk.isDir base = true := by simpa using directory
  have ⟨own, real⟩ := realPlace_of_isDir inside
  have below : ∀ {path target}, safeSubpath circular repr disk base path = .ok target →
      pathExists disk target = true →
      ∃ place, realPlace disk target = some place ∧ BelowRoot disk layout root name place := by
    intro path target resolved there
    have ⟨place, walked⟩ := stat_of_pathExists there
    have here := realPlace_of_stat walked
    exact ⟨place, here, base, own, found, real, safeSubpath_eq_ok real resolved here⟩
  have ⟨target', resolved, ok⟩ := bind_eq_ok.mp ok
  split at ok
  · rename_i there
    cases ok
    exact below resolved there
  · split at ok
    · exact nomatch ok
    · split at ok
      · have ⟨candidate, resolved, ok⟩ := bind_eq_ok.mp ok
        split at ok
        · rename_i there
          cases ok
          exact below resolved there
        · exact nomatch ok
      · exact nomatch ok

theorem readFile_below
    (read : readFile circular mayCreate repr disk layout root name path = .ok place) :
    BelowRoot disk layout root name place := by
  have ⟨⟨target, accepted⟩, resolved, read⟩ := bind_eq_ok.mp read
  have ⟨own, real, below⟩ := resolveSearch_eq_ok resolved
  have ⟨_, read⟩ := guard_eq_ok.mp read
  split at read
  · exact nomatch read
  · rename_i place' walked
    have ⟨_, read⟩ := guard_eq_ok.mp read
    have ⟨_, read⟩ := guard_eq_ok.mp read
    cases read
    cases real.symm.trans (realPlace_of_stat walked)
    exact below

/-- A search opens what its argument leads to, or what is below that with no link on the way. -/
def Searches (disk : Disk) (ripgrep : Place PyStr → Step PyStr → List (Place PyStr)) : Prop :=
  ∀ directory step place, place ∈ ripgrep directory step →
    ∃ found, disk.walk false maxLinks [] (stepsTo directory ++ [step]) = .ok found ∧ found <+: place

theorem grep_below {places : List (Place PyStr)}
    {ripgrep : Place PyStr → Step PyStr → List (Place PyStr)} (searches : Searches disk ripgrep)
    (read : grep circular repr ripgrep disk layout root name path = .ok places) :
    ∀ place ∈ places, BelowRoot disk layout root name place := by
  have ⟨⟨target, accepted⟩, resolved, read⟩ := bind_eq_ok.mp read
  have ⟨own, real, path, base, found, leads, below⟩ := resolveSearch_eq_ok resolved
  have inside : ∀ {place above}, realPlace disk target = some above → above <+: place →
      BelowRoot disk layout root name place := by
    intro place above real' under
    cases real.symm.trans real'
    exact ⟨path, base, found, leads, below.trans under⟩
  have stayed : ∀ place ∈ ripgrep target .stay, BelowRoot disk layout root name place := by
    intro place member
    have ⟨above, walked, under⟩ := searches _ _ _ member
    have ⟨_, leads⟩ := FileTree.leads_of_walk walked
    have ⟨mid, _, _, before, after⟩ := leads.of_append
    cases after with
    | stay after =>
      cases after
      exact inside (FileTree.realpath_eq_some_iff.mpr ⟨_, before⟩) under
  dsimp only at read
  split at read
  · split at read
    · rename_i file last
      cases read
      intro place member
      have ⟨above, walked, under⟩ := searches _ _ _ member
      have steps : stepsTo target.dropLast ++ [.down file] = stepsTo target := by
        rw [stepsTo, stepsTo, ← List.map_singleton, ← List.map_append,
          List.dropLast_append_getLast? file last]
      rw [steps] at walked
      exact inside (FileTree.realpath_of_walk walked) under
    · cases read
      exact stayed
  · cases read
    exact stayed

theorem listed_below {start place : Place PyStr} (listed : Listed disk start place) :
    start <+: place := by
  induction listed with
  | target => exact List.prefix_refl _
  | subdir _ _ _ ih => exact ih.trans (List.prefix_append _ _)

end Paths

/-- A workspace with a directory that is not shown, and a link to a file in it. -/
def linkedCache : Disk :=
  (((Tree.bare.put [lit "work"] .directory rfl rfl rfl).put [lit "work", lit ".cache"] .directory
    rfl rfl rfl).link [lit "work", lit "notes.md"] (targetOf (lit ".cache/notes.md")) rfl rfl)

theorem links_linkedCache : linkedCache.links.get? [lit "work"] = none ∧
    linkedCache.links.get? [lit "work", lit "notes.md"] =
      some ⟨false, [.down (lit ".cache"), .down (lit "notes.md")]⟩ ∧
    linkedCache.links.get? [lit "work", lit ".cache"] = none ∧
    linkedCache.links.get? [lit "work", lit ".cache", lit "notes.md"] = none := by decide

theorem dirs_linkedCache : linkedCache.dirAt [] = true ∧ linkedCache.dirAt [lit "work"] = true ∧
    linkedCache.dirAt [lit "work", lit ".cache"] = true := ⟨rfl, rfl, rfl⟩

def workspaceOfCache : SafeWorkspace linkedCache where
  root := [lit "work"]
  settled := FileTree.settled_nil.concat links_linkedCache.1
  directory := dirs_linkedCache.2.1

/-- `ripgrep`, which opens the files that are not hidden. -/
def searchShown (disk : Disk) (directory : Place PyStr) (step : Step PyStr) : List (Place PyStr) :=
  match disk.walk false maxLinks [] (stepsTo directory ++ [step]) with
  | .ok found => disk.nodes.keys.filter fun place => found.isPrefixOf place &&
      (disk.fileAt place).isSome && !(place.drop found.length).any startsWithDot
  | .error _ => []

theorem searches_searchShown (disk : Disk) : Searches disk (searchShown disk) := by
  intro directory step place member
  rw [searchShown] at member
  split at member
  · rename_i found walked
    have ⟨_, kept⟩ := List.mem_filter.mp member
    simp only [Bool.and_eq_true] at kept
    exact ⟨found, walked, List.isPrefixOf_iff_prefix.mp kept.1.1⟩
  · exact nomatch member

theorem realPlace_alongLink : realPlace linkedCache [lit "work", lit "notes.md"] =
    some [lit "work", lit ".cache", lit "notes.md"] := by
  have ⟨work, notes, cache, inside⟩ := links_linkedCache
  exact FileTree.realpath_eq_some_iff.mpr
    ⟨_, .down work (.link notes (.down cache (.down inside .done)) .done)⟩

theorem walk_alongLink (create : Bool) :
    linkedCache.walk create maxLinks [] (stepsTo [lit "work", lit "notes.md"]) =
      if create then .ok [lit "work", lit ".cache", lit "notes.md"] else .error .noEntry := by
  have ⟨work, notes, cache, inside⟩ := links_linkedCache
  have ⟨root, workDir, cacheDir⟩ := dirs_linkedCache
  have work' : (linkedCache.nodes.get? [lit "work"]).isSome = true := rfl
  have cache' : (linkedCache.nodes.get? [lit "work", lit ".cache"]).isSome = true := rfl
  have missing : (linkedCache.nodes.get? [lit "work", lit ".cache", lit "notes.md"]).isSome =
    false := rfl
  simp [stepsTo, Tree.walk, maxLinks, Target.start, *]

theorem walk_work :
    linkedCache.walk false maxLinks [] (stepsTo [lit "work"]) = .ok [lit "work"] := by
  have ⟨work, _⟩ := links_linkedCache
  have ⟨root, _⟩ := dirs_linkedCache
  have work' : (linkedCache.nodes.get? [lit "work"]).isSome = true := rfl
  simp [stepsTo, Tree.walk, *]

theorem mkdirs_work : linkedCache.mkdirs (fun _ => true) [lit "work"] = (.ok (), linkedCache) := by
  have walked : linkedCache.walk false maxLinks [] (stepsTo []) = .ok [] := by
    simp [stepsTo, Tree.walk]
  have taken : linkedCache.mkdir (fun _ => true) [lit "work"] = .error .exists' := by
    have free : linkedCache.free ([] ++ [lit "work"]) = false := rfl
    simp only [Tree.mkdir, List.getLast?_singleton, List.dropLast_singleton, walked,
      dirs_linkedCache.1, free]
    rfl
  rw [Tree.mkdirs, taken]
  simp [Tree.isDir, walk_work, dirs_linkedCache]

/-- A `write_file` along the link. -/
def alongLink : WriteCall where
  path := lit "notes.md"
  root := none
  content := lit "seen"

theorem addressed_alongLink :
    addressed linkedCache [lit "work"] alongLink.path alongLink.root = lit "notes.md" := by
  have other : (lit "workspace/").isPrefixOf (lit "notes.md") = false := by decide
  simp [addressed, alongLink, other]

theorem partsOf_alongLink : partsOf (lit "notes.md") = [lit "notes.md"] := by decide

theorem resolveTarget_alongLink (circular : Place PyStr → Except Failure (Place PyStr)) :
    resolveTarget circular linkedCache [lit "work"] alongLink.path alongLink.root false =
      .ok [lit "work", lit "notes.md"] := by
  have missing : pathExists linkedCache [lit "work", lit "notes.md"] = false := by
    rw [pathExists, stat, walk_alongLink]
    rfl
  have above : realPlace linkedCache [lit "work", lit "notes.md"].dropLast = some [lit "work"] :=
    realPlace_of_stat walk_work
  have resolved : resolve circular linkedCache [lit "work"] (lit "notes.md") false (some false) =
      .ok [lit "work", lit "notes.md"] := by
    simp only [resolve, partsOf_alongLink, List.singleton_append, resolvePath, realPlace_alongLink,
      missing, above]
    rfl
  have text : relative circular linkedCache [lit "work"] [lit "work", lit "notes.md"] =
      .ok (lit ".cache/notes.md") := by
    simp only [relative, resolvePath, realPlace_alongLink]
    rfl
  rw [resolveTarget, addressed_alongLink, resolved]
  change (relative circular linkedCache [lit "work"] [lit "work", lit "notes.md"] >>= _) = _
  rw [text]
  rfl

theorem written_alongLink :
    (writeFile (fun _ => .error .circular) (fun _ => true) (fun _ => []) linkedCache [lit "work"]
      alongLink).written = [[lit "work", lit ".cache", lit "notes.md"]] := by
  have text : relative (fun _ => .error .circular) linkedCache [lit "work"]
      [lit "work", lit "notes.md"] = .ok (lit ".cache/notes.md") := by
    simp only [relative, resolvePath, realPlace_alongLink]
    rfl
  have opens : linkedCache.openWrite [lit "work", lit "notes.md"] =
      .ok [lit "work", lit ".cache", lit "notes.md"] := by
    rw [Tree.openWrite, walk_alongLink]
    rfl
  have short : ¬ FileTools.maxWriteChars < alongLink.content.length := by decide
  simp only [writeFile, short, resolveTarget_alongLink, write, text, List.dropLast, mkdirs_work,
    writeText, opens]
  rfl

end AutoTrade.Workspace
