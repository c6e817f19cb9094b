import AutoTrade.Environment.Tools.Search

/-!
# Pages of a listing

The walk comes upon every matching file once. Read one after the other, the pages give them all, in
the order of the walk, exactly when no page that is too long holds a name with a line feed before
its cut, or begins with a name that the cut falls in.
-/

namespace AutoTrade.Search

open PyValue (lit)

variable {fnmatchcase : PyStr → PyStr → Bool} {pattern : Parts}

/-- The matches among what a walk comes upon. -/
def found (events : List Event) : List Parts :=
  events.filterMap fun event =>
    match event with
    | .found path => some path
    | .skipped _ => none

theorem found_append (events events' : List Event) :
    found (events ++ events') = found events ++ found events' := List.filterMap_append

/-- A name that is not hidden. -/
def Shown (name : PyStr) : Prop := isSkipped [name] = false

/-- The files below a directory, by the names that lead to them: through directories that can be
listed, none of them a symlink and no name hidden. -/
inductive Lists : Node → Parts → Prop where
  | file {entries : List (PyStr × Node)} {name : PyStr} (member : (name, .file) ∈ entries)
      (shown : Shown name) : Lists (.dir true entries) [name]
  | inside {entries : List (PyStr × Node)} {name : PyStr} {node : Node} {path : Parts}
      (member : (name, node) ∈ entries) (shown : Shown name) (rest : Lists node path) :
      Lists (.dir true entries) (name :: path)

variable {path : Parts} {node : Node}

theorem Lists.ne_nil (lists : Lists node path) : path ≠ [] := by
  cases lists <;> exact List.cons_ne_nil _ _

theorem isSkipped_append (path path' : Parts) :
    isSkipped (path ++ path') = (isSkipped path || isSkipped path') := by
  simp only [isSkipped, List.any_append]
  cases path.any (· ∈ vcsDirs) <;> cases path.any startsWithDot <;> simp

/-- What a directory on the stack stands for. -/
def Under (pattern : Parts) (fnmatchcase : PyStr → PyStr → Bool) (top : Parts × Node)
    (path : Parts) : Prop :=
  ∃ rest, Lists top.2 rest ∧ path = top.1 ++ rest ∧ globMatchParts fnmatchcase path pattern = true

variable {entries : List (PyStr × Node)}

theorem mem_visitFile {directory path : Parts} (shown : isSkipped directory = false) :
    path ∈ found (entries.filterMap (visitFile fnmatchcase pattern directory)) ↔
      ∃ name, (name, .file) ∈ entries ∧ Shown name ∧ path = directory ++ [name] ∧
        globMatchParts fnmatchcase path pattern = true := by
  have hidden : ∀ name, isSkipped (directory ++ [name]) = isSkipped [name] := fun name => by
    rw [isSkipped_append, shown, Bool.false_or]
  have each : ∀ entry, (visitFile fnmatchcase pattern directory entry).bind (fun event =>
      match event with
      | .found path => some path
      | .skipped _ => none) = some path ↔
      ∃ name, entry = (name, .file) ∧ Shown name ∧ path = directory ++ [name] ∧
        globMatchParts fnmatchcase path pattern = true := by
    intro ⟨name, node⟩
    cases node with
    | file =>
      simp only [visitFile, hidden, Shown]
      by_cases seen : isSkipped [name] = false ∧
          globMatchParts fnmatchcase (directory ++ [name]) pattern = true
      · simp only [seen.1, seen.2]
        constructor
        · intro same
          have same := Option.some.inj same
          exact ⟨name, rfl, seen.1, same.symm, same ▸ seen.2⟩
        · rintro ⟨name', same, _, rfl, _⟩
          cases same
          rfl
      · rw [if_neg (by simpa [Bool.and_eq_true] using seen)]
        refine iff_of_false nofun ?_
        rintro ⟨name', same, shown', rfl, fits⟩
        cases same
        exact seen ⟨shown', fits⟩
    | _ => simp [visitFile]
  rw [found, List.filterMap_filterMap, List.mem_filterMap]
  constructor
  · intro ⟨entry, member, is⟩
    have ⟨name, same, rest⟩ := (each entry).mp is
    exact ⟨name, same ▸ member, rest⟩
  · intro ⟨name, member, rest⟩
    exact ⟨_, member, (each _).mpr ⟨name, rfl, rest⟩⟩

variable {directory : Parts}

theorem subdir_eq_some {entry : PyStr × Node} {top : Parts × Node}
    (shown : isSkipped directory = false) :
    subdir directory entry = some top ↔
      entry.2.isDir = true ∧ Shown entry.1 ∧ top = (directory ++ [entry.1], entry.2) := by
  have hidden : isSkipped (directory ++ [entry.1]) = isSkipped [entry.1] := by
    rw [isSkipped_append, shown, Bool.false_or]
  cases node : entry.2 with
  | dir listable entries =>
    simp only [subdir, node, hidden, Shown, Node.isDir, true_and]
    cases isSkipped [entry.1] <;> simp [eq_comm]
  | _ => simp [subdir, node, Node.isDir]

/-- The stack of a walk: what is on it is not hidden. -/
def AllShown (stack : List (Parts × Node)) : Prop := ∀ top ∈ stack, isSkipped top.1 = false

variable {stack : List (Parts × Node)}

theorem allShown_subdirs (shown : isSkipped directory = false) (all : AllShown stack) :
    AllShown (entries.filterMap (subdir directory) ++ stack) := by
  intro top member
  rcases List.mem_append.mp member with new | old
  · have ⟨entry, _, is⟩ := List.mem_filterMap.mp new
    have ⟨_, shown', same⟩ := (subdir_eq_some shown).mp is
    rw [same, isSkipped_append, shown, shown']
    rfl
  · exact all top old

theorem mem_walkFrom (all : AllShown stack) :
    path ∈ found (walkFrom fnmatchcase pattern stack) ↔
      ∃ top ∈ stack, Under pattern fnmatchcase top path := by
  fun_induction walkFrom fnmatchcase pattern stack with
  | case1 => simp [found]
  | case2 directory entries stack ih =>
    have shown := all _ List.mem_cons_self
    have others : AllShown stack := fun top member => all top (List.mem_cons_of_mem _ member)
    rw [found_append, List.mem_append, mem_visitFile shown, ih (allShown_subdirs shown others)]
    have perm := List.mergeSort_perm entries fun a b => decide (a.1.map ordinal ≤ b.1.map ordinal)
    simp only [List.mem_append, List.mem_filterMap, sortEntries, perm.mem_iff, subdir_eq_some shown]
    constructor
    · rintro (⟨name, member, shown', rfl, fits⟩ |
        ⟨top, ⟨entry, member, _, shown', rfl⟩ | member, under⟩)
      · exact ⟨_, List.mem_cons_self, [name], .file member shown', rfl, fits⟩
      · obtain ⟨rest, lists, same, fits⟩ := under
        refine ⟨_, List.mem_cons_self, entry.1 :: rest, .inside member shown' lists, ?_, fits⟩
        rw [same, List.append_assoc]
        rfl
      · exact ⟨top, List.mem_cons_of_mem _ member, under⟩
    · rintro ⟨top, member, rest, lists, same, fits⟩
      rcases List.mem_cons.mp member with rfl | member
      · cases lists with
        | file member shown' => exact .inl ⟨_, member, shown', same, fits⟩
        | @inside _ name node path member shown' lists =>
          have isDir : node.isDir = true := by cases lists <;> rfl
          refine .inr ⟨_, .inl ⟨_, member, isDir, shown', rfl⟩, path, lists, ?_, fits⟩
          rw [same, List.append_assoc]
          rfl
      · exact .inr ⟨top, .inr member, rest, lists, same, fits⟩
  | case3 directory entries stack ih =>
    have others : AllShown stack := fun top member => all top (List.mem_cons_of_mem _ member)
    change path ∈ found (walkFrom fnmatchcase pattern stack) ↔ _
    rw [ih others, List.exists_mem_cons_iff]
    refine (or_iff_right ?_).symm
    rintro ⟨rest, lists, _⟩
    cases lists
  | case4 top stack listed unlisted ih =>
    have others : AllShown stack := fun top member => all top (List.mem_cons_of_mem _ member)
    rw [ih others, List.exists_mem_cons_iff]
    refine (or_iff_right ?_).symm
    rintro ⟨rest, lists, _⟩
    obtain ⟨directory, node⟩ := top
    cases lists with
    | file => exact listed _ _ rfl
    | inside => exact listed _ _ rfl

/-- No directory on the stack is below another. -/
def Incomparable (top top' : Parts × Node) : Prop := ¬ top.1 <+: top'.1 ∧ ¬ top'.1 <+: top.1

theorem nodup_visitFile (distinct : (entries.map Prod.fst).Nodup) :
    (found (entries.filterMap (visitFile fnmatchcase pattern directory))).Nodup := by
  -- the names of the matches stand in the entries in the same order
  have names : (found (entries.filterMap (visitFile fnmatchcase pattern directory))).Sublist
      (entries.map fun entry => directory ++ [entry.1]) := by
    induction entries with
    | nil => exact .refl _
    | cons entry entries ih =>
      have later := ih (List.nodup_cons.mp distinct).2
      rw [List.filterMap_cons, List.map_cons]
      have visited : visitFile fnmatchcase pattern directory entry = none ∨
          visitFile fnmatchcase pattern directory entry =
            some (.found (directory ++ [entry.1])) := by
        rw [visitFile]
        split
        · split
          · exact .inr rfl
          · exact .inl rfl
        · exact .inl rfl
      rcases visited with none | seen
      · rw [none]
        exact later.cons _
      · rw [seen]
        exact later.cons_cons _
  refine List.Nodup.sublist names ?_
  have apart : Function.Injective fun name : PyStr => directory ++ [name] := fun name name' same =>
    (List.cons.inj (List.append_cancel_left same)).1
  have mapped := distinct.map apart
  rwa [List.map_map] at mapped

theorem not_prefix_of_incomparable {top : Parts × Node} {name : PyStr}
    (apart : ¬ directory <+: top.1 ∧ ¬ top.1 <+: directory) :
    ¬ directory ++ [name] <+: top.1 ∧ ¬ top.1 <+: directory ++ [name] := by
  constructor
  · exact fun below => apart.1 ((List.prefix_append _ _).trans below)
  · intro above
    rcases List.prefix_concat_iff.mp above with same | above
    · exact apart.1 (same ▸ List.prefix_append _ _)
    · exact apart.2 above

theorem incomparable_subdirs (shown : isSkipped directory = false)
    (distinct : (entries.map Prod.fst).Nodup)
    (apart : ((directory, node) :: stack).Pairwise Incomparable) :
    (entries.filterMap (subdir directory) ++ stack).Pairwise Incomparable := by
  have ⟨first, others⟩ := List.pairwise_cons.mp apart
  refine List.pairwise_append.mpr ⟨?_, others, ?_⟩
  · refine List.Pairwise.filterMap _ ?_ (List.pairwise_map.mp distinct)
    intro entry entry' differ top is top' is'
    have ⟨_, _, same⟩ := (subdir_eq_some shown).mp is
    have ⟨_, _, same'⟩ := (subdir_eq_some shown).mp is'
    have never : ∀ {name name' : PyStr}, name ≠ name' →
        ¬ directory ++ [name] <+: directory ++ [name'] := by
      intro name name' differ below
      have whole := below.eq_of_length (by simp)
      exact differ (List.cons.inj (List.append_cancel_left whole)).1
    rw [same, same']
    exact ⟨never differ, never differ.symm⟩
  · intro top new top' old
    have ⟨entry, _, is⟩ := List.mem_filterMap.mp new
    have ⟨_, _, same⟩ := (subdir_eq_some shown).mp is
    rw [same]
    exact not_prefix_of_incomparable (first top' old)

theorem named_subdirs (shown : isSkipped directory = false)
    (each : ∀ entry ∈ entries, Named entry.2) (all : ∀ top ∈ stack, Named top.2) :
    ∀ top ∈ entries.filterMap (subdir directory) ++ stack, Named top.2 := by
  intro top member
  rcases List.mem_append.mp member with new | old
  · have ⟨entry, inside, is⟩ := List.mem_filterMap.mp new
    have ⟨_, _, same⟩ := (subdir_eq_some shown).mp is
    rw [same]
    exact each entry inside
  · exact all top old

theorem nodup_walkFrom (all : AllShown stack) (named : ∀ top ∈ stack, Named top.2)
    (apart : stack.Pairwise Incomparable) :
    (found (walkFrom fnmatchcase pattern stack)).Nodup := by
  fun_induction walkFrom fnmatchcase pattern stack with
  | case1 => exact List.nodup_nil
  | case2 directory entries stack ih =>
    have shown := all _ List.mem_cons_self
    have others : AllShown stack := fun top member => all top (List.mem_cons_of_mem _ member)
    have perm : (sortEntries entries).Perm entries := List.mergeSort_perm _ _
    cases named _ List.mem_cons_self with
    | dir distinct names each =>
      have distinct' : ((sortEntries entries).map Prod.fst).Nodup :=
        (perm.map Prod.fst).nodup_iff.mpr distinct
      have each' : ∀ entry ∈ sortEntries entries, Named entry.2 := fun entry member =>
        each entry (perm.mem_iff.mp member)
      have shown' : AllShown ((sortEntries entries).filterMap (subdir directory) ++ stack) :=
        allShown_subdirs shown others
      have later := ih shown'
        (named_subdirs shown each' fun top member => named top (List.mem_cons_of_mem _ member))
        (incomparable_subdirs shown distinct' apart)
      rw [found_append]
      refine List.Nodup.append (nodup_visitFile distinct') later ?_
      intro path here there
      have ⟨name, _, _, same, _⟩ := (mem_visitFile shown).mp here
      have ⟨top, member, rest, lists, same', _⟩ := (mem_walkFrom shown').mp there
      rcases List.mem_append.mp member with new | old
      · have ⟨entry, _, is⟩ := List.mem_filterMap.mp new
        have ⟨_, _, top'⟩ := (subdir_eq_some shown).mp is
        rw [top', same, List.append_assoc] at same'
        have whole := List.append_cancel_left same'
        exact lists.ne_nil (List.cons.inj whole).2.symm
      · have above : top.1 <+: directory ++ [name] := ⟨rest, by rw [← same', same]⟩
        exact (not_prefix_of_incomparable ((List.pairwise_cons.mp apart).1 top old)).2 above
  | case3 directory entries stack ih =>
    exact ih (fun top member => all top (List.mem_cons_of_mem _ member))
      (fun top member => named top (List.mem_cons_of_mem _ member)) (List.pairwise_cons.mp apart).2
  | case4 top stack listed unlisted ih =>
    exact ih (fun top member => all top (List.mem_cons_of_mem _ member))
      (fun top member => named top (List.mem_cons_of_mem _ member)) (List.pairwise_cons.mp apart).2

theorem takeMatches_eq (offset limit : Nat) (events : List Event) (taken : Taken)
    (fresh : taken.sourceTruncated = false) (room : taken.files.length ≤ limit) :
    let after := takeMatches offset limit events taken
    let skip := offset - taken.seenMatches
    let left := limit - taken.files.length
    after.files = taken.files ++ (((found events).map pathText).drop skip).take left ∧
      after.sourceTruncated = decide (skip + left < (found events).length) ∧
      (after.sourceTruncated = false →
        after.seenMatches = taken.seenMatches + (found events).length) := by
  induction events generalizing taken with
  | nil => simp [takeMatches, found, fresh]
  | cons event events ih =>
    cases event with
    | skipped path =>
      have next := ih { taken with skipped := taken.skipped ++ [path] } fresh room
      exact next
    | found path =>
      have all : found (.found path :: events) = path :: found events := rfl
      rw [takeMatches, all]
      by_cases before : taken.seenMatches + 1 ≤ offset
      · have next := ih { taken with seenMatches := taken.seenMatches + 1 } fresh room
        have one : offset - taken.seenMatches = offset - (taken.seenMatches + 1) + 1 := by omega
        simp only [before, if_true] at next ⊢
        rw [one, List.map_cons, List.drop_succ_cons, List.length_cons]
        have ⟨files, truncated, seen⟩ := next
        refine ⟨files, ?_, fun whole => ?_⟩
        · rw [truncated, decide_eq_decide]
          omega
        · rw [seen whole]
          omega
      · have none : offset - taken.seenMatches = 0 := by omega
        simp only [before, if_false]
        by_cases full : limit ≤ taken.files.length
        · have overlong : limit - taken.files.length = 0 := by omega
          simp only [full, if_true, none, overlong, List.take_zero, List.append_nil]
          exact ⟨trivial, (decide_eq_true (by simp)).symm, nofun⟩
        · have next := ih { taken with
            seenMatches := taken.seenMatches + 1, files := taken.files ++ [pathText path] } fresh
            (by simp only [List.length_append, List.length_singleton]; omega)
          have one : limit - taken.files.length = limit - (taken.files.length + 1) + 1 := by omega
          have still : offset - (taken.seenMatches + 1) = 0 := by omega
          simp only [full, if_false, List.length_append, List.length_singleton, still] at next ⊢
          have ⟨files, truncated, seen⟩ := next
          rw [none, one, List.map_cons, List.drop_zero, List.take_succ_cons, List.length_cons]
          refine ⟨?_, ?_, fun whole => ?_⟩
          · rw [files, List.append_assoc, List.drop_zero]
            rfl
          · rw [truncated, decide_eq_decide]
            omega
          · rw [seen whole]
            omega

/-- The page of the names from an offset on. -/
structure PageOf (names : List PyStr) (limit offset : Nat) (page : Page) : Prop where
  filenames : page.filenames = (budgetPageLines ((names.drop offset).take limit)).1
  returned : page.paging.returned = page.filenames.length
  truncated : page.paging.truncated = true ↔ offset + limit < names.length ∨
    page.filenames.length ≠ ((names.drop offset).take limit).length
  total : ∀ n, page.paging.total = some n → n = names.length

theorem pageOf_eq {taken : Taken} {limit : Nat} (few : taken.files.length ≤ limit) (offset : Nat) :
    let page := pageOf taken limit offset
    page.filenames = (budgetPageLines taken.files).1 ∧
      page.paging.returned = page.filenames.length ∧
      (page.paging.truncated = true ↔ taken.sourceTruncated = true ∨
        page.filenames.length ≠ taken.files.length) ∧
      page.paging.total = if taken.sourceTruncated then none
        else some (taken.seenMatches - taken.files.length + taken.files.length) := by
  have all : taken.files.take limit = taken.files := List.take_of_length_le few
  simp only [pageOf, applyPaging, Nat.not_lt_zero, if_false, List.drop_zero, all, Nat.zero_add,
    Nat.lt_irrefl, decide_false, Bool.or_false]
  by_cases same : (budgetPageLines taken.files).1.length = taken.files.length
  · simp [same]
  · simp [same]

theorem pageOf_takeMatches (events : List Event) (limit offset : Nat) :
    PageOf ((found events).map pathText) limit offset
      (pageOf (takeMatches offset limit events ⟨[], [], 0, false⟩) limit offset) := by
  have ⟨files, truncated, seen⟩ :=
    takeMatches_eq offset limit events ⟨[], [], 0, false⟩ rfl (Nat.zero_le limit)
  generalize takeMatches offset limit events ⟨[], [], 0, false⟩ = taken at files truncated seen ⊢
  simp only [Nat.sub_zero, List.nil_append, List.length_nil, Nat.zero_add] at files truncated seen
  have few : taken.files.length ≤ limit := by
    rw [files]
    exact List.length_take_le _ _
  have within : taken.files.length ≤ (found events).length := by
    rw [files, List.length_take, List.length_drop, List.length_map]
    omega
  have ⟨filenames, returned, more, total⟩ := pageOf_eq few offset
  refine ⟨files ▸ filenames, returned, ?_, fun n is => ?_⟩
  · rw [more, truncated, decide_eq_true_eq, List.length_map, ← files]
  · rw [total] at is
    split at is
    · exact nomatch is
    · rename_i whole
      rw [seen (by simpa using whole)] at is
      rw [List.length_map, ← Option.some.inj is]
      omega

theorem newline_not_mem_splitOn (text : PyStr) : ∀ line ∈ text.splitOn newline, newline ∉ line := by
  induction text with
  | nil => simp
  | cons point text ih =>
    rw [List.splitOn_cons_eq_if_modifyHead]
    split
    · exact List.forall_mem_cons.mpr ⟨List.not_mem_nil, ih⟩
    · rename_i other
      cases lines : text.splitOn newline with
      | nil => exact nofun
      | cons line lines =>
        rw [lines] at ih
        have ⟨here, later⟩ := List.forall_mem_cons.mp ih
        refine List.forall_mem_cons.mpr ⟨?_, later⟩
        intro member
        rcases List.mem_cons.mp member with same | inside
        · exact other (by simp [same])
        · exact here inside

theorem length_joinLines_append (lines lines' : List PyStr) :
    (joinLines lines).length ≤ (joinLines (lines ++ lines')).length := by
  induction lines with
  | nil => exact Nat.zero_le _
  | cons line lines ih =>
    cases lines with
    | nil =>
      cases lines' with
      | nil => exact Nat.le_refl _
      | cons line' lines' => simp [joinLines, List.intercalate_cons_cons]
    | cons next lines =>
      simp only [joinLines, List.cons_append, List.intercalate_cons_cons,
        List.length_append] at ih ⊢
      omega

/-- A page that is too long is cut behind some of its names: neither they nor what is left of the
next hold a line feed. -/
def CutsBehind (visible kept : List PyStr) : Prop :=
  maxResultChars < (joinLines visible).length ∧ kept ≠ [] ∧
    ∃ rest cut, visible = kept ++ rest ∧ rest ≠ [] ∧
      (joinLines visible).take maxResultChars = joinLines (kept ++ [cut]) ∧
      ∀ line ∈ kept ++ [cut], newline ∉ line

theorem budgetPageLines_cut {visible kept : List PyStr} (cuts : CutsBehind visible kept) :
    (budgetPageLines visible).1 = kept := by
  have ⟨long, _, rest, cut, _, _, text, plain⟩ := cuts
  have split : (joinLines (kept ++ [cut])).splitOn newline = kept ++ [cut] :=
    List.splitOn_intercalate newline plain (by simp)
  simp only [budgetPageLines, Nat.not_le.mpr long, if_false, text, split, List.dropLast_concat]

theorem budgetPageLines_fits {visible : List PyStr}
    (fits : (joinLines visible).length ≤ maxResultChars) :
    (budgetPageLines visible).1 = visible := by
  simp only [budgetPageLines, fits, if_true]

theorem cutsBehind_of_prefix {names visible : List PyStr} (start : visible <+: names)
    (long : maxResultChars < (joinLines visible).length)
    (shown : (budgetPageLines visible).1 <+: names) (some : (budgetPageLines visible).1 ≠ []) :
    CutsBehind visible (budgetPageLines visible).1 := by
  have whole : ∃ cut, ((joinLines visible).take maxResultChars).splitOn newline =
      (budgetPageLines visible).1 ++ [cut] := by
    simp only [budgetPageLines, Nat.not_le.mpr long, if_false]
    exact ⟨_, (List.dropLast_concat_getLast (List.splitOn_ne_nil _ _)).symm⟩
  have ⟨cut, split⟩ := whole
  generalize (budgetPageLines visible).1 = kept at shown some split ⊢
  have text : (joinLines visible).take maxResultChars = joinLines (kept ++ [cut]) := by
    rw [← split]
    exact (List.intercalate_splitOn newline).symm
  have plain : ∀ line ∈ kept ++ [cut], newline ∉ line := by
    rw [← split]
    exact newline_not_mem_splitOn _
  have short : (joinLines (kept ++ [cut])).length < (joinLines visible).length := by
    rw [← text, List.length_take]
    omega
  rcases List.prefix_or_prefix_of_prefix shown start with ⟨rest, inside⟩ | ⟨rest, overlong⟩
  · refine ⟨long, some, rest, cut, inside.symm, ?_, text, plain⟩
    rintro rfl
    rw [List.append_nil] at inside
    rw [inside] at short
    exact absurd (length_joinLines_append visible [cut]) (Nat.not_le.mpr short)
  · rw [← overlong, List.append_assoc] at short
    exact absurd (length_joinLines_append visible (rest ++ [cut])) (Nat.not_le.mpr short)

/-- The names that are read from an offset on, page after page as long as a page says that it is
truncated: there is an end to it. -/
inductive Chain (call : Nat → Except Tools.PyException Result) : Nat → List PyStr → Prop where
  | last {offset : Nat} {result : Result} (returned : call offset = .ok result)
      (whole : result.page.paging.truncated = false) : Chain call offset result.page.filenames
  | next {offset : Nat} {result : Result} {names : List PyStr} (returned : call offset = .ok result)
      (truncated : result.page.paging.truncated = true)
      (rest : Chain call (offset + result.page.paging.returned) names) :
      Chain call offset (result.page.filenames ++ names)

/-- The offsets that are read from. -/
inductive ReadFrom (call : Nat → Except Tools.PyException Result) : Nat → Prop where
  | first : ReadFrom call 0
  | next {offset : Nat} {result : Result} (before : ReadFrom call offset)
      (returned : call offset = .ok result) (truncated : result.page.paging.truncated = true) :
      ReadFrom call (offset + result.page.paging.returned)

/-- The pages give the names, each as often and in the order they stand in, and no other; and the
total that a page knows is how many they are. -/
structure Composes (call : Nat → Except Tools.PyException Result) (names : List PyStr) : Prop where
  yields : Chain call 0 names
  honest : ∀ {offset result}, ReadFrom call offset → call offset = .ok result →
    (∀ name ∈ result.page.filenames, name ∈ names) ∧
      ∀ n, result.page.paging.total = some n → n = names.length

/-- The names fit on pages: each page is short enough, or it is cut behind some of its names. -/
inductive FitsPages (limit : Nat) : List PyStr → Prop where
  | last {names : List PyStr} (few : names.length ≤ limit)
      (fits : (joinLines names).length ≤ maxResultChars) : FitsPages limit names
  | full {names : List PyStr} (more : limit < names.length)
      (fits : (joinLines (names.take limit)).length ≤ maxResultChars)
      (rest : FitsPages limit (names.drop limit)) : FitsPages limit names
  | cut {names kept : List PyStr} (cuts : CutsBehind (names.take limit) kept)
      (rest : FitsPages limit (names.drop kept.length)) : FitsPages limit names

section Reading

variable {call : Nat → Except Tools.PyException Result} {names : List PyStr} {limit : Nat}
  (pages : ∀ offset, ∃ result, call offset = .ok result ∧ PageOf names limit offset result.page)

include pages

variable {offset : Nat} {result : Result}

theorem page_of (returned : call offset = .ok result) : PageOf names limit offset result.page := by
  have ⟨result', returned', page⟩ := pages offset
  rw [returned] at returned'
  rwa [Except.ok.inj returned']

theorem cutsBehind_of_page (returned : call offset = .ok result)
    (shown : result.page.filenames <+: names.drop offset) (some : result.page.filenames ≠ [])
    (overlong : ¬ (joinLines ((names.drop offset).take limit)).length ≤ maxResultChars) :
    CutsBehind ((names.drop offset).take limit) result.page.filenames := by
  have page := page_of pages returned
  rw [page.filenames] at shown some ⊢
  exact cutsBehind_of_prefix (List.take_prefix _ _) (Nat.not_le.mp overlong) shown some

theorem fitsPages_of_chain {given : List PyStr} (chain : Chain call offset given)
    (same : given = names.drop offset) : FitsPages limit (names.drop offset) := by
  induction chain with
  | @last offset result returned whole =>
    have page := page_of pages returned
    have calm := mt page.truncated.mpr (by simp [whole])
    rw [not_or, not_not] at calm
    by_cases fits : (joinLines ((names.drop offset).take limit)).length ≤ maxResultChars
    · have few : (names.drop offset).length ≤ limit := by
        rw [List.length_drop]
        omega
      rw [List.take_of_length_le few] at fits
      exact .last few fits
    · have some : result.page.filenames ≠ [] := by
        intro none
        rw [same] at none
        rw [none] at fits
        simp [joinLines] at fits
      have ⟨_, _, rest, cut, visible, more, _⟩ := 
        cutsBehind_of_page pages returned (same ▸ List.prefix_refl _) some fits
      have lengths := calm.2
      rw [visible, List.length_append] at lengths
      exact absurd (List.length_eq_zero_iff.mp (by omega)) more
  | @next offset result rest returned truncated chain ih =>
    have page := page_of pages returned
    have later : rest = names.drop (offset + result.page.paging.returned) := by
      rw [page.returned, ← List.drop_drop, ← same, List.drop_left]
    have fitsLater := ih later
    by_cases some : result.page.filenames = []
    · -- a page without names leaves the reader where it was
      rwa [page.returned, some, List.length_nil, Nat.add_zero] at fitsLater
    · rw [page.returned] at fitsLater
      by_cases fits : (joinLines ((names.drop offset).take limit)).length ≤ maxResultChars
      · have shown : result.page.filenames = (names.drop offset).take limit := by
          rw [page.filenames, budgetPageLines_fits fits]
        have more : offset + limit < names.length := by
          rcases page.truncated.mp truncated with more | differ
          · exact more
          · exact absurd (congrArg List.length shown) differ
        have count : result.page.filenames.length = limit := by
          rw [shown, List.length_take, List.length_drop]
          omega
        rw [count, ← List.drop_drop] at fitsLater
        exact .full (by rw [List.length_drop]; omega) fits fitsLater
      · have cuts := cutsBehind_of_page pages returned ⟨rest, same⟩ some fits
        refine .cut cuts ?_
        rwa [List.drop_drop]

theorem page_last (returned : call offset = .ok result) (few : (names.drop offset).length ≤ limit)
    (fits : (joinLines (names.drop offset)).length ≤ maxResultChars) :
    result.page.filenames = names.drop offset ∧ result.page.paging.truncated = false := by
  have page := page_of pages returned
  have whole : (names.drop offset).take limit = names.drop offset := List.take_of_length_le few
  have shown : result.page.filenames = names.drop offset := by
    rw [page.filenames, whole, budgetPageLines_fits fits]
  refine ⟨shown, Bool.eq_false_iff.mpr fun truncated => ?_⟩
  rcases page.truncated.mp truncated with more | differ
  · rw [List.length_drop] at few
    omega
  · rw [shown, whole] at differ
    exact differ rfl

theorem page_full (returned : call offset = .ok result)
    (more : limit < (names.drop offset).length)
    (fits : (joinLines ((names.drop offset).take limit)).length ≤ maxResultChars) :
    result.page.filenames = (names.drop offset).take limit ∧
      result.page.paging.truncated = true := by
  have page := page_of pages returned
  rw [List.length_drop] at more
  refine ⟨?_, page.truncated.mpr (.inl (by omega))⟩
  rw [page.filenames, budgetPageLines_fits fits]

theorem page_cut (returned : call offset = .ok result) {kept : List PyStr}
    (cuts : CutsBehind ((names.drop offset).take limit) kept) :
    result.page.filenames = kept ∧ result.page.paging.truncated = true := by
  have page := page_of pages returned
  have shown : result.page.filenames = kept := by
    rw [page.filenames, budgetPageLines_cut cuts]
  refine ⟨shown, page.truncated.mpr (.inr ?_)⟩
  have ⟨_, _, rest, _, visible, left, _⟩ := cuts
  rw [shown, visible, List.length_append]
  have := List.length_pos_iff.mpr left
  omega

theorem chain_next {kept : List PyStr} (returned : call offset = .ok result)
    (start : kept <+: names.drop offset)
    (page : result.page.filenames = kept ∧ result.page.paging.truncated = true)
    (rest : Chain call (offset + kept.length) ((names.drop offset).drop kept.length)) :
    Chain call offset (names.drop offset) := by
  have ⟨shown, truncated⟩ := page
  rw [← shown, ← (page_of pages returned).returned] at rest
  have chain := Chain.next returned truncated rest
  have ⟨after, all⟩ := start
  rwa [(page_of pages returned).returned, shown, ← all, List.drop_left, all] at chain

theorem chain_of_fitsPages {given : List PyStr} (fits : FitsPages limit given)
    (same : given = names.drop offset) : Chain call offset given := by
  induction fits generalizing offset with
  | last few fits =>
    subst same
    have ⟨result, returned, _⟩ := pages offset
    have ⟨shown, whole⟩ := page_last pages returned few fits
    have chain := Chain.last returned whole
    rwa [shown] at chain
  | @full given more fits rest ih =>
    subst same
    have ⟨result, returned, _⟩ := pages offset
    have count : ((names.drop offset).take limit).length = limit := by
      rw [List.length_take]
      omega
    refine chain_next pages returned (List.take_prefix _ _) (page_full pages returned more fits) ?_
    rw [count]
    exact ih List.drop_drop
  | @cut given kept cuts rest ih =>
    subst same
    have ⟨result, returned, _⟩ := pages offset
    have ⟨_, _, after, _, visible, _⟩ := cuts
    have start : kept <+: (names.drop offset).take limit := ⟨after, visible.symm⟩
    exact chain_next pages returned (start.trans (List.take_prefix _ _))
      (page_cut pages returned cuts) (ih List.drop_drop)

theorem fitsPages_of_readFrom (fits : FitsPages limit names) (read : ReadFrom call offset) :
    FitsPages limit (names.drop offset) := by
  induction read with
  | first => exact fits
  | @next offset result before returned truncated ih =>
    rw [(page_of pages returned).returned, ← List.drop_drop]
    generalize given : names.drop offset = left at ih
    cases ih with
    | last few fits =>
      subst given
      have ⟨_, whole⟩ := page_last pages returned few fits
      exact absurd truncated (by rw [whole]; exact Bool.false_ne_true)
    | full more fits rest =>
      subst given
      rw [(page_full pages returned more fits).1, List.length_take, Nat.min_eq_left more.le]
      exact rest
    | cut cuts rest =>
      subst given
      rw [(page_cut pages returned cuts).1]
      exact rest

theorem composes_iff : Composes call names ↔ FitsPages limit names := by
  constructor
  · intro ⟨yields, _⟩
    exact fitsPages_of_chain pages yields rfl
  · intro fits
    refine ⟨chain_of_fitsPages pages fits rfl, fun {offset result} read returned => ?_⟩
    have page := page_of pages returned
    refine ⟨fun name member => List.mem_of_mem_drop (i := offset) ?_, page.total⟩
    have left := fitsPages_of_readFrom pages fits read
    generalize given : names.drop offset = left' at left ⊢
    cases left with
    | last few fits =>
      subst given
      rwa [(page_last pages returned few fits).1] at member
    | full more fits rest =>
      subst given
      rw [(page_full pages returned more fits).1] at member
      exact List.mem_of_mem_take member
    | cut cuts rest =>
      subst given
      rw [(page_cut pages returned cuts).1] at member
      have ⟨_, _, after, _, visible, _⟩ := cuts
      refine List.mem_of_mem_take (i := limit) ?_
      rw [visible]
      exact List.mem_append_left _ member

end Reading

theorem slash_not_mem_of_lists (lists : Lists node path) (named : Named node) :
    ∀ name ∈ path, slash ∉ name := by
  induction lists with
  | file member _ =>
    cases named with
    | dir _ names _ =>
      exact List.forall_mem_singleton.mpr (names _ member).2
  | inside member _ _ ih =>
    cases named with
    | dir _ names each =>
      exact List.forall_mem_cons.mpr ⟨(names _ member).2, ih (each _ member)⟩

/-- The matching files below a directory, as a page names them, in the order of the walk. -/
def walkOrder (fnmatchcase : PyStr → PyStr → Bool) (pattern : PyStr) (target : Node) :
    List PyStr :=
  (found (walkFrom fnmatchcase (partsOf pattern) [([], target)])).map pathText

variable {target : Node}

theorem mem_found_walkFrom :
    path ∈ found (walkFrom fnmatchcase pattern [([], target)]) ↔
      Lists target path ∧ globMatchParts fnmatchcase path pattern = true := by
  have shown : AllShown [(([] : Parts), target)] := by simp [AllShown, isSkipped]
  rw [mem_walkFrom shown]
  constructor
  · rintro ⟨top, member, rest, lists, rfl, fits⟩
    cases List.mem_singleton.mp member
    exact ⟨lists, fits⟩
  · intro ⟨lists, fits⟩
    exact ⟨_, List.mem_cons_self, path, lists, rfl, fits⟩

theorem nodup_walkOrder {pattern : PyStr} (named : Named target) :
    (walkOrder fnmatchcase pattern target).Nodup := by
  have shown : AllShown [(([] : Parts), target)] := by simp [AllShown, isSkipped]
  have once : (found (walkFrom fnmatchcase (partsOf pattern) [([], target)])).Nodup :=
    nodup_walkFrom shown (List.forall_mem_singleton.mpr named) (List.pairwise_singleton _ _)
  refine once.map_on fun path member path' member' same => ?_
  -- the names of a path are what stands between its slashes
  have back : ∀ path, Lists target path → (pathText path).splitOn slash = path :=
    fun path lists =>
      List.splitOn_intercalate slash (slash_not_mem_of_lists lists named) lists.ne_nil
  rw [← back path (mem_found_walkFrom.mp member).1, same,
    back path' (mem_found_walkFrom.mp member').1]

theorem mem_walkOrder {pattern name : PyStr} :
    name ∈ walkOrder fnmatchcase pattern target ↔
      ∃ path, Lists target path ∧ globMatchParts fnmatchcase path (partsOf pattern) = true ∧
        name = pathText path := by
  rw [walkOrder, List.mem_map]
  constructor
  · rintro ⟨path, member, rfl⟩
    have ⟨lists, fits⟩ := mem_found_walkFrom.mp member
    exact ⟨path, lists, fits, rfl⟩
  · rintro ⟨path, lists, fits, rfl⟩
    exact ⟨path, mem_found_walkFrom.mpr ⟨lists, fits⟩, rfl⟩

theorem glob_eq_ok (repr : PyStr → PyStr) (root path : PyStr) (entries : List (PyStr × Node))
    {pattern : PyStr} (valid : validateRelativePattern pattern = .ok ()) (headLimit : Option Nat)
    (offset : Nat) :
    ∃ result, glob fnmatchcase repr root path (.dir true entries) pattern headLimit offset =
      .ok result ∧ PageOf (walkOrder fnmatchcase pattern (.dir true entries))
        (headLimitOf headLimit) offset result.page := by
  let taken := takeMatches offset (headLimitOf headLimit)
    (walkFrom fnmatchcase (partsOf pattern) [([], .dir true entries)]) ⟨[], [], 0, false⟩
  let page := pageOf taken (headLimitOf headLimit) offset
  refine ⟨⟨root, path, pattern, page.paging.total, page, partialFields taken.skipped⟩, ?_,
    pageOf_takeMatches _ _ _⟩
  rw [glob, valid]
  rfl

theorem target_of_glob_eq_ok {repr : PyStr → PyStr} {root path pattern : PyStr}
    {headLimit : Option Nat} {offset : Nat} {result : Result}
    (returned : glob fnmatchcase repr root path target pattern headLimit offset = .ok result) :
    validateRelativePattern pattern = .ok () ∧ ∃ entries, target = .dir true entries := by
  have ⟨_, valid, returned⟩ := bind_eq_ok.mp returned
  refine ⟨valid, ?_⟩
  match target with
  | .dir true entries => exact ⟨entries, rfl⟩
  | .dir false _ => exact nomatch returned
  | .file => exact nomatch returned
  | .symlink => exact nomatch returned
  | .other => exact nomatch returned

/-- Where a page can be had of a tree, the names of the walk are its matching files, each once; and
the pages of any size, read one after the other, give these names and no others exactly when they
fit. -/
theorem pages_compose_iff (repr : PyStr → PyStr) (root path pattern : PyStr) {target : Node}
    (named : Named target) (headLimit : Option Nat)
    (first : ∃ result, glob fnmatchcase repr root path target pattern headLimit 0 = .ok result) :
    (walkOrder fnmatchcase pattern target).Nodup ∧
      (∀ name, name ∈ walkOrder fnmatchcase pattern target ↔ ∃ path, Lists target path ∧
        globMatchParts fnmatchcase path (partsOf pattern) = true ∧ name = pathText path) ∧
      (Composes (glob fnmatchcase repr root path target pattern headLimit)
          (walkOrder fnmatchcase pattern target) ↔
        FitsPages (headLimitOf headLimit) (walkOrder fnmatchcase pattern target)) := by
  have ⟨_, returned⟩ := first
  have ⟨valid, entries, listed⟩ := target_of_glob_eq_ok returned
  subst listed
  exact ⟨nodup_walkOrder named, fun _ => mem_walkOrder,
    composes_iff (glob_eq_ok repr root path entries valid headLimit)⟩

/-- Two files, one of them in a directory. -/
def twoFiles : Node :=
  .dir true [(lit "README.md", .file), (lit "strategies", .dir true [(lit "momentum.py", .file)])]

theorem named_twoFiles : Named twoFiles := by
  refine .dir (by decide) (by decide) (List.forall_mem_cons.mpr ⟨.file, ?_⟩)
  refine List.forall_mem_singleton.mpr (.dir (by decide) (by decide) ?_)
  exact List.forall_mem_singleton.mpr .file

theorem pages_of_two_files :
    Composes (glob (fun _ _ => true) id (lit "workspace") [] twoFiles (lit "**") none)
        (walkOrder (fun _ _ => true) (lit "**") twoFiles) ↔
      FitsPages 100 (walkOrder (fun _ _ => true) (lit "**") twoFiles) :=
  (pages_compose_iff id (lit "workspace") [] (lit "**") named_twoFiles none
    ((glob_eq_ok id _ [] _ rfl none 0).imp fun _ page => page.1)).2.2

theorem not_fitsPages {limit : Nat} {names : List PyStr} (few : names.length ≤ limit)
    (long : maxResultChars < (joinLines names).length) (broken : ∀ name ∈ names, newline ∈ name) :
    ¬ FitsPages limit names := by
  intro fits
  cases fits with
  | last _ fits => exact absurd fits (Nat.not_le.mpr long)
  | full more => exact absurd few (Nat.not_le.mpr more)
  | @cut _ kept cuts =>
    have ⟨_, shown, rest, cut, visible, _, _, plain⟩ := cuts
    have ⟨name, others, same⟩ := List.exists_cons_of_ne_nil shown
    subst same
    have member : name ∈ names := by
      refine List.mem_of_mem_take (i := limit) ?_
      rw [visible]
      exact List.mem_cons_self
    exact plain name List.mem_cons_self (broken name member)

theorem length_joinLines_ge {n : Nat} {names : List PyStr}
    (each : ∀ name ∈ names, n ≤ name.length) : names.length * n ≤ (joinLines names).length := by
  induction names with
  | nil => simp
  | cons name names ih =>
    have ⟨here, later⟩ := List.forall_mem_cons.mp each
    have rest := ih later
    rw [List.length_cons, Nat.succ_mul]
    cases names with
    | nil => simpa [joinLines] using here
    | cons next names =>
      simp only [joinLines, List.intercalate_cons_cons, List.length_append] at rest ⊢
      omega

/-- A name that begins with a line feed. -/
def lineFeedName (i : Nat) : PyStr :=
  newline :: (List.replicate i (.char 'b') ++ List.replicate (249 - i) (.char 'a'))

def lineFeedNames : List PyStr := (List.range 100).map lineFeedName

/-- A directory of them. -/
def lineFeeds : Node := .dir true (lineFeedNames.map fun name => (name, .file))

theorem nodup_lineFeedNames : lineFeedNames.Nodup := by
  refine List.nodup_range.map fun i j same => ?_
  have count : ∀ i, (lineFeedName i).count (.char 'b') = i := fun i => by
    simp [lineFeedName, newline, List.count_replicate]
  rw [← count i, same, count j]

theorem mem_lineFeedName {i : Nat} {point : CodePoint} (member : point ∈ lineFeedName i) :
    point = newline ∨ point = .char 'b' ∨ point = .char 'a' := by
  simp only [lineFeedName, List.mem_cons, List.mem_append, List.mem_replicate] at member
  tauto

theorem named_lineFeeds : Named lineFeeds := by
  refine .dir ?_ (fun entry member => ?_) fun entry member => ?_
  · rw [List.map_map]
    exact (List.map_id lineFeedNames).symm ▸ nodup_lineFeedNames
  · have ⟨name, named, same⟩ := List.mem_map.mp member
    have ⟨i, _, is⟩ := List.mem_map.mp named
    subst same is
    refine ⟨List.cons_ne_nil _ _, fun slashed => ?_⟩
    rcases mem_lineFeedName slashed with same | same | same <;> exact nomatch same
  · have ⟨name, _, same⟩ := List.mem_map.mp member
    subst same
    exact .file

theorem mem_walkOrder_lineFeeds {name : PyStr} :
    name ∈ walkOrder fnmatchcase (lit "**") lineFeeds ↔ name ∈ lineFeedNames := by
  rw [mem_walkOrder]
  constructor
  · rintro ⟨path, lists, _, rfl⟩
    cases lists with
    | file member =>
      have ⟨name, named, same⟩ := List.mem_map.mp member
      cases same
      simpa [pathText] using named
    | inside member _ rest =>
      have ⟨name, _, same⟩ := List.mem_map.mp member
      cases same
      exact nomatch rest
  · intro member
    have ⟨i, _, same⟩ := List.mem_map.mp member
    refine ⟨[name], .file (List.mem_map.mpr ⟨name, member, rfl⟩) ?_, ?_, by simp [pathText]⟩
    · subst same
      simp [Shown, isSkipped, lineFeedName, startsWithDot, vcsDirs, lit, CodePoint.ofText, newline]
    · have pattern : partsOf (lit "**") = [lit "**"] := by decide
      simp [pattern, globMatchParts]

/-- A page that the budget cuts, where names hold line feeds, shows names that no file has. -/
theorem line_feeds_do_not_compose :
    Named lineFeeds ∧
      (∃ result, glob (fun _ _ => true) id (lit "workspace") [] lineFeeds (lit "**") none 0 =
        .ok result) ∧
      ¬ Composes (glob (fun _ _ => true) id (lit "workspace") [] lineFeeds (lit "**") none)
        (walkOrder (fun _ _ => true) (lit "**") lineFeeds) := by
  have pages : ∀ offset, ∃ result,
      glob (fun _ _ => true) id (lit "workspace") [] lineFeeds (lit "**") none offset = .ok result ∧
        PageOf (walkOrder (fun _ _ => true) (lit "**") lineFeeds) 100 offset result.page :=
    glob_eq_ok id (lit "workspace") [] _ rfl none
  refine ⟨named_lineFeeds, (pages 0).imp fun _ page => page.1, ?_⟩
  rw [composes_iff pages]
  have perm : (walkOrder (fun _ _ => true) (lit "**") lineFeeds).Perm lineFeedNames :=
    (List.perm_ext_iff_of_nodup (nodup_walkOrder named_lineFeeds) nodup_lineFeedNames).mpr
      fun _ => mem_walkOrder_lineFeeds
  have count := perm.length_eq
  simp only [lineFeedNames, List.length_map, List.length_range] at count
  have each : ∀ name ∈ walkOrder (fun _ _ => true) (lit "**") lineFeeds,
      ∃ i < 100, name = lineFeedName i := by
    intro name member
    have ⟨i, below, same⟩ := List.mem_map.mp (mem_walkOrder_lineFeeds.mp member)
    exact ⟨i, List.mem_range.mp below, same.symm⟩
  refine not_fitsPages count.le ?_ fun name member => ?_
  · have long : ∀ name ∈ walkOrder (fun _ _ => true) (lit "**") lineFeeds, 250 ≤ name.length := by
      intro name member
      have ⟨i, below, same⟩ := each name member
      rw [same]
      simp only [lineFeedName, List.length_cons, List.length_append, List.length_replicate]
      omega
    have length := length_joinLines_ge long
    rw [count] at length
    exact Nat.lt_of_lt_of_le (by decide) length
  · have ⟨i, _, same⟩ := each name member
    rw [same]
    exact List.mem_cons_self

end AutoTrade.Search
