import AutoTrade.Pipelines.Skills

/-!
# What the validator of a skills tree accepts

`validate_skills_tree` stops at the first thing it finds wrong, and at the first file that is one
too many. What it accepts is said without an order: each item passes, each file in it does, and
the totals are within their bounds. The totals are the stats it returns.
-/

namespace AutoTrade.Skills

open PyValue (lit)
open Search (partsOf slash startsWithDot ordinal)
open Utf8 (Bytes)

theorem Place.head?_text_ne_slash (place : Place) : (Place.text place).head? ≠ some slash := by
  cases place with
  | nil => exact nofun
  | cons name place =>
    have ⟨c, rest, first⟩ := List.exists_cons_of_ne_nil name.2.1
    have other : c ≠ slash := fun same => name.2.2.1 (by rw [first, same]; exact List.mem_cons_self)
    have head : (Place.text (name :: place)).head? = some c := by
      rw [Place.text, List.map_cons, first]
      cases place <;> simp [List.intercalate]
    rw [head]
    exact fun same => other (Option.some.inj same)

theorem partsOf_text (place : Place) : partsOf place.text = place.map Subtype.val := by
  have names : ∀ part ∈ place.map Subtype.val, slash ∉ part := by
    intro part member
    have ⟨name, _, its⟩ := List.mem_map.mp member
    rw [← its]
    exact name.2.2.1
  rw [partsOf]
  by_cases empty : place = []
  · rw [empty]
    decide
  · have some : place.map Subtype.val ≠ [] := fun none => empty (List.map_eq_nil_iff.mp none)
    rw [Place.text, List.splitOn_intercalate slash names some]
    refine List.filter_eq_self.mpr fun part member => ?_
    have ⟨name, _, its⟩ := List.mem_map.mp member
    rw [← its]
    simp [name.2.1, name.2.2.2.1]

theorem Place.text_injective : Function.Injective Place.text := fun place place' same => by
  have parts := congrArg partsOf same
  rw [partsOf_text, partsOf_text] at parts
  exact Subtype.val_injective.list_map parts

def hidden (place : Place) : Bool := place.any fun part => startsWithDot part.val

/-- An item's directories for files. -/
def Topped (place : Place) : Prop := place.head? = some scripts ∨ place.head? = some references

theorem mapM_isName {parts : List PyStr} {place : Place} :
    (parts.mapM fun part => if h : IsName part then .ok ⟨part, h⟩
      else .error hiddenOrOutside : Except Failure Place) = .ok place ↔
      place.map Subtype.val = parts := by
  induction parts generalizing place with
  | nil =>
    rw [List.mapM_nil, pure_eq_ok, List.map_eq_nil_iff]
    exact eq_comm
  | cons part parts ih =>
    rw [List.mapM_cons]
    constructor
    · intro read
      have ⟨name, first, rest⟩ := bind_eq_ok.mp read
      have ⟨place', later, whole⟩ := bind_eq_ok.mp rest
      split at first
      · cases first
        rw [← pure_eq_ok.mp whole, List.map_cons, ih.mp later]
      · exact nomatch first
    · intro whole
      cases place with
      | nil => exact nomatch whole
      | cons name place =>
        have ⟨first, rest⟩ := List.cons.inj whole
        refine bind_eq_ok.mpr ⟨name, ?_, bind_eq_ok.mpr ⟨place, ih.mpr rest, rfl⟩⟩
        subst first
        rw [dif_pos name.2]

section Policy

variable {violation : PyStr → PyStr}

/-- A path in an item that the file at it may have, apart from what is in it. -/
def PathShape (place : Place) : Prop :=
  hidden place = false ∧ (place = [skillFilename] ∨ 2 ≤ place.length ∧
    Topped place ∧ lower (suffix ((place.getLast?.map Subtype.val).getD [])) ∈ allowedSkillSuffixes)

variable {place : Place}

theorem PathShape.ne_nil (shape : PathShape place) : place ≠ [] := by
  rintro rfl
  rcases shape.2 with none | ⟨long, _⟩
  · exact nomatch none
  · exact absurd long (by simp)

theorem any_startsWithDot {parts : List PyStr} (read : place.map Subtype.val = parts) :
    parts.any startsWithDot = hidden place := by
  rw [← read, List.any_map]
  rfl

theorem topped_iff :
    (place.head? ≠ some scripts && place.head? ≠ some references) = false ↔ Topped place := by
  rw [Topped, Bool.and_eq_false_iff, decide_eq_false_iff_not, decide_eq_false_iff_not, not_not,
    not_not]

theorem validateSkillPath_eq_ok {value : PyStr} :
    validateSkillPath violation value = .ok place ↔
      place.map Subtype.val = partsOf value ∧ value.head? ≠ some slash ∧ PathShape place ∧
        (place = [skillFilename] ∨ violation value = []) := by
  rw [validateSkillPath]
  constructor
  · intro ok
    have ⟨clear, ok⟩ := guard_eq_ok.mp ok
    have ⟨place', read, ok⟩ := bind_eq_ok.mp ok
    have read := mapM_isName.mp read
    simp only [Bool.or_eq_true, decide_eq_true_eq, not_or, Bool.not_eq_true,
      any_startsWithDot read] at clear
    split at ok
    · rename_i whole
      cases ok
      exact ⟨read, clear.1.2, ⟨clear.2, .inl whole⟩, .inl whole⟩
    · have ⟨topped, ok⟩ := guard_eq_ok.mp ok
      have ⟨allowed, ok⟩ := guard_eq_ok.mp ok
      have ⟨clean, ok⟩ := guard_eq_ok.mp ok
      cases ok
      rw [Bool.not_eq_true, Bool.or_eq_false_iff, topped_iff, decide_eq_false_iff_not,
        Nat.not_lt] at topped
      rw [not_not] at allowed clean
      exact ⟨read, clear.1.2, ⟨clear.2, .inr ⟨topped.1, topped.2, allowed⟩⟩, .inr clean⟩
  · rintro ⟨read, relative, shape, clean⟩
    have some : value ≠ [] := by
      rintro rfl
      exact shape.ne_nil (List.map_eq_nil_iff.mp read)
    have ⟨clear, shaped⟩ := shape
    refine guard_eq_ok.mpr ⟨?_, bind_eq_ok.mpr ⟨place, mapM_isName.mpr read, ?_⟩⟩
    · rw [any_startsWithDot read, clear]
      simp [some, relative]
    · split
      · rfl
      · rename_i other
        have ⟨long, topped, allowed⟩ := shaped.resolve_left other
        have clean := clean.resolve_left other
        refine guard_eq_ok.mpr ⟨?_, guard_eq_ok.mpr ⟨?_, guard_eq_ok.mpr ⟨?_, rfl⟩⟩⟩
        · rw [Bool.not_eq_true, Bool.or_eq_false_iff, topped_iff, decide_eq_false_iff_not,
            Nat.not_lt]
          exact ⟨long, topped⟩
        · exact not_not.mpr allowed
        · exact not_not.mpr clean

variable (violation) in
/-- A path in an item that the file at it has. -/
def PathAllowed (place : Place) : Prop :=
  PathShape place ∧ (place = [skillFilename] ∨ violation place.text = [])

theorem validateSkillPath_text {place place' : Place} :
    validateSkillPath violation place.text = .ok place' ↔
      place' = place ∧ PathAllowed violation place := by
  rw [validateSkillPath_eq_ok, partsOf_text, PathAllowed]
  constructor
  · rintro ⟨read, _, shape, clean⟩
    have same := Subtype.val_injective.list_map read
    subst same
    exact ⟨rfl, shape, clean⟩
  · rintro ⟨rfl, shape, clean⟩
    exact ⟨rfl, Place.head?_text_ne_slash _, shape, clean⟩

variable {name : FileName}

theorem validateSkillName_eq_ok {value : PyStr} :
    validateSkillName violation value = .ok name ↔ name.val = value ∧
      value.length ≤ maxSkillNameChars ∧ isKebab value = true ∧ violation value = [] := by
  rw [validateSkillName]
  split
  · rename_i named
    rw [guard_eq_ok, guard_eq_ok, pure_eq_ok, Bool.not_eq_true, Bool.or_eq_false_iff,
      decide_eq_false_iff_not, Nat.not_lt, Bool.not_eq_false', not_not]
    constructor
    · rintro ⟨⟨short, kebab⟩, clean, rfl⟩
      exact ⟨rfl, short, kebab, clean⟩
    · rintro ⟨same, short, kebab, clean⟩
      exact ⟨⟨short, kebab⟩, clean, Subtype.ext same.symm⟩
  · rename_i other
    simp only [throw_ne_ok, false_iff]
    rintro ⟨same, _⟩
    exact other (same ▸ name.2)

theorem validateSkillName_val {name name' : FileName}
    (named : validateSkillName violation name.val = .ok name') : name' = name :=
  Subtype.ext (validateSkillName_eq_ok.mp named).1

variable (violation) in
/-- The bytes that the file at a place may have. -/
def ContentAllowed (place : Place) (payload : Bytes) : Prop :=
  payload.length ≤ maxSkillFileBytes ∧ ∃ text, CodePoint.decode payload = some text ∧
    violation (CodePoint.ofText text) = [] ∧ (place = [skillFilename] → text.length ≤ maxSkillChars)

theorem decodeSkillFile_eq_ok {path : PyStr} {payload : Bytes} {text : Text} :
    decodeSkillFile violation path payload = .ok text ↔ payload.length ≤ maxSkillFileBytes ∧
      CodePoint.decode payload = some text ∧ violation (CodePoint.ofText text) = [] := by
  rw [decodeSkillFile]
  refine guard_eq_ok.trans (and_congr Nat.not_lt ?_)
  split
  · rename_i none
    simp [none]
  · rename_i text' read
    rw [read, guard_eq_ok, pure_eq_ok, not_not]
    constructor
    · rintro ⟨clean, rfl⟩
      exact ⟨rfl, clean⟩
    · rintro ⟨same, clean⟩
      cases Option.some.inj same
      exact ⟨clean, rfl⟩

/-- Within the bounds. -/
def SkillsStats.Fits (stats : SkillsStats) : Prop :=
  stats.count ≤ maxSkills ∧ stats.files ≤ maxSkillsFiles ∧ stats.bytes ≤ maxSkillsBytes

def SkillsStats.add (stats more : SkillsStats) : SkillsStats :=
  ⟨stats.count + more.count, stats.files + more.files, stats.bytes + more.bytes⟩

theorem SkillsStats.Fits.of_add {stats more : SkillsStats} (fits : (stats.add more).Fits) :
    stats.Fits :=
  ⟨(Nat.le_add_right _ _).trans fits.1, (Nat.le_add_right _ _).trans fits.2.1,
    (Nat.le_add_right _ _).trans fits.2.2⟩

theorem foldl_add {α : Type} (size : α → SkillsStats) (l : List α) (stats : SkillsStats) :
    l.foldl (fun stats a => stats.add (size a)) stats =
      ⟨stats.count + (l.map fun a => (size a).count).sum,
        stats.files + (l.map fun a => (size a).files).sum,
        stats.bytes + (l.map fun a => (size a).bytes).sum⟩ := by
  induction l generalizing stats with
  | nil => rfl
  | cons a l ih =>
    rw [List.foldl_cons, ih]
    ext <;> simp [SkillsStats.add, Nat.add_assoc]

def SkillNode.stats : SkillNode → SkillsStats
  | .file content => ⟨0, 1, content.length⟩
  | _ => {}

def SkillItem.files (item : SkillItem) : Nat := item.nodes.sum fun _ node => node.stats.files

def SkillItem.bytes (item : SkillItem) : Nat := item.nodes.sum fun _ node => node.stats.bytes

def SkillItem.stats (item : SkillItem) : SkillsStats := ⟨1, item.files, item.bytes⟩

def SkillsTree.stats (tree : SkillsTree) : SkillsStats :=
  ⟨tree.items.entries.length, tree.items.sum fun _ item => item.files,
    tree.items.sum fun _ item => item.bytes⟩

theorem stats_congr {tree tree' : SkillsTree}
    (items : ∀ name, tree'.items.get? name = tree.items.get? name) : tree'.stats = tree.stats := by
  have same := Dict.equiv_of_get? items
  ext
  · exact List.Perm.length_eq same
  · exact same.sum fun _ item => item.files
  · exact same.sum fun _ item => item.bytes

theorem stats_set (tree : SkillsTree) (name : FileName) (item : SkillItem) :
    (tree.set name item).stats = (tree.without name).stats.add item.stats := by
  ext
  · change (tree.items.set name item).entries.length = (tree.items.erase name).entries.length + 1
    rw [Dict.length_eq_sum, Dict.length_eq_sum, Dict.sum_set_erase, Nat.add_comm]
  · exact (Dict.sum_set_erase tree.items name item fun _ item => item.files).trans
      (Nat.add_comm _ _)
  · exact (Dict.sum_set_erase tree.items name item fun _ item => item.bytes).trans
      (Nat.add_comm _ _)

variable {tree : SkillsTree}

theorem stats_without {item : SkillItem} (found : tree.items.get? name = some item) :
    tree.stats = (tree.without name).stats.add item.stats := by
  ext
  · change tree.items.entries.length = (tree.items.erase name).entries.length + 1
    rw [Dict.length_eq_sum, Dict.length_eq_sum, Dict.sum_of_get? found, Nat.add_comm]
  · exact (Dict.sum_of_get? found fun _ item => item.files).trans (Nat.add_comm _ _)
  · exact (Dict.sum_of_get? found fun _ item => item.bytes).trans (Nat.add_comm _ _)

theorem sortedBy_perm {α : Type} (text : α → PyStr) (l : List α) : (sortedBy text l).Perm l :=
  List.perm_insertionSort _ _

variable (violation) in
/-- What may be at a place in an item. -/
def NodeAllowed (requireWritable : Bool) (place : Place) (node : SkillNode) : Prop :=
  hidden place = false ∧
    match node with
    | .file payload => PathAllowed violation place ∧ ContentAllowed violation place payload
    | .directory writable => Topped place ∧ (requireWritable = true → writable = true)
    | _ => False

theorem mustBeWritable {requireWritable writable : Bool} :
    ¬ (requireWritable && !writable) = true ↔ (requireWritable = true → writable = true) := by
  cases requireWritable <;> cases writable <;> simp

variable {requireWritable : Bool} {root : PyStr} {item : FileName} {seen seen' : SkillsStats}

variable {node : SkillNode}

theorem checkNode_eq_ok (fits : seen.Fits) :
    checkNode violation requireWritable root item seen (place, node) = .ok seen' ↔
      NodeAllowed violation requireWritable place node ∧ seen' = seen.add node.stats ∧
        seen'.Fits := by
  unfold checkNode NodeAllowed
  refine guard_eq_ok.trans ?_
  rw [Bool.not_eq_true, and_assoc]
  refine and_congr_right fun _ => ?_
  cases node with
  | file payload =>
    have unchanged : seen.add (SkillNode.file payload).stats =
        ⟨seen.count, seen.files + 1, seen.bytes + payload.length⟩ := by
      simp [SkillsStats.add, SkillNode.stats]
    rw [unchanged]
    constructor
    · intro ok
      have ⟨place', path, ok⟩ := bind_eq_ok.mp ok
      have ⟨text, read, ok⟩ := bind_eq_ok.mp ok
      have ⟨brief, ok⟩ := guard_eq_ok.mp ok
      have ⟨files, ok⟩ := guard_eq_ok.mp ok
      have ⟨bytes, ok⟩ := guard_eq_ok.mp ok
      cases ok
      have ⟨size, decoded, clean⟩ := decodeSkillFile_eq_ok.mp read
      simp only [Bool.and_eq_true, decide_eq_true_eq, not_and, Nat.not_lt] at brief files bytes
      exact ⟨⟨(validateSkillPath_text.mp path).2, size, text, decoded, clean, brief⟩, rfl,
        fits.1, files, bytes⟩
    · rintro ⟨⟨path, size, text, decoded, clean, brief⟩, rfl, _, files, bytes⟩
      refine bind_eq_ok.mpr ⟨place, validateSkillPath_text.mpr ⟨rfl, path⟩, ?_⟩
      refine bind_eq_ok.mpr ⟨text, decodeSkillFile_eq_ok.mpr ⟨size, decoded, clean⟩, ?_⟩
      refine guard_eq_ok.mpr ⟨?_, guard_eq_ok.mpr ⟨?_, guard_eq_ok.mpr ⟨?_, rfl⟩⟩⟩
      · simpa using brief
      · exact Nat.not_lt.mpr files
      · exact Nat.not_lt.mpr bytes
  | directory writable =>
    have unchanged : seen.add (SkillNode.directory writable).stats = seen := by
      simp [SkillsStats.add, SkillNode.stats]
    rw [unchanged]
    constructor
    · intro ok
      have ⟨topped, ok⟩ := guard_eq_ok.mp ok
      have ⟨may, ok⟩ := guard_eq_ok.mp ok
      cases ok
      rw [Bool.not_eq_true, topped_iff] at topped
      exact ⟨⟨topped, mustBeWritable.mp may⟩, rfl, fits⟩
    · rintro ⟨⟨topped, may⟩, rfl, _⟩
      refine guard_eq_ok.mpr ⟨?_, guard_eq_ok.mpr ⟨mustBeWritable.mpr may, rfl⟩⟩
      rw [Bool.not_eq_true, topped_iff]
      exact topped
  | link => simp
  | special => simp

variable (violation) in
/-- `validate_skill_name` passes, and the name is not hidden. -/
def NameAllowed (name : FileName) : Prop :=
  startsWithDot name.val = false ∧ validateSkillName violation name.val = .ok name

variable (violation) in
def ItemAllowed (requireWritable : Bool) (name : FileName) (item : SkillItem) : Prop :=
  NameAllowed violation name ∧
    (∃ writable, item.nodes.get? [] = some (.directory writable) ∧
      (requireWritable = true → writable = true)) ∧
    (item.fileAt [skillFilename]).isSome ∧
    ∀ place node, place ≠ [] → item.nodes.get? place = some node →
      NodeAllowed violation requireWritable place node

theorem node_eq_iff {item : SkillItem} : item.node = node ↔ item.nodes.get? [] = some node := by
  rw [SkillItem.node]
  constructor
  · rintro rfl
    exact (Option.some_get _).symm
  · intro found
    simp [found]

theorem mem_below {item : SkillItem} :
    (place, node) ∈ item.below.entries ↔ place ≠ [] ∧ item.nodes.get? place = some node := by
  rw [Dict.mem_entries_iff, SkillItem.below, Dict.get?_erase]
  split
  · rename_i same
    simp [same]
  · rename_i other
    simp [Ne.symm other]

variable {writable : Bool}

theorem sum_below {item : SkillItem} (found : item.nodes.get? [] = some (.directory writable))
    (size : SkillsStats → Nat) (nothing : size {} = 0) :
    (item.below.entries.map fun entry => size entry.2.stats).sum =
      item.nodes.sum fun _ node => size node.stats := by
  have perm := Dict.entries_perm_erase found
  rw [Dict.sum, (perm.map _).sum_eq, List.map_cons, List.sum_cons]
  simp only [SkillNode.stats, nothing, Nat.zero_add]
  rfl

theorem checkNodes_eq_ok {item : SkillItem}
    (found : item.nodes.get? [] = some (.directory writable)) (fits : seen.Fits) :
    (sortedBy (fun node => node.1.text) item.below.entries).foldlM
        (checkNode violation requireWritable root name) seen = .ok seen' ↔
      (∀ place node, place ≠ [] → item.nodes.get? place = some node →
        NodeAllowed violation requireWritable place node) ∧
      seen' = seen.add ⟨0, item.files, item.bytes⟩ ∧ seen'.Fits := by
  have perm := sortedBy_perm (fun node => node.1.text) item.below.entries
  have total : (sortedBy (fun node => node.1.text) item.below.entries).foldl
      (fun seen entry => seen.add entry.2.stats) seen =
        seen.add ⟨0, item.files, item.bytes⟩ := by
    rw [foldl_add (fun entry : Place × SkillNode => entry.2.stats), (perm.map _).sum_eq,
      (perm.map _).sum_eq, (perm.map _).sum_eq, sum_below found SkillsStats.files rfl,
      sum_below found SkillsStats.bytes rfl]
    have none : (item.below.entries.map fun entry => entry.2.stats.count).sum = 0 := by
      refine List.sum_eq_zero fun n member => ?_
      have ⟨entry, _, its⟩ := List.mem_map.mp member
      rw [← its]
      cases entry.2 <;> rfl
    rw [none]
    rfl
  rw [foldlM_measured (fun entry => NodeAllowed violation requireWritable entry.1 entry.2)
    (fun seen entry => seen.add entry.2.stats) SkillsStats.Fits
    (fun entry _ seen seen' fits => checkNode_eq_ok fits) (fun _ _ => SkillsStats.Fits.of_add) fits,
    total]
  refine and_congr_left fun _ => ⟨fun each place node inside found' => ?_, fun each entry member => ?_⟩
  · exact each (place, node) (perm.mem_iff.mpr (mem_below.mpr ⟨inside, found'⟩))
  · have ⟨inside, found'⟩ := mem_below.mp (perm.mem_iff.mp member)
    exact each _ _ inside found'

theorem checkItem_eq_ok {item : SkillItem} (fits : seen.Fits) :
    checkItem violation requireWritable root seen (name, item) = .ok seen' ↔
      ItemAllowed violation requireWritable name item ∧ seen' = seen.add item.stats ∧
        seen'.Fits := by
  unfold checkItem ItemAllowed NameAllowed
  refine guard_eq_ok.trans ?_
  rw [Bool.not_eq_true, and_assoc, and_assoc]
  refine and_congr_right fun _ => ?_
  constructor
  · intro ok
    have ⟨name', named, ok⟩ := bind_eq_ok.mp ok
    have same : name' = name := validateSkillName_val named
    subst same
    refine ⟨named, ?_⟩
    split at ok
    · rename_i writable there
      have found := node_eq_iff.mp there
      have ⟨may, ok⟩ := guard_eq_ok.mp ok
      have ⟨room, ok⟩ := guard_eq_ok.mp ok
      have ⟨filed, ok⟩ := guard_eq_ok.mp ok
      have fits' : ({ seen with count := seen.count + 1 } : SkillsStats).Fits :=
        ⟨Nat.not_lt.mp room, fits.2⟩
      have ⟨each, total, fit⟩ := (checkNodes_eq_ok found fits').mp ok
      exact ⟨⟨⟨writable, found, mustBeWritable.mp may⟩,
        Option.isSome_iff_ne_none.mpr (by simpa using filed), each⟩, total, fit⟩
    · exact absurd ok throw_ne_ok
  · rintro ⟨named, ⟨⟨writable, found, may⟩, filed, each⟩, total, fit⟩
    refine bind_eq_ok.mpr ⟨name, named, ?_⟩
    have room : seen.count + 1 ≤ maxSkills := by
      have bound := fit.1
      rw [total] at bound
      exact bound
    rw [node_eq_iff.mpr found]
    refine guard_eq_ok.mpr ⟨mustBeWritable.mpr may, guard_eq_ok.mpr ⟨Nat.not_lt.mpr room, ?_⟩⟩
    refine guard_eq_ok.mpr ⟨by simpa using Option.isSome_iff_ne_none.mp filed, ?_⟩
    have fits' : ({ seen with count := seen.count + 1 } : SkillsStats).Fits := ⟨room, fits.2⟩
    exact (checkNodes_eq_ok found fits').mpr ⟨each, total, fit⟩

variable (violation) in
/-- What `validate_skills_tree` accepts. -/
structure TreeAllowed (requireWritable : Bool) (tree : SkillsTree) : Prop where
  regular : tree.linked = false
  writable : requireWritable = true → tree.writable = true
  items : ∀ name item, tree.items.get? name = some item →
    ItemAllowed violation requireWritable name item
  fits : tree.stats.Fits

theorem TreeAllowed.congr {tree tree' : SkillsTree}
    (allowed : TreeAllowed violation requireWritable tree) (linked : tree'.linked = tree.linked)
    (writable : requireWritable = true → tree'.writable = true)
    (items : ∀ name, tree'.items.get? name = tree.items.get? name)
    (stats : tree'.stats = tree.stats) : TreeAllowed violation requireWritable tree' where
  regular := linked.trans allowed.regular
  writable := writable
  items name item found := allowed.items name item (items name ▸ found)
  fits := stats ▸ allowed.fits

theorem TreeAllowed.without_set {item : SkillItem}
    (allowed : TreeAllowed violation requireWritable (tree.set name item)) :
    TreeAllowed violation requireWritable ((tree.without name).set name item) := by
  refine allowed.congr rfl allowed.writable (fun other => ?_) ?_
  · change ((tree.items.erase name).set name item).get? other =
      (tree.items.set name item).get? other
    rw [Dict.get?_set, Dict.get?_set, Dict.get?_erase]
    split <;> rfl
  · have gone : (tree.items.erase name).get? name = none := by
      rw [Dict.get?_erase, if_pos rfl]
    have twice : (tree.without name).without name = tree.without name := by
      rw [SkillsTree.without, SkillsTree.without]
      simp only [Dict.erase_of_fresh gone]
    rw [stats_set, stats_set, twice]

theorem ItemAllowed.chmod {item : SkillItem} (allowed : ItemAllowed violation false name item) :
    ItemAllowed violation false name (item.chmod writable) := by
  obtain ⟨named, ⟨_, itself, _⟩, filed, each⟩ := allowed
  have nodes : ∀ place, (item.chmod writable).nodes.get? place =
      (item.nodes.get? place).map (SkillNode.chmod writable) := Dict.get?_mapValues _ _
  refine ⟨named, ⟨writable, ?_, by simp⟩, ?_, fun place node inside found => ?_⟩
  · rw [nodes, itself]
    rfl
  · obtain ⟨content, there⟩ := Option.isSome_iff_exists.mp filed
    rw [SkillItem.fileAt, nodes, SkillItem.fileAt_eq_some.mp there]
    rfl
  · rw [nodes] at found
    obtain ⟨node', there, same⟩ := Option.map_eq_some_iff.mp found
    obtain ⟨clear, its⟩ := each place node' inside there
    rw [← same]
    refine ⟨clear, ?_⟩
    cases node' with
    | directory writable' => exact ⟨its.1, by simp⟩
    | _ => exact its

theorem stats_chmod (item : SkillItem) (writable : Bool) :
    (item.chmod writable).files = item.files ∧ (item.chmod writable).bytes = item.bytes := by
  have same : ∀ node : SkillNode, (node.chmod writable).stats = node.stats := fun node => by
    cases node <;> rfl
  constructor
  · refine (Dict.sum_mapValues (fun _ (node : SkillNode) => node.stats.files) _ item.nodes).trans ?_
    simp only [same]
    rfl
  · refine (Dict.sum_mapValues (fun _ (node : SkillNode) => node.stats.bytes) _ item.nodes).trans ?_
    simp only [same]
    rfl

theorem TreeAllowed.chmod (allowed : TreeAllowed violation false tree) :
    TreeAllowed violation false (tree.chmod writable) := by
  have total : (tree.chmod writable).stats = tree.stats := by
    ext
    · exact List.length_map _
    · refine (Dict.sum_mapValues (fun _ item => SkillItem.files item) _ tree.items).trans ?_
      simp only [stats_chmod]
      rfl
    · refine (Dict.sum_mapValues (fun _ item => SkillItem.bytes item) _ tree.items).trans ?_
      simp only [stats_chmod]
      rfl
  refine ⟨allowed.regular, nofun, fun name item found => ?_, total ▸ allowed.fits⟩
  change (tree.items.mapValues _).get? name = some item at found
  rw [Dict.get?_mapValues] at found
  have ⟨item', there, same⟩ := Option.map_eq_some_iff.mp found
  rw [← same]
  exact (allowed.items name item' there).chmod

theorem validateSkillsTree_eq_ok {tree : Option SkillsTree} {stats : SkillsStats} :
    validateSkillsTree violation requireWritable root tree = .ok stats ↔
      ∃ t, tree = some t ∧ TreeAllowed violation requireWritable t ∧ stats = t.stats := by
  cases tree with
  | none => simp [validateSkillsTree]
  | some tree =>
    have perm := sortedBy_perm (fun entry => entry.1.val) tree.items.entries
    have total : (sortedBy (fun entry => entry.1.val) tree.items.entries).foldl
        (fun seen entry => seen.add entry.2.stats) {} = tree.stats := by
      rw [foldl_add (fun entry : FileName × SkillItem => entry.2.stats), (perm.map _).sum_eq,
        (perm.map _).sum_eq, (perm.map _).sum_eq]
      ext <;> simp [SkillsTree.stats, SkillItem.stats, Dict.sum]
    have loop : ∀ {stats}, (sortedBy (fun entry => entry.1.val) tree.items.entries).foldlM
        (checkItem violation requireWritable root) {} = .ok stats ↔
        (∀ name item, tree.items.get? name = some item →
          ItemAllowed violation requireWritable name item) ∧ stats = tree.stats ∧ stats.Fits := by
      intro stats
      rw [foldlM_measured (fun entry => ItemAllowed violation requireWritable entry.1 entry.2)
        (fun seen entry => seen.add entry.2.stats) SkillsStats.Fits
        (fun entry _ seen seen' fits => checkItem_eq_ok fits)
        (fun _ _ => SkillsStats.Fits.of_add) (by simp [SkillsStats.Fits]), total]
      refine and_congr_left fun _ => ⟨fun each name item found => ?_, fun each entry member => ?_⟩
      · exact each (name, item) (perm.mem_iff.mpr (Dict.mem_entries_iff.mpr found))
      · exact each _ _ (Dict.mem_entries_iff.mp (perm.mem_iff.mp member))
    constructor
    · intro ok
      obtain ⟨regular, ok⟩ := guard_eq_ok.mp ok
      obtain ⟨may, ok⟩ := guard_eq_ok.mp ok
      obtain ⟨each, same, fits⟩ := loop.mp ok
      exact ⟨tree, rfl, ⟨by simpa using regular, mustBeWritable.mp may, each, same ▸ fits⟩, same⟩
    · rintro ⟨tree', there, allowed, same⟩
      cases there
      refine guard_eq_ok.mpr ⟨by simp [allowed.regular], ?_⟩
      refine guard_eq_ok.mpr ⟨mustBeWritable.mpr allowed.writable, ?_⟩
      exact loop.mpr ⟨allowed.items, same, same ▸ allowed.fits⟩

end Policy

theorem isName_notes : IsName (lit "notes") := by decide

end AutoTrade.Skills
