import AutoTrade.DataSources.Tushare.Frames
import AutoTrade.Environment.Data.RevisionValue
import Mathlib.Data.Multiset.Sort

/-!
# What `diff_frames` and `deduplicate_keys` tell apart

`diff_frames` names a key by its columns joined with U+001F, and compares the rows of a key as
their texts joined with U+001E; keys and rows whose cells hold these characters may be one text.
-/

namespace AutoTrade

open CanonicalCell

section Names

variable {κ τ : Type} [DecidableEq κ] {name : κ → τ} {held : List κ}
  {listed : List τ} {which : κ → Prop} [DecidablePred which]

/-- The names listed are those of the keys in question, one for each. -/
structure Lists (name : κ → τ) (held : List κ) (listed : List τ) (which : κ → Prop)
    [DecidablePred which] : Prop where
  exact : ∀ key ∈ held, name key ∈ listed ↔ which key
  count : listed.length = (held.dedup.filter which).length

theorem Lists.unique [DecidableEq τ] (lists : Lists name held listed which) (nodup : listed.Nodup)
    (named : ∀ t ∈ listed, ∃ key ∈ held, name key = t) {k k' : κ} (member : k ∈ held)
    (member' : k' ∈ held) (chosen : which k) (same : name k = name k') : k = k' := by
  have chosen' : which k' := (lists.exact k' member').mp (same ▸ (lists.exact k member).mpr chosen)
  have inside {key : κ} (held' : key ∈ held) (chosen : which key) :
      key ∈ held.dedup.filter which := by
    simpa using ⟨held', chosen⟩
  have names : (((held.dedup.filter which).map name).dedup).Perm listed := by
    apply (List.perm_ext_iff_of_nodup (List.nodup_dedup _) nodup).mpr
    intro t
    simp only [List.mem_dedup, List.mem_map, List.mem_filter, decide_eq_true_eq]
    constructor
    · rintro ⟨key, ⟨held', chosen⟩, rfl⟩
      exact (lists.exact key held').mpr chosen
    · intro here
      have ⟨key, held', is⟩ := named t here
      exact ⟨key, ⟨held', (lists.exact key held').mp (is ▸ here)⟩, is⟩
  have full : ((held.dedup.filter which).map name).dedup = (held.dedup.filter which).map name := by
    apply (List.dedup_sublist _).eq_of_length
    rw [names.length_eq, lists.count, List.length_map]
  exact List.inj_on_of_nodup_map (List.dedup_eq_self.mp full) (inside member chosen)
    (inside member' chosen') same

theorem Lists.of_unique (nodup : listed.Nodup) (named : ∀ t ∈ listed, ∃ key ∈ held, name key = t)
    (exact : ∀ key ∈ held, name key ∈ listed ↔ which key)
    (unique : ∀ k ∈ held, ∀ k' ∈ held, which k → name k = name k' → k = k') :
    Lists name held listed which := by
  refine ⟨exact, ?_⟩
  have own : ((held.dedup.filter which).map name).Nodup := by
    apply List.Nodup.map_on
    · intro k member k' member' same
      simp only [List.mem_filter, List.mem_dedup, decide_eq_true_eq] at member member'
      exact unique k member.1 k' member'.1 member.2 same
    · exact (List.nodup_dedup _).filter _
  have names : ((held.dedup.filter which).map name).Perm listed := by
    apply (List.perm_ext_iff_of_nodup own nodup).mpr
    intro t
    simp only [List.mem_dedup, List.mem_map, List.mem_filter, decide_eq_true_eq]
    constructor
    · rintro ⟨key, ⟨held', chosen⟩, rfl⟩
      exact (exact key held').mpr chosen
    · intro here
      have ⟨key, held', is⟩ := named t here
      exact ⟨key, ⟨held', (exact key held').mp (is ▸ here)⟩, is⟩
  rw [← names.length_eq, List.length_map]

theorem Lists.eq_nil_iff (lists : Lists name held listed which) :
    listed = [] ↔ ∀ key ∈ held, ¬ which key := by
  rw [← List.length_eq_zero_iff, lists.count, List.length_eq_zero_iff, List.filter_eq_nil_iff]
  simp

end Names

variable {Cell : Type} [CanonicalCell Cell]

namespace Frame

/-- The keys of a frame's rows. -/
def rowKeys (f : Frame Cell) (keys : List String) : List (List Text) := f.texts.map (keyOf keys)

/-- The canonical rows of a key, in the columns that are no keys. -/
def rowsOf (f : Frame Cell) (keys values : List String) (key : List Text) :
    Multiset (List Text) :=
  ((f.texts.filter fun row => keyOf keys row = key).map (keyOf values) : List (List Text))

end Frame

open Frame

section Diff

variable (old new : Frame Cell) (keys : List String)

/-- The name a key goes by. -/
abbrev keyName (key : List Text) : Text := joinTexts keySeparator key

/-- The keys of either frame. -/
def heldKeys : List (List Text) := old.rowKeys keys ++ new.rowKeys keys

/-- The rows of a key before and after. -/
abbrev rowsBefore (key : List Text) : Multiset (List Text) :=
  old.rowsOf keys (valueColumns old new keys) key

abbrev rowsAfter (key : List Text) : Multiset (List Text) :=
  new.rowsOf keys (valueColumns old new keys) key

/-- Added, removed and changed are the keys whose rows are absent before, absent after, or
present and different, and the diff is empty if every key has the rows it had. -/
structure Classified : Prop where
  added : Lists keyName (heldKeys old new keys) (diffFrames old new keys).added
    fun key => rowsBefore old new keys key = 0
  removed : Lists keyName (heldKeys old new keys) (diffFrames old new keys).removed
    fun key => rowsAfter old new keys key = 0
  changed : Lists keyName (heldKeys old new keys) (diffFrames old new keys).changed
    fun key => rowsBefore old new keys key ≠ 0 ∧ rowsAfter old new keys key ≠ 0 ∧
      rowsBefore old new keys key ≠ rowsAfter old new keys key
  empty : (diffFrames old new keys).empty = true ↔
    ∀ key, rowsBefore old new keys key = rowsAfter old new keys key

/-- What the texts of a key fall into at U+001F. -/
def keyPieces (key : List Text) : List Text := key.flatMap (List.splitOn keySeparator)

/-- What rows fall into at U+001E, each joined with U+001F and the texts in order. -/
def rowPieces (rows : Multiset (List Text)) : List Text :=
  ((rows.map (joinTexts keySeparator)).sort (· ≤ ·)).flatMap (List.splitOn rowSeparator)

/-- The separators tell the keys and the rows of a key apart, where the rows have changed. -/
structure Separated : Prop where
  apart : ∀ k ∈ heldKeys old new keys, ∀ k' ∈ heldKeys old new keys, k ≠ k' →
    keyPieces k = keyPieces k' → rowsBefore old new keys k = rowsAfter old new keys k ∧
      rowsBefore old new keys k' = rowsAfter old new keys k'
  told : ∀ k ∈ heldKeys old new keys, rowsBefore old new keys k ≠ 0 → rowsAfter old new keys k ≠ 0 →
    rowsBefore old new keys k ≠ rowsAfter old new keys k →
    rowPieces (rowsBefore old new keys k) ≠ rowPieces (rowsAfter old new keys k)

end Diff

section Rows

variable {f g : Frame Cell} {keys values : List String}

theorem mem_rowKeys {key : List Text} : key ∈ f.rowKeys keys ↔ f.rowsOf keys values key ≠ 0 := by
  rw [Ne, Multiset.eq_zero_iff_forall_notMem]
  simp [rowKeys, rowsOf]

theorem mem_keysOf {t : Text} : t ∈ f.keysOf keys ↔ ∃ key ∈ f.rowKeys keys, keyName key = t := by
  simp [keysOf, keyStrings, rowKeys, joinColumns, keyOf]

theorem sort_eq_sortTexts (parts : List Text) :
    (parts : Multiset Text).sort (· ≤ ·) = sortTexts parts := by
  refine List.Perm.eq_of_pairwise ?_ (Multiset.pairwise_sort _ _) (List.pairwise_insertionSort _ _)
    ?_
  · intro a b _ _ le ge
    exact Std.Antisymm.antisymm _ _ le ge
  · apply Multiset.coe_eq_coe.mp
    rw [Multiset.sort_eq]
    exact Multiset.coe_eq_coe.mpr (perm_sortTexts parts).symm

theorem signature_eq {key : List Text}
    (alone : ∀ k ∈ f.rowKeys keys, keyName k = keyName key → k = key) :
    f.signature keys values (keyName key) =
      joinTexts rowSeparator (((f.rowsOf keys values key).map (joinTexts keySeparator)).sort (· ≤ ·)) := by
  have rows : (f.texts.filter fun row => joinColumns keys row = keyName key) =
      f.texts.filter fun row => keyOf keys row = key := by
    apply List.filter_congr
    intro row member
    rw [decide_eq_decide]
    constructor
    · exact alone _ (List.mem_map_of_mem member)
    · intro same
      rw [← same]
      rfl
  unfold signature rowsOf
  rw [rows, Multiset.map_coe, sort_eq_sortTexts, List.map_map]
  rfl

theorem signature_congr {t : Text}
    (rows : ∀ key, keyName key = t → f.rowsOf keys values key = g.rowsOf keys values key) :
    f.signature keys values t = g.signature keys values t := by
  -- the rows of the name with their keys, as often in the one frame as in the other
  have pairs (h : Frame Cell) (key value : List Text) (here : keyName key = t) :
      ((h.texts.filter fun row => joinColumns keys row = t).map
        fun row => (keyOf keys row, keyOf values row)).count (key, value) =
        ((h.texts.filter fun row => keyOf keys row = key).map (keyOf values)).count value := by
    rw [List.count_eq_length_filter, List.count_eq_length_filter, List.filter_map, List.filter_map,
      List.length_map, List.length_map, List.filter_filter, List.filter_filter]
    congr 1
    apply List.filter_congr
    intro row _
    have name : keyOf keys row = key → joinColumns keys row = t := by
      intro same
      rw [← here, ← same]
      rfl
    by_cases same : keyOf keys row = key <;> simp [same, name]
  have perm : ((f.texts.filter fun row => joinColumns keys row = t).map
      fun row => (keyOf keys row, keyOf values row)).Perm
      ((g.texts.filter fun row => joinColumns keys row = t).map
        fun row => (keyOf keys row, keyOf values row)) := by
    apply List.perm_iff_count.mpr
    rintro ⟨key, value⟩
    by_cases here : keyName key = t
    · rw [pairs f key value here, pairs g key value here]
      exact (Multiset.coe_eq_coe.mp (rows key here)).count_eq value
    · have none (h : Frame Cell) : (key, value) ∉
          (h.texts.filter fun row => joinColumns keys row = t).map
            fun row => (keyOf keys row, keyOf values row) := by
        intro member
        have ⟨row, inside, same⟩ := List.mem_map.mp member
        have name := of_decide_eq_true (List.mem_filter.mp inside).2
        exact here ((congrArg keyName (Prod.mk.inj same).1).symm.trans name)
      rw [List.count_eq_zero_of_not_mem (none f), List.count_eq_zero_of_not_mem (none g)]
  have joined := perm.map fun pair => joinTexts keySeparator pair.2
  unfold signature
  rw [← sort_eq_sortTexts, ← sort_eq_sortTexts]
  congr 2
  apply Multiset.coe_eq_coe.mpr
  rw [List.map_map, List.map_map] at joined
  exact joined

end Rows

section Exact

variable {old new : Frame Cell} {keys : List String}

variable {k k' : List Text}

theorem keyName_eq_iff (filled : keys ≠ []) (held : k ∈ heldKeys old new keys)
    (held' : k' ∈ heldKeys old new keys) : keyName k = keyName k' ↔ keyPieces k = keyPieces k' := by
  have length {k : List Text} (held : k ∈ heldKeys old new keys) : k ≠ [] := by
    simp only [heldKeys, Frame.rowKeys, List.mem_append, List.mem_map] at held
    rcases held with ⟨row, _, rfl⟩ | ⟨row, _, rfl⟩ <;> simpa [keyOf] using filled
  exact joinTexts_eq_iff (length held) (length held')

variable {key : List Text}

theorem not_held (held : key ∈ heldKeys old new keys) (gone : rowsBefore old new keys key = 0) :
    rowsAfter old new keys key ≠ 0 := by
  rcases List.mem_append.mp held with here | here
  · exact absurd gone (mem_rowKeys.mp here)
  · exact mem_rowKeys.mp here

theorem rows_of_not_held (none : key ∉ heldKeys old new keys) :
    rowsBefore old new keys key = 0 ∧ rowsAfter old new keys key = 0 := by
  have ⟨first, second⟩ := not_or.mp (mt List.mem_append.mpr none)
  exact ⟨by_contra fun some => first (mem_rowKeys.mpr some),
    by_contra fun some => second (mem_rowKeys.mpr some)⟩

theorem diffFrames_nodup (old new : Frame Cell) (keys : List String) :
    (diffFrames old new keys).added.Nodup ∧ (diffFrames old new keys).removed.Nodup ∧
      (diffFrames old new keys).changed.Nodup :=
  ⟨(List.nodup_dedup _).filter _, (List.nodup_dedup _).filter _, (List.nodup_dedup _).filter _⟩

variable {t : Text}

theorem exists_held (listed : t ∈ old.keysOf keys ∨ t ∈ new.keysOf keys) :
    ∃ key ∈ heldKeys old new keys, keyName key = t := by
  rcases listed with here | here
  · have ⟨key, member, name⟩ := mem_keysOf.mp here
    exact ⟨key, List.mem_append_left _ member, name⟩
  · have ⟨key, member, name⟩ := mem_keysOf.mp here
    exact ⟨key, List.mem_append_right _ member, name⟩

theorem mem_added :
    t ∈ (diffFrames old new keys).added ↔ t ∈ new.keysOf keys ∧ t ∉ old.keysOf keys := by
  simp [diffFrames]

theorem mem_removed :
    t ∈ (diffFrames old new keys).removed ↔ t ∈ old.keysOf keys ∧ t ∉ new.keysOf keys := by
  simp [diffFrames]

theorem mem_changed :
    t ∈ (diffFrames old new keys).changed ↔ t ∈ old.keysOf keys ∧ t ∈ new.keysOf keys ∧
      old.signature keys (valueColumns old new keys) t ≠
        new.signature keys (valueColumns old new keys) t := by
  simp [diffFrames]

theorem mem_keysOf_of_rows {f : Frame Cell} {values : List String}
    (rows : f.rowsOf keys values key ≠ 0) : keyName key ∈ f.keysOf keys :=
  mem_keysOf.mpr ⟨key, mem_rowKeys.mpr rows, rfl⟩

theorem signatures_eq_iff (present : rowsBefore old new keys key ≠ 0)
    (present' : rowsAfter old new keys key ≠ 0)
    (alone : ∀ k ∈ heldKeys old new keys, keyName k = keyName key → k = key) :
    old.signature keys (valueColumns old new keys) (keyName key) =
        new.signature keys (valueColumns old new keys) (keyName key) ↔
      rowPieces (rowsBefore old new keys key) = rowPieces (rowsAfter old new keys key) := by
  have some {rows : Multiset (List Text)} (present : rows ≠ 0) :
      (rows.map (joinTexts keySeparator)).sort (· ≤ ·) ≠ [] := by
    intro none
    have empty := congrArg List.length none
    rw [Multiset.length_sort, Multiset.card_map] at empty
    exact present (Multiset.card_eq_zero.mp empty)
  rw [signature_eq fun k member => alone k (List.mem_append_left _ member),
    signature_eq fun k member => alone k (List.mem_append_right _ member)]
  exact joinTexts_eq_iff (some present) (some present')

theorem Classified.alone (classified : Classified old new keys) (held : k ∈ heldKeys old new keys)
    (held' : k' ∈ heldKeys old new keys)
    (differ : rowsBefore old new keys k ≠ rowsAfter old new keys k)
    (same : keyName k = keyName k') : k = k' := by
  have ⟨added, removed, changed⟩ := diffFrames_nodup old new keys
  by_cases gone : rowsBefore old new keys k = 0
  · exact classified.added.unique added (fun t here => exists_held (.inr (mem_added.mp here).1))
      held held' gone same
  · by_cases gone' : rowsAfter old new keys k = 0
    · exact classified.removed.unique removed
        (fun t here => exists_held (.inl (mem_removed.mp here).1)) held held' gone' same
    · exact classified.changed.unique changed
        (fun t here => exists_held (.inl (mem_changed.mp here).1)) held held' ⟨gone, gone', differ⟩ same

theorem Classified.separated (filled : keys ≠ []) (classified : Classified old new keys) :
    Separated old new keys := by
  constructor
  · intro k held k' held' different pieces
    have same := (keyName_eq_iff filled held held').mpr pieces
    constructor
    · by_contra differ
      exact different (classified.alone held held' differ same)
    · by_contra differ
      exact different (classified.alone held' held differ same.symm).symm
  · intro k held present present' differ pieces
    have listed := (classified.changed.exact k held).mpr ⟨present, present', differ⟩
    have ⟨_, _, signatures⟩ := mem_changed.mp listed
    apply signatures
    apply (signatures_eq_iff present present' ?_).mpr pieces
    intro k' held' same
    exact (classified.alone held held' differ same.symm).symm

variable (separated : Separated old new keys) (filled : keys ≠ [])

include separated filled in
theorem Separated.alone (held : k ∈ heldKeys old new keys) (held' : k' ∈ heldKeys old new keys)
    (differ : rowsBefore old new keys k ≠ rowsAfter old new keys k)
    (same : keyName k = keyName k') : k = k' := by
  by_contra different
  exact differ (separated.apart k held k' held' different ((keyName_eq_iff filled held held').mp same)).1

include separated filled in
theorem Separated.classified : Classified old new keys := by
  have ⟨nodupAdded, nodupRemoved, nodupChanged⟩ := diffFrames_nodup old new keys
  have alone {k k' : List Text} (held : k ∈ heldKeys old new keys)
      (held' : k' ∈ heldKeys old new keys)
      (differ : rowsBefore old new keys k ≠ rowsAfter old new keys k)
      (same : keyName k = keyName k') : k = k' := separated.alone filled held held' differ same
  -- a key that is absent on one side has other rows than none on the other
  have added : Lists keyName (heldKeys old new keys) (diffFrames old new keys).added
      fun key => rowsBefore old new keys key = 0 := by
    apply Lists.of_unique nodupAdded (fun t here => exists_held (.inr (mem_added.mp here).1))
    · intro key held
      rw [mem_added]
      constructor
      · rintro ⟨_, missing⟩
        by_contra present
        exact missing (mem_keysOf_of_rows present)
      · intro gone
        have present := not_held held gone
        refine ⟨mem_keysOf_of_rows present, ?_⟩
        intro here
        have ⟨k, member, name⟩ := mem_keysOf.mp here
        have other := alone held (List.mem_append_left _ member) (gone ▸ present.symm) name.symm
        exact mem_rowKeys.mp member (other ▸ gone)
    · intro k held k' held' gone same
      exact alone held held' (gone ▸ (not_held held gone).symm) same
  have removed : Lists keyName (heldKeys old new keys) (diffFrames old new keys).removed
      fun key => rowsAfter old new keys key = 0 := by
    have remains {key : List Text} (held : key ∈ heldKeys old new keys)
        (gone : rowsAfter old new keys key = 0) : rowsBefore old new keys key ≠ 0 :=
      fun none => not_held held none gone
    apply Lists.of_unique nodupRemoved (fun t here => exists_held (.inl (mem_removed.mp here).1))
    · intro key held
      rw [mem_removed]
      constructor
      · rintro ⟨_, missing⟩
        by_contra present
        exact missing (mem_keysOf_of_rows present)
      · intro gone
        have present := remains held gone
        refine ⟨mem_keysOf_of_rows present, ?_⟩
        intro here
        have ⟨k, member, name⟩ := mem_keysOf.mp here
        have other := alone held (List.mem_append_right _ member) (gone ▸ present) name.symm
        exact mem_rowKeys.mp member (other ▸ gone)
    · intro k held k' held' gone same
      exact alone held held' (gone ▸ remains held gone) same
  have changed : Lists keyName (heldKeys old new keys) (diffFrames old new keys).changed
      fun key => rowsBefore old new keys key ≠ 0 ∧ rowsAfter old new keys key ≠ 0 ∧
        rowsBefore old new keys key ≠ rowsAfter old new keys key := by
    apply Lists.of_unique nodupChanged (fun t here => exists_held (.inl (mem_changed.mp here).1))
    · intro key held
      rw [mem_changed]
      constructor
      · rintro ⟨first, second, signatures⟩
        have differ : rowsBefore old new keys key ≠ rowsAfter old new keys key := by
          intro same
          apply signatures
          apply signature_congr
          intro k name
          by_cases held' : k ∈ heldKeys old new keys
          · by_contra differ
            have other := alone held' held differ name
            exact differ (other ▸ same)
          · have ⟨first, second⟩ := rows_of_not_held held'
            exact first.trans second.symm
        have present {f : Frame Cell} (inside : ∀ k ∈ f.rowKeys keys, k ∈ heldKeys old new keys)
            (listed : keyName key ∈ f.keysOf keys) :
            f.rowsOf keys (valueColumns old new keys) key ≠ 0 := by
          have ⟨k, member, name⟩ := mem_keysOf.mp listed
          have other := alone held (inside k member) differ name.symm
          exact mem_rowKeys.mp (other ▸ member)
        exact ⟨present (fun k => List.mem_append_left _) first,
          present (fun k => List.mem_append_right _) second, differ⟩
      · rintro ⟨present, present', differ⟩
        refine ⟨mem_keysOf_of_rows present, mem_keysOf_of_rows present', ?_⟩
        intro signatures
        apply separated.told key held present present' differ
        apply (signatures_eq_iff present present' ?_).mp signatures
        intro k held' name
        exact (alone held held' differ name.symm).symm
    · intro k held k' held' differ same
      exact alone held held' differ.2.2 same
  refine ⟨added, removed, changed, ?_⟩
  have empty : (diffFrames old new keys).empty = true ↔ (diffFrames old new keys).added = [] ∧
      (diffFrames old new keys).removed = [] ∧ (diffFrames old new keys).changed = [] := by
    simp [KeyDiff.empty, and_assoc]
  rw [empty, added.eq_nil_iff, removed.eq_nil_iff, changed.eq_nil_iff]
  constructor
  · rintro ⟨noneAdded, noneRemoved, noneChanged⟩ key
    by_cases held : key ∈ heldKeys old new keys
    · by_contra differ
      exact noneChanged key held ⟨noneAdded key held, noneRemoved key held, differ⟩
    · have ⟨first, second⟩ := rows_of_not_held held
      exact first.trans second.symm
  · intro same
    refine ⟨?_, ?_, ?_⟩
    · intro key held gone
      exact not_held held gone (same key ▸ gone)
    · intro key held gone
      exact not_held held ((same key).trans gone) gone
    · rintro key _ ⟨_, _, differ⟩
      exact differ (same key)

/-- A diff is exact if and only if the separators tell apart what has changed. -/
theorem classified_iff (old new : Frame Cell) (key : String) (more : List String) :
    Classified old new (key :: more) ↔ Separated old new (key :: more) :=
  ⟨Classified.separated (List.cons_ne_nil _ _),
    fun separated => separated.classified (List.cons_ne_nil _ _)⟩

/-- A cell that holds a text, its digits ASCII. -/
structure TextCell where
  text : Text
  deriving DecidableEq

instance : CanonicalCell TextCell where
  canonical cell :=
    match RevisionValue.canonicalRevisionValue RevisionValue.asciiDigits cell.text with
    | .ok t => t
    | .error _ => []
  str cell := cell.text
  hashable _ := true
  Code := Text
  code cell := cell.text
  decidableCode := inferInstance

/-- A frame of one row. -/
def oneRow (market code : String) : Frame TextCell :=
  ⟨["market", "code"], [fun column => if column = "market" then ⟨market.toList⟩ else ⟨code.toList⟩]⟩

/-- Two keys one of whose cells holds U+001F are one text. -/
theorem keys_share_a_name : ¬ ∀ (old new : Frame TextCell) (key : String) (more : List String),
    Classified old new (key :: more) := by
  intro claimed
  have classified := claimed (oneRow "SH\x1fA" "B") (oneRow "SH" "A\x1fB") "market" ["code"]
  have silent : (diffFrames (oneRow "SH\x1fA" "B") (oneRow "SH" "A\x1fB") ["market", "code"]).empty =
      true := by decide
  have same := congrArg Multiset.card (classified.empty.mp silent ["SH\x1fA".toList, "B".toList])
  exact absurd same (by decide)

end Exact

end AutoTrade
