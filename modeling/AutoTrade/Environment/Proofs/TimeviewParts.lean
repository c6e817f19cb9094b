import AutoTrade.Environment.Proofs.TimeviewDir
import AutoTrade.Misc.Runs

/-!
# Views of published parts

What the operations of a refresh do to the files of a view, whole or cut off, and what holds of the
files in every view reached: a live view holds the merged months, then the parts of the month that
is open, and a view that was cut off has still every published part in a file that can be read.
-/

namespace AutoTrade

namespace Timeview

variable {Row : Type} {schema : PartSchema Row} {plan : PartPlan Row}

theorem Stashes.part_eq {name : Text} {part : Part Row} (holds : Stashes schema plan name part)
    {seq : Nat} (named : name = partName seq) : part = plan.part seq := by
  cases holds with
  | part seq' => rw [partName_injective named]
  | merge first last order => exact absurd named.symm (partName_ne_stashedMerge seq first last)

theorem Stashes.merge_eq {name : Text} {part : Part Row} (holds : Stashes schema plan name part)
    {span : Span} (named : name = stashedMerge span.1 span.2) :
    part = spanPart schema plan span := by
  cases holds with
  | part seq => exact absurd named (partName_ne_stashedMerge seq span.1 span.2)
  | merge first last order =>
    have same : (first, last) = span := rangeName_injective named
    rw [← same, spanPart, if_neg (ne_of_lt order)]

/-- Every stashed part is what the contract says. -/
def Sound (schema : PartSchema Row) (plan : PartPlan Row) (stash : Dict StashKey (Part Row)) : Prop :=
  ∀ key part, stash.get? key = some part → Stashes schema plan key.2 part

theorem Sound.part_eq {stash : Dict StashKey (Part Row)} (sound : Sound schema plan stash)
    {dir : Option Text} {seq : Nat} : ∀ key stashed,
      (dir.map fun dir => (dir, partName seq)) = some key → stash.get? key = some stashed →
        stashed = plan.part seq := by
  intro key stashed named found
  have ⟨_, _, made⟩ := Option.map_eq_some_iff.mp named
  exact (sound key stashed found).part_eq (congrArg Prod.snd made).symm

theorem Sound.merge_eq {stash : Dict StashKey (Part Row)} (sound : Sound schema plan stash)
    {dir : Option Text} {first last : Nat} : ∀ key stashed,
      (dir.map fun dir => (dir, stashedMerge first last)) = some key →
        stash.get? key = some stashed → stashed = spanPart schema plan (first, last) := by
  intro key stashed named found
  have ⟨_, _, made⟩ := Option.map_eq_some_iff.mp named
  exact (sound key stashed found).merge_eq (congrArg Prod.snd made).symm

/-- An operation that stashes what the contract says, if it stashes. -/
def Stores (schema : PartSchema Row) (plan : PartPlan Row) : PartOp Row → Prop
  | .stash key part => Stashes schema plan key.2 part
  | _ => True

theorem Sound.set {stash : Dict StashKey (Part Row)} (sound : Sound schema plan stash)
    {key : StashKey} {part : Part Row} (holds : Stashes schema plan key.2 part) :
    Sound schema plan (stash.set key part) := by
  intro key' part' found
  rw [Dict.get?_set] at found
  split at found
  · rename_i same
    rw [← same, ← Option.some.inj found]
    exact holds
  · exact sound key' part' found

theorem sound_crashes {files : PartFiles Row} {ops : List (PartOp Row)}
    (stores : ∀ op ∈ ops, Stores schema plan op) (sound : Sound schema plan files.stash) :
    ∀ cut ∈ (partDevice Row).crashes files ops, Sound schema plan cut.stash := by
  apply (partDevice Row).crashes_invariant (P := fun files => Sound schema plan files.stash)
  · intro op member files sound
    cases op with
    | write name part => exact sound
    | stash key part => exact sound.set (stores _ member)
    | link key name =>
      show Sound schema plan (files.apply _).stash
      simp only [PartFiles.apply]
      split <;> exact sound
    | unlink name => exact sound
  · intro op _ files sound cut broken
    cases op with
    | write name part =>
      rcases List.mem_cons.mp broken with rfl | groups
      · exact sound
      · have ⟨_, _, made⟩ := List.mem_map.mp groups
        rw [← made]
        exact sound
    | stash | link | unlink => cases broken
  · exact sound

/-- The file of the directory an operation writes or removes. -/
def PartOp.target? : PartOp Row → Option Text
  | .write name _ | .link _ name | .unlink name => some name
  | .stash _ _ => none

theorem get?_apply {files : PartFiles Row} {op : PartOp Row} {name : Text}
    (other : op.target? ≠ some name) : (files.apply op).dir.get? name = files.dir.get? name := by
  cases op with
  | write name' part => exact Dict.get?_set_of_ne _ _ fun same => other (congrArg some same)
  | stash key part => rfl
  | link key name' =>
    simp only [PartFiles.apply]
    split
    · rfl
    · exact Dict.get?_set_of_ne _ _ fun same => other (congrArg some same)
  | unlink name' =>
    simp only [PartFiles.apply]
    rw [Dict.get?_erase, if_neg fun same => other (congrArg some same)]

theorem get?_torn {files : PartFiles Row} {op : PartOp Row} {name : Text}
    (other : op.target? ≠ some name) :
    ∀ cut ∈ files.torn op, cut.dir.get? name = files.dir.get? name := by
  intro cut broken
  cases op with
  | write name' part =>
    have different : name' ≠ name := fun same => other (congrArg some same)
    rcases List.mem_cons.mp broken with rfl | groups
    · exact Dict.get?_set_of_ne _ _ different
    · have ⟨_, _, made⟩ := List.mem_map.mp groups
      rw [← made]
      exact Dict.get?_set_of_ne _ _ different
  | stash | link | unlink => cases broken

theorem get?_crashes {files : PartFiles Row} {ops : List (PartOp Row)} {name : Text}
    (others : ∀ op ∈ ops, op.target? ≠ some name) :
    ∀ cut ∈ (partDevice Row).crashes files ops, cut.dir.get? name = files.dir.get? name :=
  (partDevice Row).crashes_unchanged (fun files => files.dir.get? name)
    (fun op member _ => get?_apply (others op member))
    (fun op member _ => get?_torn (others op member)) files

section Publish

variable {files : PartFiles Row} {stash : Option StashKey} {name : Text} {rows : Nat}
  {part : Part Row} {ops : List (PartOp Row)}

theorem publishPart_cases (published : publishPart files stash name rows part = some ops) :
    (stash = none ∧ ops = [.write name part]) ∨
      ∃ key, stash = some key ∧
        ((files.stash.get? key = none ∧ ops = [.stash key part, .link key name]) ∨
          ∃ stashed, files.stash.get? key = some stashed ∧ ops = [.link key name]) := by
  cases stash with
  | none => exact .inl ⟨rfl, (Option.some.inj published).symm⟩
  | some key =>
    refine .inr ⟨key, rfl, ?_⟩
    rw [publishPart] at published
    cases found : files.stash.get? key with
    | none =>
      simp only [found] at published
      exact .inl ⟨rfl, (Option.some.inj published).symm⟩
    | some stashed =>
      simp only [found] at published
      split at published
      · exact .inr ⟨stashed, rfl, (Option.some.inj published).symm⟩
      · cases published

theorem publishPart_isSome
    (right : ∀ key stashed, stash = some key → files.stash.get? key = some stashed → stashed = part)
    (count : rowCount part = rows) : (publishPart files stash name rows part).isSome := by
  cases stash with
  | none => rfl
  | some key =>
    rw [publishPart]
    cases found : files.stash.get? key with
    | none => rfl
    | some stashed => simp [right key stashed rfl found, count]

theorem target?_publishPart (published : publishPart files stash name rows part = some ops)
    {name' : Text} (other : name ≠ name') : ∀ op ∈ ops, op.target? ≠ some name' := by
  rcases publishPart_cases published with ⟨_, rfl⟩ | ⟨key, _, ⟨_, rfl⟩ | ⟨_, _, rfl⟩⟩ <;>
    simp [PartOp.target?, other]

theorem stores_publishPart (published : publishPart files stash name rows part = some ops)
    (holds : ∀ key, stash = some key → Stashes schema plan key.2 part) :
    ∀ op ∈ ops, Stores schema plan op := by
  rcases publishPart_cases published with ⟨_, rfl⟩ | ⟨key, named, ⟨_, rfl⟩ | ⟨_, _, rfl⟩⟩
  · simp [Stores]
  · simpa [Stores] using holds key named
  · simp [Stores]

theorem run_publishPart {files' : PartFiles Row}
    (published : publishPart files stash name rows part = some ops)
    (same : ∀ key, stash = some key → files'.stash.get? key = files.stash.get? key)
    (right : ∀ key stashed, stash = some key → files.stash.get? key = some stashed →
      stashed = part) :
    ((partDevice Row).run files' ops).dir = files'.dir.set name (.whole part) := by
  rcases publishPart_cases published with ⟨_, rfl⟩ | ⟨key, named, ⟨_, rfl⟩ | ⟨stashed, found, rfl⟩⟩
  · rfl
  · simp [partDevice, PartFiles.apply]
  · have there := (same key named).trans found
    simp [partDevice, PartFiles.apply, there, right key stashed named found]

theorem stash_run_publishPart {files' : PartFiles Row} {key' : StashKey}
    (published : publishPart files stash name rows part = some ops)
    (other : ∀ key, stash = some key → key ≠ key') :
    ((partDevice Row).run files' ops).stash.get? key' = files'.stash.get? key' := by
  rcases publishPart_cases published with ⟨_, rfl⟩ | ⟨key, named, ⟨_, rfl⟩ | ⟨_, _, rfl⟩⟩
  · rfl
  · simp only [partDevice, Device.run_cons, Device.run_nil, PartFiles.apply, Dict.get?_set_self]
    exact Dict.get?_set_of_ne _ _ (other key named)
  · simp only [partDevice, Device.run_cons, Device.run_nil, PartFiles.apply]
    split <;> rfl

end Publish

theorem mergeOps_cases {files : PartFiles Row} {months : MonthParts} {stash : Option Text}
    {ops : List (PartOp Row)} (merges : mergeOps schema files months stash = some ops) :
    ∃ merged published, mergedPart schema files.dir months.first months.last = some merged ∧
      publishPart files (stash.map fun dir => (dir, stashedMerge months.first months.last))
        (mergedName months.first months.last) months.rows merged = some published ∧
      ops = published ++ (List.range' months.first (months.last + 1 - months.first)).map
        fun seq => .unlink (partName seq) := by
  simp only [mergeOps, Option.bind_eq_bind, Option.bind_eq_some_iff] at merges
  have ⟨merged, read, published, publishes, made⟩ := merges
  exact ⟨merged, published, read, publishes, (Option.some.inj made).symm⟩

theorem refreshOps_cases {view : PartView Row} {next : Publication Row} {ops : List (PartOp Row)}
    {months : MonthParts} (refresh : refreshOps schema view next = some (ops, months)) :
    ∃ written merging, publishPart view.files (next.stash.map fun dir => (dir, partName view.partSeq))
        (partName view.partSeq) (rowCount next.part) next.part = some written ∧
      monthOps schema view next = some (merging, months) ∧ ops = written ++ merging := by
  simp only [refreshOps, Option.bind_eq_bind, Option.bind_eq_some_iff] at refresh
  have ⟨written, publishes, (merging, months'), monthly, made⟩ := refresh
  have pairs := Prod.mk.inj (Option.some.inj made)
  exact ⟨written, merging, publishes, pairs.2 ▸ monthly, pairs.1.symm⟩

theorem monthOps_cases {view : PartView Row} {next : Publication Row} {merging : List (PartOp Row)}
    {months : MonthParts} (monthly : monthOps schema view next = some (merging, months)) :
    (view.partSeq = 0 ∧ merging = [] ∧ months = view.months) ∨
      (view.partSeq ≠ 0 ∧ view.months.month = some next.month ∧ merging = [] ∧
        months = { view.months with
          last := view.partSeq, rows := view.months.rows + rowCount next.part }) ∨
      (view.partSeq ≠ 0 ∧
        months = ⟨some next.month, view.partSeq, view.partSeq, rowCount next.part⟩ ∧
        ((view.months.last ≤ view.months.first ∧ merging = []) ∨
          (view.months.first < view.months.last ∧
            mergeOps schema view.files view.months next.stash = some merging))) := by
  simp only [monthOps] at monthly
  by_cases initial : view.partSeq = 0
  · rw [if_pos initial] at monthly
    have pairs := Prod.mk.inj (Option.some.inj monthly)
    exact .inl ⟨initial, pairs.1.symm, pairs.2.symm⟩
  rw [if_neg initial] at monthly
  by_cases month : view.months.month = some next.month
  · rw [if_pos month] at monthly
    have pairs := Prod.mk.inj (Option.some.inj monthly)
    exact .inr (.inl ⟨initial, month, pairs.1.symm, pairs.2.symm⟩)
  · rw [if_neg month, Option.map_eq_some_iff] at monthly
    have ⟨ops, merges, made⟩ := monthly
    have pairs := Prod.mk.inj made
    refine .inr (.inr ⟨initial, pairs.2.symm, ?_⟩)
    rw [← pairs.1]
    by_cases several : view.months.first < view.months.last
    · rw [if_pos several] at merges
      exact .inr ⟨several, merges⟩
    · rw [if_neg several] at merges
      exact .inl ⟨not_lt.mp several, (Option.some.inj merges).symm⟩

theorem mergedPart_eq {dir : Dict Text (Written (Part Row))} {spans : List Span} {span : Span}
    (holds : Holds schema plan dir spans) (several : span.1 < span.2)
    (sources : ∀ seq, span.1 ≤ seq → seq ≤ span.2 → (seq, seq) ∈ spans) :
    mergedPart schema dir span.1 span.2 = some (spanPart schema plan span) := by
  have each : ∀ seq ∈ List.range' span.1 (span.2 + 1 - span.1),
      (dir.get? (partName seq)).bind Written.content? = some (plan.part seq) := by
    intro seq member
    have bounds := List.mem_range'_1.mp member
    rw [← spanName_self, holds.get? (sources seq bounds.1 (by omega)), spanPart, if_pos rfl]
    rfl
  rw [mergedPart, mapM_eq_some each, spanPart, if_neg (ne_of_lt several), Option.map_some, List.flatMap_map]

theorem Holds.unlinks {files : PartFiles Row} {seqs : List Nat} {spans : List Span}
    (holds : Holds schema plan files.dir (seqs.map (fun seq => (seq, seq)) ++ spans)) :
    Holds schema plan ((partDevice Row).run files (seqs.map fun seq => .unlink (partName seq))).dir
      spans := by
  induction seqs generalizing files with
  | nil => exact holds
  | cons seq seqs ih =>
    have erased := Holds.erase holds
    rw [spanName_self] at erased
    exact @ih (files.apply (.unlink (partName seq))) erased

/-- The parts of the open month: none is open before part 1, and then those from `first` on. -/
def OpenMonth (plan : PartPlan Row) (months : MonthParts) (first seq : Nat) : Prop :=
  (months = {} ∧ first = seq ∧ seq ≤ 1) ∨
    (months.first = first ∧ 1 ≤ first ∧ first < seq ∧ months.last + 1 = seq ∧
      months.rows = ((List.range' first (seq - first)).map fun seq => rowCount (plan.part seq)).sum)

/-- A view whose files are merged months, then the parts from `first` on, each by itself. -/
structure Rolling (schema : PartSchema Row) (plan : PartPlan Row) (view : PartView Row)
    (merged : List Span) (first : Nat) : Prop where
  covers : Covers 0 merged first
  le : first ≤ view.partSeq
  holds : Holds schema plan view.files.dir (merged ++ singles first view.partSeq)
  month : OpenMonth plan view.months first view.partSeq
  unfrozen : view.partSeq = 0 → plan.frozen = none

namespace Rolling

variable {view : PartView Row} {merged : List Span} {first : Nat}

theorem covers_all (rolling : Rolling schema plan view merged first) :
    Covers 0 (merged ++ singles first view.partSeq) view.partSeq :=
  rolling.covers.append (Covers.singles rolling.le)

theorem part_eq (rolling : Rolling schema plan view merged first) :
    (plan.publication view.partSeq).part = plan.part view.partSeq := by
  rw [PartPlan.part]
  split
  · rename_i initial
    rw [rolling.unfrozen initial, initial]
    rfl
  · rfl

theorem fresh (rolling : Rolling schema plan view merged first) {span : Span}
    (late : first ≤ span.2) (new : span.1 ≠ span.2 ∨ view.partSeq ≤ span.1) :
    span ∉ merged ++ singles first view.partSeq := by
  intro member
  rcases List.mem_append.mp member with inMerged | single
  · have inside := rolling.covers.bounds inMerged
    omega
  · have inside := mem_singles.mp single
    omega

section Refresh

variable {written merging : List (PartOp Row)} {months : MonthParts}

theorem partWritten (rolling : Rolling schema plan view merged first)
    (sound : Sound schema plan view.files.stash) {stash : Option Text}
    (publishes : publishPart view.files (stash.map fun dir => (dir, partName view.partSeq))
      (partName view.partSeq) (rowCount (plan.part view.partSeq)) (plan.part view.partSeq) =
        some written) :
    Holds schema plan ((partDevice Row).run view.files written).dir
      (merged ++ singles first (view.partSeq + 1)) := by
  have new : (view.partSeq, view.partSeq) ∉ merged ++ singles first view.partSeq :=
    rolling.fresh rolling.le (.inr le_rfl)
  have added := rolling.holds.set new
  rw [run_publishPart publishes (fun _ _ => rfl) sound.part_eq, singles_succ rolling.le,
    ← List.append_assoc]
  rwa [spanName_self, spanPart, if_pos rfl] at added

theorem several (rolling : Rolling schema plan view merged first)
    (several : view.months.first < view.months.last) :
    view.months.first = first ∧ view.months.last + 1 = view.partSeq ∧
      view.months.rows =
        ((List.range' first (view.partSeq - first)).map fun seq => rowCount (plan.part seq)).sum := by
  rcases rolling.month with ⟨none, _, _⟩ | ⟨start, _, _, last, rows⟩
  · rw [none] at several
    cases several
  · exact ⟨start, last, rows⟩

theorem mergedPart_eq (rolling : Rolling schema plan view merged first)
    (several : view.months.first < view.months.last) :
    mergedPart schema view.files.dir view.months.first view.months.last =
      some (spanPart schema plan (view.months.first, view.months.last)) := by
  have ⟨start, last, _⟩ := rolling.several several
  refine @Timeview.mergedPart_eq _ _ _ _ _ (view.months.first, view.months.last) rolling.holds several
    fun seq from' until' => List.mem_append_right _ (mem_singles.mpr ⟨rfl, ?_⟩)
  simp only at from' until' ⊢
  omega

theorem mergePublished (rolling : Rolling schema plan view merged first)
    (sound : Sound schema plan view.files.stash) {stash : Option Text}
    (publishes : publishPart view.files (stash.map fun dir => (dir, partName view.partSeq))
      (partName view.partSeq) (rowCount (plan.part view.partSeq)) (plan.part view.partSeq) =
        some written)
    (several : view.months.first < view.months.last)
    (merges : publishPart view.files
      (stash.map fun dir => (dir, stashedMerge view.months.first view.months.last))
      (mergedName view.months.first view.months.last) view.months.rows
      (spanPart schema plan (view.months.first, view.months.last)) = some merging) :
    Holds schema plan ((partDevice Row).run ((partDevice Row).run view.files written) merging).dir
      (merged ++ singles first (view.partSeq + 1) ++ [(view.months.first, view.months.last)]) := by
  have ⟨start, last, _⟩ := rolling.several several
  have same : ∀ key, (stash.map fun dir => (dir, stashedMerge view.months.first view.months.last)) =
      some key → ((partDevice Row).run view.files written).stash.get? key =
        view.files.stash.get? key := by
    intro key named
    have ⟨_, _, made⟩ := Option.map_eq_some_iff.mp named
    refine stash_run_publishPart publishes fun key' named' equal => ?_
    have ⟨_, _, made'⟩ := Option.map_eq_some_iff.mp named'
    rw [← made, ← made'] at equal
    exact partName_ne_stashedMerge _ _ _ (congrArg Prod.snd equal)
  have absent : (view.months.first, view.months.last) ∉
      merged ++ singles first (view.partSeq + 1) := by
    rw [singles_succ rolling.le, ← List.append_assoc]
    intro member
    rcases List.mem_append.mp member with earlier | new
    · exact rolling.fresh (by simp only; omega) (.inl (ne_of_lt several)) earlier
    · simp only [List.mem_singleton, Prod.mk.injEq] at new
      omega
  have added := (rolling.partWritten sound publishes).set absent
  rw [run_publishPart merges same sound.merge_eq]
  rwa [spanName, if_neg (ne_of_lt several)] at added

theorem mergeDone (rolling : Rolling schema plan view merged first)
    (several : view.months.first < view.months.last) {files : PartFiles Row}
    (holds : Holds schema plan files.dir
      (merged ++ singles first (view.partSeq + 1) ++ [(view.months.first, view.months.last)])) :
    Holds schema plan ((partDevice Row).run files
        ((List.range' view.months.first (view.months.last + 1 - view.months.first)).map
          fun seq => .unlink (partName seq))).dir
      (merged ++ [(view.months.first, view.months.last)] ++
        singles view.partSeq (view.partSeq + 1)) := by
  have ⟨start, last, _⟩ := rolling.several several
  apply Holds.unlinks
  have sources : (List.range' view.months.first (view.months.last + 1 - view.months.first)).map
      (fun seq => (seq, seq)) = singles first view.partSeq := by
    rw [start, last, singles]
  refine holds.perm ?_
  rw [sources, singles_succ rolling.le, singles_succ le_rfl, singles_self, List.nil_append]
  -- the sources to the front
  rw [List.append_assoc, List.append_assoc, List.append_assoc]
  refine (List.perm_append_comm_assoc _ _ _).trans (List.Perm.append_left _ ?_)
  exact List.Perm.append_left _ List.perm_append_comm

theorem publish (rolling : Rolling schema plan view merged first)
    (sound : Sound schema plan view.files.stash) {ops : List (PartOp Row)}
    (refresh : refreshOps schema view (plan.publication view.partSeq) = some (ops, months)) :
    ∃ merged' first', Rolling schema plan
      { view with files := (partDevice Row).run view.files ops
                  partSeq := view.partSeq + 1, months } merged' first' := by
  have ⟨written, merging, publishes, monthly, made⟩ := refreshOps_cases refresh
  rw [rolling.part_eq] at publishes
  have holds := rolling.partWritten sound publishes
  rw [made]
  rcases monthOps_cases monthly with ⟨initial, nothing, same⟩ | ⟨later, month, nothing, same⟩ |
    ⟨later, same, ⟨single, nothing⟩ | ⟨several, merges⟩⟩
  · -- part 0 is merged with no other
    have le := rolling.le
    rw [nothing, List.append_nil, same]
    refine ⟨merged ++ singles first (view.partSeq + 1), view.partSeq + 1, ?_, le_rfl, ?_, ?_, nofun⟩
    · exact rolling.covers.append (Covers.singles (by omega))
    · rw [singles_self, List.append_nil]
      exact holds
    · rcases rolling.month with ⟨none, _, _⟩ | ⟨_, one, before, _⟩
      · exact .inl ⟨none, rfl, by simp only; omega⟩
      · omega
  · -- the open month grows by a part
    rw [nothing, List.append_nil, same]
    refine ⟨merged, first, rolling.covers, Nat.le_succ_of_le rolling.le, holds, ?_, nofun⟩
    rcases rolling.month with ⟨none, _, _⟩ | ⟨start, one, before, last, rows⟩
    · rw [none] at month
      cases month
    · refine .inr ⟨start, one, by simp only; omega, rfl, ?_⟩
      simp only
      rw [rows, rolling.part_eq, show view.partSeq + 1 - first = view.partSeq - first + 1 by omega,
        List.range'_1_concat, List.map_append, List.sum_append]
      simp [show first + (view.partSeq - first) = view.partSeq by omega]
  · -- the month before has one part, which stays as it is
    rw [nothing, List.append_nil, same]
    refine ⟨merged ++ singles first view.partSeq, view.partSeq, rolling.covers_all,
      Nat.le_succ _, ?_, ?_, nofun⟩
    · rw [singles_succ le_rfl, singles_self, List.nil_append, List.append_assoc,
        ← singles_succ rolling.le]
      exact holds
    · refine .inr ⟨rfl, Nat.one_le_iff_ne_zero.mpr later, Nat.lt_succ_self _, rfl, ?_⟩
      simp [rolling.part_eq]
  · -- the month before is merged
    have ⟨merge, published, read, merging', parts⟩ := mergeOps_cases merges
    have source := read.symm.trans (rolling.mergedPart_eq several)
    rw [Option.some.inj source] at merging'
    have ⟨start, last, _⟩ := rolling.several several
    rw [same, parts]
    refine ⟨merged ++ [(view.months.first, view.months.last)], view.partSeq, ?_, Nat.le_succ _, ?_,
      ?_, nofun⟩
    · refine rolling.covers.append ?_
      rw [start, ← last]
      exact .cons (by omega) (.nil _)
    · simp only [Device.run_append]
      exact rolling.mergeDone several (rolling.mergePublished sound publishes several merging')
    · refine .inr ⟨rfl, Nat.one_le_iff_ne_zero.mpr later, Nat.lt_succ_self _, rfl, ?_⟩
      simp [rolling.part_eq]

theorem refreshOps_isSome (rolling : Rolling schema plan view merged first)
    (sound : Sound schema plan view.files.stash) :
    (refreshOps schema view (plan.publication view.partSeq)).isSome := by
  have publishes : (publishPart view.files
      ((plan.publication view.partSeq).stash.map fun dir => (dir, partName view.partSeq))
      (partName view.partSeq) (rowCount (plan.publication view.partSeq).part)
      (plan.publication view.partSeq).part).isSome := by
    rw [rolling.part_eq]
    exact publishPart_isSome sound.part_eq rfl
  have monthly : (monthOps schema view (plan.publication view.partSeq)).isSome := by
    simp only [monthOps]
    by_cases initial : view.partSeq = 0
    · rw [if_pos initial]
      rfl
    rw [if_neg initial]
    by_cases month : view.months.month = some (plan.publication view.partSeq).month
    · rw [if_pos month]
      rfl
    rw [if_neg month, Option.isSome_map]
    by_cases several : view.months.first < view.months.last
    · have ⟨start, last, rows⟩ := rolling.several several
      have merges : (publishPart view.files ((plan.publication view.partSeq).stash.map
          fun dir => (dir, stashedMerge view.months.first view.months.last))
          (mergedName view.months.first view.months.last) view.months.rows
          (spanPart schema plan (view.months.first, view.months.last))).isSome := by
        refine publishPart_isSome sound.merge_eq ?_
        rw [rowCount_spanPart, rows, start, last]
      rw [if_pos several, mergeOps, rolling.mergedPart_eq several]
      have ⟨published, done⟩ := Option.isSome_iff_exists.mp merges
      simp [done]
    · rw [if_neg several]
      rfl
  have ⟨written, done⟩ := Option.isSome_iff_exists.mp publishes
  have ⟨months, done'⟩ := Option.isSome_iff_exists.mp monthly
  simp [refreshOps, done, done']

theorem stores (rolling : Rolling schema plan view merged first) {ops : List (PartOp Row)}
    (refresh : refreshOps schema view (plan.publication view.partSeq) = some (ops, months)) :
    ∀ op ∈ ops, Stores schema plan op := by
  obtain ⟨written, merging, publishes, monthly, made⟩ := refreshOps_cases refresh
  have first' : ∀ op ∈ written, Stores schema plan op := by
    refine stores_publishPart publishes fun key named => ?_
    obtain ⟨_, _, same⟩ := Option.map_eq_some_iff.mp named
    rw [rolling.part_eq, ← same]
    exact .part view.partSeq
  have second : ∀ op ∈ merging, Stores schema plan op := by
    rcases monthOps_cases monthly with ⟨_, nothing, _⟩ | ⟨_, _, nothing, _⟩ |
      ⟨_, _, ⟨_, nothing⟩ | ⟨several, merges⟩⟩
    · simp [nothing]
    · simp [nothing]
    · simp [nothing]
    · obtain ⟨merge, published, read, merging', parts⟩ := mergeOps_cases merges
      have source := read.symm.trans (rolling.mergedPart_eq several)
      rw [parts]
      intro op member
      rcases List.mem_append.mp member with publishing | unlinking
      · refine stores_publishPart merging' (fun key named => ?_) op publishing
        obtain ⟨_, _, same⟩ := Option.map_eq_some_iff.mp named
        rw [Option.some.inj source, ← same, spanPart, if_neg (ne_of_lt several)]
        exact .merge _ _ several
      · obtain ⟨_, _, unlink⟩ := List.mem_map.mp unlinking
        rw [← unlink]
        trivial
  rw [made]
  intro op member
  exact (List.mem_append.mp member).elim (first' op) (second op)

end Refresh

end Rolling

/-- The rows of a part stand together in a file that can be read. -/
def Kept (schema : PartSchema Row) (plan : PartPlan Row) (dir : Dict Text (Written (Part Row)))
    (seq : Nat) : Prop :=
  ∃ name part, dir.get? name = some (.whole part) ∧
    partRows schema plan seq <:+: part.flatten.map schema.project

theorem kept_of_covers {dir : Dict Text (Written (Part Row))} {spans : List Span} {count : Nat}
    (covers : Covers 0 spans count)
    (stand : ∀ span ∈ spans, dir.get? (spanName span) = some (.whole (spanPart schema plan span))) :
    ∀ seq < count, Kept schema plan dir seq := by
  intro seq before
  have ⟨span, member, from', until'⟩ := covers.exists_span (Nat.zero_le seq) before
  refine ⟨spanName span, spanPart schema plan span, stand span member, ?_⟩
  have inside : seq ∈ List.range' span.1 (span.2 + 1 - span.1) := by
    rw [List.mem_range'_1]
    omega
  have ⟨earlier, later, split⟩ := List.append_of_mem inside
  rw [rows_spanPart, split, List.flatMap_append, List.flatMap_cons]
  exact ⟨_, _, List.append_assoc _ _ _⟩

namespace Rolling

variable {view : PartView Row} {merged : List Span} {first : Nat}

theorem kept (rolling : Rolling schema plan view merged first)
    (sound : Sound schema plan view.files.stash) {ops : List (PartOp Row)} {months : MonthParts}
    (refresh : refreshOps schema view (plan.publication view.partSeq) = some (ops, months)) :
    ∀ cut ∈ (partDevice Row).crashes view.files ops,
      ∀ seq < view.partSeq, Kept schema plan cut.dir seq := by
  have ⟨written, merging, publishes, monthly, made⟩ := refreshOps_cases refresh
  have stands : ∀ cut ∈ (partDevice Row).crashes view.files written,
      ∀ span ∈ merged ++ singles first view.partSeq,
        cut.dir.get? (spanName span) = some (.whole (spanPart schema plan span)) := by
    intro cut broken span member
    rw [← rolling.holds.get? member]
    refine get?_crashes (target?_publishPart publishes fun same => ?_) cut broken
    rw [← spanName_self] at same
    exact rolling.fresh rolling.le (.inr le_rfl) (spanName_injective same ▸ member)
  have early : ∀ cut ∈ (partDevice Row).crashes view.files written,
      ∀ seq < view.partSeq, Kept schema plan cut.dir seq := fun cut broken =>
    kept_of_covers rolling.covers_all (stands cut broken)
  have unmerged : merging = [] → ∀ cut ∈ (partDevice Row).crashes
      ((partDevice Row).run view.files written) merging,
      ∀ seq < view.partSeq, Kept schema plan cut.dir seq := by
    intro nothing cut broken
    rw [nothing, Device.crashes_nil, List.mem_singleton] at broken
    exact early cut (broken ▸ (partDevice Row).run_mem_crashes _ _)
  intro cut broken
  rw [made, Device.mem_crashes_append] at broken
  refine broken.elim (early cut) fun broken => ?_
  rcases monthOps_cases monthly with ⟨_, nothing, _⟩ | ⟨_, _, nothing, _⟩ |
    ⟨_, _, ⟨_, nothing⟩ | ⟨several, merges⟩⟩
  · exact unmerged nothing cut broken
  · exact unmerged nothing cut broken
  · exact unmerged nothing cut broken
  have ⟨merge, published, read, merging', parts⟩ := mergeOps_cases merges
  have source := read.symm.trans (rolling.mergedPart_eq several)
  have ⟨start, last, _⟩ := rolling.several several
  rw [Option.some.inj source] at merging'
  rw [rolling.part_eq] at publishes
  have name : spanName (view.months.first, view.months.last) =
      mergedName view.months.first view.months.last := if_neg (ne_of_lt several)
  rw [parts, Device.mem_crashes_append] at broken
  rcases broken with before | after
  · -- the merged part is not yet there: the parts are
    refine kept_of_covers rolling.covers_all fun span member => ?_
    rw [← stands _ ((partDevice Row).run_mem_crashes _ _) span member]
    refine get?_crashes (target?_publishPart merging' fun same => ?_) cut before
    rw [← name] at same
    exact rolling.fresh (by simp only; omega) (.inl (ne_of_lt several))
      (spanName_injective same ▸ member)
  · -- the merged part is there: only its sources go
    have holds := rolling.mergePublished sound publishes several merging'
    have covers : Covers 0 (merged ++ [(view.months.first, view.months.last)]) view.partSeq := by
      refine rolling.covers.append ?_
      rw [start, ← last]
      exact .cons (by omega) (.nil _)
    refine kept_of_covers covers fun span member => ?_
    have stays : span ∈ merged ++ singles first (view.partSeq + 1) ++
        [(view.months.first, view.months.last)] := by
      rw [List.append_assoc]
      exact (List.mem_append.mp member).elim (List.mem_append_left _)
        fun new => List.mem_append_right _ (List.mem_append_right _ new)
    rw [← holds.get? stays]
    refine get?_crashes (fun op unlink => ?_) cut after
    have ⟨seq, source, removed⟩ := List.mem_map.mp unlink
    have bounds := List.mem_range'_1.mp source
    rw [← removed]
    intro same
    have single : (seq, seq) = span := by
      apply spanName_injective
      rw [spanName_self]
      exact Option.some.inj same
    rw [← single] at member
    rcases List.mem_append.mp member with inMerged | new
    · have inside := rolling.covers.bounds inMerged
      simp only at inside
      omega
    · simp only [List.mem_singleton, Prod.mk.injEq] at new
      omega

end Rolling

theorem entries_run_unlink (files : PartFiles Row) (names : List Text) :
    ((partDevice Row).run files (names.map .unlink)).dir.entries =
      files.dir.entries.filter fun entry => entry.1 ∉ names := by
  induction names generalizing files with
  | nil => simp
  | cons name names ih =>
    rw [List.map_cons, Device.run_cons, ih]
    show (files.dir.entries.filter _).filter _ = _
    rw [List.filter_filter]
    refine List.filter_congr fun entry _ => ?_
    simp [Bool.and_comm]

theorem rolling_start (files : PartFiles Row) :
    ∃ merged first, Rolling schema plan
      { files := (partDevice Row).run files (startOps plan files)
        partSeq := if plan.frozen.isSome then 1 else 0, live := true } merged first := by
  have gone : ((partDevice Row).run files (files.dir.keys.map .unlink)).dir.entries = [] := by
    rw [entries_run_unlink]
    refine List.filter_eq_nil_iff.mpr fun entry member => ?_
    have named : entry.1 ∈ files.dir.keys := List.mem_map_of_mem member
    simp [named]
  have emptied : Holds schema plan ((partDevice Row).run files (files.dir.keys.map .unlink)).dir
      [] := by
    rw [Holds, gone]
    exact List.Perm.refl _
  rw [startOps, Device.run_append]
  cases frozen : plan.frozen with
  | none =>
    refine ⟨[], 0, .nil 0, le_rfl, ?_, .inl ⟨rfl, rfl, Nat.zero_le 1⟩, fun _ => frozen⟩
    exact emptied
  | some part =>
    refine ⟨[(0, 0)], 1, .cons le_rfl (.nil 1), le_rfl, ?_, .inl ⟨rfl, rfl, le_rfl⟩, by simp⟩
    have added := @Holds.set _ _ _ _ _ emptied (0, 0) List.not_mem_nil
    rw [spanName_self, spanPart, if_pos rfl, PartPlan.part, if_pos rfl, frozen] at added
    exact added

/-- What holds of a view, live or cut off. -/
structure Keeps (schema : PartSchema Row) (plan : PartPlan Row) (view : PartView Row) : Prop where
  sound : Sound schema plan view.files.stash
  rolling : view.live = true → ∃ merged first, Rolling schema plan view merged first
  kept : view.live = false → ∀ seq < view.partSeq, Kept schema plan view.files.dir seq

theorem stores_startOps (files : PartFiles Row) : ∀ op ∈ startOps plan files, Stores schema plan op := by
  intro op member
  rcases List.mem_append.mp member with unlink | write
  · have ⟨_, _, made⟩ := List.mem_map.mp unlink
    rw [← made]
    trivial
  · have ⟨_, _, made⟩ := List.mem_map.mp write
    rw [← made]
    trivial

theorem Reached.keeps {view : PartView Row} (reached : Reached schema plan view) :
    Keeps schema plan view := by
  induction reached with
  | new => exact ⟨nofun, nofun, nofun⟩
  | @start view reached ih =>
    refine ⟨?_, fun _ => rolling_start view.files, nofun⟩
    exact sound_crashes (stores_startOps view.files) ih.sound _ ((partDevice Row).run_mem_crashes _ _)
  | @startCut view files reached cut ih =>
    exact ⟨sound_crashes (stores_startOps view.files) ih.sound _ cut, nofun, nofun⟩
  | @publish view ops months reached live refresh ih =>
    have ⟨merged, first, rolling⟩ := ih.rolling live
    refine ⟨?_, fun _ => rolling.publish ih.sound refresh, fun dead => ?_⟩
    · exact sound_crashes (rolling.stores refresh) ih.sound _ ((partDevice Row).run_mem_crashes _ _)
    · exact absurd (dead.symm.trans live) Bool.false_ne_true
  | @publishCut view ops months files reached live refresh cut ih =>
    have ⟨merged, first, rolling⟩ := ih.rolling live
    refine ⟨?_, nofun, fun _ => rolling.kept ih.sound refresh files cut⟩
    exact sound_crashes (rolling.stores refresh) ih.sound _ cut
  | @stashed view dir name part reached holds ih =>
    refine ⟨ih.sound.set holds, fun live => ?_, ih.kept⟩
    have ⟨merged, first, rolling⟩ := ih.rolling live
    exact ⟨merged, first, rolling.covers, rolling.le, rolling.holds, rolling.month, rolling.unfrozen⟩

/-- A live view of at most ten thousand parts reads, in the order of the names, as all the rows
published, in order and once each, and refuses no further refresh. Where a start or a refresh was cut
off, the view publishes no more, and every part published stands in a file that can be read. -/
theorem view_reads_published {view : PartView Row} (reached : Reached schema plan view) :
    (view.live = true →
      (view.partSeq ≤ 10000 →
        readDir schema view.files.dir = some (publishedRows schema plan view.partSeq)) ∧
      (refreshOps schema view (plan.publication view.partSeq)).isSome) ∧
    (view.live = false → ∀ seq < view.partSeq, Kept schema plan view.files.dir seq) := by
  have keeps := reached.keeps
  refine ⟨fun live => ?_, keeps.kept⟩
  have ⟨merged, first, rolling⟩ := keeps.rolling live
  exact ⟨readDir_eq rolling.holds rolling.covers_all, rolling.refreshOps_isSome keeps.sound⟩

/-- A frozen part and two months, of two parts and then one. -/
def twoMonths : PartPlan Nat where
  frozen := some [[0]]
  publication seq := ⟨(2024, if seq ≤ 2 then 1 else 2), [[seq]], none⟩

def plainSchema : PartSchema Nat := ⟨id, fun _ => rfl⟩

/-- The view after its start and some refreshes. -/
def refreshed : Nat → PartView Nat
  | 0 => { files := (partDevice Nat).run {} (startOps twoMonths {}), partSeq := 1, live := true }
  | count + 1 =>
    match refreshOps plainSchema (refreshed count) (twoMonths.publication (refreshed count).partSeq) with
    | none => refreshed count
    | some (ops, months) =>
      { refreshed count with files := (partDevice Nat).run (refreshed count).files ops
                             partSeq := (refreshed count).partSeq + 1, months }

theorem reached_refreshed (count : Nat) :
    (refreshed count).live = true ∧ Reached plainSchema twoMonths (refreshed count) := by
  induction count with
  | zero => exact ⟨rfl, .start .new⟩
  | succ count ih =>
    have ⟨live, reached⟩ := ih
    rw [refreshed]
    split
    · exact ih
    · rename_i ops months refresh
      exact ⟨live, reached.publish live refresh⟩

theorem view_reads_published_merged :
    readDir plainSchema (refreshed 3).files.dir = some [0, 1, 2, 3] ∧
      ((refreshed 3).partSeq ≤ 10000 → readDir plainSchema (refreshed 3).files.dir =
        some (publishedRows plainSchema twoMonths (refreshed 3).partSeq)) :=
  ⟨by decide +kernel,
    ((view_reads_published (reached_refreshed 3).2).1 (reached_refreshed 3).1).1⟩

/-- The operations of the refresh that publishes part 3. -/
def mergingOps : List (PartOp Nat) :=
  (refreshOps plainSchema (refreshed 2) (twoMonths.publication 3)).elim [] Prod.fst

/-- They write part 3 and the merged part before they remove parts 1 and 2. Cut off in between, the
directory shows these twice. -/
theorem merge_cut_repeats :
    ∃ view, Reached plainSchema twoMonths view ∧ view.partSeq ≤ 10000 ∧
      readDir plainSchema view.files.dir = some [0, 1, 1, 2, 2, 3] ∧
      publishedRows plainSchema twoMonths 4 = [0, 1, 2, 3] := by
  have next : (refreshOps plainSchema (refreshed 2) (twoMonths.publication 3)).isSome := by
    decide +kernel
  have ⟨⟨ops, months⟩, refresh⟩ := Option.isSome_iff_exists.mp next
  have same : mergingOps = ops := by
    rw [mergingOps, refresh]
    rfl
  have cut : (partDevice Nat).run (refreshed 2).files (mergingOps.take 2) ∈
      (partDevice Nat).crashes (refreshed 2).files ops := by
    rw [same]
    exact (partDevice Nat).run_take_mem_crashes _ _ 2
  have ⟨live, reached⟩ := reached_refreshed 2
  have third : (refreshed 2).partSeq = 3 := by decide +kernel
  refine ⟨_, reached.publishCut live (third.symm ▸ refresh) cut, ?_, ?_, ?_⟩
  · exact third.trans_le (by decide)
  · decide +kernel
  · decide +kernel

end Timeview

end AutoTrade
