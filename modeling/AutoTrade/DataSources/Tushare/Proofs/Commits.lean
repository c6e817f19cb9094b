import AutoTrade.DataSources.Tushare.Commits

/-!
# A commit is made whole or not at all

What the recovery finds in a partition is the content before the writer it cut off, or what that
writer commits: the pair is staged before the first rename, which alone decides.
-/

namespace AutoTrade

variable {Cell : Type} {d t : Disk Cell} {c : Content Cell} {p : Parquet Cell} {m : Sidecar}
  {ops : List (DiskOp Cell)} {version : Version} {token w : WriteId}

/-- What is kept was paired, and a write id names one parquet. -/
structure Disk.Shelved (d : Disk Cell) : Prop where
  paired : ∀ version p m, d.versions.get? version = some p →
    d.versionSidecars.get? version = some m → Paired (some p, some m)
  one : ∀ w p p', d.Kept p → d.Kept p' → p.writeId = some w → p'.writeId = some w → p = p'

/-- A partition the recovery can complete. -/
structure Disk.Sound (d : Disk Cell) : Prop where
  paired : Paired d.committed
  shelved : d.Shelved

/-- A partition without an interrupted commit. -/
structure Disk.Settled (d : Disk Cell) (c : Content Cell) : Prop where
  visible : d.visible = c
  paired : Paired c
  shelved : d.Shelved

theorem complete_of_paired (paired : Paired d.visible) : completeInterruptedCommit d = [] := by
  have same : d.parquet.bind Parquet.writeId = d.readable.bind Sidecar.writeId := paired
  unfold completeInterruptedCommit
  split
  · rfl
  · rename_i footer named
    exact if_pos (same.symm.trans named)

theorem committed_of_paired (paired : Paired d.visible) : d.committed = d.visible := by
  rw [Disk.committed, Disk.completed, complete_of_paired paired]
  rfl

theorem Disk.Settled.pair (settled : d.Settled c) : Paired d.visible :=
  settled.visible.symm ▸ settled.paired

theorem Disk.Settled.committed (settled : d.Settled c) : d.committed = c :=
  (committed_of_paired settled.pair).trans settled.visible

theorem Disk.Settled.sound (settled : d.Settled c) : d.Sound :=
  ⟨settled.committed.symm ▸ settled.paired, settled.shelved⟩

theorem complete_cases (d : Disk Cell) :
    completeInterruptedCommit d = [] ∨
      ∃ footer, completeInterruptedCommit d = [.replaceSidecar footer] := by
  unfold completeInterruptedCommit
  split
  · exact .inl rfl
  · split_ifs
    · exact .inl rfl
    · exact .inr ⟨_, rfl⟩

theorem isSome_of_erase {α : Type} {dict : Dict WriteId α}
    (left : ((dict.erase token).get? w).isSome = true) :
    (dict.get? w).isSome = true ∧ w ≠ token := by
  rw [Dict.get?_erase] at left
  split_ifs at left with same
  · cases left
  · exact ⟨left, Ne.symm same⟩

theorem apply_replaceSidecar_of {m : Written Sidecar}
    (found : d.stagedSidecars.get? w = some m) : d.apply (.replaceSidecar w) =
      { d with sidecar := some m, stagedSidecars := d.stagedSidecars.erase w } := by
  unfold Disk.apply
  dsimp only
  rw [found]

theorem apply_replaceSidecar (d : Disk Cell) (w : WriteId) :
    ∃ sidecar staged, d.apply (.replaceSidecar w) =
        { d with sidecar, stagedSidecars := staged } ∧
      ∀ token, (staged.get? token).isSome = true → (d.stagedSidecars.get? token).isSome = true := by
  unfold Disk.apply
  dsimp only
  split
  · exact ⟨_, _, rfl, fun token left => (isSome_of_erase left).1⟩
  · exact ⟨d.sidecar, d.stagedSidecars, rfl, fun _ => id⟩

theorem completed_eq (d : Disk Cell) :
    ∃ sidecar staged, d.completed = { d with sidecar, stagedSidecars := staged } ∧
      ∀ token, (staged.get? token).isSome = true → (d.stagedSidecars.get? token).isSome = true := by
  unfold Disk.completed
  rcases complete_cases d with idle | ⟨footer, rename⟩
  · rw [idle]
    exact ⟨d.sidecar, d.stagedSidecars, rfl, fun _ => id⟩
  · rw [rename]
    exact apply_replaceSidecar d footer

theorem Disk.Sound.completed (sound : d.Sound) : d.completed.Settled d.committed := by
  refine ⟨rfl, sound.paired, ?_⟩
  obtain ⟨sidecar, staged, same, -⟩ := completed_eq d
  rw [same]
  exact ⟨sound.shelved.paired, sound.shelved.one⟩

theorem complete_crashes {rest : List (DiskOp Cell)}
    (cut : t ∈ (partitionDevice Cell).crashes d (completeInterruptedCommit d ++ rest)) :
    t = d ∨ t ∈ (partitionDevice Cell).crashes d.completed rest := by
  rcases (partitionDevice Cell).mem_crashes_append.mp cut with before | after
  · rcases complete_cases d with idle | ⟨footer, rename⟩
    · rw [idle] at before
      exact .inl (List.mem_singleton.mp before)
    · rw [rename] at before
      rcases (Device.mem_crashes_cons _).mp before with rfl | torn | done
      · exact .inl rfl
      · cases torn
      · right
        rw [List.mem_singleton.mp done, Disk.completed, rename]
        exact Device.start_mem_crashes _ _ rest
  · exact .inr after

theorem committed_congr {d' : Disk Cell} (parquet : d'.parquet = d.parquet)
    (sidecar : d'.sidecar = d.sidecar) (staged : d'.stagedSidecars = d.stagedSidecars) :
    d'.committed = d.committed := by
  have steps : completeInterruptedCommit d' = completeInterruptedCommit d := by
    unfold completeInterruptedCommit Disk.readable
    rw [parquet, sidecar]
  rw [Disk.committed, Disk.committed, Disk.completed, Disk.completed, steps]
  rcases complete_cases d with idle | ⟨footer, rename⟩
  · rw [idle]
    exact Prod.ext parquet sidecar
  · rw [rename]
    show (d'.apply (.replaceSidecar footer)).visible = (d.apply (.replaceSidecar footer)).visible
    unfold Disk.apply
    dsimp only
    rw [staged]
    split
    · exact Prod.ext parquet rfl
    · exact Prod.ext parquet sidecar

/-- A system call that leaves what is visible and what is kept. -/
def DiskOp.Quiet : DiskOp Cell → Prop
  | .replaceParquet _ | .replaceSidecar _ => False
  | .keepParquet _ | .keepSidecar _ | .putVersion _ _ | .putVersionSidecar _ _ => False
  | _ => True

def Disk.shelf (d : Disk Cell) :
    Content Cell × Dict Version (Parquet Cell) × Dict Version (Written Sidecar) :=
  (d.visible, d.versions, d.versionSidecars)

theorem shelf_apply {op : DiskOp Cell} (quiet : op.Quiet) (d : Disk Cell) :
    (d.apply op).shelf = d.shelf := by
  cases op with
  | replaceParquet | replaceSidecar | keepParquet | keepSidecar | putVersion
    | putVersionSidecar => exact quiet.elim
  | stageParquet | stageSidecar | stageTable => rfl
  | stageVersion token version =>
    unfold Disk.apply
    dsimp only
    split <;> rfl
  | replaceTable token =>
    unfold Disk.apply
    dsimp only
    split <;> rfl
  | unlink leftover => cases leftover <;> rfl

theorem shelf_crashes (quiet : ∀ op ∈ ops, op.Quiet) :
    ∀ t ∈ (partitionDevice Cell).crashes d ops, t.shelf = d.shelf := by
  refine (partitionDevice Cell).crashes_unchanged Disk.shelf
    (fun op member s => shelf_apply (quiet op member) s) ?_ d
  intro op member s t torn
  cases op with
  | stageParquet | stageSidecar | stageTable => rw [List.mem_singleton.mp torn]; rfl
  | _ => cases torn

theorem Disk.Settled.of_shelf (settled : d.Settled c) (same : t.shelf = d.shelf) :
    t.Settled c := by
  obtain ⟨visible, rest⟩ := Prod.mk.inj same
  obtain ⟨versions, sidecars⟩ := Prod.mk.inj rest
  have parquet : t.parquet = d.parquet := congrArg Prod.fst visible
  have kept : t.Kept = d.Kept := by
    funext p
    rw [Disk.Kept, Disk.Kept, parquet, versions]
  refine ⟨visible.trans settled.visible, settled.paired, ?_, ?_⟩
  · rw [versions, sidecars]
    exact settled.shelved.paired
  · rw [kept]
    exact settled.shelved.one

/-- What a later state still keeps, and keeps of nothing else. -/
structure Disk.Keeps (d t : Disk Cell) : Prop where
  version : ∀ v p, d.versions.get? v = some p → t.versions.get? v = some p
  kept : ∀ p, t.Kept p → d.Kept p

theorem keeps_of_shelf (same : t.shelf = d.shelf) : d.Keeps t := by
  obtain ⟨visible, rest⟩ := Prod.mk.inj same
  obtain ⟨versions, -⟩ := Prod.mk.inj rest
  have parquet : t.parquet = d.parquet := congrArg Prod.fst visible
  refine ⟨fun v p => versions ▸ id, fun p => ?_⟩
  rw [Disk.Kept, Disk.Kept, parquet, versions]
  exact id

theorem Disk.Shelved.one_of_comes (shelved : d.Shelved)
    (one : ∀ w p', d.Kept p' → p.writeId = some w → p'.writeId = some w → p' = p)
    (comes : ∀ p', t.Kept p' → p' = p ∨ d.Kept p') :
    ∀ w p' p'', t.Kept p' → t.Kept p'' → p'.writeId = some w → p''.writeId = some w →
      p' = p'' := by
  intro w p' p'' here there named named'
  rcases comes p' here with rfl | old <;> rcases comes p'' there with rfl | old'
  · rfl
  · exact (one w p'' old' named named').symm
  · exact one w p' old named' named
  · exact shelved.one w p' p'' old old' named named'

theorem Disk.Settled.setVersion (settled : d.Settled c) (fresh : d.NewVersion version)
    (one : ∀ w p', d.Kept p' → p.writeId = some w → p'.writeId = some w → p' = p) :
    ({ d with versions := d.versions.set version p } : Disk Cell).Settled c := by
  refine ⟨settled.visible, settled.paired, fun v p' m found sidecar => ?_,
    settled.shelved.one_of_comes one ?_⟩
  · dsimp only at found sidecar
    rw [Dict.get?_set] at found
    split_ifs at found with same
    · rw [← same, fresh.2] at sidecar
      cases sidecar
    · exact settled.shelved.paired v p' m found sidecar
  · rintro p' (visible | ⟨v, found⟩)
    · exact .inr (.inl visible)
    · rw [Dict.get?_set] at found
      split_ifs at found
      · exact .inl (Option.some.inj found).symm
      · exact .inr (.inr ⟨v, found⟩)

theorem Disk.Settled.setVersionSidecar {m : Written Sidecar} (settled : d.Settled c)
    (paired : ∀ p, d.versions.get? version = some p → Paired (some p, some m)) :
    ({ d with versionSidecars := d.versionSidecars.set version m } : Disk Cell).Settled c := by
  refine ⟨settled.visible, settled.paired, fun v p' m' found sidecar => ?_, settled.shelved.one⟩
  dsimp only at found sidecar
  rw [Dict.get?_set] at sidecar
  split_ifs at sidecar with same
  · exact Option.some.inj sidecar ▸ paired p' (same ▸ found)
  · exact settled.shelved.paired v p' m' found sidecar

/-- Wherever the operations are cut off, the partition is sound and commits one of two contents,
and it commits the second at the end. -/
def Disk.Commits (d : Disk Cell) (c c' : Content Cell) (ops : List (DiskOp Cell)) : Prop :=
  (∀ t ∈ (partitionDevice Cell).crashes d ops,
    t.Sound ∧ (t.committed = c ∨ t.committed = c')) ∧ (d.run ops).committed = c'

/-- Operations that leave the partition as it is. -/
def Disk.Idles (d : Disk Cell) (c : Content Cell) (ops : List (DiskOp Cell)) : Prop :=
  ∀ t ∈ (partitionDevice Cell).crashes d ops, t.Settled c ∧ d.Keeps t

theorem Disk.Idles.run (idles : d.Idles c ops) : (d.run ops).Settled c ∧ d.Keeps (d.run ops) :=
  idles _ (Device.run_mem_crashes _ d ops)

theorem Disk.Idles.commits (idles : d.Idles c ops) : d.Commits c c ops :=
  ⟨fun t cut => ⟨(idles t cut).1.sound, .inl (idles t cut).1.committed⟩, idles.run.1.committed⟩

theorem Disk.Idles.append {c' : Content Cell} {rest : List (DiskOp Cell)} (idles : d.Idles c ops)
    (after : (d.run ops).Commits c c' rest) : d.Commits c c' (ops ++ rest) := by
  refine ⟨fun t cut => ?_, ?_⟩
  · rcases (Device.mem_crashes_append _).mp cut with before | later
    · exact ⟨(idles t before).1.sound, .inl (idles t before).1.committed⟩
    · exact after.1 t later
  · exact (congrArg Disk.committed (Device.run_append _ d ops rest)).trans after.2

theorem idles_of_quiet (settled : d.Settled c) (quiet : ∀ op ∈ ops, op.Quiet) : d.Idles c ops :=
  fun t cut => ⟨settled.of_shelf (shelf_crashes quiet t cut),
    keeps_of_shelf (shelf_crashes quiet t cut)⟩

theorem idles_keepVersion (settled : d.Settled c) (fresh : d.NewVersion version) :
    d.Idles c (keepVersion version) := by
  obtain ⟨d', parquet, after, keeps, named⟩ : ∃ d' : Disk Cell,
      d' = d.apply (.keepParquet version) ∧ d'.Settled c ∧ d.Keeps d' ∧
        ∀ p, d'.versions.get? version = some p → d'.parquet = some p := by
    refine ⟨_, rfl, ?_⟩
    unfold Disk.apply
    dsimp only
    split
    · rename_i p visible
      refine ⟨settled.setVersion fresh fun w p' kept named named' =>
          settled.shelved.one w p' p kept (.inl visible) named' named,
        ⟨fun v p' kept => ?_, fun p' kept => ?_⟩, fun p' kept => ?_⟩
      · refine (Dict.get?_set_of_ne _ _ fun same => ?_).trans kept
        rw [← same, fresh.1] at kept
        cases kept
      · rcases kept with visible' | ⟨v, kept⟩
        · exact .inl visible'
        · rw [Dict.get?_set] at kept
          split_ifs at kept
          · exact .inl (visible.trans kept)
          · exact .inr ⟨v, kept⟩
      · rw [Dict.get?_set_self] at kept
        exact visible.trans kept
    · refine ⟨settled, ⟨fun _ _ => id, fun _ => id⟩, fun p kept => ?_⟩
      rw [fresh.1] at kept
      cases kept
  intro t cut
  have cuts : t = d ∨ t = d' ∨ t = d'.apply (.keepSidecar version) :=
    parquet ▸ Device.crashes_pair _ rfl rfl cut
  rcases cuts with rfl | rfl | rfl
  · exact ⟨settled, fun _ _ => id, fun _ => id⟩
  · exact ⟨after, keeps⟩
  unfold Disk.apply
  dsimp only
  split
  · rename_i m visible
    refine ⟨after.setVersionSidecar fun p kept => ?_, keeps.version, keeps.kept⟩
    rw [← named p kept, ← visible]
    exact after.pair
  · exact ⟨after, keeps⟩

theorem idles_kept {superseded : Option Version} (settled : d.Settled c)
    (fresh : ∀ version ∈ superseded, d.NewVersion version) :
    d.Idles c (superseded.elim [] keepVersion) := by
  cases superseded with
  | none => exact idles_of_quiet settled fun op member => by cases member
  | some version => exact idles_keepVersion settled (fresh version rfl)

theorem idles_writeTable (settled : d.Settled c) (table : Option TableWrite) :
    d.Idles c (table.elim [] writeTable) := by
  refine idles_of_quiet settled fun op member => ?_
  cases table with
  | none => cases member
  | some table =>
    rcases List.mem_pair.mp member with rfl | rfl
    · trivial
    · trivial

theorem replacePair_commits (settled : d.Settled c) (named : p.writeId = some w)
    (names : m.writeId = some w) (one : ∀ p', d.Kept p' → p'.writeId = some w → p' = p)
    (parquet : d.stagedParquets.get? token = some (.whole p))
    (sidecar : d.stagedSidecars.get? w = some (.whole m)) :
    d.Commits c (some p, some (.whole m)) (replacePair token w) := by
  obtain ⟨staged, first⟩ : ∃ staged, d.apply (.replaceParquet token) =
      { d with parquet := some p, stagedParquets := staged } := by
    refine ⟨d.stagedParquets.erase token, ?_⟩
    unfold Disk.apply
    dsimp only
    rw [parquet]
  generalize middle : ({ d with parquet := some p, stagedParquets := staged } : Disk Cell) = d'
    at first
  have shelved : d'.Shelved := by
    subst middle
    refine ⟨settled.shelved.paired, settled.shelved.one_of_comes (p := p) ?_ ?_⟩
    · intro w' p' kept here there
      obtain rfl := Option.some.inj (named.symm.trans here)
      exact one p' kept there
    · rintro p' (visible | kept)
      · exact .inl (Option.some.inj visible).symm
      · exact .inr (.inr kept)
  have pair : Paired ((some p, some (.whole m)) : Content Cell) := named.trans names.symm
  have done : (d'.apply (.replaceSidecar w)).Settled (some p, some (.whole m)) := by
    have found : d'.stagedSidecars.get? w = some (.whole m) := middle ▸ sidecar
    rw [apply_replaceSidecar_of found]
    subst middle
    exact ⟨rfl, pair, shelved.paired, shelved.one⟩
  have run : d.run (replacePair token w) = d'.apply (.replaceSidecar w) := by
    rw [← first]
    rfl
  refine ⟨fun t cut => ?_, run ▸ done.committed⟩
  have cuts : t = d ∨ t = d' ∨ t = d'.apply (.replaceSidecar w) :=
    first ▸ Device.crashes_pair _ rfl rfl cut
  rcases cuts with rfl | rfl | rfl
  · exact ⟨settled.sound, .inl settled.committed⟩
  · by_cases old : d.parquet.bind Parquet.writeId = some w
    · -- The write is visible already, and its parquet is the one that replaced it.
      obtain ⟨p', visible, here⟩ := Option.bind_eq_some_iff.mp old
      obtain rfl := one p' (.inl visible) here
      have same : t.Settled c := by
        refine ⟨?_, settled.paired, shelved⟩
        rw [← settled.visible, ← middle, Disk.visible, Disk.visible, visible]
      exact ⟨same.sound, .inl same.committed⟩
    · have steps : completeInterruptedCommit t = [.replaceSidecar w] := by
        have other : d.readable.bind Sidecar.writeId ≠ some w := by
          have same : d.parquet.bind Parquet.writeId = d.readable.bind Sidecar.writeId :=
            settled.pair
          rwa [← same]
        rw [← middle]
        unfold completeInterruptedCommit
        rw [show (some p).bind Parquet.writeId = some w from named]
        exact if_neg other
      have landed : t.committed = (some p, some (.whole m)) := by
        rw [Disk.committed, Disk.completed, steps]
        exact done.visible
      exact ⟨⟨landed ▸ pair, shelved⟩, .inr landed⟩
  · exact ⟨done.sound, .inr done.committed⟩

theorem writePair_commits (stage : DiskOp Cell) (settled : d.Settled c) (quiet : stage.Quiet)
    (named : p.writeId = some w) (names : m.writeId = some w)
    (one : ∀ p', d.Kept p' → p'.writeId = some w → p' = p)
    (staged : (d.apply stage).stagedParquets.get? token = some (.whole p)) :
    d.Commits c (some p, some (.whole m))
      ([stage, .stageSidecar w m] ++ replacePair token w) := by
  have idles : d.Idles c [stage, .stageSidecar w m] := by
    refine idles_of_quiet settled fun op member => ?_
    rcases List.mem_pair.mp member with rfl | rfl
    · exact quiet
    · trivial
  obtain ⟨after, keeps⟩ := idles.run
  exact idles.append (replacePair_commits after named names
    (fun p' kept => one p' (keeps.kept p' kept)) staged (Dict.get?_set_self _ w _))

theorem publish_commits {commit : Commit Cell} {superseded : Option Version}
    {table : Option TableWrite} (settled : d.Settled c)
    (fresh : (PartitionEvent.publish superseded table commit).Fresh d) :
    d.Commits c (some commit.parquet, some (.whole commit.sidecar))
      (superseded.elim [] keepVersion ++ (table.elim [] writeTable ++ writeParquet commit)) := by
  have keeps := idles_kept settled fresh.1
  obtain ⟨kept, old⟩ := keeps.run
  have tables := idles_writeTable kept table
  refine keeps.append (tables.append (writePair_commits _ tables.run.1 trivial rfl rfl ?_ ?_))
  · exact fun p' here named => absurd named (fresh.2 p' (old.kept p' (tables.run.2.kept p' here)))
  · exact Dict.get?_set_self _ _ _

theorem restore_commits {superseded : Option Version} {table : Option TableWrite} {kept : Sidecar}
    (settled : d.Settled c) (fresh : ∀ version ∈ superseded, d.NewVersion version)
    (found : d.versions.get? version = some p)
    (beside : d.versionSidecars.get? version = some (.whole kept))
    (named : kept.writeId = some w) (names : m.writeId = some w) :
    d.Commits c (some p, some (.whole m))
      (superseded.elim [] keepVersion ++ (table.elim [] writeTable ++
        (.stageVersion token version :: .stageSidecar w m :: replacePair token w))) := by
  have pair : p.writeId = kept.writeId := settled.shelved.paired version p _ found beside
  have keeps := idles_kept settled fresh
  obtain ⟨after, old⟩ := keeps.run
  have tables := idles_writeTable after table
  have still := tables.run.2.version version p (old.version version p found)
  refine keeps.append (tables.append (writePair_commits (.stageVersion token version)
    tables.run.1 trivial (pair.trans named) names (fun p' here names' => ?_) ?_))
  · exact settled.shelved.one w p' p (old.kept p' (tables.run.2.kept p' here))
      (.inr ⟨version, found⟩) names' (pair.trans named)
  · unfold Disk.apply
    dsimp only
    rw [still]
    exact Dict.get?_set_self _ token _

theorem commits_nil (sound : d.Sound) : d.Commits d.committed d.committed [] := by
  refine ⟨fun t cut => ?_, rfl⟩
  rw [List.mem_singleton.mp cut]
  exact ⟨sound, .inl rfl⟩

theorem stage_commits {commit : Commit Cell} (settled : d.Settled c)
    (fresh : (PartitionEvent.stage version commit).Fresh d) :
    d.Commits c c
      [.putVersion version commit.parquet, .putVersionSidecar version commit.sidecar] := by
  have kept := settled.setVersion (p := commit.parquet) fresh.1 fun w p' here new same =>
    absurd (same.trans new.symm) (fresh.2 p' here)
  have beside : (((d.apply (.putVersion version commit.parquet)).apply
      (.putVersionSidecar version commit.sidecar))).Settled c := by
    refine kept.setVersionSidecar fun p' found => ?_
    obtain rfl := Option.some.inj ((Dict.get?_set_self _ version _).symm.trans found)
    rfl
  refine ⟨fun t cut => ?_, beside.committed⟩
  rcases Device.crashes_pair _ rfl rfl cut with rfl | rfl | rfl
  · exact ⟨settled.sound, .inl settled.committed⟩
  · exact ⟨kept.sound, .inl kept.committed⟩
  · exact ⟨beside.sound, .inl beside.committed⟩

theorem refresh_commits {m' : Sidecar} (settled : d.Settled c) (visible : d.readable = some m)
    (same : m'.writeId = m.writeId) :
    d.Commits c (c.1, some (.whole m')) [.stageSidecar token m', .replaceSidecar token] := by
  have idles : d.Idles c [.stageSidecar token m'] :=
    idles_of_quiet settled fun op member => List.mem_singleton.mp member ▸ trivial
  show d.Commits c _ ([.stageSidecar token m'] ++ [.replaceSidecar token])
  refine idles.append ?_
  have found : (d.apply (.stageSidecar token m')).stagedSidecars.get? token =
      some (.whole m') := Dict.get?_set_self _ token _
  have done : ((d.apply (.stageSidecar token m')).apply (.replaceSidecar token)).Settled
      (c.1, some (.whole m')) := by
    have pair : d.visible.1.bind Parquet.writeId = d.readable.bind Sidecar.writeId := settled.pair
    rw [visible, settled.visible] at pair
    rw [apply_replaceSidecar_of found]
    exact ⟨Prod.ext (congrArg Prod.fst settled.visible :) rfl, pair.trans same.symm,
      settled.shelved.paired, settled.shelved.one⟩
  refine ⟨fun t cut => ?_, done.committed⟩
  rcases (Device.mem_crashes_cons _).mp cut with rfl | torn | last
  · exact ⟨idles.run.1.sound, .inl idles.run.1.committed⟩
  · cases torn
  · rw [List.mem_singleton.mp last]
    exact ⟨done.sound, .inr done.committed⟩

theorem sweepOne_crashes (sound : d.Sound) (leftover : Leftover) :
    ∀ t ∈ (partitionDevice Cell).crashes d (sweepOne d leftover),
      t.Sound ∧ t.committed = d.committed := by
  have unlinked : (d.apply (.unlink leftover)).stagedSidecars = d.stagedSidecars →
      ∀ t ∈ (partitionDevice Cell).crashes d (if d.holds leftover then [.unlink leftover] else []),
        t.Sound ∧ t.committed = d.committed := by
    intro kept t cut
    have here : t = d ∨ t = d.apply (.unlink leftover) := by
      split_ifs at cut
      · rcases (Device.mem_crashes_cons _).mp cut with rfl | torn | done
        · exact .inl rfl
        · cases torn
        · exact .inr (List.mem_singleton.mp done)
      · exact .inl (List.mem_singleton.mp cut)
    rcases here with rfl | rfl
    · exact ⟨sound, rfl⟩
    · have same : (d.apply (.unlink leftover)).committed = d.committed := by
        cases leftover <;> exact committed_congr rfl rfl kept
      exact ⟨⟨same ▸ sound.paired, by cases leftover <;>
        exact ⟨sound.shelved.paired, sound.shelved.one⟩⟩, same⟩
  cases leftover with
  | parquet token => exact unlinked rfl
  | table token => exact unlinked rfl
  | sidecar token =>
    intro t cut
    rcases complete_crashes cut with rfl | after
    · exact ⟨sound, rfl⟩
    · have idles : d.completed.Idles d.committed (if d.completed.holds (.sidecar token) then
          [.unlink (.sidecar token)] else []) := by
        refine idles_of_quiet sound.completed fun op member => ?_
        split_ifs at member
        · rw [List.mem_singleton.mp member]
          trivial
        · cases member
      exact ⟨(idles t after).1.sound, (idles t after).1.committed⟩

theorem sweep_crashes (sound : d.Sound) (leftovers : List Leftover) :
    ∀ t ∈ (partitionDevice Cell).crashes d (completeInterruptedCommits d leftovers),
      t.Sound ∧ t.committed = d.committed := by
  induction leftovers generalizing d with
  | nil =>
    intro t cut
    rw [List.mem_singleton.mp cut]
    exact ⟨sound, rfl⟩
  | cons leftover leftovers ih =>
    intro t cut
    rcases (Device.mem_crashes_append _).mp cut with before | later
    · exact sweepOne_crashes sound leftover t before
    · obtain ⟨swept, same⟩ := sweepOne_crashes sound leftover _ (Device.run_mem_crashes _ d _)
      obtain ⟨after, same'⟩ := ih swept t later
      exact ⟨after, same'.trans same⟩

theorem holds_iff {leftover : Leftover} : d.holds leftover = true ↔ match leftover with
    | .parquet token => (d.stagedParquets.get? token).isSome = true
    | .sidecar token => (d.stagedSidecars.get? token).isSome = true
    | .table token => (d.stagedTables.get? token).isSome = true := by
  cases leftover <;>
    exact decide_eq_true_iff.trans (Dict.mem_keys_iff.trans Option.isSome_iff_exists.symm)

theorem unlink_holds {leftover other : Leftover}
    (held : (d.apply (.unlink leftover)).holds other = true) :
    d.holds other = true ∧ other ≠ leftover := by
  rw [holds_iff] at held ⊢
  cases leftover <;> cases other
  case parquet.parquet | sidecar.sidecar | table.table =>
    obtain ⟨there, differ⟩ := isSome_of_erase held
    exact ⟨there, fun same => differ (by injection same)⟩
  all_goals exact ⟨held, by simp⟩

theorem completed_holds {leftover : Leftover} (held : d.completed.holds leftover = true) :
    d.holds leftover = true := by
  obtain ⟨sidecar, staged, same, fewer⟩ := completed_eq d
  rw [same, holds_iff] at held
  rw [holds_iff]
  cases leftover with
  | sidecar token => exact fewer token held
  | parquet | table => exact held

theorem sweepOne_holds {leftover other : Leftover}
    (held : (d.run (sweepOne d leftover)).holds other = true) :
    d.holds other = true ∧ other ≠ leftover := by
  have unlinked : ∀ s : Disk Cell,
      (s.run (if s.holds leftover then [.unlink leftover] else [])).holds other = true →
      s.holds other = true ∧ other ≠ leftover := by
    intro s held
    split_ifs at held with here
    · exact unlink_holds held
    · refine ⟨held, ?_⟩
      rintro rfl
      contradiction
  cases leftover with
  | parquet | table => exact unlinked d held
  | sidecar token =>
    have after : d.run (sweepOne d (.sidecar token)) = d.completed.run _ :=
      Device.run_append _ d _ _
    rw [after] at held
    obtain ⟨still, other⟩ := unlinked d.completed held
    exact ⟨completed_holds still, other⟩

theorem sweep_holds {leftovers : List Leftover} {other : Leftover}
    (held : (d.run (completeInterruptedCommits d leftovers)).holds other = true) :
    d.holds other = true ∧ other ∉ leftovers := by
  induction leftovers generalizing d with
  | nil => exact ⟨held, List.not_mem_nil⟩
  | cons leftover leftovers ih =>
    have after : d.run (completeInterruptedCommits d (leftover :: leftovers)) =
      (d.run (sweepOne d leftover)).run _ := Device.run_append _ d _ _
    rw [after] at held
    obtain ⟨still, unlisted⟩ := ih held
    obtain ⟨before, other⟩ := sweepOne_holds still
    exact ⟨before, fun listed => (List.mem_cons.mp listed).elim other unlisted⟩

theorem committed_of_unstaged (unstaged : ∀ token, d.holds (.sidecar token) = false) :
    d.committed = d.visible := by
  rw [Disk.committed, Disk.completed]
  rcases complete_cases d with idle | ⟨footer, rename⟩
  · rw [idle]
    rfl
  · rw [rename]
    have absent : d.stagedSidecars.get? footer = none := by
      refine Option.not_isSome_iff_eq_none.mp fun held => ?_
      have held : d.holds (.sidecar footer) = true := holds_iff.mpr held
      rw [unstaged] at held
      cases held
    show (d.apply (.replaceSidecar footer)).visible = d.visible
    rw [Disk.apply, absent]

theorem event_commits (sound : d.Sound) (event : PartitionEvent Cell) (fresh : event.Fresh d) :
    d.Commits d.committed (event.lands d) (event.ops d) := by
  have settled := sound.completed
  have completing : ∀ {c' : Content Cell} {rest : List (DiskOp Cell)},
      d.completed.Commits d.committed c' rest →
        d.Commits d.committed c' (completeInterruptedCommit d ++ rest) := by
    intro c' rest after
    refine ⟨fun t cut => ?_, (congrArg Disk.committed (Device.run_append _ d _ rest)).trans after.2⟩
    rcases complete_crashes cut with rfl | later
    · exact ⟨sound, .inl rfl⟩
    · exact after.1 t later
  have fresh' : event.Fresh d.completed := by
    obtain ⟨sidecar, staged, same, -⟩ := completed_eq d
    rw [same]
    cases event <;> exact fresh
  have idle : d.completed.Commits d.committed d.committed [] :=
    settled.committed ▸ commits_nil settled.sound
  cases event with
  | publish superseded table commit => exact completing (publish_commits settled fresh')
  | stage version commit => exact completing (stage_commits settled fresh')
  | sweep leftovers =>
    have swept := sweep_crashes sound leftovers
    exact ⟨fun t cut => ⟨(swept t cut).1, .inl (swept t cut).2⟩,
      (swept _ (Device.run_mem_crashes _ d _)).2⟩
  | refresh token params fields =>
    refine completing ?_
    show d.completed.Commits _ ((d.completed.refreshed params fields).elim _ _)
      ((d.completed.refreshed params fields).elim _ _)
    cases refreshed : d.completed.refreshed params fields with
    | none => exact idle
    | some m' =>
      unfold Disk.refreshed at refreshed
      split_ifs at refreshed
      obtain ⟨m, readable, wider⟩ := Option.bind_eq_some_iff.mp refreshed
      split_ifs at wider
      obtain rfl := Option.some.inj wider
      exact refresh_commits settled readable rfl
  | restore version superseded table token instant =>
    have same : d.completed.versions = d.versions ∧
        d.completed.versionSidecars = d.versionSidecars := by
      obtain ⟨sidecar, staged, same, -⟩ := completed_eq d
      rw [same]
      exact ⟨rfl, rfl⟩
    unfold PartitionEvent.ops PartitionEvent.lands PartitionEvent.write
    dsimp only
    cases found : d.versions.get? version with
    | none => exact commits_nil sound
    | some p =>
      cases beside : d.versionSidecars.get? version with
      | none => exact commits_nil sound
      | some written =>
        rw [if_pos ⟨rfl, rfl⟩, same.2, beside]
        refine completing ?_
        have new : ∀ version ∈ d.completed.parquet.map fun _ => superseded,
            d.completed.NewVersion version := by
          intro version kept
          obtain ⟨-, -, rfl⟩ := Option.map_eq_some_iff.mp kept
          exact fresh'
        cases written with
        | torn => exact idle
        | whole kept =>
          cases named : kept.writeId with
          | some w =>
            dsimp only
            rw [named]
            exact restore_commits settled new (same.1 ▸ found) (same.2 ▸ beside) named named
          | none =>
            dsimp only
            rw [named]
            have keeps := idles_kept settled new
            have tables := idles_writeTable keeps.run.1 table
            refine keeps.append (tables.append (idles_of_quiet tables.run.1 ?_).commits)
            exact fun op member => List.mem_singleton.mp member ▸ trivial

theorem reached_sound (reached : d.Reached) : d.Sound := by
  induction reached with
  | landed paired =>
    refine ⟨(committed_of_paired (d := .landed _) paired).symm ▸ paired, ?_, ?_⟩
    · rintro version p m found -
      cases found
    · rintro w p p' (visible | ⟨version, kept⟩) (visible' | ⟨version, kept⟩) - -
      · exact Option.some.inj (visible.symm.trans visible')
      all_goals cases kept
  | run reached fresh cut sound => exact ((event_commits sound _ fresh).1 _ cut).1

/-- Wherever runs of the writers and of the recovery are cut off, what the recovery then finds
is a parquet and a sidecar of one write: the pair before the run, or the pair it commits. A
recovery commits nothing, and one that has met every staged file leaves that pair alone. -/
theorem cut_commits_recover (reached : d.Reached) :
    Paired d.committed ∧
      (∀ event : PartitionEvent Cell, event.Fresh d →
        (d.run (event.ops d)).committed = event.lands d ∧
          ∀ t ∈ (partitionDevice Cell).crashes d (event.ops d),
            t.committed = d.committed ∨ t.committed = event.lands d) ∧
      ∀ leftovers : List Leftover, (∀ leftover, d.holds leftover = true → leftover ∈ leftovers) →
        (d.run (completeInterruptedCommits d leftovers)).visible = d.committed ∧
          ∀ leftover, (d.run (completeInterruptedCommits d leftovers)).holds leftover = false := by
  have sound := reached_sound reached
  refine ⟨sound.paired, fun event fresh => ?_, fun leftovers listed => ?_⟩
  · obtain ⟨cut, whole⟩ := event_commits sound event fresh
    exact ⟨whole, fun t here => (cut t here).2⟩
  · have gone : ∀ leftover,
        (d.run (completeInterruptedCommits d leftovers)).holds leftover = false := by
      intro leftover
      refine Bool.eq_false_iff.mpr fun held => ?_
      obtain ⟨before, unlisted⟩ := sweep_holds held
      exact unlisted (listed leftover before)
    refine ⟨?_, gone⟩
    rw [← committed_of_unstaged fun token => gone (.sidecar token)]
    exact (sweep_crashes sound leftovers _ (Device.run_mem_crashes _ d _)).2

/-- A commit of a frame without rows. -/
def firstCommit : Commit Unit := ⟨1, ⟨[], []⟩, .none⟩

def firstLanding : PartitionEvent Unit := .publish none none firstCommit

/-- The first landing cut off between its renames leaves a parquet without a sidecar, which the
recovery gives it. -/
theorem first_landing_recovers :
    let d := (Disk.landed (none, none)).run ((firstLanding.ops (.landed (none, none))).take 3)
    d.visible = (some firstCommit.parquet, none) ∧
      (d.run (completeInterruptedCommits d [.sidecar 1])).visible =
        (some firstCommit.parquet, some (.whole firstCommit.sidecar)) := by
  have start : (Disk.landed ((none, none) : Content Unit)).Reached := .landed rfl
  have fresh : firstLanding.Fresh (.landed (none, none)) := by
    refine ⟨?_, ?_⟩
    · rintro version -
      exact ⟨rfl, rfl⟩
    rintro p (visible | ⟨version, kept⟩) -
    · cases visible
    · cases kept
  have reached := start.run fresh (Device.run_take_mem_crashes _ _ _ 3)
  refine ⟨rfl, ((cut_commits_recover reached).2.2 [.sidecar 1] fun leftover held => ?_).1⟩
  rw [holds_iff] at held
  cases leftover with
  | parquet token => cases held
  | table token => cases held
  | sidecar token =>
    by_cases first : 1 = token
    · exact first ▸ List.mem_singleton_self _
    · change ((Dict.empty.set 1 (Written.whole firstCommit.sidecar)).get? token).isSome = true at held
      rw [Dict.get?_set_of_ne _ _ first] at held
      cases held

end AutoTrade
