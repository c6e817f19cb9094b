import AutoTrade.Environment.Executor
import AutoTrade.Environment.Proofs.BarTableRuns

/-!
# The two ends of a strategy worker stay in step

A request the host builds is read by the worker as it was built: the account and
the new bars come back from their records as they were. What the two ends then
keep of each other is `Synced`; a call that is answered keeps it, and any other
call closes the executor.
-/

namespace AutoTrade

namespace StrategyProtocol

open Json JsonLines JsonObject

variable {clock : DateTimes}

/-- Positions under more symbols, in order. -/
def Positions.withEntries (positions : Positions) (entries : List (Text × Nat))
    (nodup : ((positions.quantities.entries ++ entries).map Prod.fst).Nodup)
    (named : ∀ entry ∈ entries, stripText entry.1 = entry.1 ∧ entry.1 ≠ []) : Positions :=
  ⟨⟨positions.quantities.entries ++ entries, nodup⟩, by
    intro symbol member
    rw [Dict.keys, List.map_append] at member
    rcases List.mem_append.mp member with old | new
    · exact positions.named symbol old
    · obtain ⟨entry, inside, rfl⟩ := List.mem_map.mp new
      exact named entry inside⟩

theorem put_of_not_mem {symbol : Text} {quantity : Nat} {entries : List (Text × Nat)}
    (absent : symbol ∉ entries.map Prod.fst) :
    Dict.put symbol quantity entries = entries ++ [(symbol, quantity)] := by
  induction entries with
  | nil => rfl
  | cons entry entries ih =>
    rw [List.map_cons, List.mem_cons] at absent
    push Not at absent
    rw [Dict.put, if_neg (Ne.symm absent.1), ih absent.2, List.cons_append]

theorem readPositions_entries (positions : Positions) (entries : List (Text × Nat))
    (nodup : ((positions.quantities.entries ++ entries).map Prod.fst).Nodup)
    (named : ∀ entry ∈ entries, stripText entry.1 = entry.1 ∧ entry.1 ≠ []) :
    AccountSnapshot.readPositions positions
        (entries.map fun entry => (entry.1, num (.ofNat entry.2))) =
      .ok (positions.withEntries entries nodup named) := by
  induction entries generalizing positions with
  | nil =>
    obtain ⟨⟨kept, distinct⟩, names⟩ := positions
    simp [AccountSnapshot.readPositions, Positions.withEntries]
  | cons entry entries ih =>
    obtain ⟨symbol, quantity⟩ := entry
    obtain ⟨stripped, filled⟩ := named (symbol, quantity) List.mem_cons_self
    have reads : AccountSnapshot.readQuantity (num (.ofNat quantity)) = .ok quantity := by
      simp [AccountSnapshot.readQuantity, JsonNumber.isInt_ofNat, JsonNumber.isNegative_ofNat]
    have visible : stripText symbol ≠ [] := stripped.symm ▸ filled
    have absent : symbol ∉ positions.quantities.entries.map Prod.fst := by
      rw [List.map_append, List.map_cons] at nodup
      intro old
      exact (List.nodup_append.mp nodup).2.2 symbol old symbol List.mem_cons_self rfl
    have more : (positions.set symbol visible quantity).quantities.entries =
        positions.quantities.entries ++ [(symbol, quantity)] := by
      show Dict.put (stripText symbol) quantity positions.quantities.entries = _
      rw [stripped, put_of_not_mem absent]
    have nodup' : (((positions.set symbol visible quantity).quantities.entries ++
        entries).map Prod.fst).Nodup := by
      rw [more, List.append_assoc]
      exact nodup
    have rest := ih (positions.set symbol visible quantity) nodup'
      fun entry member => named entry (List.mem_cons_of_mem _ member)
    rw [List.map_cons, AccountSnapshot.readPositions]
    refine bind_eq_ok.mpr ⟨quantity, reads, ?_⟩
    rw [dif_pos visible, rest]
    congr 1
    simp only [Positions.withEntries, more, List.append_assoc, List.singleton_append]

theorem fromRecord_toRecord (account : AccountSnapshot) :
    AccountSnapshot.fromRecord (some (obj account.toRecord)) = .ok account := by
  obtain ⟨⟨cash, sign⟩, positions⟩ := account
  have only : hasExactly (AccountSnapshot.toRecord ⟨⟨cash, sign⟩, positions⟩)
      ["cash", "positions"] = true := by
    apply hasExactly_ofFields.mpr
    simp
  have named : ∀ entry ∈ positions.quantities.entries,
      stripText entry.1 = entry.1 ∧ entry.1 ≠ [] := fun entry member =>
    positions.named entry.1 (List.mem_map.mpr ⟨entry, member, rfl⟩)
  have reads : AccountSnapshot.readPositions .empty (positions.quantities.entries.map
      fun entry => (entry.1, num (.ofNat entry.2))) = .ok positions :=
    readPositions_entries .empty positions.quantities.entries positions.quantities.nodup named
  have cashField : field (AccountSnapshot.toRecord ⟨⟨cash, sign⟩, positions⟩) "cash" =
      some (num cash) := field_cons_self "cash" _ _
  have positionsField : field (AccountSnapshot.toRecord ⟨⟨cash, sign⟩, positions⟩) "positions" =
      some (obj (positions.quantities.entries.map fun entry =>
        (entry.1, num (.ofNat entry.2)))) := by
    unfold AccountSnapshot.toRecord
    rw [field_ofFields_cons, if_neg (by decide), field_ofFields_cons, if_pos rfl]
  have readsCash : AccountSnapshot.readCash (num cash) = .ok ⟨cash, sign⟩ := by
    simp [AccountSnapshot.readCash, sign]
  show AccountSnapshot.ofRecord _ = _
  unfold AccountSnapshot.ofRecord
  rw [only, cashField, positionsField]
  refine bind_eq_ok.mpr ⟨_, rfl, ?_⟩
  refine bind_eq_ok.mpr ⟨_, readsCash, ?_⟩
  exact bind_eq_ok.mpr ⟨_, reads, rfl⟩

theorem readObjects_fields (rows : List (BarRow clock)) :
    readObjects (rows.map fun row => obj row.fields) = .ok (rows.map BarRow.fields) := by
  induction rows with
  | nil => rfl
  | cons row rows ih =>
    unfold readObjects at ih ⊢
    rw [List.map_cons, List.mapM_cons]
    refine bind_eq_ok.mpr ⟨row.fields, rfl, ?_⟩
    exact bind_eq_ok.mpr ⟨rows.map BarRow.fields, ih, rfl⟩

variable {inferenceAt : Instant} {last last' : Option Instant}

theorem checkDelta_cons {row : BarRow clock} {rows : List (BarRow clock)}
    (checked : checkDelta inferenceAt last (row :: rows) = .ok last') :
    row.availableAt ≤ inferenceAt ∧ (last.any fun before => row.availableAt < before) = false ∧
      checkDelta inferenceAt (some row.availableAt) rows = .ok last' := by
  rw [checkDelta] at checked
  split_ifs at checked with late early
  exact ⟨not_lt.mp late, Bool.eq_false_iff.mpr early, checked⟩

theorem readRows_fields {rows : List (BarRow clock)}
    (checked : checkDelta inferenceAt last rows = .ok last') (after : Option Instant) :
    readRows clock inferenceAt after last (rows.map BarRow.fields) = .ok rows := by
  induction rows generalizing last with
  | nil => rfl
  | cons row rows ih =>
    obtain ⟨visible, later, rest⟩ := checkDelta_cons checked
    rw [List.map_cons, readRows]
    split
    · rename_i unstamped
      exact nomatch unstamped.symm.trans row.stamped
    · rename_i availableAt stamped
      obtain rfl : availableAt = row.availableAt := Option.some.inj (stamped.symm.trans row.stamped)
      rw [if_neg (not_lt.mpr visible), later, Bool.and_false, if_neg Bool.false_ne_true, ih rest]
      rfl

theorem checkDelta_visible {rows : List (BarRow clock)}
    (checked : checkDelta inferenceAt last rows = .ok last') :
    ∀ row ∈ rows, row.availableAt ≤ inferenceAt := by
  induction rows generalizing last with
  | nil => simp
  | cons row rows ih =>
    obtain ⟨visible, -, rest⟩ := checkDelta_cons checked
    intro bar member
    rcases List.mem_cons.mp member with rfl | later
    · exact visible
    · exact ih rest bar later

variable {table rows : List (BarRow clock)}

theorem checkDelta_last {last' : Option Instant}
    (checked : checkDelta inferenceAt (table.getLast?.map BarRow.availableAt) rows = .ok last') :
    last' = (table ++ rows).getLast?.map BarRow.availableAt := by
  induction rows generalizing table with
  | nil =>
    rw [List.append_nil]
    exact (Except.ok.inj checked).symm
  | cons row rows ih =>
    obtain ⟨-, -, rest⟩ := checkDelta_cons checked
    have goes := @ih (table ++ [row]) (by simpa using rest)
    rwa [List.append_assoc, List.singleton_append] at goes

theorem checkDelta_inOrder {last' : Option Instant} (inOrder : BarsInOrder table)
    (checked : checkDelta inferenceAt (table.getLast?.map BarRow.availableAt) rows = .ok last') :
    BarsInOrder (table ++ rows) := by
  induction rows generalizing table with
  | nil => rwa [List.append_nil]
  | cons row rows ih =>
    obtain ⟨-, later, rest⟩ := checkDelta_cons checked
    have next : BarsInOrder (table ++ [row]) := by
      apply List.pairwise_append.mpr
      refine ⟨inOrder, List.pairwise_singleton _ _, ?_⟩
      intro held member new isRow
      obtain rfl := List.mem_singleton.mp isRow
      cases reversed : table.reverse with
      | nil => simp_all
      | cons latest earlier =>
        have ends : table = earlier.reverse ++ [latest] := by
          rw [← List.reverse_reverse table, reversed, List.reverse_cons]
        subst ends
        have notBefore : latest.availableAt ≤ new.availableAt := by simpa using later
        rcases List.mem_append.mp member with inside | isLatest
        · have before := (List.pairwise_append.mp inOrder).2.2 held inside latest (by simp)
          exact before.trans notBefore
        · obtain rfl := List.mem_singleton.mp isLatest
          exact notBefore
    have goes := @ih (table ++ [row]) next (by simpa using rest)
    rwa [List.append_assoc, List.singleton_append] at goes

theorem extended_eq_ok {last' : Option Instant} (inOrder : BarsInOrder table)
    (checked : checkDelta inferenceAt (table.getLast?.map BarRow.availableAt) rows = .ok last') :
    extended table (rows.map fun row => obj row.fields) inferenceAt = .ok (table ++ rows) := by
  unfold extended
  refine guard_eq_ok.mpr ⟨not_not.mpr inOrder, ?_⟩
  refine bind_eq_ok.mpr ⟨_, readObjects_fields rows, ?_⟩
  exact bind_eq_ok.mpr ⟨rows, readRows_fields checked _, rfl⟩

variable {call : StrategyCall clock} {transport : Transport clock}

theorem checkContinues_eq_ok (checked : transport.checkContinues call = .ok ())
    (started : transport.sequence.isSome) :
    (transport.inferenceAt.all fun before => call.inferenceAt ≤ before) = false ∧
      transport.count ≤ call.barCount ∧
      prefixMatches transport.table call.barTable transport.count = true := by
  unfold Transport.checkContinues at checked
  rw [if_pos started] at checked
  obtain ⟨later, checked⟩ := guard_eq_ok.mp checked
  obtain ⟨grown, checked⟩ := guard_eq_ok.mp checked
  refine ⟨Bool.eq_false_iff.mpr later, not_lt.mp grown, ?_⟩
  split at checked
  · cases checked
  · rename_i same
    simpa using same

variable {mounts : Mounts} {request : JsonObject} {kind : CallKind}

theorem prepareExecute_eq_ok {last : Option Instant}
    (prepared : transport.prepareExecute mounts kind call = .ok (request, last)) :
    call.barCount ≤ call.barTable.length ∧ transport.checkContinues call = .ok () ∧
      checkDelta call.inferenceAt transport.baseAvailableAt
        (call.bars.drop transport.baseCount) = .ok last ∧
      ∃ context, contextRecord mounts call = .ok context ∧ request = ofFields
        [("sequence", num (.ofNat transport.nextSequence)),
          ("reset", .bool transport.sequence.isNone),
          ("base_count", num (.ofNat transport.baseCount)),
          ("total_count", num (.ofNat call.barCount)),
          ("context", obj context),
          ("bars", arr ((call.bars.drop transport.baseCount).map fun row => obj row.fields)),
          ("type", str kind.name)] := by
  unfold Transport.prepareExecute at prepared
  obtain ⟨whole, prepared⟩ := guard_eq_ok.mp prepared
  obtain ⟨⟨⟩, continues, prepared⟩ := bind_eq_ok.mp prepared
  obtain ⟨last, delta, prepared⟩ := bind_eq_ok.mp prepared
  obtain ⟨context, record, prepared⟩ := bind_eq_ok.mp prepared
  obtain ⟨rfl, rfl⟩ := Prod.mk.inj (pure_eq_ok.mp prepared)
  exact ⟨not_lt.mp whole, continues, delta, context, record, rfl⟩

variable {name : String}

theorem mountedDir_plain {given target dir : Text} {mounted : Bool}
    (bound : mountedDir name given mounted target = .ok dir) (plain : '\x00' ∉ target) :
    '\x00' ∉ dir := by
  unfold mountedDir at bound
  split_ifs at bound
  · obtain rfl := Except.ok.inj bound
    exact List.not_mem_nil
  · obtain rfl := Except.ok.inj bound
    exact plain

variable {record : JsonObject}

theorem contextText_str {t : Text} (held : record.field name = some (str t)) (plain : '\x00' ∉ t) :
    contextText record name = .ok t := by
  unfold contextText
  rw [held]
  exact if_neg plain

theorem contextRecord_eq_ok (built : contextRecord mounts call = .ok record) :
    ∃ snapshotDir asofDir stateDir modelsDir pretrainedDir : Text,
      ('\x00' ∉ snapshotDir ∧ '\x00' ∉ asofDir ∧ '\x00' ∉ stateDir ∧ '\x00' ∉ modelsDir ∧
        '\x00' ∉ pretrainedDir) ∧
      record = ofFields
        [("inference_at", str (clock.iso call.inferenceAt)),
          ("account", obj call.account.toRecord),
          ("snapshot_dir", str snapshotDir),
          ("asof_dir", str asofDir),
          ("asof_version", str call.asofVersion),
          ("state_dir", str stateDir),
          ("models_dir", str modelsDir),
          ("pretrained_dir", str pretrainedDir)] := by
  unfold contextRecord at built
  obtain ⟨snapshotDir, snapshot, built⟩ := bind_eq_ok.mp built
  obtain ⟨asofDir, asof, built⟩ := bind_eq_ok.mp built
  obtain ⟨modelsDir, models, built⟩ := bind_eq_ok.mp built
  obtain ⟨stateDir, state, built⟩ := bind_eq_ok.mp built
  obtain ⟨pretrainedDir, pretrained, built⟩ := bind_eq_ok.mp built
  refine ⟨snapshotDir, asofDir, stateDir, modelsDir, pretrainedDir, ⟨?_, ?_, ?_, ?_, ?_⟩,
    (pure_eq_ok.mp built).symm⟩
  · exact mountedDir_plain snapshot (by decide +kernel)
  · exact mountedDir_plain asof (by decide +kernel)
  · exact mountedDir_plain state (by decide +kernel)
  · exact mountedDir_plain models (by decide +kernel)
  · exact mountedDir_plain pretrained (by decide +kernel)

theorem hasExactly_contextRecord (built : contextRecord mounts call = .ok record) :
    record.hasExactly contextKeys = true := by
  obtain ⟨_, _, _, _, _, -, rfl⟩ := contextRecord_eq_ok built
  apply hasExactly_ofFields.mpr
  simp [contextKeys]

theorem readInferenceAt_contextRecord (built : contextRecord mounts call = .ok record) :
    BarStream.readInferenceAt clock record = .ok call.inferenceAt := by
  obtain ⟨_, _, _, _, _, -, rfl⟩ := contextRecord_eq_ok built
  unfold BarStream.readInferenceAt textField
  rw [field_ofFields_cons, if_pos rfl, Option.bind_some, text?, Option.bind_some, clock.parse_iso]

theorem readContext_contextRecord (built : contextRecord mounts call = .ok record)
    {bars : List (BarRow clock)} (visible : ∀ bar ∈ bars, bar.availableAt ≤ call.inferenceAt) :
    ∃ context, readContext record call.inferenceAt bars = .ok context ∧
      context.inferenceAt = call.inferenceAt ∧ context.account = call.account ∧
      context.bars = bars := by
  obtain ⟨snapshotDir, asofDir, stateDir, modelsDir, pretrainedDir, plain, rfl⟩ :=
    contextRecord_eq_ok built
  obtain ⟨snapshot, asof, state, models, pretrained⟩ := plain
  refine ⟨⟨call.inferenceAt, bars, call.account, snapshotDir, asofDir, call.asofVersion, stateDir,
    modelsDir, pretrainedDir, visible⟩, ?_, rfl, rfl, rfl⟩
  unfold readContext
  refine bind_eq_ok.mpr ⟨call.account, ?_, ?_⟩
  · rw [field_ofFields_cons, if_neg (by decide), field_ofFields_cons, if_pos rfl,
      fromRecord_toRecord]
  · rw [dif_pos visible]
    refine bind_eq_ok.mpr ⟨_, contextText_str ?_ snapshot, ?_⟩
    · simp only [field_ofFields_cons, String.reduceEq, if_false, if_true]
    refine bind_eq_ok.mpr ⟨_, contextText_str ?_ asof, ?_⟩
    · simp only [field_ofFields_cons, String.reduceEq, if_false, if_true]
    refine bind_eq_ok.mpr ⟨_, contextText_str ?_ call.versioned, ?_⟩
    · simp only [field_ofFields_cons, String.reduceEq, if_false, if_true]
    refine bind_eq_ok.mpr ⟨_, contextText_str ?_ state, ?_⟩
    · simp only [field_ofFields_cons, String.reduceEq, if_false, if_true]
    refine bind_eq_ok.mpr ⟨_, contextText_str ?_ models, ?_⟩
    · simp only [field_ofFields_cons, String.reduceEq, if_false, if_true]
    refine bind_eq_ok.mpr ⟨_, contextText_str ?_ pretrained, rfl⟩
    simp only [field_ofFields_cons, String.reduceEq, if_false, if_true]

/-- What the two ends keep of each other between calls. -/
structure Synced (link : Link clock) : Prop where
  sequence : link.stream.sequence = link.transport.sequence
  inferenceAt : link.stream.inferenceAt = link.transport.inferenceAt
  count : link.stream.table.length = link.transport.count
  bars : link.stream.table.map BarRow.identity =
    (link.transport.table.take link.transport.count).map BarRow.identity
  lastAvailableAt : link.transport.lastAvailableAt =
    link.stream.table.getLast?.map BarRow.availableAt
  inOrder : BarsInOrder link.stream.table
  visible : ∀ row ∈ link.stream.table, ∃ before, link.stream.inferenceAt = some before ∧
    row.availableAt ≤ before

theorem synced_start : Synced ({} : Link clock) where
  sequence := rfl
  inferenceAt := rfl
  count := rfl
  bars := rfl
  lastAvailableAt := rfl
  inOrder := List.Pairwise.nil
  visible := by simp

variable {link : Link clock}

theorem base_of_synced (synced : Synced link)
    (checked : link.transport.checkContinues call = .ok ()) :
    ∃ table previous,
      link.stream.base link.transport.sequence.isNone link.transport.nextSequence
        link.transport.baseCount = .ok (table, previous) ∧
      (previous.any fun before => call.inferenceAt ≤ before) = false ∧
      table.length = link.transport.baseCount ∧
      link.transport.baseCount ≤ call.barCount ∧
      table.map BarRow.identity =
        (call.barTable.take link.transport.baseCount).map BarRow.identity ∧
      link.transport.baseAvailableAt = table.getLast?.map BarRow.availableAt ∧
      BarsInOrder table ∧ ∀ row ∈ table, row.availableAt ≤ call.inferenceAt := by
  obtain ⟨⟨sequence, inferenceAt, count, sent, last⟩, stream⟩ := link
  cases sequence with
  | none => exact ⟨[], none, rfl, rfl, rfl, Nat.zero_le _, rfl, rfl, List.Pairwise.nil, by simp⟩
  | some number =>
    obtain ⟨later, grown, same⟩ := checkContinues_eq_ok checked rfl
    have started : stream.sequence = some number := synced.sequence
    have prefix_same : (sent.take count).map BarRow.identity =
        (call.barTable.take count).map BarRow.identity := by
      unfold prefixMatches at same
      simp only [Bool.and_eq_true] at same
      exact of_decide_eq_true same.2
    have before : stream.inferenceAt = inferenceAt := synced.inferenceAt
    have held : stream.table.length = count := synced.count
    refine ⟨stream.table, stream.inferenceAt, ?_, ?_, held, grown, ?_, synced.lastAvailableAt,
      synced.inOrder, ?_⟩
    · show stream.base false (number + 1) count = _
      unfold BarStream.base
      rw [started]
      simp [held]
    · rw [before]
      cases inferenceAt with
      | none => rfl
      | some instant => exact later
    · exact synced.bars.trans prefix_same
    · intro row member
      obtain ⟨instant, known, shown⟩ := synced.visible row member
      have after : call.inferenceAt ≤ instant → False := by
        intro early
        have known' : inferenceAt = some instant := before.symm.trans known
        rw [known'] at later
        exact absurd early (of_decide_eq_false later)
      exact shown.trans (not_le.mp after).le

theorem readMessage_dumpLine (message : JsonObject) :
    readMessage (dumpLine message) = .ok message := by
  have whole : (dumpLine message).takeWhile (fun c => !isTextBreak c) = dumps (obj message) := by
    unfold dumpLine
    rw [List.takeWhile_append_of_pos fun c written => by rw [isTextBreak_eq_false written]; rfl]
    exact List.append_nil _
  unfold readMessage
  rw [whole, loads_dumps]

theorem integerAt_ofNat {message : JsonObject} {n : Nat}
    (held : message.field name = some (num (.ofNat n))) : integerAt message name = .ok n := by
  unfold integerAt
  rw [held]
  simp [JsonNumber.isInt_ofNat, JsonNumber.isNegative_ofNat]

theorem context_of_prepare (synced : Synced link) {last : Option Instant}
    (prepared : link.transport.prepareExecute mounts kind call = .ok (request, last)) :
    ∃ context stream, link.stream.context request = .ok (context, stream) ∧
      (context.inferenceAt = call.inferenceAt ∧ context.account = call.account ∧
        context.bars.map BarRow.identity = call.bars.map BarRow.identity) ∧
      Synced ⟨link.transport.commit call last, stream⟩ := by
  obtain ⟨whole, continues, delta, record, built, rfl⟩ := prepareExecute_eq_ok prepared
  obtain ⟨table, previous, based, later, held, grown, same, stamped, inOrder, old⟩ :=
    base_of_synced synced continues
  have complete : call.bars.length = call.barCount := by
    unfold StrategyCall.bars
    rw [List.length_take]
    omega
  have kept : (call.barTable.take link.transport.baseCount) =
      call.bars.take link.transport.baseCount := by
    unfold StrategyCall.bars
    rw [List.take_take, Nat.min_eq_left grown]
  have rows : (table ++ call.bars.drop link.transport.baseCount).map BarRow.identity =
      call.bars.map BarRow.identity := by
    rw [List.map_append, same, kept, ← List.map_append, List.take_append_drop]
  have visible : ∀ row ∈ table ++ call.bars.drop link.transport.baseCount,
      row.availableAt ≤ call.inferenceAt := by
    intro row member
    rcases List.mem_append.mp member with before | new
    · exact old row before
    · exact checkDelta_visible delta row new
  rw [stamped] at delta
  obtain ⟨context, read, sameTime, sameAccount, sameBars⟩ := readContext_contextRecord built visible
  refine ⟨context, ⟨table ++ call.bars.drop link.transport.baseCount,
    some link.transport.nextSequence, some call.inferenceAt⟩, ?_, ⟨sameTime, sameAccount, ?_⟩, ?_⟩
  · unfold BarStream.context
    refine guard_eq_ok.mpr ⟨?_, ?_⟩
    · rw [hasExactly_ofFields.mpr (by simp [requestKeys])]
      decide
    refine guard_eq_ok.mpr ⟨?_, ?_⟩
    · simp only [field_ofFields_cons, String.reduceEq, if_false, if_true]
      cases kind <;> decide
    refine bind_eq_ok.mpr ⟨_, integerAt_ofNat (field_cons_self _ _ _), ?_⟩
    refine bind_eq_ok.mpr ⟨link.transport.baseCount, integerAt_ofNat ?_, ?_⟩
    · simp only [field_ofFields_cons, String.reduceEq, if_false, if_true]
    refine bind_eq_ok.mpr ⟨call.barCount, integerAt_ofNat ?_, ?_⟩
    · simp only [field_ofFields_cons, String.reduceEq, if_false, if_true]
    refine bind_eq_ok.mpr ⟨link.transport.sequence.isNone, ?_, ?_⟩
    · unfold BarStream.resetFlag
      simp only [field_ofFields_cons, String.reduceEq, if_false, if_true]
    refine bind_eq_ok.mpr ⟨(table, previous), based, ?_⟩
    refine bind_eq_ok.mpr ⟨record, ?_, ?_⟩
    · unfold BarStream.contextRecord
      simp only [field_ofFields_cons, String.reduceEq, if_false, if_true]
      exact if_pos (hasExactly_contextRecord built)
    refine bind_eq_ok.mpr ⟨call.inferenceAt, readInferenceAt_contextRecord built, ?_⟩
    refine guard_eq_ok.mpr ⟨Bool.eq_false_iff.mp later, ?_⟩
    refine bind_eq_ok.mpr ⟨(call.bars.drop link.transport.baseCount).map
      fun row => obj row.fields, ?_, ?_⟩
    · unfold BarStream.delta
      simp only [field_ofFields_cons, String.reduceEq, if_false, if_true]
    refine guard_eq_ok.mpr ⟨?_, ?_⟩
    · rw [List.length_map, List.length_drop, complete]
      omega
    refine bind_eq_ok.mpr ⟨table ++ call.bars.drop link.transport.baseCount, ?_, ?_⟩
    · rw [extended_eq_ok inOrder delta]
      rfl
    refine bind_eq_ok.mpr ⟨context, ?_, rfl⟩
    rw [read]
    rfl
  · rw [sameBars]
    exact rows
  · exact {
      sequence := rfl
      inferenceAt := rfl
      count := by
        show (table ++ _).length = call.barCount
        rw [List.length_append, List.length_drop, complete, held]
        omega
      bars := rows
      lastAvailableAt := checkDelta_last delta
      inOrder := checkDelta_inOrder inOrder delta
      visible := fun row member => ⟨call.inferenceAt, rfl, visible row member⟩ }

/-- The worker never refuses the host's protocol, and what it gives the strategy is
    what the host called it with. -/
def Agrees (call : StrategyCall clock) : CallResult clock → Prop
  | .rejected _ => False
  | .ran context => context.inferenceAt = call.inferenceAt ∧ context.account = call.account ∧
      context.bars.map BarRow.identity = call.bars.map BarRow.identity
  | _ => True

theorem receive_of_prepare (synced : Synced link) {definesFit : Bool}
    (fits : kind = .fit → definesFit = true) {last : Option Instant}
    (prepared : link.transport.prepareExecute mounts kind call = .ok (request, last)) :
    ∃ context stream, link.stream.receive definesFit (dumpLine request) = .ok (context, stream) ∧
      Agrees call (.ran context) ∧ Synced ⟨link.transport.commit call last, stream⟩ := by
  obtain ⟨context, stream, taken, agrees, synced'⟩ := context_of_prepare synced prepared
  refine ⟨context, stream, ?_, agrees, synced'⟩
  obtain ⟨-, -, -, record, -, rfl⟩ := prepareExecute_eq_ok prepared
  unfold BarStream.receive
  refine bind_eq_ok.mpr ⟨_, readMessage_dumpLine _, ?_⟩
  refine bind_eq_ok.mpr ⟨kind, ?_, ?_⟩
  · unfold callKind
    simp only [field_ofFields_cons, String.reduceEq, if_false, if_true]
    cases kind <;> decide
  refine guard_eq_ok.mpr ⟨?_, taken⟩
  rintro ⟨isFit, without⟩
  exact Bool.noConfusion (without.symm.trans (fits isFit))

theorem roundtrip_agrees (synced : Synced link) (mounts : Mounts) (definesFit : Bool)
    (kind : CallKind) (fits : kind = .fit → definesFit = true) (call : StrategyCall clock)
    (answer : Answer) :
    Agrees call (link.roundtrip mounts definesFit kind call answer).1 ∧
      ∀ link' ∈ (link.roundtrip mounts definesFit kind call answer).2, Synced link' := by
  unfold Link.roundtrip
  cases prepared : link.transport.prepareExecute mounts kind call with
  | error error => exact ⟨trivial, by simp⟩
  | ok sent =>
    obtain ⟨request, last⟩ := sent
    obtain ⟨context, stream, taken, agrees, synced'⟩ := receive_of_prepare synced fits prepared
    cases answer with
    | died => exact ⟨trivial, by simp⟩
    | replied => simpa [taken] using And.intro agrees synced'
    | failed => simpa [taken] using agrees

/-- The two ends of every worker are in step, and every call so far agreed. -/
structure InStep (state : HostState clock) : Prop where
  inference : ∀ link ∈ state.executor.inference, Synced link
  fitWorker : ∀ link ∈ state.executor.fitWorker, Synced link
  calls : ∀ entry ∈ state.calls, Agrees entry.1 entry.2

variable {state : HostState clock} {result : CallResult clock}

theorem InStep.after (kept : InStep state) {executor : Executor clock}
    (inference : ∀ link ∈ executor.inference, Synced link)
    (fitWorker : ∀ link ∈ executor.fitWorker, Synced link) (agrees : Agrees call result) :
    InStep (state.after call (result, executor)) where
  inference := inference
  fitWorker := fitWorker
  calls := by
    intro entry member
    rcases List.mem_append.mp member with old | new
    · exact kept.calls entry old
    · obtain rfl := List.mem_singleton.mp new
      exact agrees

theorem InStep.closed (kept : InStep state) (agrees : Agrees call result) :
    InStep (state.after call (result, state.executor.close)) := by
  apply kept.after _ _ agrees
  · simp [Executor.close]
  · simp [Executor.close]

theorem InStep.execute {state : HostState clock} (kept : InStep state) (call : StrategyCall clock)
    (answer : Answer) : InStep (state.step (.execute call answer)) := by
  show InStep (state.after call (state.executor.execute call answer))
  unfold Executor.execute
  split
  · exact kept.after kept.inference kept.fitWorker trivial
  · rename_i link opened
    have done := roundtrip_agrees (kept.inference link opened) state.executor.mounts
      state.executor.definesFit .execute nofun call answer
    split
    · rename_i result ended
      rw [ended] at done
      exact kept.closed done.1
    · rename_i result link' ended
      rw [ended] at done
      refine kept.after (fun other same => ?_) kept.fitWorker done.1
      exact Option.some.inj same ▸ done.2 link' rfl

theorem InStep.fit (kept : InStep state) (ready : Bool) (call : StrategyCall clock)
    (answer : Answer) :
    InStep (state.step (.fit ready call answer)) := by
  show InStep (state.after call (state.executor.fit ready call answer))
  have synced : Synced (state.executor.fitWorker.getD {}) := by
    cases running : state.executor.fitWorker with
    | none => exact synced_start
    | some link => exact kept.fitWorker link running
  unfold Executor.fit
  split
  · exact kept.after kept.inference kept.fitWorker trivial
  · rename_i defines
    split
    · exact kept.after kept.inference kept.fitWorker trivial
    split
    · exact kept.after kept.inference kept.fitWorker trivial
    have done := roundtrip_agrees synced state.executor.mounts state.executor.definesFit .fit
      (fun _ => Bool.not_eq_false _ ▸ defines) call answer
    split
    · rename_i result ended
      rw [ended] at done
      exact kept.closed done.1
    · rename_i result link' ended
      rw [ended] at done
      refine kept.after kept.inference (fun other same => ?_) done.1
      exact Option.some.inj same ▸ done.2 link' rfl

theorem InStep.step (kept : InStep state) (action : HostAction clock) :
    InStep (state.step action) := by
  cases action with
  | execute call answer => exact kept.execute call answer
  | fit ready call answer => exact kept.fit ready call answer
  | close => exact ⟨nofun, nofun, kept.calls⟩
  | restart mounts definesFit =>
    exact ⟨fun link fresh => Option.some.inj fresh ▸ synced_start, nofun, kept.calls⟩

theorem InStep.run (kept : InStep state) (actions : List (HostAction clock)) :
    InStep (state.run actions) := by
  induction actions generalizing state with
  | nil => exact kept
  | cons action actions ih => exact ih (kept.step action)

open BarColumns (closeDateTimes closeInstant closeText) in
/-- A first call at the close, with the bar of that instant. -/
def closeCall : StrategyCall closeDateTimes :=
  { inferenceAt := closeInstant
    barTable := [⟨[("available_at".toList, str closeText)], closeInstant, rfl⟩]
    barCount := 1
    account := ⟨zeroAmount, .empty⟩ }

def unmounted : Mounts := ⟨false, false, false, false, false⟩

theorem execute_mem_run (mounts : Mounts) (definesFit : Bool) (call : StrategyCall clock)
    (answer : Answer) :
    (call, (({ mounts, definesFit } : Executor clock).execute call answer).1) ∈
      (HostState.run ⟨{ mounts, definesFit }, []⟩ [.execute call answer]).calls := by
  show _ ∈ (HostState.after _ call (Executor.execute _ call answer)).calls
  exact List.mem_append.mpr (.inr (List.mem_singleton_self _))

theorem agrees_of_mem {calls : List (StrategyCall clock × CallResult clock)}
    (all : ∀ entry ∈ calls, Agrees entry.1 entry.2) (member : (call, result) ∈ calls) :
    Agrees call result := all _ member

end StrategyProtocol

end AutoTrade
