import AutoTrade.Environment.Proofs.Trace

/-!
# The file of a trace

Over the calls of one writer the file holds the events in turn, up to the first that it has
no room for; then the marker, where that fits, and nothing after it.
-/

namespace AutoTrade.Trace

/-- What `emit` is called with, and the clock and id its marker would have. -/
structure Call where
  event : TraceEvent
  payload : JsonObject
  stamp : TraceStamp
  markerStamp : TraceStamp

/-- A call of `emit`; one that raises leaves the trace as it is. -/
def call (limits : TraceLimits) (render : Json → Text) (ids : List (String × Text)) (trace : Trace)
    (c : Call) : Trace :=
  match trace.emit limits render ids c.event c.payload c.stamp c.markerStamp with
  | .ok trace => trace
  | .error _ => trace

/-- The record a call is about to write, with its marker; none where it raises. -/
def recordOf (limits : TraceLimits) (render : Json → Text) (ids : List (String × Text)) (c : Call) :
    Option (JsonObject × JsonObject) :=
  match sizedRecord limits render ids c.event c.payload c.stamp with
  | .ok record => some (record, limitMarker limits ids c.markerStamp)
  | .error _ => none

/-- The lines of the records. -/
def linesOf (records : List (JsonObject × JsonObject)) : Text :=
  records.flatMap fun entry => encodeLine entry.1

/-- The file holds the records: all of them, or those before the first it had no room for and
    then the marker if it had room for that. -/
structure Holds (limits : TraceLimits) (records : List (JsonObject × JsonObject)) (trace : Trace) :
    Prop where
  bounded : byteLength trace.file ≤ limits.maxBytes
  each : ∀ entry ∈ records, byteLength (encodeLine entry.1) ≤ limits.maxEventBytes
  whole : trace.full = false → trace.file = linesOf records
  stopped : trace.full = true → ∃ before next marker after, records = before ++ (next, marker) :: after ∧
    hasRoom limits (linesOf before) next = false ∧
      trace.file = linesOf before ++
        if hasRoom limits (linesOf before) marker then encodeLine marker else []

variable {limits : TraceLimits} {records : List (JsonObject × JsonObject)} {trace : Trace}
  {record : JsonObject}

theorem byteLength_of_room (room : hasRoom limits trace.file record = true) :
    byteLength (trace.file ++ encodeLine record) ≤ limits.maxBytes := by
  rw [byteLength_append]
  exact of_decide_eq_true room

theorem Holds.write (holds : Holds limits records trace) (marker : JsonObject)
    (sized : byteLength (encodeLine record) ≤ limits.maxEventBytes) :
    Holds limits (records ++ [(record, marker)]) (trace.write limits record marker) := by
  have each : ∀ entry ∈ records ++ [(record, marker)],
      byteLength (encodeLine entry.1) ≤ limits.maxEventBytes := by
    intro entry member
    rcases List.mem_append.mp member with before | last
    · exact holds.each entry before
    · rwa [List.mem_singleton.mp last]
  cases full : trace.full with
  | true =>
    rw [write_of_no_room (by rw [full]; rfl), stop_of_full full]
    refine ⟨holds.bounded, each, fun open_ => absurd (full.symm.trans open_) (by decide), fun _ => ?_⟩
    obtain ⟨before, next, marker', after, rfl, crowded, file⟩ := holds.stopped full
    exact ⟨before, next, marker', after ++ [(record, marker)], by simp, crowded, file⟩
  | false =>
    have file := holds.whole full
    cases room : hasRoom limits trace.file record with
    | true =>
      rw [write_of_room full room]
      refine ⟨byteLength_of_room room, each, fun _ => ?_, fun stopped => ?_⟩
      · rw [file, linesOf, linesOf, List.flatMap_append, List.flatMap_singleton]
      · exact absurd (full.symm.trans stopped) (by decide)
    | false =>
      have left : (trace.stop limits marker).file = _ := file_stop full
      rw [write_of_no_room (by rw [full, room]; rfl)]
      have stops : (trace.stop limits marker).full = true := by
        unfold stop
        rw [if_neg (by rw [full]; decide)]
        split_ifs <;> rfl
      refine ⟨?_, each, fun open_ => absurd (stops.symm.trans open_) (by decide), fun _ => ?_⟩
      · rw [left]
        split_ifs with fits
        · exact byteLength_of_room fits
        · exact holds.bounded
      · refine ⟨records, record, marker, [], rfl, file ▸ room, ?_⟩
        rw [left, ← file]
        split_ifs
        · rfl
        · exact (List.append_nil _).symm

theorem Holds.call (holds : Holds limits records trace) (render : Json → Text)
    (ids : List (String × Text)) (c : Call) :
    Holds limits (records ++ (recordOf limits render ids c).toList)
      (trace.call limits render ids c) := by
  unfold Trace.call emit recordOf
  cases sized : sizedRecord limits render ids c.event c.payload c.stamp with
  | error e =>
    rw [Option.toList_none, List.append_nil]
    exact holds
  | ok record => exact holds.write _ (sizedRecord_le sized)

/-- However many events are emitted, of whatever size, the file of a trace stays within its limit
    and holds the events in turn, up to the first it had no room for. -/
theorem trace_holds_prefix (limits : TraceLimits) (render : Json → Text)
    (ids : List (String × Text)) (calls : List Call) :
    Holds limits (calls.filterMap (recordOf limits render ids))
      (calls.foldl (Trace.call limits render ids) {}) := by
  have start : Holds limits [] {} :=
    ⟨Nat.zero_le _, by simp, fun _ => rfl, fun stopped => absurd stopped (by decide)⟩
  have run : ∀ records trace, Holds limits records trace →
      Holds limits (records ++ calls.filterMap (recordOf limits render ids))
        (calls.foldl (Trace.call limits render ids) trace) := by
    induction calls with
    | nil => exact fun records trace holds => (List.append_nil records).symm ▸ holds
    | cons c calls ih =>
      intro records trace holds
      have rest := ih _ _ (holds.call render ids c)
      rw [List.append_assoc] at rest
      rw [List.filterMap_cons]
      cases recorded : recordOf limits render ids c with
      | none => rwa [recorded] at rest
      | some entry => rwa [recorded] at rest
  exact run [] {} start

end AutoTrade.Trace
