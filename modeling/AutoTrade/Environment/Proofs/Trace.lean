import AutoTrade.Environment.Trace
import Mathlib.Algebra.Order.BigOperators.Group.List
import Mathlib.Data.Nat.Digits.Lemmas

/-!
# What a trace record keeps

A record keeps its event's name whatever its size, and a payload's other fields
only while the event is not cut down to a stub.
-/

namespace AutoTrade.Trace

open Json JsonLines JsonObject

variable {limits : TraceLimits} {render : Json → Text} {ids : List (String × Text)}
  {event : TraceEvent} {payload record marker : JsonObject} {stamp : TraceStamp}

theorem map_fst_idFields (ids : List (String × Text)) :
    (idFields ids).map Prod.fst = ids.map Prod.fst := by
  unfold idFields
  rw [List.map_map]
  rfl

/-- The keys a writer gives to the records itself. -/
def stampKeys : List String := ["event_type", "ts", "event_id"]

variable {key : String}

theorem field_traceRecord (stamped : key ∉ stampKeys) (named : key ∉ ids.map Prod.fst)
    (event : TraceEvent) (payload : JsonObject) (stamp : TraceStamp) :
    (traceRecord ids event payload stamp).field key = payload.field key := by
  unfold traceRecord
  apply field_update_of_not_mem
  rw [List.map_append, map_fst_idFields, List.mem_append]
  exact fun member => member.elim stamped named

theorem type_traceRecord (named : "event_type" ∉ ids.map Prod.fst) (event : TraceEvent)
    (payload : JsonObject) (stamp : TraceStamp) :
    (traceRecord ids event payload stamp).field "event_type" = some (str event.name) := by
  unfold traceRecord
  rw [List.cons_append]
  apply field_update_cons
  rw [List.map_append, map_fst_idFields, List.mem_append]
  exact fun member => member.elim (by simp) named

theorem type_limitMarker (named : "event_type" ∉ ids.map Prod.fst) (limits : TraceLimits)
    (stamp : TraceStamp) :
    (limitMarker limits ids stamp).field "event_type" =
      some (str TraceEvent.traceLimitReached.name) := by
  unfold limitMarker
  rw [List.cons_append, List.cons_append]
  apply field_update_cons
  simp only [List.map_append, map_fst_idFields, List.mem_append]
  rintro ((member | member) | member)
  · simp at member
  · exact named member
  · simp at member

/-- The keys a stub adds to the ids. -/
def stubKeys : List String :=
  ["truncated", "original_bytes"] ++ traceStubKeys ++ ["content_preview", "payload_head", "error"]

theorem type_stubRecord (named : "event_type" ∉ ids.map Prod.fst) (originalBytes : Nat) :
    (stubRecord render ids event payload stamp originalBytes).field "event_type" =
      some (str event.name) := by
  unfold stubRecord
  simp only [List.cons_append, List.nil_append, List.append_assoc]
  apply field_update_cons
  simp only [List.map_cons, List.map_append, map_fst_idFields, List.mem_cons, List.mem_append]
  rintro (same | same | member | same | same | member | member)
  · simp at same
  · simp at same
  · exact named member
  · simp at same
  · simp at same
  · simp [traceStubKeys] at member
  · simp at member

theorem field_stubRecord (stamped : key ∉ stampKeys) (named : key ∉ ids.map Prod.fst)
    (other : key ∉ stubKeys) (originalBytes : Nat) :
    (stubRecord render ids event payload stamp originalBytes).field key = none := by
  unfold stubRecord
  rw [field_update_of_not_mem]
  · rfl
  · simp only [stubKeys, List.mem_append] at other
    push Not at other
    simp only [List.map_append, map_fst_idFields, List.mem_append]
    rintro ((((member | member) | member) | member) | member)
    · exact stamped member
    · exact named member
    · exact other.1.1 member
    · apply other.1.2
      simpa [List.map_map] using member
    · exact other.2 member

theorem sizedRecord_eq_ok (typed : "event_type" ∉ ids.map Prod.fst)
    (sized : sizedRecord limits render ids event payload stamp = .ok record) (key : String)
    (stamped : key ∉ stampKeys) (named : key ∉ ids.map Prod.fst) (other : key ∉ stubKeys) :
    record.field "event_type" = some (str event.name) ∧ record.field key =
      if byteLength (encodeLine (traceRecord ids event payload stamp)) ≤ limits.maxEventBytes then
        payload.field key else none := by
  unfold sizedRecord at sized
  dsimp only at sized
  by_cases fits : byteLength (encodeLine (traceRecord ids event payload stamp)) ≤
      limits.maxEventBytes
  · rw [if_pos fits] at sized
    cases sized
    rw [if_pos fits]
    exact ⟨type_traceRecord typed event payload stamp,
      field_traceRecord stamped named event payload stamp⟩
  · rw [if_neg fits] at sized
    rw [if_neg fits]
    split_ifs at sized
    · cases sized
      exact ⟨type_stubRecord typed _, field_stubRecord stamped named other _⟩
    · cases sized
      rw [field_without, field_without, field_stubRecord stamped named other]
      exact ⟨(if_neg (by decide)).trans (type_stubRecord typed _), ite_self none⟩

theorem sizedRecord_of_stub
    (cut : limits.maxEventBytes < byteLength (encodeLine (traceRecord ids event payload stamp)))
    (small : byteLength (encodeLine (stubRecord render ids event payload stamp
      (byteLength (encodeLine (traceRecord ids event payload stamp))))) ≤ limits.maxEventBytes) :
    sizedRecord limits render ids event payload stamp = .ok (stubRecord render ids event payload
      stamp (byteLength (encodeLine (traceRecord ids event payload stamp)))) := by
  unfold sizedRecord
  dsimp only
  rw [if_neg (Nat.not_le.mpr cut), if_pos small]

theorem sizedRecord_le (sized : sizedRecord limits render ids event payload stamp = .ok record) :
    byteLength (encodeLine record) ≤ limits.maxEventBytes := by
  unfold sizedRecord at sized
  dsimp only at sized
  split_ifs at sized with whole stub bare
  · cases sized
    exact whole
  · cases sized
    exact stub
  · cases sized
    exact bare

variable {trace : Trace}

theorem write_of_room (open_ : trace.full = false)
    (room : hasRoom limits trace.file record = true) :
    trace.write limits record marker = { trace with file := trace.file ++ encodeLine record } := by
  unfold write
  rw [open_, room]
  exact if_neg (by decide)

theorem write_of_no_room (stopped : (trace.full || !hasRoom limits trace.file record) = true) :
    trace.write limits record marker = trace.stop limits marker := by
  unfold write
  rw [stopped]
  exact if_pos rfl

theorem stop_of_full (full : trace.full = true) : trace.stop limits marker = trace := by
  unfold stop
  exact if_pos full

theorem file_stop (open_ : trace.full = false) :
    (trace.stop limits marker).file =
      if hasRoom limits trace.file marker then trace.file ++ encodeLine marker else trace.file := by
  unfold stop
  rw [if_neg (by rw [open_]; decide)]
  split_ifs <;> rfl

/-- What a field adds to a line. -/
def fieldBytes (field : Text × Json) : Nat :=
  byteLength (dumpField (field.1, sortKeys field.2)) + 2

theorem byteLength_dumpRest (fields : JsonObject) :
    byteLength (dumpRest dumpField '}' fields) =
      (fields.map fun field => byteLength (dumpField field) + 2).sum + 1 := by
  have comma : (',').utf8Size = 1 := by decide
  have space : (' ').utf8Size = 1 := by decide
  induction fields with
  | nil => rfl
  | cons field fields ih =>
    rw [dumpRest, byteLength_cons, byteLength_cons, byteLength_append, ih, List.map_cons,
      List.sum_cons, comma, space]
    omega

theorem byteLength_encodeLine {record : JsonObject} (filled : record ≠ []) :
    byteLength (encodeLine record) = 1 + (record.map fieldBytes).sum := by
  have sorted := perm_sortFields record
  have total := (sorted.map fun field => byteLength (dumpField field) + 2).sum_eq
  rw [List.map_map] at total
  change _ = (record.map fieldBytes).sum at total
  unfold encodeLine dumpLine
  cases fields : sortFields record with
  | nil =>
    rw [fields, List.nil_perm, List.map_eq_nil_iff] at sorted
    exact absurd sorted filled
  | cons field rest =>
    rw [fields, List.map_cons, List.sum_cons] at total
    rw [byteLength_append, dumps_obj_cons, byteLength_cons, byteLength_append, byteLength_dumpRest]
    have brace : ('{').utf8Size = 1 := by decide
    have newline : byteLength ['\n'] = 1 := by decide
    omega

theorem sum_setField_le (record : JsonObject) (key : String) (value : Json) :
    ((record.setField key value).map fieldBytes).sum ≤
      (record.map fieldBytes).sum + fieldBytes (key.toList, value) := by
  unfold setField
  rw [List.map_append, List.sum_append, List.map_singleton, List.sum_singleton]
  apply Nat.add_le_add_right
  exact (List.filter_sublist.map fieldBytes).sum_le_sum (fun _ _ => Nat.zero_le _)

theorem sum_update_le (record : JsonObject) (fields : List (String × Json)) :
    ((record.update fields).map fieldBytes).sum ≤
      (record.map fieldBytes).sum + (fields.map fun field => fieldBytes (field.1.toList, field.2)).sum := by
  induction fields generalizing record with
  | nil => exact le_refl _
  | cons field fields ih =>
    have rest := ih (record.setField field.1 field.2)
    have first := sum_setField_le record field.1 field.2
    rw [List.map_cons, List.sum_cons]
    show (((record.setField field.1 field.2).update fields).map fieldBytes).sum ≤ _
    omega

theorem byteLength_dumpString_le (t : Text) : byteLength (dumpString t) ≤ 6 * t.length + 2 := by
  have escape (c : Char) : byteLength (escapeChar c) ≤ 6 := by
    have size := c.utf8Size_le_four
    have hex (n : Nat) (small : n < 16) : (hexDigit n).utf8Size = 1 := by
      have every : ∀ n < 16, (hexDigit n).utf8Size = 1 := by decide
      exact every n small
    unfold escapeChar
    split_ifs with _ _ _ _ _ _ _ control
    · decide
    · decide
    · decide
    · decide
    · decide
    · decide
    · decide
    · have high := hex (c.toNat / 16) (by omega)
      have low := hex (c.toNat % 16) (by omega)
      have plain : byteLength ['\\', 'u', '0', '0'] = 4 := by decide
      show byteLength (['\\', 'u', '0', '0'] ++ [_, _]) ≤ 6
      rw [byteLength_append, plain, byteLength_cons, byteLength_cons, high, low]
      decide
    · show c.utf8Size + 0 ≤ 6
      omega
  have quote : ('"').utf8Size = 1 := by decide
  have body : byteLength (t.flatMap escapeChar) ≤ 6 * t.length := by
    induction t with
    | nil => exact le_refl _
    | cons c t ih =>
      have first := escape c
      rw [List.flatMap_cons, byteLength_append, List.length_cons]
      omega
  unfold dumpString
  rw [byteLength_cons, byteLength_append, byteLength_cons, quote]
  show 1 + (byteLength (t.flatMap escapeChar) + (1 + 0)) ≤ _
  omega

theorem fieldBytes_str_le (key : Text) (t : Text) :
    fieldBytes (key, str t) ≤ 6 * key.length + 6 * t.length + 8 := by
  have name := byteLength_dumpString_le key
  have value := byteLength_dumpString_le t
  have colon : byteLength [':', ' '] = 2 := by decide
  unfold fieldBytes dumpField
  show byteLength (dumpString key ++ ([':', ' '] ++ dumpString t)) + 2 ≤ _
  rw [byteLength_append, byteLength_append, colon]
  omega

theorem length_ofNat_le {n k : Nat} (small : n < 10 ^ k) (some : 0 < k) :
    (JsonNumber.ofNat n).text.length ≤ k := by
  show (JsonNumber.digitsOf n).length ≤ k
  unfold JsonNumber.digitsOf
  split_ifs
  · exact some
  · rw [List.length_reverse, List.length_map]
    exact (Nat.digits_length_le_iff (by norm_num) n).mpr small

theorem fieldBytes_le_encodeLine {record : JsonObject} {value : Json}
    (held : record.field key = some value) :
    fieldBytes (key.toList, value) ≤ byteLength (encodeLine record) := by
  have member := mem_of_field held
  have part := List.le_sum_of_mem (List.mem_map_of_mem (f := fieldBytes) member)
  rw [byteLength_encodeLine (List.ne_nil_of_mem member)]
  omega

/-- What fields add to a line. -/
def bytesOf (fields : List (String × Json)) : Nat :=
  (fields.map fun field => fieldBytes (field.1.toList, field.2)).sum

theorem bytesOf_cons (key : String) (value : Json) (fields : List (String × Json)) :
    bytesOf ((key, value) :: fields) = fieldBytes (key.toList, value) + bytesOf fields := rfl

theorem bytesOf_append (fields more : List (String × Json)) :
    bytesOf (fields ++ more) = bytesOf fields + bytesOf more := by
  unfold bytesOf
  rw [List.map_append, List.sum_append]

/-- What a writer puts into every record. -/
def stampFields (ids : List (String × Text)) (event : TraceEvent) (stamp : TraceStamp) :
    List (String × Json) :=
  [("event_type", str event.name), ("ts", str stamp.ts), ("event_id", str stamp.eventId)] ++
    idFields ids

theorem size_traceRecord (typed : "event_type" ∉ ids.map Prod.fst) (event : TraceEvent)
    (payload : JsonObject) (stamp : TraceStamp) :
    byteLength (encodeLine (traceRecord ids event payload stamp)) ≤
      1 + (payload.map fieldBytes).sum + bytesOf (stampFields ids event stamp) := by
  have filled : traceRecord ids event payload stamp ≠ [] :=
    List.ne_nil_of_mem (mem_of_field (type_traceRecord typed event payload stamp))
  have total := sum_update_le payload (stampFields ids event stamp)
  rw [byteLength_encodeLine filled]
  change ((traceRecord ids event payload stamp).map fieldBytes).sum ≤ _ at total
  change _ ≤ _ + bytesOf (stampFields ids event stamp) at total
  omega

theorem fieldBytes_payloadHead (payload : JsonObject) :
    fieldBytes ("payload_head".toList, tracePayloadHead payload) ≤ 48080 := by
  have key : "payload_head".toList.length = 12 := rfl
  unfold tracePayloadHead
  dsimp only
  split_ifs
  · decide +kernel
  · have clipped := fieldBytes_str_le "payload_head".toList ((dumps (obj (sortFields
      (payload.without (traceStubKeys ++ ["content", "error"]))))).take tracePayloadHeadChars)
    have length := List.length_take_le tracePayloadHeadChars (dumps (obj (sortFields
      (payload.without (traceStubKeys ++ ["content", "error"])))))
    have limit : tracePayloadHeadChars = 8000 := rfl
    omega

theorem fieldBytes_contentPreview (t : Text) :
    fieldBytes ("content_preview".toList, str (t.take traceContentPreviewChars)) ≤ 192098 := by
  have key : "content_preview".toList.length = 15 := rfl
  have clipped := fieldBytes_str_le "content_preview".toList (t.take traceContentPreviewChars)
  have length := List.length_take_le traceContentPreviewChars t
  have limit : traceContentPreviewChars = 32000 := rfl
  omega

theorem fieldBytes_originalBytes {n : Nat} (known : n < 10 ^ 9) :
    fieldBytes ("original_bytes".toList, num (.ofNat n)) ≤ 60 := by
  have key : byteLength (dumpString "original_bytes".toList) = 16 := by decide
  have digits := length_ofNat_le known (by decide)
  have bytes := byteLength_le (JsonNumber.ofNat n).text
  have colon : byteLength [':', ' '] = 2 := by decide
  unfold fieldBytes dumpField
  show byteLength (dumpString "original_bytes".toList ++ ([':', ' '] ++
    (JsonNumber.ofNat n).text)) + 2 ≤ 60
  rw [byteLength_append, byteLength_append, colon, key]
  omega

theorem size_stubRecord (render : Json → Text) (typed : "event_type" ∉ ids.map Prod.fst)
    (event : TraceEvent) (payload : JsonObject) (stamp : TraceStamp) {originalBytes : Nat}
    (known : originalBytes < 10 ^ 9)
    (noError : (traceRecord ids event payload stamp).field "error" = none) :
    byteLength (encodeLine (stubRecord render ids event payload stamp originalBytes)) ≤
      bytesOf (stampFields ids event stamp) +
        bytesOf (traceStubKeys.map fun key =>
          (key, ((traceRecord ids event payload stamp).field key).getD null)) + 241000 := by
  have filled : stubRecord render ids event payload stamp originalBytes ≠ [] :=
    List.ne_nil_of_mem (mem_of_field (type_stubRecord typed originalBytes))
  rw [byteLength_encodeLine filled]
  unfold stubRecord
  dsimp only
  rw [noError, if_pos (show (shownText render none).take 4000 = [] from rfl)]
  have total := sum_update_le [] (stampFields ids event stamp ++
    [("truncated", Json.bool true), ("original_bytes", num (.ofNat originalBytes))] ++
    traceStubKeys.map (fun key =>
      (key, ((traceRecord ids event payload stamp).field key).getD null)) ++
    [("content_preview", str ((shownText render
        ((traceRecord ids event payload stamp).field "content")).take traceContentPreviewChars)),
      ("payload_head", tracePayloadHead payload), ("error", null)])
  change _ ≤ 0 + bytesOf _ at total
  rw [bytesOf_append, bytesOf_append, bytesOf_append, bytesOf_cons, bytesOf_cons, bytesOf_cons,
    bytesOf_cons, bytesOf_cons] at total
  have truncated : fieldBytes ("truncated".toList, Json.bool true) ≤ 30 := by decide
  have error : fieldBytes ("error".toList, null) ≤ 30 := by decide
  have original := fieldBytes_originalBytes known
  have preview := fieldBytes_contentPreview
    (shownText render ((traceRecord ids event payload stamp).field "content"))
  have head := fieldBytes_payloadHead payload
  have none_ : bytesOf [] = 0 := rfl
  rw [none_] at total
  refine (Nat.add_le_add_left total 1).trans ?_
  omega

end AutoTrade.Trace
