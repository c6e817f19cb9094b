import AutoTrade.Environment.Tools.Base

/-!
# What a dispatched call comes to

A call comes to a result, or to the interrupt its tool raised, exactly when an exception that is
raised can be told: its message is there and not empty, where no example stands behind it, and its
details have a form in JSON. A failed call leaves the registry open, and once it has finished no
mutating tool is reached.
-/

namespace AutoTrade.Tools

open PyValue (Entries lit jsonObject)

variable {value : List (PyKey × PyValue)} {error : PyStr}

theorem fail_returned {result : ToolResult} (returned : fail value error = .returned result) :
    result.ok = false ∧ result.finish = false := by
  rw [fail] at returned
  split at returned
  · rename_i made same
    rw [← Dispatch.returned.inj returned]
    rw [ToolResult.make] at same
    split at same
    · exact nomatch same
    · split at same
      · rw [← Option.some.inj same]
        exact ⟨rfl, rfl⟩
      · exact nomatch same
  · exact nomatch returned

theorem fail_returns :
    (∃ result, fail value error = .returned result) ↔ (jsonObject value).isSome ∧ error ≠ [] := by
  rw [fail, ToolResult.make]
  cases jsonObject value with
  | none => simp
  | some value =>
    by_cases empty : error = []
    · simp [empty]
    · simp [empty]

theorem fail_ne_reraised (value : List (PyKey × PyValue)) (error : PyStr) (exc : PyException) :
    fail value error ≠ .reraised exc := by
  rw [fail]
  split <;> exact nofun

theorem toRecord_json (fields : ToolErrorFields) :
    (jsonObject fields.toRecord).isSome ↔ (jsonObject fields.details).isSome := by
  have strings : ∀ pairs : List (PyStr × Option PyStr),
      (jsonObject (pairs.filterMap fun field =>
        field.2.map fun text => (.str field.1, .str text))).isSome := by
    intro pairs
    have same : (pairs.filterMap fun field => field.2.map fun text =>
          (PyKey.str field.1, PyValue.str text)) =
        (pairs.filterMap fun field => field.2.map fun text => (field.1, text)).map
          fun pair => (.str pair.1, .str pair.2) := by
      rw [List.map_filterMap]
      refine List.filterMap_congr fun field _ => ?_
      rw [Option.map_map]
      rfl
    rw [same]
    exact PyValue.jsonObject_strings_isSome _
  rw [ToolErrorFields.toRecord, PyValue.jsonObject_append_isSome]
  simp only [strings, true_and]
  cases details : fields.details with
  | nil => simp
  | cons entry rest =>
    rw [List.isEmpty_cons, if_neg Bool.false_ne_true, PyValue.jsonObject_dict_isSome]

/-- An exception that `invoke` turns into a result, or, for an interrupt, hands on. -/
def Told (spec : ToolSpec) (exc : PyException) : Prop :=
  match exc.handler with
  | .toolSchemaError fields => exc.interrupt = false ∧ (jsonObject fields.details).isSome ∧
      ∃ message, exc.str = some message ∧ (message ≠ [] ∨ spec.example'.isSome)
  | .toolError fields => exc.interrupt = false ∧ (jsonObject fields.details).isSome ∧
      ∃ message, exc.str = some message ∧ message ≠ []
  | .osErrorOrValueError => exc.interrupt = false ∧ ∃ message, exc.str = some message ∧ message ≠ []
  | .exception => exc.interrupt = true ∨ exc.str.isSome
  | .unhandled => False

/-- The end a call owes when an exception was raised: the exception itself if it is an interrupt,
else a result. -/
def Answers (exc : PyException) (dispatch : Dispatch) : Prop :=
  if exc.interrupt then dispatch = .reraised exc else ∃ result, dispatch = .returned result

variable {py : Builtins}

variable {exc : PyException}

theorem answers_fail :
    Answers exc (fail value error) ↔
      exc.interrupt = false ∧ (jsonObject value).isSome ∧ error ≠ [] := by
  rw [Answers]
  cases exc.interrupt with
  | true => simp [fail_ne_reraised]
  | false => simp [fail_returns]

theorem not_answers_escaped : ¬ Answers exc .escaped := by
  rw [Answers]
  cases exc.interrupt <;> simp

theorem withExample_details (spec : ToolSpec) (fields : ToolErrorFields) (message : PyStr) :
    (withExample py spec fields message).1.details = fields.details := by
  rw [withExample]
  split <;> rfl

theorem withExample_ne_nil (spec : ToolSpec) (fields : ToolErrorFields) (message : PyStr) :
    (withExample py spec fields message).2 ≠ [] ↔ message ≠ [] ∨ spec.example'.isSome := by
  rw [withExample]
  cases spec.example' with
  | none => simp
  | some example' => simp [lit, CodePoint.ofText]

theorem answers_handle (spec : ToolSpec) (exc : PyException) :
    Answers exc (handle py spec exc) ↔ Told spec exc := by
  rw [handle, Told]
  cases handler : exc.handler with
  | toolSchemaError fields =>
    cases exc.str with
    | none => simp [not_answers_escaped]
    | some message =>
      simp [answers_fail, toRecord_json, withExample_details, withExample_ne_nil]
  | toolError fields =>
    cases exc.str with
    | none => simp [not_answers_escaped]
    | some message => simp [answers_fail, toRecord_json]
  | osErrorOrValueError =>
    cases exc.str with
    | none => simp [not_answers_escaped]
    | some message => simp [answers_fail, jsonObject, PyValue.normalizeEntries]
  | exception =>
    by_cases interrupt : exc.interrupt = true
    · simp [interrupt, Answers]
    · cases exc.str with
      | none => simp [interrupt, not_answers_escaped]
      | some message =>
        have shown : (jsonObject [(.str (lit "error_type"), .str (lit "tool_exception")),
            (.str (lit "traceback"), .str exc.tracebackTail)]).isSome :=
          PyValue.jsonObject_strings_isSome [(lit "error_type", lit "tool_exception"),
            (lit "traceback", exc.tracebackTail)]
        have filled : (CodePoint.ofText exc.name ++ lit ": " ++ message).take 500 ≠ [] := by
          simp [lit, CodePoint.ofText]
        rw [if_neg interrupt, answers_fail]
        exact iff_of_true ⟨Bool.eq_false_iff.mpr interrupt, shown, filled⟩ (.inr rfl)
  | unhandled =>
    have plain : exc.interrupt = false :=
      Bool.eq_false_iff.mpr fun interrupt => exc.interrupt_handled interrupt handler
    simp [Answers, plain]

theorem handle_failed {spec : ToolSpec} {result : ToolResult}
    (handled : handle py spec exc = .returned result) : result.ok = false := by
  rw [handle] at handled
  split at handled
  · split at handled
    · exact nomatch handled
    · exact (fail_returned handled).1
  · split at handled
    · exact nomatch handled
    · exact (fail_returned handled).1
  · split at handled
    · exact nomatch handled
    · exact (fail_returned handled).1
  · split at handled
    · exact nomatch handled
    · split at handled
      · exact nomatch handled
      · exact (fail_returned handled).1
  · exact nomatch handled

namespace Registry

variable {W : Type} {registry : Registry W} {world : W} {call : Call}

theorem invoke_cases (py : Builtins) (registry : Registry W) (world : W) (call : Call) :
    (∃ refusal, registry.reach call = .error refusal ∧
        registry.invoke py world call = (fail [] refusal, registry, world)) ∨
      ∃ tool, registry.reach call = .ok tool ∧
        ((∃ exc, (tool.attempt py world call.arguments).1 = .error exc ∧
            registry.invoke py world call =
              (handle py tool.spec exc, registry, (tool.attempt py world call.arguments).2)) ∨
          ∃ result, (tool.attempt py world call.arguments).1 = .ok result ∧
            registry.invoke py world call = (.returned result, registry.conclude result,
              (tool.attempt py world call.arguments).2)) := by
  rw [invoke]
  cases reached : registry.reach call with
  | error refusal => exact .inl ⟨refusal, rfl, rfl⟩
  | ok tool =>
    refine .inr ⟨tool, rfl, ?_⟩
    cases attempted : tool.attempt py world call.arguments with
    | mk outcome world' =>
      cases outcome with
      | error exc => exact .inl ⟨exc, rfl, by simp only [attempted]⟩
      | ok result => exact .inr ⟨result, rfl, by simp only [attempted]⟩

theorem reach_error {refusal : PyStr} (refused : registry.reach call = .error refusal) :
    refusal ≠ [] := by
  have texts : ∀ {first name second names : PyStr}, first ≠ [] →
      first ++ name ++ second ++ names ≠ [] := by
    intro first name second names filled
    simp [filled]
  have registered : ∀ {refusal}, reach.registered registry call = .error refusal → refusal ≠ [] := by
    intro refusal refused
    rw [reach.registered] at refused
    split at refused
    · rw [← Except.error.inj refused]
      exact texts (by decide)
    · split at refused
      · rw [← Except.error.inj refused]
        decide
      · exact nomatch refused
  rw [reach] at refused
  split at refused
  · split at refused
    · rw [← Except.error.inj refused]
      exact texts (by decide)
    · exact registered refused
  · exact registered refused

theorem reach_locked {tool : Tool W} (finished : registry.finished = true)
    (reached : registry.reach call = .ok tool) : tool.spec.mutating = false := by
  have registered : reach.registered registry call = .ok tool → tool.spec.mutating = false := by
    intro reached
    rw [reach.registered] at reached
    split at reached
    · exact nomatch reached
    · split at reached
      · exact nomatch reached
      · rename_i open'
        rw [← Except.ok.inj reached]
        simpa [finished] using open'
  rw [reach] at reached
  split at reached
  · split at reached
    · exact nomatch reached
    · exact registered reached
  · exact registered reached

theorem conclude_finished (finished : registry.finished = true) (result : ToolResult) :
    (registry.conclude result).finished = true := by
  rw [conclude]
  split
  · rfl
  · exact finished

theorem invoke_finished (finished : registry.finished = true) :
    (registry.invoke py world call).2.1.finished = true := by
  rcases invoke_cases py registry world call with ⟨_, _, same⟩ | ⟨_, _, ⟨_, _, same⟩ | ⟨result, _, same⟩⟩
  · rwa [same]
  · rwa [same]
  · rw [same]
    exact conclude_finished finished result

theorem invoke_finishes {result : ToolResult}
    (returned : (registry.invoke py world call).1 = .returned result) (finish : result.finish = true) :
    (registry.invoke py world call).2.1.finished = true := by
  rcases invoke_cases py registry world call with ⟨_, _, same⟩ | ⟨_, _, ⟨_, _, same⟩ | ⟨_, _, same⟩⟩
  · rw [same] at returned
    rw [(fail_returned returned).2] at finish
    exact nomatch finish
  · rw [same] at returned
    have failed := handle_failed returned
    rw [result.ok_of_finish finish] at failed
    exact nomatch failed
  · rw [same] at returned ⊢
    rw [Dispatch.returned.inj returned, conclude, if_pos finish]

theorem invoke_failed
    (failed : ∀ result, (registry.invoke py world call).1 = .returned result → result.ok = false) :
    (registry.invoke py world call).2.1.finished = registry.finished := by
  rcases invoke_cases py registry world call with ⟨_, _, same⟩ | ⟨_, _, ⟨_, _, same⟩ | ⟨result, _, same⟩⟩
  · rw [same]
  · rw [same]
  · rw [same] at failed ⊢
    have open' : result.finish ≠ true := fun finish => by
      have ended := failed result rfl
      rw [result.ok_of_finish finish] at ended
      exact nomatch ended
    rw [conclude, if_neg open']

theorem run_append (registry : Registry W) (world : W) (xs ys : List Call) :
    registry.run py world (xs ++ ys) =
      (registry.run py world xs).1.run py (registry.run py world xs).2 ys := by
  induction xs generalizing registry world with
  | nil => rfl
  | cons call xs ih => exact ih _ _

theorem run_finished (finished : registry.finished = true) (calls : List Call) :
    (registry.run py world calls).1.finished = true := by
  induction calls generalizing registry world with
  | nil => exact finished
  | cons call calls ih => exact ih (invoke_finished finished)

/-- What the tool of a call, its normalizer or the schema check raises. -/
def Raises (py : Builtins) (registry : Registry W) (world : W) (call : Call) (tool : Tool W)
    (exc : PyException) : Prop :=
  registry.reach call = .ok tool ∧ (tool.attempt py world call.arguments).1 = .error exc

/-- A call has its end: a result, or the interrupt that was raised. -/
def Ends (py : Builtins) (registry : Registry W) (world : W) (call : Call) : Prop :=
  (∀ tool exc, Raises py registry world call tool exc →
      Answers exc (registry.invoke py world call).1) ∧
    ((∀ tool exc, ¬ Raises py registry world call tool exc) →
      ∃ result, (registry.invoke py world call).1 = .returned result)

theorem ends_iff : Ends py registry world call ↔
    ∀ tool exc, Raises py registry world call tool exc → Told tool.spec exc := by
  rcases invoke_cases py registry world call with
    ⟨refusal, refused, same⟩ | ⟨tool, reached, ⟨exc, raised, same⟩ | ⟨result, returned, same⟩⟩
  · have shown : ∃ result, fail [] refusal = .returned result :=
      fail_returns.mpr ⟨rfl, reach_error refused⟩
    simp [Ends, Raises, refused, same, shown]
  · have told : Answers exc (handle py tool.spec exc) ↔ Told tool.spec exc := answers_handle _ _
    have only : ∀ tool' exc', Raises py registry world call tool' exc' ↔ tool = tool' ∧ exc = exc' := by
      intro tool' exc'
      rw [Raises, reached, Except.ok.injEq]
      constructor
      · rintro ⟨rfl, raised'⟩
        exact ⟨rfl, Except.error.inj (raised.symm.trans raised')⟩
      · rintro ⟨rfl, rfl⟩
        exact ⟨rfl, raised⟩
    simp [Ends, only, same, told]
  · have nothing : ∀ tool' exc', ¬ Raises py registry world call tool' exc' := by
      intro tool' exc' ⟨reached', raised⟩
      rw [← Except.ok.inj (reached.symm.trans reached'), returned] at raised
      exact nomatch raised
    simp [Ends, nothing, same]

/-- A session's calls are dispatched as they should be: each has its end, one that does not succeed
leaves the registry as finished as it was, and once a call has finished the registry no mutating
tool is reached. -/
structure Dispatches (py : Builtins) (registry : Registry W) (world : W) (calls : List Call) :
    Prop where
  ends : ∀ done call rest, calls = done ++ call :: rest →
    Ends py (registry.run py world done).1 (registry.run py world done).2 call
  failed : ∀ done call rest, calls = done ++ call :: rest →
    let (registry, world) := registry.run py world done
    (∀ result, (registry.invoke py world call).1 = .returned result → result.ok = false) →
      (registry.invoke py world call).2.1.finished = registry.finished
  locked : ∀ done finisher between call rest, calls = done ++ finisher :: between ++ call :: rest →
    let before := registry.run py world done
    let after := registry.run py world (done ++ finisher :: between)
    ∀ result tool, (before.1.invoke py before.2 finisher).1 = .returned result →
      result.finish = true → after.1.reach call = .ok tool → tool.spec.mutating = false

/-- The calls of a session are dispatched as they should be exactly when every exception that a
tool, its normalizer or the schema check raises can be told. -/
theorem dispatches_iff (py : Builtins) (registry : Registry W) (world : W) (calls : List Call) :
    Dispatches py registry world calls ↔
      ∀ done call rest, calls = done ++ call :: rest → ∀ tool exc,
        Raises py (registry.run py world done).1 (registry.run py world done).2 call tool exc →
          Told tool.spec exc := by
  constructor
  · intro dispatches done call rest split
    exact ends_iff.mp (dispatches.ends done call rest split)
  · intro told
    refine ⟨fun done call rest split => ends_iff.mpr (told done call rest split),
      fun done call rest _ => invoke_failed, ?_⟩
    intro done finisher between call rest _ before after result tool returned finish reached
    have finished : after.1.finished = true := by
      rw [show after = registry.run py world (done ++ finisher :: between) from rfl, run_append]
      exact run_finished (invoke_finishes returned finish) between
    exact reach_locked finished reached

/-- The language's own functions, as far as a call without arguments comes to them. -/
def noArguments : Builtins where
  str := fun _ => []
  strKeys := fun _ => []
  sorted := .ok
  equals := fun _ _ => false
  get := fun _ _ => .ok .null
  contains := fun _ _ => .ok false
  toInt := fun _ => .ok 0
  toFloat := fun _ => .ok 0
  dumps := fun _ => []

/-- `OSError()`. -/
def bareOSError : PyException := raise "OSError".toList .osErrorOrValueError []

/-- A tool that takes no arguments and raises `OSError()`. -/
def bareTool : Tool Unit where
  spec := { name := "probe".toList, description := "Probe.".toList,
            inputSchema := [(lit "type", .str (lit "object"))] }
  normalizeArguments := none
  invoke := fun world _ => (.error bareOSError, world)

def bareRegistry : Registry Unit := ⟨Dict.empty.set "probe".toList bareTool, false, none⟩

def bareCall : Call := ⟨"probe".toList, .dict [], none⟩

/-- An `OSError` without a message ends the session: the result that is to tell it has no error. -/
theorem bare_error_escapes :
    (bareRegistry.invoke noArguments () bareCall).1 = .escaped ∧
      ¬ Dispatches noArguments bareRegistry () [bareCall] := by
  have escapes : (bareRegistry.invoke noArguments () bareCall).1 = .escaped := rfl
  refine ⟨escapes, fun dispatches => ?_⟩
  have ends := (dispatches.ends [] bareCall [] rfl).1 bareTool bareOSError ⟨rfl, rfl⟩
  exact not_answers_escaped (escapes ▸ ends)

end Registry

end AutoTrade.Tools
