import AutoTrade.Common.PyValue
import AutoTrade.Common.Json
import AutoTrade.Misc.Runs

/-!
# Tool dispatch

The registry of `environment/tools/base.py`: the arguments of a call are put in shape by the tool
and checked against its schema, the tool runs, and what any of them raises is turned into a failed
result, whose constructor may itself raise.
-/

namespace AutoTrade.Tools

open PyValue (Entries lit jsonObject)

/-- The fields of a `ToolError` besides its message. -/
structure ToolErrorFields where
  errorType : PyStr := lit "tool_error"
  reason : Option PyStr := none
  retryHint : Option PyStr := none
  blockedTarget : Option PyStr := none
  details : List (PyKey × PyValue) := []

/-- The first handler of `invoke` that an exception matches by its class. A `SessionInterrupt` is
an `Exception`, and may besides be of a class with an earlier handler. -/
inductive Handler where
  | toolSchemaError (fields : ToolErrorFields)
  | toolError (fields : ToolErrorFields)
  | osErrorOrValueError
  | exception
  | unhandled

/-- An exception: what `str` makes of it, if that does not raise, and whether it is a
`SessionInterrupt`. -/
structure PyException where
  name : Text
  str : Option PyStr
  handler : Handler
  interrupt : Bool
  /-- What `_traceback_tail` shows. -/
  tracebackTail : PyStr
  interrupt_handled : interrupt = true → handler ≠ .unhandled

/-- An exception of a class that is no `SessionInterrupt`. -/
def raise (name : Text) (handler : Handler) (message : PyStr) : PyException where
  name
  str := some message
  handler
  interrupt := false
  tracebackTail := []
  interrupt_handled := nofun

/-- `ToolSchemaError(message)`. -/
def toolSchemaError (message : PyStr) : PyException :=
  raise "ToolSchemaError".toList (.toolSchemaError { errorType := lit "schema_error" }) message

def valueError (message : PyStr) : PyException :=
  raise "ValueError".toList .osErrorOrValueError message

/-- `ToolError.to_record`. -/
def ToolErrorFields.toRecord (fields : ToolErrorFields) : List (PyKey × PyValue) :=
  ([(lit "error_type", some fields.errorType), (lit "reason", fields.reason),
      (lit "retry_hint", fields.retryHint), (lit "blocked_target", fields.blockedTarget)].filterMap
    fun field => field.2.map fun text => (.str field.1, .str text)) ++
  if fields.details.isEmpty then [] else [(.str (lit "details"), .dict fields.details)]

structure ToolSpec where
  name : Text
  description : Text
  /-- A JSON object: the keys are strings. -/
  inputSchema : Entries
  mutating : Bool := false
  example' : Option Entries := none

/-- What a tool returns: a failure has an error, and only a success has none and may finish. -/
structure ToolResult where
  ok : Bool
  value : Entries
  error : PyStr
  finish : Bool
  error_of_ok : ok = true → error = []
  error_of_failed : ok = false → error ≠ []
  ok_of_finish : finish = true → ok = true

/-- `ToolResult(ok, value, error, finish)`, nothing when `__post_init__` raises. -/
def ToolResult.make (ok : Bool) (value : List (PyKey × PyValue)) (error : PyStr) (finish : Bool) :
    Option ToolResult :=
  match jsonObject value with
  | none => none
  | some value =>
    if h : (ok = true → error = []) ∧ (ok = false → error ≠ []) ∧ (finish = true → ok = true) then
      some ⟨ok, value, error, finish, h.1, h.2.1, h.2.2⟩
    else none

/-- How a call of `invoke` ends: with a result, with the exception it was given, or with one that
came up while the result was built. -/
inductive Dispatch where
  | returned (result : ToolResult)
  | reraised (exc : PyException)
  | escaped

/-- `return ToolResult(False, value, error)`. -/
def fail (value : List (PyKey × PyValue)) (error : PyStr) : Dispatch :=
  match ToolResult.make false value error false with
  | some result => .returned result
  | none => .escaped

/-- What the language itself does with values, as the schema check calls it: `str`, `sorted`, `==`,
`dict.get`, `in`, `int`, `float` and `json.dumps`. -/
structure Builtins where
  str : PyValue → PyStr
  strKeys : List PyKey → PyStr
  sorted : List PyKey → Except PyException (List PyKey)
  equals : PyKey → PyValue → Bool
  get : List (PyKey × PyValue) → PyValue → Except PyException PyValue
  contains : PyValue → PyValue → Except PyException Bool
  toInt : PyValue → Except PyException Int
  toFloat : PyValue → Except PyException Rat
  dumps : Entries → PyStr

variable (py : Builtins)

/-- `valid`: whether a value is of the type that a schema names. -/
def hasType (expected value : PyValue) : Bool :=
  match expected with
  | .str name =>
    match value with
    | .str _ => name = lit "string"
    | .int _ => name = lit "integer" || name = lit "number"
    | .float _ => name = lit "number"
    | .nan => name = lit "number"
    | .bool _ => name = lit "boolean"
    | .list _ => name = lit "array"
    | .dict _ => name = lit "object"
    | _ => false
  | _ => false

/-- An integral float is an integer where one is expected. -/
def integral (expected value : PyValue) : PyValue :=
  match expected, value with
  | .str name, .float number =>
    if name = lit "integer" ∧ number.den = 1 then .int number.num else value
  | _, _ => value

/-- `_number`. -/
def numberText : PyValue → PyStr
  | .float number => if number.den = 1 then py.str (.int number.num) else py.str (.float number)
  | value => py.str value

/-- A field of a schema. -/
def field (key : String) (schema : List (PyKey × PyValue)) : Option PyValue :=
  Dict.lookup (.str (lit key)) schema

def count (n : Nat) : PyStr := CodePoint.ofText (JsonNumber.digitsOf n)

/-- The bounds on the length of a string. -/
def checkLength (name text : PyStr) (schema : List (PyKey × PyValue)) : Except PyException Unit := do
  match field "minLength" schema with
  | none => pure ()
  | some bound =>
    let least ← py.toInt bound
    if (text.length : Int) < least then
      throw (toolSchemaError (name ++ lit " is too short: " ++ count text.length ++
        lit " characters, minimum " ++ py.str bound))
  match field "maxLength" schema with
  | none => pure ()
  | some bound =>
    let most ← py.toInt bound
    if most < (text.length : Int) then
      throw (toolSchemaError (name ++ lit " is too long: " ++ count text.length ++
        lit " characters, limit " ++ py.str bound))

/-- The bounds on a number. -/
def checkBounds (name : PyStr) (value : PyValue) (number : Rat) (schema : List (PyKey × PyValue)) :
    Except PyException Unit := do
  match field "minimum" schema with
  | none => pure ()
  | some bound =>
    let least ← py.toFloat bound
    if number < least then
      throw (toolSchemaError (name ++ lit " is " ++ numberText py value ++
        lit ", below its minimum " ++ numberText py bound))
  match field "maximum" schema with
  | none => pure ()
  | some bound =>
    let most ← py.toFloat bound
    if most < number then
      throw (toolSchemaError (name ++ lit " is " ++ numberText py value ++
        lit ", above its maximum " ++ numberText py bound))

/-- `enum`. -/
def checkEnum (name : PyStr) (value : PyValue) (schema : List (PyKey × PyValue)) :
    Except PyException Unit :=
  match field "enum" schema with
  | none => pure ()
  | some choices => do
    let known ← py.contains value choices
    if !known then throw (toolSchemaError (name ++ lit " must be one of " ++ py.str choices))

/-- What `_validate_value` checks of a value itself. -/
def checkValue (name : PyStr) (value : PyValue) (schema : List (PyKey × PyValue)) :
    Except PyException PyValue := do
  let expected := (field "type" schema).getD .null
  let value := integral expected value
  if !hasType expected value then
    throw (toolSchemaError (name ++ lit " must be " ++ py.str expected))
  checkEnum py name value schema
  match value with
  | .str text => checkLength py name text schema
  | .int number => checkBounds py name value number schema
  | .float number => checkBounds py name value number schema
  | _ => pure ()
  pure value

mutual

/-- `_validate_value`. -/
def validateValue (name : PyStr) : PyValue → List (PyKey × PyValue) → Except PyException PyValue
  | .list items, schema => do
    let value ← checkValue py name (.list items) schema
    match field "items" schema with
    | some (.dict itemSchema) => .list <$> validateItems name 0 items itemSchema
    | _ => pure value
  | value, schema => checkValue py name value schema

def validateItems (name : PyStr) :
    Nat → List PyValue → List (PyKey × PyValue) → Except PyException (List PyValue)
  | _, [], _ => pure []
  | index, item :: rest, schema => do
    let item ← validateValue (name ++ lit "[" ++ count index ++ lit "]") item schema
    let rest ← validateItems name (index + 1) rest schema
    pure (item :: rest)

end

/-- The `properties` and the `required` names of a schema. -/
def schemaParts (schema : Entries) : Option (List (PyKey × PyValue) × List PyValue) :=
  match (Dict.lookup (lit "properties") schema).getD (.dict []),
    (Dict.lookup (lit "required") schema).getD (.list []) with
  | .dict properties, .list required => some (properties, required)
  | _, _ => none

/-- `schema.get("additionalProperties", False) is False`. -/
def closedSchema (schema : Entries) : Bool :=
  match Dict.lookup (lit "additionalProperties") schema with
  | none => true
  | some (.bool open') => !open'
  | some _ => false

/-- One argument against the schema of its field, if it has one. -/
def validateField (properties : List (PyKey × PyValue)) (argument : PyStr × PyValue) :
    Except PyException (PyStr × PyValue) :=
  match Dict.lookup (.str argument.1) properties with
  | some (.dict schema) => do
    let value ← validateValue py argument.1 argument.2 schema
    pure (argument.1, value)
  | _ => pure argument

/-- The required names that no argument is given for. -/
def missingNames (arguments : List (PyKey × PyValue)) (required : List PyValue) :
    Except PyException (List PyKey) := do
  let missing ← required.filterM fun name => do
    let value ← py.get arguments name
    pure value.isNull
  py.sorted (missing.map fun name => .str (py.str name))

/-- `validate_arguments`. -/
def validateArguments (schema : Entries) (arguments : PyValue) : Except PyException Entries := do
  let .dict entries := arguments | throw (toolSchemaError (lit "tool arguments must be an object"))
  let some (properties, required) := schemaParts schema
    | throw (toolSchemaError (lit "invalid tool schema"))
  let unknown ← py.sorted ((entries.map Prod.fst).filter fun key => key ∉ properties.map Prod.fst)
  if !unknown.isEmpty && closedSchema schema then
    throw (toolSchemaError (lit "unknown argument(s): " ++ py.strKeys unknown))
  -- a null argument that is not required is an absent one
  let arguments := entries.filter fun argument =>
    !argument.2.isNull || required.any (py.equals argument.1)
  let missing ← missingNames py arguments required
  if !missing.isEmpty then
    throw (toolSchemaError (lit "missing required argument(s): " ++ py.strKeys missing))
  let some normalized := jsonObject arguments
    | throw (valueError (lit "tool arguments must be JSON-compatible"))
  normalized.mapM (validateField py properties)

/-- A tool, in a world that it may read and change. -/
structure Tool (W : Type) where
  spec : ToolSpec
  normalizeArguments : Option (List (PyKey × PyValue) → Except PyException PyValue)
  invoke : W → Entries → Except PyException ToolResult × W

structure Registry (W : Type) where
  tools : Dict Text (Tool W)
  finished : Bool
  finishValue : Option Entries

/-- One call, with the tools that it may use at this point of the session. -/
structure Call where
  name : Text
  arguments : PyValue
  allowedNames : Option (List Text)

section Dispatch

variable {W : Type}

/-- The arguments a tool runs with. -/
def Tool.prepare (tool : Tool W) (arguments : PyValue) : Except PyException Entries := do
  let arguments ← match tool.normalizeArguments, arguments with
    | some normalize, .dict entries => normalize entries
    | _, arguments => pure arguments
  validateArguments py tool.spec.inputSchema arguments

/-- The body of the `try`. -/
def Tool.attempt (tool : Tool W) (world : W) (arguments : PyValue) :
    Except PyException ToolResult × W :=
  match tool.prepare py arguments with
  | .error exc => (.error exc, world)
  | .ok validated => tool.invoke world validated

/-- The message and the fields of a schema error, with the tool's example. -/
def withExample (spec : ToolSpec) (fields : ToolErrorFields) (message : PyStr) :
    ToolErrorFields × PyStr :=
  match spec.example' with
  | none => (fields, message)
  | some example' =>
    let hint := lit "correct call example: " ++ py.dumps example'
    ({ fields with retryHint := some (match fields.retryHint with
        | none => hint
        | some first => first ++ lit "; " ++ hint) },
      message ++ lit "; " ++ hint)

/-- The `except` clauses. -/
def handle (spec : ToolSpec) (exc : PyException) : Dispatch :=
  match exc.handler with
  | .toolSchemaError fields =>
    match exc.str with
    | none => .escaped
    | some message =>
      let (fields, message) := withExample py spec fields message
      fail fields.toRecord message
  | .toolError fields =>
    match exc.str with
    | none => .escaped
    | some message => fail fields.toRecord message
  | .osErrorOrValueError =>
    match exc.str with
    | none => .escaped
    | some message => fail [] message
  | .exception =>
    if exc.interrupt then .reraised exc
    else
      match exc.str with
      | none => .escaped
      | some message =>
        fail [(.str (lit "error_type"), .str (lit "tool_exception")),
            (.str (lit "traceback"), .str exc.tracebackTail)]
          ((CodePoint.ofText exc.name ++ lit ": " ++ message).take 500)
  | .unhandled => .reraised exc

namespace Registry

variable (registry : Registry W) (world : W) (call : Call)

/-- The names, as an error lists them. -/
def listNames (names : List Text) : PyStr :=
  CodePoint.ofText ((", ".toList).intercalate (sortTexts names))

/-- The tool that a call reaches, or why it reaches none. -/
def reach : Except PyStr (Tool W) :=
  match call.allowedNames with
  | some allowed =>
    if call.name ∉ allowed then
      .error (lit "tool is unavailable at this point of the session: " ++
        CodePoint.ofText call.name ++ lit "; available now: " ++ listNames allowed)
    else registered
  | none => registered
where
  registered : Except PyStr (Tool W) :=
    match registry.tools.get? call.name with
    | none => .error (lit "unknown tool: " ++ CodePoint.ofText call.name ++
        lit "; tools in this session: " ++ listNames registry.tools.keys)
    | some tool =>
      if registry.finished && tool.spec.mutating then
        .error (lit "the strategy workspace is locked after finish")
      else .ok tool

/-- The registry after a tool has returned. -/
def conclude (result : ToolResult) : Registry W :=
  if result.finish then { registry with finished := true, finishValue := some result.value }
  else registry

/-- `ToolRegistry.invoke`. -/
def invoke : Dispatch × Registry W × W :=
  match registry.reach call with
  | .error refusal => (fail [] refusal, registry, world)
  | .ok tool =>
    match tool.attempt py world call.arguments with
    | (.error exc, world) => (handle py tool.spec exc, registry, world)
    | (.ok result, world) => (.returned result, registry.conclude result, world)

/-- Calls one after another. -/
def run (registry : Registry W) (world : W) : List Call → Registry W × W
  | [] => (registry, world)
  | call :: rest =>
    let after := (registry.invoke py world call).2
    run after.1 after.2 rest

end Registry

end Dispatch

end AutoTrade.Tools
