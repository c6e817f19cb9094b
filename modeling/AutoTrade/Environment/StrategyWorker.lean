import AutoTrade.Common.Amount
import AutoTrade.Environment.BarTable
import AutoTrade.Misc.Dict

/-!
# The strategy worker's bar stream

The container's end of the protocol: it keeps the bars it was sent, and takes a
message only when the message continues them.
-/

namespace AutoTrade

namespace StrategyProtocol

open Json JsonLines JsonObject

/-- What the contract of a strategy's context refuses. -/
inductive ContractError where
  | badAccount
  | badCash
  | badQuantity
  | emptySymbol
  | notString (name : String)
  | holdsNul (name : String)
  | notVisible
  deriving DecidableEq

/-- Share counts under symbols that are stripped and not empty. -/
structure Positions where
  quantities : Dict Text Nat
  named : ∀ symbol ∈ quantities.keys, stripText symbol = symbol ∧ symbol ≠ []

namespace Positions

def empty : Positions := ⟨.empty, by simp [Dict.keys]⟩

/-- `positions[symbol.strip()] = quantity`. -/
def set (positions : Positions) (symbol : Text) (filled : stripText symbol ≠ [])
    (quantity : Nat) : Positions :=
  ⟨positions.quantities.set (stripText symbol) quantity, fun name member => by
    rcases Dict.mem_keys_set.mp member with rfl | old
    · exact ⟨stripText_stripText symbol, filled⟩
    · exact positions.named name old⟩

end Positions

structure AccountSnapshot where
  cash : Amount
  positions : Positions

namespace AccountSnapshot

def toRecord (account : AccountSnapshot) : JsonObject :=
  ofFields [("cash", num account.cash.number),
    ("positions", obj (account.positions.quantities.entries.map fun entry =>
      (entry.1, num (.ofNat entry.2))))]

def readCash : Json → Except ContractError Amount
  | num n => if sign : n.isNegative = false then .ok ⟨n, sign⟩ else .error .badCash
  | _ => .error .badCash

def readQuantity : Json → Except ContractError Nat
  | num n => if n.isInt && !n.isNegative then .ok n.toNat else .error .badQuantity
  | _ => .error .badQuantity

def readPositions : Positions → JsonObject → Except ContractError Positions
  | positions, [] => .ok positions
  | positions, (symbol, value) :: rest => do
    let quantity ← readQuantity value
    if filled : stripText symbol ≠ [] then
      readPositions (positions.set symbol filled quantity) rest
    else .error .emptySymbol

/-- `AccountSnapshot.from_record` of an object. -/
def ofRecord (record : JsonObject) : Except ContractError AccountSnapshot := do
  if !record.hasExactly ["cash", "positions"] then throw .badAccount
  let positions ← match record.field "positions" with
    | some (obj fields) => pure fields
    | _ => throw .badAccount
  let cash ← readCash ((record.field "cash").getD null)
  return ⟨cash, ← readPositions .empty positions⟩

def fromRecord : Option Json → Except ContractError AccountSnapshot
  | some (obj record) => ofRecord record
  | _ => .error .badAccount

end AccountSnapshot

/-- What one strategy call is given: every bar is available at the decision. -/
structure StrategyContext (clock : DateTimes) where
  inferenceAt : Instant
  bars : List (BarRow clock)
  account : AccountSnapshot
  snapshotDir : Text
  asofDir : Text
  asofVersion : Text
  stateDir : Text
  modelsDir : Text
  pretrainedDir : Text
  visible : ∀ bar ∈ bars, bar.availableAt ≤ inferenceAt

inductive CallKind where
  | execute
  | fit
  deriving DecidableEq

/-- The keys of `CALL_REPLIES`. -/
def CallKind.name : CallKind → Text
  | execute => "execute".toList
  | fit => "fit".toList

def requestKeys : List String :=
  ["type", "sequence", "reset", "base_count", "total_count", "context", "bars"]

def contextKeys : List String :=
  ["inference_at", "account", "snapshot_dir", "asof_dir", "asof_version", "state_dir",
    "models_dir", "pretrained_dir"]

inductive ProtocolError where
  /-- The line does not decode. -/
  | badLine
  | notObject
  /-- Strategy defines no `fit(context)`. -/
  | noFit
  /-- Execute message has missing or unsupported fields. -/
  | requestFields
  | callType
  /-- `{name}` must be a non-negative integer. -/
  | badInteger (name : String)
  | badReset
  /-- Reset execute must start at sequence=0 and base_count=0. -/
  | resetNotAtStart
  /-- First execute message must reset the bar stream. -/
  | firstNotReset
  | sequenceNotContiguous
  /-- `base_count` does not match worker bar state. -/
  | baseCountMismatch
  | contextFields
  | badInferenceAt
  | inferenceNotLater
  | barsNotArray
  /-- `total_count` does not equal `base_count` plus delta. -/
  | totalCountMismatch
  | bar (error : BarError)
  | context (error : ContractError)
  deriving DecidableEq

/-- `_integer(message.get(name), name)`. -/
def integerAt (message : JsonObject) (name : String) : Except ProtocolError Nat :=
  match message.field name with
  | some (num n) => if n.isInt && !n.isNegative then .ok n.toNat else .error (.badInteger name)
  | _ => .error (.badInteger name)

/-- A string field of a context. -/
def contextText (record : JsonObject) (name : String) : Except ContractError Text :=
  match record.field name with
  | some (str t) => if '\x00' ∈ t then .error (.holdsNul name) else .ok t
  | _ => .error (.notString name)

/-- The context of a message over the bars it leaves. -/
def readContext {clock : DateTimes} (record : JsonObject) (inferenceAt : Instant)
    (bars : List (BarRow clock)) : Except ContractError (StrategyContext clock) := do
  let account ← AccountSnapshot.fromRecord (record.field "account")
  if visible : ∀ bar ∈ bars, bar.availableAt ≤ inferenceAt then
    let snapshotDir ← contextText record "snapshot_dir"
    let asofDir ← contextText record "asof_dir"
    let asofVersion ← contextText record "asof_version"
    let stateDir ← contextText record "state_dir"
    let modelsDir ← contextText record "models_dir"
    let pretrainedDir ← contextText record "pretrained_dir"
    return { inferenceAt, bars, account, snapshotDir, asofDir, asofVersion, stateDir, modelsDir,
             pretrainedDir, visible }
  else throw .notVisible

/-- The worker's append-only bars; `sequence` is none before the first message. -/
structure BarStream (clock : DateTimes) where
  table : List (BarRow clock) := []
  sequence : Option Nat := none
  inferenceAt : Option Instant := none

namespace BarStream

variable {clock : DateTimes}

/-- The table a message goes on from, and the decision before it. -/
def base (stream : BarStream clock) (reset : Bool) (sequence baseCount : Nat) :
    Except ProtocolError (List (BarRow clock) × Option Instant) :=
  if reset then
    if sequence ≠ 0 ∨ baseCount ≠ 0 then .error .resetNotAtStart else .ok ([], none)
  else match stream.sequence with
    | none => .error .firstNotReset
    | some last =>
      if sequence ≠ last + 1 then .error .sequenceNotContiguous
      else if baseCount ≠ stream.table.length then .error .baseCountMismatch
      else .ok (stream.table, stream.inferenceAt)

def readInferenceAt (clock : DateTimes) (record : JsonObject) : Except ProtocolError Instant :=
  match (record.textField "inference_at").bind clock.parse with
  | some inferenceAt => .ok inferenceAt
  | none => .error .badInferenceAt

def contextRecord (message : JsonObject) : Except ProtocolError JsonObject :=
  match message.field "context" with
  | some (obj record) => if hasExactly record contextKeys then .ok record else .error .contextFields
  | _ => .error .contextFields

def delta (message : JsonObject) : Except ProtocolError (List Json) :=
  match message.field "bars" with
  | some (arr bars) => .ok bars
  | _ => .error .barsNotArray

def resetFlag (message : JsonObject) : Except ProtocolError Bool :=
  match message.field "reset" with
  | some (.bool reset) => .ok reset
  | _ => .error .badReset

/-- `BarStream.context`: the context a message gives the strategy, and the stream
    it leaves; a message that is refused leaves the stream as it was. -/
def context (stream : BarStream clock) (message : JsonObject) :
    Except ProtocolError (StrategyContext clock × BarStream clock) := do
  if !message.hasExactly requestKeys then throw .requestFields
  if [CallKind.execute, CallKind.fit].all fun kind =>
    message.field "type" ≠ some (str kind.name) then throw .callType
  let sequence ← integerAt message "sequence"
  let baseCount ← integerAt message "base_count"
  let totalCount ← integerAt message "total_count"
  let reset ← resetFlag message
  let (table, previous) ← stream.base reset sequence baseCount
  let record ← contextRecord message
  let inferenceAt ← readInferenceAt clock record
  if previous.any fun before => inferenceAt ≤ before then throw .inferenceNotLater
  let bars ← delta message
  if totalCount ≠ baseCount + bars.length then throw .totalCountMismatch
  let table ← (extended table bars inferenceAt).mapError .bar
  let context ← (readContext record inferenceAt table).mapError .context
  return (context, { table, sequence := some sequence, inferenceAt := some inferenceAt })

end BarStream

/-- `Protocol.read`. -/
def readMessage (line : Text) : Except ProtocolError JsonObject :=
  match loads (line.takeWhile fun c => !isTextBreak c) with
  | none => .error .badLine
  | some (obj message) => .ok message
  | some _ => .error .notObject

def callKind (message : JsonObject) : Except ProtocolError CallKind :=
  if message.field "type" = some (str CallKind.execute.name) then .ok .execute
  else if message.field "type" = some (str CallKind.fit.name) then .ok .fit
  else .error .callType

/-- A turn of `run`, up to the strategy's own code. -/
def BarStream.receive {clock : DateTimes} (stream : BarStream clock) (definesFit : Bool)
    (line : Text) : Except ProtocolError (StrategyContext clock × BarStream clock) := do
  let message ← readMessage line
  let kind ← callKind message
  if kind = .fit ∧ definesFit = false then throw .noFit
  stream.context message

end StrategyProtocol

end AutoTrade
