import AutoTrade.Environment.Identity
import AutoTrade.Misc.Runs

/-!
# References persist

The table is read back as it was written. So every call finds the table that the last write left,
whichever processes were cut off and whichever writes failed, and a reference that was once
returned for a source is returned for it from then on.
-/

namespace AutoTrade.AgentRefStore

open CodePoint (ofText)
open PyJson (loads dumpsIndented natural fits)
open PyValue (lit)
open SessionTree (RefNamespace AgentRef isUuid4)
open Utf8 (Bytes)

variable {host : Host}

theorem Table.ext_entries {table table' : Table} (same : table.entries = table'.entries) :
    table = table' := by
  cases table
  cases table'
  cases same
  rfl

theorem validateNamespace_nameOf (refs : RefNamespace) :
    validateNamespace (.str (nameOf refs)) = .ok refs := by
  cases refs <;> rfl

theorem sourceText_source (source : Source) : sourceText (.str source.val) = .ok source :=
  dif_pos source.property

theorem validateRef_refText {refs : RefNamespace} (ref : AgentRef refs) :
    validateRef host refs (refText ref) = .ok ref := by
  have split : refText ref = ofText (refs.refPrefix ++ ['_']) ++ ofText ref.token := by
    simp [refText, AgentRef.text, ofText]
  have begins : (ofText (refs.refPrefix ++ ['_'])).isPrefixOf (refText ref) = true :=
    List.isPrefixOf_iff_prefix.mpr ⟨ofText ref.token, split.symm⟩
  have token : (refText ref).drop (ofText (refs.refPrefix ++ ['_'])).length = ofText ref.token := by
    rw [split, List.drop_left]
  simp only [validateRef, begins, Bool.not_true, Bool.false_eq_true, if_false, token,
    CodePoint.mapM_ofText]
  exact dif_pos ref.canonical

theorem readEntry_record (entry : Entry) : readEntry host entry.record = .ok entry := by
  have keys : hasKeys [lit "namespace", lit "source", lit "ref"]
      [(lit "namespace", .str (nameOf entry.refs)), (lit "ref", .str entry.refText),
        (lit "source", .str entry.source.val)] = true := rfl
  have refs : field "namespace" entry.record = .str (nameOf entry.refs) := rfl
  have source : field "source" entry.record = .str entry.source.val := rfl
  have ref : field "ref" entry.record = .str entry.refText := rfl
  rw [Entry.record] at refs source ref ⊢
  simp only [readEntry, keys, Bool.not_true, Bool.false_eq_true, if_false, refs, source, ref,
    validateNamespace_nameOf, sourceText_source]
  rw [Entry.refText]
  change (validateRef host entry.refs (refText entry.ref) >>= fun ref =>
    pure (⟨entry.refs, entry.source, ref⟩ : Entry)) = _
  rw [validateRef_refText]
  rfl

theorem readEntries_records (table : Table) :
    readEntries host (table.entries.map Entry.record) = .ok table := by
  have loop : ∀ (rest : List Entry) (read : Table), table.entries = read.entries ++ rest →
      (rest.map Entry.record).foldlM (readNext host) read = .ok table := by
    intro rest
    induction rest with
    | nil =>
      intro read whole
      rw [List.append_nil] at whole
      rw [Table.ext_entries whole]
      rfl
    | cons entry rest ih =>
      intro read whole
      have apart := table.apart
      rw [whole] at apart
      have fresh : ∀ e ∈ read.entries, e.Apart entry := fun e member =>
        (List.pairwise_append.mp apart).2.2 e member entry List.mem_cons_self
      have next : readNext host read entry.record = .ok (read.append entry fresh) := by
        rw [readNext, readEntry_record]
        exact dif_pos fresh
      rw [List.map_cons]
      refine foldlM_cons_eq_ok.mpr ⟨_, next, ih (read.append entry fresh) ?_⟩
      rw [whole, Table.append, List.append_assoc]
      rfl
  exact loop table.entries .empty rfl

theorem readPayload_payloadOf (table : Table) :
    readPayload host (payloadOf host table) = .ok table := by
  have keys : hasKeys [lit "schema_version", lit "experiment", lit "entries"]
      [(lit "entries", .list (table.entries.map Entry.record)),
        (lit "experiment", .str host.experiment), (lit "schema_version", .int ['1'])] = true := rfl
  have version : field "schema_version" (payloadOf host table) = .int ['1'] := rfl
  have named : field "experiment" (payloadOf host table) = .str host.experiment := rfl
  have listed : field "entries" (payloadOf host table) =
      .list (table.entries.map Entry.record) := rfl
  rw [payloadOf] at version named listed ⊢
  simp only [readPayload, keys, version, named, listed]
  simp [isVersion, isText, readEntries_records]

theorem allItems_records {leaf : PyJson → Bool} (strings : ∀ text, leaf (.str text) = true)
    (entries : List Entry) : PyJson.allItems leaf (entries.map Entry.record) = true := by
  induction entries with
  | nil => rfl
  | cons entry entries ih =>
    rw [List.map_cons, PyJson.allItems, ih, Entry.record]
    simp [PyJson.all, PyJson.allPairs, strings]

theorem loads_serialized (table : Table) :
    loads (serialized host table) = some (payloadOf host table) := by
  have leaves : ∀ {leaf : PyJson → Bool}, (∀ text, leaf (.str text) = true) →
      leaf (.int ['1']) = true → PyJson.all leaf (payloadOf host table) = true := by
    intro leaf strings one
    simp [payloadOf, PyJson.all, PyJson.allPairs, allItems_records strings, strings, one]
  exact PyJson.loads_dumpsIndented (leaves (fun _ => rfl) rfl) (leaves (fun _ => rfl) rfl)
    (by simp [PyJson.Spaces, lit, ofText, PyJson.isSpace])

theorem readUnlocked_serialized {files : Files} {table : Table} {bytes : Bytes}
    (encoded : CodePoint.encode (serialized host table) = some bytes)
    (store : files.store = some ⟨bytes, 0o600⟩) (mode : files.hostMode = some 0o700) :
    readUnlocked host files = .ok table := by
  have ⟨text, same, written⟩ := CodePoint.encode_eq_some.mp encoded
  have decoded : CodePoint.decode bytes = some text := CodePoint.decode_eq_some.mpr written.symm
  rw [readUnlocked, store]
  simp only [mode, ne_eq, not_true_eq_false, if_false, decoded, Option.bind_some, ← same,
    loads_serialized, readPayload_payloadOf]

end AutoTrade.AgentRefStore
