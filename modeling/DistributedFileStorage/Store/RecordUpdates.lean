import DistributedFileStorage.Relational.RowUpdates
import DistributedFileStorage.Store.RecordMapping

/-!
# The updates of the metadata store

The four operations that take a `Partial` record and build an `UPDATE`. Each goes through some of
the fields of its record, one by one. The type of the argument has all fields, and those that an
operation does not go through are passed over without an error.

A row is updated as asked, and nothing else is, exactly when no field is passed over that has a new
value, and no text is cut by its column (`updatesRecord_iff`).
-/

set_option autoImplicit false

namespace DistributedFileStorage.Store.RecordMapping

open Relational.Columns

/-! ## The operations -/

def updateFile : Update where
  mapping := fileMapping
  entries := [{ field := "fileName", column := "file_name" },
    { field := "currentVersion", column := "current_version" },
    { field := "totalSize", column := "total_size" },
    { field := "updatedAt", column := "updated_at" },
    { field := "retentionDays", column := "retention_days" }]
  keyColumn := "file_id"

def updateChunk : Update where
  mapping := chunkMapping
  entries := [{ field := "referenceCount", column := "reference_count" },
    { field := "lastVerified", column := "last_verified" }]
  keyColumn := "chunk_hash"

def updateStorageNode : Update where
  mapping := storageNodeMapping
  entries := [{ field := "usedSpace", column := "used_space" },
    { field := "status", column := "status" },
    { field := "lastHeartbeat", column := "last_heartbeat" }]
  keyColumn := "node_id"

def updateUploadSession : Update where
  mapping := uploadSessionMapping
  entries := [{ field := "status", column := "status" }]
  keyColumn := "session_id"

inductive UpdateOperation where
  | updateFile
  | updateChunk
  | updateStorageNode
  | updateUploadSession

namespace UpdateOperation

def update : UpdateOperation → Update
  | updateFile => RecordMapping.updateFile
  | updateChunk => RecordMapping.updateChunk
  | updateStorageNode => RecordMapping.updateStorageNode
  | updateUploadSession => RecordMapping.updateUploadSession

/-- The fields of the record that the operation passes over. -/
def passedOver : UpdateOperation → List String
  | updateFile => ["fileId", "ownerId", "createdAt"]
  | updateChunk => ["chunkHash", "size", "encryptedSize", "createdAt"]
  | updateStorageNode => ["nodeId", "ipAddress", "port", "availabilityZone", "region", "capacity",
      "registeredAt", "virtualNodeIds", "networkLatency"]
  | updateUploadSession => ["sessionId", "fileId", "fileName", "totalChunks", "userId", "createdAt",
      "expiresAt"]

/-- The lists of every operation fit together. -/
theorem sound_update (operation : UpdateOperation) : operation.update.Sound := by
  cases operation <;> decide +kernel

theorem filter_passedOver (operation : UpdateOperation) :
    (operation.update.mapping.fields.filter fun field =>
        field.name ∉ operation.update.entries.map UpdateEntry.field).map Field.name =
      operation.passedOver := by
  cases operation <;> decide +kernel

/-- The record has the values already that the operation passes over. -/
def HasPassedOver (operation : UpdateOperation) (updates old : Object) : Prop :=
  ∀ name ∈ operation.passedOver, updates name ≠ .undefined → (old name).Agrees (updates name)

instance (operation : UpdateOperation) (updates old : Object) :
    Decidable (operation.HasPassedOver updates old) :=
  inferInstanceAs (Decidable (∀ _ ∈ _, _))

theorem keepsOthers_iff (operation : UpdateOperation) (updates old : Object) :
    operation.update.KeepsOthers updates old ↔ operation.HasPassedOver updates old := by
  unfold HasPassedOver Update.KeepsOthers
  rw [← filter_passedOver]
  simp only [List.forall_mem_map, List.mem_filter, decide_eq_true_eq, and_imp]

end UpdateOperation

/-! ## What an update does -/

/-- **A row is updated as asked**, and every other field and row is as before, exactly when the
columns preserve the values, and the record has the values already that the operation passes over.
The placeholders match the values in every case. -/
theorem updatesRecord_iff (operation : UpdateOperation) (updates : Object) (key : String)
    {before after : Tables} {old : Object}
    (existing : operation.update.read (.text key) before = some old)
    (resolved : operation.update.run updates (.text key) before = .ok after) :
    (∀ query ∈ operation.update.query updates (.text key),
        operation.update.Matched updates (.text key) query) ∧
      (operation.update.Applies updates (.text key) before after ↔
        operation.update.Preserves updates ∧ operation.HasPassedOver updates old) := by
  refine ⟨Update.matched, ?_⟩
  rw [Update.applies_iff operation.sound_update existing resolved, operation.keepsOthers_iff]

/-- A new name, a new period of retention, and the owner that the file has. -/
def renamed : Object
  | "fileName" => .text "summary.txt"
  | "retentionDays" => .number 7
  | "ownerId" => .text "ana"
  | _ => .undefined

example : (updateFile.query renamed (.text notes.text)).map UpdateQuery.text =
    some "UPDATE files SET file_name = $1, retention_days = $2 WHERE file_id = $3" := by
  decide +kernel

/-- The file is updated as asked. -/
theorem updatesRecord_renamed :
    ∃ after, updateFile.run renamed (.text notes.text) reportTables = .ok after ∧
      updateFile.Applies renamed (.text notes.text) reportTables after := by
  have works : (updateFile.run renamed (.text notes.text) reportTables).toOption.isSome = true := by
    decide +kernel
  cases resolved : updateFile.run renamed (.text notes.text) reportTables with
  | error rejection =>
      rw [resolved] at works
      cases works
  | ok after =>
      refine ⟨after, rfl, ?_⟩
      exact (updatesRecord_iff .updateFile renamed notes.text rfl resolved).2.mpr
        ⟨by decide +kernel, by decide +kernel⟩

/-- A new owner. -/
def handedOver : Object
  | "ownerId" => .text "eve"
  | _ => .undefined

/-- **An update of the owner resolves and does nothing**: the file that is read afterwards has the
owner that it had. -/
theorem newOwner_isPassedOver :
    ∃ after, updateFile.run handedOver (.text notes.text) reportTables = .ok after ∧
      ((updateFile.read (.text notes.text) after).map fun file => file "ownerId") =
        some (.text "ana") ∧
      ¬ updateFile.Applies handedOver (.text notes.text) reportTables after := by
  have resolved : updateFile.run handedOver (.text notes.text) reportTables = .ok reportTables := rfl
  refine ⟨reportTables, resolved, by decide +kernel, fun applies => ?_⟩
  have passed :=
    ((Update.applies_iff UpdateOperation.updateFile.sound_update rfl resolved).mp applies).2
  exact absurd (passed { name := "ownerId", type := .text } (by decide +kernel) (by decide +kernel)
    (by decide +kernel)) (by decide +kernel)

end DistributedFileStorage.Store.RecordMapping
