import DistributedFileStorage.Relational.RowMapping
import DistributedFileStorage.Store.Database

/-!
# The statements and mappers of the metadata store

For each record of the interface: its fields, the table that `docker/init-db.sql` declares for it,
the `INSERT` of its operation with the parameters, and the mapper of its rows. All columns are named
in an `INSERT`, so that no default of a column is used. The interface gives an identifier as a text,
the column is one of UUIDs or has a number of characters.

A record is read back as it was stored exactly when it loses nothing and the columns preserve its
values (`recordFidelity_iff`). Two optional texts of a file version are written with `|| null`, which
takes the empty text for an absent one, and the latency of a storage node has neither a column nor an
entry in the mapper.

The records of `Database` are these records without the texts of their identifiers. What it has after
a record has been created is what the mapper makes of the row of the record (`agrees_getFile` and its
companions).
-/

set_option autoImplicit false

namespace DistributedFileStorage.Store.RecordMapping

open Relational Relational.Columns Encoding

/-! ## Files -/

/-- `FileRecord`. -/
def fileRecord : List Field :=
  [{ name := "fileId", type := .text }, { name := "fileName", type := .text },
    { name := "ownerId", type := .text }, { name := "currentVersion", type := .number },
    { name := "totalSize", type := .number }, { name := "createdAt", type := .date },
    { name := "updatedAt", type := .date }, { name := "retentionDays", type := .number }]

def files : Schema where
  name := "files"
  columns :=
    [{ name := "file_id", type := .uuid }, { name := "file_name", type := .varchar 255 },
      { name := "owner_id", type := .varchar 255 }, { name := "current_version", type := .integer },
      { name := "total_size", type := .bigint }, { name := "created_at", type := .timestamp },
      { name := "updated_at", type := .timestamp }, { name := "retention_days", type := .integer }]
  primaryKey := ["file_id"]

def mapToFileRecord : List Reader :=
  [{ field := "fileId", column := "file_id" }, { field := "fileName", column := "file_name" },
    { field := "ownerId", column := "owner_id" },
    { field := "currentVersion", column := "current_version" },
    { field := "totalSize", column := "total_size", parse := true },
    { field := "createdAt", column := "created_at" },
    { field := "updatedAt", column := "updated_at" },
    { field := "retentionDays", column := "retention_days" }]

/-- `createFile` and `getFile`. -/
def fileMapping : Mapping where
  schema := files
  fields := fileRecord
  columns := ["file_id", "file_name", "owner_id", "current_version", "total_size", "created_at",
    "updated_at", "retention_days"]
  parameters := [{ field := "fileId" }, { field := "fileName" }, { field := "ownerId" },
    { field := "currentVersion" }, { field := "totalSize" }, { field := "createdAt" },
    { field := "updatedAt" }, { field := "retentionDays" }]
  conditions := [("file_id", "fileId")]
  readers := mapToFileRecord

/-! ## File versions -/

/-- `FileVersionRecord`. -/
def fileVersionRecord : List Field :=
  [{ name := "fileId", type := .text }, { name := "version", type := .number },
    { name := "chunkHashes", type := .texts }, { name := "size", type := .number },
    { name := "createdAt", type := .date }, { name := "userId", type := .text },
    { name := "contentType", type := .text, optional := true },
    { name := "checksum", type := .text, optional := true }]

def fileVersions : Schema where
  name := "file_versions"
  columns :=
    [{ name := "file_id", type := .uuid }, { name := "version", type := .integer },
      { name := "chunk_hashes", type := .texts }, { name := "size", type := .bigint },
      { name := "created_at", type := .timestamp }, { name := "user_id", type := .varchar 255 },
      { name := "content_type", type := .varchar 100, nullable := true },
      { name := "checksum", type := .varchar 64, nullable := true }]
  primaryKey := ["file_id", "version"]
  foreignKeys := [{ column := "file_id", table := "files", references := "file_id" }]

def mapToFileVersionRecord : List Reader :=
  [{ field := "fileId", column := "file_id" }, { field := "version", column := "version" },
    { field := "chunkHashes", column := "chunk_hashes" },
    { field := "size", column := "size", parse := true },
    { field := "createdAt", column := "created_at" }, { field := "userId", column := "user_id" },
    { field := "contentType", column := "content_type" },
    { field := "checksum", column := "checksum" }]

/-- `createFileVersion` and `getFileVersion`. -/
def fileVersionMapping : Mapping where
  schema := fileVersions
  fields := fileVersionRecord
  columns := ["file_id", "version", "chunk_hashes", "size", "created_at", "user_id", "content_type",
    "checksum"]
  parameters := [{ field := "fileId" }, { field := "version" }, { field := "chunkHashes" },
    { field := "size" }, { field := "createdAt" }, { field := "userId" },
    { field := "contentType", orNull := true }, { field := "checksum", orNull := true }]
  conditions := [("file_id", "fileId"), ("version", "version")]
  readers := mapToFileVersionRecord

/-! ## Chunks -/

/-- `ChunkRecord`. -/
def chunkRecord : List Field :=
  [{ name := "chunkHash", type := .text }, { name := "size", type := .number },
    { name := "encryptedSize", type := .number }, { name := "referenceCount", type := .number },
    { name := "createdAt", type := .date },
    { name := "lastVerified", type := .date, optional := true }]

def chunks : Schema where
  name := "chunks"
  columns :=
    [{ name := "chunk_hash", type := .varchar 64 }, { name := "size", type := .integer },
      { name := "encrypted_size", type := .integer },
      { name := "reference_count", type := .integer }, { name := "created_at", type := .timestamp },
      { name := "last_verified", type := .timestamp, nullable := true }]
  primaryKey := ["chunk_hash"]

def mapToChunkRecord : List Reader :=
  [{ field := "chunkHash", column := "chunk_hash" }, { field := "size", column := "size" },
    { field := "encryptedSize", column := "encrypted_size" },
    { field := "referenceCount", column := "reference_count" },
    { field := "createdAt", column := "created_at" },
    { field := "lastVerified", column := "last_verified" }]

/-- `createChunk` and `getChunk`. -/
def chunkMapping : Mapping where
  schema := chunks
  fields := chunkRecord
  columns := ["chunk_hash", "size", "encrypted_size", "reference_count", "created_at",
    "last_verified"]
  parameters := [{ field := "chunkHash" }, { field := "size" }, { field := "encryptedSize" },
    { field := "referenceCount" }, { field := "createdAt" },
    { field := "lastVerified", orNull := true }]
  onConflict := .doNothing
  conditions := [("chunk_hash", "chunkHash")]
  readers := mapToChunkRecord

/-! ## Storage nodes -/

/-- `StorageNodeRecord`. -/
def storageNodeRecord : List Field :=
  [{ name := "nodeId", type := .text }, { name := "ipAddress", type := .text },
    { name := "port", type := .number }, { name := "availabilityZone", type := .text },
    { name := "region", type := .text }, { name := "capacity", type := .number },
    { name := "usedSpace", type := .number },
    { name := "status", type := .oneOf ["active", "draining", "offline"] },
    { name := "registeredAt", type := .date }, { name := "lastHeartbeat", type := .date },
    { name := "virtualNodeIds", type := .texts, optional := true },
    { name := "networkLatency", type := .number, optional := true }]

def storageNodes : Schema where
  name := "storage_nodes"
  columns :=
    [{ name := "node_id", type := .varchar 255 }, { name := "ip_address", type := .varchar 45 },
      { name := "port", type := .integer }, { name := "availability_zone", type := .varchar 100 },
      { name := "region", type := .varchar 100 }, { name := "capacity", type := .bigint },
      { name := "used_space", type := .bigint }, { name := "status", type := .varchar 20 },
      { name := "registered_at", type := .timestamp },
      { name := "last_heartbeat", type := .timestamp },
      { name := "virtual_node_ids", type := .texts, nullable := true }]
  primaryKey := ["node_id"]

def mapToStorageNodeRecord : List Reader :=
  [{ field := "nodeId", column := "node_id" }, { field := "ipAddress", column := "ip_address" },
    { field := "port", column := "port" },
    { field := "availabilityZone", column := "availability_zone" },
    { field := "region", column := "region" },
    { field := "capacity", column := "capacity", parse := true },
    { field := "usedSpace", column := "used_space", parse := true },
    { field := "status", column := "status" },
    { field := "registeredAt", column := "registered_at" },
    { field := "lastHeartbeat", column := "last_heartbeat" },
    { field := "virtualNodeIds", column := "virtual_node_ids" }]

/-- `registerStorageNode` and `getStorageNode`. -/
def storageNodeMapping : Mapping where
  schema := storageNodes
  fields := storageNodeRecord
  columns := ["node_id", "ip_address", "port", "availability_zone", "region", "capacity",
    "used_space", "status", "registered_at", "last_heartbeat", "virtual_node_ids"]
  parameters := [{ field := "nodeId" }, { field := "ipAddress" }, { field := "port" },
    { field := "availabilityZone" }, { field := "region" }, { field := "capacity" },
    { field := "usedSpace" }, { field := "status" }, { field := "registeredAt" },
    { field := "lastHeartbeat" }, { field := "virtualNodeIds", orNull := true }]
  onConflict := .doUpdate ["ip_address", "port", "availability_zone", "region", "capacity",
    "status", "last_heartbeat"]
  conditions := [("node_id", "nodeId")]
  readers := mapToStorageNodeRecord

/-! ## Upload sessions -/

/-- `UploadSessionRecord`. -/
def uploadSessionRecord : List Field :=
  [{ name := "sessionId", type := .text }, { name := "fileId", type := .text },
    { name := "fileName", type := .text }, { name := "totalChunks", type := .number },
    { name := "userId", type := .text }, { name := "createdAt", type := .date },
    { name := "expiresAt", type := .date },
    { name := "status", type := .oneOf ["active", "completed", "expired"] }]

def uploadSessions : Schema where
  name := "upload_sessions"
  columns :=
    [{ name := "session_id", type := .uuid }, { name := "file_id", type := .uuid },
      { name := "file_name", type := .varchar 255 }, { name := "total_chunks", type := .integer },
      { name := "user_id", type := .varchar 255 }, { name := "created_at", type := .timestamp },
      { name := "expires_at", type := .timestamp }, { name := "status", type := .varchar 20 }]
  primaryKey := ["session_id"]

def mapToUploadSessionRecord : List Reader :=
  [{ field := "sessionId", column := "session_id" }, { field := "fileId", column := "file_id" },
    { field := "fileName", column := "file_name" },
    { field := "totalChunks", column := "total_chunks" },
    { field := "userId", column := "user_id" }, { field := "createdAt", column := "created_at" },
    { field := "expiresAt", column := "expires_at" }, { field := "status", column := "status" }]

/-- `createUploadSession` and `getUploadSession`. -/
def uploadSessionMapping : Mapping where
  schema := uploadSessions
  fields := uploadSessionRecord
  columns := ["session_id", "file_id", "file_name", "total_chunks", "user_id", "created_at",
    "expires_at", "status"]
  parameters := [{ field := "sessionId" }, { field := "fileId" }, { field := "fileName" },
    { field := "totalChunks" }, { field := "userId" }, { field := "createdAt" },
    { field := "expiresAt" }, { field := "status" }]
  conditions := [("session_id", "sessionId")]
  readers := mapToUploadSessionRecord

/-! ## File permissions -/

/-- `FilePermissionRecord`. -/
def filePermissionRecord : List Field :=
  [{ name := "fileId", type := .text }, { name := "userId", type := .text },
    { name := "permission", type := .oneOf ["read", "write", "delete"] },
    { name := "grantedAt", type := .date }, { name := "grantedBy", type := .text }]

def filePermissions : Schema where
  name := "file_permissions"
  columns :=
    [{ name := "file_id", type := .uuid }, { name := "user_id", type := .varchar 255 },
      { name := "permission", type := .varchar 20 }, { name := "granted_at", type := .timestamp },
      { name := "granted_by", type := .varchar 255 }]
  primaryKey := ["file_id", "user_id"]
  foreignKeys := [{ column := "file_id", table := "files", references := "file_id" }]

def mapToFilePermissionRecord : List Reader :=
  [{ field := "fileId", column := "file_id" }, { field := "userId", column := "user_id" },
    { field := "permission", column := "permission" },
    { field := "grantedAt", column := "granted_at" },
    { field := "grantedBy", column := "granted_by" }]

/-- `grantPermission` and `getFilePermissions`, which reads all the rows of the file. -/
def filePermissionMapping : Mapping where
  schema := filePermissions
  fields := filePermissionRecord
  columns := ["file_id", "user_id", "permission", "granted_at", "granted_by"]
  parameters := [{ field := "fileId" }, { field := "userId" }, { field := "permission" },
    { field := "grantedAt" }, { field := "grantedBy" }]
  onConflict := .doUpdate ["permission", "granted_at", "granted_by"]
  conditions := [("file_id", "fileId")]
  single := false
  readers := mapToFilePermissionRecord

/-! ## All records -/

inductive RecordKind where
  | file
  | fileVersion
  | chunk
  | storageNode
  | uploadSession
  | filePermission

namespace RecordKind

def mapping : RecordKind → Mapping
  | file => fileMapping
  | fileVersion => fileVersionMapping
  | chunk => chunkMapping
  | storageNode => storageNodeMapping
  | uploadSession => uploadSessionMapping
  | filePermission => filePermissionMapping

/-- The record has no value that the store loses. -/
def LosesNothing : RecordKind → Object → Prop
  | fileVersion, version =>
      version "contentType" ≠ .text "" ∧ version "checksum" ≠ .text ""
  | storageNode, node => (node "networkLatency").isNullish = true
  | _, _ => True

/-- The lists of every record fit together. -/
theorem sound_mapping (kind : RecordKind) : kind.mapping.Sound := by
  cases kind <;> decide +kernel

/-- The fields with a value that is lost. -/
def losing : RecordKind → List Field
  | fileVersion => [{ name := "contentType", type := .text, optional := true },
      { name := "checksum", type := .text, optional := true }]
  | storageNode => [{ name := "networkLatency", type := .number, optional := true }]
  | _ => []

theorem filter_loses (kind : RecordKind) :
    kind.mapping.fields.filter kind.mapping.loses = kind.losing := by
  cases kind <;> decide +kernel

/-- No field is lost exactly when the record loses nothing. -/
theorem forall_keeps_iff_losesNothing (kind : RecordKind) {record : Object}
    (typed : kind.mapping.WellTyped record) :
    (∀ field ∈ kind.mapping.fields, kind.mapping.Keeps field (record field.name)) ↔
      kind.LosesNothing record := by
  rw [Mapping.forall_keeps_iff typed, filter_loses]
  cases kind with
  | fileVersion =>
      unfold losing LosesNothing
      rw [List.forall_mem_cons, List.forall_mem_singleton]
      refine and_congr (Mapping.keeps_text typed ?_ rfl ?_) (Mapping.keeps_text typed ?_ rfl ?_)
      all_goals decide +kernel
  | storageNode =>
      unfold losing LosesNothing
      rw [List.forall_mem_singleton]
      exact Mapping.keeps_of_isNone (by decide +kernel)
  | _ => exact iff_of_true (List.forall_mem_nil _) trivial

end RecordKind

/-! ## The records of the database -/

/-- The mapper makes the one object of the row of the other. -/
def RecordKind.Represents (kind : RecordKind) (given found : Object) : Prop :=
  ∃ row, kind.mapping.schema.rowOf (kind.mapping.assigned given) = some row ∧
    ∀ field ∈ kind.mapping.fields, (kind.mapping.decode row field.name).Agrees (found field.name)

/-- An object that loses nothing is represented by itself. -/
theorem RecordKind.represents_self {kind : RecordKind} {record : Object}
    (typed : kind.mapping.WellTyped record) (preserved : kind.mapping.Preserved record)
    (losesNothing : kind.LosesNothing record) : kind.Represents record record := by
  obtain ⟨row, made⟩ := Mapping.exists_row kind.sound_mapping typed preserved
  have keeps := (kind.forall_keeps_iff_losesNothing typed).mpr losesNothing
  exact ⟨row, made, fun field member => (Mapping.agrees_iff kind.sound_mapping member made typed).mpr
    ⟨keeps field member, preserved field member⟩⟩

def fileObject (file : FileRecord) : Object
  | "fileId" => .text file.fileId.text
  | "fileName" => .text file.fileName
  | "ownerId" => .text file.ownerId
  | "currentVersion" => .number file.currentVersion
  | "totalSize" => .number file.totalSize
  | "createdAt" => .date file.createdAt
  | "updatedAt" => .date file.updatedAt
  | "retentionDays" => .number file.retentionDays
  | _ => .undefined

/-- **The file that the database has after `createFile`** is the one that the mapper makes of its
row. -/
theorem agrees_getFile {db stored : Database} {file : FileRecord}
    (created : db.createFile file = .ok stored)
    (typed : fileMapping.WellTyped (fileObject file))
    (preserved : fileMapping.Preserved (fileObject file)) :
    ∃ found, stored.getFile file.fileId = some found ∧
      RecordKind.file.Represents (fileObject file) (fileObject found) := by
  obtain ⟨absent, _, _, rfl⟩ := Database.createFile_ok created
  exact ⟨file, Table.find?_insertIfAbsent_self absent,
    RecordKind.represents_self typed preserved trivial⟩

/-- The value of an optional text. -/
def optionalText : Option String → Value
  | none => .undefined
  | some value => .text value

def versionObject (version : FileVersionRecord) : Object
  | "fileId" => .text version.fileId.text
  | "version" => .number version.version
  | "chunkHashes" => .texts version.chunkHashes
  | "size" => .number version.size
  | "createdAt" => .date version.createdAt
  | "userId" => .text version.userId
  | "contentType" => optionalText version.contentType
  | "checksum" => optionalText version.checksum
  | _ => .undefined

/-- The version as the database keeps it. -/
def keptVersion (version : FileVersionRecord) : FileVersionRecord :=
  { version with
    contentType := orNull version.contentType
    checksum := orNull version.checksum }

theorem orNull_optionalText (value : Option String) :
    (optionalText (orNull value)).orNull = (optionalText value).orNull := by
  cases value with
  | none => rfl
  | some value =>
      by_cases empty : value = ""
      · rw [empty]
        rfl
      · unfold Store.orNull
        rw [Option.filter_some_pos (by simpa using empty)]

theorem optionalText_orNull_ne (value : Option String) :
    optionalText (orNull value) ≠ .text "" := by
  cases value with
  | none => nofun
  | some value =>
      by_cases empty : value = ""
      · rw [empty]
        nofun
      · unfold Store.orNull
        rw [Option.filter_some_pos (by simpa using empty)]
        exact fun same => empty (Value.text.inj same)

/-- An optional text that is kept is there, or it is absent. -/
theorem optionalText_orNull (value : Option String) :
    optionalText (orNull value) = .undefined ∨ optionalText (orNull value) = optionalText value := by
  cases value with
  | none => exact .inl rfl
  | some value =>
      unfold Store.orNull
      by_cases empty : value = ""
      · exact .inl (congrArg optionalText (Option.filter_some_neg (by simpa using empty)))
      · exact .inr (congrArg optionalText (Option.filter_some_pos (by simpa using empty)))

/-- Each field of the version that is kept is that of the version, or it is optional and absent. -/
theorem versionObject_keptVersion (version : FileVersionRecord) {field : Field}
    (member : field ∈ fileVersionRecord) :
    (field.optional = true ∧ versionObject (keptVersion version) field.name = .undefined) ∨
      versionObject (keptVersion version) field.name = versionObject version field.name := by
  simp only [fileVersionRecord, List.mem_cons, List.not_mem_nil, or_false] at member
  obtain rfl | rfl | rfl | rfl | rfl | rfl | rfl | rfl := member
  case inr.inr.inr.inr.inr.inr.inl =>
    exact (optionalText_orNull version.contentType).imp_left (And.intro rfl)
  case inr.inr.inr.inr.inr.inr.inr =>
    exact (optionalText_orNull version.checksum).imp_left (And.intro rfl)
  all_goals exact .inr rfl

/-- The version that is kept is assigned like the version itself. -/
theorem assigned_keptVersion (version : FileVersionRecord) :
    fileVersionMapping.assigned (versionObject (keptVersion version)) =
      fileVersionMapping.assigned (versionObject version) := by
  change List.zip _ [_, _, _, _, _, _, (optionalText (orNull version.contentType)).orNull,
    (optionalText (orNull version.checksum)).orNull] = _
  rw [orNull_optionalText, orNull_optionalText]
  rfl

/-- **The version that the database has after `createFileVersion`** is the one that the mapper makes
of the row of the version. -/
theorem agrees_getFileVersion {db stored : Database} {version : FileVersionRecord}
    (created : db.createFileVersion version = .ok stored)
    (typed : fileVersionMapping.WellTyped (versionObject version))
    (preserved : fileVersionMapping.Preserved (versionObject version)) :
    ∃ found, stored.getFileVersion version.fileId version.version = some found ∧
      RecordKind.fileVersion.Represents (versionObject version) (versionObject found) := by
  have typedKept : fileVersionMapping.WellTyped (versionObject (keptVersion version)) := by
    intro field member
    rcases versionObject_keptVersion version member with ⟨optional, absent⟩ | same
    · exact .inl ⟨optional, by rw [absent]; rfl⟩
    · rw [same]
      exact typed field member
  have preservedKept : fileVersionMapping.Preserved (versionObject (keptVersion version)) := by
    intro field member
    rcases versionObject_keptVersion version member with ⟨_, absent⟩ | same
    · rw [absent]
      exact Option.all_eq_true _ _ |>.mpr fun wire _ => ColumnType.preserves_of_isNullish rfl _
    · rw [same]
      exact preserved field member
  have represents : RecordKind.fileVersion.Represents (versionObject (keptVersion version))
      (versionObject (keptVersion version)) := RecordKind.represents_self typedKept preservedKept
    ⟨optionalText_orNull_ne version.contentType, optionalText_orNull_ne version.checksum⟩
  obtain ⟨row, made, agrees⟩ := represents
  refine ⟨keptVersion version, (Database.find?_createFileVersion created).2, row, ?_, agrees⟩
  exact (congrArg fileVersions.rowOf (assigned_keptVersion version)).symm.trans made

/-- The value of an optional time. -/
def optionalDate : Option Time → Value
  | none => .undefined
  | some time => .date time

def chunkObject (chunk : ChunkRecord) : Object
  | "chunkHash" => .text chunk.chunkHash
  | "size" => .number chunk.size
  | "encryptedSize" => .number chunk.encryptedSize
  | "referenceCount" => .number chunk.referenceCount
  | "createdAt" => .date chunk.createdAt
  | "lastVerified" => optionalDate chunk.lastVerified
  | _ => .undefined

/-- **The chunk that the database has after `createChunk`**, when there was none. -/
theorem agrees_getChunk {db : Database} {chunk : ChunkRecord}
    (absent : db.getChunk chunk.chunkHash = none)
    (typed : chunkMapping.WellTyped (chunkObject chunk))
    (preserved : chunkMapping.Preserved (chunkObject chunk)) :
    ∃ found, (db.createChunk chunk).getChunk chunk.chunkHash = some found ∧
      RecordKind.chunk.Represents (chunkObject chunk) (chunkObject found) :=
  ⟨chunk, Table.find?_insertIfAbsent_self (Table.find?_eq_none_iff.mp absent),
    RecordKind.represents_self typed preserved trivial⟩

def nodeStatus : NodeStatus → String
  | .active => "active"
  | .draining => "draining"
  | .offline => "offline"

def nodeObject (node : StorageNodeRecord) : Object
  | "nodeId" => .text node.nodeId
  | "ipAddress" => .text node.ipAddress
  | "port" => .number node.port
  | "availabilityZone" => .text node.availabilityZone
  | "region" => .text node.region
  | "capacity" => .number node.capacity
  | "usedSpace" => .number node.usedSpace
  | "status" => .text (nodeStatus node.status)
  | "registeredAt" => .date node.registeredAt
  | "lastHeartbeat" => .date node.lastHeartbeat
  | "virtualNodeIds" => node.virtualNodeIds.elim .undefined .texts
  | _ => .undefined

/-- **The node that the database has after `registerStorageNode`**, when there was none. -/
theorem agrees_getStorageNode {db : Database} {node : StorageNodeRecord}
    (absent : db.getStorageNode node.nodeId = none)
    (typed : storageNodeMapping.WellTyped (nodeObject node))
    (preserved : storageNodeMapping.Preserved (nodeObject node)) :
    ∃ found, (db.registerStorageNode node).getStorageNode node.nodeId = some found ∧
      RecordKind.storageNode.Represents (nodeObject node) (nodeObject found) := by
  have missing : node.nodeId ∉ db.storageNodes.keys := Table.find?_eq_none_iff.mp absent
  refine ⟨node, ?_, RecordKind.represents_self typed preserved rfl⟩
  unfold Database.registerStorageNode
  rw [if_neg missing]
  exact Table.find?_insertIfAbsent_self missing

def sessionStatus : SessionStatus → String
  | .active => "active"
  | .completed => "completed"
  | .expired => "expired"

def sessionObject (session : UploadSessionRecord) : Object
  | "sessionId" => .text session.sessionId.text
  | "fileId" => .text session.fileId.text
  | "fileName" => .text session.fileName
  | "totalChunks" => .number session.totalChunks
  | "userId" => .text session.userId
  | "createdAt" => .date session.createdAt
  | "expiresAt" => .date session.expiresAt
  | "status" => .text (sessionStatus session.status)
  | _ => .undefined

/-- **The session that the database has after `createUploadSession`.** -/
theorem agrees_getUploadSession {db stored : Database} {session : UploadSessionRecord}
    (created : db.createUploadSession session = .ok stored)
    (typed : uploadSessionMapping.WellTyped (sessionObject session))
    (preserved : uploadSessionMapping.Preserved (sessionObject session)) :
    ∃ found, stored.getUploadSession session.sessionId = some found ∧
      RecordKind.uploadSession.Represents (sessionObject session) (sessionObject found) := by
  unfold Database.createUploadSession at created
  split at created
  · cases created
  · rename_i absent
    obtain rfl := Except.ok.inj created
    exact ⟨session, Table.find?_insertIfAbsent_self absent,
      RecordKind.represents_self typed preserved trivial⟩

def permissionValue : Permission → String
  | .read => "read"
  | .write => "write"
  | .delete => "delete"

def permissionObject (permission : FilePermissionRecord) : Object
  | "fileId" => .text permission.fileId.text
  | "userId" => .text permission.userId
  | "permission" => .text (permissionValue permission.permission)
  | "grantedAt" => .date permission.grantedAt
  | "grantedBy" => .text permission.grantedBy
  | _ => .undefined

/-- **The row that the database has after `grantPermission`.** -/
theorem agrees_filePermission {db stored : Database} {permission : FilePermissionRecord}
    (granted : db.grantPermission permission = .ok stored)
    (typed : filePermissionMapping.WellTyped (permissionObject permission))
    (preserved : filePermissionMapping.Preserved (permissionObject permission)) :
    ∃ found, stored.filePermissions.find? permission.primaryKey = some found ∧
      RecordKind.filePermission.Represents (permissionObject permission)
        (permissionObject found) := by
  unfold Database.grantPermission at granted
  split at granted
  · obtain rfl := Except.ok.inj granted
    exact ⟨permission, Table.find?_upsert_self, RecordKind.represents_self typed preserved trivial⟩
  · cases granted

/-! ## Fidelity -/

/-- **A record is read back as it was stored**, whatever else is in the tables, exactly when it
loses nothing and the columns preserve its values: both optional texts of a file version are absent
or not empty, a storage node has no latency, each text is as short as its column is long and has no
character NUL, the identifiers of files and sessions are the canonical texts of UUIDs, and the times
are in the range of their columns. -/
theorem recordFidelity_iff (kind : RecordKind) (record : Object) (tables : Tables)
    (typed : kind.mapping.WellTyped record) (fresh : kind.mapping.Fresh record tables) :
    kind.mapping.ReadsBack record tables ↔
      kind.LosesNothing record ∧ kind.mapping.Preserved record := by
  rw [Mapping.readsBack_iff kind.sound_mapping typed fresh, kind.forall_keeps_iff_losesNothing typed]

/-- A file with its first version of the content type. -/
def reportFile : Object := fileObject
  { fileId := notes
    fileName := "report.txt"
    ownerId := "ana"
    currentVersion := 1
    totalSize := 12
    createdAt := 0
    updatedAt := 0
    retentionDays := 30 }

def reportVersion (contentType : String) : Object := versionObject
  { fileId := notes
    version := 1
    chunkHashes := ["c0"]
    size := 12
    createdAt := 0
    userId := "ana"
    contentType := some contentType }

def reportTables : Tables :=
  (fileMapping.insert reportFile fun _ => []).toOption.getD fun _ => []

/-- A version with a content type is read back. -/
theorem recordFidelity_plainText :
    fileVersionMapping.ReadsBack (reportVersion "text/plain") reportTables :=
  (recordFidelity_iff .fileVersion (reportVersion "text/plain") reportTables
    (by decide +kernel) (by decide +kernel)).mpr ⟨⟨by decide, by decide⟩, by decide +kernel⟩

/-- A version whose content type is the empty text is stored, and the content type of the version
that is read back is null. -/
theorem emptyContentType_isLost :
    (fileVersionMapping.WellTyped (reportVersion "") ∧
      fileVersionMapping.Fresh (reportVersion "") reportTables) ∧
      ((fileVersionMapping.insert (reportVersion "") reportTables).toOption.bind fun stored =>
        (fileVersionMapping.readOne (reportVersion "") stored).map fun version =>
          version "contentType") = some .null ∧
      ¬ fileVersionMapping.ReadsBack (reportVersion "") reportTables := by
  have typed : fileVersionMapping.WellTyped (reportVersion "") := by decide +kernel
  have fresh : fileVersionMapping.Fresh (reportVersion "") reportTables := by decide +kernel
  refine ⟨⟨typed, fresh⟩, by decide +kernel, fun same => ?_⟩
  have keeps := ((Mapping.readsBack_iff RecordKind.fileVersion.sound_mapping typed fresh).mp same).1
  have losesNothing := (RecordKind.fileVersion.forall_keeps_iff_losesNothing typed).mp keeps
  exact losesNothing.1 rfl

end DistributedFileStorage.Store.RecordMapping
