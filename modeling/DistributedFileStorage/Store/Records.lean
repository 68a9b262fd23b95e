import DistributedFileStorage.Encoding.Uuid
import DistributedFileStorage.Relational.Table

/-!
# The records of the metadata store

The rows of the tables that `docker/init-db.sql` declares, under the names of the
record interfaces. A date is a number of milliseconds since the epoch, numeric
columns are integers without a bound, and other texts than identifiers of files and
sessions are strings without a bound: a value that a column of PostgreSQL cannot hold
is an error of the statement, and counts as a failing call.

The columns of file and session identifiers are of the type `UUID`. An identifier is
the value of such a column: texts that spell one value are one identifier. The code
hands texts on to the store, which reads them (`Uuid.parse`) and refuses a statement
with any other text; where texts are also compared or kept, the models work with the
texts.
-/

set_option autoImplicit false

namespace DistributedFileStorage.Store

open Encoding

abbrev FileId := Uuid
abbrev UserId := String
abbrev ChunkHash := String
abbrev NodeId := String
abbrev SessionId := Uuid

/-- Two files and an upload session, for examples. -/
def notes : FileId := 0x6F9619FF8B86D011B42D00C04FC964FF

def draft : FileId := 0x3F2504E04F8911D39A0C0305E82C3301

def upload : SessionId := 0x9B2F04A1C7E54D0E8F6A1B2C3D4E5F60

/-- Milliseconds since the epoch. -/
abbrev Time := ℤ

/-- Milliseconds in a day, as the code spells it out. -/
def millisecondsPerDay : ℤ := 24 * 60 * 60 * 1000

/-- What a call or a function of the system can reject with. -/
inductive Failure where
  | uniqueViolation (constraint : String)
  | foreignKeyViolation (constraint : String)
  /-- A file system error with the code `ENOENT`. -/
  | noEntry
  /-- `new Error(message)`. -/
  | error (message : String)
  /-- The service behind a call did not answer, or failed in itself. -/
  | unavailable
  deriving DecidableEq

/-- The `message` of the error object. -/
def Failure.message : Failure → String
  | .uniqueViolation constraint =>
      s!"duplicate key value violates unique constraint \"{constraint}\""
  | .foreignKeyViolation constraint =>
      s!"insert or update violates foreign key constraint \"{constraint}\""
  | .noEntry => "ENOENT: no such file or directory"
  | .error message => message
  | .unavailable => "unavailable"

structure FileRecord where
  fileId : FileId
  fileName : String
  ownerId : UserId
  currentVersion : ℤ
  totalSize : ℕ
  createdAt : Time
  updatedAt : Time
  retentionDays : ℤ
  deriving DecidableEq

/-- The fields of a `Partial<FileRecord>` that an update of a file reads. -/
structure FileUpdate where
  fileName : Option String := none
  currentVersion : Option ℤ := none
  totalSize : Option ℕ := none
  updatedAt : Option Time := none
  retentionDays : Option ℤ := none

/-- `SET` the columns that the update names. -/
def FileUpdate.apply (update : FileUpdate) (file : FileRecord) : FileRecord :=
  { file with
    fileName := update.fileName.getD file.fileName
    currentVersion := update.currentVersion.getD file.currentVersion
    totalSize := update.totalSize.getD file.totalSize
    updatedAt := update.updatedAt.getD file.updatedAt
    retentionDays := update.retentionDays.getD file.retentionDays }

@[simp] theorem FileUpdate.fileId_apply (update : FileUpdate) (file : FileRecord) :
    (update.apply file).fileId = file.fileId := rfl

structure FileVersionRecord where
  fileId : FileId
  version : ℤ
  chunkHashes : List ChunkHash
  size : ℕ
  createdAt : Time
  userId : UserId
  contentType : Option String := none
  checksum : Option String := none
  deriving DecidableEq

/-- `PRIMARY KEY (file_id, version)`. -/
def FileVersionRecord.primaryKey (version : FileVersionRecord) : FileId × ℤ :=
  (version.fileId, version.version)

structure ChunkRecord where
  chunkHash : ChunkHash
  size : ℕ
  encryptedSize : ℕ
  referenceCount : ℤ
  createdAt : Time
  lastVerified : Option Time := none
  deriving DecidableEq

structure ChunkReplicaRecord where
  chunkHash : ChunkHash
  nodeId : NodeId
  availabilityZone : String
  createdAt : Time
  deriving DecidableEq

/-- `PRIMARY KEY (chunk_hash, node_id)`. -/
def ChunkReplicaRecord.primaryKey (replica : ChunkReplicaRecord) : ChunkHash × NodeId :=
  (replica.chunkHash, replica.nodeId)

inductive NodeStatus where
  | active
  | draining
  | offline
  deriving DecidableEq

structure StorageNodeRecord where
  nodeId : NodeId
  ipAddress : String
  port : ℕ
  availabilityZone : String
  region : String
  capacity : ℕ
  usedSpace : ℕ
  status : NodeStatus
  registeredAt : Time
  lastHeartbeat : Time
  virtualNodeIds : Option (List String) := none
  deriving DecidableEq

/-- The fields of `Partial<StorageNodeRecord>` that `updateStorageNode` looks at. -/
structure StorageNodeUpdate where
  usedSpace : Option ℕ := none
  status : Option NodeStatus := none
  lastHeartbeat : Option Time := none

namespace StorageNodeRecord

def updated (updates : StorageNodeUpdate) (node : StorageNodeRecord) : StorageNodeRecord :=
  { node with
    usedSpace := updates.usedSpace.getD node.usedSpace
    status := updates.status.getD node.status
    lastHeartbeat := updates.lastHeartbeat.getD node.lastHeartbeat }

@[simp] theorem nodeId_updated (updates : StorageNodeUpdate) (node : StorageNodeRecord) :
    (node.updated updates).nodeId = node.nodeId := rfl

/-- `ON CONFLICT (node_id) DO UPDATE`: what a registration changes of a row. -/
def registered (node old : StorageNodeRecord) : StorageNodeRecord :=
  { old with
    ipAddress := node.ipAddress
    port := node.port
    availabilityZone := node.availabilityZone
    region := node.region
    capacity := node.capacity
    status := node.status
    lastHeartbeat := node.lastHeartbeat }

@[simp] theorem nodeId_registered (node old : StorageNodeRecord) :
    (node.registered old).nodeId = old.nodeId := rfl

end StorageNodeRecord

inductive SessionStatus where
  | active
  | completed
  | expired
  deriving DecidableEq

structure UploadSessionRecord where
  sessionId : SessionId
  fileId : FileId
  fileName : String
  totalChunks : ℤ
  userId : UserId
  createdAt : Time
  expiresAt : Time
  status : SessionStatus
  deriving DecidableEq

/-- `SET status = $1`. -/
def UploadSessionRecord.setStatus (status : SessionStatus) (session : UploadSessionRecord) :
    UploadSessionRecord := { session with status := status }

@[simp] theorem UploadSessionRecord.sessionId_setStatus (status : SessionStatus)
    (session : UploadSessionRecord) : (session.setStatus status).sessionId = session.sessionId :=
  rfl

structure UploadedChunkRecord where
  sessionId : SessionId
  sequenceNumber : ℤ
  chunkHash : ChunkHash
  uploadedAt : Time
  deriving DecidableEq

/-- `PRIMARY KEY (session_id, sequence_number)`. -/
def UploadedChunkRecord.primaryKey (chunk : UploadedChunkRecord) : SessionId × ℤ :=
  (chunk.sessionId, chunk.sequenceNumber)

/-- The permissions that a row of `file_permissions` can give. -/
inductive Permission where
  | read
  | write
  | delete
  deriving DecidableEq

structure FilePermissionRecord where
  fileId : FileId
  userId : UserId
  permission : Permission
  grantedAt : Time
  grantedBy : UserId
  deriving DecidableEq

/-- `PRIMARY KEY (file_id, user_id)`. -/
def FilePermissionRecord.primaryKey (permission : FilePermissionRecord) : FileId × UserId :=
  (permission.fileId, permission.userId)

/-- A column written as `value || null`: the empty string becomes null. -/
def orNull (value : Option String) : Option String := value.filter fun text => text ≠ ""

end DistributedFileStorage.Store
