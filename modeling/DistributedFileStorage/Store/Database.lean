import DistributedFileStorage.Relational.Ordering
import DistributedFileStorage.Store.Records

/-!
# The metadata database

The state of the PostgreSQL database: its tables, with the foreign keys of
`docker/init-db.sql` as fields. A database that violates a primary key or a
foreign key cannot be built, so a statement that would violate one has to be
rejected by the definition of the statement.

Each statement of `metadata-store.ts` is one definition, under the name of the
method that issues it. A statement that can violate a constraint settles to the
database it leaves or to the violated constraint; the others just give the
database they leave.
-/

set_option autoImplicit false

namespace DistributedFileStorage.Store

open Relational

@[ext] structure Database where
  files : Table FileRecord.fileId
  fileVersions : Table FileVersionRecord.primaryKey
  chunks : Table ChunkRecord.chunkHash
  storageNodes : Table StorageNodeRecord.nodeId
  chunkReplicas : Table ChunkReplicaRecord.primaryKey
  uploadSessions : Table UploadSessionRecord.sessionId
  uploadedChunks : Table UploadedChunkRecord.primaryKey
  filePermissions : Table FilePermissionRecord.primaryKey
  versionFile : ∀ version ∈ fileVersions.rows, version.fileId ∈ files.keys
  replicaChunk : ∀ replica ∈ chunkReplicas.rows, replica.chunkHash ∈ chunks.keys
  replicaNode : ∀ replica ∈ chunkReplicas.rows, replica.nodeId ∈ storageNodes.keys
  uploadedSession : ∀ chunk ∈ uploadedChunks.rows, chunk.sessionId ∈ uploadSessions.keys
  permissionFile : ∀ permission ∈ filePermissions.rows, permission.fileId ∈ files.keys

namespace Database

/-- The database right after `init-db.sql`. -/
def empty : Database where
  files := .empty _
  fileVersions := .empty _
  chunks := .empty _
  storageNodes := .empty _
  chunkReplicas := .empty _
  uploadSessions := .empty _
  uploadedChunks := .empty _
  filePermissions := .empty _
  versionFile := by simp
  replicaChunk := by simp
  replicaNode := by simp
  uploadedSession := by simp
  permissionFile := by simp

/-- A database with one file and nothing else. -/
def ofFile (file : FileRecord) : Database :=
  { empty with
    files := (Table.empty _).insertIfAbsent file
    versionFile := by simp [empty]
    permissionFile := by simp [empty] }

variable (db : Database)

/-! ## Files -/

/-- `INSERT INTO files`. -/
def createFile (file : FileRecord) : Except Failure Database :=
  if file.fileId ∈ db.files.keys then .error (.uniqueViolation "files_pkey")
  else
    .ok { db with
      files := db.files.insertIfAbsent file
      versionFile := fun version member =>
        Table.mem_keys_insertIfAbsent.mpr (.inl (db.versionFile version member))
      permissionFile := fun permission member =>
        Table.mem_keys_insertIfAbsent.mpr (.inl (db.permissionFile permission member)) }

omit db in
/-- What an accepted file changes. -/
theorem createFile_ok {db stored : Database} {file : FileRecord}
    (created : db.createFile file = .ok stored) :
    file.fileId ∉ db.files.keys ∧ ∃ versionFile permissionFile, stored =
      { db with
        files := db.files.insertIfAbsent file
        versionFile := versionFile
        permissionFile := permissionFile } := by
  unfold createFile at created
  split at created
  · cases created
  · rename_i absent
    exact ⟨absent, _, _, (Except.ok.inj created).symm⟩

omit db in
/-- A file whose key is new is accepted. -/
theorem exists_createFile {db : Database} {file : FileRecord}
    (absent : file.fileId ∉ db.files.keys) :
    ∃ stored, db.createFile file = .ok stored := by
  unfold createFile
  rw [if_neg absent]
  exact ⟨_, rfl⟩

/-- `SELECT * FROM files WHERE file_id = $1`. -/
def getFile (fileId : FileId) : Option FileRecord := db.files.find? fileId

/-- `UPDATE files SET ... WHERE file_id = $n`. -/
def updateFile (fileId : FileId) (updates : FileUpdate) : Database :=
  { db with
    files := db.files.update fileId updates.apply updates.fileId_apply
    versionFile := fun version member => by
      rw [Table.keys_update]
      exact db.versionFile version member
    permissionFile := fun permission member => by
      rw [Table.keys_update]
      exact db.permissionFile permission member }

/-- `DELETE FROM files WHERE file_id = $1`, with the cascades to `file_versions` and
`file_permissions`. -/
def deleteFile (fileId : FileId) : Database :=
  { db with
    files := db.files.delete fileId
    fileVersions := db.fileVersions.deleteWhere fun version => version.fileId = fileId
    filePermissions := db.filePermissions.deleteWhere fun permission => permission.fileId = fileId
    versionFile := fun version member => by
      obtain ⟨old, kept⟩ := Table.mem_deleteWhere.mp member
      exact Table.mem_keys_delete.mpr ⟨db.versionFile version old, by simpa using kept⟩
    permissionFile := fun permission member => by
      obtain ⟨old, kept⟩ := Table.mem_deleteWhere.mp member
      exact Table.mem_keys_delete.mpr ⟨db.permissionFile permission old, by simpa using kept⟩ }

/-! ## Versions of files -/

/-- `INSERT INTO file_versions`. -/
def createFileVersion (version : FileVersionRecord) : Except Failure Database :=
  if version.primaryKey ∈ db.fileVersions.keys then
    .error (.uniqueViolation "file_versions_pkey")
  else if present : version.fileId ∈ db.files.keys then
    .ok { db with
      fileVersions := db.fileVersions.insertIfAbsent
        { version with
          contentType := orNull version.contentType
          checksum := orNull version.checksum }
      versionFile := fun other member => by
        rcases Table.mem_insertIfAbsent.mp member with old | ⟨_, rfl⟩
        · exact db.versionFile other old
        · exact present }
  else .error (.foreignKeyViolation "file_versions_file_id_fkey")

omit db in
/-- What an accepted version changes. -/
theorem createFileVersion_ok {db stored : Database} {version : FileVersionRecord}
    (created : db.createFileVersion version = .ok stored) :
    version.primaryKey ∉ db.fileVersions.keys ∧ ∃ versionFile, stored =
      { db with
        fileVersions := db.fileVersions.insertIfAbsent
          { version with
            contentType := orNull version.contentType
            checksum := orNull version.checksum }
        versionFile := versionFile } := by
  unfold createFileVersion at created
  split at created
  · cases created
  · rename_i absent
    split at created
    · exact ⟨absent, _, (Except.ok.inj created).symm⟩
    · cases created

omit db in
/-- A row whose key is new and whose file exists is accepted. -/
theorem exists_createFileVersion {db : Database} {version : FileVersionRecord}
    (absent : version.primaryKey ∉ db.fileVersions.keys)
    (present : version.fileId ∈ db.files.keys) :
    ∃ stored, db.createFileVersion version = .ok stored := by
  unfold createFileVersion
  rw [if_neg absent, dif_pos present]
  exact ⟨_, rfl⟩

omit db in
/-- An accepted version is found afterwards, and was not there before. -/
theorem find?_createFileVersion {db stored : Database} {version : FileVersionRecord}
    (created : db.createFileVersion version = .ok stored) :
    db.fileVersions.find? version.primaryKey = none ∧
      stored.fileVersions.find? version.primaryKey = some
        { version with
          contentType := orNull version.contentType
          checksum := orNull version.checksum } := by
  obtain ⟨absent, _, rfl⟩ := createFileVersion_ok created
  let row : FileVersionRecord :=
    { version with
      contentType := orNull version.contentType
      checksum := orNull version.checksum }
  have fresh : row.primaryKey ∉ db.fileVersions.keys := absent
  exact ⟨Table.find?_eq_none_iff.mpr absent, Table.find?_insertIfAbsent_self fresh⟩

/-- `SELECT * FROM file_versions WHERE file_id = $1 AND version = $2`. -/
def getFileVersion (fileId : FileId) (version : ℤ) : Option FileVersionRecord :=
  db.fileVersions.find? (fileId, version)

/-- `SELECT * FROM file_versions WHERE file_id = $1 ORDER BY version DESC`. -/
def listFileVersions (fileId : FileId) : List FileVersionRecord :=
  orderByDesc FileVersionRecord.version
    (db.fileVersions.rows.filter fun version => version.fileId = fileId)

/-- `DELETE FROM file_versions WHERE file_id = $1 AND version = $2`. -/
def deleteFileVersion (fileId : FileId) (version : ℤ) : Database :=
  { db with
    fileVersions := db.fileVersions.delete (fileId, version)
    versionFile := fun other member => db.versionFile other (Table.mem_delete.mp member).1 }

/-! ## Chunks -/

/-- `INSERT INTO chunks ... ON CONFLICT (chunk_hash) DO NOTHING`. -/
def createChunk (chunk : ChunkRecord) : Database :=
  { db with
    chunks := db.chunks.insertIfAbsent chunk
    replicaChunk := fun replica member =>
      Table.mem_keys_insertIfAbsent.mpr (.inl (db.replicaChunk replica member)) }

/-- `SELECT * FROM chunks WHERE chunk_hash = $1`. -/
def getChunk (chunkHash : ChunkHash) : Option ChunkRecord := db.chunks.find? chunkHash

/-- Change rows of `chunks` without changing their hashes. -/
def changeChunks (change : ChunkRecord → ChunkRecord)
    (keeps : ∀ chunk, (change chunk).chunkHash = chunk.chunkHash) : Database :=
  { db with
    chunks := db.chunks.mapRows change keeps
    replicaChunk := fun replica member => by
      rw [Table.keys_mapRows]
      exact db.replicaChunk replica member }

/-- Add an amount to the reference count of one chunk. -/
def addReferences (chunkHash : ChunkHash) (amount : ℤ) (chunk : ChunkRecord) : ChunkRecord :=
  if chunk.chunkHash = chunkHash then
    { chunk with referenceCount := chunk.referenceCount + amount }
  else chunk

theorem chunkHash_addReferences (chunkHash : ChunkHash) (amount : ℤ) (chunk : ChunkRecord) :
    (addReferences chunkHash amount chunk).chunkHash = chunk.chunkHash := by
  unfold addReferences
  split <;> rfl

/-- `UPDATE chunks SET reference_count = reference_count + 1 WHERE chunk_hash = $1`. -/
def incrementChunkReference (chunkHash : ChunkHash) : Database :=
  db.changeChunks (addReferences chunkHash 1) (chunkHash_addReferences chunkHash 1)

/-- `UPDATE chunks SET reference_count = reference_count - 1 WHERE chunk_hash = $1`. -/
def decrementChunkReference (chunkHash : ChunkHash) : Database :=
  db.changeChunks (addReferences chunkHash (-1)) (chunkHash_addReferences chunkHash (-1))

/-- `DELETE FROM chunks WHERE chunk_hash = $1`, with the cascade to
`chunk_replicas`. -/
def deleteChunk (chunkHash : ChunkHash) : Database :=
  { db with
    chunks := db.chunks.delete chunkHash
    chunkReplicas := db.chunkReplicas.deleteWhere fun replica => replica.chunkHash = chunkHash
    replicaChunk := fun replica member => by
      obtain ⟨old, kept⟩ := Table.mem_deleteWhere.mp member
      exact Table.mem_keys_delete.mpr ⟨db.replicaChunk replica old, by simpa using kept⟩
    replicaNode := fun replica member =>
      db.replicaNode replica (Table.mem_deleteWhere.mp member).1 }

/-- `SELECT chunk_hash FROM chunks WHERE reference_count = 0`. -/
def getOrphanedChunks : List ChunkHash :=
  (db.chunks.rows.filter fun chunk => chunk.referenceCount = 0).map ChunkRecord.chunkHash

/-! ## Replicas of chunks -/

/-- `INSERT INTO chunk_replicas ... ON CONFLICT (chunk_hash, node_id) DO NOTHING`. -/
def createChunkReplica (replica : ChunkReplicaRecord) : Except Failure Database :=
  if presentChunk : replica.chunkHash ∈ db.chunks.keys then
    if presentNode : replica.nodeId ∈ db.storageNodes.keys then
      .ok { db with
        chunkReplicas := db.chunkReplicas.insertIfAbsent replica
        replicaChunk := fun other member => by
          rcases Table.mem_insertIfAbsent.mp member with old | ⟨_, rfl⟩
          · exact db.replicaChunk other old
          · exact presentChunk
        replicaNode := fun other member => by
          rcases Table.mem_insertIfAbsent.mp member with old | ⟨_, rfl⟩
          · exact db.replicaNode other old
          · exact presentNode }
    else .error (.foreignKeyViolation "chunk_replicas_node_id_fkey")
  else .error (.foreignKeyViolation "chunk_replicas_chunk_hash_fkey")

theorem chunkReplicas_createChunkReplica {db created : Database} {replica : ChunkReplicaRecord}
    (done : db.createChunkReplica replica = .ok created) :
    created.chunkReplicas = db.chunkReplicas.insertIfAbsent replica := by
  unfold createChunkReplica at done
  split at done
  · split at done
    · rw [← Except.ok.inj done]
    · cases done
  · cases done

/-- A replica row can be inserted exactly when its chunk and its node have rows. -/
theorem exists_createChunkReplica_iff {db : Database} {replica : ChunkReplicaRecord} :
    (∃ created, db.createChunkReplica replica = .ok created) ↔
      replica.chunkHash ∈ db.chunks.keys ∧ replica.nodeId ∈ db.storageNodes.keys := by
  unfold createChunkReplica
  split
  · rename_i chunk
    split
    · rename_i node
      exact iff_of_true ⟨_, rfl⟩ ⟨chunk, node⟩
    · rename_i absent
      exact iff_of_false nofun fun present => absent present.2
  · rename_i absent
    exact iff_of_false nofun fun present => absent present.1

/-- Inserting a replica row changes no other table. -/
theorem tables_createChunkReplica {db created : Database} {replica : ChunkReplicaRecord}
    (done : db.createChunkReplica replica = .ok created) :
    created.chunks = db.chunks ∧ created.storageNodes = db.storageNodes := by
  unfold createChunkReplica at done
  split at done
  · split at done
    · rw [← Except.ok.inj done]
      exact ⟨rfl, rfl⟩
    · cases done
  · cases done

/-- `SELECT * FROM chunk_replicas WHERE chunk_hash = $1`. -/
def getChunkReplicas (chunkHash : ChunkHash) : List ChunkReplicaRecord :=
  db.chunkReplicas.rows.filter fun replica => replica.chunkHash = chunkHash

/-- `DELETE FROM chunk_replicas WHERE chunk_hash = $1 AND node_id = $2`. -/
def deleteChunkReplica (chunkHash : ChunkHash) (nodeId : NodeId) : Database :=
  { db with
    chunkReplicas := db.chunkReplicas.delete (chunkHash, nodeId)
    replicaChunk := fun replica member => db.replicaChunk replica (Table.mem_delete.mp member).1
    replicaNode := fun replica member => db.replicaNode replica (Table.mem_delete.mp member).1 }

variable {db}

theorem mem_getChunkReplicas {chunkHash : ChunkHash} {replica : ChunkReplicaRecord} :
    replica ∈ db.getChunkReplicas chunkHash ↔
      replica ∈ db.chunkReplicas.rows ∧ replica.chunkHash = chunkHash := by
  simp [getChunkReplicas]

/-- The replicas of a chunk are on distinct nodes. -/
theorem nodup_getChunkReplicas (chunkHash : ChunkHash) :
    ((db.getChunkReplicas chunkHash).map ChunkReplicaRecord.nodeId).Nodup := by
  have keys : ((db.getChunkReplicas chunkHash).map ChunkReplicaRecord.primaryKey).Nodup :=
    db.chunkReplicas.distinct.sublist (List.filter_sublist.map _)
  refine (List.nodup_map_iff_inj_on keys.of_map).mpr fun first here second there same => ?_
  refine List.inj_on_of_nodup_map keys here there ?_
  have hashes := (mem_getChunkReplicas.mp here).2.trans (mem_getChunkReplicas.mp there).2.symm
  exact Prod.ext hashes same

theorem mem_keys_chunkReplicas {chunkHash : ChunkHash} {nodeId : NodeId} :
    (chunkHash, nodeId) ∈ db.chunkReplicas.keys ↔
      ∃ replica ∈ db.getChunkReplicas chunkHash, replica.nodeId = nodeId := by
  rw [Table.mem_keys]
  constructor
  · rintro ⟨replica, member, same⟩
    obtain ⟨hash, node⟩ := Prod.mk.inj same
    exact ⟨replica, mem_getChunkReplicas.mpr ⟨member, hash⟩, node⟩
  · rintro ⟨replica, member, rfl⟩
    obtain ⟨present, rfl⟩ := mem_getChunkReplicas.mp member
    exact ⟨replica, present, rfl⟩

theorem getChunkReplicas_deleteChunkReplica (chunkHash other : ChunkHash) (nodeId : NodeId) :
    (db.deleteChunkReplica chunkHash nodeId).getChunkReplicas other =
      (db.getChunkReplicas other).filter fun replica =>
        ¬ (other = chunkHash ∧ replica.nodeId = nodeId) := by
  unfold getChunkReplicas
  show ((db.chunkReplicas.delete (chunkHash, nodeId)).rows.filter _) = _
  rw [Table.delete, Table.deleteWhere, List.filter_filter, List.filter_filter]
  refine List.filter_congr fun replica _ => ?_
  by_cases here : replica.chunkHash = other
  · subst here
    simp [ChunkReplicaRecord.primaryKey, Prod.ext_iff]
  · simp [here]

/-- A new replica row is the last one of its chunk. -/
theorem getChunkReplicas_createChunkReplica {created : Database} {replica : ChunkReplicaRecord}
    (done : db.createChunkReplica replica = .ok created)
    (absent : replica.primaryKey ∉ db.chunkReplicas.keys) (other : ChunkHash) :
    created.getChunkReplicas other =
      db.getChunkReplicas other ++ if other = replica.chunkHash then [replica] else [] := by
  unfold getChunkReplicas
  rw [chunkReplicas_createChunkReplica done, Table.rows_insertIfAbsent absent, List.filter_append]
  congr 1
  by_cases here : other = replica.chunkHash
  · simp [here]
  · simp [here, Ne.symm here]

variable (db)

/-! ## Storage nodes -/

/-- `SELECT * FROM storage_nodes WHERE node_id = $1`. -/
def getStorageNode (nodeId : NodeId) : Option StorageNodeRecord := db.storageNodes.find? nodeId

/-- `SELECT * FROM storage_nodes WHERE status = $1 ORDER BY node_id`, without the `WHERE` when no
status is given. -/
def listStorageNodes (status : Option NodeStatus) : List StorageNodeRecord :=
  (db.storageNodes.rows.filter fun node => status.all (node.status = ·)).insertionSort
    fun first second => first.nodeId ≤ second.nodeId

/-- `INSERT INTO storage_nodes ... ON CONFLICT (node_id) DO UPDATE`. -/
def registerStorageNode (node : StorageNodeRecord) : Database :=
  if node.nodeId ∈ db.storageNodes.keys then
    { db with
      storageNodes := db.storageNodes.update node.nodeId node.registered node.nodeId_registered
      replicaNode := fun replica member => by
        rw [Table.keys_update]
        exact db.replicaNode replica member }
  else
    { db with
      storageNodes := db.storageNodes.insertIfAbsent node
      replicaNode := fun replica member =>
        Table.mem_keys_insertIfAbsent.mpr (.inl (db.replicaNode replica member)) }

/-- `UPDATE storage_nodes` with the fields that are given. -/
def updateStorageNode (nodeId : NodeId) (updates : StorageNodeUpdate) : Database :=
  { db with
    storageNodes := db.storageNodes.update nodeId (.updated updates)
      (StorageNodeRecord.nodeId_updated updates)
    replicaNode := fun replica member => by
      rw [Table.keys_update]
      exact db.replicaNode replica member }

/-- `UPDATE storage_nodes SET last_heartbeat = $1 WHERE node_id = $2`. -/
def updateNodeHeartbeat (nodeId : NodeId) (now : Time) : Database :=
  db.updateStorageNode nodeId { lastHeartbeat := some now }

section

variable {db} {nodeId other : NodeId}

theorem getStorageNode_updateStorageNode {updates : StorageNodeUpdate} :
    (db.updateStorageNode other updates).getStorageNode nodeId =
      if other = nodeId then (db.getStorageNode nodeId).map (.updated updates)
      else db.getStorageNode nodeId := by
  have updated : (db.updateStorageNode other updates).getStorageNode nodeId =
      (db.storageNodes.update other (.updated updates)
        (StorageNodeRecord.nodeId_updated updates)).find? nodeId := rfl
  rw [updated]
  by_cases same : other = nodeId
  · subst same
    rw [if_pos rfl, Table.find?_update_self]
    rfl
  · rw [if_neg same, Table.find?_update_of_ne (Ne.symm same)]
    rfl

theorem getStorageNode_registerStorageNode_of_ne {node : StorageNodeRecord}
    (different : node.nodeId ≠ nodeId) :
    (db.registerStorageNode node).getStorageNode nodeId = db.getStorageNode nodeId := by
  unfold registerStorageNode
  split
  · have updated := node.nodeId_registered
    show (db.storageNodes.update node.nodeId node.registered updated).find? nodeId = _
    exact Table.find?_update_of_ne (Ne.symm different)
  · exact Table.find?_insertIfAbsent_of_ne (Ne.symm different)

/-- A listed row is the row of its node, with the status that was asked for. -/
theorem mem_listStorageNodes {status : NodeStatus} {row : StorageNodeRecord} :
    row ∈ db.listStorageNodes (some status) ↔
      db.getStorageNode row.nodeId = some row ∧ row.status = status := by
  unfold listStorageNodes getStorageNode
  rw [List.mem_insertionSort, List.mem_filter, Table.find?_eq_some_iff]
  simp

end

/-! ## Upload sessions -/

/-- `INSERT INTO upload_sessions`. -/
def createUploadSession (session : UploadSessionRecord) : Except Failure Database :=
  if session.sessionId ∈ db.uploadSessions.keys then
    .error (.uniqueViolation "upload_sessions_pkey")
  else
    .ok { db with
      uploadSessions := db.uploadSessions.insertIfAbsent session
      uploadedSession := fun chunk member =>
        Table.mem_keys_insertIfAbsent.mpr (.inl (db.uploadedSession chunk member)) }

/-- `SELECT * FROM upload_sessions WHERE session_id = $1`. -/
def getUploadSession (sessionId : SessionId) : Option UploadSessionRecord :=
  db.uploadSessions.find? sessionId

/-- `UPDATE upload_sessions SET status = $1 WHERE session_id = $2`. -/
def updateUploadSession (sessionId : SessionId) (status : SessionStatus) : Database :=
  { db with
    uploadSessions := db.uploadSessions.update sessionId (UploadSessionRecord.setStatus status)
      (UploadSessionRecord.sessionId_setStatus status)
    uploadedSession := fun chunk member => by
      rw [Table.keys_update]
      exact db.uploadedSession chunk member }

/-- `INSERT INTO uploaded_chunks ... ON CONFLICT (session_id, sequence_number) DO
NOTHING`. -/
def markChunkUploaded (chunk : UploadedChunkRecord) : Except Failure Database :=
  if present : chunk.sessionId ∈ db.uploadSessions.keys then
    .ok { db with
      uploadedChunks := db.uploadedChunks.insertIfAbsent chunk
      uploadedSession := fun other member => by
        rcases Table.mem_insertIfAbsent.mp member with old | ⟨_, rfl⟩
        · exact db.uploadedSession other old
        · exact present }
  else .error (.foreignKeyViolation "uploaded_chunks_session_id_fkey")

/-- `SELECT * FROM uploaded_chunks WHERE session_id = $1 ORDER BY sequence_number`. -/
def getUploadedChunks (sessionId : SessionId) : List UploadedChunkRecord :=
  orderBy UploadedChunkRecord.sequenceNumber
    (db.uploadedChunks.rows.filter fun chunk => chunk.sessionId = sessionId)

/-- `DELETE FROM upload_sessions WHERE session_id = $1`, with the cascade to
`uploaded_chunks`. -/
def deleteUploadSession (sessionId : SessionId) : Database :=
  { db with
    uploadSessions := db.uploadSessions.delete sessionId
    uploadedChunks := db.uploadedChunks.deleteWhere fun chunk => chunk.sessionId = sessionId
    uploadedSession := fun chunk member => by
      obtain ⟨old, kept⟩ := Table.mem_deleteWhere.mp member
      exact Table.mem_keys_delete.mpr ⟨db.uploadedSession chunk old, by simpa using kept⟩ }

/-- `SELECT * FROM upload_sessions WHERE expires_at < $1 AND status = 'active'`. -/
def getExpiredSessions (expiryDate : Time) : List UploadSessionRecord :=
  db.uploadSessions.rows.filter fun session =>
    session.expiresAt < expiryDate ∧ session.status = .active

/-! ## Permissions -/

/-- `INSERT INTO file_permissions ... ON CONFLICT (file_id, user_id) DO UPDATE`. -/
def grantPermission (permission : FilePermissionRecord) : Except Failure Database :=
  if present : permission.fileId ∈ db.files.keys then
    .ok { db with
      filePermissions := db.filePermissions.upsert permission
      permissionFile := fun other member => by
        rcases Table.mem_upsert.mp member with rfl | ⟨old, _⟩
        · exact present
        · exact db.permissionFile other old }
  else .error (.foreignKeyViolation "file_permissions_file_id_fkey")

/-- `DELETE FROM file_permissions WHERE file_id = $1 AND user_id = $2`. -/
def revokePermission (fileId : FileId) (userId : UserId) : Database :=
  { db with
    filePermissions := db.filePermissions.delete (fileId, userId)
    permissionFile := fun permission member =>
      db.permissionFile permission (Table.mem_delete.mp member).1 }

/-- `SELECT COUNT(*) FROM file_permissions WHERE file_id = $1 AND user_id = $2 AND
permission = $3`, compared with zero. -/
def checkPermission (fileId : FileId) (userId : UserId) (permission : Permission) : Bool :=
  0 < db.filePermissions.rows.countP fun row =>
    row.fileId = fileId ∧ row.userId = userId ∧ row.permission = permission

end Database

end DistributedFileStorage.Store
