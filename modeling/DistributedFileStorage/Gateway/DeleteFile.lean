import DistributedFileStorage.Access.AccessControl
import DistributedFileStorage.Lifecycle.ReferenceCounts

/-!
# Deleting a file through the gateway

`DELETE /files/:fileId` checks that the user may delete the file and deletes its row. The identifier
is a text of the path, and any spelling of it is taken. The versions of the file go with it, by the
cascade of the schema. Nobody releases the chunks of these versions: the
reference counts stay what they were, and no collection reclaims a chunk that only the deleted
file used (`deleteRoute_exact_iff`).
-/

set_option autoImplicit false

namespace DistributedFileStorage.Gateway

open Async Store Services Access Encoding

/-- The body of a response, as JSON. -/
inductive Body where
  | ok
  | error (message : String)
  deriving DecidableEq

structure Response where
  status : ℕ
  body : Body
  deriving DecidableEq

namespace ApiGateway

/-- `DELETE /files/:fileId`, with the `catch` of `handleRequest`. -/
def deleteRoute (userId : UserId) (fileId : String) : Program access Response :=
  Program.tryCatch (do
    let allowed ← AccessControlImpl.checkPermission userId fileId .delete
    if !allowed then pure ⟨403, .error "Forbidden"⟩
    else do
      MetadataStoreImpl.deleteFile fileId
      pure ⟨200, .ok⟩) fun failure => pure ⟨500, .error failure.message⟩

end ApiGateway

variable {userId : UserId} {fileId : String} {before after : AccessState} {response : Response}

/-- A deletion that resolves has deleted the row of the file that the text spells. -/
theorem runs_deleteFile {outcome : access.Outcome Unit}
    (run : Runs timed (MetadataStoreImpl.deleteFile fileId) before outcome after)
    (resolved : outcome = .ok ()) :
    ∃ id, Uuid.parse fileId = some id ∧
      after.world = before.world.setStore (before.world.store.deleteFile id) := by
  rcases runs_withParameter run with ⟨id, accepted, deletes⟩ | ⟨_, _, _, failed, _⟩
  · obtain ⟨now, _, made⟩ := timed_iff.mp (Runs.perform_iff.mp deletes)
    obtain ⟨_, rfl⟩ := Prod.mk.inj made
    exact ⟨id, uuidParameter_eq_ok_iff.mp accepted, rfl⟩
  · cases resolved.symm.trans failed

/-- A request that succeeds deletes the row of the file, and does nothing else to the store. -/
theorem runs_deleteRoute (run : Runs timed (ApiGateway.deleteRoute userId fileId) before
      (.ok response) after) (succeeds : response.status = 200) :
    ∃ id, Uuid.parse fileId = some id ∧
      after.world = before.world.setStore (before.world.store.deleteFile id) := by
  unfold ApiGateway.deleteRoute at run
  rcases Runs.tryCatch_iff.mp run with ⟨_, body, same⟩ | ⟨failure, middle, _, caught⟩
  · obtain rfl := Except.ok.inj same
    rcases Runs.bind_iff.mp body with ⟨allowed, checked, check, rest⟩ | ⟨_, _, failed⟩
    · rw [← (runs_checkPermission_iff.mp check).world]
      cases allowed with
      | false =>
          obtain ⟨same, _⟩ := Runs.pure_iff.mp rest
          rw [Except.ok.inj same] at succeeds
          cases succeeds
      | true =>
          obtain ⟨settled, ended, deletes⟩ := Runs.of_bind_pure rest
          cases settled with
          | error failure => cases ended
          | ok value => exact runs_deleteFile deletes rfl
    · cases failed
  · obtain ⟨same, _⟩ := Runs.pure_iff.mp caught
    rw [Except.ok.inj same] at succeeds
    cases succeeds

/-! ## The counts after a deletion -/

/-- The versions of the deleted file take their occurrences with them. -/
theorem occurrences_deleteFile (db : Database) (fileId : FileId) (chunkHash : ChunkHash) :
    (db.deleteFile fileId).occurrences chunkHash +
        ((db.fileVersions.rows.filter fun version => version.fileId = fileId).map fun version =>
          version.chunkHashes.count chunkHash).sum =
      db.occurrences chunkHash :=
  Relational.Table.sum_deleteWhere_add db.fileVersions _ _

/-- Every count is the number of occurrences, and a collection reclaims the chunks that only the
deleted file used. -/
structure Reclaims (storageNodes : List NodeId) (before after : World) : Prop where
  exact : after.store.CountsExact
  reclaimed : ∀ chunkHash, before.store.Uses chunkHash → ¬ after.store.Uses chunkHash →
    ((Background.BackgroundJobs.garbageCollect storageNodes).run exec
      after).2.store.getChunk chunkHash = none

/-- **A successful deletion keeps the reference counts exact, so that the chunks of the file can be
reclaimed, if and only if no version of the file has a chunk.** -/
theorem deleteRoute_exact_iff (storageNodes : List NodeId)
    (exact : before.world.store.ReferenceCountsExact)
    (run : Runs timed (ApiGateway.deleteRoute userId fileId) before (.ok response) after)
    (succeeds : response.status = 200) :
    Reclaims storageNodes before.world after.world ↔
      ∀ version ∈ before.world.store.fileVersions.rows,
        Uuid.parse fileId = some version.fileId → version.chunkHashes = [] := by
  obtain ⟨id, spells, deleted⟩ := runs_deleteRoute run succeeds
  have about : ∀ version : FileVersionRecord,
      Uuid.parse fileId = some version.fileId ↔ version.fileId = id := by
    intro version
    rw [spells, Option.some.injEq, eq_comm]
  simp only [about]
  rw [deleted]
  have total := occurrences_deleteFile before.world.store id
  constructor
  · intro reclaims version member file
    refine List.eq_nil_iff_forall_not_mem.mpr fun chunkHash used => ?_
    obtain ⟨chunk, found⟩ := Option.isSome_iff_exists.mp
      (exact.registered version member chunkHash used)
    obtain ⟨row, rfl⟩ := Relational.Table.find?_eq_some_iff.mp found
    have counted := exact.counted chunk.chunkHash chunk found
    have still : chunk.referenceCount =
        (before.world.store.deleteFile id).occurrences chunk.chunkHash :=
      reclaims.exact chunk row
    have none : ((before.world.store.fileVersions.rows.filter fun version =>
        version.fileId = id).map fun version =>
          version.chunkHashes.count chunk.chunkHash).sum = 0 := by
      have whole := total chunk.chunkHash
      omega
    have unused := List.sum_eq_zero_iff.mp none _ (List.mem_map.mpr
      ⟨version, List.mem_filter.mpr ⟨member, decide_eq_true file⟩, rfl⟩)
    exact List.count_eq_zero.mp unused used
  · intro unused
    have same : ∀ chunkHash, (before.world.store.deleteFile id).occurrences chunkHash =
        before.world.store.occurrences chunkHash := by
      intro chunkHash
      rw [← total chunkHash, Nat.left_eq_add, List.sum_eq_zero_iff]
      intro count counts
      obtain ⟨version, deleted, rfl⟩ := List.mem_map.mp counts
      obtain ⟨member, file⟩ := List.mem_filter.mp deleted
      rw [unused version member (of_decide_eq_true file), List.count_nil]
    refine ⟨fun chunk row => ?_, fun chunkHash uses unusedAfter => ?_⟩
    · rw [World.store_setStore, same]
      exact exact.counted chunk.chunkHash chunk (Relational.Table.find?_key row)
    · obtain ⟨version, member, used⟩ := uses
      refine absurd ⟨version, ?_, used⟩ unusedAfter
      refine Relational.Table.mem_deleteWhere.mpr ⟨member, decide_eq_false fun file => ?_⟩
      rw [unused version member file] at used
      cases used

/-! ## Two files -/

/-- A file of the owner, and a chunk that no version uses. -/
def registered : World :=
  ((store (.createChunk
    { chunkHash := "aa", size := 4, encryptedSize := 4, referenceCount := 0,
      createdAt := 0 })).run exec (World.ofFile notes)).2

/-- The file with one version. -/
def versioned (chunkHashes : List ChunkHash) : World :=
  ((Versioning.VersionManager.createVersion notes chunkHashes "owner" 0).run exec registered).2

theorem referenceCountsExact_versioned (chunkHashes : List ChunkHash)
    (present : ∀ chunkHash ∈ chunkHashes, (registered.store.getChunk chunkHash).isSome) :
    (versioned chunkHashes).store.ReferenceCountsExact := by
  have register : Lifecycle.VersionStep [] (World.ofFile notes) registered := .createChunk _ rfl
  have create : Lifecycle.VersionStep [] registered (versioned chunkHashes) :=
    .createVersion notes chunkHashes "owner" 0 present
  have fresh : Lifecycle.Fresh (World.ofFile notes) := ⟨rfl, rfl⟩
  exact create.referenceCountsExact (register.referenceCountsExact fresh.referenceCountsExact)

/-- The owner deletes the file. -/
def deleted (world : World) : access.Outcome Response × AccessState :=
  (ApiGateway.deleteRoute "owner" notes.text).run accessExec (.fresh world 0)

/-- A file whose version is empty leaves nothing behind. -/
theorem deleteRoute_exact_empty :
    Reclaims ["node"] (versioned []) (deleted (versioned [])).2.world :=
  (deleteRoute_exact_iff ["node"] (referenceCountsExact_versioned [] nofun)
    (runs_timed (ApiGateway.deleteRoute "owner" notes.text) (.fresh (versioned []) 0) :
      Runs timed _ _ (.ok ⟨200, .ok⟩) _) rfl).mpr (by decide)

/-- **A chunk of a deleted file keeps its count and is never reclaimed.** -/
theorem deleteRoute_keeps_count :
    ¬ ∀ (storageNodes : List NodeId) (before after : AccessState) (userId : UserId)
        (fileId : String) (response : Response),
      before.world.store.ReferenceCountsExact →
      Runs timed (ApiGateway.deleteRoute userId fileId) before (.ok response) after →
      response.status = 200 → Reclaims storageNodes before.world after.world := by
  intro claim
  have run : Runs timed (ApiGateway.deleteRoute "owner" notes.text) (.fresh (versioned ["aa"]) 0)
      (.ok ⟨200, .ok⟩) (deleted (versioned ["aa"])).2 := runs_timed _ _
  have exact := referenceCountsExact_versioned ["aa"] (by decide)
  have reclaims := claim ["node"] _ _ _ _ _ exact run rfl
  exact absurd reclaims.exact (by decide)

end DistributedFileStorage.Gateway
