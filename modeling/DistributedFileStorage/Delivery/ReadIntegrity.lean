import DistributedFileStorage.Delivery.EdgeRequests

/-!
# The integrity of what the gateway serves

A chunk is asked for by the hash of its bytes. A storage node answers a read with whatever bytes
are on its disk, and the gateway stores and serves what it is answered. Neither computes a hash
(`StorageNodeImpl.verifyChunkIntegrity` does, and no read calls it).

So what is served has the hash that was asked for, and so has every entry of the cache, as long as
the storage nodes answer from disks whose bytes are intact. When all requests have settled, this is
exact: one answer from a disk with other bytes puts them into the cache (`readIntegrity_iff`).
-/

set_option autoImplicit false

namespace DistributedFileStorage.Delivery

open Async Store Nodes Services Relational

variable {ι : Type}

/-- What the request resolves to has the hash that it asks for, or is a part of such bytes. -/
def EdgeRequest.Intact (sha256 : Sha256) (request : EdgeRequest) (data : Option Buffer) : Prop :=
  match request with
  | .getChunk chunkHash => ∀ bytes, data = some bytes → sha256.digest bytes = chunkHash
  | .getChunkRange chunkHash startByte endByte => ∀ bytes, data = some bytes →
      ∃ full, bytes = subarray full startByte (endByte + 1) ∧ sha256.digest full = chunkHash
  | _ => True

/-- The bytes of each entry have the hash of the entry. -/
def CDNGatewayImpl.Intact (sha256 : Sha256) (gateway : CDNGatewayImpl) : Prop :=
  ∀ chunkHash data, gateway.cached chunkHash = some data → sha256.digest data = chunkHash

/-- Every request that has resolved is intact, and so is the cache after every call. -/
structure ReadIntegrity (sha256 : Sha256) (requests : ι → EdgeRequest)
    (tasks : Pool edge ι (Option Buffer)) (history : List (EdgeEvent ι)) : Prop where
  served : ∀ task data, tasks task = .done (.ok data) → (requests task).Intact sha256 data
  cached : ∀ event ∈ history, event.after.gateway.Intact sha256

/-- The storage node that answers the call, and the hash it is asked for. -/
def EdgeEvent.answered (event : EdgeEvent ι) : Option (NodeId × ChunkHash) :=
  match event.op, event.outcome with
  | .readChunk nodeId chunkHash, .ok _ => some (nodeId, chunkHash)
  | _, _ => none

/-- When a storage node answers the call, the bytes on its disk have the hash that is asked for. -/
def EdgeEvent.FromIntactDisk (sha256 : Sha256) (event : EdgeEvent ι) : Prop :=
  ∀ read ∈ event.answered, ∀ data ∈ event.before.world.bytes read.1 read.2,
    sha256.digest data = read.2

instance (sha256 : Sha256) (event : EdgeEvent ι) : Decidable (event.FromIntactDisk sha256) :=
  inferInstanceAs (Decidable (∀ read ∈ event.answered,
    ∀ data ∈ event.before.world.bytes read.1 read.2, sha256.digest data = read.2))

/-! ## One call -/

/-- What a storage node answers is on its disk. -/
theorem bytes_of_readChunk {nodeId : NodeId} {chunkHash : ChunkHash} {before after : Edge}
    {data : Buffer}
    (happens : Edge.semantics (.readChunk nodeId chunkHash) before (.ok data) after) :
    before.world.bytes nodeId chunkHash = some data := by
  have run : Runs faulty (StorageNodeImpl.readChunk nodeId chunkHash) before.world (.ok data)
      after.world := happens.1
  exact (StorageNodeImpl.triple_readChunk rfl run).2

/-- The answers are intact exactly when the disks they come from are. -/
theorem fromIntactDisk_iff {sha256 : Sha256} {event : EdgeEvent ι}
    (happens : Edge.semantics event.op event.before event.outcome event.after) :
    event.FromIntactDisk sha256 ↔
      ∀ chunkHash data, event.reads = some (chunkHash, data) → sha256.digest data = chunkHash := by
  obtain ⟨task, op, outcome, before, after⟩ := event
  cases op with
  | readChunk nodeId asked =>
      cases outcome with
      | ok answer =>
          have onDisk := bytes_of_readChunk happens
          constructor
          · rintro intact _ _ ⟨⟩
            exact intact (nodeId, asked) rfl answer onDisk
          · rintro intact _ ⟨⟩ data found
            obtain rfl := Option.some.inj (onDisk.symm.trans found)
            exact intact asked answer rfl
      | error failure => exact iff_of_true nofun nofun
  | _ => exact iff_of_true nofun nofun

/-! ## Every run -/

variable [DecidableEq ι]

omit [DecidableEq ι] in
/-- What a request resolves to is intact when everything is that it has found or read. -/
theorem EdgeRequest.Resolves.intact {sha256 : Sha256} {request : EdgeRequest}
    {data : Option Buffer} {calls : List (EdgeEvent ι)} (resolves : request.Resolves data calls)
    (obtained : ∀ chunkHash data, Obtained calls chunkHash data → sha256.digest data = chunkHash) :
    request.Intact sha256 data := by
  cases request with
  | getChunk chunkHash =>
      obtain ⟨bytes, rfl, own⟩ := resolves
      rintro _ ⟨⟩
      exact obtained chunkHash bytes own
  | getChunkRange chunkHash startByte endByte =>
      obtain ⟨full, rfl, own⟩ := resolves
      rintro _ ⟨⟩
      exact ⟨full, rfl, obtained chunkHash full own⟩
  | registerFileVersion fileId version chunkHashes => trivial
  | invalidateCache fileId version => trivial
  | overwrite nodeId disk => trivial

/-- **What the gateway serves and caches is intact** in every run in which the storage nodes answer
from intact disks. Of a run whose requests have all settled, nothing else is needed. -/
theorem readIntegrity_iff (sha256 : Sha256) (requests : ι → EdgeRequest)
    (storageNodes : List NodeId) (maxCacheEntries : ℕ) (world : World)
    {tasks : Pool edge ι (Option Buffer)} {reached : Moment edge ι Edge}
    (run : PoolRuns Edge.semantics (fun task => (requests task).program,
      .start ⟨.new storageNodes maxCacheEntries, world⟩) (tasks, reached)) :
    ((∀ event ∈ reached.history, EdgeEvent.FromIntactDisk sha256 event) →
        ReadIntegrity sha256 requests tasks reached.history) ∧
      ((∀ task, (tasks task).isSettled) → ReadIntegrity sha256 requests tasks reached.history →
        ∀ event ∈ reached.history, EdgeEvent.FromIntactDisk sha256 event) := by
  obtain ⟨lawful, ends⟩ := Pool.follows (fun task => follows_request task (requests task)) run
  constructor
  · intro disks
    have reads : ∀ event ∈ reached.history, ∀ chunkHash data,
        EdgeEvent.reads event = some (chunkHash, data) → sha256.digest data = chunkHash :=
      fun event member =>
        (fromIntactDisk_iff (lawful.happens_of_mem member)).mp (disks event member)
    obtain ⟨_, intact⟩ := related_of_reads lawful nofun reads
    have obtained : ∀ task chunkHash data, Obtained (callsOf task reached.history) chunkHash data →
        sha256.digest data = chunkHash := by
      rintro task chunkHash data ⟨event, own, finds | read⟩
      · exact (intact event (mem_callsOf.mp own).1).2 chunkHash data finds
      · exact reads event (mem_callsOf.mp own).1 chunkHash data read
    refine ⟨fun task data resolved => ?_, fun event member => (intact event member).1⟩
    exact (ends task _ resolved).1.intact (obtained task)
  · intro settled integrity event member
    refine (fromIntactDisk_iff (lawful.happens_of_mem member)).mpr fun chunkHash data reads => ?_
    -- the task that has read the chunk has stored it before it settled
    have stored : AllStored (callsOf event.task reached.history) := by
      cases finished : tasks event.task with
      | done outcome =>
          have ended := ends event.task outcome finished
          cases outcome with
          | ok value => exact ended.2
          | error failure => exact ended
      | call op next =>
          have still := settled event.task
          rw [finished] at still
          cases still
    obtain ⟨other, own, stores⟩ := stored event (mem_callsOf.mpr ⟨member, rfl⟩) _ reads
    have present := (mem_callsOf.mp own).1
    refine integrity.cached other present chunkHash data ?_
    exact cached_of_stores (lawful.happens_of_mem present) stores

/-! ## An overwritten disk -/

/-- Another byte at the path of the byte 7. -/
def overwrittenDisk : Disk :=
  let path := getChunkPath (knownDigests.digest [7])
  ((Disk.empty.mkdir path.1).writeFile path [75]).toOption.getD .empty

/-- A request for the byte 7, and the change of the disk. -/
def readAndOverwrite : Bool → EdgeRequest
  | true => .getChunk (knownDigests.digest [7])
  | false => .overwrite "n1" overwrittenDisk

/-- The calls of both in an order, with a clock that stands still. -/
def overwriteRun (schedule : List Bool) :
    Pool edge Bool (Option Buffer) × Moment edge Bool Edge :=
  Pool.runSchedule (Edge.handler ⟨0, 0, 0, 0⟩) schedule
    (fun task => (readAndOverwrite task).program, .start ⟨.new ["n1"] 10000, sevenStored⟩)

theorem runs_overwriteRun (schedule : List Bool) :
    PoolRuns Edge.semantics (fun task => (readAndOverwrite task).program,
        .start ⟨.new ["n1"] 10000, sevenStored⟩)
      ((overwriteRun schedule).1, (overwriteRun schedule).2) :=
  Pool.runs_runSchedule (Edge.semantics_handler _) _ _

/-- The chunk is read and cached before its disk is overwritten. -/
theorem readIntegrity_before :
    ReadIntegrity knownDigests readAndOverwrite (overwriteRun [true, true, true, true, false]).1
      (overwriteRun [true, true, true, true, false]).2.history :=
  (readIntegrity_iff knownDigests readAndOverwrite ["n1"] 10000 sevenStored
    (runs_overwriteRun _)).1 (by decide +kernel)

/-- **Overwritten bytes are served.** The disk is overwritten and then the chunk is requested: the
request resolves to the other byte, and the cache holds it under the hash of the chunk. -/
theorem overwritten_isServed :
    ∃ tasks reached, PoolRuns Edge.semantics (fun task => (readAndOverwrite task).program,
        .start ⟨.new ["n1"] 10000, sevenStored⟩) (tasks, reached) ∧
      tasks true = .done (.ok (some [75])) ∧
      reached.state.gateway.cached (knownDigests.digest [7]) = some [75] ∧
      ¬ ReadIntegrity knownDigests readAndOverwrite tasks reached.history := by
  refine ⟨_, _, runs_overwriteRun [false, true, true, true, true], rfl, by decide +kernel, ?_⟩
  intro integrity
  have served := integrity.served true (some [75]) rfl [75] rfl
  revert served
  decide +kernel

end DistributedFileStorage.Delivery
