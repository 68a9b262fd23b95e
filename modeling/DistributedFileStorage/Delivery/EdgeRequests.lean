import DistributedFileStorage.Async.OwnCalls
import DistributedFileStorage.Delivery.LeastRecentlyUsed
import DistributedFileStorage.Nodes.StorageNode

/-!
# Requests to the gateway

A request for a chunk that is not in the cache awaits a storage node between the look-up and the
entry it makes. Other requests run in between, and so do changes of the disks. Each request is a
program over the calls of the gateway and the reads of the storage nodes. The requests read chunks
through `StorageNodeImpl`, whose disks anybody may overwrite at any time.

A request that has read a chunk stores it next, and nothing is stored that has not been read
(`EdgeRule`). What it resolves to has been cached or read during the request (`follows_request`).
-/

set_option autoImplicit false

namespace DistributedFileStorage.Delivery

open Async Store Nodes Services Relational Program

/-! ## The calls -/

/-- The calls of a request. -/
inductive EdgeOp where
  | getCached (chunkHash : ChunkHash)
  | selectNode
  | readChunk (nodeId : NodeId) (chunkHash : ChunkHash)
  | putCache (chunkHash : ChunkHash) (data : Buffer)
  | registerFileVersion (fileId : String) (version : ℤ) (chunkHashes : List ChunkHash)
  | invalidateCache (fileId : String) (version : ℤ)
  /-- The disk of a storage node changes behind the gateway. -/
  | overwrite (nodeId : NodeId) (disk : Disk)

@[reducible] def EdgeOp.Result : EdgeOp → Type
  | getCached _ => Option Buffer
  | selectNode => NodeId
  | readChunk _ _ => Buffer
  | _ => Unit

abbrev edge : Interface := ⟨EdgeOp, EdgeOp.Result, Failure⟩

/-- The gateway, and the storage nodes behind it. -/
structure Edge where
  gateway : CDNGatewayImpl
  world : World

/-- A read of a chunk leaves the storage nodes as they are. -/
theorem snd_run_readChunk (nodeId : NodeId) (chunkHash : ChunkHash) (world : World) :
    ((StorageNodeImpl.readChunk nodeId chunkHash).run exec world).2 = world := by
  have run : Runs faulty (StorageNodeImpl.readChunk nodeId chunkHash) world
      ((StorageNodeImpl.readChunk nodeId chunkHash).run exec world).1
      ((StorageNodeImpl.readChunk nodeId chunkHash).run exec world).2 :=
    runs_withFaults_of_run rfl
  have ends := StorageNodeImpl.triple_readChunk rfl run
  cases outcome : ((StorageNodeImpl.readChunk nodeId chunkHash).run exec world).1 with
  | ok data =>
      rw [outcome] at ends
      exact ends.1
  | error failure =>
      rw [outcome] at ends
      exact ends

namespace Edge

/-- What each call can do: the clock shows any times, and a read of a chunk may fail. -/
def semantics : Semantics edge Edge
  | .getCached chunkHash, before, outcome, after => ∃ clock,
      outcome = .ok (before.gateway.getCached chunkHash clock).1 ∧
        after = { before with gateway := (before.gateway.getCached chunkHash clock).2 }
  | .selectNode, before, outcome, after => outcome = before.gateway.selectNode ∧ after = before
  | .readChunk nodeId chunkHash, before, outcome, after =>
      Runs faulty (StorageNodeImpl.readChunk nodeId chunkHash) before.world outcome after.world ∧
        after.gateway = before.gateway
  | .putCache chunkHash data, before, outcome, after => ∃ clock,
      outcome = .ok () ∧
        after = { before with gateway := before.gateway.putCache chunkHash data clock }
  | .registerFileVersion fileId version chunkHashes, before, outcome, after =>
      outcome = .ok () ∧ after =
        { before with gateway := before.gateway.registerFileVersion fileId version chunkHashes }
  | .invalidateCache fileId version, before, outcome, after =>
      outcome = .ok () ∧
        after = { before with gateway := before.gateway.invalidateCache fileId version }
  | .overwrite nodeId disk, before, outcome, after =>
      outcome = .ok () ∧ after = { before with
        world := before.world.setNode nodeId { before.world.nodes nodeId with disk := disk } }

/-- The calls, when the clock shows certain times and no read fails. -/
def handler (clock : ClockReadings) : Handler edge Edge
  | .getCached chunkHash, state =>
      (.ok (state.gateway.getCached chunkHash clock).1,
        { state with gateway := (state.gateway.getCached chunkHash clock).2 })
  | .selectNode, state => (state.gateway.selectNode, state)
  | .readChunk nodeId chunkHash, state =>
      (((StorageNodeImpl.readChunk nodeId chunkHash).run exec state.world).1, state)
  | .putCache chunkHash data, state =>
      (.ok (), { state with gateway := state.gateway.putCache chunkHash data clock })
  | .registerFileVersion fileId version chunkHashes, state =>
      (.ok (),
        { state with gateway := state.gateway.registerFileVersion fileId version chunkHashes })
  | .invalidateCache fileId version, state =>
      (.ok (), { state with gateway := state.gateway.invalidateCache fileId version })
  | .overwrite nodeId disk, state =>
      (.ok (), { state with
        world := state.world.setNode nodeId { state.world.nodes nodeId with disk := disk } })

/-- The handler does what a call can do. -/
theorem semantics_handler (clock : ClockReadings) (op : EdgeOp) (state : Edge) :
    semantics op state (handler clock op state).1 (handler clock op state).2 := by
  cases op with
  | getCached chunkHash => exact ⟨clock, rfl, rfl⟩
  | selectNode => exact ⟨rfl, rfl⟩
  | readChunk nodeId chunkHash =>
      refine ⟨runs_withFaults_of_run ?_, rfl⟩
      exact Prod.ext rfl (snd_run_readChunk nodeId chunkHash state.world)
  | putCache chunkHash data => exact ⟨clock, rfl, rfl⟩
  | registerFileVersion fileId version chunkHashes => exact ⟨rfl, rfl⟩
  | invalidateCache fileId version => exact ⟨rfl, rfl⟩
  | overwrite nodeId disk => exact ⟨rfl, rfl⟩

end Edge

/-! ## The requests -/

/-- `data.subarray(start, end)`, when neither is negative. -/
def subarray (data : Buffer) (start stop : ℤ) : Buffer := (data.take stop.toNat).drop start.toNat

namespace Edge

def getChunk (chunkHash : ChunkHash) : Program edge Buffer := do
  let cached ← perform (I := edge) (.getCached chunkHash)
  match cached with
  | some data => pure data
  | none =>
      let node ← perform (I := edge) .selectNode
      let data ← perform (I := edge) (.readChunk node chunkHash)
      perform (I := edge) (.putCache chunkHash data)
      pure data

def getChunkRange (chunkHash : ChunkHash) (startByte endByte : ℤ) : Program edge Buffer :=
  if startByte < 0 then throw (I := edge) (.error s!"startByte must be >= 0, got {startByte}")
  else if endByte < startByte then
    throw (I := edge) (.error s!"endByte ({endByte}) must be >= startByte ({startByte})")
  else do
    let full ← getChunk chunkHash
    if full.length ≤ endByte then
      throw (I := edge) (.error s!"endByte ({endByte}) exceeds chunk length ({full.length})")
    else pure (subarray full startByte (endByte + 1))

end Edge

/-- Whatever is done with a gateway and its storage nodes. -/
inductive EdgeRequest where
  | getChunk (chunkHash : ChunkHash)
  | getChunkRange (chunkHash : ChunkHash) (startByte endByte : ℤ)
  | registerFileVersion (fileId : String) (version : ℤ) (chunkHashes : List ChunkHash)
  | invalidateCache (fileId : String) (version : ℤ)
  | overwrite (nodeId : NodeId) (disk : Disk)

/-- The program of a request, and the bytes that it resolves to, if any. -/
def EdgeRequest.program : EdgeRequest → Program edge (Option Buffer)
  | getChunk chunkHash => do
      let data ← Edge.getChunk chunkHash
      pure (some data)
  | getChunkRange chunkHash startByte endByte => do
      let data ← Edge.getChunkRange chunkHash startByte endByte
      pure (some data)
  | registerFileVersion fileId version chunkHashes => do
      perform (I := edge) (.registerFileVersion fileId version chunkHashes)
      pure none
  | invalidateCache fileId version => do
      perform (I := edge) (.invalidateCache fileId version)
      pure none
  | overwrite nodeId disk => do
      perform (I := edge) (.overwrite nodeId disk)
      pure none

/-- **A request without a fault that nothing interrupts** is the call of the gateway with what the
storage nodes answer. -/
theorem Edge.run_getChunk (clock : ClockReadings) (chunkHash : ChunkHash) (state : Edge) :
    (Edge.getChunk chunkHash).run (Edge.handler clock) state =
      let served := state.gateway.getChunk (fun nodeId chunkHash =>
        ((StorageNodeImpl.readChunk nodeId chunkHash).run exec state.world).1) chunkHash clock
      (served.1, { state with gateway := served.2 }) := by
  unfold Edge.getChunk CDNGatewayImpl.getChunk
  rcases looked : state.gateway.getCached chunkHash clock with ⟨cached, missed⟩
  have first : (perform (I := edge) (.getCached chunkHash)).run (Edge.handler clock) state =
      (.ok cached, { state with gateway := missed }) := by
    show (Except.ok (state.gateway.getCached chunkHash clock).1,
      ({ state with gateway := (state.gateway.getCached chunkHash clock).2 } : Edge)) = _
    rw [looked]
  rw [run_bind_ok _ first]
  cases cached with
  | some data => rfl
  | none =>
      dsimp only
      cases selected : missed.selectNode with
      | error failure =>
          have fails : (perform (I := edge) .selectNode).run (Edge.handler clock)
              { state with gateway := missed } =
                (.error failure, { state with gateway := missed }) :=
            Prod.ext selected rfl
          rw [run_bind_error _ fails]
          rfl
      | ok node =>
          have works : (perform (I := edge) .selectNode).run (Edge.handler clock)
              { state with gateway := missed } = (.ok node, { state with gateway := missed }) :=
            Prod.ext selected rfl
          rw [run_bind_ok _ works, run_bind]
          have read : (perform (I := edge) (.readChunk node chunkHash)).run (Edge.handler clock)
              { state with gateway := missed } =
                (((StorageNodeImpl.readChunk node chunkHash).run exec state.world).1,
                  { state with gateway := missed }) := rfl
          rw [read]
          dsimp only
          cases answered : ((StorageNodeImpl.readChunk node chunkHash).run exec state.world).1 with
          | error failure =>
              have rejected : (Except.ok node >>= fun nodeId =>
                  ((StorageNodeImpl.readChunk nodeId chunkHash).run exec state.world).1) =
                    .error failure := answered
              rw [rejected]
          | ok data =>
              have resolved : (Except.ok node >>= fun nodeId =>
                  ((StorageNodeImpl.readChunk nodeId chunkHash).run exec state.world).1) =
                    .ok data := answered
              rw [resolved]
              rfl

/-! ## What a request does -/

variable {ι : Type}

abbrev EdgeEvent (ι : Type) : Type := Event edge ι Edge

/-- The chunk that the call has read from a storage node. -/
def EdgeEvent.reads (event : EdgeEvent ι) : Option (ChunkHash × Buffer) :=
  match event.op, event.outcome with
  | .readChunk _ chunkHash, .ok data => some (chunkHash, data)
  | _, _ => none

/-- The chunk that the call has found in the cache. -/
def EdgeEvent.finds (event : EdgeEvent ι) : Option (ChunkHash × Buffer) :=
  match event.op, event.outcome with
  | .getCached chunkHash, .ok (some data) => some (chunkHash, data)
  | _, _ => none

/-- The chunk that the call stores in the cache. -/
def EdgeEvent.stores (event : EdgeEvent ι) : Option (ChunkHash × Buffer) :=
  match event.op with
  | .putCache chunkHash data => some (chunkHash, data)
  | _ => none

/-- The call does not get at the chunk: no storage node is there, or none answers. -/
def EdgeEvent.Misses (chunkHash : ChunkHash) (event : EdgeEvent ι) : Prop :=
  match event.op, event.outcome with
  | .selectNode, .error _ => True
  | .readChunk _ asked, .error _ => asked = chunkHash
  | _, _ => False

/-- A request stores what it has just read. -/
inductive EdgeRule (task : ι) (calls : List (EdgeEvent ι)) : EdgeOp → Prop
  | getCached (chunkHash : ChunkHash) : EdgeRule task calls (.getCached chunkHash)
  | selectNode : EdgeRule task calls .selectNode
  | readChunk (nodeId : NodeId) (chunkHash : ChunkHash) :
      EdgeRule task calls (.readChunk nodeId chunkHash)
  | putCache {event : EdgeEvent ι} {chunkHash : ChunkHash} {data : Buffer}
      (last : calls.getLast? = some event) (read : event.reads = some (chunkHash, data)) :
      EdgeRule task calls (.putCache chunkHash data)
  | registerFileVersion (fileId : String) (version : ℤ) (chunkHashes : List ChunkHash) :
      EdgeRule task calls (.registerFileVersion fileId version chunkHashes)
  | invalidateCache (fileId : String) (version : ℤ) :
      EdgeRule task calls (.invalidateCache fileId version)
  | overwrite (nodeId : NodeId) (disk : Disk) : EdgeRule task calls (.overwrite nodeId disk)

/-- The calls have found or read the bytes of a chunk. -/
def Obtained (calls : List (EdgeEvent ι)) (chunkHash : ChunkHash) (data : Buffer) : Prop :=
  ∃ event ∈ calls, EdgeEvent.finds event = some (chunkHash, data) ∨
    EdgeEvent.reads event = some (chunkHash, data)

/-- Everything that has been read has been stored. -/
def AllStored (calls : List (EdgeEvent ι)) : Prop :=
  ∀ event ∈ calls, ∀ chunk, EdgeEvent.reads event = some chunk →
    ∃ other ∈ calls, EdgeEvent.stores other = some chunk

/-- What a request resolves to has been found or read by it. -/
def EdgeRequest.Resolves (request : EdgeRequest) (data : Option Buffer)
    (calls : List (EdgeEvent ι)) : Prop :=
  match request with
  | .getChunk chunkHash => ∃ bytes, data = some bytes ∧ Obtained calls chunkHash bytes
  | .getChunkRange chunkHash startByte endByte =>
      ∃ full, data = some (subarray full startByte (endByte + 1)) ∧ Obtained calls chunkHash full
  | _ => True

/-! ## What a call does to the entry of a chunk -/

/-- The bytes of the entry of a chunk. -/
def CDNGatewayImpl.cached (gateway : CDNGatewayImpl) (chunkHash : ChunkHash) : Option Buffer :=
  (gateway.cache.find? chunkHash).map fun entry => entry.2.data

namespace CDNGatewayImpl

variable {gateway : CDNGatewayImpl} {chunkHash other : ChunkHash} {data bytes : Buffer}
  {clock : ClockReadings}

theorem cached_eq_some_iff :
    gateway.cached chunkHash = some data ↔
      ∃ row ∈ gateway.cache.rows, row.1 = chunkHash ∧ row.2.data = data := by
  unfold cached
  rw [Option.map_eq_some_iff]
  simp only [Table.find?_eq_some_iff, and_assoc]

theorem cached_of_getCached
    (found : (gateway.getCached other clock).2.cached chunkHash = some data) :
    gateway.cached chunkHash = some data := by
  obtain ⟨row, member, key, bytes⟩ := cached_eq_some_iff.mp found
  unfold getCached at member
  split at member
  · exact cached_eq_some_iff.mpr ⟨row, member, key, bytes⟩
  · split at member
    · exact cached_eq_some_iff.mpr ⟨row, (Table.mem_delete.mp member).1, key, bytes⟩
    · obtain ⟨old, present, rfl⟩ := List.mem_map.mp member
      -- the access of an entry changes neither its key nor its bytes
      refine cached_eq_some_iff.mpr ⟨old, present, ?_, ?_⟩
      · rw [← key]
        split <;> rfl
      · rw [← bytes]
        split <;> rfl

/-- What is served is in the cache. -/
theorem cached_of_served (served : (gateway.getCached chunkHash clock).1 = some data) :
    gateway.cached chunkHash = some data := by
  unfold getCached at served
  unfold cached
  split at served
  · cases served
  · rename_i entry found
    split at served
    · cases served
    · rw [found]
      exact served

theorem cached_of_putCache
    (found : (gateway.putCache other bytes clock).cached chunkHash = some data) :
    (chunkHash = other ∧ data = bytes) ∨ gateway.cached chunkHash = some data := by
  obtain ⟨row, member, rfl, rfl⟩ := cached_eq_some_iff.mp found
  rcases Table.mem_upsert.mp member with rfl | ⟨old, _⟩
  · exact .inl ⟨rfl, rfl⟩
  · exact .inr (cached_eq_some_iff.mpr ⟨row, mem_evict old, rfl, rfl⟩)

/-- What is stored is in the cache. -/
theorem cached_putCache :
    (gateway.putCache chunkHash data clock).cached chunkHash = some data :=
  cached_eq_some_iff.mpr ⟨_, Table.mem_upsert.mpr (.inl rfl), rfl, rfl⟩

theorem cached_of_invalidateCache {fileId : String} {version : ℤ}
    (found : (gateway.invalidateCache fileId version).cached chunkHash = some data) :
    chunkHash ∉ gateway.registered (fileId, version) ∧ gateway.cached chunkHash = some data := by
  obtain ⟨row, member, rfl, rfl⟩ := cached_eq_some_iff.mp found
  obtain ⟨old, kept⟩ := Table.mem_foldl_delete.mp member
  exact ⟨kept, cached_eq_some_iff.mpr ⟨row, old, rfl, rfl⟩⟩

end CDNGatewayImpl

/-- **One call**: the bytes of an entry have been there before, or the call stores them. -/
theorem cached_step {op : EdgeOp} {before after : Edge} {outcome : Except Failure op.Result}
    (happens : Edge.semantics op before outcome after) {chunkHash : ChunkHash} {data : Buffer}
    (found : after.gateway.cached chunkHash = some data) :
    before.gateway.cached chunkHash = some data ∨ op = .putCache chunkHash data := by
  cases op with
  | getCached other =>
      obtain ⟨clock, _, rfl⟩ := happens
      exact .inl (CDNGatewayImpl.cached_of_getCached found)
  | selectNode =>
      obtain ⟨_, rfl⟩ := happens
      exact .inl found
  | readChunk nodeId other =>
      obtain ⟨_, same⟩ := happens
      exact .inl (same ▸ found)
  | putCache other bytes =>
      obtain ⟨clock, _, rfl⟩ := happens
      rcases CDNGatewayImpl.cached_of_putCache found with ⟨rfl, rfl⟩ | old
      · exact .inr rfl
      · exact .inl old
  | registerFileVersion fileId version chunkHashes =>
      obtain ⟨_, rfl⟩ := happens
      exact .inl found
  | invalidateCache fileId version =>
      obtain ⟨_, rfl⟩ := happens
      exact .inl (CDNGatewayImpl.cached_of_invalidateCache found).2
  | overwrite nodeId disk =>
      obtain ⟨_, rfl⟩ := happens
      exact .inl found

/-- What a call finds is in the cache. -/
theorem cached_of_finds {task : ι} {op : EdgeOp} {before after : Edge}
    {outcome : Except Failure op.Result} (happens : Edge.semantics op before outcome after)
    {chunkHash : ChunkHash} {data : Buffer}
    (finds : EdgeEvent.finds (⟨task, op, outcome, before, after⟩ : EdgeEvent ι) =
      some (chunkHash, data)) : before.gateway.cached chunkHash = some data := by
  cases op with
  | getCached other =>
      obtain ⟨clock, rfl, _⟩ := happens
      cases served : (before.gateway.getCached other clock).1 with
      | none =>
          rw [served] at finds
          cases finds
      | some bytes =>
          rw [served] at finds
          cases finds
          exact CDNGatewayImpl.cached_of_served served
  | _ => cases finds

/-- What a call stores is in the cache after it. -/
theorem cached_of_stores {event : EdgeEvent ι}
    (happens : Edge.semantics event.op event.before event.outcome event.after)
    {chunkHash : ChunkHash} {data : Buffer} (stores : event.stores = some (chunkHash, data)) :
    event.after.gateway.cached chunkHash = some data := by
  obtain ⟨task, op, outcome, before, after⟩ := event
  cases op with
  | putCache hash bytes =>
      cases stores
      obtain ⟨clock, _, same⟩ := happens
      dsimp only at same ⊢
      rw [same]
      exact CDNGatewayImpl.cached_putCache
  | _ => cases stores

/-! ## The calls of each request -/

variable [DecidableEq ι]

theorem follows_getChunk (task : ι) (chunkHash : ChunkHash) :
    Follows Edge.semantics EdgeRule task (Edge.getChunk chunkHash) []
      (fun data calls => Obtained calls chunkHash data ∧ AllStored calls)
      (fun calls => (∃ event ∈ calls, EdgeEvent.Misses chunkHash event) ∧ AllStored calls) := by
  refine .bind (.perform (.getCached chunkHash) ?_)
  rintro before _ _ ⟨clock, rfl, rfl⟩
  dsimp only [Ends]
  cases (before.gateway.getCached chunkHash clock).1 with
  | some data =>
      refine .pure ⟨⟨_, List.mem_singleton.mpr rfl, .inl rfl⟩, ?_⟩
      simp [AllStored, EdgeEvent.reads]
  | none =>
      refine .bind (.perform .selectNode ?_)
      rintro missed outcome _ ⟨_, rfl⟩
      cases outcome with
      | error failure => simp [Ends, AllStored, EdgeEvent.reads, EdgeEvent.Misses]
      | ok node =>
          dsimp only [Ends]
          refine .bind (.perform (.readChunk node chunkHash) ?_)
          intro selected outcome read _
          cases outcome with
          | error failure => simp [Ends, AllStored, EdgeEvent.reads, EdgeEvent.Misses]
          | ok data =>
              dsimp only [Ends]
              refine .bind (.perform (.putCache List.getLast?_concat rfl) ?_)
              rintro _ _ _ ⟨_, rfl, rfl⟩
              dsimp only [Ends]
              refine .pure ⟨?_, ?_⟩
              · exact ⟨⟨task, EdgeOp.readChunk node chunkHash, .ok data, selected, read⟩, by simp,
                  .inr rfl⟩
              · simp [AllStored, EdgeEvent.reads, EdgeEvent.stores]

/-- A request that is one call and reads nothing. -/
theorem follows_single {task : ι} {op : EdgeOp} (allowed : EdgeRule task [] op)
    (silent : ∀ outcome before after,
      EdgeEvent.reads (⟨task, op, outcome, before, after⟩ : EdgeEvent ι) = none) :
    Follows Edge.semantics EdgeRule task
      (perform (I := edge) op >>= fun _ => pure (none : Option Buffer)) []
      (fun _ calls => True ∧ AllStored calls) AllStored := by
  refine .bind (.perform allowed ?_)
  intro before outcome after _
  have stored : AllStored ([] ++ [⟨task, op, outcome, before, after⟩] : List (EdgeEvent ι)) := by
    simp [AllStored, silent]
  cases outcome with
  | ok value =>
      dsimp only [Ends]
      exact .pure ⟨trivial, stored⟩
  | error failure => exact stored

/-- **A request keeps the rule, and ends as it should.** -/
theorem follows_request (task : ι) (request : EdgeRequest) :
    Follows Edge.semantics EdgeRule task request.program []
      (fun data calls => request.Resolves data calls ∧ AllStored calls) AllStored := by
  cases request with
  | getChunk chunkHash =>
      refine .bind ((follows_getChunk task chunkHash).consequence ?_ fun _ => And.right)
      rintro data calls ⟨obtained, stored⟩
      exact .pure ⟨⟨data, rfl, obtained⟩, stored⟩
  | getChunkRange chunkHash startByte endByte =>
      refine .bind ?_
      unfold Edge.getChunkRange
      split
      · exact .throw (List.forall_mem_nil _)
      · split
        · exact .throw (List.forall_mem_nil _)
        · refine .bind ((follows_getChunk task chunkHash).consequence ?_ fun _ => And.right)
          rintro full calls ⟨obtained, stored⟩
          split
          · exact .throw stored
          · exact .pure (.pure ⟨⟨full, rfl, obtained⟩, stored⟩)
  | registerFileVersion fileId version chunkHashes =>
      exact follows_single (.registerFileVersion fileId version chunkHashes) fun _ _ _ => rfl
  | invalidateCache fileId version =>
      exact follows_single (.invalidateCache fileId version) fun _ _ _ => rfl
  | overwrite nodeId disk => exact follows_single (.overwrite nodeId disk) fun _ _ _ => rfl

/-! ## Every run -/

/-- **What holds of everything that is read** holds of the cache, now and after every call, and of
what has been found in it. -/
theorem related_of_reads {holds : ChunkHash → Buffer → Prop} {start : Edge}
    {moment : Moment edge ι Edge}
    (lawful : LawfulRun Edge.semantics (fun history task => EdgeRule task (callsOf task history))
      start moment)
    (initially : ∀ chunkHash data, start.gateway.cached chunkHash = some data →
      holds chunkHash data)
    (reads : ∀ event ∈ moment.history, ∀ chunkHash data,
      EdgeEvent.reads event = some (chunkHash, data) → holds chunkHash data) :
    (∀ chunkHash data, moment.state.gateway.cached chunkHash = some data →
        holds chunkHash data) ∧
      ∀ event ∈ moment.history,
        (∀ chunkHash data, event.after.gateway.cached chunkHash = some data →
          holds chunkHash data) ∧
        ∀ chunkHash data, EdgeEvent.finds event = some (chunkHash, data) →
          holds chunkHash data := by
  induction lawful with
  | start => exact ⟨initially, List.forall_mem_nil _⟩
  | @next before task op outcome after earlier keeps happens ih =>
      rw [Moment.history_next, List.forall_mem_append] at reads
      obtain ⟨now, old⟩ := ih reads.1
      have next : ∀ chunkHash data, after.gateway.cached chunkHash = some data →
          holds chunkHash data := by
        intro chunkHash data found
        rcases cached_step happens found with present | rfl
        · exact now chunkHash data present
        · -- the task has read what it stores
          cases keeps with
          | @putCache read _ _ last given =>
              have member := (mem_callsOf.mp (List.mem_of_getLast? last)).1
              exact reads.1 read member chunkHash data given
      refine ⟨next, ?_⟩
      rw [Moment.history_next, List.forall_mem_append, List.forall_mem_singleton]
      exact ⟨old, next, fun chunkHash data finds =>
        now chunkHash data (cached_of_finds happens finds)⟩

/-! ## A stored chunk -/

/-- A node that holds the byte 7. -/
def sevenStored : World :=
  ((StorageNodeImpl.writeChunk "n1" (knownDigests.digest [7]) [7]).run exec (.ofStore .empty)).2

end DistributedFileStorage.Delivery
