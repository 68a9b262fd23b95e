import DistributedFileStorage.Services.Calls

/-!
# The storage node

The methods of `StorageNodeImpl` that store, fetch, delete, check and list chunks, each
as a program over the file system calls of one node. A chunk lies in the
subdirectory named by the first two characters of its hash.

The hash function is a parameter. What the code relies on is that a digest is
written as 64 lower-case hexadecimal characters, which is the format that the
methods accept (`Sha256`).
-/

set_option autoImplicit false

namespace DistributedFileStorage.Nodes

open Async Store Services

/-- The character class `[a-f0-9]`. -/
def isHashCharacter (character : Char) : Bool :=
  ('a' ≤ character && character ≤ 'f') || ('0' ≤ character && character ≤ '9')

/-- The test `/^[a-f0-9]{64}$/` of `validateChunkHash`. -/
def validChunkHash (chunkHash : ChunkHash) : Bool :=
  chunkHash.length = 64 && chunkHash.toList.all isHashCharacter

/-- A hash function whose digests have the format of a chunk hash. -/
structure Sha256 where
  digest : Buffer → ChunkHash
  valid : ∀ data, validChunkHash (digest data) = true

/-- A hash function given by a table. A buffer that is not in the table gets a digest of
zeros. -/
def digestTable (table : List (Buffer × ChunkHash))
    (valid : ∀ entry ∈ table, validChunkHash entry.2 = true) : Sha256 where
  digest data := ((table.find? fun entry => entry.1 = data).map Prod.snd).getD
    (String.ofList (List.replicate 64 '0'))
  valid data := by
    cases found : table.find? fun entry => entry.1 = data with
    | none => decide
    | some entry => exact valid entry (List.mem_of_find?_eq_some found)

/-- SHA-256 on two buffers of one byte. -/
def knownDigests : Sha256 :=
  digestTable
    [([7], "ca358758f6d27e6cf45272937977a748fd88391db679ceda7dc7bf1f005ee879"),
      ([75], "86be9a55762d316a3026c2836d044f5fc76e34da10e1b45feee5f18be7edb177")]
    (by decide)

/-- `chunkHash.substring(0, 2)`. -/
def chunkPrefix (chunkHash : ChunkHash) : String := String.ofList (chunkHash.toList.take 2)

/-- The path of a chunk below the storage path. -/
def getChunkPath (chunkHash : ChunkHash) : Path := (chunkPrefix chunkHash, chunkHash)

theorem getChunkPath_injective : Function.Injective getChunkPath :=
  fun _ _ same => congrArg Prod.snd same

namespace StorageNodeImpl

def validateChunkHash (chunkHash : ChunkHash) : Async Unit :=
  if validChunkHash chunkHash then pure ()
  else reject s!"Invalid chunk hash format: {chunkHash}"

def writeChunk (nodeId : NodeId) (chunkHash : ChunkHash) (data : Buffer) : Async Unit := do
  validateChunkHash chunkHash
  Program.tryCatch
    (do
      disk nodeId (.mkdir (chunkPrefix chunkHash))
      disk nodeId (.writeFile (getChunkPath chunkHash) data)
      disk nodeId .countChunk)
    fun failure => reject s!"Failed to write chunk {chunkHash}: {failure.message}"

def readChunk (nodeId : NodeId) (chunkHash : ChunkHash) : Async Buffer := do
  validateChunkHash chunkHash
  Program.tryCatch (disk nodeId (.readFile (getChunkPath chunkHash))) fun failure =>
    if failure = .noEntry then reject s!"Chunk not found: {chunkHash}"
    else reject s!"Failed to read chunk {chunkHash}: {failure.message}"

def deleteChunk (nodeId : NodeId) (chunkHash : ChunkHash) : Async Unit := do
  validateChunkHash chunkHash
  Program.tryCatch
    (do
      disk nodeId (.unlink (getChunkPath chunkHash))
      disk nodeId .uncountChunk)
    fun failure =>
      -- a chunk that is already gone is not an error
      if failure = .noEntry then pure ()
      else reject s!"Failed to delete chunk {chunkHash}: {failure.message}"

def verifyChunkIntegrity (sha256 : Sha256) (nodeId : NodeId) (chunkHash : ChunkHash) :
    Async Bool := do
  validateChunkHash chunkHash
  Program.tryCatch
    (do
      let data ← readChunk nodeId chunkHash
      pure (decide (sha256.digest data = chunkHash)))
    -- a chunk that is missing or cannot be read is not intact
    fun _ => pure false

def getSubdirectories (nodeId : NodeId) : Async (List String) :=
  Program.tryCatch (disk nodeId .readSubdirectories) fun _ => pure []

def getChunkCount (nodeId : NodeId) : Async ℕ :=
  Program.tryCatch
    (do
      let subdirs ← getSubdirectories nodeId
      let count ← Program.foldEach
        (fun count subdir => do
          let files ← disk nodeId (.readdir subdir)
          pure (count + files.length)) 0 subdirs
      disk nodeId (.setChunkCount count)
      pure count)
    fun _ => pure 0

def listChunks (nodeId : NodeId) : Async (List ChunkHash) :=
  Program.tryCatch
    (do
      let subdirs ← getSubdirectories nodeId
      Program.foldEach
        (fun chunks subdir => do
          let files ← disk nodeId (.readdir subdir)
          pure (chunks ++ files)) [] subdirs)
    fun _ => pure []

end StorageNodeImpl

end DistributedFileStorage.Nodes

namespace DistributedFileStorage.Services

open Async Store Nodes

/-! ## The chunks of the nodes -/

/-- The bytes that a node stores under a hash. -/
def World.bytes (world : World) (nodeId : NodeId) (chunkHash : ChunkHash) : Option Buffer :=
  (world.nodes nodeId).disk.contents (getChunkPath chunkHash)

@[simp] theorem World.bytes_setStore (world : World) (db : Database) (nodeId : NodeId)
    (chunkHash : ChunkHash) : (world.setStore db).bytes nodeId chunkHash =
      world.bytes nodeId chunkHash := rfl

/-- The two worlds differ in the counters and subdirectories of the nodes at most. -/
structure SameChunks (before after : World) : Prop where
  store : after.store = before.store
  bytes : ∀ nodeId chunkHash, after.bytes nodeId chunkHash = before.bytes nodeId chunkHash

/-- The second world has the given bytes under one hash on one node, and is the
first one elsewhere. -/
structure SetsChunk (nodeId : NodeId) (chunkHash : ChunkHash) (data : Option Buffer)
    (before after : World) : Prop where
  store : after.store = before.store
  bytes : ∀ node hash, after.bytes node hash =
    if node = nodeId ∧ hash = chunkHash then data else before.bytes node hash

theorem World.bytes_setNode (world : World) (nodeId : NodeId) (node : StorageNode)
    (other : NodeId) (chunkHash : ChunkHash) :
    (world.setNode nodeId node).bytes other chunkHash =
      if other = nodeId then node.disk.contents (getChunkPath chunkHash)
      else world.bytes other chunkHash := by
  unfold World.bytes World.setNode
  by_cases same : other = nodeId
  · subst same
    simp
  · simp [same]

/-- Changing a node without changing the contents of its files keeps every chunk. -/
theorem sameChunks_setNode {world : World} {nodeId : NodeId} {node : StorageNode}
    (same : ∀ path, node.disk.contents path = (world.nodes nodeId).disk.contents path) :
    SameChunks world (world.setNode nodeId node) where
  store := rfl
  bytes other chunkHash := by
    rw [World.bytes_setNode]
    by_cases here : other = nodeId
    · subst here
      rw [if_pos rfl, same]
      rfl
    · rw [if_neg here]

theorem setsChunk_setNode {world : World} {nodeId : NodeId} {node : StorageNode}
    {chunkHash : ChunkHash} {data : Option Buffer}
    (sets : ∀ path, node.disk.contents path =
      if path = getChunkPath chunkHash then data else (world.nodes nodeId).disk.contents path) :
    SetsChunk nodeId chunkHash data world (world.setNode nodeId node) where
  store := rfl
  bytes other hash := by
    rw [World.bytes_setNode]
    by_cases here : other = nodeId
    · subst here
      simp only [sets, true_and, if_true, getChunkPath_injective.eq_iff]
      rfl
    · simp [here]

theorem exec_writeFile {world after : World} {nodeId : NodeId} {chunkHash : ChunkHash}
    {data : Buffer}
    (done : exec (.disk nodeId (.writeFile (getChunkPath chunkHash) data)) world = (.ok (), after)) :
    SetsChunk nodeId chunkHash (some data) world after := by
  have unfolded : world.flush nodeId
      ((world.nodes nodeId).disk.writeFile (getChunkPath chunkHash) data) = (.ok (), after) := done
  cases written : (world.nodes nodeId).disk.writeFile (getChunkPath chunkHash) data with
  | error failure =>
      rw [written] at unfolded
      cases unfolded
  | ok disk =>
      rw [written] at unfolded
      cases unfolded
      exact setsChunk_setNode fun path => Disk.contents_writeFile written path

theorem exec_unlink {world after : World} {nodeId : NodeId} {chunkHash : ChunkHash}
    (done : exec (.disk nodeId (.unlink (getChunkPath chunkHash))) world = (.ok (), after)) :
    SetsChunk nodeId chunkHash none world after := by
  have unfolded : world.flush nodeId
      ((world.nodes nodeId).disk.unlink (getChunkPath chunkHash)) = (.ok (), after) := done
  cases unlinked : (world.nodes nodeId).disk.unlink (getChunkPath chunkHash) with
  | error failure =>
      rw [unlinked] at unfolded
      cases unfolded
  | ok disk =>
      rw [unlinked] at unfolded
      cases unfolded
      exact setsChunk_setNode fun path => Disk.contents_unlink unlinked path

/-! ## Calls that may fail -/

/-- The second world is the first one, except that what one node holds under one hash may have
become one of the given contents. -/
structure PutsChunk (nodeId : NodeId) (chunkHash : ChunkHash) (contents : Option Buffer → Prop)
    (before after : World) : Prop where
  store : after.store = before.store
  bytes : ∀ node hash, after.bytes node hash = before.bytes node hash ∨
    node = nodeId ∧ hash = chunkHash ∧ contents (after.bytes node hash)

namespace PutsChunk

variable {nodeId : NodeId} {chunkHash : ChunkHash} {contents : Option Buffer → Prop}
  {first second third : World}

theorem refl (world : World) : PutsChunk nodeId chunkHash contents world world :=
  ⟨rfl, fun _ _ => .inl rfl⟩

theorem trans (earlier : PutsChunk nodeId chunkHash contents first second)
    (later : PutsChunk nodeId chunkHash contents second third) :
    PutsChunk nodeId chunkHash contents first third where
  store := later.store.trans earlier.store
  bytes node hash := by
    rcases later.bytes node hash with same | put
    · rw [same]
      exact earlier.bytes node hash
    · exact .inr put

theorem of_same (same : SameChunks first second) : PutsChunk nodeId chunkHash contents first second :=
  ⟨same.store, fun node hash => .inl (same.bytes node hash)⟩

theorem of_sets {data : Option Buffer} (sets : SetsChunk nodeId chunkHash data first second) :
    PutsChunk nodeId chunkHash (· = data) first second where
  store := sets.store
  bytes node hash := by
    rw [sets.bytes]
    by_cases here : node = nodeId ∧ hash = chunkHash
    · rw [if_pos here]
      exact .inr ⟨here.1, here.2, rfl⟩
    · rw [if_neg here]
      exact .inl rfl

/-- Other chunks, and the same chunk on other nodes, are as before. -/
theorem elsewhere (puts : PutsChunk nodeId chunkHash contents first second) {node : NodeId}
    {hash : ChunkHash} (different : ¬ (node = nodeId ∧ hash = chunkHash)) :
    second.bytes node hash = first.bytes node hash := by
  rcases puts.bytes node hash with same | ⟨here, there, _⟩
  · exact same
  · exact absurd ⟨here, there⟩ different

theorem mono {wider : Option Buffer → Prop} (puts : PutsChunk nodeId chunkHash contents first second)
    (weaken : ∀ held, contents held → wider held) :
    PutsChunk nodeId chunkHash wider first second :=
  ⟨puts.store, fun node hash => (puts.bytes node hash).imp_right fun put =>
    ⟨put.1, put.2.1, weaken _ put.2.2⟩⟩

/-- A call keeps what it adds to, when it works and when it fails. -/
theorem keeps {unreliable : NodeId → Bool} {world : World} {op : Call}
    (step : ∀ before, PutsChunk nodeId chunkHash contents before (exec op before).2)
    (fails : (Call.faultsOn unreliable).fallible op = true → ∀ damage before,
      PutsChunk nodeId chunkHash contents before (op.leaves damage before)) :
    Keeps (faultyOn unreliable) (PutsChunk nodeId chunkHash contents world)
      (Program.perform (I := system) op) :=
  keeps_call (fun before puts => puts.trans (step before)) fun fallible damage before puts =>
    puts.trans (fails fallible damage before)

theorem of_writeFile {bytes : Buffer} (world : World) :
    PutsChunk nodeId chunkHash (· = some bytes) world
      (exec (.disk nodeId (.writeFile (getChunkPath chunkHash) bytes)) world).2 := by
  cases written : (world.nodes nodeId).disk.writeFile (getChunkPath chunkHash) bytes with
  | error failure =>
      have unchanged : (exec (.disk nodeId (.writeFile (getChunkPath chunkHash) bytes)) world).2 =
          world := congrArg (fun result => (world.flush nodeId result).2) written
      rw [unchanged]
      exact .refl world
  | ok disk =>
      refine .of_sets (exec_writeFile ?_)
      exact Prod.ext (congrArg (fun result => (world.flush nodeId result).1) written) rfl

/-- A write that fails may leave any bytes. -/
theorem of_failedWrite {bytes : Buffer} (damage : Option Buffer) (world : World) :
    PutsChunk nodeId chunkHash (fun held => held.isSome = true) world
      (Call.leaves (.disk nodeId (.writeFile (getChunkPath chunkHash) bytes)) damage world) := by
  cases damage with
  | none => exact .refl world
  | some left => exact (of_writeFile world).mono fun held same => congrArg Option.isSome same

theorem of_unlink (world : World) :
    PutsChunk nodeId chunkHash (· = none) world
      (exec (.disk nodeId (.unlink (getChunkPath chunkHash))) world).2 := by
  cases unlinked : (world.nodes nodeId).disk.unlink (getChunkPath chunkHash) with
  | error failure =>
      have unchanged : (exec (.disk nodeId (.unlink (getChunkPath chunkHash))) world).2 = world :=
        congrArg (fun result => (world.flush nodeId result).2) unlinked
      rw [unchanged]
      exact .refl world
  | ok disk =>
      refine .of_sets (exec_unlink ?_)
      exact Prod.ext (congrArg (fun result => (world.flush nodeId result).1) unlinked) rfl

end PutsChunk

end DistributedFileStorage.Services

namespace DistributedFileStorage.Nodes.StorageNodeImpl

open Async Store Services

variable {nodeId : NodeId} {chunkHash : ChunkHash} {world : World} {unreliable : NodeId → Bool}

theorem run_validateChunkHash {S : Type} (handler : Handler system S) (state : S)
    (valid : validChunkHash chunkHash = true) :
    (validateChunkHash chunkHash).run handler state = (.ok (), state) := by
  rw [validateChunkHash, if_pos valid]
  rfl

/-- **A write without a fault** leaves the node with the data. -/
theorem triple_writeChunk (valid : validChunkHash chunkHash = true) (data : Buffer) :
    Triple exec.semantics (· = world) (writeChunk nodeId chunkHash data)
      (fun _ => SetsChunk nodeId chunkHash (some data) world) (fun _ => False) := by
  have created : Triple exec.semantics (· = world) (disk nodeId (.mkdir (chunkPrefix chunkHash)))
      (fun _ after => SameChunks world after ∧
        chunkPrefix chunkHash ∈ (after.nodes nodeId).disk.directories) (fun _ => False) := by
    refine .perform ?_
    rintro before outcome after rfl happens
    obtain ⟨rfl, rfl⟩ := Prod.mk.inj happens
    refine ⟨sameChunks_setNode fun path => rfl, ?_⟩
    rw [World.nodes_setNode, if_pos rfl]
    exact Disk.mem_directories_mkdir _ _
  have written : Triple exec.semantics (fun before => SameChunks world before ∧
        chunkPrefix chunkHash ∈ (before.nodes nodeId).disk.directories)
      (disk nodeId (.writeFile (getChunkPath chunkHash) data))
      (fun _ => SetsChunk nodeId chunkHash (some data) world) (fun _ => False) := by
    refine .perform ?_
    rintro before outcome after ⟨same, inside⟩ happens
    have present : (getChunkPath chunkHash).1 ∈ (before.nodes nodeId).disk.directories := inside
    obtain ⟨disk, works, _⟩ := Disk.exists_writeFile present data
    have writes : exec (.disk nodeId (.writeFile (getChunkPath chunkHash) data)) before =
        (.ok (), before.setNode nodeId { before.nodes nodeId with disk := disk }) :=
      congrArg (before.flush nodeId) works
    obtain ⟨rfl, rfl⟩ := Prod.mk.inj (writes.symm.trans happens)
    have sets := exec_writeFile writes
    exact ⟨sets.store.trans same.store, fun node hash => by rw [sets.bytes, same.bytes]⟩
  have counted : Triple exec.semantics (SetsChunk nodeId chunkHash (some data) world)
      (disk nodeId .countChunk) (fun _ => SetsChunk nodeId chunkHash (some data) world)
      (fun _ => False) := by
    refine .perform ?_
    rintro before outcome after sets happens
    obtain ⟨rfl, rfl⟩ := Prod.mk.inj happens
    have same : SameChunks before (exec (.disk nodeId .countChunk) before).2 :=
      sameChunks_setNode fun path => rfl
    exact ⟨same.store.trans sets.store, fun node hash => (same.bytes node hash).trans
      (sets.bytes node hash)⟩
  rw [writeChunk, validateChunkHash, if_pos valid]
  refine Triple.tryCatch (.bind created fun _ => .bind written fun _ => counted) fun _ => ?_
  exact .throw fun _ => id

/-- **A deletion without a fault** leaves the node without the chunk, whether it was there or
not. -/
theorem triple_deleteChunk (valid : validChunkHash chunkHash = true) :
    Triple exec.semantics (· = world) (deleteChunk nodeId chunkHash)
      (fun _ => SetsChunk nodeId chunkHash none world) (fun _ => False) := by
  rintro before outcome after rfl run
  have made := runs_semantics_iff.mp run
  rw [deleteChunk, Program.run_bind_ok exec (run_validateChunkHash exec before valid),
    Program.run_tryCatch] at made
  cases unlinked : (before.nodes nodeId).disk.unlink (getChunkPath chunkHash) with
  | error failure =>
      have fails : (disk nodeId (.unlink (getChunkPath chunkHash))).run exec before =
          (.error failure, before) := congrArg (before.flush nodeId) unlinked
      have missing : failure = .noEntry := by
        unfold Disk.unlink at unlinked
        split at unlinked
        · cases unlinked
        · exact (Except.error.inj unlinked).symm
      rw [Program.run_bind_error exec fails] at made
      dsimp only at made
      rw [if_pos missing] at made
      obtain ⟨rfl, rfl⟩ := Prod.mk.inj made
      refine ⟨rfl, fun node hash => ?_⟩
      split
      · rename_i here
        rw [here.1, here.2]
        exact Disk.contents_eq_none_of_unlink_error unlinked
      · rfl
  | ok disk =>
      have works : exec (.disk nodeId (.unlink (getChunkPath chunkHash))) before =
          (.ok (), before.setNode nodeId { before.nodes nodeId with disk := disk }) :=
        congrArg (before.flush nodeId) unlinked
      have ran : (Services.disk nodeId (.unlink (getChunkPath chunkHash))).run exec before =
          _ := works
      rw [Program.run_bind_ok exec ran] at made
      obtain ⟨rfl, rfl⟩ := Prod.mk.inj made
      have sets := exec_unlink works
      have same : SameChunks (before.setNode nodeId { before.nodes nodeId with disk := disk })
          (exec (.disk nodeId .uncountChunk) (before.setNode nodeId
            { before.nodes nodeId with disk := disk })).2 := sameChunks_setNode fun path => rfl
      exact ⟨same.store.trans sets.store, fun node hash => (same.bytes node hash).trans
        (sets.bytes node hash)⟩

theorem allCalls_validateChunkHash {allowed : Call → Prop} :
    (validateChunkHash chunkHash).AllCalls allowed := by
  unfold validateChunkHash
  split <;> trivial

/-- The calls of a deletion. -/
theorem allCalls_deleteChunk {allowed : Call → Prop}
    (unlink : allowed (.disk nodeId (.unlink (getChunkPath chunkHash))))
    (uncount : allowed (.disk nodeId .uncountChunk)) :
    (deleteChunk nodeId chunkHash).AllCalls allowed := by
  refine .bind allCalls_validateChunkHash fun _ =>
    .tryCatch (.bind (.perform unlink) fun _ => .perform uncount) fun failure => ?_
  dsimp only
  split <;> trivial

theorem keeps_validateChunkHash {invariant : World → Prop} :
    Keeps (faultyOn unreliable) invariant (validateChunkHash chunkHash) := by
  unfold validateChunkHash
  split
  · exact .pure
  · exact .throw

/-- **A deletion, whatever fails in it, takes away the bytes of its chunk on its node at
most.** -/
theorem keeps_deleteChunk :
    Keeps (faultyOn unreliable) (PutsChunk nodeId chunkHash (· = none) world)
      (deleteChunk nodeId chunkHash) := by
  refine keeps_validateChunkHash.bind fun _ => .tryCatch (.bind ?_ fun _ => ?_) fun failure => ?_
  · exact PutsChunk.keeps .of_unlink fun _ _ => .refl
  · exact PutsChunk.keeps (fun before => .of_same (sameChunks_setNode fun path => rfl))
      fun _ _ => .refl
  · split
    · exact .pure
    · exact .throw

/-- **A write, whatever fails in it, changes the bytes under its hash on its node at most.** They
become its own bytes, or, where writes can fail, any bytes. -/
theorem keeps_writeChunk {data : Buffer} :
    Keeps (faultyOn unreliable)
      (PutsChunk nodeId chunkHash
        (fun held => held = some data ∨ unreliable nodeId = true ∧ held.isSome = true) world)
      (writeChunk nodeId chunkHash data) := by
  refine keeps_validateChunkHash.bind fun _ =>
    .tryCatch (.bind ?_ fun _ => .bind ?_ fun _ => ?_) fun failure => .throw
  · exact PutsChunk.keeps (fun before => .of_same (sameChunks_setNode fun path => rfl))
      fun _ _ => .refl
  · refine PutsChunk.keeps (fun before => (PutsChunk.of_writeFile before).mono fun _ => .inl) ?_
    intro fallible damage before
    exact (PutsChunk.of_failedWrite damage before).mono fun _ some => .inr ⟨fallible, some⟩
  · exact PutsChunk.keeps (fun before => .of_same (sameChunks_setNode fun path => rfl))
      fun _ _ => .refl

/-- **A chunk that is read is the one that is stored.** -/
theorem triple_readChunk :
    Triple (faultyOn unreliable) (· = world) (readChunk nodeId chunkHash)
      (fun data after => after = world ∧ world.bytes nodeId chunkHash = some data) (· = world) := by
  have read : Triple (faultyOn unreliable) (· = world)
      (disk nodeId (.readFile (getChunkPath chunkHash)))
      (fun data after => after = world ∧ world.bytes nodeId chunkHash = some data)
      (· = world) := by
    refine .perform ?_
    rintro before outcome after rfl (works | ⟨_, ⟨failure, rfl⟩, damage, rfl⟩)
    · have reads : ((before.nodes nodeId).disk.readFile (getChunkPath chunkHash), before) =
          (outcome, after) := works
      obtain ⟨rfl, rfl⟩ := Prod.mk.inj reads
      rw [Disk.readFile_eq]
      unfold World.bytes
      cases (before.nodes nodeId).disk.contents (getChunkPath chunkHash) with
      | none => exact rfl
      | some data => exact ⟨rfl, rfl⟩
    · exact rfl
  refine Triple.bind keeps_validateChunkHash fun _ => read.tryCatch fun failure => ?_
  split
  · exact .throw fun _ holds => holds
  · exact .throw fun _ holds => holds

end DistributedFileStorage.Nodes.StorageNodeImpl
