import DistributedFileStorage.Nodes.ServerMachine

/-!
# The storage node server is a table of chunks

Requests are handled one after the other: a handler makes its calls without a pause, once the body
of the request has arrived. To its clients the server is then a table of chunks with some counters
(`ChunkService`), whatever requests they send. The table knows nothing of paths, of subdirectories
or of the measuring after each change (`serveAll_eq`).

The counters of the server are exact after every request, and what it stores has the digest under
which it is stored (`metrics_exact`).
-/

set_option autoImplicit false

namespace DistributedFileStorage.Nodes.StorageServer

open Async Store Paths Relational

/-! ## The specification -/

/-- A table of chunks, and the counters. -/
structure ChunkService where
  chunks : Chunks
  metrics : Metrics

namespace ChunkService

variable (service : ChunkService)

def json (status : ℕ) (fields : List (String × Value)) : Response :=
  { status, headers := jsonHeaders, body := .json fields }

/-- Answer with an error that is counted. -/
def refuse (status : ℕ) (fields : List (String × Value)) : Response × ChunkService :=
  (json status fields,
    { service with
      metrics := { service.metrics with errorCount := service.metrics.errorCount + 1 } })

/-- The counters of the table are those of its chunks. -/
def measured : ChunkService :=
  { service with
    metrics := { service.metrics with
      usedSpace := service.chunks.totalSize, chunkCount := service.chunks.count } }

def insert (chunkHash : String) (data : Buffer) : ChunkService :=
  measured
    { chunks := service.chunks.insertIfAbsent (chunkHash, data)
      metrics := { service.metrics with writeCount := service.metrics.writeCount + 1 } }

def remove (chunkHash : String) : ChunkService :=
  measured
    { chunks := service.chunks.delete chunkHash
      metrics := { service.metrics with deleteCount := service.metrics.deleteCount + 1 } }

/-- Only a hash of 64 characters is looked up. -/
def onHash (chunkHash : Option String) (handle : String → Response × ChunkService) :
    Response × ChunkService :=
  match chunkHash with
  | some chunkHash =>
      if chunkHash.length = 64 then handle chunkHash
      else service.refuse 400 [("error", .text "Invalid chunk hash")]
  | none => service.refuse 400 [("error", .text "Invalid chunk hash")]

def onChunk (chunkHash : Option String) (handle : String → Buffer → Response × ChunkService) :
    Response × ChunkService :=
  service.onHash chunkHash fun chunkHash =>
    match service.chunks.bytes chunkHash with
    | some data => handle chunkHash data
    | none => (json 404 [("error", .text "Chunk not found")], service)

variable (config : Config) (sha256 : Sha256)

def put (chunkHash : Option String) (body : Buffer) : Response × ChunkService :=
  service.onHash chunkHash fun chunkHash =>
    if sha256.digest body ≠ chunkHash then
      service.refuse 400 [("error", .text "Hash mismatch"), ("expected", .text chunkHash),
        ("computed", .text (sha256.digest body))]
    else if chunkHash ∈ service.chunks.keys then
      (json 200 [("message", .text "Chunk already exists"), ("chunkHash", .text chunkHash),
        ("nodeId", .text config.nodeId)], service)
    else
      (json 201 [("message", .text "Chunk written successfully"), ("chunkHash", .text chunkHash),
        ("size", .number body.length), ("nodeId", .text config.nodeId)],
        service.insert chunkHash body)

def get (chunkHash : Option String) : Response × ChunkService :=
  service.onChunk chunkHash fun chunkHash data =>
    if sha256.digest data ≠ chunkHash then
      service.refuse 500 [("error", .text "Chunk corrupted"), ("expected", .text chunkHash),
        ("computed", .text (sha256.digest data))]
    else
      ({ status := 200
         headers := corsHeaders ++ [("Content-Type", .text "application/octet-stream"),
           ("Content-Length", .number data.length), ("X-Chunk-Hash", .text chunkHash),
           ("X-Node-Id", .text config.nodeId)]
         body := .bytes data },
        { service with
          metrics := { service.metrics with readCount := service.metrics.readCount + 1 } })

def delete (chunkHash : Option String) : Response × ChunkService :=
  service.onChunk chunkHash fun chunkHash _ =>
    (json 200 [("message", .text "Chunk deleted successfully"), ("chunkHash", .text chunkHash),
      ("nodeId", .text config.nodeId)], service.remove chunkHash)

def verify (chunkHash : Option String) : Response × ChunkService :=
  service.onChunk chunkHash fun chunkHash data =>
    (json 200 [("chunkHash", .text chunkHash),
      ("isValid", .flag (sha256.digest data = chunkHash)),
      ("computedHash", .text (sha256.digest data)), ("nodeId", .text config.nodeId)], service)

/-- **The specification of the server.** -/
def answer (request : Request) : Response × ChunkService :=
  let pathname := request.pathname
  let parts := segments pathname
  if request.method = "OPTIONS" then
    ({ status := 200, headers := corsHeaders, body := .empty }, service)
  else if pathname = "/health" ∧ request.method = "GET" then
    (json 200 [("status", .text "healthy"), ("service", .text "storage-node"),
      ("nodeId", .text config.nodeId), ("availabilityZone", .text config.availabilityZone),
      ("region", .text config.region)],
      { service with metrics := { service.metrics with lastHeartbeat := request.date } })
  else if pathname = "/metrics" ∧ request.method = "GET" then
    ({ status := 200, headers := jsonHeaders, body := .metrics service.metrics }, service)
  else if namesChunk pathname ∧ request.method = "PUT" then
    service.put config sha256 parts.getLast? request.body.flatten
  else if namesChunk pathname ∧ request.method = "GET" then
    service.get config sha256 parts.getLast?
  else if namesChunk pathname ∧ request.method = "DELETE" then
    service.delete config parts.getLast?
  else if namesChunk pathname ∧ asksToVerify pathname ∧ request.method = "POST" then
    service.verify config sha256 parts[parts.length - 2]?
  else (json 404 [("error", .text "Not found")], service)

/-- The answers to some requests. -/
def answers : ChunkService → List Request → List Response × ChunkService
  | service, [] => ([], service)
  | service, request :: requests =>
      let answered := service.answer config sha256 request
      let rest := answers answered.2 requests
      (answered.1 :: rest.1, rest.2)

end ChunkService

/-- What the server responds to some requests. -/
def serveAll (config : Config) (sha256 : Sha256) :
    Server.State → List Request → List (Except String Response) × Server.State
  | state, [] => ([], state)
  | state, request :: requests =>
      let handled := (handleRequest config sha256 request).run (serve config) state
      let rest := serveAll config sha256 handled.2 requests
      (handled.1 :: rest.1, rest.2)

/-! ## One request -/

variable {config : Config} {sha256 : Sha256} {state : Server.State} {service : ChunkService}

/-- **The server stands where the table is.** -/
structure Mirrors (config : Config) (state : Server.State) (service : ChunkService) : Prop where
  stores : Stores config state.machine service.chunks
  metrics : state.metrics = service.metrics

/-- The handler responds as the table answers. -/
def Responds (config : Config) (state : Server.State) (handler : Server Response)
    (answered : Response × ChunkService) : Prop :=
  ∃ after, handler.run (serve config) state = (.ok answered.1, after) ∧
    Mirrors config after answered.2

namespace Responds

variable {handler : Server Response} {answered : Response × ChunkService}

/-- A handler that responds needs no `catch` block. -/
theorem guarded (responds : Responds config state handler answered) :
    Responds config state (StorageServer.guarded handler) answered := by
  obtain ⟨after, run, mirrors⟩ := responds
  exact ⟨after, by rw [StorageServer.guarded, Program.run_tryCatch, run], mirrors⟩

/-- A handler responds when it does after its first part. -/
theorem of_bind {α : Type} {program : Server α} {next : α → Server Response} {value : α}
    {between : Server.State} (first : program.run (serve config) state = (.ok value, between))
    (responds : Responds config between (next value) answered) :
    Responds config state (program >>= next) answered := by
  obtain ⟨after, run, mirrors⟩ := responds
  exact ⟨after, by rw [Program.run_bind_ok _ first, run], mirrors⟩

end Responds

namespace Mirrors

theorem respond (mirrors : Mirrors config state service) (status : ℕ)
    (fields : List (String × Value)) :
    Responds config state (StorageServer.respond status fields)
      (ChunkService.json status fields, service) :=
  ⟨state, rfl, mirrors⟩

/-- The metrics change alike. -/
theorem change (mirrors : Mirrors config state service) (update : Metrics → Metrics) :
    Mirrors config { state with metrics := update state.metrics }
      { service with metrics := update service.metrics } where
  stores := mirrors.stores
  metrics := congrArg update mirrors.metrics

theorem fail (mirrors : Mirrors config state service) (status : ℕ)
    (fields : List (String × Value)) :
    Responds config state (StorageServer.fail status fields) (service.refuse status fields) :=
  ⟨_, rfl, mirrors.change fun metrics => { metrics with errorCount := metrics.errorCount + 1 }⟩

theorem checkLength (mirrors : Mirrors config state service) {chunkHash : Option String}
    (whole : ∀ text, chunkHash = some text → '/' ∉ text.toList)
    {handle : String → Server Response} {answer : String → Response × ChunkService}
    (responds : ∀ text, Accepted text → Responds config state (handle text) (answer text)) :
    Responds config state (StorageServer.checkLength chunkHash handle)
      (service.onHash chunkHash answer) := by
  cases chunkHash with
  | none => exact mirrors.fail ..
  | some text =>
      unfold StorageServer.checkLength ChunkService.onHash
      dsimp only
      by_cases length : text.length = 64
      · have named : text ≠ "" := by
          rintro rfl
          exact absurd length (by decide)
        rw [if_pos length, if_neg (not_or.mpr ⟨named, not_not.mpr length⟩)]
        exact responds text ⟨whole text rfl, length⟩
      · rw [if_neg length, if_pos (.inr length)]
        exact mirrors.fail ..

/-! ### The calls on the file of a chunk -/

variable {chunkHash : String} {data : Buffer}

theorem locate_eq (accepted : Accepted chunkHash) :
    locate config.cwd (getChunkPath config chunkHash) = chunkLocation config chunkHash :=
  locate_getChunkPath accepted.1 accepted.2

theorem run_existsSync (mirrors : Mirrors config state service) (accepted : Accepted chunkHash) :
    (file (.existsSync (getChunkPath config chunkHash))).run (serve config) state =
      (.ok (decide (chunkHash ∈ service.chunks.keys)), state) := by
  have there : (chunkLocation config chunkHash ∈ state.machine.files.keys ∨
      chunkLocation config chunkHash ∈ state.machine.directories) ↔
        chunkHash ∈ service.chunks.keys := by
    rw [or_iff_left (mirrors.stores.noDirectory chunkHash accepted)]
    exact mirrors.stores.mem_keys_iff accepted
  rw [Program.run_perform]
  unfold serve Machine.access
  dsimp only
  rw [locate_eq accepted, decide_eq_decide.mpr there]

theorem run_readFileSync (mirrors : Mirrors config state service) (accepted : Accepted chunkHash)
    (stored : service.chunks.bytes chunkHash = some data) :
    (file (.readFileSync (getChunkPath config chunkHash))).run (serve config) state =
      (.ok data, state) := by
  have held := mirrors.stores.contents chunkHash accepted
  rw [Program.run_perform]
  unfold serve Machine.access
  dsimp only
  rw [locate_eq accepted, if_neg (mirrors.stores.noDirectory chunkHash accepted), held, stored]

/-- A chunk that is written is stored. -/
theorem run_writeFileSync (mirrors : Mirrors config state service)
    (valid : validChunkHash chunkHash = true) (absent : chunkHash ∉ service.chunks.keys) :
    ∃ after, (file (.writeFileSync (getChunkPath config chunkHash) data)).run (serve config) state =
        (.ok (), after) ∧
      Mirrors config after
        { service with chunks := service.chunks.insertIfAbsent (chunkHash, data) } := by
  have accepted := accepted_of_valid valid
  obtain ⟨i, bounded, inSubdir⟩ := exists_hexByte valid
  have parent : (chunkLocation config chunkHash).tail ∈ state.machine.directories := by
    rw [chunkLocation_of_valid bounded inSubdir]
    exact mirrors.stores.subdirs i bounded
  have stores : Stores config
      { state.machine with
        files := state.machine.files.upsert (chunkLocation config chunkHash, data) } _ :=
    mirrors.stores.write valid absent
  refine ⟨{ state with machine := _ }, ?_, stores, mirrors.metrics⟩
  rw [Program.run_perform]
  unfold serve Machine.access
  dsimp only
  rw [locate_eq accepted, if_neg (mirrors.stores.noDirectory chunkHash accepted), if_pos parent]

/-- A chunk that is unlinked is stored no more. -/
theorem run_unlinkSync (mirrors : Mirrors config state service) (accepted : Accepted chunkHash)
    (member : chunkHash ∈ service.chunks.keys) :
    ∃ after, (file (.unlinkSync (getChunkPath config chunkHash))).run (serve config) state =
        (.ok (), after) ∧
      Mirrors config after { service with chunks := service.chunks.delete chunkHash } := by
  have present := (mirrors.stores.mem_keys_iff accepted).mpr member
  have stores : Stores config
      { state.machine with
        files := state.machine.files.delete (chunkLocation config chunkHash) } _ :=
    mirrors.stores.delete
  refine ⟨{ state with machine := _ }, ?_, stores, mirrors.metrics⟩
  rw [Program.run_perform]
  unfold serve Machine.access
  dsimp only
  rw [locate_eq accepted, if_pos present]

/-- Measuring the disk takes the counters from the chunks. -/
theorem run_calculateUsedSpace (mirrors : Mirrors config state service) :
    ∃ after, (calculateUsedSpace config).run (serve config) state = (.ok (), after) ∧
      Mirrors config after service.measured := by
  refine ⟨_, mirrors.stores.run_calculateUsedSpace, mirrors.stores, ?_⟩
  dsimp only
  rw [mirrors.metrics]
  rfl

/-! ### The handlers -/

theorem mem_keys_of_bytes {chunks : Chunks} (stored : chunks.bytes chunkHash = some data) :
    chunkHash ∈ chunks.keys := by
  rw [← Table.isSome_find?_iff, ← Option.isSome_map (f := Prod.snd)]
  exact Option.isSome_iff_exists.mpr ⟨data, stored⟩

theorem notMem_keys_of_bytes {chunks : Chunks} (missing : chunks.bytes chunkHash = none) :
    chunkHash ∉ chunks.keys := by
  rw [← Table.isSome_find?_iff, ← Option.isSome_map (f := Prod.snd)]
  exact Option.not_isSome_iff_eq_none.mpr missing

theorem onChunk (mirrors : Mirrors config state service) {segment : Option String}
    (whole : ∀ text, segment = some text → '/' ∉ text.toList)
    {handle : String → String → Server Response}
    {answer : String → Buffer → Response × ChunkService}
    (responds : ∀ text data, Accepted text → service.chunks.bytes text = some data →
      Responds config state (handle text (getChunkPath config text)) (answer text data)) :
    Responds config state (StorageServer.onChunk config segment handle)
      (service.onChunk segment answer) := by
  refine mirrors.checkLength whole fun text accepted => Responds.guarded ?_
  refine Responds.of_bind (mirrors.run_existsSync accepted) ?_
  cases stored : service.chunks.bytes text with
  | none =>
      rw [if_neg (by simpa using notMem_keys_of_bytes stored)]
      exact mirrors.respond ..
  | some data =>
      rw [if_pos (by simpa using mem_keys_of_bytes stored)]
      exact responds text data accepted stored

theorem writeChunk (mirrors : Mirrors config state service) {segment : Option String}
    (whole : ∀ text, segment = some text → '/' ∉ text.toList) (body : Buffer) :
    Responds config state (StorageServer.writeChunk config sha256 segment body)
      (service.put config sha256 segment body) := by
  refine mirrors.checkLength whole fun text accepted => Responds.guarded ?_
  dsimp only
  by_cases agrees : sha256.digest body = text
  · subst agrees
    rw [if_neg (not_not.mpr rfl), if_neg (not_not.mpr rfl)]
    refine Responds.of_bind (mirrors.run_existsSync accepted) ?_
    by_cases present : sha256.digest body ∈ service.chunks.keys
    · rw [if_pos (decide_eq_true present), if_pos present]
      exact mirrors.respond ..
    · rw [if_neg (by simpa using present), if_neg present]
      obtain ⟨written, run, stored⟩ := mirrors.run_writeFileSync (sha256.valid body) present
      refine Responds.of_bind run ?_
      have counted := stored.change fun metrics =>
        { metrics with writeCount := metrics.writeCount + 1 }
      obtain ⟨after, measuring, measured⟩ := counted.run_calculateUsedSpace
      exact Responds.of_bind rfl (Responds.of_bind measuring (measured.respond ..))
  · rw [if_pos agrees, if_pos agrees]
    exact mirrors.fail ..

theorem readChunk (mirrors : Mirrors config state service) {segment : Option String}
    (whole : ∀ text, segment = some text → '/' ∉ text.toList) :
    Responds config state (StorageServer.readChunk config sha256 segment)
      (service.get config sha256 segment) := by
  refine mirrors.onChunk whole fun text data accepted stored => ?_
  refine Responds.of_bind (mirrors.run_readFileSync accepted stored) ?_
  dsimp only
  by_cases agrees : sha256.digest data = text
  · rw [if_neg (not_not.mpr agrees), if_neg (not_not.mpr agrees)]
    exact ⟨_, rfl, mirrors.change fun metrics =>
      { metrics with readCount := metrics.readCount + 1 }⟩
  · rw [if_pos agrees, if_pos agrees]
    exact mirrors.fail ..

theorem deleteChunk (mirrors : Mirrors config state service) {segment : Option String}
    (whole : ∀ text, segment = some text → '/' ∉ text.toList) :
    Responds config state (StorageServer.deleteChunk config segment)
      (service.delete config segment) := by
  refine mirrors.onChunk whole fun text data accepted stored => ?_
  obtain ⟨unlinked, run, removed⟩ := mirrors.run_unlinkSync accepted (mem_keys_of_bytes stored)
  refine Responds.of_bind run ?_
  have counted := removed.change fun metrics =>
    { metrics with deleteCount := metrics.deleteCount + 1 }
  obtain ⟨after, measuring, measured⟩ := counted.run_calculateUsedSpace
  exact Responds.of_bind rfl (Responds.of_bind measuring (measured.respond ..))

theorem verifyChunk (mirrors : Mirrors config state service) {segment : Option String}
    (whole : ∀ text, segment = some text → '/' ∉ text.toList) :
    Responds config state (StorageServer.verifyChunk config sha256 segment)
      (service.verify config sha256 segment) := by
  refine mirrors.onChunk whole fun text data accepted stored => ?_
  exact Responds.of_bind (mirrors.run_readFileSync accepted stored) (mirrors.respond ..)

/-- **The server responds to a request as the table answers it.** -/
theorem handleRequest (mirrors : Mirrors config state service) (request : Request) :
    Responds config state (StorageServer.handleRequest config sha256 request)
      (service.answer config sha256 request) := by
  have whole (text : String) (member : text ∈ segments request.pathname) : '/' ∉ text.toList :=
    slash_not_mem_of_mem_segments member
  have last (text : String) (taken : (segments request.pathname).getLast? = some text) :=
    whole text (List.mem_of_getLast? taken)
  have beforeLast (text : String)
      (taken : (segments request.pathname)[(segments request.pathname).length - 2]? = some text) :=
    whole text (List.mem_of_getElem? taken)
  unfold StorageServer.handleRequest ChunkService.answer
  dsimp only
  split
  · exact ⟨state, rfl, mirrors⟩
  split
  · exact ⟨_, rfl, mirrors.change fun metrics => { metrics with lastHeartbeat := request.date }⟩
  split
  · refine ⟨state, ?_, mirrors⟩
    rw [← mirrors.metrics]
    rfl
  split
  · exact mirrors.writeChunk last _
  split
  · exact mirrors.readChunk last
  split
  · exact mirrors.deleteChunk last
  split
  · exact mirrors.verifyChunk beforeLast
  · exact mirrors.respond ..

end Mirrors

/-! ## Runs of the server -/

/-- The metrics of a process that starts. -/
def Metrics.initial (date : Time) : Metrics where
  chunkCount := 0
  usedSpace := 0
  readCount := 0
  writeCount := 0
  deleteCount := 0
  errorCount := 0
  lastHeartbeat := date

/-- The server after its initial calculation. -/
def started (config : Config) (machine : Machine) (date : Time) : Server.State :=
  ((calculateUsedSpace config).run (serve config) ⟨machine, Metrics.initial date⟩).2

/-- The table of a server that starts with some chunks. -/
def ChunkService.started (chunks : Chunks) (date : Time) : ChunkService :=
  ChunkService.measured ⟨chunks, Metrics.initial date⟩

variable {machine : Machine} {chunks : Chunks}

theorem mirrors_started (date : Time) (stores : Stores config machine chunks) :
    Mirrors config (started config machine date) (ChunkService.started chunks date) := by
  have ready : Mirrors config ⟨machine, Metrics.initial date⟩ ⟨chunks, Metrics.initial date⟩ :=
    ⟨stores, rfl⟩
  obtain ⟨after, run, mirrors⟩ := ready.run_calculateUsedSpace
  unfold started
  rw [run]
  exact mirrors

/-- The server responds to the requests of a run as the table answers them. -/
theorem Mirrors.serveAll (mirrors : Mirrors config state service) (sha256 : Sha256)
    (requests : List Request) :
    (StorageServer.serveAll config sha256 state requests).1 =
        (service.answers config sha256 requests).1.map .ok ∧
      Mirrors config (StorageServer.serveAll config sha256 state requests).2
        (service.answers config sha256 requests).2 := by
  induction requests generalizing state service with
  | nil => exact ⟨rfl, mirrors⟩
  | cons request requests ih =>
      obtain ⟨after, run, next⟩ := mirrors.handleRequest request
      unfold StorageServer.serveAll ChunkService.answers
      dsimp only
      rw [run]
      obtain ⟨responses, final⟩ := ih next
      exact ⟨by rw [responses]; rfl, final⟩

/-- A machine on which a server has started for the first time. -/
def freshMachine (config : Config) : Machine where
  files := Table.empty _
  directories := (List.range 256).map (subdirLocation config)

theorem stores_fresh (config : Config) : Stores config (freshMachine config) (Table.empty _) where
  subdirs i bounded := List.mem_map_of_mem (List.mem_range.mpr bounded)
  contents _ _ := rfl
  valid _ member := absurd member List.not_mem_nil
  noDirectory := by
    intro chunkHash accepted member
    obtain ⟨i, inRange, same⟩ := List.mem_map.mp member
    have length := congrArg String.length (List.cons.inj same).1
    rw [String.length_ofList, length_hexByte i (List.mem_range.mp inRange), accepted.2] at length
    exact absurd length (by decide)
  inSubdir _ _ _ member := absurd member List.not_mem_nil
  noDirectoryInSubdir := by
    intro i bounded name member
    obtain ⟨j, _, same⟩ := List.mem_map.mp member
    have deeper := congrArg List.length same
    unfold subdirLocation at deeper
    simp only [List.length_cons] at deeper
    omega

/-- A chunk of one byte is written, read and deleted. -/
def chunkRequests : List Request :=
  let url := "/chunks/ca358758f6d27e6cf45272937977a748fd88391db679ceda7dc7bf1f005ee879"
  [{ method := "PUT", url, body := [[7]] }, { method := "GET", url }, { method := "DELETE", url }]

example : ((ChunkService.started (Table.empty _) 0).answers exampleNode knownDigests
    chunkRequests).1.map Response.status = [201, 200, 200] := by decide +kernel

/-! ## The counters -/

namespace ChunkService

/-- Every chunk has the digest under which it is stored. -/
def Intact (sha256 : Sha256) (chunks : Chunks) : Prop :=
  ∀ chunk ∈ chunks.rows, sha256.digest chunk.2 = chunk.1

/-- The response has the bytes of a chunk. -/
def hasBytes (response : Response) : Bool :=
  match response.body with
  | .bytes _ => true
  | _ => false

/-- What a request may do to a table of intact chunks. -/
inductive Change (sha256 : Sha256) (service : ChunkService) : Response → ChunkService → Prop
  | keeps (response : Response) (lastHeartbeat : Time)
      (status : response.status = 200 ∨ response.status = 404)
      (other : hasBytes response = false) :
      Change sha256 service response
        { service with metrics := { service.metrics with lastHeartbeat } }
  | reads (headers : List (String × Value)) (data : Buffer) :
      Change sha256 service ⟨200, headers, .bytes data⟩
        { service with
          metrics := { service.metrics with readCount := service.metrics.readCount + 1 } }
  | refuses (fields : List (String × Value)) :
      Change sha256 service (service.refuse 400 fields).1 (service.refuse 400 fields).2
  | inserts (fields : List (String × Value)) (data : Buffer)
      (absent : sha256.digest data ∉ service.chunks.keys) :
      Change sha256 service (json 201 fields) (service.insert (sha256.digest data) data)
  | removes (fields : List (String × Value)) (chunkHash : String)
      (stored : chunkHash ∈ service.chunks.keys) :
      Change sha256 service (json 200 fields) (service.remove chunkHash)

variable {request : Request}

theorem onHash_cases {segment : Option String} {answer : String → Response × ChunkService}
    (cases : ∀ text, Change sha256 service (answer text).1 (answer text).2) :
    Change sha256 service (service.onHash segment answer).1 (service.onHash segment answer).2 := by
  unfold onHash
  split
  · split
    · exact cases _
    · exact .refuses _
  · exact .refuses _

theorem onChunk_cases {segment : Option String}
    {answer : String → Buffer → Response × ChunkService}
    (cases : ∀ text data, (text, data) ∈ service.chunks.rows →
      Change sha256 service (answer text data).1 (answer text data).2) :
    Change sha256 service (service.onChunk segment answer).1
      (service.onChunk segment answer).2 := by
  refine onHash_cases fun text => ?_
  cases stored : service.chunks.bytes text with
  | none => exact .keeps _ _ (.inr rfl) rfl
  | some data =>
      obtain ⟨chunk, found, rfl⟩ := Option.map_eq_some_iff.mp stored
      obtain ⟨member, rfl⟩ := Table.find?_eq_some_iff.mp found
      exact cases _ _ member

/-- **What a request does to the table.** -/
theorem answer_cases (config : Config) (intact : Intact sha256 service.chunks) (request : Request) :
    Change sha256 service (service.answer config sha256 request).1
      (service.answer config sha256 request).2 := by
  unfold answer
  dsimp only
  split
  · exact .keeps _ _ (.inl rfl) rfl
  split
  · exact .keeps _ _ (.inl rfl) rfl
  split
  · exact .keeps _ _ (.inl rfl) rfl
  split
  · refine onHash_cases fun text => ?_
    split
    · exact .refuses _
    · rename_i agrees
      obtain rfl := not_not.mp agrees
      split
      · exact .keeps _ _ (.inl rfl) rfl
      · exact .inserts _ _ ‹_›
  split
  · refine onChunk_cases fun text data member => ?_
    rw [if_neg (not_not.mpr (intact _ member))]
    exact .reads _ _
  split
  · exact onChunk_cases fun text data member =>
      .removes _ _ (Table.key_mem_keys member)
  split
  · exact onChunk_cases fun text data _ => .keeps _ _ (.inl rfl) rfl
  · exact .keeps _ _ (.inr rfl) rfl

/-- How many of some responses have a status. -/
def numberOf (status : ℕ) (responses : List Response) : ℕ :=
  responses.countP fun response => response.status = status

/-- **The counters after some responses**, since the table was another one. -/
structure Exact (sha256 : Sha256) (before : ChunkService) (responses : List Response)
    (after : ChunkService) : Prop where
  intact : Intact sha256 after.chunks
  usedSpace : after.metrics.usedSpace = after.chunks.totalSize
  chunkCount : after.metrics.chunkCount = after.chunks.count
  readCount : after.metrics.readCount = before.metrics.readCount + responses.countP hasBytes
  writeCount : after.metrics.writeCount = before.metrics.writeCount + numberOf 201 responses
  errorCount : after.metrics.errorCount = before.metrics.errorCount + numberOf 400 responses
  /-- What was there and what was written is there or was deleted. -/
  balance : after.chunks.count + after.metrics.deleteCount + before.metrics.writeCount =
    before.chunks.count + before.metrics.deleteCount + after.metrics.writeCount
  statuses : ∀ response ∈ responses, response.status ∈ [200, 201, 400, 404]

variable {response : Response} {after : ChunkService}

/-- A request keeps the counters exact. -/
theorem Change.exact (change : Change sha256 service response after)
    (intact : Intact sha256 service.chunks)
    (usedSpace : service.metrics.usedSpace = service.chunks.totalSize)
    (chunkCount : service.metrics.chunkCount = service.chunks.count) :
    Exact sha256 service [response] after := by
  cases change with
  | keeps _ _ status other =>
      refine ⟨intact, usedSpace, chunkCount, by simp [other], ?_, ?_, rfl, ?_⟩
      all_goals rcases status with status | status <;> simp [numberOf, status]
  | reads =>
      exact ⟨intact, usedSpace, chunkCount, rfl, rfl, rfl, rfl, by simp⟩
  | refuses =>
      exact ⟨intact, usedSpace, chunkCount, rfl, rfl, rfl, rfl, by simp [refuse, json]⟩
  | inserts fields data absent =>
      have rows : (service.chunks.insertIfAbsent (sha256.digest data, data)).rows =
          service.chunks.rows ++ [(sha256.digest data, data)] := Table.rows_insertIfAbsent absent
      refine ⟨fun chunk member => ?_, rfl, rfl, rfl, rfl, rfl, ?_, by simp [json]⟩
      · rcases Table.mem_insertIfAbsent.mp member with old | ⟨-, rfl⟩
        · exact intact chunk old
        · rfl
      · show (service.chunks.insertIfAbsent (sha256.digest data, data)).rows.length +
          service.metrics.deleteCount + service.metrics.writeCount =
            service.chunks.rows.length + service.metrics.deleteCount +
              (service.metrics.writeCount + 1)
        rw [rows, List.length_append, List.length_singleton]
        omega
  | removes fields chunkHash stored =>
      obtain ⟨chunk, member, rfl⟩ := Table.mem_keys.mp stored
      have rows := (Table.perm_cons_delete member).length_eq
      refine ⟨fun other left => intact other (Table.mem_delete.mp left).1, rfl, rfl, rfl, rfl, rfl,
        ?_, by simp [json]⟩
      show (service.chunks.delete chunk.1).rows.length + (service.metrics.deleteCount + 1) +
        service.metrics.writeCount =
          service.chunks.rows.length + service.metrics.deleteCount + service.metrics.writeCount
      rw [List.length_cons] at rows
      omega

theorem Exact.trans {before between : ChunkService} {responses more : List Response}
    (first : Exact sha256 before responses between) (second : Exact sha256 between more after) :
    Exact sha256 before (responses ++ more) after where
  intact := second.intact
  usedSpace := second.usedSpace
  chunkCount := second.chunkCount
  readCount := by
    rw [second.readCount, first.readCount, List.countP_append, Nat.add_assoc]
  writeCount := by
    rw [second.writeCount, first.writeCount, numberOf, numberOf, numberOf, List.countP_append,
      Nat.add_assoc]
  errorCount := by
    rw [second.errorCount, first.errorCount, numberOf, numberOf, numberOf, List.countP_append,
      Nat.add_assoc]
  balance := by
    have early := first.balance
    have late := second.balance
    omega
  statuses response member := by
    rcases List.mem_append.mp member with early | late
    · exact first.statuses response early
    · exact second.statuses response late

/-- The counters are exact after any requests. -/
theorem answers_exact (config : Config) (intact : Intact sha256 service.chunks)
    (usedSpace : service.metrics.usedSpace = service.chunks.totalSize)
    (chunkCount : service.metrics.chunkCount = service.chunks.count) (requests : List Request) :
    Exact sha256 service (service.answers config sha256 requests).1
      (service.answers config sha256 requests).2 := by
  induction requests generalizing service with
  | nil => exact ⟨intact, usedSpace, chunkCount, rfl, rfl, rfl, rfl, nofun⟩
  | cons request requests ih =>
      have one := (answer_cases config intact request).exact intact usedSpace chunkCount
      exact one.trans (ih one.intact one.usedSpace one.chunkCount)

end ChunkService

end DistributedFileStorage.Nodes.StorageServer
