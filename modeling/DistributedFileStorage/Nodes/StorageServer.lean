import DistributedFileStorage.Nodes.StorageNode
import DistributedFileStorage.Paths.UrlPath

/-!
# The storage node server

The deployed storage node is an HTTP server over the synchronous file system calls of one
machine. A request handler is a program over these calls and the metrics of the server. A chunk is a
file below the data directory, in the subdirectory named by the first two characters of the hash in
the URL.

The server checks the length of that hash only, unlike `StorageNodeImpl`, which accepts hexadecimal
digits only. So the hash may begin with two dots: its subdirectory is then the parent of the data
directory (`accessesStayInside_iff`).
-/

set_option autoImplicit false

namespace DistributedFileStorage.Nodes

open Async Store Paths

namespace StorageServer

/-! ## The calls -/

/-- An entry of a directory other than the directory itself and its parent. -/
structure EntryName where
  name : String
  whole : '/' ∉ name.toList
  nonempty : name ≠ ""
  other : name ≠ "."
  below : name ≠ ".."

structure Metrics where
  chunkCount : ℕ
  usedSpace : ℕ
  readCount : ℕ
  writeCount : ℕ
  deleteCount : ℕ
  errorCount : ℕ
  lastHeartbeat : Time

/-- The calls of the `fs` module. -/
inductive FileOp where
  | existsSync (path : String)
  | readFileSync (path : String)
  | writeFileSync (path : String) (data : Buffer)
  | unlinkSync (path : String)
  | readdirSync (path : String)
  /-- The size that `fs.statSync` reports. -/
  | statSync (path : String)

def FileOp.path : FileOp → String
  | existsSync path => path
  | readFileSync path => path
  | writeFileSync path _ => path
  | unlinkSync path => path
  | readdirSync path => path
  | statSync path => path

@[reducible] def FileOp.Result : FileOp → Type
  | existsSync _ => Bool
  | readFileSync _ => Buffer
  | readdirSync _ => List EntryName
  | statSync _ => ℕ
  | _ => Unit

inductive ServerOp where
  | file (op : FileOp)
  | metrics
  | setMetrics (change : Metrics → Metrics)

@[reducible] def ServerOp.Result : ServerOp → Type
  | file op => op.Result
  | metrics => Metrics
  | setMetrics _ => Unit

/-- The interface of the request handlers. A call fails with the message of its error. -/
abbrev serverCalls : Interface := ⟨ServerOp, ServerOp.Result, String⟩

abbrev Server (α : Type) : Type := Program serverCalls α

abbrev file (op : FileOp) : Server op.Result := Program.perform (I := serverCalls) (.file op)

abbrev setMetrics (change : Metrics → Metrics) : Server Unit :=
  Program.perform (I := serverCalls) (.setMetrics change)

/-! ## Requests and responses -/

/-- The environment of the process. The data directory is `/data` unless another one is named. -/
structure Config where
  nodeId : String
  availabilityZone : String
  region : String
  capacity : ℕ
  dataDir : String := "/data"
  named : dataDir ≠ "" := by decide
  /-- The current directory, the names from it up to the root. -/
  cwd : List String

structure Request where
  method : String
  /-- The text of the URL after the host. -/
  url : String
  /-- The parts of the body as they arrive. -/
  body : List Buffer := []
  /-- When the request is handled. -/
  date : Time := 0

def Request.pathname (request : Request) : String := Paths.pathname request.url

inductive Value where
  | text (value : String)
  | number (value : ℕ)
  | flag (value : Bool)

inductive Body where
  | empty
  | json (fields : List (String × Value))
  /-- The metrics and the identity of the node. -/
  | metrics (reported : Metrics)
  | bytes (data : Buffer)

structure Response where
  status : ℕ
  headers : List (String × Value)
  body : Body

def corsHeaders : List (String × Value) :=
  [("Access-Control-Allow-Origin", .text "*"),
    ("Access-Control-Allow-Methods", .text "GET, POST, PUT, DELETE, OPTIONS"),
    ("Access-Control-Allow-Headers", .text "Content-Type")]

def jsonHeaders : List (String × Value) :=
  corsHeaders ++ [("Content-Type", .text "application/json")]

def respond (status : ℕ) (fields : List (String × Value)) : Server Response :=
  pure { status, headers := jsonHeaders, body := .json fields }

/-- Respond with an error that the metrics count. -/
def fail (status : ℕ) (fields : List (String × Value)) : Server Response := do
  setMetrics fun metrics => { metrics with errorCount := metrics.errorCount + 1 }
  respond status fields

/-- A `try` whose `catch` block responds with the message. -/
def guarded (body : Server Response) : Server Response :=
  body.tryCatch fun message => fail 500 [("error", .text message)]

/-! ## The request handlers -/

variable (config : Config) (sha256 : Sha256)

def getChunkPath (chunkHash : String) : String :=
  join [config.dataDir, chunkPrefix chunkHash, chunkHash]

/-- The subdirectory with a number, `00` to `ff`. -/
def subdir (i : ℕ) : String := join [config.dataDir, String.ofList (hexByte i)]

/-- Add the sizes and the number of the files of a subdirectory to the totals so far. -/
def measureSubdir (totals : ℕ × ℕ) (i : ℕ) : Server (ℕ × ℕ) := do
  if ← file (.existsSync (subdir config i)) then
    let files ← file (.readdirSync (subdir config i))
    Program.foldEach
      (fun totals entry => do
        let size ← file (.statSync (join [subdir config i, entry.name]))
        pure (totals.1 + size, totals.2 + 1)) totals files
  else pure totals

def calculateUsedSpace : Server Unit := do
  let (totalSize, count) ← Program.foldEach (measureSubdir config) (0, 0) (List.range 256)
  setMetrics fun metrics => { metrics with usedSpace := totalSize, chunkCount := count }

/-- Refuse a hash that is missing or has another length than 64. The path of a URL is ASCII, so that
its length is the number of its characters. -/
def checkLength (chunkHash : Option String) (handle : String → Server Response) :
    Server Response :=
  match chunkHash with
  | none => fail 400 [("error", .text "Invalid chunk hash")]
  | some chunkHash =>
      if chunkHash = "" ∨ chunkHash.length ≠ 64 then
        fail 400 [("error", .text "Invalid chunk hash")]
      else handle chunkHash

/-- What the handlers of a chunk that is there have in common. -/
def onChunk (chunkHash : Option String) (handle : String → String → Server Response) :
    Server Response :=
  checkLength chunkHash fun chunkHash => guarded do
    let chunkPath := getChunkPath config chunkHash
    if ← file (.existsSync chunkPath) then handle chunkHash chunkPath
    else respond 404 [("error", .text "Chunk not found")]

def writeChunk (chunkHash : Option String) (body : Buffer) : Server Response :=
  checkLength chunkHash fun chunkHash => guarded do
    let computedHash := sha256.digest body
    if computedHash ≠ chunkHash then
      fail 400 [("error", .text "Hash mismatch"), ("expected", .text chunkHash),
        ("computed", .text computedHash)]
    else
      let chunkPath := getChunkPath config chunkHash
      if ← file (.existsSync chunkPath) then
        respond 200 [("message", .text "Chunk already exists"), ("chunkHash", .text chunkHash),
          ("nodeId", .text config.nodeId)]
      else
        file (.writeFileSync chunkPath body)
        setMetrics fun metrics => { metrics with writeCount := metrics.writeCount + 1 }
        calculateUsedSpace config
        respond 201 [("message", .text "Chunk written successfully"),
          ("chunkHash", .text chunkHash), ("size", .number body.length),
          ("nodeId", .text config.nodeId)]

def readChunk (chunkHash : Option String) : Server Response :=
  onChunk config chunkHash fun chunkHash chunkPath => do
    let data ← file (.readFileSync chunkPath)
    let computedHash := sha256.digest data
    if computedHash ≠ chunkHash then
      fail 500 [("error", .text "Chunk corrupted"), ("expected", .text chunkHash),
        ("computed", .text computedHash)]
    else
      setMetrics fun metrics => { metrics with readCount := metrics.readCount + 1 }
      pure {
        status := 200
        headers := corsHeaders ++ [("Content-Type", .text "application/octet-stream"),
          ("Content-Length", .number data.length), ("X-Chunk-Hash", .text chunkHash),
          ("X-Node-Id", .text config.nodeId)]
        body := .bytes data }

def deleteChunk (chunkHash : Option String) : Server Response :=
  onChunk config chunkHash fun chunkHash chunkPath => do
    file (.unlinkSync chunkPath)
    setMetrics fun metrics => { metrics with deleteCount := metrics.deleteCount + 1 }
    calculateUsedSpace config
    respond 200 [("message", .text "Chunk deleted successfully"),
      ("chunkHash", .text chunkHash), ("nodeId", .text config.nodeId)]

def verifyChunk (chunkHash : Option String) : Server Response :=
  onChunk config chunkHash fun chunkHash chunkPath => do
    let data ← file (.readFileSync chunkPath)
    let computedHash := sha256.digest data
    respond 200 [("chunkHash", .text chunkHash), ("isValid", .flag (computedHash = chunkHash)),
      ("computedHash", .text computedHash), ("nodeId", .text config.nodeId)]

/-- `pathname.startsWith('/chunks/')`. -/
def namesChunk (pathname : String) : Bool := "/chunks/".toList.isPrefixOf pathname.toList

/-- `pathname.endsWith('/verify')`. -/
def asksToVerify (pathname : String) : Bool := "/verify".toList.isSuffixOf pathname.toList

def handleRequest (request : Request) : Server Response :=
  let pathname := request.pathname
  let parts := segments pathname
  if request.method = "OPTIONS" then pure { status := 200, headers := corsHeaders, body := .empty }
  else if pathname = "/health" ∧ request.method = "GET" then do
    setMetrics fun metrics => { metrics with lastHeartbeat := request.date }
    respond 200 [("status", .text "healthy"), ("service", .text "storage-node"),
      ("nodeId", .text config.nodeId), ("availabilityZone", .text config.availabilityZone),
      ("region", .text config.region)]
  else if pathname = "/metrics" ∧ request.method = "GET" then do
    let reported ← Program.perform (I := serverCalls) .metrics
    pure { status := 200, headers := jsonHeaders, body := .metrics reported }
  else if namesChunk pathname ∧ request.method = "PUT" then
    writeChunk config sha256 parts.getLast? request.body.flatten
  else if namesChunk pathname ∧ request.method = "GET" then
    readChunk config sha256 parts.getLast?
  else if namesChunk pathname ∧ request.method = "DELETE" then
    deleteChunk config parts.getLast?
  else if namesChunk pathname ∧ asksToVerify pathname ∧ request.method = "POST" then
    verifyChunk config sha256 parts[parts.length - 2]?
  else respond 404 [("error", .text "Not found")]

/-! ## Where the files are -/

/-- The location of the data directory. -/
def dataLocation : List String := locate config.cwd config.dataDir

/-- The names of a chunk file below the data directory, the last one first: 64 characters in a
subdirectory of two. -/
def IsChunkFile (below : List String) : Prop :=
  ∃ chunkHash subdirectory : String, chunkHash.length = 64 ∧ subdirectory.length = 2 ∧
    below = [chunkHash, subdirectory]

/-- The names of a subdirectory whose files are measured, or of an entry of it. -/
def IsMeasured (below : List String) : Prop :=
  ∃ i < 256, below = [String.ofList (hexByte i)] ∨
    ∃ entry : EntryName, below = [entry.name, String.ofList (hexByte i)]

/-- A path below the data directory, of a chunk file or of the used space. -/
def StaysInside (path : String) : Prop :=
  ∃ below, locate config.cwd path = below ++ dataLocation config ∧
    (IsChunkFile below ∨ IsMeasured below)

/-- A call that accesses no path outside the data directory. -/
def Confined : ServerOp → Prop
  | .file op => StaysInside config op.path
  | _ => True

/-- The segment that a request to read, delete or verify a chunk takes for the hash. -/
def Request.hashSegment (request : Request) : Option String :=
  let path := urlSegments request.url
  if path.head? = some "chunks" ∧ 2 ≤ path.length then
    if request.method = "GET" ∨ request.method = "DELETE" then path.getLast?
    else if request.method = "POST" ∧ path.getLast? = some "verify" then path.dropLast.getLast?
    else none
  else none

/-- The first two characters are dots. -/
def BeginsWithDots (chunkHash : String) : Prop := "..".toList <+: chunkHash.toList

instance : DecidablePred BeginsWithDots := fun _ => inferInstanceAs (Decidable (_ <+: _))

variable {config sha256}

theorem beginsWithDots_iff (chunkHash : String) :
    BeginsWithDots chunkHash ↔ chunkPrefix chunkHash = ".." := by
  unfold BeginsWithDots chunkPrefix
  rw [List.prefix_iff_eq_take, eq_comm]
  rw [← String.toList_inj, String.toList_ofList, String.toList_ofList]
  rfl

theorem locate_getChunkPath {chunkHash : String} (whole : '/' ∉ chunkHash.toList)
    (length : chunkHash.length = 64) :
    locate config.cwd (getChunkPath config chunkHash) =
      chunkHash :: follow (dataLocation config) (chunkPrefix chunkHash) := by
  have wholePrefix : '/' ∉ (chunkPrefix chunkHash).toList := by
    unfold chunkPrefix
    rw [String.toList_ofList]
    exact fun member => whole (List.mem_of_mem_take member)
  have name (short : String) (other : short.length ≠ 64) : chunkHash ≠ short :=
    fun same => other (same ▸ length)
  unfold getChunkPath
  rw [locate_join config.cwd config.named, List.foldl_cons, List.foldl_cons, List.foldl_nil,
    segments_eq_singleton whole, segments_eq_singleton wholePrefix]
  exact follow_name (name "" (by decide)) (name "." (by decide)) (name ".." (by decide))

theorem length_chunkPrefix {chunkHash : String} (length : chunkHash.length = 64) :
    (chunkPrefix chunkHash).length = 2 := by
  unfold chunkPrefix
  rw [String.length_ofList, List.length_take, String.length_toList, length]
  rfl

theorem length_hexByte : ∀ i < 256, (hexByte i).length = 2 := by decide +kernel

/-- **A chunk path stays inside exactly when the hash does not begin with two dots.** -/
theorem staysInside_getChunkPath {chunkHash : String} (whole : '/' ∉ chunkHash.toList)
    (length : chunkHash.length = 64) :
    StaysInside config (getChunkPath config chunkHash) ↔ ¬ BeginsWithDots chunkHash := by
  unfold StaysInside
  rw [locate_getChunkPath whole length, beginsWithDots_iff]
  constructor
  · rintro ⟨below, located, shape⟩ dots
    have above : chunkHash :: (dataLocation config).tail = below ++ dataLocation config := by
      rw [dots] at located
      exact located
    -- the parent of the data directory has fewer names on its way than a place below it
    have names := congrArg List.length above
    rw [List.length_cons, List.length_tail, List.length_append] at names
    obtain ⟨_, _, -, -, rfl⟩ | ⟨i, bounded, rfl | ⟨_, rfl⟩⟩ := shape
    · simp only [List.length_cons, List.length_nil] at names
      omega
    · -- at the root the parent is the root, but no subdirectory has a name of 64 characters
      have same := congrArg String.length (List.cons.inj above).1
      rw [length, String.length_ofList, length_hexByte i bounded] at same
      omega
    · simp only [List.length_cons, List.length_nil] at names
      omega
  · intro name
    have two := length_chunkPrefix length
    have other (short : String) (differs : short.length ≠ 2) : chunkPrefix chunkHash ≠ short :=
      fun same => differs (same ▸ two)
    refine ⟨[chunkHash, chunkPrefix chunkHash], ?_, .inl ⟨chunkHash, _, length, two, rfl⟩⟩
    rw [follow_name (other "" (by decide)) (other "." (by decide)) name]
    rfl

theorem hexByte_isName : ∀ i < 256, '/' ∉ hexByte i ∧ hexByte i ≠ ['.', '.'] := by decide +kernel

theorem locate_subdir {i : ℕ} (bounded : i < 256) :
    locate config.cwd (subdir config i) = String.ofList (hexByte i) :: dataLocation config := by
  obtain ⟨whole, name⟩ := hexByte_isName i bounded
  have two := length_hexByte i bounded
  have other (short : List Char) (differs : short.length ≠ 2) :
      String.ofList (hexByte i) ≠ String.ofList short := by
    intro same
    rw [String.ofList_inj] at same
    exact differs (same ▸ two)
  have descends : String.ofList (hexByte i) ≠ String.ofList ['.', '.'] := by
    rwa [Ne, String.ofList_inj]
  unfold subdir
  rw [locate_join config.cwd config.named, List.foldl_cons, List.foldl_nil,
    segments_eq_singleton (by simpa using whole)]
  exact follow_name (other [] (by decide)) (other ['.'] (by decide)) descends

theorem locate_entry {i : ℕ} (bounded : i < 256) (entry : EntryName) :
    locate config.cwd (join [subdir config i, entry.name]) =
      [entry.name, String.ofList (hexByte i)] ++ dataLocation config := by
  have named : subdir config i ≠ "" := join_ne_empty _
  rw [locate_join config.cwd named, List.foldl_cons, List.foldl_nil,
    segments_eq_singleton entry.whole]
  show follow (locate config.cwd (subdir config i)) entry.name = _
  rw [locate_subdir bounded, follow_name entry.nonempty entry.other entry.below]
  rfl

/-! ## What the handlers access -/

theorem setMetrics_confined (change : Metrics → Metrics) :
    (setMetrics change).AllCalls (Confined config) :=
  .perform trivial

theorem fail_confined (status : ℕ) (fields : List (String × Value)) :
    (fail status fields).AllCalls (Confined config) :=
  (setMetrics_confined _).bind fun _ => trivial

theorem guarded_confined {body : Server Response} (calls : body.AllCalls (Confined config)) :
    (guarded body).AllCalls (Confined config) :=
  calls.tryCatch fun _ => fail_confined 500 _

theorem measureSubdir_confined (totals : ℕ × ℕ) {i : ℕ} (bounded : i < 256) :
    (measureSubdir config totals i).AllCalls (Confined config) := by
  have here : StaysInside config (subdir config i) :=
    ⟨[_], locate_subdir bounded, .inr ⟨i, bounded, .inl rfl⟩⟩
  refine (Program.AllCalls.perform here).bind fun found => ?_
  cases found with
  | false => trivial
  | true =>
      refine (Program.AllCalls.perform here).bind fun files =>
        .foldEach (fun totals entry _ => ?_) _
      have inside : StaysInside config (join [subdir config i, entry.name]) :=
        ⟨_, locate_entry bounded entry, .inr ⟨i, bounded, .inr ⟨entry, rfl⟩⟩⟩
      exact (Program.AllCalls.perform inside).bind fun _ => trivial

theorem calculateUsedSpace_confined :
    (calculateUsedSpace config).AllCalls (Confined config) := by
  have measured : (Program.foldEach (measureSubdir config) (0, 0) (List.range 256)).AllCalls
      (Confined config) :=
    .foldEach (fun totals _ member => measureSubdir_confined totals (List.mem_range.mp member)) _
  exact measured.bind fun _ => setMetrics_confined _

/-- **A handler of a chunk accesses the path of its hash.** -/
theorem onChunk_confined_iff {chunkHash : String} {handle : String → String → Server Response}
    (whole : '/' ∉ chunkHash.toList)
    (confined : ∀ path, StaysInside config path →
      (handle chunkHash path).AllCalls (Confined config)) :
    (onChunk config (some chunkHash) handle).AllCalls (Confined config) ↔
      (chunkHash.length = 64 → ¬ BeginsWithDots chunkHash) := by
  unfold onChunk checkLength
  dsimp only
  split
  · rename_i refused
    refine iff_of_true (fail_confined 400 _) fun length => ?_
    rcases refused with rfl | other
    · exact absurd length (by decide)
    · exact absurd length other
  · rename_i accepted
    have length : chunkHash.length = 64 := not_not.mp (not_or.mp accepted).2
    have inside_iff : StaysInside config (getChunkPath config chunkHash) ↔
        ¬ BeginsWithDots chunkHash := staysInside_getChunkPath whole length
    rw [← inside_iff]
    constructor
    · exact fun calls _ => calls.1
    · intro inside
      refine guarded_confined ((Program.AllCalls.perform (inside length)).bind fun found => ?_)
      cases found with
      | false => trivial
      | true => exact confined _ (inside length)

theorem readChunk_confined_iff {chunkHash : String} (whole : '/' ∉ chunkHash.toList) :
    (readChunk config sha256 (some chunkHash)).AllCalls (Confined config) ↔
      (chunkHash.length = 64 → ¬ BeginsWithDots chunkHash) := by
  refine onChunk_confined_iff whole fun path inside => ?_
  refine (Program.AllCalls.perform inside).bind fun data => ?_
  dsimp only
  split
  · exact fail_confined 500 _
  · exact (setMetrics_confined _).bind fun _ => trivial

theorem deleteChunk_confined_iff {chunkHash : String} (whole : '/' ∉ chunkHash.toList) :
    (deleteChunk config (some chunkHash)).AllCalls (Confined config) ↔
      (chunkHash.length = 64 → ¬ BeginsWithDots chunkHash) := by
  refine onChunk_confined_iff whole fun path inside => ?_
  refine (Program.AllCalls.perform inside).bind fun _ => ?_
  refine (setMetrics_confined _).bind fun _ => ?_
  exact calculateUsedSpace_confined.bind fun _ => trivial

theorem verifyChunk_confined_iff {chunkHash : String} (whole : '/' ∉ chunkHash.toList) :
    (verifyChunk config sha256 (some chunkHash)).AllCalls (Confined config) ↔
      (chunkHash.length = 64 → ¬ BeginsWithDots chunkHash) := by
  refine onChunk_confined_iff whole fun path inside => ?_
  exact (Program.AllCalls.perform inside).bind fun _ => trivial

/-- A digest has no dots. -/
theorem not_beginsWithDots_digest (data : Buffer) : ¬ BeginsWithDots (sha256.digest data) := by
  rintro ⟨rest, text⟩
  have characters : (sha256.digest data).toList.all isHashCharacter = true := by
    have valid := sha256.valid data
    unfold validChunkHash at valid
    exact (Bool.and_eq_true_iff.mp valid).2
  rw [← text, List.all_append] at characters
  exact absurd (Bool.and_eq_true_iff.mp characters).1 (by decide)

/-- **A write stays inside**: the hash that it takes from the URL is a digest. -/
theorem writeChunk_confined {chunkHash : String} (whole : '/' ∉ chunkHash.toList) (body : Buffer) :
    (writeChunk config sha256 (some chunkHash) body).AllCalls (Confined config) := by
  unfold writeChunk checkLength
  dsimp only
  split
  · exact fail_confined 400 _
  · rename_i accepted
    have length : chunkHash.length = 64 := not_not.mp (not_or.mp accepted).2
    refine guarded_confined ?_
    split
    · exact fail_confined 400 _
    · rename_i same
      have dotless : ¬ BeginsWithDots (sha256.digest body) := not_beginsWithDots_digest body
      rw [not_not.mp same] at dotless
      have inside : StaysInside config (getChunkPath config chunkHash) :=
        (staysInside_getChunkPath whole length).mpr dotless
      refine (Program.AllCalls.perform inside).bind fun found => ?_
      cases found with
      | true => trivial
      | false =>
          refine (Program.AllCalls.perform inside).bind fun _ => ?_
          refine (setMetrics_confined _).bind fun _ => ?_
          exact calculateUsedSpace_confined.bind fun _ => trivial

/-! ## Which requests name a chunk -/

theorem namesChunk_iff (request : Request) : namesChunk request.pathname = true ↔
    (urlSegments request.url).head? = some "chunks" ∧ 2 ≤ (urlSegments request.url).length := by
  unfold namesChunk Request.pathname
  generalize request.url = url
  rw [List.isPrefixOf_iff_prefix]
  constructor
  · rintro ⟨rest, text⟩
    have split : Paths.pathname url = "" ++ "/" ++ ("chunks" ++ "/" ++ String.ofList rest) := by
      rw [← String.toList_inj, ← text]
      simp
    have parts := segments_pathname url
    rw [split, segments_append_slash, segments_append_slash,
      segments_eq_singleton (by decide : '/' ∉ "chunks".toList)] at parts
    have path : urlSegments url = "chunks" :: segments (String.ofList rest) :=
      (List.cons.inj parts).2.symm
    have some := List.length_pos_iff.mpr (segments_ne_nil (String.ofList rest))
    rw [path, List.length_cons]
    exact ⟨rfl, by omega⟩
  · rintro ⟨first, two⟩
    unfold Paths.pathname serialize
    generalize urlSegments url = path at first two
    match path, first, two with
    | _ :: second :: rest, rfl, _ =>
        rw [String.intercalate_cons_cons]
        exact ⟨("/".intercalate (second :: rest)).toList, by simp⟩

theorem asksToVerify_iff (request : Request) : asksToVerify request.pathname = true ↔
    (urlSegments request.url).getLast? = some "verify" := by
  unfold asksToVerify Request.pathname
  generalize request.url = url
  rw [List.isSuffixOf_iff_suffix]
  constructor
  · rintro ⟨start, text⟩
    have split : Paths.pathname url = String.ofList start ++ "/" ++ "verify" := by
      rw [← String.toList_inj, ← text]
      simp
    have parts := segments_pathname url
    rw [split, segments_append_slash,
      segments_eq_singleton (by decide : '/' ∉ "verify".toList)] at parts
    have last : ("" :: urlSegments url).getLast? = some "verify" := by
      rw [← parts]
      simp
    rwa [List.getLast?_cons_of_ne_nil (urlSegments_whole url).2] at last
  · intro last
    obtain ⟨start, path⟩ := List.getLast?_eq_some_iff.mp last
    unfold Paths.pathname serialize
    rw [path]
    by_cases none : start = []
    · subst none
      exact ⟨[], rfl⟩
    · rw [String.intercalate_append_of_ne_nil none (List.cons_ne_nil _ _)]
      exact ⟨("/" ++ "/".intercalate start).toList, by simp⟩

/-! ## Confinement -/

/-- A request that names no chunk accesses no file. -/
theorem handleRequest_confined {request : Request} (other : namesChunk request.pathname = false) :
    (handleRequest config sha256 request).AllCalls (Confined config) := by
  unfold handleRequest
  simp only [other, Bool.false_eq_true, false_and, if_false]
  split
  · trivial
  · split
    · exact (setMetrics_confined _).bind fun _ => trivial
    · split
      · exact (Program.AllCalls.perform trivial).bind fun _ => trivial
      · trivial

/-- The segment before the last one of a path, counted in the text that starts with a slash. -/
theorem getElem?_beforeLast {path : List String} (two : 2 ≤ path.length) :
    ("" :: path)[("" :: path).length - 2]? = path.dropLast.getLast? := by
  have index : ("" :: path).length - 2 = (path.length - 2) + 1 := by
    rw [List.length_cons]
    omega
  rw [index, List.getElem?_cons_succ, List.getLast?_eq_getElem?, List.length_dropLast,
    List.getElem?_dropLast, if_pos (by omega)]
  rfl

/-- What a handler that takes a segment of the URL for the hash accesses. -/
theorem confined_iff_of_segment {handle : Option String → Server Response} {path : List String}
    {segment : Option String} (whole : Whole path)
    (confined : ∀ chunkHash : String, '/' ∉ chunkHash.toList →
      ((handle (some chunkHash)).AllCalls (Confined config) ↔
        (chunkHash.length = 64 → ¬ BeginsWithDots chunkHash)))
    (taken : ∃ chunkHash ∈ path, segment = some chunkHash) :
    (handle segment).AllCalls (Confined config) ↔
      ∀ chunkHash, segment = some chunkHash →
        chunkHash.length = 64 → ¬ BeginsWithDots chunkHash := by
  obtain ⟨chunkHash, member, rfl⟩ := taken
  rw [confined chunkHash (whole chunkHash member)]
  simp

theorem exists_getLast? {path : List String} (nonempty : path ≠ []) :
    ∃ segment ∈ path, path.getLast? = some segment :=
  ⟨_, List.getLast_mem nonempty, List.getLast?_eq_getLast_of_ne_nil nonempty⟩

/-- **The handlers access no path outside the data directory** exactly when the segment of 64
characters that a request to read, delete or verify a chunk takes for the hash does not begin with
two dots. -/
theorem accessesStayInside_iff (config : Config) (sha256 : Sha256) (request : Request) :
    (handleRequest config sha256 request).AllCalls (Confined config) ↔
      ∀ chunkHash, request.hashSegment = some chunkHash →
        chunkHash.length = 64 → ¬ BeginsWithDots chunkHash := by
  cases names : namesChunk request.pathname with
  | false =>
      refine iff_of_true (handleRequest_confined names) fun chunkHash taken => ?_
      have other := mt (namesChunk_iff request).mpr (Bool.eq_false_iff.mp names)
      unfold Request.hashSegment at taken
      rw [if_neg other] at taken
      nomatch taken
  | true =>
      have below := (namesChunk_iff request).mp names
      have differs (path : String) (other : namesChunk path = false) : request.pathname ≠ path := by
        rintro rfl
        exact Bool.false_ne_true (other.symm.trans names)
      have parts : segments request.pathname = "" :: urlSegments request.url :=
        segments_pathname request.url
      obtain ⟨whole, nonempty⟩ := urlSegments_whole request.url
      have last := exists_getLast? nonempty
      unfold handleRequest Request.hashSegment
      simp only [names, differs "/health" (by decide), differs "/metrics" (by decide), false_and,
        if_false, true_and, if_pos below, parts, List.getLast?_cons_of_ne_nil nonempty,
        getElem?_beforeLast below.2, asksToVerify_iff]
      by_cases get : request.method = "GET"
      · simp only [get, String.reduceEq, if_false, if_true, true_or]
        exact confined_iff_of_segment whole (fun _ => readChunk_confined_iff) last
      by_cases delete : request.method = "DELETE"
      · simp only [delete, String.reduceEq, if_false, if_true, or_true]
        exact confined_iff_of_segment whole (fun _ => deleteChunk_confined_iff) last
      simp only [get, delete, if_false, or_self]
      by_cases verify : request.method = "POST" ∧
          (urlSegments request.url).getLast? = some "verify"
      · simp only [verify.1, verify.2, String.reduceEq, if_false, and_self, if_true]
        have shorter : (urlSegments request.url).dropLast ≠ [] := by
          rw [← List.length_pos_iff, List.length_dropLast]
          omega
        obtain ⟨chunkHash, member, taken⟩ := exists_getLast? shorter
        exact confined_iff_of_segment whole (fun _ => verifyChunk_confined_iff)
          ⟨chunkHash, List.dropLast_subset _ member, taken⟩
      · rw [if_neg verify]
        refine iff_of_true ?_ fun _ taken => nomatch taken
        split
        · trivial
        · split
          · obtain ⟨chunkHash, member, taken⟩ := last
            rw [taken]
            exact writeChunk_confined (whole chunkHash member) _
          · split
            · rename_i both
              exact absurd both.symm verify
            · trivial

/-- Two dots and 62 letters. -/
def dottedHash : String := String.ofList ('.' :: '.' :: List.replicate 62 'a')

/-- A storage node whose data directory is `/data`. -/
def exampleNode : Config where
  nodeId := "node-1"
  availabilityZone := "us-east-1a"
  region := "us-east-1"
  capacity := 107374182400
  cwd := []

/-- **A request may remove a file next to the data directory.** -/
theorem deletesBesideDataDir :
    getChunkPath exampleNode dottedHash = "/" ++ dottedHash ∧
      ¬ (handleRequest exampleNode knownDigests
        { method := "DELETE", url := "/chunks/" ++ dottedHash }).AllCalls
          (Confined exampleNode) := by
  have pathname : Paths.pathname ("/chunks/" ++ dottedHash) = "/chunks/" ++ dottedHash := by
    decide +kernel
  have last : (segments ("/chunks/" ++ dottedHash)).getLast? = some dottedHash := by
    decide +kernel
  have names : namesChunk ("/chunks/" ++ dottedHash) = true := by decide +kernel
  refine ⟨by decide +kernel, ?_⟩
  unfold handleRequest Request.pathname
  simp only [pathname, last, names, String.reduceEq, and_false, if_false, if_true, and_self]
  rw [deleteChunk_confined_iff (by decide)]
  exact fun dotless => dotless (by decide) (by decide)

end StorageServer

end DistributedFileStorage.Nodes
