import DistributedFileStorage.Access.AccessControl
import DistributedFileStorage.Encoding.Decimal
import Mathlib.Data.Rat.Init

/-!
# The request handler of the gateway

The gateway parses the target of a request, finds the route, and answers with JSON. Whatever a route
throws is answered with the status 500, by the `catch` around all routes. The parse of the target
stands before the `try`.

The handler resolves and has written one response exactly when the target can be parsed
(`answers_handleRequest_iff`), whatever the request is and whatever its calls settle to. What the
runtime does with targets, JSON texts and the values of other services is a parameter.
-/

set_option autoImplicit false

namespace DistributedFileStorage.Gateway.HandleRequest

open Async Store Access Encoding
open Program (perform)

/-! ## Requests and responses -/

/-- What a JSON text stands for. -/
inductive Json where
  | null
  | bool (value : Bool)
  | number (value : ℚ)
  | string (value : String)
  | array (values : List Json)
  | object (properties : List (String × Json))

/-- The value of a property. `undefined` is `none`. -/
def Json.property (value : Json) (name : String) : Option Json :=
  match value with
  | .object properties => (properties.find? fun entry => entry.1 = name).map Prod.snd
  | _ => none

/-- Whatever is thrown. -/
inductive Thrown where
  /-- an instance of `Error` -/
  | error (message : String)
  | other

/-- `err instanceof Error ? err.message : 'Internal server error'`. -/
def Thrown.message : Thrown → String
  | error message => message
  | other => "Internal server error"

/-- What the handler reads of a request, apart from its body. -/
structure Request where
  method : Option String
  url : Option String
  host : Option String
  xUserId : Option String

structure Response where
  status : ℕ
  contentType : String
  contentLength : ℕ
  body : String
  deriving DecidableEq

/-- What the runtime does with texts and with the values of other services. -/
structure Runtime (Value : Type) where
  /-- `new URL(input, base).pathname`, or `none` where the constructor throws -/
  pathname (input base : String) : Option String
  /-- `JSON.parse` -/
  parse (text : String) : Except Thrown Json
  /-- `JSON.stringify`, which gives `undefined` for some values -/
  stringify (value : Value) : Except Thrown (Option String)

/-! ## The calls -/

variable {Value : Type}

/-- What the handler awaits of the request and of other services, and the response that it
writes. -/
inductive GatewayOp where
  | toISOString
  | readBody
  | getMetrics
  | createSession (fileId fileName totalChunks userId : Option Json)
  | markChunkUploaded (sessionId : String) (sequenceNumber : Option ℤ) (chunkHash : Option Json)
  | finalizeUpload (sessionId : String)
  | checkPermission (userId : UserId) (fileId : String) (operation : Operation)
  | getVersion (fileId : String) (version : Option ℤ)
  | listVersions (fileId : String)
  | getFile (fileId : String)
  | revokePermission (ownerId : UserId) (fileId : String) (targetUserId : UserId)
  | grantPermission (ownerId : UserId) (fileId : String) (targetUserId permission : Option Json)
  | deleteFile (fileId : String)
  | respond (response : Response)

@[reducible] def GatewayOp.Result (Value : Type) : GatewayOp → Type
  | toISOString => String
  | readBody => String
  | getMetrics => Value
  | createSession _ _ _ _ => Value
  | finalizeUpload _ => Value
  | checkPermission _ _ _ => Bool
  | getVersion _ _ => Value
  | listVersions _ => Value
  | getFile _ => Option Value
  | _ => Unit

abbrev gateway (Value : Type) : Interface := ⟨GatewayOp, GatewayOp.Result Value, Thrown⟩

/-- Every call settles to anything. The responses that have been written are the state. -/
def semantics : Semantics (gateway Value) (List Response)
  | .respond response, before, outcome, after => outcome = .ok () ∧ after = before ++ [response]
  | _, before, _, after => after = before

/-! ## JSON texts -/

/-- How a character stands in a JSON string. -/
def quoteCharacter (character : Char) : List Char :=
  if character = '"' then ['\\', '"']
  else if character = '\\' then ['\\', '\\']
  else if character.toNat = 8 then ['\\', 'b']
  else if character.toNat = 9 then ['\\', 't']
  else if character.toNat = 10 then ['\\', 'n']
  else if character.toNat = 12 then ['\\', 'f']
  else if character.toNat = 13 then ['\\', 'r']
  else if character.toNat < 32 then
    ['\\', 'u', '0', '0', (character.toNat / 16).digitChar, (character.toNat % 16).digitChar]
  else [character]

/-- `JSON.stringify` of a string. -/
def quote (text : String) : String :=
  String.ofList ('"' :: text.toList.flatMap quoteCharacter ++ ['"'])

/-- The second argument of `sendJson`. -/
inductive Body (Value : Type) where
  | health (timestamp : String)
  | ok
  | error (message : String)
  | value (value : Value)

/-- The text of a body. A value without a text has no byte length. -/
def encode (runtime : Runtime Value) : Body Value → Except Thrown String
  | .health timestamp =>
      .ok ("\x7b\"status\":\"ok\",\"timestamp\":" ++ quote timestamp ++ "\x7d")
  | .ok => .ok "\x7b\"ok\":true\x7d"
  | .error message => .ok ("\x7b\"error\":" ++ quote message ++ "\x7d")
  | .value value => do
      let json ← runtime.stringify value
      match json with
      | some text => pure text
      | none => throw (.error ("The \"string\" argument must be of type string or an instance " ++
          "of Buffer or ArrayBuffer. Received undefined"))

namespace APIGateway

/-! ## Helpers -/

def sendJson (runtime : Runtime Value) (status : ℕ) (body : Body Value) :
    Program (gateway Value) Unit := do
  let json ← (.done (encode runtime body) : Program (gateway Value) String)
  perform (I := gateway Value) (.respond
    { status := status, contentType := "application/json", contentLength := json.utf8ByteSize,
      body := json })

def extractUserId (request : Request) : UserId := request.xUserId.getD "anonymous"

/-- The destructuring of a JSON text that is parsed: `null` has no properties. -/
def parseObject (runtime : Runtime Value) (body firstName : String) : Except Thrown Json := do
  let value ← runtime.parse body
  match value with
  | .null => throw (.error
      ("Cannot destructure property '" ++ firstName ++ "' of 'JSON.parse(...)' as it is null."))
  | value => pure value

/-! ## The routes -/

variable (runtime : Runtime Value) (request : Request)

/-- `GET /health`. -/
def health : Program (gateway Value) Unit := do
  let timestamp ← perform (I := gateway Value) .toISOString
  sendJson runtime 200 (.health timestamp)

/-- `GET /metrics`. -/
def metrics : Program (gateway Value) Unit := do
  let metrics ← perform (I := gateway Value) .getMetrics
  sendJson runtime 200 (.value metrics)

/-- `POST /files/upload`. -/
def createUpload : Program (gateway Value) Unit := do
  let body ← perform (I := gateway Value) .readBody
  let fields ← (.done (parseObject runtime body "fileId") : Program (gateway Value) Json)
  let session ← perform (I := gateway Value) (.createSession (fields.property "fileId")
    (fields.property "fileName") (fields.property "totalChunks") (fields.property "userId"))
  sendJson runtime 201 (.value session)

/-- `PUT /files/upload/:sessionId/chunks/:seq`. -/
def uploadChunk (sessionId : String) (seqStr : String) : Program (gateway Value) Unit := do
  let body ← perform (I := gateway Value) .readBody
  let fields ← (.done (parseObject runtime body "chunkHash") : Program (gateway Value) Json)
  perform (I := gateway Value)
    (.markChunkUploaded sessionId (parseInt seqStr) (fields.property "chunkHash"))
  sendJson runtime 200 .ok

/-- `POST /files/upload/:sessionId/finalize`. -/
def finalizeUpload (sessionId : String) : Program (gateway Value) Unit := do
  let metadata ← perform (I := gateway Value) (.finalizeUpload sessionId)
  sendJson runtime 200 (.value metadata)

/-- The check of a permission, and what follows when it is granted. -/
def whenAllowed (fileId : String) (operation : Operation)
    (granted : Program (gateway Value) Unit) : Program (gateway Value) Unit := do
  let allowed ← perform (I := gateway Value)
    (.checkPermission (extractUserId request) fileId operation)
  if !allowed then sendJson runtime 403 (.error "Forbidden") else granted

/-- `GET /files/:fileId/versions/:version`. -/
def getVersion (fileId : String) (versionStr : String) : Program (gateway Value) Unit :=
  whenAllowed runtime request fileId .read do
    let version ← perform (I := gateway Value) (.getVersion fileId (parseInt versionStr))
    sendJson runtime 200 (.value version)

/-- `GET /files/:fileId/versions`. -/
def listVersions (fileId : String) : Program (gateway Value) Unit :=
  whenAllowed runtime request fileId .read do
    let versions ← perform (I := gateway Value) (.listVersions fileId)
    sendJson runtime 200 (.value versions)

/-- `GET /files/:fileId`. -/
def getFile (fileId : String) : Program (gateway Value) Unit :=
  whenAllowed runtime request fileId .read do
    let file ← perform (I := gateway Value) (.getFile fileId)
    match file with
    | none => sendJson runtime 404 (.error "Not found")
    | some file => sendJson runtime 200 (.value file)

/-- `DELETE /files/:fileId/permissions/:userId`. -/
def revokePermission (fileId : String) (targetUserId : UserId) : Program (gateway Value) Unit := do
  perform (I := gateway Value) (.revokePermission (extractUserId request) fileId targetUserId)
  sendJson runtime 200 .ok

/-- `POST /files/:fileId/permissions`. -/
def grantPermission (fileId : String) : Program (gateway Value) Unit := do
  let body ← perform (I := gateway Value) .readBody
  let fields ← (.done (parseObject runtime body "targetUserId") : Program (gateway Value) Json)
  perform (I := gateway Value) (.grantPermission (extractUserId request) fileId
    (fields.property "targetUserId") (fields.property "permission"))
  sendJson runtime 200 .ok

/-- `DELETE /files/:fileId`. -/
def deleteFile (fileId : String) : Program (gateway Value) Unit :=
  whenAllowed runtime request fileId .delete do
    perform (I := gateway Value) (.deleteFile fileId)
    sendJson runtime 200 .ok

end APIGateway

/-! ## The paths -/

/-- The parts of a path between its slashes. -/
def segments (path : String) : List String := (path.toList.splitOn '/').map String.ofList

/-- A match of `\d+`. -/
def isDigits (text : String) : Bool := text != "" && text.toList.all Char.isDigit

/-- `/^\/files\/upload\/([^/]+)\/chunks\/(\d+)$/`. -/
def chunkUploadMatch (path : String) : Option (String × String) :=
  match segments path with
  | ["", "files", "upload", sessionId, "chunks", seqStr] =>
      if sessionId != "" && isDigits seqStr then some (sessionId, seqStr) else none
  | _ => none

/-- `/^\/files\/upload\/([^/]+)\/finalize$/`. -/
def finalizeMatch (path : String) : Option String :=
  match segments path with
  | ["", "files", "upload", sessionId, "finalize"] =>
      if sessionId != "" then some sessionId else none
  | _ => none

/-- `/^\/files\/([^/]+)\/versions\/(\d+)$/`. -/
def versionMatch (path : String) : Option (String × String) :=
  match segments path with
  | ["", "files", fileId, "versions", versionStr] =>
      if fileId != "" && isDigits versionStr then some (fileId, versionStr) else none
  | _ => none

/-- `/^\/files\/([^/]+)\/versions$/` and `/^\/files\/([^/]+)\/permissions$/`. -/
def partMatch (part path : String) : Option String :=
  match segments path with
  | ["", "files", fileId, last] => if fileId != "" && last == part then some fileId else none
  | _ => none

/-- `/^\/files\/([^/]+)$/`. -/
def fileMatch (path : String) : Option String :=
  match segments path with
  | ["", "files", fileId] => if fileId != "" then some fileId else none
  | _ => none

/-- `/^\/files\/([^/]+)\/permissions\/([^/]+)$/`. -/
def revokeMatch (path : String) : Option (String × UserId) :=
  match segments path with
  | ["", "files", fileId, "permissions", targetUserId] =>
      if fileId != "" && targetUserId != "" then some (fileId, targetUserId) else none
  | _ => none

example : chunkUploadMatch "/files/upload/s1/chunks/12" = some ("s1", "12") ∧
    chunkUploadMatch "/files/upload//chunks/12" = none := by decide +kernel

namespace APIGateway

variable (runtime : Runtime Value) (request : Request)

/-- The `try` block of `handleRequest`: the first route whose method and path match. -/
def route (method path : String) : Program (gateway Value) Unit :=
  if method = "GET" ∧ path = "/health" then health runtime
  else if method = "GET" ∧ path = "/metrics" then metrics runtime
  else if method = "POST" ∧ path = "/files/upload" then createUpload runtime
  else if let some (sessionId, seqStr) :=
      (chunkUploadMatch path).filter fun _ => method = "PUT" then
    uploadChunk runtime sessionId seqStr
  else if let some sessionId := (finalizeMatch path).filter fun _ => method = "POST" then
    finalizeUpload runtime sessionId
  else if let some (fileId, versionStr) := (versionMatch path).filter fun _ => method = "GET" then
    getVersion runtime request fileId versionStr
  else if let some fileId := (partMatch "versions" path).filter fun _ => method = "GET" then
    listVersions runtime request fileId
  else if let some fileId := (fileMatch path).filter fun _ => method = "GET" then
    getFile runtime request fileId
  else if let some (fileId, targetUserId) :=
      (revokeMatch path).filter fun _ => method = "DELETE" then
    revokePermission runtime request fileId targetUserId
  else if let some fileId := (partMatch "permissions" path).filter fun _ => method = "POST" then
    grantPermission runtime request fileId
  else if let some fileId := (fileMatch path).filter fun _ => method = "DELETE" then
    deleteFile runtime request fileId
  else sendJson runtime 404 (.error "Not found")

/-- The path of the request, when its target can be parsed. -/
def pathOf : Option String :=
  runtime.pathname (request.url.getD "/") ("http://" ++ request.host.getD "localhost")

def handleRequest : Program (gateway Value) Unit :=
  match pathOf runtime request with
  | none => Program.throw (.error "Invalid URL")
  | some path =>
      Program.tryCatch (route runtime request (request.method.getD "GET") path) fun err =>
        sendJson runtime 500 (.error err.message)

end APIGateway

/-! ## One response -/

/-- Only a response is written. -/
theorem semantics_silent {op : GatewayOp} (silent : ∀ response, op ≠ .respond response)
    {before after : List Response} {outcome : Except Thrown (op.Result Value)}
    (happens : semantics op before outcome after) : after = before := by
  cases op with
  | respond response => exact absurd rfl (silent response)
  | _ => exact happens

/-- A program that has written one response when it resolves, and none when it rejects. -/
def AnswersOnce (program : Program (gateway Value) Unit) : Prop :=
  Triple semantics (· = []) program (fun _ responses => ∃ response, responses = [response]) (· = [])

namespace AnswersOnce

variable {runtime : Runtime Value} {request : Request}

theorem done_bind {α : Type} {outcome : Except Thrown α} {next : α → Program (gateway Value) Unit}
    (answers : ∀ value, AnswersOnce (next value)) :
    AnswersOnce ((.done outcome : Program (gateway Value) α) >>= next) := by
  cases outcome with
  | ok value => exact answers value
  | error failure => exact .throw fun _ => id

/-- A call before the response. -/
theorem perform_bind {op : GatewayOp}
    {next : GatewayOp.Result Value op → Program (gateway Value) Unit}
    (silent : ∀ response, op ≠ .respond response) (answers : ∀ value, AnswersOnce (next value)) :
    AnswersOnce (perform (I := gateway Value) op >>= next) := by
  refine Triple.through (fun _ responses => responses = []) (.perform ?_) answers
  rintro _ outcome after rfl happens
  have same := semantics_silent silent happens
  cases outcome with
  | ok value => exact same
  | error failure => exact same

theorem sendJson (status : ℕ) (body : Body Value) :
    AnswersOnce (APIGateway.sendJson runtime status body) := by
  refine done_bind fun json => .perform ?_
  rintro _ outcome _ rfl ⟨rfl, rfl⟩
  exact ⟨_, rfl⟩

theorem whenAllowed {fileId : String} {operation : Operation}
    {granted : Program (gateway Value) Unit} (answers : AnswersOnce granted) :
    AnswersOnce (APIGateway.whenAllowed runtime request fileId operation granted) := by
  refine perform_bind nofun fun allowed => ?_
  cases allowed with
  | false => exact sendJson 403 _
  | true => exact answers

/-- A call, and the response with what it resolves to. -/
theorem perform_sendJson {op : GatewayOp} {status : ℕ}
    {body : GatewayOp.Result Value op → Body Value}
    (silent : ∀ response, op ≠ .respond response) :
    AnswersOnce (perform (I := gateway Value) op >>= fun value =>
      APIGateway.sendJson runtime status (body value)) :=
  perform_bind silent fun _ => sendJson status _

/-- **Every route answers once.** -/
theorem route (method path : String) :
    AnswersOnce (APIGateway.route runtime request method path) := by
  unfold APIGateway.route
  split
  · exact perform_sendJson nofun
  split
  · exact perform_sendJson nofun
  split
  · exact perform_bind nofun fun body => done_bind fun fields => perform_sendJson nofun
  split
  · exact perform_bind nofun fun body => done_bind fun fields => perform_sendJson nofun
  split
  · exact perform_sendJson nofun
  split
  · exact whenAllowed (perform_sendJson nofun)
  split
  · exact whenAllowed (perform_sendJson nofun)
  split
  · refine whenAllowed (perform_bind nofun fun file => ?_)
    cases file with
    | none => exact sendJson 404 _
    | some file => exact sendJson 200 _
  split
  · exact perform_sendJson nofun
  split
  · exact perform_bind nofun fun body => done_bind fun fields => perform_sendJson nofun
  split
  · exact whenAllowed (perform_sendJson nofun)
  · exact sendJson 404 _

end AnswersOnce

/-! ## The handler -/

variable {runtime : Runtime Value} {request : Request}

/-- The program settles, and whatever its calls settle to, it resolves with one response
written. -/
structure Answers (program : Program (gateway Value) Unit) : Prop where
  settles : ∃ outcome responses, Runs semantics program [] outcome responses
  answers : ∀ outcome responses, Runs semantics program [] outcome responses →
    outcome = .ok () ∧ ∃ response, responses = [response]

/-- Every program settles, since its calls do. -/
theorem exists_runs {α : Type} (program : Program (gateway Value) α) (responses : List Response) :
    ∃ outcome after, Runs semantics program responses outcome after := by
  induction program generalizing responses with
  | done outcome => exact ⟨outcome, responses, .done outcome responses⟩
  | call op next ih =>
      have happens : ∃ (outcome : Except Thrown (op.Result Value)) (after : List Response),
          semantics op responses outcome after := by
        cases op with
        | respond response => exact ⟨.ok (), _, rfl, rfl⟩
        | _ => exact ⟨.error .other, responses, rfl⟩
      obtain ⟨outcome, after, happens⟩ := happens
      obtain ⟨final, last, run⟩ := ih outcome after
      exact ⟨final, last, .call happens run⟩

/-- The error message can always be written as JSON. -/
theorem triple_sendJson_error (status : ℕ) (message : String) :
    Triple semantics (· = []) (APIGateway.sendJson runtime status (.error message))
      (fun _ responses => ∃ response, responses = [response]) fun _ => False := by
  refine .perform ?_
  rintro _ outcome _ rfl ⟨rfl, rfl⟩
  exact ⟨_, rfl⟩

/-- What a route throws is answered too. -/
theorem triple_answered (method path : String) :
    Triple semantics (· = [])
      (Program.tryCatch (APIGateway.route runtime request method path) fun err =>
        APIGateway.sendJson runtime 500 (.error err.message))
      (fun _ responses => ∃ response, responses = [response]) fun _ => False :=
  (AnswersOnce.route method path).tryCatch fun err => triple_sendJson_error 500 err.message

/-- **The handler resolves with exactly one response**, whatever its calls settle to, if and only if
the target of the request can be parsed. -/
theorem answers_handleRequest_iff (runtime : Runtime Value) (request : Request) :
    Answers (APIGateway.handleRequest runtime request) ↔
      (APIGateway.pathOf runtime request).isSome = true := by
  unfold APIGateway.handleRequest
  cases parsed : APIGateway.pathOf runtime request with
  | none =>
      refine iff_of_false (fun holds => ?_) nofun
      cases (holds.answers _ _ (.done _ [])).1
  | some path =>
      refine iff_of_true ⟨exists_runs _ [], ?_⟩ rfl
      intro outcome responses run
      have ends := triple_answered _ path rfl run
      cases outcome with
      | ok value => exact ⟨rfl, ends⟩
      | error failure => exact ends.elim

/-! ## A target that cannot be parsed -/

/-- A runtime for which the target `//` is no URL, since its host is empty. -/
def slashRuntime : Runtime Unit :=
  { pathname := fun input _ => if input = "//" then none else some input
    parse := fun _ => .error (.error "Unexpected end of JSON input")
    stringify := fun _ => .ok none }

def slashRequest : Request :=
  { method := some "GET", url := some "//", host := some "localhost", xUserId := none }

/-- **A request for `//` gets no response**, and the handler rejects. -/
theorem slash_isNotAnswered :
    Runs semantics (APIGateway.handleRequest slashRuntime slashRequest) []
        (.error (.error "Invalid URL")) [] ∧
      ¬ Answers (APIGateway.handleRequest slashRuntime slashRequest) := by
  have rejects : Runs semantics (APIGateway.handleRequest slashRuntime slashRequest) []
      (.error (.error "Invalid URL")) [] := .done _ []
  refine ⟨rejects, fun holds => ?_⟩
  cases (holds.answers _ _ rejects).1

end DistributedFileStorage.Gateway.HandleRequest
