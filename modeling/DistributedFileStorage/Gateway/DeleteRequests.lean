import DistributedFileStorage.Async.Interpretation
import DistributedFileStorage.Gateway.DeleteFile
import DistributedFileStorage.Gateway.HandleRequest

/-!
# A request to delete a file

The handler of the gateway finds the route of a request by its method and path, and answers whatever
the route throws. For `DELETE /files/:fileId`, with the access control and the store in the place of
its calls, it does what `ApiGateway.deleteRoute` does, and writes the response that this program
resolves to (`respondsAs_handleRequest`).
-/

set_option autoImplicit false

namespace DistributedFileStorage.Gateway

open Async Store Services Access Program
open HandleRequest (GatewayOp gateway Thrown Runtime Request)

variable {Value : Type}

/-! ## The calls of the handler -/

/-- What is thrown for a failure of the store, which is an instance of `Error`. -/
def thrown (failure : Failure) : Thrown := .error failure.message

/-- The access control and the store in the place of the calls of the handler. -/
def storeService : (op : GatewayOp) →
    Program (access.withReplies (gateway Value)) ((gateway Value).Outcome (op.Result Value))
  | .checkPermission userId fileId operation =>
      (AccessControlImpl.checkPermission userId fileId operation).serve thrown
  | .deleteFile fileId => (MetadataStoreImpl.deleteFile fileId).serve thrown
  | op => perform (I := access.withReplies (gateway Value)) (.inr op)

/-! ## Responses -/

/-- The JSON text of a body. -/
def Body.text : Body → String
  | .ok => "\x7b\"ok\":true\x7d"
  | .error message => "\x7b\"error\":" ++ HandleRequest.quote message ++ "\x7d"

/-- The response as it is written. -/
def Response.written (response : Response) : HandleRequest.Response :=
  { status := response.status
    contentType := "application/json"
    contentLength := response.body.text.utf8ByteSize
    body := response.body.text }

/-- The response of a program that resolves to one. -/
def responsesOf : access.Outcome Response → List HandleRequest.Response
  | .ok response => [response.written]
  | .error _ => []

/-- The calls of the access control, and the responses that have been written. -/
abbrev requested (Value : Type) :
    Semantics (access.withReplies (gateway Value)) (AccessState × List HandleRequest.Response) :=
  Semantics.beside timed HandleRequest.semantics

/-- The handler does what a program over the access control does, and writes the response that it
resolves to. -/
def RespondsAs (program : Program (gateway Value) Unit) (computed : Program access Response) :
    Prop :=
  ∀ before outcome after,
    Runs (requested Value) (program.implement storeService) before outcome after ↔
      ∃ settled, Runs timed computed before.1 settled after.1 ∧
        outcome = .ok ((settled.map fun _ => ()).mapError thrown) ∧
          after.2 = before.2 ++ responsesOf settled

namespace RespondsAs

theorem sendJson {runtime : Runtime Value} {status : ℕ} {body : Body}
    {value : HandleRequest.Body Value} (text : HandleRequest.encode runtime value = .ok body.text) :
    RespondsAs (HandleRequest.APIGateway.sendJson runtime status value) (pure ⟨status, body⟩) := by
  have writes : (HandleRequest.APIGateway.sendJson runtime status value).implement storeService =
      perform (I := access.withReplies (gateway Value))
        (.inr (.respond (Response.written ⟨status, body⟩))) := by
    unfold HandleRequest.APIGateway.sendJson
    rw [text]
    exact implement_perform _
  intro before outcome after
  rw [writes, Runs.perform_iff]
  simp only [Runs.pure_iff]
  constructor
  · rintro ⟨⟨_, rfl, rfl, last⟩, first⟩
    exact ⟨_, ⟨rfl, first⟩, rfl, last⟩
  · rintro ⟨_, ⟨rfl, first⟩, rfl, last⟩
    exact ⟨⟨_, rfl, rfl, last⟩, first⟩

/-- A call that a program of the access control serves. -/
theorem call {op : GatewayOp} {program : Program access (op.Result Value)}
    {next : op.Result Value → Program (gateway Value) Unit}
    {computed : op.Result Value → Program access Response}
    (serves : storeService op = program.serve thrown)
    (responds : ∀ value, RespondsAs (next value) (computed value)) :
    RespondsAs (perform (I := gateway Value) op >>= next) (program >>= computed) := by
  intro before outcome after
  rw [implement_bind, implement_perform, serves, Runs.bind_iff]
  constructor
  · rintro (⟨reply, middle, served, rest⟩ | ⟨failure, served, _⟩)
    · obtain ⟨settled, run, same, kept⟩ := Runs.serve_iff.mp served
      obtain rfl := Except.ok.inj same
      cases settled with
      | ok value =>
          obtain ⟨last, later, ended, written⟩ := (responds value _ _ _).mp rest
          exact ⟨last, Runs.bind_ok run later, ended, kept ▸ written⟩
      | error failure =>
          obtain ⟨rfl, rfl⟩ := Runs.pure_iff.mp rest
          exact ⟨.error failure, Runs.bind_error run, rfl, kept.trans (List.append_nil _).symm⟩
    · obtain ⟨settled, _, same, _⟩ := Runs.serve_iff.mp served
      cases same
  · rintro ⟨settled, run, rfl, written⟩
    rcases Runs.bind_iff.mp run with ⟨value, middle, first, rest⟩ | ⟨failure, first, rfl⟩
    · have served : Runs (requested Value) (program.serve thrown) before
          (.ok (.ok value)) (middle, before.2) := Runs.serve_iff.mpr ⟨.ok value, first, rfl, rfl⟩
      exact .inl ⟨_, _, served, (responds value _ _ _).mpr ⟨settled, rest, rfl, written⟩⟩
    · have served : Runs (requested Value) (program.serve thrown) before
          (.ok (.error (thrown failure))) after :=
        Runs.serve_iff.mpr ⟨.error failure, first, rfl, written.trans (List.append_nil _)⟩
      exact .inl ⟨_, _, served, Runs.pure_iff.mpr ⟨rfl, rfl⟩⟩

/-- What is thrown is handled in the same way. -/
theorem tryCatch {program : Program (gateway Value) Unit} {computed : Program access Response}
    {handle : Thrown → Program (gateway Value) Unit} {caught : Failure → Program access Response}
    (body : RespondsAs program computed)
    (handler : ∀ failure, RespondsAs (handle (thrown failure)) (caught failure)) :
    RespondsAs (program.tryCatch handle) (computed.tryCatch caught) := by
  intro before outcome after
  rw [implement_tryCatch, Runs.bind_iff]
  constructor
  · rintro (⟨reply, middle, tried, rest⟩ | ⟨failure, tried, _⟩)
    · obtain ⟨settled, run, same, written⟩ := (body _ _ _).mp tried
      obtain rfl := Except.ok.inj same
      cases settled with
      | ok response =>
          obtain ⟨rfl, rfl⟩ := Runs.pure_iff.mp rest
          exact ⟨.ok response, Runs.tryCatch_ok run, rfl, written⟩
      | error failure =>
          obtain ⟨last, later, ended, more⟩ := (handler failure _ _ _).mp rest
          rw [written, responsesOf, List.append_nil] at more
          exact ⟨last, Runs.tryCatch_error run later, ended, more⟩
    · obtain ⟨settled, _, same, _⟩ := (body _ _ _).mp tried
      cases same
  · rintro ⟨settled, run, rfl, written⟩
    rcases Runs.tryCatch_iff.mp run with ⟨response, first, rfl⟩ | ⟨failure, middle, first, rest⟩
    · have tried := (body before (.ok (.ok ())) after).mpr ⟨.ok response, first, rfl, written⟩
      exact .inl ⟨_, _, tried, Runs.pure_iff.mpr ⟨rfl, rfl⟩⟩
    · have tried := (body before (.ok (.error (thrown failure))) (middle, before.2)).mpr
        ⟨.error failure, first, rfl, (List.append_nil _).symm⟩
      exact .inl ⟨_, _, tried, (handler failure _ _ _).mpr ⟨settled, rest, rfl, written⟩⟩

end RespondsAs

/-! ## The route -/

open HandleRequest (fileMatch revokeMatch)
open HandleRequest.APIGateway (extractUserId handleRequest pathOf route)

/-- A path of a file has no further part. -/
theorem revokeMatch_eq_none {path fileId : String} (isFile : fileMatch path = some fileId) :
    revokeMatch path = none := by
  unfold fileMatch at isFile
  unfold revokeMatch
  split at isFile
  · rename_i parts
    rw [parts]
    rfl
  · cases isFile

theorem route_delete {runtime : Runtime Value} {request : Request} {path fileId : String}
    (isFile : fileMatch path = some fileId) :
    route runtime request "DELETE" path =
      HandleRequest.APIGateway.deleteFile runtime request fileId := by
  unfold route
  simp [revokeMatch_eq_none isFile, isFile, Option.filter_some]

/-- **A request to delete a file does what `deleteRoute` does**, for the user of the request and the
text of the path, and writes its response. -/
theorem respondsAs_handleRequest {runtime : Runtime Value} {request : Request}
    {path fileId : String} (method : request.method = some "DELETE")
    (parsed : pathOf runtime request = some path) (isFile : fileMatch path = some fileId) :
    RespondsAs (handleRequest runtime request)
      (ApiGateway.deleteRoute (extractUserId request) fileId) := by
  unfold handleRequest
  rw [parsed, method]
  show RespondsAs (Program.tryCatch (route runtime request "DELETE" path) _) _
  rw [route_delete isFile]
  refine .tryCatch (.call rfl fun allowed => ?_) fun failure => .sendJson rfl
  cases allowed with
  | false => exact .sendJson rfl
  | true => exact .call rfl fun _ => .sendJson rfl

end DistributedFileStorage.Gateway
