import Strongroom.Custodian
import Strongroom.Json.Reader

/-!
Requests on permissions and renewal, answered with a status and a body. Every request leaves a
record with the status of its response; a caller who could not be authenticated leaves a record of
that.
-/

namespace Strongroom

structure Response where
  status : UInt16
  body : Option Json
deriving Repr

namespace Response

def errorBody (text : String) : Json := .record [("error", .string text)]

def ofFault (fault : Fault) : Response := ⟨fault.status, some (errorBody fault.response)⟩

def ofAnswer : Answer → Response
  | .permissions v => ⟨Custodian.okStatus, some v.toJson⟩
  | .names ns =>
    ⟨Custodian.okStatus, some (.record [("regenerated_credentials", .list Json.string ns)])⟩
  | _ => ⟨Custodian.noContentStatus, none⟩

def of : Except Fault Answer → Response
  | .ok a => ofAnswer a
  | .error fault => ofFault fault

end Response

namespace Api

inductive Endpoint
  | permissions
  | renewal
deriving DecidableEq, Repr

def Endpoint.path : Endpoint → String
  | permissions => "/permissions"
  | renewal => "/bulk-regenerate"

/-- A request as it arrives: the parameters of the query and the text of the body. -/
inductive Request
  | getPermissions (name : Option String)
  | postPermissions (body : String)
  | deletePermissions (name actor : Option String)
  | postRenewal (body : String)
deriving DecidableEq, Repr

namespace Request

def method : Request → String
  | getPermissions _ => "GET"
  | postPermissions _ | postRenewal _ => "POST"
  | deletePermissions _ _ => "DELETE"

def endpoint : Request → Endpoint
  | getPermissions _ | postPermissions _ | deletePermissions _ _ => .permissions
  | postRenewal _ => .renewal

def permissionsCall? (j : Json) : Option Call := do
  let fields ← Json.Fields.ofJson? ["credential_name", "permissions"] j
  let name ← fields.required "credential_name" Json.toText?
  let entries ← fields.defaulted "permissions" [] (Json.toList? Permission.ofJson?)
  return .setPermissions name entries

def renewalCall? (j : Json) : Option Call := do
  let fields ← Json.Fields.ofJson? ["signed_by"] j
  let signedBy ← fields.defaulted "signed_by" none (Json.toOption? Json.toText?)
  return .renewBelow signedBy

def call : Request → Except Fault Call
  | getPermissions (some name) => .ok (.listPermissions name)
  | getPermissions none => .error (.validation .missingName)
  | deletePermissions (some name) (some actor) => .ok (.deletePermission name actor)
  | deletePermissions _ _ => .error (.validation .badRequest)
  | postPermissions body =>
    match (Json.ofText? body).bind permissionsCall? with
    | some call => .ok call
    | none => .error (.validation .badRequest)
  | postRenewal body =>
    match (Json.ofText? body).bind renewalCall? with
    | some call => .ok call
    | none => .error (.validation .badRequest)

end Request

def answer (c : Custodian) (caller : Caller) (occasion : Occasion) (request : Request) :
    Response × Custodian :=
  match request.call with
  | .error fault => (.ofFault fault, c)
  | .ok call =>
    let (result, c) := c.perform caller occasion call
    (.of result, c)

def handle (c : Custodian) (caller : Caller) (occasion : Occasion) (request : Request) :
    Response × Custodian :=
  let (response, c) := answer c caller occasion request
  let record := RequestRecord.of caller request.method request.endpoint.path response.status
    occasion.now
  (response, { c with store := c.store.appendRequest record })

def authenticationFailed (c : Custodian) (id : Uuid) (occasion : Occasion)
    (method path reason : String) : Response × Custodian :=
  let record := AuthFailureRecord.of id method path reason occasion.now
  (⟨record.status, some (Response.errorBody "The request could not be authenticated.")⟩,
    { c with store := c.store.appendAuthFailure record })

end Api

end Strongroom
