import Strongroom.Audit.Record
import Strongroom.Json.Record
import Strongroom.Json.Writer
import Strongroom.Time.Text

/-!
Records as JSON, written with their fields in a fixed order and read back from an object or from an
array of the fields.
-/

namespace Strongroom

namespace Operation

def toJson (op : Operation) : Json := .string op.name

def ofJson? (j : Json) : Option Operation := j.toName?.bind ofName?

end Operation

namespace OperationSet

def toJson (s : OperationSet) : Json := Json.list Operation.toJson s.toList

def ofJson? (j : Json) : Option OperationSet := (j.toList? Operation.ofJson?).map ofList

end OperationSet

namespace AuditCode

def toJson (c : AuditCode) : Json := .string c.name

def ofJson? (j : Json) : Option AuditCode := j.toName?.bind ofName?

end AuditCode

namespace Uuid

def toJson (u : Uuid) : Json := .string u.text

def ofJson? (j : Json) : Option Uuid := j.toText?.bind ofText?

end Uuid

namespace Time.Instant

def toJson (t : Instant) : Json := .string t.text

def ofJson? (j : Json) : Option Instant := j.toText?.bind ofText?

end Time.Instant

def statusToJson (status : UInt16) : Json := .nat status.toNat

def statusOfJson? (j : Json) : Option UInt16 := (j.toNat? Json.maxUInt16).map UInt16.ofNat

namespace OperationRecord

def toJson (r : OperationRecord) : Json :=
  .record [
    ("request_uuid", r.request.toJson),
    ("actor", .string r.actor),
    ("operation", r.code.toJson),
    ("credential_name", .optionalText r.credentialName),
    ("acl_actor", .optionalText r.subjectActor),
    ("allowed_operations", .list Operation.toJson r.allowed),
    ("success", .bool r.success),
    ("status_code", statusToJson r.status),
    ("timestamp", r.time.toJson)]

def fieldNames : List String :=
  ["request_uuid", "actor", "operation", "credential_name", "acl_actor", "allowed_operations",
    "success", "status_code", "timestamp"]

def ofJson? (j : Json) : Option OperationRecord := do
  let fields ← Json.Fields.ofJson? fieldNames j
  let request ← fields.required "request_uuid" Uuid.ofJson?
  let actor ← fields.required "actor" Json.toText?
  let code ← fields.required "operation" AuditCode.ofJson?
  let credentialName ← fields.nullable "credential_name" Json.toText?
  let subjectActor ← fields.nullable "acl_actor" Json.toText?
  let allowed ← fields.required "allowed_operations" (Json.toList? Operation.ofJson?)
  let success ← fields.required "success" Json.toBool?
  let status ← fields.required "status_code" statusOfJson?
  let time ← fields.required "timestamp" Time.Instant.ofJson?
  return { request, actor, code, credentialName, subjectActor, allowed, success, status, time }

end OperationRecord

namespace RequestRecord

def toJson (r : RequestRecord) : Json :=
  .record [
    ("request_uuid", r.request.toJson),
    ("actor", .string r.actor),
    ("method", .string r.method),
    ("path", .string r.path),
    ("status_code", statusToJson r.status),
    ("timestamp", r.time.toJson)]

def fieldNames : List String :=
  ["request_uuid", "actor", "method", "path", "status_code", "timestamp"]

def ofJson? (j : Json) : Option RequestRecord := do
  let fields ← Json.Fields.ofJson? fieldNames j
  let request ← fields.required "request_uuid" Uuid.ofJson?
  let actor ← fields.required "actor" Json.toText?
  let method ← fields.required "method" Json.toText?
  let path ← fields.required "path" Json.toText?
  let status ← fields.required "status_code" statusOfJson?
  let time ← fields.required "timestamp" Time.Instant.ofJson?
  return { request, actor, method, path, status, time }

end RequestRecord

namespace AuthFailureRecord

def toJson (r : AuthFailureRecord) : Json :=
  .record [
    ("request_uuid", r.request.toJson),
    ("method", .string r.method),
    ("path", .string r.path),
    ("reason", .string r.reason),
    ("status_code", statusToJson r.status),
    ("timestamp", r.time.toJson)]

def fieldNames : List String :=
  ["request_uuid", "method", "path", "reason", "status_code", "timestamp"]

def ofJson? (j : Json) : Option AuthFailureRecord := do
  let fields ← Json.Fields.ofJson? fieldNames j
  let request ← fields.required "request_uuid" Uuid.ofJson?
  let method ← fields.required "method" Json.toText?
  let path ← fields.required "path" Json.toText?
  let reason ← fields.required "reason" Json.toText?
  let status ← fields.required "status_code" statusOfJson?
  let time ← fields.required "timestamp" Time.Instant.ofJson?
  return { request, method, path, reason, status, time }

end AuthFailureRecord

def AuditEvent.line : AuditEvent → String
  | operation r => r.toJson.compact
  | request r => r.toJson.compact
  | authFailure r => r.toJson.compact

end Strongroom
