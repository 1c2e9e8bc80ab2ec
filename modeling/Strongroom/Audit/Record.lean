import Strongroom.Operation
import Strongroom.Time.Instant
import Strongroom.Uuid

/-!
Records of what was asked for: one for each audited operation, whether it succeeded or not, one for
each request, and one for each caller who could not be authenticated.
-/

namespace Strongroom

structure Caller where
  request : Uuid
  actor : String
deriving DecidableEq, Repr

inductive AuditCode
  | credentialAccess
  | credentialFind
  | credentialUpdate
  | credentialDelete
  | aclAccess
  | aclUpdate
  | aclDelete
  | certificateRegenerate
  | bulkRegenerate
deriving DecidableEq, Repr

namespace AuditCode

def all : List AuditCode :=
  [credentialAccess, credentialFind, credentialUpdate, credentialDelete, aclAccess, aclUpdate,
    aclDelete, certificateRegenerate, bulkRegenerate]

def name : AuditCode → String
  | credentialAccess => "CREDENTIAL_ACCESS"
  | credentialFind => "CREDENTIAL_FIND"
  | credentialUpdate => "CREDENTIAL_UPDATE"
  | credentialDelete => "CREDENTIAL_DELETE"
  | aclAccess => "ACL_ACCESS"
  | aclUpdate => "ACL_UPDATE"
  | aclDelete => "ACL_DELETE"
  | certificateRegenerate => "CERTIFICATE_REGENERATE"
  | bulkRegenerate => "BULK_REGENERATE"

def ofName? (name : String) : Option AuditCode := all.find? (·.name = name)

end AuditCode

/-- The part of a record that is known while the operation runs. -/
structure AuditParameters where
  code : AuditCode
  credentialName : Option String := none
  /-- Whom an operation on an access list is about. -/
  subjectActor : Option String := none
  allowed : List Operation := []
deriving DecidableEq, Repr

namespace AuditParameters

def resolveName (p : AuditParameters) (name : String) : AuditParameters :=
  { p with credentialName := some name }

end AuditParameters

structure OperationRecord where
  request : Uuid
  actor : String
  code : AuditCode
  credentialName : Option String
  subjectActor : Option String
  allowed : List Operation
  success : Bool
  status : UInt16
  time : Time.Instant
deriving DecidableEq, Repr

structure RequestRecord where
  request : Uuid
  actor : String
  method : String
  path : String
  status : UInt16
  time : Time.Instant
deriving DecidableEq, Repr

structure AuthFailureRecord where
  request : Uuid
  method : String
  path : String
  reason : String
  status : UInt16
  time : Time.Instant
deriving DecidableEq, Repr

structure Outcome where
  success : Bool
  status : UInt16
deriving DecidableEq, Repr

def AuditParameters.record (p : AuditParameters) (caller : Caller) (outcome : Outcome)
    (time : Time.Instant) : OperationRecord where
  request := caller.request
  actor := caller.actor
  code := p.code
  credentialName := p.credentialName
  subjectActor := p.subjectActor
  allowed := p.allowed
  success := outcome.success
  status := outcome.status
  time := time

def RequestRecord.of (caller : Caller) (method path : String) (status : UInt16)
    (time : Time.Instant) : RequestRecord :=
  ⟨caller.request, caller.actor, method, path, status, time⟩

def AuthFailureRecord.unauthorized : UInt16 := 401

def AuthFailureRecord.of (request : Uuid) (method path reason : String) (time : Time.Instant) :
    AuthFailureRecord :=
  ⟨request, method, path, reason, unauthorized, time⟩

inductive AuditEvent
  | operation (record : OperationRecord)
  | request (record : RequestRecord)
  | authFailure (record : AuthFailureRecord)
deriving DecidableEq, Repr

end Strongroom
