import Strongroom.Access.Policy

/-!
Access lists looked at and changed by those who may. Every change is decided on before it is made.
-/

namespace Strongroom.AccessPolicy

def listPermissions (p : AccessPolicy) (actor name : String) : Inquiry PermissionsView := do
  Inquiry.collect [{ code := .aclAccess, credentialName := some name }]
  let resolved ← p.requireAny actor name [.readAcl, .read]
  Inquiry.resolveName resolved
  let list := (← Inquiry.data).accessList? resolved
  return ⟨resolved, (list.map AccessList.permissions).getD []⟩

def isBlank (actor : String) : Bool := (Text.trim actor.toList).isEmpty

def setPermissions (p : AccessPolicy) (actor name : String) (entries : List Permission) :
    Work PermissionsView := do
  let applied := (AccessList.ofPermissions entries).permissions
  Inquiry.collect (AuditParameters.ofPermissions .aclUpdate name applied)
  if applied.any (isBlank ·.actor) then throw (.validation .missingActor)
  let resolved ← p.require actor name .writeAcl
  Inquiry.resolveName resolved
  applied.forM fun entry => Work.replaceOperations resolved entry.actor entry.operations
  return ⟨resolved, applied⟩

def deletePermission (p : AccessPolicy) (actor name subject : String) : Work Unit := do
  let held := ((← Inquiry.data).operationsFor name subject).toList
  Inquiry.collect [{
    code := .aclDelete, credentialName := some name, subjectActor := some subject,
    allowed := held }]
  let resolved ← p.require actor name .writeAcl
  Inquiry.resolveName resolved
  if !(← Work.removeActor resolved subject) then throw (.notFound .credentialMissing)

/-- What is granted when a credential is created: everything to its creator, and the entries. -/
def grantOnCreate (name creator : String) (entries : List Permission) : Work Unit := do
  Work.mergeOperations name creator .full
  entries.forM fun entry => Work.mergeOperations name entry.actor entry.operations

end Strongroom.AccessPolicy
