import Strongroom.Audit.Form
import Strongroom.Dictionary

/-!
Permissions of one actor, the access list of a credential, and both as JSON.
-/

namespace Strongroom

abbrev AccessList := Dictionary OperationSet

structure Permission where
  actor : String
  operations : OperationSet
deriving DecidableEq, Repr

namespace Permission

def toJson (p : Permission) : Json :=
  .record [("actor", .string p.actor), ("operations", p.operations.toJson)]

def ofJson? (j : Json) : Option Permission := do
  let fields ← Json.Fields.ofJson? ["actor", "operations"] j
  let actor ← fields.required "actor" Json.toText?
  let operations ← fields.required "operations" OperationSet.ofJson?
  return { actor, operations }

end Permission

namespace AccessList

def permissions (a : AccessList) : List Permission :=
  a.toList.map fun (actor, operations) => ⟨actor, operations⟩

def ofPermissions (entries : List Permission) : AccessList :=
  Dictionary.ofListWith OperationSet.union (entries.map fun p => (p.actor, p.operations))

def operationsOf (a : AccessList) (actor : String) : OperationSet := (a.get? actor).getD ∅

end AccessList

structure PermissionsView where
  credentialName : String
  permissions : List Permission
deriving DecidableEq, Repr

namespace PermissionsView

def toJson (v : PermissionsView) : Json :=
  .record [
    ("credential_name", .string v.credentialName),
    ("permissions", .list Permission.toJson v.permissions)]

def ofJson? (j : Json) : Option PermissionsView := do
  let fields ← Json.Fields.ofJson? ["credential_name", "permissions"] j
  let credentialName ← fields.required "credential_name" Json.toText?
  let permissions ← fields.required "permissions" (Json.toList? Permission.ofJson?)
  return { credentialName, permissions }

end PermissionsView

namespace AuditParameters

def ofPermissions (code : AuditCode) (name : String) (entries : List Permission) :
    List AuditParameters :=
  entries.map fun p =>
    { code, credentialName := some name, subjectActor := some p.actor
      allowed := p.operations.toList }

end AuditParameters

end Strongroom
