import Strongroom.Access.Administration
import Strongroom.Config
import Strongroom.Renewal
import Strongroom.Retention
import Strongroom.Search

/-!
The custodian keeps a store under a configuration and answers calls. Each call is made by a caller
on an occasion; it either changes the data as asked or leaves it as it was, and leaves its audit
records in both cases.
-/

namespace Strongroom

structure Custodian where
  config : Config
  issuer : Issuer
  store : Store

inductive Call
  | set (name : String) (value : CredentialValue) (permissions : List Permission)
      (overwrite : Bool)
  | generate (name : String) (request : CertificateRequest) (permissions : List Permission)
      (overwrite : Bool)
  | regenerate (name : String) (overrides : CertificateRequest)
  | renewBelow (signedBy : Option String)
  | delete (name : String)
  | get (name : String)
  | versions (name : String)
  | findByName (pattern : String)
  | findByPath (path : String)
  | findFolders
  | listPermissions (name : String)
  | setPermissions (name : String) (entries : List Permission)
  | deletePermission (name subject : String)

inductive Answer
  | done
  | version (v : Version)
  | versions (vs : List Version)
  | names (ns : List String)
  | found (fs : List Search.Found)
  | permissions (v : PermissionsView)

namespace Custodian

def new (config : Config) : Custodian := ⟨config, Issuance.issue, .empty⟩

def policy (c : Custodian) : AccessPolicy := ⟨c.config.aclsEnabled⟩

def latestVersion (name : String) : Inquiry Version := do
  match (← Inquiry.data).find? name with
  | some c => return c.latest
  | none => throw (.integrity (.vanished name))

/-- Appends a version made by `put` under the name, for a caller who may write what exists. What did
not exist is then granted to the caller and to those in `permissions`; what exists and is not to be
overwritten is answered as it is. -/
def write (policy : AccessPolicy) (actor name : String) (permissions : List Permission)
    (overwrite : Bool) (put : String → Work Unit) : Work Version := do
  if !(← Inquiry.data).contains name then
    put name
    AccessPolicy.grantOnCreate name actor permissions
    Inquiry.resolveFor actor name
    latestVersion name
  else
    let stored ← policy.require actor name .write
    if overwrite then
      put stored
      Inquiry.resolveFor actor stored
    latestVersion stored

def set (policy : AccessPolicy) (actor name : String) (value : CredentialValue)
    (permissions : List Permission) (overwrite : Bool) : Work Version := do
  Inquiry.collect [{ code := .credentialUpdate, credentialName := some name }]
  let normal ← Naming.normalize name
  write policy actor normal permissions overwrite (Work.put · value)

/-- The parameters with the signer under its stored name, which the actor may read. -/
def pinSigner (policy : AccessPolicy) (actor : String) (p : CertificateParameters) :
    Inquiry CertificateParameters := do
  if p.selfSigned then return p
  match p.signerName with
  | none => return p
  | some signer => return { p with signerName := some (← policy.require actor signer .read) }

def issueAs (issuer : Issuer) (policy : AccessPolicy) (actor : String) (p : CertificateParameters)
    (name : String) : Work Unit := do
  let pinned ← pinSigner policy actor p
  Renewal.issueInto issuer name pinned

def generate (issuer : Issuer) (policy : AccessPolicy) (defaults : CertificateDefaults)
    (actor name : String) (request : CertificateRequest) (permissions : List Permission)
    (overwrite : Bool) : Work Version := do
  Inquiry.collect [{ code := .credentialUpdate, credentialName := some name }]
  let normal ← Naming.normalize name
  let p ← CertificateParameters.ofRequest request defaults
  write policy actor normal permissions overwrite (issueAs issuer policy actor p)

def regenerate (issuer : Issuer) (policy : AccessPolicy) (actor name : String)
    (overrides : CertificateRequest) : Work Version := do
  Inquiry.collect [{ code := .certificateRegenerate, credentialName := some name }]
  let stored ← policy.require actor name .write
  Inquiry.resolveFor actor stored
  match ((← Inquiry.data).find? stored).bind (·.latestCertificate?) with
  | none => throw (.invalid .notACertificate (some stored))
  | some v =>
    let p ← (CertificateParameters.ofCertificate v.certificate v.signerName).override overrides
    issueAs issuer policy actor p stored
    latestVersion stored

def delete (policy : AccessPolicy) (actor name : String) : Work Unit := do
  Inquiry.collect [{ code := .credentialDelete, credentialName := some name }]
  let stored ← policy.require actor name .delete
  Inquiry.resolveFor actor stored
  let _ ← Work.remove stored

def access (policy : AccessPolicy) (actor name : String) : Inquiry String := do
  Inquiry.collect [{ code := .credentialAccess, credentialName := some name }]
  let stored ← policy.require actor name .read
  Inquiry.resolveFor actor stored
  return stored

def get (policy : AccessPolicy) (actor name : String) : Inquiry Version := do
  latestVersion (← access policy actor name)

def versions (policy : AccessPolicy) (actor name : String) : Inquiry (List Version) := do
  let stored ← access policy actor name
  return (((← Inquiry.data).find? stored).map (·.versions.reverse)).getD []

def okStatus : UInt16 := 200

def noContentStatus : UInt16 := 204

def audited {α : Type} (c : Custodian) (caller : Caller) (occasion : Occasion) (status : UInt16)
    (work : Work α) : Except Fault α × Custodian :=
  let (result, store) := c.store.audited caller status occasion work
  (result, { c with store })

def inquire {α : Type} (c : Custodian) (caller : Caller) (occasion : Occasion)
    (inquiry : Inquiry α) : Except Fault α × Custodian :=
  let (result, store) := c.store.inquire caller okStatus occasion.now inquiry
  (result, { c with store })

def perform (c : Custodian) (caller : Caller) (occasion : Occasion) (call : Call) :
    Except Fault Answer × Custodian :=
  let actor := caller.actor
  match call with
  | .set name value permissions overwrite =>
    c.audited caller occasion okStatus
      (.version <$> set c.policy actor name value permissions overwrite)
  | .generate name request permissions overwrite =>
    c.audited caller occasion okStatus
      (.version <$> generate c.issuer c.policy c.config.certificates actor name request permissions
        overwrite)
  | .regenerate name overrides =>
    c.audited caller occasion okStatus
      (.version <$> regenerate c.issuer c.policy actor name overrides)
  | .renewBelow signedBy =>
    c.audited caller occasion okStatus
      (.names <$> Renewal.renewBelow c.issuer c.policy actor signedBy)
  | .delete name =>
    c.audited caller occasion noContentStatus ((fun _ => .done) <$> delete c.policy actor name)
  | .get name => c.inquire caller occasion (.version <$> get c.policy actor name)
  | .versions name => c.inquire caller occasion (.versions <$> versions c.policy actor name)
  | .findByName pattern =>
    c.inquire caller occasion (.found <$> Search.byName c.policy actor pattern)
  | .findByPath path => c.inquire caller occasion (.found <$> Search.byPath c.policy actor path)
  | .findFolders => c.inquire caller occasion (.names <$> Search.allFolders c.policy actor)
  | .listPermissions name =>
    c.inquire caller occasion (.permissions <$> c.policy.listPermissions actor name)
  | .setPermissions name entries =>
    c.audited caller occasion okStatus
      (.permissions <$> c.policy.setPermissions actor name entries)
  | .deletePermission name subject =>
    c.audited caller occasion noContentStatus
      ((fun _ => .done) <$> c.policy.deletePermission actor name subject)

def retentionTask (c : Custodian) : RetentionTask := .ofConfig c.config

def runRetention (c : Custodian) (task : RetentionTask) (now : Time.Instant) : Nat × Custodian :=
  let (removed, store) := task.run c.store now
  (removed, { c with store })

end Custodian

end Strongroom
