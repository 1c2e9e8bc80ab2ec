import Strongroom.Access.Policy
import Strongroom.Issuance
import Strongroom.SigningGraph

/-!
Renewal of certificates: one by one under parameters, or everything that a signer signed, directly
or through others. Renewal below a signer first decides on all of it and then goes down level by
level, so that every certificate is signed by the version that its signer has got just before.
-/

namespace Strongroom.Renewal

def signerFor (d : StoreData) (name : String) (p : CertificateParameters) :
    Except Fault (Option SigningAuthority) :=
  if p.selfSigned then .ok none
  else match p.signerName with
    | none => .error (.integrity (.unsigned name))
    | some signer =>
      match d.find? signer with
      | none => .error (.integrity (.danglingSigner name signer))
      | some c =>
        match c.latestCertificate? with
        | none => .error (.invalid .notACertificate (some signer))
        | some v => .ok (some ⟨c.name, v.certificate, v.privateKey⟩)

def issueInto (issuer : Issuer) (name : String) (p : CertificateParameters) : Work Unit := do
  let signer ← signerFor (← Inquiry.data) name p
  let value ← issuer p signer (← Work.now) (← Work.draw)
  Work.put name (.certificate value)

def parametersOf (d : StoreData) (name : String) : Except Fault CertificateParameters :=
  match (d.find? name).bind (·.latestCertificate?) with
  | none => .error (.integrity (.notCertified name))
  | some v => .ok (.ofCertificate v.certificate v.signerName)

def renew (issuer : Issuer) (actor name : String) : Work Unit := do
  let p ← parametersOf (← Inquiry.data) name
  issueInto issuer name p
  let allowed := ((← Inquiry.data).operationsFor name actor).toList
  Inquiry.collect [{ code := .certificateRegenerate, credentialName := some name, allowed }]

def signerName (signedBy : Option String) : Except Fault String :=
  match signedBy.map Text.trimmed with
  | some name => if name = "" then .error (.validation .missingSigner) else Naming.normalize name
  | none => .error (.validation .missingSigner)

/-- What is to be renewed, in order: everything below the signer, which the actor may read, if the
actor may write all of it. -/
def plan (policy : AccessPolicy) (actor : String) (signedBy : Option String) :
    Inquiry (List String) := do
  Inquiry.collect [{ code := .bulkRegenerate, credentialName := signedBy }]
  let given ← signerName signedBy
  let root ← policy.require actor given .read
  Inquiry.resolveFor actor root
  let data ← Inquiry.data
  let names ← data.signingGraph.descendants root
  if names.all (policy.permits data · actor .write) then return names
  else throw (.forbidden .insufficientPermission)

def renewBelow (issuer : Issuer) (policy : AccessPolicy) (actor : String)
    (signedBy : Option String) : Work (List String) := do
  let names ← plan policy actor signedBy
  names.forM (renew issuer actor)
  return names

end Strongroom.Renewal
