import Strongroom.Certificate.KeyUsage
import Strongroom.Certificate.Purpose
import Strongroom.Certificate.Subject
import Strongroom.Occasion
import Strongroom.X509.Verification

/-!
Certificates: the fields that are looked at, and either the document they were read from or the key
that signed them here.
-/

namespace Strongroom

structure CertificateFields where
  serial : Serial
  subject : Subject
  issuer : Subject
  notBefore : Time.Instant
  notAfter : Time.Instant
  keyLength : Nat
  publicKey : PublicKey
  isAuthority : Bool
  selfSigned : Bool
  keyUsage : Option KeyUsage
  purposes : Option (List Purpose)
  alternativeNames : Option (List AlternativeName)
deriving DecidableEq, Repr

inductive CertificateSource
  | imported (armor : String) (contents : Octets) (document : X509.Document)
  | issued (signer : PublicKey)
deriving DecidableEq, Repr

structure Certificate where
  fields : CertificateFields
  source : CertificateSource
deriving DecidableEq, Repr

namespace CertificateFields

open X509

def subjectOf (text? : Octets → Option String) : Subject where
  commonName := text? Identifier.commonName
  organization := text? Identifier.organization
  organizationUnit := text? Identifier.organizationUnit
  locality := text? Identifier.locality
  state := text? Identifier.state
  country := text? Identifier.country

def alternativeNameOf? : Extension.GeneralName → Option AlternativeName
  | .domain text => some (.dns text)
  | .address octets => (Network.Address.ofOctets? octets).map .ip
  | _ => none

def purposesOf (identifiers : List Octets) : List Purpose :=
  Purpose.all.filter fun p => identifiers.contains p.identifier

def ofDocument? (d : Document) : Option CertificateFields := do
  let keyLength ← d.key.length?
  let flags ← d.extensionValue? Identifier.keyUsage Extension.keyUsage?
  let purposes ← d.extensionValue? Identifier.extendedKeyUsage Extension.extendedKeyUsage?
  let names ← d.extensionValue? Identifier.alternativeNames Extension.alternativeNames?
  let isAuthority ← d.isAuthority?
  return {
    serial := .octets d.serial
    subject := subjectOf d.subject.text?
    issuer := subjectOf d.issuer.text?
    notBefore := d.validity.notBefore
    notAfter := d.validity.notAfter
    keyLength
    publicKey := .bits d.key.bits
    isAuthority
    selfSigned := d.isSelfSigned
    keyUsage := flags.map KeyUsage.ofFlags
    purposes := purposes.map purposesOf
    alternativeNames := names.map (·.filterMap alternativeNameOf?) }

def durationDays (f : CertificateFields) : Nat :=
  ((f.notAfter.second - f.notBefore.second) / Time.secondsPerDay).toNat

end CertificateFields

namespace Certificate

def label : String := "CERTIFICATE"

def ofArmor (text : String) : Except Fault Certificate :=
  match Armor.readBlock text with
  | .error fault => .error (.integrity (.armor fault))
  | .ok block =>
    if block.label ≠ label then .error (.integrity (.label block.label))
    else match X509.Document.read? block.contents with
      | none => .error (.integrity .certificate)
      | some document =>
        match CertificateFields.ofDocument? document with
        | none => .error (.integrity .certificate)
        | some fields => .ok ⟨fields, .imported text block.contents document⟩

/-- Whether the key of `issuer` verifies the signature. A signature made here verifies with the key
that made it and no other; no document from outside is signed with a key that was drawn here. -/
def isSignedBy (c issuer : Certificate) : Bool :=
  match c.source, issuer.source with
  | .issued signer, _ => signer = issuer.fields.publicKey
  | .imported _ _ document, .imported _ _ other => document.isVerifiedBy other.key
  | .imported .., .issued _ => false

end Certificate

end Strongroom
