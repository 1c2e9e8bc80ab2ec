import Strongroom.Certificate.Parameters

/-!
Templates of certificates: what parameters ask for, in the terms in which a certificate says it. An
extension that would say nothing is left out.
-/

namespace Strongroom

open X509

structure CertificateTemplate where
  /-- The attributes of the subject by their kinds. -/
  attributes : List (Octets × String)
  validity : Validity
  isAuthority : Bool
  uses : List KeyUse
  /-- The purposes by their identifiers. -/
  purposes : List Octets
  names : List Extension.GeneralName
deriving DecidableEq, Repr

namespace CertificateTemplate

def kindOf (label : String) : Octets :=
  match label with
  | "L" => Identifier.locality
  | "O" => Identifier.organization
  | "ST" => Identifier.state
  | "C" => Identifier.country
  | "OU" => Identifier.organizationUnit
  | _ => Identifier.commonName

def nameOf : AlternativeName → Extension.GeneralName
  | .ip address => .address address.octets
  | .dns name => .domain name

def ofParameters (p : CertificateParameters) (validity : Validity) : CertificateTemplate where
  attributes := p.subject.present.map fun (label, value) => (kindOf label, value)
  validity
  isAuthority := p.isAuthority
  uses := (p.keyUsage.map KeyUsage.uses).getD []
  purposes := (p.purposes.getD []).map Purpose.identifier
  names := (p.alternativeNames.getD []).map nameOf

def unlessEmpty {α : Type} (items : List α) : Option (List α) :=
  if items.isEmpty then none else some items

def flagsOf (uses : List KeyUse) : Nat :=
  uses.foldl (fun flags use => flags ||| 1 <<< use.position) 0

variable (t : CertificateTemplate)

def text? (kind : Octets) : Option String := (t.attributes.find? (·.1 = kind)).map (·.2)

/-! The extensions, as they are read from the certificate. -/

def keyUsage? : Option KeyUsage := (unlessEmpty t.uses).map fun uses => .ofFlags (flagsOf uses)

def purposes? : Option (List Purpose) := (unlessEmpty t.purposes).map CertificateFields.purposesOf

def alternativeNames? : Option (List AlternativeName) :=
  (unlessEmpty t.names).map (·.filterMap CertificateFields.alternativeNameOf?)

end CertificateTemplate

end Strongroom
