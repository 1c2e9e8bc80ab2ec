import Strongroom.Certificate.Template
import Strongroom.Credential
import Strongroom.Text.Basic

/-!
Issuing of certificates: checks of the parameters and of the signer, and the certificate that has
the parameters' fields under a new key.
-/

namespace Strongroom

structure SigningAuthority where
  name : String
  certificate : Certificate
  privateKey : PrivateKey
deriving DecidableEq, Repr

/-- A maker of certificates, given the parameters, the signer of one that does not sign itself, the
time, and the name of the new key. -/
abbrev Issuer :=
  CertificateParameters → Option SigningAuthority → Time.Instant → FreshId →
    Except Fault CertificateValue

namespace Issuance

def chooseSigner (p : CertificateParameters) (signer : Option SigningAuthority) :
    Except Fault (Option SigningAuthority) :=
  if p.selfSigned then .ok none
  else match signer with
    | none => .error (.issuing .noSigner)
    | some s =>
      if s.certificate.fields.isAuthority then .ok (some s)
      else .error (.invalid .notAnAuthority (some s.name))

def isFourDigitYear (t : Time.Instant) : Bool := -9999 ≤ t.date.year && t.date.year ≤ 9999

def validity (now : Time.Instant) (days : Nat) : Except Fault (Time.Instant × Time.Instant) :=
  let last := now.addDays days
  if isFourDigitYear now && isFourDigitYear last then
    .ok (.ofSeconds now.second, .ofSeconds last.second)
  else .error (.issuing .validity)

def isAscii (s : String) : Bool := s.toList.all fun c => c.toNat < 128

def checkNames : List AlternativeName → Except Fault Unit
  | [] => .ok ()
  | .ip _ :: rest => checkNames rest
  | .dns name :: rest =>
    if isAscii name then checkNames rest
    else .error (.invalid .alternativeName (some (name ++ ": not a domain name")))

def fields (p : CertificateParameters) (issuer : Subject) (notBefore notAfter : Time.Instant)
    (id : FreshId) : CertificateFields :=
  let template := CertificateTemplate.ofParameters p ⟨notBefore, notAfter⟩
  { serial := .fresh id
    subject := CertificateFields.subjectOf template.text?
    issuer
    notBefore := template.validity.notBefore
    notAfter := template.validity.notAfter
    keyLength := p.keyLength
    publicKey := .fresh id
    isAuthority := template.isAuthority
    selfSigned := p.selfSigned
    keyUsage := template.keyUsage?
    purposes := template.purposes?
    alternativeNames := template.alternativeNames? }

/-! ### Signers that were imported -/

open X509

def hasSmallArcs (identifier : Octets) : Bool :=
  let rec fits (used : Nat) : Octets → Bool
    | [] => true
    | b :: rest => used < 9 && fits (if b < 128 then 0 else used + 1) rest
  fits 0 identifier

def isPrintable (c : Char) : Bool :=
  c.isAlphanum || [' ', '\'', '(', ')', '+', ',', '-', '.', '/', ':', '=', '?'].contains c

def isUniversal : Octets → Bool
  | [] => true
  | a :: b :: c :: d :: rest => (Octets.toNat [a, b, c, d]).isValidChar && isUniversal rest
  | _ => false

/-- Whether two octets at a time are code points of the basic plane, the last one excepted. -/
def isBasicPlane : Octets → Bool
  | [] => true
  | a :: b :: rest =>
    let n := Octets.toNat [a, b]
    n.isValidChar && n ≠ 0xffff && isBasicPlane rest
  | _ => false

def isTransferable (e : Der.Element) : Bool :=
  let tag := e.header.tag
  let text := Octets.toText? e.contents
  if tag = Der.Tag.utf8String then text.isSome
  else if tag = Der.Tag.ia5String then text.any isAscii
  else if tag = Der.Tag.printableString then text.any (·.toList.all isPrintable)
  else if tag = Der.Tag.teletexString then e.contents.all fun b => 0x20 ≤ b && b < 0x80
  else if tag = Der.Tag.universalString then isUniversal e.contents
  else if tag = Der.Tag.bmpString then isBasicPlane e.contents
  else false

def isTransferableName (n : Name) : Bool :=
  n.sets.all fun attributes =>
    match attributes with
    | [a] => hasSmallArcs a.kind && isTransferable a.value
    | _ => false

/-- The name as the issued certificate shows it: of one kind of attribute the last value stands. -/
def issuerSubject (n : Name) : Subject :=
  CertificateFields.subjectOf { n with sets := n.sets.reverse : Name }.text?

def isTransferableOther (kind value : Octets) : Bool :=
  match Der.read? value with
  | some (outer, _) =>
    match Der.read? outer.contents with
    | some (inner, _) =>
      hasSmallArcs kind && outer.header.tagClass = .context && outer.header.tag = 0 &&
        inner.header.tag = Der.Tag.utf8String && (Octets.toText? inner.contents).isSome
    | none => false
  | none => false

def isTransferableGeneral : Extension.GeneralName → Bool
  | .mail text | .domain text | .locator text => isAscii text
  | .address octets => octets.length = 4 || octets.length = 16
  | .other kind value => isTransferableOther kind value
  | .directory _ | .unused => false

def readSubtree? (s : Octets) : Option (Extension.GeneralName × Octets) := do
  let (contents, rest) ← Der.readSequence? s
  let (name, _) ← Extension.GeneralName.read? contents
  return (name, rest)

def readSubtrees (tag : Nat) (s : Octets) : List Extension.GeneralName × Octets :=
  let found : Option (List Extension.GeneralName × Octets) := do
    let (e, rest) ← Der.read? s
    let names ← Der.readAll? readSubtree? e.contents
    if e.header.tag = tag && e.header.tagClass = .context && !names.isEmpty then some (names, rest)
    else none
  found.getD ([], s)

def constraintNames? (value : Octets) : Option (List Extension.GeneralName) := do
  let (contents, _) ← Der.readSequence? value
  let (permitted, rest) := readSubtrees 0 contents
  let (excluded, _) := readSubtrees 1 rest
  return permitted ++ excluded

def hasTransferableConstraints (d : Document) : Bool :=
  match d.extensionValue? Identifier.nameConstraints constraintNames? with
  | none => false
  | some names =>
    (names.getD []).all fun name =>
      match name with
      | .directory n => isTransferableName n
      | _ => true

def hasShortPath (d : Document) : Bool :=
  match d.extension? Identifier.basicConstraints with
  | none => false
  | some value =>
    match value.bind Extension.basicConstraints? with
    | some c => !c.isAuthority || c.pathLength.all (· ≤ 255)
    | none => true

/-- Whether everything in the document that an issuer takes over can be taken over. -/
def isUsable (d : Document) : Bool :=
  isTransferableName d.subject && hasShortPath d &&
    (d.extensionValue? Identifier.keyUsage Extension.keyUsage?).isSome &&
    (d.extensionValue? Identifier.extendedKeyUsage Extension.extendedKeyUsage?).isSome &&
    (match d.extensionValue? Identifier.alternativeNames Extension.alternativeNames? with
      | some names => (names.getD []).all isTransferableGeneral
      | none => false) &&
    hasTransferableConstraints d

def issuerOf (c : Certificate) : Except Fault Subject :=
  match c.source with
  | .issued _ => .ok c.fields.subject
  | .imported armor _ _ =>
    match (Armor.readStrict? armor).bind (Document.read? ·.contents) with
    | some d => if isUsable d then .ok (issuerSubject d.subject) else .error (.issuing .issuance)
    | none => .error (.issuing .issuance)

def issuerFor (p : CertificateParameters) : Option SigningAuthority → Except Fault Subject
  | none => .ok p.subject.withoutEmpty
  | some s =>
    if s.privateKey.publicKey ≠ s.certificate.fields.publicKey then
      .error (.integrity (.keyMismatch s.name))
    else issuerOf s.certificate

def issue : Issuer := fun p signer now id => do
  let signer ← chooseSigner p signer
  let _ ← CertificateParameters.checkKeyLength p.keyLength
  let (notBefore, notAfter) ← validity now p.durationDays
  checkNames (p.alternativeNames.getD [])
  let issuer ← issuerFor p signer
  let signingKey := (signer.map (·.privateKey.publicKey)).getD (.fresh id)
  return {
    certificate := ⟨fields p issuer notBefore notAfter id, .issued signingKey⟩
    privateKey := ⟨.fresh id⟩
    signerCertificate := signer.map (·.certificate)
    signerName := if p.selfSigned then none else p.signerName }

end Issuance

namespace Issuer

def failingOn (text : String) (issuer : Issuer) : Issuer := fun p signer now id =>
  if Text.occursIn text.toList p.subject.text.toList then
    .error (.issuing (.described "hsm unavailable"))
  else issuer p signer now id

end Issuer

end Strongroom
