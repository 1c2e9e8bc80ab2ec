import Strongroom.Certificate.Basic
import Strongroom.Certificate.Request

/-!
Parameters of a certificate that is to be issued: put together from a request, taken over from a
certificate that exists, or changed by the fields of a further request.
-/

namespace Strongroom

structure CertificateDefaults where
  durationDays : Nat
  keyLength : Nat
deriving DecidableEq, Repr, Inhabited

structure CertificateParameters where
  keyLength : Nat
  durationDays : Nat
  selfSigned : Bool
  isAuthority : Bool
  signerName : Option String
  subject : Subject
  alternativeNames : Option (List AlternativeName)
  keyUsage : Option KeyUsage
  purposes : Option (List Purpose)
deriving DecidableEq, Repr

namespace CertificateParameters

def keyLengths : List Nat := [2048, 3072, 4096]

def maxDurationDays : Nat := 3650

def checkKeyLength (length : Nat) : Except Fault Nat :=
  if length ∈ keyLengths then .ok length
  else .error (.invalid .keyLength (some (Text.natText length)))

def checkDuration (days : Nat) : Except Fault Nat :=
  if 1 ≤ days ∧ days ≤ maxDurationDays then .ok days
  else .error (.invalid .duration (some (Text.natText days)))

def readGiven {α β : Type} (read : α → Except Fault β) : Option α → Except Fault (Option β)
  | none => .ok none
  | some a => (read a).map some

/-- Whether the certificate is to sign itself, and by whom it is to be signed otherwise. An
authority that names no signer signs itself. -/
def signing (r : CertificateRequest) : Except Fault (Bool × Option String) :=
  let signer := r.signer.filter (· ≠ "")
  if r.selfSign = some true && signer.isSome then .error (.validation .authorityAndSelfSign)
  else
    let selfSigned := r.selfSign = some true || r.isAuthority = some true && signer.isNone
    if !selfSigned && signer.isNone then .error (.validation .missingAuthority)
    else .ok (selfSigned, signer)

def namesSubject (r : CertificateRequest) : Bool :=
  !r.subject.isEmpty || r.alternativeNames.any (!·.isEmpty)

def ofRequest (r : CertificateRequest) (defaults : CertificateDefaults) :
    Except Fault CertificateParameters := do
  let keyUsage ← readGiven KeyUsage.ofTokens r.keyUsage
  let purposes ← readGiven Purpose.ofTokens r.purposes
  let keyLength ← checkKeyLength ((r.keyLength.map UInt32.toNat).getD defaults.keyLength)
  let durationDays ← checkDuration ((r.duration.map UInt32.toNat).getD defaults.durationDays)
  let (selfSigned, signerName) ← signing r
  if namesSubject r then
    return {
      keyLength, durationDays, selfSigned
      isAuthority := r.isAuthority.getD false
      signerName
      subject := r.subject
      alternativeNames := r.alternativeNames.map (·.map AlternativeName.classify)
      keyUsage, purposes }
  else throw (.validation .emptyRequest)

def ofCertificate (c : Certificate) (signerName : Option String) : CertificateParameters where
  keyLength := c.fields.keyLength
  durationDays := c.fields.durationDays
  selfSigned := c.fields.selfSigned
  isAuthority := c.fields.isAuthority
  signerName
  subject := c.fields.subject
  alternativeNames := c.fields.alternativeNames
  keyUsage := c.fields.keyUsage
  purposes := c.fields.purposes

def overriding {α β : Type} (read : α → Except Fault β) (given : Option α) (held : β) :
    Except Fault β :=
  match given with
  | some a => read a
  | none => .ok held

/-- A signer that is given, also an empty one, excludes signing itself. -/
def overrideSigning (r : CertificateRequest) (held : Bool × Option String) :
    Except Fault (Bool × Option String) :=
  match r.signer, r.selfSign with
  | some _, some true => .error (.validation .authorityAndSelfSign)
  | some signer, _ => .ok (false, some signer)
  | none, some true => .ok (true, none)
  | none, _ => .ok held

def override (p : CertificateParameters) (r : CertificateRequest) :
    Except Fault CertificateParameters := do
  let keyUsage ← overriding (fun ts => (KeyUsage.ofTokens ts).map some) r.keyUsage p.keyUsage
  let purposes ← overriding (fun ts => (Purpose.ofTokens ts).map some) r.purposes p.purposes
  let keyLength ← overriding (checkKeyLength ·.toNat) r.keyLength p.keyLength
  let durationDays ← overriding (checkDuration ·.toNat) r.duration p.durationDays
  let (selfSigned, signerName) ← overrideSigning r (p.selfSigned, p.signerName)
  return {
    keyLength, durationDays, selfSigned
    isAuthority := r.isAuthority.getD p.isAuthority
    signerName
    subject := if r.subject.isEmpty then p.subject else r.subject
    alternativeNames :=
      (r.alternativeNames.map (·.map AlternativeName.classify)).or p.alternativeNames
    keyUsage, purposes }

end CertificateParameters

end Strongroom
