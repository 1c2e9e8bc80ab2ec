import Strongroom.Certificate.Subject
import Strongroom.Json.Record

/-!
Requests for a certificate. Every field may be absent, so that the same form carries what is to be
changed when a certificate is issued again.
-/

namespace Strongroom

structure CertificateRequest where
  subject : Subject := {}
  alternativeNames : Option (List String) := none
  keyUsage : Option (List String) := none
  purposes : Option (List String) := none
  keyLength : Option UInt32 := none
  duration : Option UInt32 := none
  signer : Option String := none
  isAuthority : Option Bool := none
  selfSign : Option Bool := none
deriving DecidableEq, Repr, Inhabited

namespace CertificateRequest

def withCommonName (name : String) : CertificateRequest :=
  { subject := { commonName := some name } }

def signedBy (r : CertificateRequest) (signer : String) : CertificateRequest :=
  { r with signer := some signer }

def asAuthority (r : CertificateRequest) : CertificateRequest := { r with isAuthority := some true }

end CertificateRequest

end Strongroom
