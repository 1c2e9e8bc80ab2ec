import Strongroom.Signature.Edwards
import Strongroom.Signature.EllipticCurve
import Strongroom.Signature.Rsa
import Strongroom.X509.Document

/-!
Verification of a document's signature with a subject key: the algorithm comes from the document,
and for elliptic curves the curve comes from the key.
-/

namespace Strongroom.X509

open Signature

def Algorithm.curve? (a : Algorithm) : Option Curve := do
  let e ← a.parameters
  if e.header.tag ≠ Der.Tag.objectIdentifier then none
  else if e.contents = Identifier.curve256 then some Curve.p256
  else if e.contents = Identifier.curve384 then some Curve.p384
  else none

def Algorithm.maskDigest? (a : Algorithm) : Option Rsa.Digest := do
  let e ← a.parameters
  if e.header.tag ≠ Der.Tag.sequence then none
  else
    let (inner, _) ← Der.read? e.contents
    if inner.header.tag ≠ 0 then none
    else
      let (hash, _) ← Algorithm.read? inner.contents
      if hash.identifier = Identifier.sha256 then some Rsa.sha256
      else if hash.identifier = Identifier.sha384 then some Rsa.sha384
      else if hash.identifier = Identifier.sha512 then some Rsa.sha512
      else none

namespace SubjectKey

def verifyCurve (k : SubjectKey) (hash : Octets → Octets) (message signature : Octets) : Bool :=
  match k.algorithm.curve? with
  | some c => c.verify hash k.bits message signature
  | none => false

def verify (k : SubjectKey) (a : Algorithm) (message signature : Octets) : Bool :=
  if a.identifier = Identifier.sha256WithRsa then
    Rsa.verifyFramed Rsa.sha256 2048 k.bits message signature
  else if a.identifier = Identifier.sha384WithRsa then
    Rsa.verifyFramed Rsa.sha384 2048 k.bits message signature
  else if a.identifier = Identifier.sha512WithRsa then
    Rsa.verifyFramed Rsa.sha512 2048 k.bits message signature
  else if a.identifier = Identifier.sha1WithRsa || a.identifier = Identifier.sha1WithRsaLegacy then
    Rsa.verifyFramed Rsa.sha1 1024 k.bits message signature
  else if a.identifier = Identifier.maskedRsa then
    match a.maskDigest? with
    | some d => Rsa.verifyMasked d k.bits message signature
    | none => false
  else if a.identifier = Identifier.sha256WithCurve then
    k.verifyCurve Hash.sha256 message signature
  else if a.identifier = Identifier.sha384WithCurve then
    k.verifyCurve Hash.sha384 message signature
  else if a.identifier = Identifier.ed25519 then Edwards.verify k.bits message signature
  else false

end SubjectKey

namespace Document

def isVerifiedBy (d : Document) (k : SubjectKey) : Bool :=
  k.verify d.algorithm d.signed d.signature

/-- Whether subject and issuer are one name and the document's own key verifies it. -/
def isSelfSigned (d : Document) : Bool :=
  d.subject.encoded = d.issuer.encoded && d.isVerifiedBy d.key

end Document

end Strongroom.X509
