import Strongroom.Fault

/-!
The uses of a key that a certificate may name, as a set of bits.
-/

namespace Strongroom

inductive KeyUse
  | digitalSignature
  | nonRepudiation
  | keyEncipherment
  | dataEncipherment
  | keyAgreement
  | certificateSigning
  | revocationSigning
  | encipherOnly
  | decipherOnly
deriving DecidableEq, Repr

namespace KeyUse

def all : List KeyUse :=
  [digitalSignature, nonRepudiation, keyEncipherment, dataEncipherment, keyAgreement,
    certificateSigning, revocationSigning, encipherOnly, decipherOnly]

def token : KeyUse → String
  | digitalSignature => "digital_signature"
  | nonRepudiation => "non_repudiation"
  | keyEncipherment => "key_encipherment"
  | dataEncipherment => "data_encipherment"
  | keyAgreement => "key_agreement"
  | certificateSigning => "key_cert_sign"
  | revocationSigning => "crl_sign"
  | encipherOnly => "encipher_only"
  | decipherOnly => "decipher_only"

def position : KeyUse → Nat
  | digitalSignature => 0
  | nonRepudiation => 1
  | keyEncipherment => 2
  | dataEncipherment => 3
  | keyAgreement => 4
  | certificateSigning => 5
  | revocationSigning => 6
  | encipherOnly => 7
  | decipherOnly => 8

/-- The bit of the use; the first eight uses fill an octet from its high end. -/
def mask : KeyUse → UInt16
  | digitalSignature => 0x80
  | nonRepudiation => 0x40
  | keyEncipherment => 0x20
  | dataEncipherment => 0x10
  | keyAgreement => 0x08
  | certificateSigning => 0x04
  | revocationSigning => 0x02
  | encipherOnly => 0x01
  | decipherOnly => 0x8000

def ofToken? (token : String) : Option KeyUse := all.find? (·.token = token)

end KeyUse

structure KeyUsage where
  bits : UInt16
deriving DecidableEq, Repr

namespace KeyUsage

def none : KeyUsage := ⟨0⟩

def contains (u : KeyUsage) (mask : UInt16) : Bool := u.bits &&& mask == mask

def allows (u : KeyUsage) (use : KeyUse) : Bool := u.contains use.mask

def insert (u : KeyUsage) (use : KeyUse) : KeyUsage := ⟨u.bits ||| use.mask⟩

def ofUses (uses : List KeyUse) : KeyUsage := uses.foldl insert none

def uses (u : KeyUsage) : List KeyUse := KeyUse.all.filter u.allows

def ofFlags (flags : Nat) : KeyUsage :=
  ofUses (KeyUse.all.filter fun use => flags.testBit use.position)

def readUses : List String → Except Fault (List KeyUse)
  | [] => .ok []
  | token :: rest =>
    match KeyUse.ofToken? token with
    | some use => (readUses rest).map (use :: ·)
    | .none => .error (.invalid .unknownKeyUsage (some token))

def ofTokens (tokens : List String) : Except Fault KeyUsage := (readUses tokens).map ofUses

end KeyUsage

end Strongroom
