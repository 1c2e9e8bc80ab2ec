import Strongroom.Certificate.Basic
import Strongroom.Json.Record

/-!
Credentials: a name and the versions of a value, oldest first, all of one kind. There is always a
version, so that there is a latest one.
-/

namespace Strongroom

inductive CredentialKind
  | value
  | password
  | json
  | user
  | rsa
  | ssh
  | certificate
deriving DecidableEq, Repr

namespace CredentialKind

def all : List CredentialKind := [value, password, json, user, rsa, ssh, certificate]

def name : CredentialKind → String
  | value => "value"
  | password => "password"
  | json => "json"
  | user => "user"
  | rsa => "rsa"
  | ssh => "ssh"
  | certificate => "certificate"

def ofName? (name : String) : Option CredentialKind := all.find? (·.name = name)

def toJson (k : CredentialKind) : Json := .string k.name

def ofJson? (j : Json) : Option CredentialKind := j.toName?.bind ofName?

end CredentialKind

structure CertificateValue where
  certificate : Certificate
  privateKey : PrivateKey
  /-- The certificate of the signer when this one was signed. -/
  signerCertificate : Option Certificate
  signerName : Option String
deriving DecidableEq, Repr

inductive CredentialValue
  | value (text : String)
  | password (text : String)
  | json (document : Json)
  | user (username password : String)
  | rsa (publicKey privateKey : String)
  | ssh (publicKey privateKey : String)
  | certificate (value : CertificateValue)
deriving Repr

namespace CredentialValue

def kind : CredentialValue → CredentialKind
  | value _ => .value
  | password _ => .password
  | json _ => .json
  | user _ _ => .user
  | rsa _ _ => .rsa
  | ssh _ _ => .ssh
  | certificate _ => .certificate

def certificate? : CredentialValue → Option CertificateValue
  | certificate v => some v
  | _ => none

end CredentialValue

structure Version where
  id : FreshId
  createdAt : Time.Instant
  value : CredentialValue
deriving Repr

structure Credential where
  id : FreshId
  name : String
  first : Version
  later : List Version
deriving Repr

namespace Credential

def kind (c : Credential) : CredentialKind := c.first.value.kind

def versions (c : Credential) : List Version := c.first :: c.later

def latest (c : Credential) : Version := c.later.getLast?.getD c.first

def latestCertificate? (c : Credential) : Option CertificateValue := c.latest.value.certificate?

def count (c : Credential) : Nat := c.versions.length

/-- The kind is fixed by the first version. -/
def append (c : Credential) (v : Version) : Except Fault Credential :=
  if v.value.kind = c.kind then .ok { c with later := c.later ++ [v] }
  else .error (.validation .typeMismatch)

def truncate (c : Credential) (count : Nat) : Credential :=
  { c with later := c.later.take (count - 1) }

end Credential

end Strongroom
