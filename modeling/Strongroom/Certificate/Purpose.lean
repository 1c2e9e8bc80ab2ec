import Strongroom.Fault
import Strongroom.X509.Identifier

/-!
The purposes of a key beyond its plain uses.
-/

namespace Strongroom

inductive Purpose
  | serverAuth
  | clientAuth
  | codeSigning
  | emailProtection
  | timeStamping
deriving DecidableEq, Repr

namespace Purpose

def all : List Purpose := [serverAuth, clientAuth, codeSigning, emailProtection, timeStamping]

def token : Purpose → String
  | serverAuth => "server_auth"
  | clientAuth => "client_auth"
  | codeSigning => "code_signing"
  | emailProtection => "email_protection"
  | timeStamping => "timestamping"

def ofToken? (token : String) : Option Purpose := all.find? (·.token = token)

def arc : Purpose → Nat
  | serverAuth => 1
  | clientAuth => 2
  | codeSigning => 3
  | emailProtection => 4
  | timeStamping => 8

def arcs (p : Purpose) : List Nat := [1, 3, 6, 1, 5, 5, 7, 3, p.arc]

def identifierText (p : Purpose) : String := ".".intercalate (p.arcs.map Text.natText)

def identifier (p : Purpose) : Octets := X509.Identifier.ofArcs p.arcs

def ofTokens : List String → Except Fault (List Purpose)
  | [] => .ok []
  | token :: rest =>
    match ofToken? token with
    | some p => (ofTokens rest).map (p :: ·)
    | none => .error (.invalid .unknownPurpose (some token))

end Purpose

end Strongroom
