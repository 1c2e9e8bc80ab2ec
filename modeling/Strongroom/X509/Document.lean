import Strongroom.X509.Extension
import Strongroom.X509.Key
import Strongroom.X509.Validity

/-!
The signed document of a certificate and its parts. Whatever follows the parts inside their
sequences, and whatever follows the document, is passed over; only the extensions have to fill what
is left.
-/

namespace Strongroom.X509

structure Document where
  /-- The encoding that the signature is over. -/
  signed : Octets
  serial : Octets
  issuer : Name
  validity : Validity
  subject : Name
  key : SubjectKey
  extensions : List Extension
  algorithm : Algorithm
  signature : Octets
deriving DecidableEq, Repr

namespace Document

def skipVersion? (s : Octets) : Option Octets := do
  let (e, rest) ← Der.read? s
  if e.header.tag ≠ 0 then some s
  else if e.header.tagClass ≠ .context then none
  else (Der.readNat32? e.contents).map fun _ => rest

def readSerial? (s : Octets) : Option (Octets × Octets) := do
  let (e, rest) ← Der.readBasic? s
  if e.header.tag = Der.Tag.integer then some (e.contents, rest) else none

def skipUnique? (tag : Nat) (s : Octets) : Option Octets :=
  if s.isEmpty then some s
  else do
    let (e, rest) ← Der.read? s
    if e.header.tag ≠ tag then some s
    else if e.header.tagClass ≠ .context then none
    else (Der.bitsOf? e).map fun _ => rest

def readExtensions? (s : Octets) : Option (List Extension) :=
  if s.isEmpty then some []
  else do
    let (header, rest) ← Der.readHeader? false s
    let (contents, after) ← Der.readSequence? rest
    if header.tag = 3 && after.isEmpty then Der.readAll? Extension.read? contents else none

def read? (s : Octets) : Option Document := do
  let (contents, _) ← Der.readSequence? s
  let (body, outer) ← Der.readSequence? contents
  let (algorithm, outer) ← Algorithm.read? outer
  let (signature, _) ← Der.readBits? outer
  let rest ← skipVersion? body
  let (serial, rest) ← readSerial? rest
  let (_, rest) ← Algorithm.read? rest
  let (issuer, rest) ← Name.read? rest
  let (validity, rest) ← Validity.read? rest
  let (subject, rest) ← Name.read? rest
  let (key, rest) ← SubjectKey.read? rest
  let rest ← skipUnique? 1 rest
  let rest ← skipUnique? 2 rest
  let extensions ← readExtensions? rest
  let (_, after) ← Der.read? contents
  return { signed := contents.take (contents.length - after.length), serial, issuer, validity,
           subject, key, extensions, algorithm, signature }

def extension? (d : Document) (kind : Octets) : Option (Option Octets) :=
  Extension.only? kind d.extensions

/-- The value of the only extension of a kind; `none` if there are two or it cannot be read. -/
def extensionValue? {α : Type} (d : Document) (kind : Octets) (read : Octets → Option α) :
    Option (Option α) := do
  match ← d.extension? kind with
  | none => some none
  | some value => (read value).map some

/-- Constraints that cannot be read count as absent. -/
def isAuthority? (d : Document) : Option Bool := do
  match ← d.extension? Identifier.basicConstraints with
  | none => some false
  | some value =>
    match Extension.basicConstraints? value with
    | some c => some c.isAuthority
    | none => some false

end Document

end Strongroom.X509
