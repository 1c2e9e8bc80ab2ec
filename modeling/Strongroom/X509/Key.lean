import Strongroom.Der
import Strongroom.X509.Identifier

/-!
Algorithms and subject public keys: an identifier with parameters, and a string of bits.
-/

namespace Strongroom.X509

structure Algorithm where
  identifier : Octets
  parameters : Option Der.Element
deriving DecidableEq, Repr

namespace Algorithm

def read? (s : Octets) : Option (Algorithm × Octets) := do
  let (contents, after) ← Der.readSequence? s
  let (identifier, rest) ← Der.readIdentifier? contents
  if rest.isEmpty then some (⟨identifier, none⟩, after)
  else
    let (parameters, _) ← Der.read? rest
    return (⟨identifier, some parameters⟩, after)

end Algorithm

structure SubjectKey where
  algorithm : Algorithm
  bits : Octets
deriving DecidableEq, Repr

namespace SubjectKey

def read? (s : Octets) : Option (SubjectKey × Octets) := do
  let (contents, after) ← Der.readSequence? s
  let (algorithm, rest) ← Algorithm.read? contents
  let (bits, _) ← Der.readBits? rest
  return (⟨algorithm, bits⟩, after)

def readInteger? (s : Octets) : Option (Octets × Octets) := do
  let (e, rest) ← Der.read? s
  if e.header.tag = Der.Tag.integer && !e.header.constructed then some (e.contents, rest) else none

def modulusLength? (bits : Octets) : Option Nat := do
  let (contents, _) ← Der.readSequence? bits
  let (modulus, rest) ← readInteger? contents
  let _ ← readInteger? rest
  match modulus with
  | [] => some 0
  | b :: more => some (if b < 128 then 8 * more.length else 0)

def pointLength (bits : Octets) : Nat :=
  match bits with
  | [] => 0
  | form :: rest =>
    if form = 4 then rest.length * 8 / 2
    else if form = 2 || form = 3 then rest.length * 8
    else 0

/-- The length of the key in bits, zero for an algorithm whose keys have none; `none` if the key
does not have the form that its algorithm gives it. -/
def length? (k : SubjectKey) : Option Nat :=
  if k.algorithm.identifier = Identifier.rsaEncryption then modulusLength? k.bits
  else if k.algorithm.identifier = Identifier.curveKey then some (pointLength k.bits)
  else if k.algorithm.identifier = Identifier.dsaKey then (readInteger? k.bits).map fun _ => 0
  else if Identifier.gostKeys.contains k.algorithm.identifier then
    (Der.readTagged? Der.Tag.octetString k.bits).map fun _ => 0
  else some 0

end SubjectKey

end Strongroom.X509
