import Strongroom.Network.Address
import Strongroom.X509.Name

/-!
Extensions of a certificate and the values of those that are looked at: key usage, extended key
usage, alternative names and basic constraints.
-/

namespace Strongroom.X509

structure Extension where
  kind : Octets
  value : Octets
deriving DecidableEq, Repr

namespace Extension

def skipCritical? (s : Octets) : Option Octets := do
  let (e, rest) ← Der.readBasic? s
  if e.header.tag = Der.Tag.boolean then
    if e.contents.length = 1 && !e.header.constructed then some rest else none
  else some s

def read? (s : Octets) : Option (Extension × Octets) := do
  let (contents, after) ← Der.readSequence? s
  let (kind, rest) ← Der.readIdentifier? contents
  let rest ← skipCritical? rest
  let (value, _) ← Der.readTagged? Der.Tag.octetString rest
  return (⟨kind, value⟩, after)

def only? (kind : Octets) (extensions : List Extension) : Option (Option Octets) :=
  match extensions.filter (·.kind = kind) with
  | [] => some none
  | [e] => some (some e.value)
  | _ => none

def reversedBits (b : UInt8) : Nat :=
  (List.range 8).foldl (fun n i => 2 * n + (b.toNat >>> i) % 2) 0

/-- The flags of a string of bits, bit 0 of the first octet lowest; sixteen are kept. -/
def flagsOf (bits : Octets) : Nat :=
  bits.foldr (fun b n => (256 * n + reversedBits b) % 65536) 0

def isPadded (unused : UInt8) (bits : Octets) : Bool :=
  match bits.getLast? with
  | some last => last.toNat % Nat.pow 2 unused.toNat = 0
  | none => true

def keyUsage? (value : Octets) : Option Nat := do
  let (e, _) ← Der.read? value
  match e.contents with
  | unused :: bits =>
    if e.header.tag = Der.Tag.bitString && !e.header.constructed && unused ≤ 7 &&
        isPadded unused bits then
      some (flagsOf bits)
    else none
  | [] => none

def extendedKeyUsage? (value : Octets) : Option (List Octets) := do
  let (contents, _) ← Der.readSequence? value
  Der.readAll? Der.readIdentifier? contents

inductive GeneralName
  | other (kind : Octets) (value : Octets)
  | mail (text : String)
  | domain (text : String)
  | directory (name : Name)
  | locator (text : String)
  | address (octets : Octets)
  | unused
deriving DecidableEq, Repr

namespace GeneralName

def ofElement? (e : Der.Element) : Option GeneralName :=
  if e.header.tagClass ≠ .context then none
  else match e.header.tag with
    | 0 => (Der.readIdentifier? e.contents).map fun (kind, rest) => .other kind rest
    | 1 => (Octets.toText? e.contents).map mail
    | 2 => (Octets.toText? e.contents).map domain
    | 4 => (Name.read? e.contents).bind fun (name, rest) =>
      if rest.isEmpty then some (directory name) else none
    | 6 => (Octets.toText? e.contents).map locator
    | 7 => some (address e.contents)
    | 3 | 5 | 8 => some unused
    | _ => none

def read? (s : Octets) : Option (GeneralName × Octets) := do
  let (e, rest) ← Der.read? s
  let name ← ofElement? e
  return (name, rest)

end GeneralName

def alternativeNames? (value : Octets) : Option (List GeneralName) := do
  let (contents, _) ← Der.readSequence? value
  Der.readAll? GeneralName.read? contents

structure BasicConstraints where
  isAuthority : Bool
  pathLength : Option Nat
deriving DecidableEq, Repr

def readBasicAll? (s : Octets) : Option (List Der.Element) := Der.readAll? Der.readBasic? s

def isUniversal (tag : Nat) (e : Der.Element) : Bool :=
  e.header.tagClass = .universal && e.header.tag = tag && !e.header.constructed

def booleanOf? (e : Der.Element) : Option Bool :=
  match e.contents with
  | [b] => if isUniversal Der.Tag.boolean e then some (b ≠ 0) else none
  | _ => none

def basicConstraints? (value : Octets) : Option BasicConstraints := do
  let (contents, _) ← Der.readSequence? value
  match ← readBasicAll? contents with
  | [] => some ⟨false, none⟩
  | [e] =>
    if isUniversal Der.Tag.integer e then
      (Der.smallNat? 4 e.contents).map fun n => ⟨false, some n⟩
    else (booleanOf? e).map fun b => ⟨b, none⟩
  | [a, b] => do
    let isAuthority ← booleanOf? a
    if isUniversal Der.Tag.integer b then
      (Der.smallNat? 4 b.contents).map fun n => ⟨isAuthority, some n⟩
    else none
  | _ => none

end Extension

end Strongroom.X509
