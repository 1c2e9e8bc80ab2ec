import Strongroom.Der
import Strongroom.X509.Identifier

/-!
Distinguished names as certificates hold them: a sequence of sets of attributes. Reading stops at
the first set that cannot be read, and the name is what comes before it.
-/

namespace Strongroom.X509

structure Attribute where
  kind : Octets
  value : Der.Element
deriving DecidableEq, Repr

structure Name where
  /-- The encoding up to the last set that was read. Names are compared by it. -/
  encoded : Octets
  sets : List (List Attribute)
deriving DecidableEq, Repr

namespace Attribute

def read? (s : Octets) : Option (Attribute × Octets) := do
  let (contents, after) ← Der.readSequence? s
  let (kind, rest) ← Der.readIdentifier? contents
  let (value, _) ← Der.read? rest
  return (⟨kind, value⟩, after)

def textTags : List Nat :=
  [Der.Tag.utf8String, Der.Tag.numericString, Der.Tag.printableString, Der.Tag.ia5String]

def text? (a : Attribute) : Option String :=
  if textTags.contains a.value.header.tag then Octets.toText? a.value.contents else none

end Attribute

namespace Name

def readSet? (s : Octets) : Option (List Attribute × Octets) := do
  let (contents, after) ← Der.readTagged? Der.Tag.set s
  let (attributes, _) := Der.readMany Attribute.read? contents.length contents
  if attributes.isEmpty then none else some (attributes, after)

def read? (s : Octets) : Option (Name × Octets) := do
  let (header, body) ← Der.readHeader? false s
  let (contents, after) ← Der.readSequence? s
  let (sets, unread) := Der.readMany readSet? contents.length contents
  let size := s.length - body.length + (contents.length - unread.length)
  if header.tag = Der.Tag.sequence then some (⟨s.take size, sets⟩, after) else none

def attributes (n : Name) : List Attribute := n.sets.flatten

/-- The text of the first attribute of the kind; `none` also if that one has no text. -/
def text? (n : Name) (kind : Octets) : Option String :=
  (n.attributes.find? (·.kind = kind)).bind Attribute.text?

end Name

end Strongroom.X509
