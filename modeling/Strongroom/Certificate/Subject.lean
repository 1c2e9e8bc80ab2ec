import Strongroom.Network.Address

/-!
What a certificate says of its subject. Requests give a distinguished name as six attributes, each
of which may be absent or empty, and the text lists those that are neither; alternative names are
addresses and domain names.
-/

namespace Strongroom

structure Subject where
  commonName : Option String := none
  organization : Option String := none
  organizationUnit : Option String := none
  locality : Option String := none
  state : Option String := none
  country : Option String := none
deriving DecidableEq, Repr, Inhabited

namespace Subject

def given (value : Option String) : Option String := value.filter (· ≠ "")

def labelled (s : Subject) : List (String × Option String) :=
  [("L", s.locality), ("O", s.organization), ("ST", s.state), ("C", s.country),
    ("OU", s.organizationUnit), ("CN", s.commonName)]

def present (s : Subject) : List (String × String) :=
  s.labelled.filterMap fun (label, value) => (given value).map (label, ·)

def text (s : Subject) : String :=
  ",".intercalate (s.present.map fun (label, value) => label ++ "=" ++ value)

def isEmpty (s : Subject) : Bool := s.present.isEmpty

def withoutEmpty (s : Subject) : Subject :=
  ⟨given s.commonName, given s.organization, given s.organizationUnit, given s.locality,
    given s.state, given s.country⟩

end Subject

inductive AlternativeName
  | ip (address : Network.Address)
  | dns (name : String)
deriving DecidableEq, Repr

namespace AlternativeName

/-- Told apart by their form alone: what is not the literal of an address is a domain name. -/
def classify (name : String) : AlternativeName :=
  match Network.Address.ofText? name with
  | some address => ip address
  | none => dns name

end AlternativeName

end Strongroom
