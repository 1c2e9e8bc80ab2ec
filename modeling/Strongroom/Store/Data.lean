import Strongroom.Access.Permission
import Strongroom.Credential
import Strongroom.Naming

/-!
What a store holds: credentials and access lists, each under the key of a name. An access list may
stand under a key without a credential.
-/

namespace Strongroom

structure StoreData where
  credentials : Dictionary Credential
  accessLists : Dictionary AccessList

namespace Credential

def signerName? (c : Credential) : Option String := c.latestCertificate?.bind (·.signerName)

end Credential

namespace StoreData

def empty : StoreData := ⟨∅, ∅⟩

instance : EmptyCollection StoreData := ⟨empty⟩

instance : Inhabited StoreData := ⟨empty⟩

def find? (d : StoreData) (name : String) : Option Credential :=
  d.credentials.get? (Naming.key name)

def contains (d : StoreData) (name : String) : Bool := (d.find? name).isSome

def versionCount (d : StoreData) (name : String) : Nat := ((d.find? name).map (·.count)).getD 0

def accessList? (d : StoreData) (name : String) : Option AccessList :=
  d.accessLists.get? (Naming.key name)

def operationsFor (d : StoreData) (name actor : String) : OperationSet :=
  match d.accessList? name with
  | some a => a.operationsOf actor
  | none => ∅

def isSignedUnder (signerKey : String) (c : Credential) : Bool :=
  c.signerName?.any fun signer => Naming.key signer = signerKey

def signedBy (d : StoreData) (signer : String) : List String :=
  (d.credentials.values.filter (isSignedUnder (Naming.key signer))).map (·.name)

end StoreData

end Strongroom
