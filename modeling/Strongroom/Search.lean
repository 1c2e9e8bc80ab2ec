import Strongroom.Access.Policy
import Strongroom.Text.Basic

/-!
Search among the credentials that the actor may read: by a part of the name, by the folder, and for
the folders there are. Spelling does not matter, and folders match by whole segments.
-/

namespace Strongroom.Search

open Text

structure Found where
  name : String
  createdAt : Time.Instant
deriving DecidableEq, Repr

def comesBefore (a b : Found) : Bool :=
  b.createdAt < a.createdAt || a.createdAt = b.createdAt && a.name ≤ b.name

def readable (policy : AccessPolicy) (d : StoreData) (actor : String) : List Credential :=
  d.credentials.values.filter fun c => policy.permits d c.name actor .read

def matching (policy : AccessPolicy) (actor : String) (matches? : Credential → Bool) :
    Inquiry (List Found) := do
  Inquiry.collect [{ code := .credentialFind }]
  let found := (readable policy (← Inquiry.data) actor).filter matches?
  return (found.map fun c => ⟨c.name, c.latest.createdAt⟩).mergeSort comesBefore

def nameContains (pattern : String) (c : Credential) : Bool :=
  occursIn (lower (trim pattern.toList)) (Naming.keyChars c.name.toList)

def byName (policy : AccessPolicy) (actor pattern : String) : Inquiry (List Found) :=
  matching policy actor (nameContains pattern)

def folderChars (path : List Char) : List Char :=
  let key := Naming.keyChars path
  if key.getLast? = some '/' then key else key ++ ['/']

def isInFolder (path : String) (c : Credential) : Bool :=
  (folderChars path.toList).isPrefixOf (Naming.keyChars c.name.toList)

def byPath (policy : AccessPolicy) (actor path : String) : Inquiry (List Found) :=
  matching policy actor (isInFolder path)

def upToSlashes (before : List Char) : (rest : List Char) → List (List Char)
  | [] => []
  | c :: rest =>
    let upTo := before ++ [c]
    if c = '/' then upTo :: upToSlashes upTo rest else upToSlashes upTo rest

def folders (name : String) : List String :=
  (upToSlashes [] ('/' :: name.toList.dropWhile (· = '/'))).map String.ofList

def allFolders (policy : AccessPolicy) (actor : String) : Inquiry (List String) := do
  Inquiry.collect [{ code := .credentialFind }]
  let found := (readable policy (← Inquiry.data) actor).flatMap fun c => folders c.name
  return (Dictionary.ofListWith (fun held _ => held) (found.map (·, ()))).keys

end Strongroom.Search
