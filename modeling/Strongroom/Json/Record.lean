import Strongroom.Json.Basic

/-!
Records read out of JSON. A record is an object, in which members of unknown names are passed over
and no known name may come twice, or an array of the fields in their order.
-/

namespace Strongroom.Json

def toNat? (limit : Nat) : Json → Option Nat
  | number n => n.toNat? limit
  | _ => none

def toBool? : Json → Option Bool
  | bool b => some b
  | _ => none

def toText? : Json → Option String
  | text s => s
  | _ => none

def toList? {α : Type} (read : Json → Option α) : Json → Option (List α)
  | array items => items.mapM read
  | _ => none

def toOption? {α : Type} (read : Json → Option α) : Json → Option (Option α)
  | null => some none
  | j => (read j).map some

def maxUInt16 : Nat := 65535

def maxUInt32 : Nat := 4294967295

/-- Containers may nest this deep where a value has to be held before its type is known. -/
def depthLimit : Nat := 127

mutual

def isHoldable (depth : Nat) : Json → Bool
  | null => true
  | bool _ => true
  | number n => n.isFinite
  | text s => s.isSome
  | array items =>
    match depth with
    | 0 => false
    | depth + 1 => itemsHoldable depth items
  | object members =>
    match depth with
    | 0 => false
    | depth + 1 => membersHoldable depth members

def itemsHoldable (depth : Nat) : List Json → Bool
  | [] => true
  | item :: rest => isHoldable depth item && itemsHoldable depth rest

def membersHoldable (depth : Nat) : List (Option String × Json) → Bool
  | [] => true
  | (key, value) :: rest => key.isSome && isHoldable depth value && membersHoldable depth rest

end

/-- The fields found in a record, by name; `positional` if the record was an array. -/
structure Fields where
  positional : Bool
  found : List (String × Json)

namespace Fields

def ofMembers (names : List String) :
    List (Option String × Json) → Option (List (String × Json))
  | [] => some []
  | (none, _) :: _ => none
  | (some key, value) :: rest => do
    let found ← ofMembers names rest
    if names.contains key then
      if found.any (·.1 = key) then none else some ((key, value) :: found)
    else some found

def ofJson? (names : List String) : Json → Option Fields
  | object members => (ofMembers names members).map (⟨false, ·⟩)
  | array items => if items.length ≤ names.length then some ⟨true, names.zip items⟩ else none
  | _ => none

def get? (f : Fields) (name : String) : Option Json := f.found.lookup name

def required {α : Type} (f : Fields) (name : String) (read : Json → Option α) : Option α :=
  (f.get? name).bind read

def defaulted {α : Type} (f : Fields) (name : String) (default : α) (read : Json → Option α) :
    Option α :=
  match f.get? name with
  | some j => read j
  | none => some default

/-- A field that may be null, and may be left out of an object. -/
def nullable {α : Type} (f : Fields) (name : String) (read : Json → Option α) :
    Option (Option α) :=
  match f.get? name with
  | some j => toOption? read j
  | none => if f.positional then none else some none

end Fields

def toName? : Json → Option String
  | text s => s
  | object [(key, null)] => key
  | _ => none

end Strongroom.Json
