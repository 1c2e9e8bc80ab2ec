import Strongroom.Text.Decimal

/-!
JSON documents as they are written: objects keep every member in order, numbers keep their decimal
form, and a string whose escapes form no text is kept as such.
-/

namespace Strongroom

/-- A number `±significand · 10^exponent`, which is `integral` if it is written without a point and
without an exponent. -/
structure Json.Number where
  negative : Bool
  significand : Nat
  exponent : Int
  integral : Bool
deriving DecidableEq, Repr

/-- A string is `none` if it holds half of a surrogate pair. -/
inductive Json
  | null
  | bool (value : Bool)
  | number (value : Json.Number)
  | text (value : Option String)
  | array (items : List Json)
  | object (members : List (Option String × Json))
deriving Repr

namespace Json

instance : Inhabited Json := ⟨null⟩

def string (s : String) : Json := .text (some s)

def nat (n : Nat) : Json := .number ⟨false, n, 0, true⟩

def record (members : List (String × Json)) : Json :=
  .object (members.map fun m => (some m.1, m.2))

def optional {α : Type} (encode : α → Json) : Option α → Json
  | some a => encode a
  | none => .null

def list {α : Type} (encode : α → Json) (items : List α) : Json := .array (items.map encode)

def optionalText : Option String → Json := optional string

namespace Number

def toNat? (limit : Nat) (n : Number) : Option Nat :=
  if n.integral && !n.negative && n.significand ≤ limit then some n.significand else none

def overflowBound : Nat := Nat.pow 2 1024 - Nat.pow 2 970

/-- Whether the value is within the range of double precision. The count of digits settles it except
in the last decade. -/
def isFinite (n : Number) : Bool :=
  let decade : Int := (Text.digitsOf n.significand).length + n.exponent
  if n.significand = 0 || decade < 309 then true
  else if 309 < decade then false
  else if n.exponent < 0 then n.significand < overflowBound * Nat.pow 10 n.exponent.natAbs
  else n.significand * Nat.pow 10 n.exponent.toNat < overflowBound

end Number

end Json

end Strongroom
