import Strongroom.Json.Basic
import Strongroom.Octets
import Strongroom.Text.Decimal

/-!
Reading of JSON text. Every function takes the characters that are left and returns what it read
with the characters after it; `none` is a fault in the grammar.
-/

namespace Strongroom.Json

open Text

def skipBlank (s : List Char) : List Char :=
  s.dropWhile fun c => c = ' ' || c = '\n' || c = '\t' || c = '\r'

inductive Unit16
  | char (c : Char)
  | high (n : Nat)
  | low (n : Nat)

def escapedUnit (n : Nat) : Unit16 :=
  if 0xD800 ≤ n && n < 0xDC00 then .high (n - 0xD800)
  else if 0xDC00 ≤ n && n < 0xE000 then .low (n - 0xDC00)
  else .char (Char.ofNat n)

def hexQuad? (s : List Char) : Option (Nat × List Char) :=
  match s with
  | a :: b :: c :: d :: rest => do
    let a ← Octets.hexValue? a
    let b ← Octets.hexValue? b
    let c ← Octets.hexValue? c
    let d ← Octets.hexValue? d
    return (4096 * a + 256 * b + 16 * c + d, rest)
  | _ => none

def readEscape? (s : List Char) : Option (Unit16 × List Char) :=
  match s with
  | '"' :: rest => some (.char '"', rest)
  | '\\' :: rest => some (.char '\\', rest)
  | '/' :: rest => some (.char '/', rest)
  | 'b' :: rest => some (.char '\x08', rest)
  | 'f' :: rest => some (.char '\x0c', rest)
  | 'n' :: rest => some (.char '\n', rest)
  | 'r' :: rest => some (.char '\r', rest)
  | 't' :: rest => some (.char '\t', rest)
  | 'u' :: rest => (hexQuad? rest).map fun (n, r) => (escapedUnit n, r)
  | _ => none

def readUnits (fuel : Nat) (s : List Char) : Option (List Unit16 × List Char) :=
  match fuel, s with
  | 0, _ => none
  | _, [] => none
  | _, '"' :: rest => some ([], rest)
  | fuel + 1, '\\' :: rest => do
    let (unit, rest) ← readEscape? rest
    let (units, rest) ← readUnits fuel rest
    return (unit :: units, rest)
  | fuel + 1, c :: rest =>
    if c.toNat < 32 then none
    else (readUnits fuel rest).map fun (units, rest) => (.char c :: units, rest)

/-- Surrogate pairs joined; `none` if half of a pair stands alone. -/
def joinUnits : List Unit16 → Option (List Char)
  | [] => some []
  | .char c :: rest => (joinUnits rest).map (c :: ·)
  | .high h :: .low l :: rest => (joinUnits rest).map (Char.ofNat (0x10000 + 1024 * h + l) :: ·)
  | _ => none

def readString? (s : List Char) : Option (Option String × List Char) :=
  (readUnits (s.length + 1) s).map fun (units, rest) => ((joinUnits units).map String.ofList, rest)

def readSomeDigits? (s : List Char) : Option (List Char × List Char) :=
  match s.span isDigit with
  | ([], _) => none
  | (run, rest) => some (run, rest)

def readWhole? (s : List Char) : Option (List Char × List Char) :=
  match s with
  | '0' :: rest =>
    match rest with
    | c :: _ => if isDigit c then none else some (['0'], rest)
    | [] => some (['0'], rest)
  | _ => readSomeDigits? s

def readFraction? (s : List Char) : Option (Option (List Char) × List Char) :=
  match s with
  | '.' :: rest => (readSomeDigits? rest).map fun (run, rest) => (some run, rest)
  | _ => some (none, s)

def readExponent? (s : List Char) : Option (Option Int × List Char) :=
  match s with
  | c :: rest =>
    if c = 'e' || c = 'E' then
      let (negative, rest) : Bool × List Char := match rest with
        | '-' :: r => (true, r)
        | '+' :: r => (false, r)
        | _ => (false, rest)
      (readSomeDigits? rest).map fun (run, rest) =>
        let n : Int := valueOfDigits run
        (some (if negative then -n else n), rest)
    else some (none, s)
  | [] => some (none, s)

def readNumber? (s : List Char) : Option (Number × List Char) := do
  let (negative, s) : Bool × List Char := match s with
    | '-' :: rest => (true, rest)
    | _ => (false, s)
  let (whole, s) ← readWhole? s
  let (fraction, s) ← readFraction? s
  let (exponent, s) ← readExponent? s
  let places := fraction.getD []
  let number : Number :=
    { negative, significand := valueOfDigits (whole ++ places)
      exponent := exponent.getD 0 - places.length
      integral := fraction.isNone && exponent.isNone }
  return (number, s)

def readWord? (word : List Char) (value : Json) (s : List Char) : Option (Json × List Char) :=
  if word.isPrefixOf s then some (value, s.drop word.length) else none

mutual

def readValue (fuel : Nat) (s : List Char) : Option (Json × List Char) :=
  match fuel with
  | 0 => none
  | fuel + 1 =>
    match skipBlank s with
    | '"' :: rest => (readString? rest).map fun (t, rest) => (.text t, rest)
    | '[' :: rest =>
      match skipBlank rest with
      | ']' :: rest => some (.array [], rest)
      | _ => (readItems fuel rest).map fun (items, rest) => (.array items, rest)
    | '{' :: rest =>
      match skipBlank rest with
      | '}' :: rest => some (.object [], rest)
      | _ => (readMembers fuel rest).map fun (members, rest) => (.object members, rest)
    | 'n' :: rest => readWord? ['u', 'l', 'l'] .null rest
    | 't' :: rest => readWord? ['r', 'u', 'e'] (.bool true) rest
    | 'f' :: rest => readWord? ['a', 'l', 's', 'e'] (.bool false) rest
    | s => (readNumber? s).map fun (n, rest) => (.number n, rest)

def readItems (fuel : Nat) (s : List Char) : Option (List Json × List Char) :=
  match fuel with
  | 0 => none
  | fuel + 1 => do
    let (item, s) ← readValue fuel s
    match skipBlank s with
    | ',' :: s =>
      let (items, s) ← readItems fuel s
      return (item :: items, s)
    | ']' :: s => return ([item], s)
    | _ => none

def readMembers (fuel : Nat) (s : List Char) :
    Option (List (Option String × Json) × List Char) :=
  match fuel with
  | 0 => none
  | fuel + 1 => do
    let s ← match skipBlank s with
      | '"' :: s => some s
      | _ => none
    let (key, s) ← readString? s
    let s ← match skipBlank s with
      | ':' :: s => some s
      | _ => none
    let (value, s) ← readValue fuel s
    match skipBlank s with
    | ',' :: s =>
      let (members, s) ← readMembers fuel s
      return ((key, value) :: members, s)
    | '}' :: s => return ([(key, value)], s)
    | _ => none

end

def ofChars? (s : List Char) : Option Json :=
  match readValue (s.length + 1) s with
  | some (j, rest) => if (skipBlank rest).isEmpty then some j else none
  | none => none

def ofText? (s : String) : Option Json := ofChars? s.toList

end Strongroom.Json
