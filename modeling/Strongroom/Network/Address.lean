import Strongroom.Octets
import Strongroom.Text.Decimal

/-!
Internet addresses and their text: four decimal numbers, or eight groups of hexadecimal digits of
which the longest run of two or more zero groups is left out.
-/

namespace Strongroom.Network

open Text

structure Quad where
  a : UInt8
  b : UInt8
  c : UInt8
  d : UInt8
deriving DecidableEq, Repr

inductive Address
  | v4 (quad : Quad)
  | v6 (groups : Vector UInt16 8)
deriving DecidableEq, Repr

namespace Quad

def chars (q : Quad) : List Char :=
  digitsOf q.a.toNat ++ '.' :: digitsOf q.b.toNat ++ '.' :: digitsOf q.c.toNat ++
    '.' :: digitsOf q.d.toNat

def readPart? (s : List Char) : Option (UInt8 × List Char) :=
  let run := s.takeWhile isDigit
  let value := valueOfDigits run
  if run.isEmpty || 3 < run.length || 255 < value || (run.head? = some '0' && 1 < run.length) then
    none
  else some (UInt8.ofNat value, s.drop run.length)

def readDot? (s : List Char) : Option (List Char) :=
  match s with
  | '.' :: rest => some rest
  | _ => none

def read? (s : List Char) : Option (Quad × List Char) := do
  let (a, s) ← readPart? s
  let (b, s) ← readPart? (← readDot? s)
  let (c, s) ← readPart? (← readDot? s)
  let (d, s) ← readPart? (← readDot? s)
  return (⟨a, b, c, d⟩, s)

def groups (q : Quad) : List UInt16 :=
  [UInt16.ofNat (256 * q.a.toNat + q.b.toNat), UInt16.ofNat (256 * q.c.toNat + q.d.toNat)]

def ofGroups (high low : UInt16) : Quad :=
  ⟨UInt8.ofNat (high.toNat / 256), UInt8.ofNat high.toNat, UInt8.ofNat (low.toNat / 256),
    UInt8.ofNat low.toNat⟩

end Quad

namespace Address

def hexDigits (n : Nat) : List Char :=
  if n < 16 then [Octets.hexDigit n] else hexDigits (n / 16) ++ [Octets.hexDigit (n % 16)]

def joinGroups : List UInt16 → List Char
  | [] => []
  | [g] => hexDigits g.toNat
  | g :: rest => hexDigits g.toNat ++ ':' :: joinGroups rest

def zeroRun : List UInt16 → Nat × Nat
  | [] => (0, 0)
  | g :: rest =>
    let here := ((g :: rest).takeWhile (· = 0)).length
    let (start, length) := zeroRun rest
    if 0 < here && length ≤ here then (0, here) else (start + 1, length)

def groupChars (groups : List UInt16) : List Char :=
  match groups with
  | [0, 0, 0, 0, 0, 0xffff, high, low] =>
    [':', ':', 'f', 'f', 'f', 'f', ':'] ++ (Quad.ofGroups high low).chars
  | _ =>
    let (start, length) := zeroRun groups
    if 1 < length then
      joinGroups (groups.take start) ++ ':' :: ':' :: joinGroups (groups.drop (start + length))
    else joinGroups groups

def chars : Address → List Char
  | v4 quad => quad.chars
  | v6 groups => groupChars groups.toList

def text (a : Address) : String := String.ofList a.chars

def readGroup? (s : List Char) : Option (UInt16 × List Char) :=
  let run := s.takeWhile fun c => (Octets.hexValue? c).isSome
  if run.isEmpty || 4 < run.length then none
  else
    let value := run.foldl (fun n c => 16 * n + (Octets.hexValue? c).getD 0) 0
    some (UInt16.ofNat value, s.drop run.length)

def afterColon? (first : Bool) (s : List Char) : Option (List Char) :=
  if first then some s
  else match s with
    | ':' :: rest => some rest
    | _ => none

def readGroups (limit : Nat) (first : Bool) (s : List Char) : List UInt16 × Bool × List Char :=
  match limit with
  | 0 => ([], false, s)
  | limit + 1 =>
    match afterColon? first s with
    | none => ([], false, s)
    | some t =>
      match (if limit = 0 then none else Quad.read? t) with
      | some (quad, rest) => (quad.groups, true, rest)
      | none =>
        match readGroup? t with
        | none => ([], false, s)
        | some (group, rest) =>
          let (groups, quad, rest) := readGroups limit false rest
          (group :: groups, quad, rest)

def ofGroups? (groups : List UInt16) : Option Address :=
  if h : groups.toArray.size = 8 then some (v6 ⟨groups.toArray, h⟩) else none

def readLong? (s : List Char) : Option (Address × List Char) :=
  let (head, quad, rest) := readGroups 8 true s
  if head.length = 8 then (ofGroups? head).map (·, rest)
  else if quad then none
  else match rest with
    | ':' :: ':' :: rest =>
      let (tail, _, rest) := readGroups (7 - head.length) true rest
      let zeros := List.replicate (8 - head.length - tail.length) 0
      (ofGroups? (head ++ zeros ++ tail)).map (·, rest)
    | _ => none

def ofChars? (s : List Char) : Option Address :=
  match Quad.read? s with
  | some (quad, rest) => if rest.isEmpty then some (v4 quad) else none
  | none =>
    match readLong? s with
    | some (address, rest) => if rest.isEmpty then some address else none
    | none => none

def ofText? (s : String) : Option Address := ofChars? s.toList

def octets : Address → Octets
  | v4 quad => [quad.a, quad.b, quad.c, quad.d]
  | v6 groups => groups.toList.flatMap fun g => [UInt8.ofNat (g.toNat / 256), UInt8.ofNat g.toNat]

def ofOctets? (s : Octets) : Option Address :=
  match s with
  | [a, b, c, d] => some (v4 ⟨a, b, c, d⟩)
  | _ =>
    let rec pairs : List UInt8 → List UInt16
      | a :: b :: rest => UInt16.ofNat (256 * a.toNat + b.toNat) :: pairs rest
      | _ => []
    if s.length = 16 then ofGroups? (pairs s) else none

end Address

end Strongroom.Network
