/-!
Strings of octets: hexadecimal text and unsigned big-endian numbers.
-/

namespace Strongroom

abbrev Octets := List UInt8

namespace Octets

def hexDigit (n : Nat) : Char :=
  Char.ofNat (if n < 10 then 48 + n else 87 + n)

def hexValue? (c : Char) : Option Nat :=
  if '0' ≤ c && c ≤ '9' then some (c.toNat - 48)
  else if 'a' ≤ c && c ≤ 'f' then some (c.toNat - 87)
  else if 'A' ≤ c && c ≤ 'F' then some (c.toNat - 55)
  else none

def toHex (s : Octets) : String :=
  String.ofList (s.flatMap fun b => [hexDigit (b.toNat / 16), hexDigit (b.toNat % 16)])

def ofHexDigits : List Char → Option Octets
  | [] => some []
  | [_] => none
  | a :: b :: rest => do
    let high ← hexValue? a
    let low ← hexValue? b
    let tail ← ofHexDigits rest
    return UInt8.ofNat (16 * high + low) :: tail

def ofHex? (s : String) : Option Octets := ofHexDigits s.toList

def toNat (s : Octets) : Nat := s.foldl (fun n b => 256 * n + b.toNat) 0

def ofNat (count n : Nat) : Octets :=
  (List.range count).reverse.map fun i => UInt8.ofNat (n >>> (8 * i))

def ofText (s : String) : Octets := s.toUTF8.toList

def toText? (s : Octets) : Option String := String.fromUTF8? ⟨s.toArray⟩

end Octets

end Strongroom
