import Strongroom.Octets

/-!
Identifiers of 128 bits and their text: five groups of hexadecimal digits. Read also without
hyphens, in braces, or as a name of the scheme for such identifiers.
-/

namespace Strongroom

structure Uuid where
  bits : BitVec 128
deriving DecidableEq, Repr

namespace Uuid

def ofNat (n : Nat) : Uuid := ⟨BitVec.ofNat 128 n⟩

def digits (u : Uuid) : List Char :=
  (List.range 32).map fun i => Octets.hexDigit (u.bits.toNat >>> (4 * (31 - i)) % 16)

def groups : List Nat := [8, 4, 4, 4, 12]

def joinGroups : List Nat → List Char → List Char
  | [], _ => []
  | [_], s => s
  | n :: rest, s => s.take n ++ '-' :: joinGroups rest (s.drop n)

def text (u : Uuid) : String := String.ofList (joinGroups groups u.digits)

def ofDigits? (s : List Char) : Option Uuid :=
  if s.length = 32 then
    (s.mapM Octets.hexValue?).map fun values => ofNat (values.foldl (fun n d => 16 * n + d) 0)
  else none

def splitGroups? : List Nat → List Char → Option (List Char)
  | [], _ => none
  | [n], s => if s.length = n then some s else none
  | n :: rest, s =>
    match s.drop n with
    | '-' :: tail => (splitGroups? rest tail).map (s.take n ++ ·)
    | _ => none

def scheme : List Char := ['u', 'r', 'n', ':', 'u', 'u', 'i', 'd', ':']

def ofHyphenated? (s : List Char) : Option Uuid := (splitGroups? groups s).bind ofDigits?

def ofChars? (s : List Char) : Option Uuid :=
  if s.length = 32 then ofDigits? s
  else if s.head? = some '\x7b' && s.getLast? = some '\x7d' then
    ofHyphenated? (s.drop 1).dropLast
  else if scheme.isPrefixOf s then ofHyphenated? (s.drop scheme.length)
  else ofHyphenated? s

def ofText? (s : String) : Option Uuid := ofChars? s.toList

end Uuid

end Strongroom
