import Strongroom.Octets

/-!
Arithmetic modulo a number, and the canonical encoding in which keys and signature values have to
come: minimal lengths of at most two octets, and positive integers without needless zeros.
-/

namespace Strongroom.Signature

def powMod (base exponent m : Nat) : Nat :=
  if exponent = 0 then 1 % m
  else
    let half := powMod (base * base % m) (exponent / 2) m
    if exponent % 2 = 1 then base * half % m else half
termination_by exponent
decreasing_by omega

def inverseMod (a p : Nat) : Nat := powMod (a % p) (p - 2) p

def subMod (a b p : Nat) : Nat := (a + (p - b % p)) % p

namespace Canonical

def readLength? (s : Octets) : Option (Nat × Octets) :=
  match s with
  | b :: rest =>
    if b < 128 then some (b.toNat, rest)
    else if b = 0x81 then
      match rest with
      | c :: rest => if c < 128 then none else some (c.toNat, rest)
      | [] => none
    else if b = 0x82 then
      match rest with
      | c :: d :: rest => if c = 0 then none else some (256 * c.toNat + d.toNat, rest)
      | _ => none
    else none
  | [] => none

def read? (tag : UInt8) (s : Octets) : Option (Octets × Octets) :=
  match s with
  | t :: rest => do
    let (length, rest) ← readLength? rest
    if t = tag && length ≤ rest.length then some (rest.take length, rest.drop length) else none
  | [] => none

def readPositive? (s : Octets) : Option (Octets × Octets) := do
  let (contents, rest) ← read? 0x02 s
  match contents with
  | [] => none
  | b :: more =>
    if b = 0 then
      match more with
      | c :: _ => if c < 128 then none else some (more, rest)
      | [] => none
    else if b < 128 then some (contents, rest)
    else none

def readPair? (s : Octets) : Option (Octets × Octets) := do
  let (contents, rest) ← read? 0x30 s
  let (a, inner) ← readPositive? contents
  let (b, inner) ← readPositive? inner
  if rest.isEmpty && inner.isEmpty then some (a, b) else none

end Canonical

end Strongroom.Signature
