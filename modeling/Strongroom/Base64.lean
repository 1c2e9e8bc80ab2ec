import Strongroom.Octets

/-!
Base 64 text. Blocks of four characters stand for three octets; a block that ends in one or two
padding characters stands for two or one, and its unused bits are zero.
-/

namespace Strongroom.Base64

def digitValue? (c : Char) : Option Nat :=
  if 'A' ≤ c && c ≤ 'Z' then some (c.toNat - 65)
  else if 'a' ≤ c && c ≤ 'z' then some (c.toNat - 71)
  else if '0' ≤ c && c ≤ '9' then some (c.toNat + 4)
  else if c = '+' then some 62
  else if c = '/' then some 63
  else none

def decodeBlock? (a b c d : Char) : Option Octets := do
  let a ← digitValue? a
  let b ← digitValue? b
  let n := 64 * a + b
  if c = '=' then
    if d = '=' && n % 16 = 0 then some (Octets.ofNat 1 (n / 16)) else none
  else
    let n := 64 * n + (← digitValue? c)
    if d = '=' then
      if n % 4 = 0 then some (Octets.ofNat 2 (n / 4)) else none
    else
      let n := 64 * n + (← digitValue? d)
      some (Octets.ofNat 3 n)

/-- Any number of blocks, a padded one also before others. -/
def decodeJoined? : List Char → Option Octets
  | [] => some []
  | a :: b :: c :: d :: rest => do
    let block ← decodeBlock? a b c d
    let tail ← decodeJoined? rest
    return block ++ tail
  | _ => none

def decode? (s : List Char) : Option Octets :=
  if ((s.take (s.length - 4)).contains '=') then none else decodeJoined? s

end Strongroom.Base64
