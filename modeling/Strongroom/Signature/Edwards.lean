import Strongroom.Hash.Sha2
import Strongroom.Signature.Modular

/-!
Signatures over the twisted Edwards curve `-x² + y² = 1 + d x² y²` modulo `2²⁵⁵ - 19`.
-/

namespace Strongroom.Signature.Edwards

def p : Nat := Nat.pow 2 255 - 19

def order : Nat := Nat.pow 2 252 + 27742317777372353535851937790883648493

def d : Nat := subMod 0 (121665 * inverseMod 121666 p) p

/-- The point `(x / z, y / z)`, with `t` the product of the two over `z`. -/
structure Point where
  x : Nat
  y : Nat
  z : Nat
  t : Nat

def identity : Point := ⟨0, 1, 1, 0⟩

def ofAffine (x y : Nat) : Point := ⟨x, y, 1, x * y % p⟩

def add (a b : Point) : Point :=
  let u := subMod a.y a.x p * subMod b.y b.x p % p
  let v := (a.y + a.x) * (b.y + b.x) % p
  let w := 2 * d * a.t * b.t % p
  let k := 2 * a.z * b.z % p
  let e := subMod v u p
  let f := subMod k w p
  let g := (k + w) % p
  let h := (v + u) % p
  ⟨e * f % p, g * h % p, f * g % p, e * h % p⟩

def negate (a : Point) : Point := ⟨subMod 0 a.x p, a.y, a.z, subMod 0 a.t p⟩

def ofLittleEndian (s : Octets) : Nat := Octets.toNat s.reverse

def rootOfQuotient? (u v : Nat) : Option Nat :=
  let a := u * inverseMod v p % p
  let r := powMod a ((p + 3) / 8) p
  if r * r % p = a then some r
  else
    let r := r * powMod 2 ((p - 1) / 4) p % p
    if r * r % p = a then some r else none

def readPoint? (s : Octets) : Option Point :=
  if s.length ≠ 32 then none
  else
    let n := ofLittleEndian s
    let y := n % Nat.pow 2 255 % p
    let sign := n / Nat.pow 2 255
    (rootOfQuotient? (subMod (y * y) 1 p) ((d * (y * y % p) + 1) % p)).map fun x =>
      ofAffine (if x % 2 = sign then x else subMod 0 x p) y

def encode (a : Point) : Octets :=
  let zInverse := inverseMod a.z p
  let x := a.x * zInverse % p
  let y := a.y * zInverse % p
  (Octets.ofNat 32 (x % 2 * Nat.pow 2 255 + y)).reverse

def base : Point :=
  (readPoint? (0x58 :: List.replicate 31 0x66)).getD identity

def combine (a b : Point) (m n : Nat) (bits : Nat) : Point :=
  (List.range bits).reverse.foldl
    (fun q i =>
      let q := add q q
      let q := if m.testBit i then add q a else q
      if n.testBit i then add q b else q)
    identity

def verify (key message signature : Octets) : Bool :=
  let r := signature.take 32
  let s := ofLittleEndian (signature.drop 32)
  match readPoint? key with
  | some a =>
    if signature.length ≠ 64 || order ≤ s then false
    else
      let h := ofLittleEndian (Hash.sha512 (r ++ key ++ message)) % order
      encode (combine base (negate a) s h 256) = r
  | none => false

end Strongroom.Signature.Edwards
