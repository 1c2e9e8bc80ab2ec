import Strongroom.Hash.Sha2
import Strongroom.Signature.Modular

/-!
Signatures over the prime-field curves `y² = x³ - 3x + b` of 256 and 384 bits.
-/

namespace Strongroom.Signature

structure Curve where
  size : Nat
  p : Nat
  b : Nat
  order : Nat
  baseX : Nat
  baseY : Nat

namespace Curve

def p256 : Curve where
  size := 32
  p := 0xffffffff00000001000000000000000000000000ffffffffffffffffffffffff
  b := 0x5ac635d8aa3a93e7b3ebbd55769886bc651d06b0cc53b0f63bce3c3e27d2604b
  order := 0xffffffff00000000ffffffffffffffffbce6faada7179e84f3b9cac2fc632551
  baseX := 0x6b17d1f2e12c4247f8bce6e563a440f277037d812deb33a0f4a13945d898c296
  baseY := 0x4fe342e2fe1a7f9b8ee7eb4a7c0f9e162bce33576b315ececbb6406837bf51f5

def p384 : Curve where
  size := 48
  p := Nat.pow 2 384 - Nat.pow 2 128 - Nat.pow 2 96 + Nat.pow 2 32 - 1
  b :=
    0xb3312fa7e23ee7e4988e056be3f82d19181d9c6efe814112 * Nat.pow 2 192 +
      0x0314088f5013875ac656398d8a2ed19d2a85c8edd3ec2aef
  order :=
    0xffffffffffffffffffffffffffffffffffffffffffffffff * Nat.pow 2 192 +
      0xc7634d81f4372ddf581a0db248b0a77aecec196accc52973
  baseX :=
    0xaa87ca22be8b05378eb1c71ef320ad746e1d3b628ba79b98 * Nat.pow 2 192 +
      0x59f741e082542a385502f25dbf55296c3a545e3872760ab7
  baseY :=
    0x3617de4a96262c6f5d9e98bf9292dc29f8f41dbd289a147c * Nat.pow 2 192 +
      0xe9da3113b5f0b8c00a60b1ce1d7e819d7a431d7c90ea0e5f

/-- The point `(x / z², y / z³)`; the point at infinity if `z` is zero. -/
structure Point where
  x : Nat
  y : Nat
  z : Nat

def infinity : Point := ⟨1, 1, 0⟩

def base (c : Curve) : Point := ⟨c.baseX, c.baseY, 1⟩

def contains (c : Curve) (x y : Nat) : Bool :=
  y * y % c.p == subMod (x * x * x + c.b) (3 * x) c.p

def double (c : Curve) (q : Point) : Point :=
  if q.z = 0 then q
  else
    let yy := q.y * q.y % c.p
    let s := 4 * q.x * yy % c.p
    let zz := q.z * q.z % c.p
    let m := 3 * (subMod q.x zz c.p * (q.x + zz)) % c.p
    let x := subMod (m * m) (2 * s) c.p
    ⟨x, subMod (m * subMod s x c.p) (8 * yy * yy) c.p, 2 * q.y * q.z % c.p⟩

def add (c : Curve) (a b : Point) : Point :=
  if a.z = 0 then b
  else if b.z = 0 then a
  else
    let aa := a.z * a.z % c.p
    let bb := b.z * b.z % c.p
    let u := a.x * bb % c.p
    let v := b.x * aa % c.p
    let s := a.y * bb * b.z % c.p
    let t := b.y * aa * a.z % c.p
    let h := subMod v u c.p
    let r := subMod t s c.p
    if h = 0 then if r = 0 then c.double a else infinity
    else
      let hh := h * h % c.p
      let hhh := h * hh % c.p
      let uhh := u * hh % c.p
      let x := subMod (r * r) (hhh + 2 * uhh) c.p
      ⟨x, subMod (r * subMod uhh x c.p) (s * hhh) c.p, a.z * b.z * h % c.p⟩

def combine (c : Curve) (a b : Point) (m n : Nat) (bits : Nat) : Point :=
  let both := c.add a b
  (List.range bits).reverse.foldl
    (fun q i =>
      let q := c.double q
      match m.testBit i, n.testBit i with
      | true, true => c.add q both
      | true, false => c.add q a
      | false, true => c.add q b
      | false, false => q)
    infinity

def readPoint? (c : Curve) (s : Octets) : Option Point :=
  match s with
  | 4 :: rest =>
    let x := Octets.toNat (rest.take c.size)
    let y := Octets.toNat (rest.drop c.size)
    if rest.length = 2 * c.size && x < c.p && y < c.p && c.contains x y then some ⟨x, y, 1⟩
    else none
  | _ => none

def verify (c : Curve) (hash : Octets → Octets) (key message signature : Octets) : Bool :=
  match c.readPoint? key, Canonical.readPair? signature with
  | some q, some (r, s) =>
    let r := Octets.toNat r
    let s := Octets.toNat s
    if r = 0 || s = 0 || c.order ≤ r || c.order ≤ s then false
    else
      let e := Octets.toNat ((hash message).take c.size)
      let w := inverseMod s c.order
      let point := c.combine c.base q (e * w % c.order) (r * w % c.order) (8 * c.size)
      if point.z = 0 then false
      else
        let zz := point.z * point.z % c.p
        point.x * inverseMod zz c.p % c.p % c.order == r
  | _, _ => false

end Curve

end Strongroom.Signature
