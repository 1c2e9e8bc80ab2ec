import Strongroom.Hash.Sha1
import Strongroom.Signature.Modular

/-!
RSA signatures, with the encoded message either a fixed frame around the digest or masked by a
generator that the digest function drives.
-/

namespace Strongroom.Signature.Rsa

structure Digest where
  compute : Octets → Octets
  size : Nat
  /-- What stands in front of the digest in the fixed frame. -/
  frame : Octets

def sha1 : Digest :=
  ⟨Hash.sha1, 20,
    [0x30, 0x21, 0x30, 0x09, 0x06, 0x05, 0x2b, 0x0e, 0x03, 0x02, 0x1a, 0x05, 0x00, 0x04, 0x14]⟩

def sha2Frame (arc size : UInt8) : Octets :=
  [0x30, 0x11 + size, 0x30, 0x0d, 0x06, 0x09, 0x60, 0x86, 0x48, 0x01, 0x65, 0x03, 0x04, 0x02, arc,
    0x05, 0x00, 0x04, size]

def sha256 : Digest := ⟨Hash.sha256, 32, sha2Frame 1 32⟩

def sha384 : Digest := ⟨Hash.sha384, 48, sha2Frame 2 48⟩

def sha512 : Digest := ⟨Hash.sha512, 64, sha2Frame 3 64⟩

structure Key where
  modulus : Nat
  exponent : Nat

namespace Key

def bits (k : Key) : Nat := k.modulus.log2 + 1

def size (k : Key) : Nat := (k.bits + 7) / 8

def read? (minBits : Nat) (s : Octets) : Option Key := do
  let (modulus, exponent) ← Canonical.readPair? s
  let k : Key := ⟨Octets.toNat modulus, Octets.toNat exponent⟩
  if minBits ≤ 8 * k.size && k.bits ≤ 8192 && k.modulus % 2 = 1 && exponent.length ≤ 5 &&
      3 ≤ k.exponent && k.exponent < Nat.pow 2 33 && k.exponent % 2 = 1 then
    some k
  else none

def open? (k : Key) (signature : Octets) : Option Octets :=
  let s := Octets.toNat signature
  if signature.length = k.size && s ≠ 0 && s < k.modulus then
    some (Octets.ofNat k.size (powMod s k.exponent k.modulus))
  else none

end Key

def framed (d : Digest) (size : Nat) (message : Octets) : Octets :=
  let tail := d.frame ++ d.compute message
  0x00 :: 0x01 :: List.replicate (size - 3 - tail.length) 0xff ++ 0x00 :: tail

def verifyFramed (d : Digest) (minBits : Nat) (key message signature : Octets) : Bool :=
  match Key.read? minBits key with
  | some k => k.open? signature = some (framed d k.size message)
  | none => false

def mask (d : Digest) (seed : Octets) (count : Nat) : Octets :=
  (List.range count).flatMap fun i => d.compute (seed ++ Octets.ofNat 4 i)

def verifyMasked (d : Digest) (key message signature : Octets) : Bool :=
  match Key.read? 2048 key with
  | none => false
  | some k =>
    match k.open? signature with
    | none => false
    | some opened =>
      let emBits := k.bits - 1
      let emSize := (emBits + 7) / 8
      let topMask : UInt8 := UInt8.ofNat (Nat.pow 2 (8 - (8 * emSize - emBits)) - 1)
      let encoded := opened.drop (k.size - emSize)
      let maskedSize := emSize - 1 - d.size
      let masked := encoded.take maskedSize
      let digest := (encoded.drop maskedSize).take d.size
      let unmasked := List.zipWith (· ^^^ ·) masked (mask d digest (maskedSize / d.size + 1))
      let plain : Octets := match unmasked with
        | b :: rest => (b &&& topMask) :: rest
        | [] => []
      let zeros := maskedSize - d.size - 1
      let salt := plain.drop (zeros + 1)
      (opened.take (k.size - emSize)).all (· = 0) && 2 * d.size + 2 ≤ emSize &&
        encoded.getLast? = some 0xbc && (masked.headD 0 &&& ~~~topMask) = 0 &&
        plain.take (zeros + 1) = (List.replicate zeros 0 ++ [1] : Octets) &&
        digest = d.compute (List.replicate 8 0 ++ d.compute message ++ salt)

end Strongroom.Signature.Rsa
