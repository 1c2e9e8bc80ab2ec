import Strongroom.Hash.Sha2

/-!
The secure hash function with a digest of 160 bits.
-/

namespace Strongroom.Hash

namespace Words160

def start : List UInt32 := [0x67452301, 0xefcdab89, 0x98badcfe, 0x10325476, 0xc3d2e1f0]

def schedule (count : Nat) (window : List UInt32) : List UInt32 :=
  match count, window with
  | count + 1, w :: rest =>
    let x := w ^^^ rest.getD 1 0 ^^^ rest.getD 7 0 ^^^ rest.getD 12 0
    w :: schedule count (rest ++ [Words32.rotate 31 x])
  | _, window => window

def mix (i : Nat) (b c d : UInt32) : UInt32 :=
  if i < 20 then ((b &&& c) ||| (~~~b &&& d)) + 0x5a827999
  else if i < 40 then (b ^^^ c ^^^ d) + 0x6ed9eba1
  else if i < 60 then ((b &&& c) ||| (b &&& d) ||| (c &&& d)) + 0x8f1bbcdc
  else (b ^^^ c ^^^ d) + 0xca62c1d6

def round (state : List UInt32) (word : Nat × UInt32) : List UInt32 :=
  match state with
  | [a, b, c, d, e] =>
    [Words32.rotate 27 a + mix word.1 b c d + e + word.2, a, Words32.rotate 2 b, c, d]
  | _ => state

def absorb (state : List UInt32) (block : List Nat) : List UInt32 :=
  let words := schedule 64 (block.map UInt32.ofNat)
  List.zipWith (· + ·) state (((List.range 80).zip words).foldl round state)

end Words160

def sha1 (message : Octets) : Octets :=
  ((blocks 4 8 message).foldl Words160.absorb Words160.start).flatMap fun w =>
    Octets.ofNat 4 w.toNat

end Strongroom.Hash
