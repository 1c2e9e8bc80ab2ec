import Strongroom.Octets

/-!
Object identifiers by their arcs: what certificates name algorithms, curves, attributes, extensions
and purposes by.
-/

namespace Strongroom.X509

namespace Identifier

def septets (n : Nat) : List Nat :=
  if n < 128 then [n] else (septets (n / 128)).map (fun d => d % 128 + 128) ++ [n % 128]

def ofArcs (arcs : List Nat) : Octets :=
  match arcs with
  | a :: b :: rest => ((40 * a + b) :: rest).flatMap fun n => (septets n).map UInt8.ofNat
  | _ => []

def rsaEncryption : Octets := ofArcs [1, 2, 840, 113549, 1, 1, 1]
def sha1WithRsa : Octets := ofArcs [1, 2, 840, 113549, 1, 1, 5]
def sha1WithRsaLegacy : Octets := ofArcs [1, 3, 14, 3, 2, 29]
def maskedRsa : Octets := ofArcs [1, 2, 840, 113549, 1, 1, 10]
def sha256WithRsa : Octets := ofArcs [1, 2, 840, 113549, 1, 1, 11]
def sha384WithRsa : Octets := ofArcs [1, 2, 840, 113549, 1, 1, 12]
def sha512WithRsa : Octets := ofArcs [1, 2, 840, 113549, 1, 1, 13]
def sha256WithCurve : Octets := ofArcs [1, 2, 840, 10045, 4, 3, 2]
def sha384WithCurve : Octets := ofArcs [1, 2, 840, 10045, 4, 3, 3]
def ed25519 : Octets := ofArcs [1, 3, 101, 112]

def sha256 : Octets := ofArcs [2, 16, 840, 1, 101, 3, 4, 2, 1]
def sha384 : Octets := ofArcs [2, 16, 840, 1, 101, 3, 4, 2, 2]
def sha512 : Octets := ofArcs [2, 16, 840, 1, 101, 3, 4, 2, 3]

def curveKey : Octets := ofArcs [1, 2, 840, 10045, 2, 1]
def curve256 : Octets := ofArcs [1, 2, 840, 10045, 3, 1, 7]
def curve384 : Octets := ofArcs [1, 3, 132, 0, 34]
def dsaKey : Octets := ofArcs [1, 2, 840, 10040, 4, 1]
def gostKeys : List Octets :=
  [ofArcs [1, 2, 643, 2, 2, 19], ofArcs [1, 2, 643, 7, 1, 1, 1, 1],
    ofArcs [1, 2, 643, 7, 1, 1, 1, 2]]

def commonName : Octets := ofArcs [2, 5, 4, 3]
def country : Octets := ofArcs [2, 5, 4, 6]
def locality : Octets := ofArcs [2, 5, 4, 7]
def state : Octets := ofArcs [2, 5, 4, 8]
def organization : Octets := ofArcs [2, 5, 4, 10]
def organizationUnit : Octets := ofArcs [2, 5, 4, 11]

def keyUsage : Octets := ofArcs [2, 5, 29, 15]
def alternativeNames : Octets := ofArcs [2, 5, 29, 17]
def basicConstraints : Octets := ofArcs [2, 5, 29, 19]
def nameConstraints : Octets := ofArcs [2, 5, 29, 30]
def extendedKeyUsage : Octets := ofArcs [2, 5, 29, 37]

end Identifier

end Strongroom.X509
