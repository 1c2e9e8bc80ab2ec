import Strongroom.Octets
import Strongroom.Time.Instant

/-!
Occasions on which something is done: the time and a number that no other occasion has. Everything
new that is drawn on an occasion (identifiers, keys, serial numbers) is named by the occasion's
number and its place among what is drawn there, so that no two drawings agree.
-/

namespace Strongroom

structure Occasion where
  number : Nat
  now : Time.Instant
deriving DecidableEq, Repr

structure FreshId where
  occasion : Nat
  index : Nat
deriving DecidableEq, Repr, Inhabited

/-- A public key: the bits that a document holds, or one that was drawn. -/
inductive PublicKey
  | bits (octets : Octets)
  | fresh (id : FreshId)
deriving DecidableEq, Repr

structure PrivateKey where
  publicKey : PublicKey
deriving DecidableEq, Repr

inductive Serial
  | octets (octets : Octets)
  | fresh (id : FreshId)
deriving DecidableEq, Repr

end Strongroom
