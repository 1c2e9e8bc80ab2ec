import Strongroom.Der
import Strongroom.Text.Decimal
import Strongroom.Time.Instant

/-!
The times between which a certificate is valid: two-digit years from 1950 to 2049 with an offset, or
four-digit years in UTC with up to three digits of a second.
-/

namespace Strongroom.X509

open Text Time

structure Validity where
  notBefore : Instant
  notAfter : Instant
deriving DecidableEq, Repr

namespace Validity

def toChars (s : Octets) : List Char := s.map fun b => Char.ofNat b.toNat

def moment? (year : Int) (month day hour minute second : Nat) : Option Instant :=
  if hour < 24 && minute < 60 && second < 60 then
    (Date.exists? year month day).map fun d =>
      Instant.ofDate d (3600 * hour + 60 * minute + second) 0
  else none

/-- Seconds east of UTC. The sign belongs to the hours, and to the minutes only with them. -/
def offset? (s : List Char) : Option Int :=
  match s with
  | ['Z'] => some 0
  | sign :: rest => do
    let (hours, rest) ← readFixed? 2 rest
    let (minutes, rest) ← readFixed? 2 rest
    if !rest.isEmpty || 25 < hours || 59 < minutes then none
    else if sign = '+' || sign = '-' && hours = 0 then some (3600 * hours + 60 * minutes)
    else if sign = '-' then some (-(3600 * hours + 60 * minutes))
    else none
  | [] => none

/-- Two digits for the seconds, which may be left out if nothing but the letter for UTC follows. -/
def seconds? (s : List Char) : Option (Nat × List Char) :=
  if s.length < 2 then some (0, s) else readFixed? 2 s

def shortTime? (contents : Octets) : Option Instant := do
  let (year, s) ← readFixed? 2 (toChars contents)
  let (month, s) ← readFixed? 2 s
  let (day, s) ← readFixed? 2 s
  let (hour, s) ← readFixed? 2 s
  let (minute, s) ← readFixed? 2 s
  let (second, s) ← seconds? s
  let offset ← offset? s
  let t ← moment? (if 50 ≤ year then 1900 + year else 2000 + year) month day hour minute second
  if contents.all (fun b => 0x20 ≤ b && b < 0x80) then some ⟨t.second - offset, 0⟩ else none

def isFraction (s : List Char) : Bool :=
  match s with
  | [] => true
  | '.' :: digits => digits.length ≤ 3 && digits.all isDigit
  | _ => false

def longTime? (contents : Octets) : Option Instant := do
  let (year, s) ← readFixed? 4 (toChars contents)
  let (month, s) ← readFixed? 2 s
  let (day, s) ← readFixed? 2 s
  let (hour, s) ← readFixed? 2 s
  let (minute, s) ← readFixed? 2 s
  let (second, s) ← seconds? s
  if s.getLast? = some 'Z' && isFraction s.dropLast then moment? year month day hour minute second
  else none

def readTime? (s : Octets) : Option (Instant × Octets) := do
  let (e, rest) ← Der.read? s
  let t ←
    if e.header.tag = Der.Tag.utcTime then shortTime? e.contents
    else if e.header.tag = Der.Tag.generalizedTime then longTime? e.contents
    else none
  return (t, rest)

def read? (s : Octets) : Option (Validity × Octets) := do
  let (contents, after) ← Der.readSequence? s
  let (notBefore, rest) ← readTime? contents
  let (notAfter, _) ← readTime? rest
  return (⟨notBefore, notAfter⟩, after)

end Validity

end Strongroom.X509
