import Strongroom.Time.Calendar

/-!
Points in time: seconds since the beginning of 1970 and nanoseconds within the second. A leap second
is the second before it with 10^9 or more nanoseconds.
-/

namespace Strongroom.Time

def secondsPerDay : Int := 86400

def nanosPerSecond : Nat := 1000000000

structure Instant where
  second : Int
  nano : Nat
deriving DecidableEq, Repr

namespace Instant

instance : Inhabited Instant := ⟨⟨0, 0⟩⟩

instance : LT Instant := ⟨fun a b => a.second < b.second ∨ a.second = b.second ∧ a.nano < b.nano⟩

instance (a b : Instant) : Decidable (a < b) :=
  inferInstanceAs (Decidable (a.second < b.second ∨ a.second = b.second ∧ a.nano < b.nano))

instance : LE Instant := ⟨fun a b => ¬ b < a⟩

instance (a b : Instant) : Decidable (a ≤ b) := inferInstanceAs (Decidable (¬ b < a))

def ofSeconds (s : Int) : Instant := ⟨s, 0⟩

def ofDate (d : Date) (secondOfDay : Nat) (nano : Nat) : Instant :=
  ⟨d.toDays * secondsPerDay + secondOfDay, nano⟩

def firstSecond : Int := (⟨-262143, 1, 1⟩ : Date).toDays * secondsPerDay

def endSecond : Int := (⟨262143, 1, 1⟩ : Date).toDays * secondsPerDay

def inRange (t : Instant) : Bool := firstSecond ≤ t.second && t.second < endSecond

/-- Whole days later, or earlier if `days` is negative; a leap second does not last past its day. -/
def addDays (t : Instant) (days : Int) : Instant :=
  if t.nano < nanosPerSecond || days = 0 then ⟨t.second + days * secondsPerDay, t.nano⟩
  else if 0 < days then ⟨t.second + days * secondsPerDay, t.nano - nanosPerSecond⟩
  else ⟨t.second + 1 + days * secondsPerDay, t.nano - nanosPerSecond⟩

def daysBefore? (t : Instant) (days : Nat) : Option Instant :=
  let earlier := t.addDays (-days)
  if earlier.inRange then some earlier else none

def date (t : Instant) : Date := Date.ofDays (t.second / secondsPerDay)

end Instant

end Strongroom.Time
