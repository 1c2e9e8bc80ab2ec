import Strongroom.Certificate.Parameters
import Strongroom.Toml.Reader

/-!
Configuration: what holds where nothing is said, reading it from text, and the ranges its values
have to keep.
-/

namespace Strongroom

structure Config where
  /-- When false, every credential that exists is open to every caller. -/
  aclsEnabled : Bool := true
  daysRetained : Nat := 30
  cleanupIntervalSeconds : Nat := 86400
  certificates : CertificateDefaults := ⟨365, 2048⟩
deriving DecidableEq, Repr, Inhabited

namespace Config

def maxDaysRetained : Nat := 36500

def validate (c : Config) : Except Fault Unit :=
  if c.cleanupIntervalSeconds = 0 then .error (.config .zeroInterval)
  else if !(1 ≤ c.daysRetained && c.daysRetained ≤ maxDaysRetained) then
    .error (.config (.daysRetained c.daysRetained))
  else if c.certificates.keyLength ∉ CertificateParameters.keyLengths then
    .error (.config (.keyLength c.certificates.keyLength))
  else if !(1 ≤ c.certificates.durationDays &&
      c.certificates.durationDays ≤ CertificateParameters.maxDurationDays) then
    .error (.config (.duration c.certificates.durationDays))
  else .ok ()

def toBool? : Toml.Value → Option Bool
  | .boolean b => some b
  | _ => none

def toNat? (bound : Nat) : Toml.Value → Option Nat
  | .integer n => if 0 ≤ n ∧ n < bound then some n.toNat else none
  | _ => none

def bound32 : Nat := Nat.pow 2 32

def bound64 : Nat := Nat.pow 2 64

def fieldsOf? (names : List String) : Option Toml.Value → Option (List (String × Toml.Value))
  | none => some []
  | some (.table _ entries) => some entries
  | some (.array items) => some (names.zip items)
  | some (.tables items) => some (names.zip (items.map (.table .header)))
  | some .moment => some []
  | some _ => none

def field {α : Type} (fields : List (String × Toml.Value)) (name : String) (default : α)
    (read : Toml.Value → Option α) : Option α :=
  match fields.lookup name with
  | some v => read v
  | none => some default

def ofEntries? (entries : Toml.Entries) : Option Config := do
  let held : Config := {}
  let authorization ← fieldsOf? ["acls_enabled"] (entries.lookup "authorization")
  let aclsEnabled ← field authorization "acls_enabled" held.aclsEnabled toBool?
  let logs ← fieldsOf? ["days_retained", "cleanup_interval_secs"] (entries.lookup "audit_logs")
  let daysRetained ← field logs "days_retained" held.daysRetained (toNat? bound32)
  let cleanupIntervalSeconds ←
    field logs "cleanup_interval_secs" held.cleanupIntervalSeconds (toNat? bound64)
  let certificates ←
    fieldsOf? ["default_duration_days", "default_key_length"] (entries.lookup "certificates")
  let durationDays ←
    field certificates "default_duration_days" held.certificates.durationDays (toNat? bound32)
  let keyLength ←
    field certificates "default_key_length" held.certificates.keyLength (toNat? bound32)
  return { aclsEnabled, daysRetained, cleanupIntervalSeconds,
           certificates := { durationDays, keyLength } }

def ofText (text : String) : Except Fault Config := do
  match (Toml.ofText? text).bind ofEntries? with
  | none => throw (.config .malformed)
  | some c =>
    c.validate
    return c

def ofFile (path : String) (contents : Option Octets) : Except Fault Config :=
  match contents.bind Octets.toText? with
  | none => .error (.config (.unreadable path))
  | some text => ofText text

def cleanupIntervalMillis (c : Config) : Nat := 1000 * c.cleanupIntervalSeconds

end Config

end Strongroom
