import Strongroom.Config
import Strongroom.Store.Basic

/-!
Deletion of records that are older than a number of days, done again after an interval.
-/

namespace Strongroom

structure RetentionTask where
  daysRetained : Nat
  intervalMillis : Nat
deriving DecidableEq, Repr

namespace RetentionTask

def minIntervalMillis : Nat := 50

def of (daysRetained intervalMillis : Nat) : RetentionTask :=
  ⟨daysRetained, max intervalMillis minIntervalMillis⟩

def ofConfig (c : Config) : RetentionTask := of c.daysRetained c.cleanupIntervalMillis

/-- Deletes the records older than the days, and says how many there were. Nothing is older than
days that reach back before the first time there is. -/
def run (t : RetentionTask) (s : Store) (now : Time.Instant) : Nat × Store :=
  match now.daysBefore? t.daysRetained with
  | some cutoff => s.deleteRecordsBefore cutoff
  | none => (0, s)

end RetentionTask

end Strongroom
