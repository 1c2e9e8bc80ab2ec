import Strongroom.Audit.Log
import Strongroom.Store.Work

/-!
The store: data and log. A transaction that is committed keeps its changes and leaves its parameters
as records of success; one that is rolled back loses its changes and leaves the same parameters as
records of failure; one that is dropped leaves nothing.
-/

namespace Strongroom

structure Store where
  data : StoreData
  log : AuditLog

namespace Store

def empty : Store := ⟨∅, .empty⟩

instance : Inhabited Store := ⟨empty⟩

def begin (s : Store) (occasion : Occasion) : Transaction := Transaction.begin s.data occasion

def records (caller : Caller) (outcome : Outcome) (time : Time.Instant)
    (parameters : List AuditParameters) : List OperationRecord :=
  parameters.map fun p => p.record caller outcome time

def commit (s : Store) (t : Transaction) (caller : Caller) (status : UInt16) : Store where
  data := t.data
  log := s.log.appendAll (records caller ⟨true, status⟩ t.now t.parameters)

def rollback (s : Store) (t : Transaction) (caller : Caller) (fault : Fault) : Store where
  data := t.reverted
  log := s.log.appendAll (records caller ⟨false, fault.status⟩ t.now t.parameters)

def drop (s : Store) (t : Transaction) : Store := { s with data := t.reverted }

def audited {α : Type} (s : Store) (caller : Caller) (status : UInt16) (occasion : Occasion)
    (work : Work α) : Except Fault α × Store :=
  let (result, t) := work.runIn (s.begin occasion)
  match result with
  | .ok a => (.ok a, s.commit t caller status)
  | .error fault => (.error fault, s.rollback t caller fault)

def outcome {α : Type} (status : UInt16) : Except Fault α → Outcome
  | .ok _ => ⟨true, status⟩
  | .error fault => ⟨false, fault.status⟩

def inquire {α : Type} (s : Store) (caller : Caller) (status : UInt16) (now : Time.Instant)
    (inquiry : Inquiry α) : Except Fault α × Store :=
  let (result, parameters) := inquiry.runOn s.data now []
  (result, { s with
    log := s.log.appendAll (records caller (outcome status result) now parameters) })

def appendRequest (s : Store) (r : RequestRecord) : Store := { s with log := s.log.appendRequest r }

def appendAuthFailure (s : Store) (r : AuthFailureRecord) : Store :=
  { s with log := s.log.appendAuthFailure r }

def attach (s : Store) (sink : AuditSink) : Store := { s with log := s.log.attach sink }

def deleteRecordsBefore (s : Store) (cutoff : Time.Instant) : Nat × Store :=
  let (removed, log) := s.log.deleteBefore cutoff
  (removed, { s with log })

end Store

end Strongroom
