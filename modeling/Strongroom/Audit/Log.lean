import Strongroom.Audit.Record
import Strongroom.Text.Decimal

/-!
The log of records. It keeps the three kinds apart, each in the order of appending, and passes every
new record on to the sinks that are attached and take its kind. Deletion by age does not reach what
was passed on.
-/

namespace Strongroom

/-- The kinds of records that a sink does something with. It is told of records of the other kinds
as well and ignores them, which is what becomes of requests and refusals unless it says otherwise. -/
structure AuditSink where
  takesOperations : Bool := true
  takesRequests : Bool := false
  takesAuthFailures : Bool := false
deriving DecidableEq, Repr

namespace AuditSink

def operations : AuditSink := {}

def everything : AuditSink where
  takesRequests := true
  takesAuthFailures := true

def takes (sink : AuditSink) : AuditEvent → Bool
  | .operation _ => sink.takesOperations
  | .request _ => sink.takesRequests
  | .authFailure _ => sink.takesAuthFailures

end AuditSink

structure Delivery where
  sink : Nat
  event : AuditEvent
deriving DecidableEq, Repr

structure AuditLog where
  operations : List OperationRecord := []
  requests : List RequestRecord := []
  authFailures : List AuthFailureRecord := []
  sinks : List AuditSink := []
  deliveries : List Delivery := []
deriving DecidableEq, Repr, Inhabited

namespace AuditLog

def empty : AuditLog := {}

def attach (log : AuditLog) (sink : AuditSink) : AuditLog :=
  { log with sinks := log.sinks ++ [sink] }

/-- One delivery for each sink that takes the event, the sinks being numbered from `first`. -/
def forward (first : Nat) (sinks : List AuditSink) (event : AuditEvent) : List Delivery :=
  (sinks.zipIdx first).filterMap fun (sink, i) => if sink.takes event then some ⟨i, event⟩ else none

def append (log : AuditLog) (r : OperationRecord) : AuditLog :=
  { log with
    operations := log.operations ++ [r]
    deliveries := log.deliveries ++ forward 0 log.sinks (.operation r) }

def appendAll (log : AuditLog) (rs : List OperationRecord) : AuditLog := rs.foldl append log

def appendRequest (log : AuditLog) (r : RequestRecord) : AuditLog :=
  { log with
    requests := log.requests ++ [r]
    deliveries := log.deliveries ++ forward 0 log.sinks (.request r) }

def appendAuthFailure (log : AuditLog) (r : AuthFailureRecord) : AuditLog :=
  { log with
    authFailures := log.authFailures ++ [r]
    deliveries := log.deliveries ++ forward 0 log.sinks (.authFailure r) }

def size (log : AuditLog) : Nat :=
  log.operations.length + log.requests.length + log.authFailures.length

def keepFrom (log : AuditLog) (cutoff : Time.Instant) : AuditLog :=
  { log with
    operations := log.operations.filter (cutoff ≤ ·.time)
    requests := log.requests.filter (cutoff ≤ ·.time)
    authFailures := log.authFailures.filter (cutoff ≤ ·.time) }

def deleteBefore (log : AuditLog) (cutoff : Time.Instant) : Nat × AuditLog :=
  let kept := log.keepFrom cutoff
  (log.size - kept.size, kept)

def received (log : AuditLog) (sink : Nat) : List AuditEvent :=
  (log.deliveries.filter (·.sink = sink)).map (·.event)

def summary (log : AuditLog) : String :=
  let field (name : String) (n : Nat) := name ++ ": " ++ Text.natText n
  "AuditLog \x7b " ++ ", ".intercalate
    [field "records" log.operations.length, field "requests" log.requests.length,
      field "auth_failures" log.authFailures.length,
      field "forward_sinks" log.sinks.length] ++ " \x7d"

end AuditLog

end Strongroom
