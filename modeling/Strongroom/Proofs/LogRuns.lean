import Mathlib
import Strongroom.Audit.Log

/-! Runs of a log that starts with nothing in it: records are appended, sinks attached and old
records deleted, in any order and with any times. The log holds what was appended and has survived
the deletions since, and a sink has received what was appended since it was attached. -/

namespace Strongroom

namespace AuditEvent

def time : AuditEvent → Time.Instant
  | operation r => r.time
  | request r => r.time
  | authFailure r => r.time

def operation? : AuditEvent → Option OperationRecord
  | operation r => some r
  | _ => none

def request? : AuditEvent → Option RequestRecord
  | request r => some r
  | _ => none

def authFailure? : AuditEvent → Option AuthFailureRecord
  | authFailure r => some r
  | _ => none

end AuditEvent

namespace AuditLog

inductive Step
  | append (event : AuditEvent)
  | attach (sink : AuditSink)
  | deleteBefore (cutoff : Time.Instant)

def appendEvent (log : AuditLog) : AuditEvent → AuditLog
  | .operation r => log.append r
  | .request r => log.appendRequest r
  | .authFailure r => log.appendAuthFailure r

namespace Step

def apply (log : AuditLog) : Step → AuditLog
  | append event => log.appendEvent event
  | attach sink => log.attach sink
  | deleteBefore cutoff => (log.deleteBefore cutoff).2

def event? : Step → Option AuditEvent
  | append event => some event
  | _ => none

def sink? : Step → Option AuditSink
  | attach sink => some sink
  | _ => none

def deletes (time : Time.Instant) : Step → Bool
  | deleteBefore cutoff => time < cutoff
  | _ => false

end Step

def run (steps : List Step) : AuditLog := steps.foldl Step.apply empty

def appended (steps : List Step) : List AuditEvent := steps.filterMap Step.event?

def attached (steps : List Step) : List AuditSink := steps.filterMap Step.sink?

/-- The records that the steps append and that no later one deletes. -/
def surviving : List Step → List AuditEvent
  | [] => []
  | .append event :: later =>
    if later.any (·.deletes event.time) then surviving later else event :: surviving later
  | _ :: later => surviving later

theorem run_concat (steps : List Step) (step : Step) :
    run (steps ++ [step]) = step.apply (run steps) := by
  rw [run, List.foldl_append]
  rfl

theorem surviving_concat (steps : List Step) (step : Step) :
    surviving (steps ++ [step]) =
      (surviving steps).filter (fun event => !step.deletes event.time) ++ step.event?.toList := by
  induction steps with
  | nil => cases step <;> rfl
  | cons first later ih =>
    cases first with
    | attach | deleteBefore => exact ih
    | append event =>
      rw [List.cons_append, surviving, surviving, ih, List.any_append, List.any_cons, List.any_nil,
        Bool.or_false]
      by_cases hlater : later.any (·.deletes event.time) = true
      · simp [hlater]
      · by_cases hstep : step.deletes event.time = true <;> simp [hlater, hstep]

theorem surviving_concat_append (steps : List Step) (event : AuditEvent) :
    surviving (steps ++ [.append event]) = surviving steps ++ [event] := by
  simp [surviving_concat, Step.deletes, Step.event?]

theorem surviving_concat_attach (steps : List Step) (sink : AuditSink) :
    surviving (steps ++ [.attach sink]) = surviving steps := by
  simp [surviving_concat, Step.deletes, Step.event?]

theorem surviving_concat_deleteBefore (steps : List Step) (cutoff : Time.Instant) :
    surviving (steps ++ [.deleteBefore cutoff]) =
      (surviving steps).filter fun event => !decide (event.time < cutoff) := by
  simp [surviving_concat, Step.deletes, Step.event?]

structure Holds (log : AuditLog) (events : List AuditEvent) : Prop where
  operations : log.operations = events.filterMap AuditEvent.operation?
  requests : log.requests = events.filterMap AuditEvent.request?
  authFailures : log.authFailures = events.filterMap AuditEvent.authFailure?

variable {log : AuditLog} {events : List AuditEvent}

theorem Holds.appendEvent (h : log.Holds events) (event : AuditEvent) :
    (log.appendEvent event).Holds (events ++ [event]) := by
  obtain ⟨hoperations, hrequests, hauthFailures⟩ := h
  cases event <;> constructor <;>
    simp [AuditLog.appendEvent, append, appendRequest, appendAuthFailure, AuditEvent.operation?,
      AuditEvent.request?, AuditEvent.authFailure?, hoperations, hrequests, hauthFailures]

theorem filterMap_filter_time {ρ : Type} (pick : AuditEvent → Option ρ) (time : ρ → Time.Instant)
    (htime : ∀ event r, pick event = some r → time r = event.time) (p : Time.Instant → Bool)
    (events : List AuditEvent) :
    (events.filter fun event => p event.time).filterMap pick =
      (events.filterMap pick).filter fun r => p (time r) := by
  rw [List.filterMap_filter, List.filter_filterMap]
  refine List.filterMap_congr fun event _ => ?_
  cases hpick : pick event with
  | none => by_cases hp : p event.time = true <;> simp [hp]
  | some r =>
    rw [Option.filter_some, htime event r hpick]

theorem Holds.keepFrom (h : log.Holds events) (cutoff : Time.Instant) :
    (log.keepFrom cutoff).Holds (events.filter fun event => !decide (event.time < cutoff)) := by
  have hkept : ∀ t : Time.Instant, decide (cutoff ≤ t) = !decide (t < cutoff) := fun t =>
    decide_not
  constructor <;> simp only [AuditLog.keepFrom, hkept]
  · rw [h.operations, filterMap_filter_time _ (·.time) _ fun t => !decide (t < cutoff)]
    rintro (r | r | r) _ ⟨⟩
    rfl
  · rw [h.requests, filterMap_filter_time _ (·.time) _ fun t => !decide (t < cutoff)]
    rintro (r | r | r) _ ⟨⟩
    rfl
  · rw [h.authFailures, filterMap_filter_time _ (·.time) _ fun t => !decide (t < cutoff)]
    rintro (r | r | r) _ ⟨⟩
    rfl

theorem length_eq_add (events : List AuditEvent) :
    events.length = (events.filterMap AuditEvent.operation?).length +
      (events.filterMap AuditEvent.request?).length +
      (events.filterMap AuditEvent.authFailure?).length := by
  induction events with
  | nil => rfl
  | cons event rest ih =>
    cases event <;>
      simp only [List.length_cons, List.filterMap_cons, AuditEvent.operation?, AuditEvent.request?,
        AuditEvent.authFailure?] <;> omega

theorem Holds.size (h : log.Holds events) : log.size = events.length := by
  rw [AuditLog.size, h.operations, h.requests, h.authFailures, ← length_eq_add]

theorem Holds.deleteBefore (h : log.Holds events) (cutoff : Time.Instant) :
    (log.deleteBefore cutoff).1 = events.countP (·.time < cutoff) := by
  rw [AuditLog.deleteBefore, h.size, (h.keepFrom cutoff).size, ← List.countP_eq_length_filter,
    List.length_eq_countP_add_countP fun event => decide (event.time < cutoff)]
  simp only [Bool.not_eq_true, Bool.decide_eq_false]
  omega

theorem holds_run (steps : List Step) : (run steps).Holds (surviving steps) := by
  induction steps using List.reverseRecOn with
  | nil => exact ⟨rfl, rfl, rfl⟩
  | append_singleton steps step ih =>
    rw [run_concat]
    cases step with
    | append event =>
      rw [surviving_concat_append]
      exact ih.appendEvent event
    | attach sink =>
      rw [surviving_concat_attach]
      exact ⟨ih.operations, ih.requests, ih.authFailures⟩
    | deleteBefore cutoff =>
      rw [surviving_concat_deleteBefore]
      exact ih.keepFrom cutoff

theorem forward_cons (first : Nat) (sink : AuditSink) (rest : List AuditSink)
    (event : AuditEvent) :
    forward first (sink :: rest) event =
      (if sink.takes event then [⟨first, event⟩] else []) ++
        forward (first + 1) rest event := by
  rw [forward, List.zipIdx_cons, List.filterMap_cons]
  by_cases htakes : sink.takes event = true <;> simp [htakes, forward]

theorem sink_lt_of_mem_forward {first : Nat} {sinks : List AuditSink} {event : AuditEvent}
    {d : Delivery} (h : d ∈ forward first sinks event) :
    first ≤ d.sink ∧ d.sink < first + sinks.length := by
  induction sinks generalizing first with
  | nil => cases h
  | cons sink rest ih =>
    rw [forward_cons] at h
    rcases List.mem_append.1 h with h | h
    · split at h
      · cases List.mem_singleton.1 h
        simp
      · cases h
    · obtain ⟨hfirst, hlast⟩ := ih h
      rw [List.length_cons]
      omega

theorem filter_forward (first i : Nat) (sinks : List AuditSink) (event : AuditEvent) :
    ((forward first sinks event).filter (·.sink = first + i)).map (·.event) =
      if sinks[i]?.any (·.takes event) then [event] else [] := by
  induction sinks generalizing first i with
  | nil => rfl
  | cons sink rest ih =>
    rw [forward_cons, List.filter_append, List.map_append]
    cases i with
    | zero =>
      have hrest : (forward (first + 1) rest event).filter (·.sink = first + 0) = [] := by
        refine List.filter_eq_nil_iff.2 fun d hd => ?_
        have hfirst := (sink_lt_of_mem_forward hd).1
        simp only [decide_eq_true_eq]
        omega
      rw [hrest]
      by_cases htakes : sink.takes event = true <;> simp [htakes]
    | succ i =>
      have hnext := ih (first + 1) i
      have hnumber : first + 1 + i = first + (i + 1) := by omega
      rw [hnumber] at hnext
      rw [hnext]
      by_cases htakes : sink.takes event = true <;> simp [htakes]

theorem sinks_appendEvent (log : AuditLog) (event : AuditEvent) :
    (log.appendEvent event).sinks = log.sinks := by
  cases event <;> rfl

theorem deliveries_appendEvent (log : AuditLog) (event : AuditEvent) :
    (log.appendEvent event).deliveries = log.deliveries ++ forward 0 log.sinks event := by
  cases event <;> rfl

theorem received_appendEvent (log : AuditLog) (event : AuditEvent) (i : Nat) :
    (log.appendEvent event).received i =
      log.received i ++ if log.sinks[i]?.any (·.takes event) then [event] else [] := by
  have hpassed := filter_forward 0 i log.sinks event
  rw [Nat.zero_add] at hpassed
  rw [received, deliveries_appendEvent, List.filter_append, List.map_append, hpassed, received]

theorem sinks_run (steps : List Step) : (run steps).sinks = attached steps := by
  induction steps using List.reverseRecOn with
  | nil => rfl
  | append_singleton steps step ih =>
    rw [run_concat, attached, List.filterMap_append, ← attached, ← ih]
    cases step with
    | append event => exact (sinks_appendEvent _ event).trans (List.append_nil _).symm
    | attach sink => rfl
    | deleteBefore cutoff => exact (List.append_nil _).symm

theorem sink_lt_of_mem_deliveries {steps : List Step} {d : Delivery}
    (h : d ∈ (run steps).deliveries) : d.sink < (run steps).sinks.length := by
  induction steps using List.reverseRecOn with
  | nil => cases h
  | append_singleton steps step ih =>
    rw [run_concat] at h ⊢
    cases step with
    | append event =>
      rw [Step.apply, deliveries_appendEvent] at h
      rw [Step.apply, sinks_appendEvent]
      rcases List.mem_append.1 h with h | h
      · exact ih h
      · simpa using (sink_lt_of_mem_forward h).2
    | attach sink =>
      have hlt := ih h
      simp only [Step.apply, attach, List.length_append, List.length_singleton]
      omega
    | deleteBefore cutoff => exact ih h

theorem received_run (earlier later : List Step) (sink : AuditSink) :
    (run (earlier ++ .attach sink :: later)).received (attached earlier).length =
      (appended later).filter sink.takes := by
  induction later using List.reverseRecOn with
  | nil =>
    rw [run_concat]
    refine List.map_eq_nil_iff.2 (List.filter_eq_nil_iff.2 fun d hd => ?_)
    have hlt := sink_lt_of_mem_deliveries hd
    rw [sinks_run] at hlt
    simp only [decide_eq_true_eq]
    omega
  | append_singleton later step ih =>
    rw [← List.cons_append, ← List.append_assoc, run_concat, appended, List.filterMap_append,
      ← appended, List.filter_append, ← ih]
    cases step with
    | append event =>
      have hsink : (run (earlier ++ .attach sink :: later)).sinks[(attached earlier).length]? =
          some sink := by
        rw [sinks_run, attached, List.filterMap_append, ← attached]
        simp [Step.sink?]
      rw [Step.apply, received_appendEvent, hsink]
      by_cases htakes : sink.takes event = true <;> simp [htakes, Step.event?]
    | attach other => exact (List.append_nil _).symm
    | deleteBefore cutoff => exact (List.append_nil _).symm

/-- The log accounts for the steps that have led to it: it holds what has survived, every deletion
has said how many records it deleted, and every sink has received the records of the kinds that it
does something with. -/
structure AccountsFor (log : AuditLog) (steps : List Step) : Prop where
  holds : log.Holds (surviving steps)
  deleted : ∀ earlier cutoff later, steps = earlier ++ .deleteBefore cutoff :: later →
    ((run earlier).deleteBefore cutoff).1 = (surviving earlier).countP (·.time < cutoff)
  sinks : log.sinks = attached steps
  received : ∀ earlier sink later, steps = earlier ++ .attach sink :: later →
    log.received (attached earlier).length = (appended later).filter fun
      | .operation _ => sink.takesOperations
      | .request _ => sink.takesRequests
      | .authFailure _ => sink.takesAuthFailures

theorem accountsFor_run (steps : List Step) : (run steps).AccountsFor steps where
  holds := holds_run steps
  deleted earlier cutoff _ _ := (holds_run earlier).deleteBefore cutoff
  sinks := sinks_run steps
  received earlier sink later hsteps := by
    subst hsteps
    rw [received_run]
    refine List.filter_congr fun event _ => ?_
    cases event <;> rfl

/-- A request is recorded between two refusals, the first of which is deleted later: a sink for
every kind has received all three, a sink for refusals that came after the first has received the
other one, and a sink for operations has received nothing. -/
theorem accountsFor_run_sinks :
    let refusal (second : Int) : AuditEvent :=
      .authFailure ⟨.ofNat 1, "GET", "/", "no certificate", 401, ⟨second, 0⟩⟩
    let request : AuditEvent := .request ⟨.ofNat 2, "alice", "GET", "/", 200, ⟨2, 0⟩⟩
    let steps : List Step :=
      [.attach .everything, .append (refusal 1), .attach ⟨false, false, true⟩, .append request,
        .attach .operations, .deleteBefore ⟨2, 0⟩, .append (refusal 3)]
    (run steps).AccountsFor steps ∧
      (run steps).received 0 = [refusal 1, request, refusal 3] ∧
      (run steps).received 1 = [refusal 3] ∧ (run steps).received 2 = [] ∧
      (run steps).Holds [request, refusal 3] := by
  intro refusal request steps
  have haccounts := accountsFor_run steps
  have hall := haccounts.received [] .everything _ rfl
  have hrefusals := haccounts.received [.attach .everything, .append (refusal 1)] _ _ rfl
  have hoperations := haccounts.received (steps.take 4) .operations _ rfl
  exact ⟨haccounts, hall, hrefusals, hoperations, haccounts.holds⟩

end AuditLog

end Strongroom
