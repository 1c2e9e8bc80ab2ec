import Strongroom.Proofs.LogRuns
import Strongroom.Retention

/-! Retention deletes what has expired: what is older than the days of the task, by the exact
difference of the times. Where no time lies so far back there is no cutoff, and then nothing can
have expired either. -/

namespace Strongroom

namespace Time

def nanosPerDay : Int := secondsPerDay * nanosPerSecond

namespace Instant

/-- Times that have a representation and lie in no leap second. -/
structure Regular (t : Instant) : Prop where
  inRange : t.inRange = true
  nano : t.nano < nanosPerSecond

instance (t : Instant) : Decidable t.Regular :=
  decidable_of_iff (t.inRange = true ∧ t.nano < nanosPerSecond)
    ⟨fun h => ⟨h.1, h.2⟩, fun h => ⟨h.inRange, h.nano⟩⟩

def nanos (t : Instant) : Int := t.second * nanosPerSecond + t.nano

variable {now t cutoff : Instant} {days : Nat}

theorem lt_iff_nanos_lt {a b : Instant} (ha : a.nano < nanosPerSecond)
    (hb : b.nano < nanosPerSecond) : a < b ↔ a.nanos < b.nanos := by
  change a.second < b.second ∨ a.second = b.second ∧ a.nano < b.nano ↔ a.nanos < b.nanos
  simp only [nanos, nanosPerSecond] at *
  omega

theorem addDays_eq (h : t.nano < nanosPerSecond) (days : Int) :
    t.addDays days = ⟨t.second + days * secondsPerDay, t.nano⟩ := by
  rw [addDays, if_pos (by simp [h])]

theorem nanos_addDays (h : t.nano < nanosPerSecond) (days : Int) :
    (t.addDays days).nanos = t.nanos + days * nanosPerDay := by
  rw [addDays_eq h]
  simp only [nanos, nanosPerDay]
  ring

theorem daysBefore?_eq_some (h : now.daysBefore? days = some cutoff) :
    cutoff = now.addDays (-days) := by
  simp only [daysBefore?] at h
  split at h
  · exact (Option.some.inj h).symm
  · cases h

theorem second_lt_of_daysBefore?_eq_none (hnow : now.Regular)
    (h : now.daysBefore? days = none) :
    now.second - days * secondsPerDay < firstSecond := by
  have hrange := hnow.inRange
  simp only [daysBefore?, addDays_eq hnow.nano] at h
  split at h
  · cases h
  · rename_i hout
    simp only [inRange, Bool.and_eq_true, decide_eq_true_eq] at hrange hout
    simp only [secondsPerDay] at hout ⊢
    omega

theorem lt_cutoff_iff (hnow : now.Regular) (ht : t.Regular)
    (h : now.daysBefore? days = some cutoff) :
    t < cutoff ↔ days * nanosPerDay < now.nanos - t.nanos := by
  cases daysBefore?_eq_some h
  have hnano : (now.addDays (-days)).nano < nanosPerSecond := by
    rw [addDays_eq hnow.nano]
    exact hnow.nano
  rw [lt_iff_nanos_lt ht.nano hnano, nanos_addDays hnow.nano, neg_mul]
  omega

theorem le_of_daysBefore?_eq_none (hnow : now.Regular) (ht : t.Regular)
    (h : now.daysBefore? days = none) : now.nanos - t.nanos ≤ days * nanosPerDay := by
  have hbefore := second_lt_of_daysBefore?_eq_none hnow h
  have hrange := ht.inRange
  have hnano := hnow.nano
  simp only [inRange, Bool.and_eq_true, decide_eq_true_eq] at hrange
  simp only [nanos, nanosPerDay, secondsPerDay, nanosPerSecond] at *
  omega

end Instant

end Time

namespace AuditLog

variable (log : AuditLog)

def events : List AuditEvent :=
  log.operations.map .operation ++ log.requests.map .request ++ log.authFailures.map .authFailure

def without (p : Time.Instant → Bool) : AuditLog :=
  { log with
    operations := log.operations.filter (!p ·.time)
    requests := log.requests.filter (!p ·.time)
    authFailures := log.authFailures.filter (!p ·.time) }

structure Within (log other : AuditLog) : Prop where
  operations : log.operations.Sublist other.operations
  requests : log.requests.Sublist other.requests
  authFailures : log.authFailures.Sublist other.authFailures

theorem holds_events : log.Holds log.events := by
  constructor <;>
    simp [events, List.filterMap_append, Function.comp_def, AuditEvent.operation?,
      AuditEvent.request?, AuditEvent.authFailure?]

variable {log} {p q : Time.Instant → Bool}

theorem keepFrom_eq_without (cutoff : Time.Instant) :
    log.keepFrom cutoff = log.without fun t => t < cutoff := by
  have hkept : ∀ t : Time.Instant, decide (cutoff ≤ t) = !decide (t < cutoff) := fun t =>
    decide_not
  simp only [keepFrom, without, hkept]

theorem without_congr (h : ∀ e ∈ log.events, p e.time = q e.time) :
    log.without p = log.without q := by
  simp only [events, List.forall_mem_append, List.forall_mem_map] at h
  obtain ⟨⟨hoperations, hrequests⟩, hauthFailures⟩ := h
  unfold without
  congr 1
  · exact List.filter_congr fun r hr => congrArg (!·) (hoperations r hr)
  · exact List.filter_congr fun r hr => congrArg (!·) (hrequests r hr)
  · exact List.filter_congr fun r hr => congrArg (!·) (hauthFailures r hr)

theorem without_of_forall (h : ∀ e ∈ log.events, p e.time = false) : log.without p = log := by
  rw [without_congr (q := fun _ => false) h]
  simp [without]

theorem countP_of_forall (h : ∀ e ∈ log.events, p e.time = false) :
    (log.events.countP fun e => p e.time) = 0 :=
  List.countP_eq_zero.2 fun e he => by simp [h e he]

theorem mem_events_without {e : AuditEvent} :
    e ∈ (log.without p).events ↔ e ∈ log.events ∧ p e.time = false := by
  have hevents : (log.without p).events = log.events.filter fun e => !p e.time := by
    simp only [events, without, List.filter_append, List.filter_map, Function.comp_def,
      AuditEvent.time]
  rw [hevents, List.mem_filter, Bool.not_eq_true']

theorem without_within (h : ∀ t, q t = true → p t = true) :
    (log.without p).Within (log.without q) := by
  have hkept : ∀ t, (!p t) = true → (!q t) = true := fun t ht => by
    cases hq : q t with
    | false => rfl
    | true => simp [h t hq] at ht
  exact ⟨List.monotone_filter_right _ fun r => hkept r.time,
    List.monotone_filter_right _ fun r => hkept r.time,
    List.monotone_filter_right _ fun r => hkept r.time⟩

theorem deleteBefore_eq {cutoff : Time.Instant}
    (h : ∀ e ∈ log.events, decide (e.time < cutoff) = p e.time) :
    log.deleteBefore cutoff = (log.events.countP fun e => p e.time, log.without p) := by
  refine Prod.ext ?_ ?_
  · rw [log.holds_events.deleteBefore cutoff]
    exact List.countP_congr fun e he => by rw [h e he]
  · exact (keepFrom_eq_without cutoff).trans (without_congr h)

end AuditLog

namespace RetentionTask

variable {task longer : RetentionTask} {s : Store} {now t : Time.Instant}

/-- Whether at `now` a record of the time is older than the days of the task. -/
def expires (task : RetentionTask) (now t : Time.Instant) : Bool :=
  task.daysRetained * Time.nanosPerDay < now.nanos - t.nanos

theorem expires_iff :
    task.expires now t = true ↔ task.daysRetained * Time.nanosPerDay < now.nanos - t.nanos :=
  decide_eq_true_iff

theorem expires_of_le (hle : task.daysRetained ≤ longer.daysRetained)
    (h : longer.expires now t = true) : task.expires now t = true := by
  rw [expires_iff] at h ⊢
  refine lt_of_le_of_lt ?_ h
  exact mul_le_mul_of_nonneg_right (Int.ofNat_le.2 hle) (by decide)

theorem run_eq (task : RetentionTask) (hnow : now.Regular)
    (hlog : ∀ e ∈ s.log.events, e.time.Regular) :
    task.run s now = (s.log.events.countP fun e => task.expires now e.time,
      { s with log := s.log.without (task.expires now) }) := by
  unfold run
  split
  · rename_i cutoff hcutoff
    have hdelete : s.log.deleteBefore cutoff = _ :=
      AuditLog.deleteBefore_eq (p := task.expires now) fun e he =>
        decide_eq_decide.2 (Time.Instant.lt_cutoff_iff hnow (hlog e he) hcutoff)
    rw [Store.deleteRecordsBefore, hdelete]
  · rename_i hcutoff
    have hkept : ∀ e ∈ s.log.events, task.expires now e.time = false := fun e he =>
      decide_eq_false (not_lt.2 (Time.Instant.le_of_daysBefore?_eq_none hnow (hlog e he) hcutoff))
    rw [AuditLog.without_of_forall hkept, AuditLog.countP_of_forall hkept]

theorem run_of_forall (hnow : now.Regular) (hlog : ∀ e ∈ s.log.events, e.time.Regular)
    (h : ∀ e ∈ s.log.events, task.expires now e.time = false) : task.run s now = (0, s) := by
  rw [task.run_eq hnow hlog, AuditLog.without_of_forall h, AuditLog.countP_of_forall h]

/-- A run takes out the records that have expired and says how many there were. Nothing is left for
another run at the same time, and the longer records are retained, the more are left. -/
theorem prunes_run (task : RetentionTask) (hnow : now.Regular)
    (hlog : ∀ e ∈ s.log.events, e.time.Regular) :
    task.run s now = (s.log.events.countP fun e => task.expires now e.time,
        { s with log := s.log.without (task.expires now) }) ∧
      task.run (task.run s now).2 now = (0, (task.run s now).2) ∧
      ∀ longer : RetentionTask, task.daysRetained ≤ longer.daysRetained →
        (task.run s now).2.log.Within (longer.run s now).2.log := by
  have hrun := task.run_eq hnow hlog
  refine ⟨hrun, ?_, fun longer hle => ?_⟩
  · rw [hrun]
    refine run_of_forall hnow (fun e he => hlog e ?_) fun e he => ?_
    · exact (AuditLog.mem_events_without.1 he).1
    · exact (AuditLog.mem_events_without.1 he).2
  · rw [hrun, longer.run_eq hnow hlog]
    exact AuditLog.without_within fun t => expires_of_le hle

def aged : Store :=
  let caller : Caller := ⟨.ofNat 1, "alice"⟩
  let operation := ({ code := .credentialFind } : AuditParameters).record caller ⟨true, 200⟩ ⟨0, 5⟩
  let request := RequestRecord.of caller "GET" "/permissions" 200 ⟨0, 4⟩
  let failure := AuthFailureRecord.of (.ofNat 2) "GET" "/permissions" "no token"
    (.ofSeconds Time.Instant.firstSecond)
  ⟨∅, ((AuditLog.empty.append operation).appendRequest request).appendAuthFailure failure⟩

theorem prunes_run_aged :
    let now : Time.Instant := ⟨30 * 86400, 5⟩
    let left := (of 30 0).run aged now
    let kept := (of 4294967295 0).run aged now
    now.Regular ∧ (∀ e ∈ aged.log.events, e.time.Regular) ∧
      left.1 = 2 ∧ left.2.log = { aged.log with requests := [], authFailures := [] } ∧
      (of 30 0).run left.2 now = (0, left.2) ∧
      now.daysBefore? 4294967295 = none ∧ kept.1 = 0 ∧ kept.2.log = aged.log ∧
      left.2.log.Within kept.2.log := by
  intro now left kept
  have hnow : now.Regular := by decide +kernel
  have haged : ∀ e ∈ aged.log.events, e.time.Regular := by decide +kernel
  obtain ⟨hleft, hagain, hwithin⟩ := prunes_run (of 30 0) hnow haged
  have hkept : kept = _ := (prunes_run (of 4294967295 0) hnow haged).1
  have hsome : left.1 = 2 ∧ left.2.log = { aged.log with requests := [], authFailures := [] } := by
    rw [show left = _ from hleft]
    decide +kernel
  have hnone : kept.1 = 0 ∧ kept.2.log = aged.log := by
    rw [hkept]
    decide +kernel
  exact ⟨hnow, haged, hsome.1, hsome.2, hagain, by decide +kernel, hnone.1, hnone.2,
    hwithin _ (by decide)⟩

end RetentionTask

end Strongroom
