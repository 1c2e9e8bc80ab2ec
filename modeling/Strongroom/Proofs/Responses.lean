import Strongroom.Api
import Strongroom.Proofs.Reading
import Strongroom.Proofs.Trail

/-! Responses and records agree. The status of a response is computed from the answer of the call,
and the status of its records where the call is run; both come to the same for every request, so
that the log tells of each request what the caller was told. -/

namespace Strongroom

theorem Fault.status_ne_success (fault : Fault) : fault.status ≠ 200 ∧ fault.status ≠ 204 := by
  cases fault <;> simp [status]

def Call.successStatus : Call → UInt16
  | .delete _ | .deletePermission _ _ => Custodian.noContentStatus
  | _ => Custodian.okStatus

theorem Call.successStatus_cases (call : Call) :
    call.successStatus = 200 ∨ call.successStatus = 204 := by
  cases call with
  | delete | deletePermission => exact .inr rfl
  | _ => exact .inl rfl

namespace Response

theorem body_of_eq_none_iff (outcome : Except Fault Answer) :
    (of outcome).body = none ↔ (of outcome).status = 204 := by
  cases outcome with
  | error fault => simp [of, ofFault, fault.status_ne_success.2]
  | ok answer => cases answer <;> simp [of, ofAnswer, Custodian.okStatus, Custodian.noContentStatus]

theorem status_of_eq_map {α : Type} {f : α → Answer} {status : UInt16} {ending : Except Fault α}
    {outcome : Except Fault Answer} (houtcome : outcome = ending.map f)
    (h : ∀ a, (ofAnswer (f a)).status = status) :
    (of outcome).status = (Store.outcome status outcome).status := by
  rw [houtcome]
  cases ending with
  | ok a => exact h a
  | error fault => rfl

end Response

namespace Store

variable {α : Type} {s : Store} {caller : Caller} {status : UInt16}

def LogsOutcome (s s' : Store) (caller : Caller) (outcome : Outcome) : Prop :=
  ∃ time ps, s'.log = s.log.appendAll (records caller outcome time ps)

theorem logsOutcome_audited (occasion : Occasion) (w : Work α) :
    s.LogsOutcome (s.audited caller status occasion w).2 caller
      (outcome status (s.audited caller status occasion w).1) := by
  unfold audited
  rcases w.runIn (s.begin occasion) with ⟨fault | a, t⟩ <;> exact ⟨t.now, t.parameters, rfl⟩

theorem logsOutcome_inquire (now : Time.Instant) (q : Inquiry α) :
    s.LogsOutcome (s.inquire caller status now q).2 caller
      (outcome status (s.inquire caller status now q).1) :=
  ⟨now, _, rfl⟩

theorem success_iff_of_mem_records {ending : Except Fault α} {time : Time.Instant}
    {ps : List AuditParameters} {r : OperationRecord} (hstatus : status = 200 ∨ status = 204)
    (hr : r ∈ records caller (outcome status ending) time ps) :
    r.status = (outcome status ending).status ∧
      (r.success = true ↔ r.status = 200 ∨ r.status = 204) := by
  obtain ⟨p, -, rfl⟩ := List.mem_map.1 hr
  refine ⟨rfl, ?_⟩
  cases ending with
  | ok a => exact iff_of_true rfl hstatus
  | error fault =>
    obtain ⟨hok, hnoContent⟩ := fault.status_ne_success
    exact iff_of_false Bool.false_ne_true (not_or.2 ⟨hok, hnoContent⟩)

end Store

namespace Custodian

variable (c : Custodian) (caller : Caller) (occasion : Occasion)

theorem logsOutcome_audited {α : Type} (status : UInt16) (w : Work α) :
    c.store.LogsOutcome (c.audited caller occasion status w).2.store caller
      (Store.outcome status (c.audited caller occasion status w).1) :=
  Store.logsOutcome_audited occasion w

theorem logsOutcome_inquire {α : Type} (q : Inquiry α) :
    c.store.LogsOutcome (c.inquire caller occasion q).2.store caller
      (Store.outcome okStatus (c.inquire caller occasion q).1) :=
  Store.logsOutcome_inquire occasion.now q

theorem logsOutcome_perform (call : Call) :
    c.store.LogsOutcome (c.perform caller occasion call).2.store caller
      (Store.outcome call.successStatus (c.perform caller occasion call).1) := by
  cases call with
  | set | generate | regenerate | renewBelow | setPermissions =>
    exact c.logsOutcome_audited caller occasion okStatus _
  | delete | deletePermission => exact c.logsOutcome_audited caller occasion noContentStatus _
  | get | versions | findByName | findByPath | findFolders | listPermissions =>
    exact c.logsOutcome_inquire caller occasion _

end Custodian

namespace Api

def Request.IsIncomplete : Request → Prop
  | getPermissions name => name = none
  | postPermissions body => (Json.ofText? body).bind permissionsCall? = none
  | deletePermissions name actor => name = none ∨ actor = none
  | postRenewal body => (Json.ofText? body).bind renewalCall? = none

inductive Requested : Call → Prop
  | listPermissions (name : String) : Requested (.listPermissions name)
  | setPermissions (name : String) (entries : List Permission) :
    Requested (.setPermissions name entries)
  | deletePermission (name subject : String) : Requested (.deletePermission name subject)
  | renewBelow (signedBy : Option String) : Requested (.renewBelow signedBy)

namespace Request

theorem requested_of_permissionsCall? {j : Json} {call : Call}
    (h : permissionsCall? j = some call) : Requested call := by
  simp only [permissionsCall?, bind, Option.bind_eq_some_iff, pure, Option.some.injEq] at h
  obtain ⟨_, -, name, -, entries, -, rfl⟩ := h
  exact .setPermissions name entries

theorem requested_of_renewalCall? {j : Json} {call : Call} (h : renewalCall? j = some call) :
    Requested call := by
  simp only [renewalCall?, bind, Option.bind_eq_some_iff, pure, Option.some.injEq] at h
  obtain ⟨_, -, signedBy, -, rfl⟩ := h
  exact .renewBelow signedBy

theorem call_postPermissions (body : String) :
    (postPermissions body).call =
      ((Json.ofText? body).bind permissionsCall?).elim (.error (.validation .badRequest)) .ok := by
  rw [call]
  cases (Json.ofText? body).bind permissionsCall? <;> rfl

theorem call_postRenewal (body : String) :
    (postRenewal body).call =
      ((Json.ofText? body).bind renewalCall?).elim (.error (.validation .badRequest)) .ok := by
  rw [call]
  cases (Json.ofText? body).bind renewalCall? <;> rfl

theorem call_of_isIncomplete {request : Request} (h : request.IsIncomplete) :
    ∃ code, request.call = .error (.validation code) := by
  cases request with
  | getPermissions name =>
    cases h
    exact ⟨_, rfl⟩
  | postPermissions body =>
    rw [call_postPermissions, show (Json.ofText? body).bind permissionsCall? = none from h]
    exact ⟨_, rfl⟩
  | deletePermissions name actor =>
    rcases h with rfl | rfl
    · exact ⟨_, rfl⟩
    · cases name <;> exact ⟨_, rfl⟩
  | postRenewal body =>
    rw [call_postRenewal, show (Json.ofText? body).bind renewalCall? = none from h]
    exact ⟨_, rfl⟩

theorem requested_of_call_eq_ok {request : Request} {call : Call} (h : request.call = .ok call) :
    Requested call := by
  cases request with
  | getPermissions name =>
    rcases name with _ | name <;> cases h
    exact .listPermissions name
  | postPermissions body =>
    rw [call_postPermissions] at h
    cases hread : (Json.ofText? body).bind permissionsCall? <;> rw [hread] at h <;> cases h
    obtain ⟨j, -, hj⟩ := Option.bind_eq_some_iff.1 hread
    exact requested_of_permissionsCall? hj
  | deletePermissions name actor =>
    rcases name with _ | name <;> rcases actor with _ | actor <;> cases h
    exact .deletePermission name actor
  | postRenewal body =>
    rw [call_postRenewal] at h
    cases hread : (Json.ofText? body).bind renewalCall? <;> rw [hread] at h <;> cases h
    obtain ⟨j, -, hj⟩ := Option.bind_eq_some_iff.1 hread
    exact requested_of_renewalCall? hj

end Request

variable (c : Custodian) (caller : Caller) (occasion : Occasion)

theorem Requested.status_of_perform {call : Call} (h : Requested call) :
    (Response.of (c.perform caller occasion call).1).status =
      (Store.outcome call.successStatus (c.perform caller occasion call).1).status := by
  cases h with
  | listPermissions name => exact Response.status_of_eq_map Custodian.inquire_fst fun _ => rfl
  | setPermissions name entries =>
    exact Response.status_of_eq_map Custodian.audited_fst fun _ => rfl
  | deletePermission name subject =>
    exact Response.status_of_eq_map Custodian.audited_fst fun _ => rfl
  | renewBelow signedBy => exact Response.status_of_eq_map Custodian.audited_fst fun _ => rfl

/-- The records that a request leaves agree with its response. -/
structure Accounted (request : Request) (response : Response) (left : Custodian) : Prop where
  requests : left.store.log.requests = c.store.log.requests ++ [{
    request := caller.request
    actor := caller.actor
    method := request.method
    path := request.endpoint.path
    status := response.status
    time := occasion.now }]
  operations : ∃ rs, left.store.log.operations = c.store.log.operations ++ rs ∧
    ∀ r ∈ rs, r.status = response.status ∧ (r.success = true ↔ r.status = 200 ∨ r.status = 204)
  authFailures : left.store.log.authFailures = c.store.log.authFailures
  body : response.body = none ↔ response.status = 204
  incomplete : request.IsIncomplete → response.status = 400 ∧
    left.store.log.operations = c.store.log.operations ∧ left.store.data = c.store.data

/-- The refusal of a caller who could not be authenticated is recorded, and nothing else happens,
except that the sinks are told. -/
structure Refused (id : Uuid) (method path reason : String) (response : Response)
    (left : Custodian) : Prop where
  config : left.config = c.config
  issuer : left.issuer = c.issuer
  data : left.store.data = c.store.data
  log : ∃ r, r = ⟨id, method, path, reason, response.status, occasion.now⟩ ∧
    left.store.log = { c.store.log with
      authFailures := c.store.log.authFailures ++ [r]
      deliveries := c.store.log.deliveries ++
        AuditLog.forward 0 c.store.log.sinks (.authFailure r) }
  status : response.status = 401

theorem accounted_handle (request : Request) :
    Accounted c caller occasion request (handle c caller occasion request).1
      (handle c caller occasion request).2 := by
  unfold handle answer
  cases hcall : request.call with
  | error fault =>
    have hnothing : c.store.log.operations = c.store.log.operations ++ [] :=
      (List.append_nil _).symm
    exact {
      requests := rfl
      operations := ⟨[], hnothing, fun r hr => by cases hr⟩
      authFailures := rfl
      body := Response.body_of_eq_none_iff (.error fault)
      incomplete := fun hincomplete => by
        obtain ⟨code, hcode⟩ := Request.call_of_isIncomplete hincomplete
        cases hcall.symm.trans hcode
        exact ⟨rfl, rfl, rfl⟩ }
  | ok call =>
    have hstatus := (Request.requested_of_call_eq_ok hcall).status_of_perform c caller occasion
    obtain ⟨time, ps, hlog⟩ := c.logsOutcome_perform caller occasion call
    have hoperations := hlog ▸ c.store.log.operations_appendAll _
    have hrequests := hlog ▸ c.store.log.requests_appendAll _
    have hauthFailures := hlog ▸ c.store.log.authFailures_appendAll _
    exact {
      requests := congrArg (· ++ [_]) hrequests
      operations := ⟨_, hoperations, fun r hr => hstatus ▸
        Store.success_iff_of_mem_records call.successStatus_cases hr⟩
      authFailures := hauthFailures
      body := Response.body_of_eq_none_iff _
      incomplete := fun hincomplete => by
        obtain ⟨code, hcode⟩ := Request.call_of_isIncomplete hincomplete
        cases hcall.symm.trans hcode }

theorem refused_authenticationFailed (id : Uuid) (method path reason : String) :
    Refused c occasion id method path reason
      (authenticationFailed c id occasion method path reason).1
      (authenticationFailed c id occasion method path reason).2 where
  config := rfl
  issuer := rfl
  data := rfl
  log := ⟨_, rfl, rfl⟩
  status := rfl

/-- The log tells of every request what the caller was told, whoever the caller is. -/
theorem responses_accounted (c : Custodian) (occasion : Occasion) :
    (∀ caller request, Accounted c caller occasion request
      (handle c caller occasion request).1 (handle c caller occasion request).2) ∧
    ∀ id method path reason, Refused c occasion id method path reason
      (authenticationFailed c id occasion method path reason).1
      (authenticationFailed c id occasion method path reason).2 :=
  ⟨fun caller request => accounted_handle c caller occasion request,
    fun id method path reason => refused_authenticationFailed c occasion id method path reason⟩

end Api

end Strongroom
