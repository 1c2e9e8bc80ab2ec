import Strongroom.Proofs.Changes
import Strongroom.Proofs.Outcome

/-! Runs of a custodian that starts with nothing. Its data stay sound, and its configuration and its
issuer stay what they were. The turns of a run make the events in which later results are told. -/

namespace Strongroom

namespace Custodian

def empty (config : Config) (issuer : Issuer) : Custodian := ⟨config, issuer, .empty⟩

/-- The custodians that come of one with nothing in it. Their logs change in other ways as well, by
retention, by sinks and by records of requests. -/
inductive Reachable (config : Config) (issuer : Issuer) : Custodian → Prop
  | start : Reachable config issuer (empty config issuer)
  | perform {c : Custodian} (h : Reachable config issuer c) (caller : Caller)
    (occasion : Occasion) (call : Call) :
    Reachable config issuer (c.perform caller occasion call).2
  | logged {c : Custodian} (h : Reachable config issuer c) (log : AuditLog) :
    Reachable config issuer { c with store := ⟨c.store.data, log⟩ }

namespace Reachable

variable {config : Config} {issuer : Issuer} {c : Custodian}

theorem data (h : Reachable config issuer c) : c.store.data.Reachable := by
  induction h with
  | start => exact .start
  | perform _ caller occasion call ih =>
    exact perform_keeps StoreData.isInvariant_reachable (fun _ ht => ht) ih ih
  | logged _ _ ih => exact ih

theorem sound (h : Reachable config issuer c) : c.store.data.Sound := h.data.sound

theorem config_eq (h : Reachable config issuer c) : c.config = config := by
  induction h with
  | start => rfl
  | perform _ caller occasion call ih => exact (config_perform _ _ _ _).trans ih
  | logged _ _ ih => exact ih

theorem issuer_eq (h : Reachable config issuer c) : c.issuer = issuer := by
  induction h with
  | start => rfl
  | perform _ caller occasion call ih => exact (issuer_perform _ _ _ _).trans ih
  | logged _ _ ih => exact ih

end Reachable

end Custodian

structure Turn where
  caller : Caller
  occasion : Occasion
  call : Call

structure Event extends Turn where
  before : Custodian

namespace Event

variable (e : Event) (key : String)

def answer : Except Fault Answer := (e.before.perform e.caller e.occasion e.call).1

def after : Custodian := (e.before.perform e.caller e.occasion e.call).2

def found : Option Credential := e.before.store.data.credentials.get? key

def left : Option Credential := e.after.store.data.credentials.get? key

end Event

namespace Custodian

def afterAll (c : Custodian) (turns : List Turn) : Custodian :=
  turns.foldl (fun c turn => Event.after ⟨turn, c⟩) c

def events (c : Custodian) : List Turn → List Event
  | [] => []
  | turn :: rest => ⟨turn, c⟩ :: (Event.after ⟨turn, c⟩).events rest

variable (c : Custodian) (turns : List Turn) (turn : Turn)

theorem afterAll_concat :
    c.afterAll (turns ++ [turn]) = Event.after ⟨turn, c.afterAll turns⟩ := by
  rw [afterAll, List.foldl_append]
  rfl

theorem events_concat :
    c.events (turns ++ [turn]) = c.events turns ++ [⟨turn, c.afterAll turns⟩] := by
  induction turns generalizing c with
  | nil => rfl
  | cons first rest ih => exact congrArg (_ :: ·) (ih (Event.after ⟨first, c⟩))

theorem reachable_afterAll (config : Config) (issuer : Issuer) :
    Reachable config issuer ((empty config issuer).afterAll turns) := by
  induction turns using List.reverseRecOn with
  | nil => exact .start
  | append_singleton turns turn ih =>
    rw [afterAll_concat]
    exact ih.perform turn.caller turn.occasion turn.call

def chained : Custodian :=
  let root := CertificateRequest.withCommonName "Root"
  let turn (n : Nat) (call : Call) : Turn := ⟨⟨.ofNat n, "alice"⟩, ⟨n, ⟨0, 0⟩⟩, call⟩
  (empty {} Issuance.issue).afterAll [
    turn 0 (.generate "/ca" root.asAuthority [] true),
    turn 1 (.generate "/mid" (root.asAuthority.signedBy "/CA") [] true),
    turn 2 (.generate "/leaf" (root.signedBy "/mid") [] true),
    turn 3 (.generate "/loop" root.asAuthority [] true),
    turn 4 (.regenerate "/loop" { signer := some "/loop" })]

theorem reachable_chained : Reachable {} Issuance.issue chained := reachable_afterAll _ _ _

end Custodian

end Strongroom
