import Strongroom.Proofs.Work

/-! What is left in the log by a body of work, which takes some steps one after the other and ends
in some way. Every set of parameters that it collects becomes one record, in the order of collecting
and as it was last corrected; whether it is the record of a success depends on the ending alone. -/

namespace Strongroom

namespace Note

def corrected : List Note → Nat → AuditParameters → AuditParameters
  | [], _, p => p
  | collect _ :: rest, place, p => corrected rest place p
  | correct f :: rest, place, p => corrected rest place (f place p)

/-- The parameters that the notes collect where some were collected `before`, in order and each as
the notes after it have corrected it. -/
def collected (before : Nat) : List Note → List AuditParameters
  | [] => []
  | collect parameters :: rest =>
    (parameters.mapIdx fun i => corrected rest (i + before)) ++
      collected (before + parameters.length) rest
  | correct _ :: rest => collected before rest

theorem foldl_apply (notes : List Note) (ps : List AuditParameters) :
    notes.foldl apply ps = ps.mapIdx (corrected notes) ++ collected ps.length notes := by
  induction notes generalizing ps with
  | nil =>
    rw [List.foldl_nil, collected, List.append_nil]
    exact (List.mapIdx_eq_iff.2 fun i => by simp [corrected]).symm
  | cons note rest ih =>
    rw [List.foldl_cons, ih]
    cases note with
    | collect parameters =>
      rw [apply, List.mapIdx_append, List.append_assoc, List.length_append, collected]
      rfl
    | correct f =>
      rw [apply, List.mapIdx_mapIdx, List.length_mapIdx, collected]
      rfl

example (p q : AuditParameters) (f : Nat → AuditParameters → AuditParameters) :
    collected 0 [collect [p], correct f, collect [q]] = [f 0 p, q] := rfl

theorem foldl_apply_nil (notes : List Note) : notes.foldl apply [] = collected 0 notes := by
  rw [foldl_apply]
  rfl

theorem map_eq_foldl_apply (f : AuditParameters → AuditParameters) (ps : List AuditParameters) :
    ps.map f = [correct fun _ => f].foldl apply ps :=
  (List.mapIdx_eq_iff.2 fun i => by simp).symm

theorem foldl_apply_ne_nil (notes : List Note) {ps : List AuditParameters} (h : ps ≠ []) :
    notes.foldl apply ps ≠ [] := by
  rw [foldl_apply, ne_eq, List.append_eq_nil_iff, List.mapIdx_eq_nil_iff]
  exact fun hnone => h hnone.1

end Note

namespace Step

def note? : Step → Option Note
  | note n => some n
  | _ => none

def notes (steps : List Step) : List Note := steps.filterMap note?

theorem notes_append (steps later : List Step) :
    notes (steps ++ later) = notes steps ++ notes later := List.filterMap_append

end Step

namespace Transaction

theorem actAll_append (t : Transaction) (steps later : List Step) :
    t.actAll (steps ++ later) = (t.actAll steps).actAll later := List.foldl_append

theorem parameters_putVersion (t : Transaction) (name : String) (v : Version) :
    (t.putVersion name v).2.parameters = t.parameters := by
  cases hheld : t.data.find? name with
  | none => rw [putVersion_of_find?_eq_none v hheld]
  | some held =>
    cases hc : held.append v with
    | ok c => rw [putVersion_of_append_eq_ok hheld hc]
    | error fault => rw [putVersion_of_append_eq_error hheld hc]

theorem parameters_removeActor (t : Transaction) (name actor : String) :
    (t.removeActor name actor).2.parameters = t.parameters := by
  cases hlist : t.data.accessList? name with
  | none =>
    rw [removeActor_of_accessList?_eq_none hlist]
    rfl
  | some list =>
    rw [removeActor_of_accessList?_eq_some hlist]
    rfl

theorem parameters_act (t : Transaction) (step : Step) :
    (t.act step).parameters = (Step.notes [step]).foldl Note.apply t.parameters := by
  cases step with
  | put name value => exact parameters_putVersion t.draw.2 name _
  | putVersion name v => exact parameters_putVersion t name v
  | removeActor name actor => exact parameters_removeActor t name actor
  | remove | replaceOperations | mergeOperations | draw | note => rfl

theorem occasion_act (t : Transaction) (step : Step) : (t.act step).occasion = t.occasion := by
  cases step with
  | put name value => exact occasion_putVersion t.draw.2 name _
  | putVersion name v => exact occasion_putVersion t name v
  | removeActor name actor => exact occasion_removeActor t name actor
  | remove | replaceOperations | mergeOperations | draw | note => rfl

theorem parameters_actAll (t : Transaction) (steps : List Step) :
    (t.actAll steps).parameters = (Step.notes steps).foldl Note.apply t.parameters := by
  induction steps generalizing t with
  | nil => rfl
  | cons step rest ih =>
    rw [← List.singleton_append, Step.notes_append, List.foldl_append, ← parameters_act]
    exact ih (t.act step)

theorem actAll_map_note (t : Transaction) (notes : List Note) :
    t.actAll (notes.map .note) = { t with parameters := notes.foldl Note.apply t.parameters } := by
  induction notes generalizing t with
  | nil => rfl
  | cons note rest ih => exact ih (t.act (.note note))

theorem occasion_actAll (t : Transaction) (steps : List Step) :
    (t.actAll steps).occasion = t.occasion := actAll_keeps occasion_act t steps

end Transaction

def Inquiry.noting {α : Type} (notes : List Note) (ending : Except Fault α) : Inquiry α :=
  fun _ ps => (ending, notes.foldl Note.apply ps)

def Work.acting {α : Type} (steps : List Step) (ending : Except Fault α) : Work α :=
  fun t => (ending, t.actAll steps)

theorem AuditLog.appendAll_cons (log : AuditLog) (r : OperationRecord)
    (rs : List OperationRecord) : log.appendAll (r :: rs) = (log.append r).appendAll rs := rfl

theorem AuditLog.operations_appendAll (log : AuditLog) (rs : List OperationRecord) :
    (log.appendAll rs).operations = log.operations ++ rs := by
  induction rs generalizing log with
  | nil => exact (List.append_nil _).symm
  | cons r rest ih =>
    rw [appendAll_cons, ih, append, List.append_assoc]
    rfl

theorem AuditLog.requests_appendAll (log : AuditLog) (rs : List OperationRecord) :
    (log.appendAll rs).requests = log.requests := by
  induction rs generalizing log with
  | nil => rfl
  | cons r rest ih => exact ih (log.append r)

theorem AuditLog.authFailures_appendAll (log : AuditLog) (rs : List OperationRecord) :
    (log.appendAll rs).authFailures = log.authFailures := by
  induction rs generalizing log with
  | nil => rfl
  | cons r rest ih => exact ih (log.append r)

namespace Store

variable {α : Type} {s : Store} {caller : Caller} {status : UInt16} {occasion : Occasion}
  {ending : Except Fault α}

/-- What a body that has collected the parameters and ends so leaves of the store, apart from the
data: one record more for each set of parameters, and nothing else. -/
structure Logged (s : Store) (caller : Caller) (status : UInt16) (now : Time.Instant)
    (collected : List AuditParameters) (ending : Except Fault α) (left : Except Fault α × Store) :
    Prop where
  answer : left.1 = ending
  operations : left.2.log.operations = s.log.operations ++ collected.map fun p =>
    { request := caller.request
      actor := caller.actor
      code := p.code
      credentialName := p.credentialName
      subjectActor := p.subjectActor
      allowed := p.allowed
      success := ending.isOk
      status := match ending with
        | .ok _ => status
        | .error fault => fault.status
      time := now }
  requests : left.2.log.requests = s.log.requests
  authFailures : left.2.log.authFailures = s.log.authFailures

theorem logged_of_log_eq {now : Time.Instant} {collected : List AuditParameters}
    {left : Except Fault α × Store} (hanswer : left.1 = ending)
    (hlog : left.2.log =
      s.log.appendAll (records caller (outcome status ending) now collected)) :
    s.Logged caller status now collected ending left where
  answer := hanswer
  operations := by
    rw [hlog, AuditLog.operations_appendAll, records]
    cases ending <;> rfl
  requests := by rw [hlog, AuditLog.requests_appendAll]
  authFailures := by rw [hlog, AuditLog.authFailures_appendAll]

theorem logged_audited {w : Work α} {steps : List Step}
    (h : w.runIn (s.begin occasion) = (ending, (s.begin occasion).actAll steps)) :
    s.Logged caller status occasion.now (Note.collected 0 (Step.notes steps)) ending
      (s.audited caller status occasion w) := by
  have hparameters := Transaction.parameters_actAll (s.begin occasion) steps
  have hnow : ((s.begin occasion).actAll steps).now = occasion.now :=
    congrArg (·.now) (Transaction.occasion_actAll (s.begin occasion) steps)
  rw [show (s.begin occasion).parameters = [] from rfl, Note.foldl_apply_nil] at hparameters
  refine logged_of_log_eq ?_ ?_
  · rw [audited_fst, h]
  · rw [audited, h]
    cases ending with
    | ok a => rw [← hparameters, ← hnow]; rfl
    | error fault => rw [← hparameters, ← hnow]; rfl

theorem logged_inquire {q : Inquiry α} {now : Time.Instant} {notes : List Note}
    (h : q.runOn s.data now [] = (ending, notes.foldl Note.apply [])) :
    s.Logged caller status now (Note.collected 0 notes) ending
      (s.inquire caller status now q) := by
  rw [Note.foldl_apply_nil] at h
  refine logged_of_log_eq ?_ ?_
  · rw [inquire, h]
  · rw [inquire, h]

def settled (s : Store) (t : Transaction) : Except Fault α → StoreData
  | .ok _ => t.data
  | .error _ => s.data

/-- Whatever a body does and however it ends, a transaction and an inquiry leave exactly its
records, and data that go with the ending; a transaction that is dropped leaves neither. -/
theorem bodies_logged (s : Store) (caller : Caller) (status : UInt16) (occasion : Occasion) :
    (∀ (α : Type) (steps : List Step) (ending : Except Fault α),
      let left := s.audited caller status occasion (.acting steps ending)
      s.Logged caller status occasion.now (Note.collected 0 (Step.notes steps)) ending left ∧
        left.2.data = s.settled ((s.begin occasion).actAll steps) ending) ∧
    (∀ (α : Type) (notes : List Note) (ending : Except Fault α),
      let left := s.inquire caller status occasion.now (.noting notes ending)
      s.Logged caller status occasion.now (Note.collected 0 notes) ending left ∧
        left.2.data = s.data) ∧
    ∀ steps : List Step, s.drop ((s.begin occasion).actAll steps) = s := by
  have hreverted : ∀ steps, ((s.begin occasion).actAll steps).reverted = s.data :=
    Transaction.reverted_actAll _
  refine ⟨fun α steps ending => ⟨logged_audited rfl, ?_⟩,
    fun α notes ending => ⟨logged_inquire rfl, rfl⟩, fun steps => ?_⟩
  · cases ending with
    | ok a => rfl
    | error fault => exact hreverted steps
  · rw [drop, hreverted]

theorem bodies_logged_refused :
    let steps : List Step :=
      [.note (.collect [{ code := .credentialUpdate, credentialName := some "db" }]),
        .put "/Db" (.password "secret"), .note (.correct fun _ => (·.resolveName "/Db"))]
    let left := Store.empty.audited ⟨.ofNat 1, "alice"⟩ 200 ⟨1, ⟨5, 0⟩⟩
      (.acting steps (.error (.notFound .insufficientPermission)) : Work Unit)
    left.2.data = ∅ ∧ left.2.log.operations =
      [⟨.ofNat 1, "alice", .credentialUpdate, some "/Db", none, [], false, 404, ⟨5, 0⟩⟩] := by
  intro steps left
  obtain ⟨hlogged, hdata⟩ := (bodies_logged .empty ⟨.ofNat 1, "alice"⟩ 200 ⟨1, ⟨5, 0⟩⟩).1 Unit steps
    (.error (.notFound .insufficientPermission))
  exact ⟨hdata, hlogged.operations⟩

end Store

end Strongroom
