import Strongroom.Store.Transaction

/-!
Work on a store. An inquiry looks at the data and collects audit parameters; work runs in a
transaction and can do both that and change the data. Either may end in a fault.
-/

namespace Strongroom

structure View where
  data : StoreData
  now : Time.Instant

abbrev Inquiry := ReaderT View (ExceptT Fault (StateM (List AuditParameters)))

abbrev Work := ExceptT Fault (StateM Transaction)

namespace Inquiry

def runOn {α : Type} (q : Inquiry α) (data : StoreData) (now : Time.Instant)
    (collected : List AuditParameters) : Except Fault α × List AuditParameters :=
  q.run ⟨data, now⟩ collected

def data : Inquiry StoreData := do return (← read).data

def now : Inquiry Time.Instant := do return (← read).now

def collect (parameters : List AuditParameters) : Inquiry Unit := modify (· ++ parameters)

def collected : Inquiry (List AuditParameters) := get

def resolveName (name : String) : Inquiry Unit := modify (·.map (·.resolveName name))

def resolveFor (actor name : String) : Inquiry Unit := do
  let held := ((← data).operationsFor name actor).toList
  modify (·.map fun p => { p.resolveName name with allowed := held })

end Inquiry

namespace Work

def ofInquiry {α : Type} (q : Inquiry α) : Work α := fun t =>
  let (result, parameters) := q.runOn t.data t.now t.parameters
  (result, { t with parameters })

instance : MonadLift Inquiry Work := ⟨ofInquiry⟩

def runIn {α : Type} (w : Work α) (t : Transaction) : Except Fault α × Transaction := w.run t

def ofStep {α : Type} (step : Transaction → α × Transaction) : Work α := fun t =>
  let (a, t) := step t
  (.ok a, t)

def putVersion (name : String) (v : Version) : Work Unit := fun t => t.putVersion name v

def remove (name : String) : Work Bool := ofStep (·.remove name)

def replaceOperations (name actor : String) (operations : OperationSet) : Work Unit :=
  ofStep fun t => ((), t.replaceOperations name actor operations)

def mergeOperations (name actor : String) (operations : OperationSet) : Work Unit :=
  ofStep fun t => ((), t.mergeOperations name actor operations)

def removeActor (name actor : String) : Work Bool := ofStep (·.removeActor name actor)

def draw : Work FreshId := ofStep (·.draw)

def now : Work Time.Instant := ofStep fun t => (t.now, t)

def newVersion (value : CredentialValue) : Work Version := do
  let id ← draw
  return ⟨id, ← now, value⟩

def put (name : String) (value : CredentialValue) : Work Unit := do
  putVersion name (← newVersion value)

/-- The work, with true in place of what it yields. -/
def done (w : Work Unit) : Work Bool := fun t =>
  let (result, t) := w.runIn t
  (result.map fun _ => true, t)

end Work

/-- What a step does to the parameters that were collected: it collects more of them, or corrects
each one in its place. -/
inductive Note
  | collect (parameters : List AuditParameters)
  | correct (f : Nat → AuditParameters → AuditParameters)

def Note.apply (ps : List AuditParameters) : Note → List AuditParameters
  | collect parameters => ps ++ parameters
  | correct f => ps.mapIdx f

inductive Step
  | put (name : String) (value : CredentialValue)
  | putVersion (name : String) (v : Version)
  | remove (name : String)
  | replaceOperations (name actor : String) (operations : OperationSet)
  | mergeOperations (name actor : String) (operations : OperationSet)
  | removeActor (name actor : String)
  | draw
  | note (note : Note)

namespace Step

/-- What the step did: whether it found what it was to remove, and true for the other steps. -/
def work : Step → Work Bool
  | put name value => (Work.put name value).done
  | putVersion name v => (Work.putVersion name v).done
  | remove name => Work.remove name
  | replaceOperations name actor operations => (Work.replaceOperations name actor operations).done
  | mergeOperations name actor operations => (Work.mergeOperations name actor operations).done
  | removeActor name actor => Work.removeActor name actor
  | draw => Work.ofStep fun t => (true, t.draw.2)
  | note n => Work.ofStep fun t => (true, { t with parameters := n.apply t.parameters })

end Step

end Strongroom
