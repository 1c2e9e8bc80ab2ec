import Strongroom.Store.Data

/-!
Transactions: changes to the data together with a journal of what was there before, newest first,
and the audit parameters collected on the way. Undoing the journal from its newest entry on gives
back the data that the transaction began with.
-/

namespace Strongroom

inductive Undo
  | versions (key : String) (count : Nat)
  | credential (key : String) (previous : Option Credential)
  | accessList (key : String) (previous : Option AccessList)

namespace Undo

def apply (d : StoreData) : Undo → StoreData
  | versions key count =>
    match d.credentials.get? key with
    | some c => { d with credentials := d.credentials.insert key (c.truncate count) }
    | none => d
  | credential key previous => { d with credentials := d.credentials.assign key previous }
  | accessList key previous => { d with accessLists := d.accessLists.assign key previous }

end Undo

structure Transaction where
  data : StoreData
  journal : List Undo
  parameters : List AuditParameters
  occasion : Occasion
  /-- How many fresh identifiers were drawn. -/
  drawn : Nat

namespace Transaction

def begin (data : StoreData) (occasion : Occasion) : Transaction := ⟨data, [], [], occasion, 0⟩

def now (t : Transaction) : Time.Instant := t.occasion.now

def draw (t : Transaction) : FreshId × Transaction :=
  (⟨t.occasion.number, t.drawn⟩, { t with drawn := t.drawn + 1 })

/-- The data as it was before the changes in the journal. -/
def reverted (t : Transaction) : StoreData := t.journal.foldl Undo.apply t.data

/-- Appends the version to the credential, which is created if there is none. An append that is
refused leaves an entry in the journal all the same. -/
def putVersion (t : Transaction) (name : String) (v : Version) : Except Fault Unit × Transaction :=
  let key := Naming.key name
  match t.data.credentials.get? key with
  | some held =>
    let t := { t with journal := .versions key held.count :: t.journal }
    match held.append v with
    | .ok c => (.ok (), { t with data.credentials := t.data.credentials.insert key c })
    | .error fault => (.error fault, t)
  | none =>
    let (id, t) := t.draw
    let c : Credential := ⟨id, name, v, []⟩
    (.ok (), { t with
      journal := .credential key none :: t.journal
      data.credentials := t.data.credentials.insert key c })

def remove (t : Transaction) (name : String) : Bool × Transaction :=
  let key := Naming.key name
  let held := t.data.credentials.get? key
  (held.isSome, { t with
    journal := .credential key held :: .accessList key (t.data.accessLists.get? key) :: t.journal
    data := ⟨t.data.credentials.erase key, t.data.accessLists.erase key⟩ })

def noteAccessList (t : Transaction) (name : String) : Transaction :=
  let key := Naming.key name
  { t with journal := .accessList key (t.data.accessLists.get? key) :: t.journal }

def updateOperations (t : Transaction) (name actor : String) (f : OperationSet → OperationSet) :
    Transaction :=
  let t := t.noteAccessList name
  let key := Naming.key name
  let list := (t.data.accessLists.get? key).getD ∅
  { t with
    data.accessLists :=
      t.data.accessLists.insert key (list.insert actor (f (AccessList.operationsOf list actor))) }

def replaceOperations (t : Transaction) (name actor : String) (operations : OperationSet) :
    Transaction :=
  t.updateOperations name actor fun _ => operations

def mergeOperations (t : Transaction) (name actor : String) (operations : OperationSet) :
    Transaction :=
  t.updateOperations name actor fun held => held.union operations

def removeActor (t : Transaction) (name actor : String) : Bool × Transaction :=
  let t := t.noteAccessList name
  let key := Naming.key name
  match t.data.accessLists.get? key with
  | some list =>
    (list.contains actor,
      { t with data.accessLists := t.data.accessLists.insert key (list.erase actor) })
  | none => (false, t)

end Transaction

end Strongroom
