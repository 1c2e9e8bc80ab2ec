import Strongroom.Store.Work

/-!
Decisions on access. Nothing is allowed without an entry, unless access lists are not enforced; then
everything is allowed on what exists. A credential that is missing and one that is not open to the
actor are told apart only in the cause of the denial.
-/

namespace Strongroom

structure AccessPolicy where
  enforced : Bool
deriving DecidableEq, Repr

namespace AccessPolicy

def permits (p : AccessPolicy) (d : StoreData) (name actor : String) (op : Operation) : Bool :=
  if !d.contains name then false
  else if !p.enforced then true
  else (d.operationsFor name actor).contains op

def allowedOperations (p : AccessPolicy) (d : StoreData) (name actor : String) : OperationSet :=
  if !d.contains name then ∅
  else if !p.enforced then .full
  else d.operationsFor name actor

def authorize (p : AccessPolicy) (d : StoreData) (name actor : String)
    (operations : List Operation) : Except Denial Credential :=
  match d.find? name with
  | none => .error .credentialMissing
  | some c =>
    if operations.any (p.permits d name actor) then .ok c else .error .insufficientPermission

def requireAny (p : AccessPolicy) (actor name : String) (operations : List Operation) :
    Inquiry String := do
  match p.authorize (← Inquiry.data) name actor operations with
  | .ok c => return c.name
  | .error cause => throw (.notFound cause)

def require (p : AccessPolicy) (actor name : String) (op : Operation) : Inquiry String :=
  p.requireAny actor name [op]

end AccessPolicy

end Strongroom
