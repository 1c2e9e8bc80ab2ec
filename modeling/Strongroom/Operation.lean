/-!
What an actor may be allowed to do with a credential, and sets of that.
-/

namespace Strongroom

inductive Operation
  | read
  | write
  | delete
  | readAcl
  | writeAcl
deriving DecidableEq, Repr

namespace Operation

def all : List Operation := [read, write, delete, readAcl, writeAcl]

def name : Operation → String
  | read => "read"
  | write => "write"
  | delete => "delete"
  | readAcl => "read_acl"
  | writeAcl => "write_acl"

def ofName? (name : String) : Option Operation := all.find? (·.name = name)

end Operation

structure OperationSet where
  read : Bool
  write : Bool
  delete : Bool
  readAcl : Bool
  writeAcl : Bool
deriving DecidableEq, Repr

namespace OperationSet

def contains (s : OperationSet) : Operation → Bool
  | .read => s.read
  | .write => s.write
  | .delete => s.delete
  | .readAcl => s.readAcl
  | .writeAcl => s.writeAcl

@[ext]
theorem ext {s t : OperationSet} (h : ∀ op, s.contains op = t.contains op) : s = t := by
  cases s
  cases t
  simpa [contains] using
    And.intro (h .read) ⟨h .write, h .delete, h .readAcl, h .writeAcl⟩

def ofPredicate (p : Operation → Bool) : OperationSet :=
  ⟨p .read, p .write, p .delete, p .readAcl, p .writeAcl⟩

@[simp]
theorem contains_ofPredicate (p : Operation → Bool) (op : Operation) :
    (ofPredicate p).contains op = p op := by
  cases op <;> rfl

def empty : OperationSet := ofPredicate fun _ => false

def full : OperationSet := ofPredicate fun _ => true

instance : EmptyCollection OperationSet := ⟨empty⟩

instance : Inhabited OperationSet := ⟨empty⟩

def ofList (operations : List Operation) : OperationSet := ofPredicate fun op => op ∈ operations

def union (s t : OperationSet) : OperationSet :=
  ofPredicate fun op => s.contains op || t.contains op

def toList (s : OperationSet) : List Operation := Operation.all.filter s.contains

end OperationSet

end Strongroom
