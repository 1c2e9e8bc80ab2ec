import Strongroom.Proofs.Grants

/-! Three questions about access and one answer. What an actor is allowed, whether it may do one
thing, and whether it is let through for one of several things are decided apart from each other;
each of them asks whether there is a credential, whether access lists are enforced, and what the
list under the name's key has entered for the actor. -/

namespace Strongroom.AccessPolicy

/-- The actor holds the operation on the name: a credential stands under its key, and access lists
are not enforced or the list under the key has an entry for the actor with the operation. -/
inductive Holds (p : AccessPolicy) (d : StoreData) (name actor : String) (op : Operation) : Prop
  | unenforced {c : Credential} (hc : d.credentials.get? (Naming.key name) = some c)
    (h : p.enforced = false) : Holds p d name actor op
  | entered {c : Credential} {list : AccessList} {operations : OperationSet}
    (hc : d.credentials.get? (Naming.key name) = some c)
    (hlist : d.accessLists.get? (Naming.key name) = some list)
    (hentry : list.get? actor = some operations) (hop : operations.contains op = true) :
    Holds p d name actor op

variable (p : AccessPolicy) (d : StoreData) (name actor : String)

theorem contains_operationsFor_iff {op : Operation} :
    (d.operationsFor name actor).contains op = true ↔
      ∃ list operations, d.accessLists.get? (Naming.key name) = some list ∧
        list.get? actor = some operations ∧ operations.contains op = true := by
  rw [StoreData.operationsFor, StoreData.accessList?]
  cases d.accessLists.get? (Naming.key name) with
  | none => simp
  | some list =>
    cases hentry : list.get? actor with
    | none => simp [AccessList.operationsOf, hentry]
    | some operations => simp [AccessList.operationsOf, hentry]

theorem permits_iff_holds {op : Operation} :
    p.permits d name actor op = true ↔ p.Holds d name actor op := by
  rw [permits_iff, contains_operationsFor_iff, StoreData.contains, Option.isSome_iff_exists]
  constructor
  · rintro ⟨⟨c, hc⟩, hentered⟩
    cases henforced : p.enforced with
    | false => exact .unenforced hc henforced
    | true =>
      obtain ⟨list, operations, hlist, hentry, hop⟩ := hentered henforced
      exact .entered hc hlist hentry hop
  · rintro (⟨hc, h⟩ | ⟨hc, hlist, hentry, hop⟩)
    · exact ⟨⟨_, hc⟩, fun henforced => by simp [h] at henforced⟩
    · exact ⟨⟨_, hc⟩, fun _ => ⟨_, _, hlist, hentry, hop⟩⟩

theorem contains_allowedOperations (op : Operation) :
    (p.allowedOperations d name actor).contains op = p.permits d name actor op := by
  unfold allowedOperations permits
  cases d.contains name with
  | false => exact OperationSet.contains_empty op
  | true =>
    cases p.enforced with
    | false => exact OperationSet.contains_ofPredicate _ op
    | true => rfl

theorem authorize_eq_ok {operations : List Operation} {c : Credential} :
    p.authorize d name actor operations = .ok c ↔
      d.find? name = some c ∧ ∃ op ∈ operations, p.permits d name actor op = true := by
  rw [← List.any_eq_true, authorize]
  cases d.find? name with
  | none => simp
  | some held => cases operations.any (p.permits d name actor) <;> simp

theorem authorize_eq_credentialMissing {operations : List Operation} :
    p.authorize d name actor operations = .error .credentialMissing ↔ d.find? name = none := by
  rw [authorize]
  cases d.find? name with
  | none => simp
  | some held => cases operations.any (p.permits d name actor) <;> simp

theorem authorize_eq_insufficientPermission {operations : List Operation} :
    p.authorize d name actor operations = .error .insufficientPermission ↔
      (∃ c, d.find? name = some c) ∧ ∀ op ∈ operations, p.permits d name actor op = false := by
  rw [authorize]
  cases d.find? name with
  | none => simp
  | some held => cases hany : operations.any (p.permits d name actor) <;> simp_all

theorem allowedOperations_of_not_holds (h : ∀ op, ¬ p.Holds d name actor op) :
    p.allowedOperations d name actor = ∅ := by
  ext op
  rw [contains_allowedOperations, OperationSet.contains_empty, ← Bool.not_eq_true,
    permits_iff_holds]
  exact h op

/-- The three decisions on an actor and a name, each told by what the actor is allowed, and that by
what it holds. -/
structure Agree (p : AccessPolicy) (d : StoreData) (name actor : String) : Prop where
  allowed : ∀ op, (p.allowedOperations d name actor).contains op = true ↔ p.Holds d name actor op
  permitted : ∀ op, p.permits d name actor op = (p.allowedOperations d name actor).contains op
  authorized : ∀ operations c, p.authorize d name actor operations = .ok c ↔
    d.credentials.get? (Naming.key name) = some c ∧
      ∃ op ∈ operations, (p.allowedOperations d name actor).contains op = true
  missing : ∀ operations, p.authorize d name actor operations = .error .credentialMissing ↔
    d.credentials.get? (Naming.key name) = none
  insufficient : ∀ operations,
    p.authorize d name actor operations = .error .insufficientPermission ↔
      (∃ c, d.credentials.get? (Naming.key name) = some c) ∧
        ∀ op ∈ operations, (p.allowedOperations d name actor).contains op = false
  unlisted : p.enforced = true →
    (∀ list, d.accessLists.get? (Naming.key name) = some list → list.get? actor = none) →
    p.allowedOperations d name actor = ∅
  orphaned : d.credentials.get? (Naming.key name) = none →
    p.allowedOperations d name actor = ∅

theorem decisions_agree : p.Agree d name actor where
  allowed op := by rw [contains_allowedOperations, permits_iff_holds]
  permitted op := (p.contains_allowedOperations d name actor op).symm
  authorized operations c := by
    simp only [contains_allowedOperations]
    exact p.authorize_eq_ok d name actor
  missing operations := p.authorize_eq_credentialMissing d name actor
  insufficient operations := by
    simp only [contains_allowedOperations]
    exact p.authorize_eq_insufficientPermission d name actor
  unlisted henforced hlist := by
    refine p.allowedOperations_of_not_holds d name actor fun op => ?_
    rintro (⟨-, h⟩ | ⟨-, hfound, hentry, -⟩)
    · rw [henforced] at h
      cases h
    · rw [hlist _ hfound] at hentry
      cases hentry
  orphaned habsent := by
    refine p.allowedOperations_of_not_holds d name actor fun op => ?_
    rintro (⟨hc, -⟩ | ⟨hc, -, -, -⟩) <;> rw [habsent] at hc <;> cases hc

example : let alone : StoreData := ⟨∅, (∅ : Dictionary AccessList).insert "/db"
    ((∅ : AccessList).insert "bob" .full)⟩
    alone.operationsFor "/DB" "bob" = .full ∧
      (AccessPolicy.mk true).allowedOperations alone "/DB" "bob" = ∅ ∧
      (AccessPolicy.mk false).allowedOperations alone "/DB" "bob" = ∅ := by decide +kernel

end Strongroom.AccessPolicy
