import Strongroom.Proofs.Grants
import Strongroom.Proofs.Reading
import Strongroom.Proofs.ByteOrder

/-! A setting of permissions does not depend on the order of its entries. What it answers is what it
has put in place: whoever may look at the access list next sees that, and what was there before of
all other actors. -/

namespace Strongroom

namespace Permission

def Ordered (permissions : List Permission) : Prop :=
  permissions.Pairwise fun p q => Octets.ofText p.actor < Octets.ofText q.actor

/-- There is one permission for each actor that the entries name, of all that they give it. -/
structure Combines (entries combined : List Permission) : Prop where
  ordered : Ordered combined
  mem_iff : ∀ p, p ∈ combined ↔
    p.actor ∈ entries.map (·.actor) ∧ p.operations = united entries p.actor

structure Overlays (before applied after : List Permission) : Prop where
  ordered : Ordered after
  mem_iff : ∀ p, p ∈ after ↔ p ∈ applied ∨ p ∈ before ∧ p.actor ∉ applied.map (·.actor)

theorem united_eq_of_perm {entries entries' : List Permission} (h : entries'.Perm entries)
    (actor : String) : united entries' actor = united entries actor := by
  unfold united
  congr
  funext op
  exact h.any_eq

end Permission

namespace AccessList

variable {list : AccessList} {entries entries' : List Permission}

theorem ordered_permissions (list : AccessList) : Permission.Ordered list.permissions :=
  List.pairwise_map.2 (list.ascending.imp Octets.ofText_lt_ofText_iff.2)

theorem get?_ofPermissions (entries : List Permission) (actor : String) :
    (ofPermissions entries).get? actor =
      if entries.any (·.actor = actor) then some (Permission.united entries actor) else none := by
  rw [← contains_ofPermissions, ← operationsOf_ofPermissions, Dictionary.contains, operationsOf]
  cases (ofPermissions entries).get? actor <;> rfl

theorem ofPermissions_eq_of_perm (h : entries'.Perm entries) :
    ofPermissions entries' = ofPermissions entries := by
  refine Dictionary.eq_of_get?_eq fun actor => ?_
  rw [get?_ofPermissions, get?_ofPermissions, h.any_eq, Permission.united_eq_of_perm h]

theorem combines_ofPermissions (entries : List Permission) :
    Permission.Combines entries (ofPermissions entries).permissions where
  ordered := ordered_permissions _
  mem_iff p := by
    have hnamed : entries.any (·.actor = p.actor) = true ↔ p.actor ∈ entries.map (·.actor) := by
      simp
    rw [mem_permissions, get?_ofPermissions, ← hnamed]
    split
    · rename_i hany
      rw [Option.some.injEq, eq_comm, and_iff_right hany]
    · rename_i hany
      exact iff_of_false nofun fun h => hany h.1

theorem overlays_foldl_setting (list applied : AccessList) :
    Permission.Overlays list.permissions applied.permissions
      (applied.permissions.foldl setting list).permissions where
  ordered := ordered_permissions _
  mem_iff p := by
    rw [mem_permissions, get?_foldl_setting, Option.or_eq_some_iff, mem_permissions,
      mem_permissions, mem_actors, Option.not_isSome_iff_eq_none, and_comm]

end AccessList

namespace StoreData

theorem getD_accessLists_updatingAll (d : StoreData) (key : String)
    (f : AccessList → Permission → AccessList) (permissions : List Permission) :
    ((d.updatingAll key f permissions).accessLists.get? key).getD ∅ =
      permissions.foldl f ((d.accessLists.get? key).getD ∅) := by
  cases hlist : d.accessLists.get? key with
  | some list => rw [accessLists_updatingAll_of_get?_eq_some f hlist, Option.getD, Option.getD]
  | none =>
    cases permissions with
    | nil =>
      rw [updatingAll, List.foldl_nil, hlist]
      rfl
    | cons p rest => rw [accessLists_updatingAll_of_get?_eq_none f hlist, Option.getD, Option.getD]

theorem overlays_permissionsOn (d : StoreData) (name : String) (applied : AccessList) :
    Permission.Overlays (d.permissionsOn name) applied.permissions
      ((d.updatingAll (Naming.key name) AccessList.setting applied.permissions).permissionsOn
        name) := by
  rw [permissionsOn, permissionsOn, accessList?, accessList?, getD_accessLists_updatingAll]
  exact AccessList.overlays_foldl_setting _ applied

end StoreData

namespace Custodian

variable {c : Custodian} {name : String}

theorem perform_listPermissions {held : Credential} (hheld : c.store.data.find? name = some held)
    (reader : Caller) (occasion : Occasion)
    (h : c.Allows name reader.actor .read ∨ c.Allows name reader.actor .readAcl) :
    (c.perform reader occasion (.listPermissions name)).1 =
      .ok (.permissions ⟨held.name, c.store.data.permissionsOn held.name⟩) := by
  have hany : [Operation.readAcl, .read].any
      (c.policy.permits c.store.data name reader.actor) = true := by
    rw [← permits_iff_allows, ← permits_iff_allows] at h
    rcases h with h | h <;> simp [h]
  have hrequired := AccessPolicy.required_any_eq_ok.2 ⟨held, hheld, hany, rfl⟩
  refine inquire_fst.trans ?_
  rw [AccessPolicy.runOn_listPermissions, hrequired]
  rfl

theorem exists_answer_setPermissions_iff {caller : Caller} {occasion : Occasion}
    {entries : List Permission} :
    (∃ answer, (c.perform caller occasion (.setPermissions name entries)).1 = .ok answer) ↔
      (∀ p ∈ entries, AccessPolicy.isBlank p.actor = false) ∧
        c.Allows name caller.actor .writeAcl := by
  have hblank : (AccessList.ofPermissions entries).permissions.any (AccessPolicy.isBlank ·.actor) =
      false ↔ ∀ p ∈ entries, AccessPolicy.isBlank p.actor = false := by
    rw [AccessList.any_ofPermissions entries AccessPolicy.isBlank]
    simp only [List.any_eq_false, Bool.not_eq_true]
  constructor
  · rintro ⟨answer, h⟩
    obtain ⟨view, t, hrun, -, -⟩ := audited_eq_ok h
    obtain ⟨hactors, held, -, hpermits, -, -⟩ := AccessPolicy.data_of_setPermissions hrun
    exact ⟨hblank.1 hactors, permits_iff_allows.1 hpermits⟩
  · rintro ⟨hactors, hallowed⟩
    obtain ⟨held, hheld⟩ := Option.isSome_iff_exists.1 hallowed.1
    obtain ⟨view, t, hrun⟩ := AccessPolicy.exists_setPermissions (t := c.store.begin occasion)
      (hblank.2 hactors) hheld (permits_iff_allows.2 hallowed)
    refine ⟨.permissions view, audited_fst.trans ?_⟩
    rw [hrun]
    rfl

/-- What setting the permissions of the entries on what has the name comes to, with the view that is
its answer: everything that they give is put in place, and nothing besides, and whoever may look at
the access list in the custodian after it is shown the whole of it. -/
structure Settled (c : Custodian) (name : String) (entries : List Permission)
    (view : PermissionsView) (after : Custodian) : Prop where
  named : ∃ held, c.store.data.find? name = some held ∧ held.name = view.credentialName
  combined : Permission.Combines entries view.permissions
  overlaid : Permission.Overlays (c.store.data.permissionsOn view.credentialName) view.permissions
    (after.store.data.permissionsOn view.credentialName)
  listed : ∀ (reader : Caller) (occasion : Occasion) (spelling : String),
    Naming.key spelling = Naming.key name →
    after.Allows spelling reader.actor .read ∨ after.Allows spelling reader.actor .readAcl →
    (after.perform reader occasion (.listPermissions spelling)).1 =
      .ok (.permissions ⟨view.credentialName,
        after.store.data.permissionsOn view.credentialName⟩)

theorem settled_of_perform_eq_ok {caller : Caller} {occasion : Occasion} {entries : List Permission}
    {answer : Answer}
    (h : (c.perform caller occasion (.setPermissions name entries)).1 = .ok answer) :
    ∃ view, answer = .permissions view ∧
      c.Settled name entries view (c.perform caller occasion (.setPermissions name entries)).2 := by
  obtain ⟨view, t, hrun, rfl, hafter⟩ := audited_eq_ok h
  obtain ⟨-, held, hheld, -, rfl, hdata⟩ := AccessPolicy.data_of_setPermissions hrun
  generalize hperform : (c.perform caller occasion (.setPermissions name entries)).2 = after
  have hleft : after.store.data = c.store.data.updatingAll (Naming.key held.name)
      AccessList.setting (AccessList.ofPermissions entries).permissions := by
    rw [← hperform]
    exact hafter.trans hdata
  refine ⟨_, rfl, ⟨held, hheld, rfl⟩, AccessList.combines_ofPermissions entries, ?_, ?_⟩
  · rw [hleft]
    exact c.store.data.overlays_permissionsOn held.name (AccessList.ofPermissions entries)
  · intro reader occasion' spelling hspelling hallowed
    refine perform_listPermissions ?_ reader occasion' hallowed
    rw [StoreData.find?, hspelling, hleft, StoreData.credentials_updatingAll]
    exact hheld

/-- The order of the entries shows nowhere, neither in the answer nor in what is stored and
recorded. A setting succeeds for those who may change the access list and name no blank actor, and
then its answer is true of what is there next. -/
theorem settled_setPermissions (c : Custodian) (caller : Caller) (occasion : Occasion)
    (name : String) (entries : List Permission) :
    (∀ entries' : List Permission, entries'.Perm entries →
      c.perform caller occasion (.setPermissions name entries') =
        c.perform caller occasion (.setPermissions name entries)) ∧
    ((∃ answer, (c.perform caller occasion (.setPermissions name entries)).1 = .ok answer) ↔
      (∀ p ∈ entries, AccessPolicy.isBlank p.actor = false) ∧
        c.Allows name caller.actor .writeAcl) ∧
    ∀ answer, (c.perform caller occasion (.setPermissions name entries)).1 = .ok answer →
      ∃ view, answer = .permissions view ∧
        c.Settled name entries view
          (c.perform caller occasion (.setPermissions name entries)).2 := by
  refine ⟨fun entries' hperm => ?_, exists_answer_setPermissions_iff,
    fun answer hanswer => settled_of_perform_eq_ok hanswer⟩
  have hsame : c.policy.setPermissions caller.actor name entries' =
      c.policy.setPermissions caller.actor name entries := by
    unfold AccessPolicy.setPermissions
    rw [AccessList.ofPermissions_eq_of_perm hperm]
  rw [perform, perform, hsame]

example :
    ((shared []).perform ⟨.ofNat 1, "alice"⟩ ⟨1, ⟨1, 0⟩⟩ (.setPermissions "/DB"
      [⟨"bob", .ofList [.read]⟩, ⟨"alice", ∅⟩, ⟨"bob", .ofList [.write]⟩])).1 =
      .ok (.permissions ⟨"/db", [⟨"alice", ∅⟩, ⟨"bob", .ofList [.read, .write]⟩]⟩) := rfl

end Custodian

end Strongroom
