import Strongroom.Proofs.Runs

/-! The access list under a key is the sum of what was granted there. Along every run there is one
wherever there is a credential, and what it says of an actor follows from the call that created the
credential and from the settings and removals since, and from nothing else. -/

namespace Strongroom

namespace OperationSet

variable (s t u : OperationSet) (op : Operation)

@[simp]
theorem contains_empty : (∅ : OperationSet).contains op = false := contains_ofPredicate _ op

@[simp]
theorem contains_union : (s.union t).contains op = (s.contains op || t.contains op) :=
  contains_ofPredicate _ op

theorem union_assoc : (s.union t).union u = s.union (t.union u) :=
  ext fun op => by simp [Bool.or_assoc]

@[simp]
theorem union_empty : s.union ∅ = s := ext fun op => by simp

@[simp]
theorem empty_union : union ∅ s = s := ext fun op => by simp

end OperationSet

namespace Permission

def united (entries : List Permission) (actor : String) : OperationSet :=
  .ofPredicate fun op => entries.any fun p => p.actor = actor && p.operations.contains op

theorem united_cons (p : Permission) (entries : List Permission) (actor : String) :
    united (p :: entries) actor =
      (if p.actor = actor then p.operations else ∅).union (united entries actor) := by
  ext op
  by_cases hactor : p.actor = actor <;> simp [united, hactor]

end Permission

namespace AccessList

theorem mem_permissions {list : AccessList} {p : Permission} :
    p ∈ list.permissions ↔ list.get? p.actor = some p.operations := by
  rw [Dictionary.get?_eq_some_iff, permissions, List.mem_map]
  constructor
  · rintro ⟨pair, hpair, rfl⟩
    exact hpair
  · intro h
    exact ⟨(p.actor, p.operations), h, rfl⟩

theorem mem_actors {list : AccessList} {actor : String} :
    actor ∈ list.permissions.map (·.actor) ↔ (list.get? actor).isSome = true := by
  rw [List.mem_map, Option.isSome_iff_exists]
  constructor
  · rintro ⟨p, hp, rfl⟩
    exact ⟨p.operations, mem_permissions.1 hp⟩
  · rintro ⟨operations, h⟩
    exact ⟨⟨actor, operations⟩, mem_permissions.2 h, rfl⟩

variable (list : AccessList) (entries : List Permission) (actor : String)

theorem operationsOf_insert (other : String) (operations : OperationSet) :
    operationsOf (list.insert other operations) actor =
      if other = actor then operations else list.operationsOf actor := by
  rw [operationsOf, Dictionary.get?_insert]
  split <;> rfl

theorem operationsOf_erase (other : String) :
    operationsOf (list.erase other) actor =
      if other = actor then ∅ else list.operationsOf actor := by
  rw [operationsOf, Dictionary.get?_erase]
  split <;> rfl

theorem operationsOf_granting (p : Permission) :
    (list.granting p).operationsOf actor =
      (list.operationsOf actor).union (if p.actor = actor then p.operations else ∅) := by
  rw [granting, operationsOf_insert]
  by_cases hactor : p.actor = actor <;> simp [hactor]

theorem operationsOf_foldl_granting :
    (entries.foldl granting list).operationsOf actor =
      (list.operationsOf actor).union (Permission.united entries actor) := by
  induction entries generalizing list with
  | nil => exact (OperationSet.union_empty _).symm
  | cons p rest ih =>
    rw [List.foldl_cons, ih, operationsOf_granting, OperationSet.union_assoc,
      Permission.united_cons]

theorem ofPermissions_eq_foldl : ofPermissions entries = entries.foldl granting ∅ := by
  rw [ofPermissions, Dictionary.ofListWith, List.foldl_map]
  congr
  funext list p
  rw [granting, operationsOf]
  cases Dictionary.get? list p.actor with
  | none => exact congrArg _ (OperationSet.empty_union _).symm
  | some held => rfl

theorem operationsOf_ofPermissions :
    (ofPermissions entries).operationsOf actor = Permission.united entries actor := by
  rw [ofPermissions_eq_foldl, operationsOf_foldl_granting]
  exact OperationSet.empty_union _

theorem contains_foldl_granting :
    (entries.foldl granting list).contains actor =
      (list.contains actor || entries.any (·.actor = actor)) := by
  induction entries generalizing list with
  | nil => simp
  | cons p rest ih =>
    rw [List.foldl_cons, ih, List.any_cons, granting, Dictionary.contains, Dictionary.contains,
      Dictionary.get?_insert]
    by_cases hactor : p.actor = actor <;> simp [hactor]

theorem contains_ofPermissions :
    (ofPermissions entries).contains actor = entries.any (·.actor = actor) := by
  rw [ofPermissions_eq_foldl, contains_foldl_granting]
  rfl

theorem mem_actors_ofPermissions :
    actor ∈ (ofPermissions entries).permissions.map (·.actor) ↔ actor ∈ entries.map (·.actor) := by
  have hcontains := contains_ofPermissions entries actor
  rw [Dictionary.contains] at hcontains
  rw [mem_actors, hcontains]
  simp

theorem any_ofPermissions (f : String → Bool) :
    (ofPermissions entries).permissions.any (f ·.actor) = entries.any (f ·.actor) := by
  have hany : ∀ ps : List Permission, ps.any (f ·.actor) = (ps.map (·.actor)).any f := fun ps =>
    List.any_map.symm
  rw [hany, hany, Bool.eq_iff_iff, List.any_eq_true, List.any_eq_true]
  simp only [mem_actors_ofPermissions]

theorem get?_foldl_setting_of_ascending {pairs : List (String × OperationSet)}
    (h : Ascending pairs) :
    ((pairs.map fun (other, operations) => (⟨other, operations⟩ : Permission)).foldl setting
      list).get? actor = (Dictionary.lookup actor pairs).or (list.get? actor) := by
  induction pairs generalizing list with
  | nil => rfl
  | cons pair rest ih =>
    obtain ⟨other, operations⟩ := pair
    obtain ⟨hfirst, hrest⟩ := List.pairwise_cons.1 h
    rw [List.map_cons, List.foldl_cons, ih _ hrest, setting, Dictionary.get?_insert,
      Dictionary.lookup]
    by_cases hactor : other = actor
    · subst hactor
      have hlater : Dictionary.lookup other rest = none := by
        cases hfound : Dictionary.lookup other rest with
        | none => rfl
        | some found =>
          exact absurd (hfirst _ (Dictionary.mem_of_lookup_eq_some hfound)) (lt_irrefl _)
      simp [hlater]
    · simp [hactor]

theorem get?_foldl_setting (applied : AccessList) :
    (applied.permissions.foldl setting list).get? actor =
      (applied.get? actor).or (list.get? actor) :=
  get?_foldl_setting_of_ascending list actor applied.ascending

theorem operationsOf_foldl_setting :
    ((ofPermissions entries).permissions.foldl setting list).operationsOf actor =
      if entries.any (·.actor = actor) then Permission.united entries actor
      else list.operationsOf actor := by
  rw [operationsOf, get?_foldl_setting, ← contains_ofPermissions, ← operationsOf_ofPermissions,
    Dictionary.contains, operationsOf]
  cases (ofPermissions entries).get? actor <;> rfl

end AccessList

namespace StoreData

variable {d : StoreData} {key : String} {list : AccessList}
  (f : AccessList → Permission → AccessList)

theorem accessLists_updatingAll_of_get?_eq_some (h : d.accessLists.get? key = some list)
    (permissions : List Permission) :
    (d.updatingAll key f permissions).accessLists.get? key = some (permissions.foldl f list) := by
  induction permissions generalizing d list with
  | nil => exact h
  | cons p rest ih =>
    refine ih (d := d.updating key (f · p)) ?_
    rw [updating, h]
    exact Dictionary.get?_insert_self _ _ _

theorem accessLists_updatingAll_of_get?_eq_none (h : d.accessLists.get? key = none)
    (p : Permission) (permissions : List Permission) :
    (d.updatingAll key f (p :: permissions)).accessLists.get? key =
      some ((p :: permissions).foldl f ∅) := by
  refine accessLists_updatingAll_of_get?_eq_some (d := d.updating key (f · p)) f ?_ permissions
  rw [updating, h]
  exact Dictionary.get?_insert_self _ _ _

end StoreData

namespace Call

def provides (key : String) : Call → Bool
  | .set name _ _ _ | .generate name _ _ _ => Naming.key name = key
  | _ => false

def additional : Call → List Permission
  | .set _ _ permissions _ | .generate _ _ permissions _ => permissions
  | _ => []

def regranted (key actor : String) (operations : OperationSet) : Call → OperationSet
  | .setPermissions name entries =>
    if Naming.key name = key ∧ entries.any (·.actor = actor) then Permission.united entries actor
    else operations
  | .deletePermission name subject =>
    if Naming.key name = key ∧ subject = actor then ∅ else operations
  | _ => operations

variable {call : Call} {name : String} {permissions : List Permission} {overwrite : Bool}

theorem Writes.provides_eq (h : call.Writes name permissions overwrite) (key : String) :
    call.provides key = decide (Naming.key name = key) := by
  cases h <;> rfl

theorem Writes.additional_eq (h : call.Writes name permissions overwrite) :
    call.additional = permissions := by
  cases h <;> rfl

theorem Writes.regranted_eq (h : call.Writes name permissions overwrite) (key actor : String)
    (operations : OperationSet) : call.regranted key actor operations = operations := by
  cases h <;> rfl

theorem not_provides_of_isInquiry (h : call.isInquiry = true) (key : String) :
    call.provides key = false := by
  cases call with
  | set | generate => cases h
  | _ => rfl

theorem regranted_of_isInquiry (h : call.isInquiry = true) (key actor : String)
    (operations : OperationSet) : call.regranted key actor operations = operations := by
  cases call with
  | setPermissions | deletePermission => cases h
  | _ => rfl

end Call

namespace Event

variable (key : String) (e : Event)

def foundList : Option AccessList := e.before.store.data.accessLists.get? key

def leftList : Option AccessList := e.after.store.data.accessLists.get? key

def creates : Bool :=
  match e.answer with
  | .ok _ => e.call.provides key && (e.found key).isNone
  | .error _ => false

def granted (actor : String) : OperationSet :=
  (if e.caller.actor = actor then OperationSet.full else ∅).union
    (Permission.united e.call.additional actor)

def regranted (actor : String) (operations : OperationSet) : OperationSet :=
  match e.answer with
  | .ok _ => e.call.regranted key actor operations
  | .error _ => operations

/-- What an event does to the access list under a key. -/
inductive Listing : Prop
  | created {list : AccessList} (hcreates : e.creates key = true)
    (hleft : (e.left key).isSome = true) (hlist : e.leftList key = some list)
    (hgranted : ∀ actor, list.operationsOf actor = e.granted actor) : Listing
  | regranted (hcreates : e.creates key = false)
    (hleft : (e.left key).isSome = (e.found key).isSome)
    (hlists : ∀ actor, (e.leftList key).map (·.operationsOf actor) =
      (e.foundList key).map fun list => e.regranted key actor (list.operationsOf actor)) : Listing
  | deleted (hleft : e.left key = none) (hlist : e.leftList key = none) : Listing

variable {key e} {answer : Answer}

theorem Listing.of_kept (hcreates : e.creates key = false)
    (hleft : (e.left key).isSome = (e.found key).isSome) (hlist : e.leftList key = e.foundList key)
    (hregranted : ∀ actor operations, e.regranted key actor operations = operations) :
    e.Listing key := by
  refine .regranted hcreates hleft fun actor => ?_
  simp only [hlist, hregranted]

theorem creates_of_answer_eq_ok (key : String) (h : e.answer = .ok answer) :
    e.creates key = (e.call.provides key && (e.found key).isNone) := by
  rw [creates, h]

theorem regranted_of_answer_eq_ok (key : String) (h : e.answer = .ok answer) (actor : String)
    (operations : OperationSet) :
    e.regranted key actor operations = e.call.regranted key actor operations := by
  rw [regranted, h]

theorem not_creates_of_found {name normal : String} {permissions : List Permission}
    {overwrite : Bool} {held : Credential} (hanswer : e.answer = .ok answer)
    (hcall : e.call.Writes name permissions overwrite) (hname : Naming.normalize name = .ok normal)
    (hheld : e.before.store.data.find? normal = some held) : e.creates key = false := by
  rw [creates_of_answer_eq_ok _ hanswer, hcall.provides_eq, ← Naming.key_normalize hname]
  by_cases hkey : Naming.key normal = key
  · subst hkey
    have hfound : e.found (Naming.key normal) = some held := hheld
    simp [hfound]
  · simp [hkey]

theorem listing_of_extended {name : String} {held : Credential} {v : Version}
    (hcreates : e.creates key = false)
    (hregranted : ∀ actor operations, e.regranted key actor operations = operations)
    (hheld : e.before.store.data.find? name = some held)
    (hafter : e.after.store.data =
      e.before.store.data.holding (Naming.key name) (held.extended v)) : e.Listing key := by
  refine .of_kept hcreates ?_ (congrArg (·.accessLists.get? key) hafter) hregranted
  by_cases hkey : Naming.key name = key
  · subst hkey
    have hfound : e.found (Naming.key name) = some held := hheld
    rw [left, hafter, StoreData.get?_holding_self, hfound]
    rfl
  · rw [left, found, hafter, StoreData.get?_holding_of_ne _ _ hkey]

theorem listing_of_created {name normal : String} {permissions : List Permission}
    {overwrite : Bool} {id : FreshId} {v : Version}
    (hlists : (e.foundList key).isSome = (e.found key).isSome) (hanswer : e.answer = .ok answer)
    (hcall : e.call.Writes name permissions overwrite) (hname : Naming.normalize name = .ok normal)
    (habsent : e.before.store.data.find? normal = none)
    (hafter : e.after.store.data =
      (e.before.store.data.holding (Naming.key normal) ⟨id, normal, v, []⟩).updatingAll
        (Naming.key normal) AccessList.granting (⟨e.caller.actor, .full⟩ :: permissions)) :
    e.Listing key := by
  have hcreates := creates_of_answer_eq_ok key hanswer
  rw [hcall.provides_eq, ← Naming.key_normalize hname] at hcreates
  have hregranted := regranted_of_answer_eq_ok key hanswer
  simp only [hcall.regranted_eq] at hregranted
  by_cases hkey : Naming.key normal = key
  · subst hkey
    have hfound : e.found (Naming.key normal) = none := habsent
    rw [hfound, Option.isSome_none, Option.isSome_eq_false_iff, Option.isNone_iff_eq_none] at hlists
    have hlist : e.leftList (Naming.key normal) =
        some ((⟨e.caller.actor, .full⟩ :: permissions).foldl AccessList.granting ∅) := by
      rw [leftList, hafter]
      exact StoreData.accessLists_updatingAll_of_get?_eq_none
        (d := e.before.store.data.holding _ _) _ hlists _ _
    refine .created (by simp [hcreates, hfound]) ?_ hlist fun actor => ?_
    · rw [left, hafter, StoreData.credentials_updatingAll, StoreData.get?_holding_self]
      rfl
    · rw [AccessList.operationsOf_foldl_granting, Permission.united_cons, granted,
        hcall.additional_eq]
      exact OperationSet.empty_union _
  · refine .of_kept (by simp [hcreates, hkey]) ?_ ?_ hregranted
    · rw [left, hafter, StoreData.credentials_updatingAll, StoreData.get?_holding_of_ne _ _ hkey,
        found]
    · rw [leftList, hafter, StoreData.accessLists_updatingAll_of_ne _ _ _ hkey]
      rfl

theorem listing_of_renewed {names : List String} (hcreates : e.creates key = false)
    (hregranted : ∀ actor operations, e.regranted key actor operations = operations)
    (hgrown : e.before.store.data.GrownAt names e.after.store.data) : e.Listing key := by
  refine .of_kept hcreates ?_ (congrArg (·.get? key) hgrown.accessLists) hregranted
  by_cases hkey : key ∈ names.map Naming.key
  · obtain ⟨name, hname, rfl⟩ := List.mem_map.1 hkey
    obtain ⟨held, v, hheld, hfinal⟩ := hgrown.grown name hname
    have hfound : e.found (Naming.key name) = some held := hheld
    have hleft : e.left (Naming.key name) = some (held.extended v) := hfinal
    rw [hfound, hleft]
    rfl
  · exact congrArg Option.isSome (hgrown.kept key hkey)

theorem listing_of_permissionsSet {name : String} {entries : List Permission} {held : Credential}
    (hlists : (e.foundList key).isSome = (e.found key).isSome) (hanswer : e.answer = .ok answer)
    (hcall : e.call = .setPermissions name entries)
    (hheld : e.before.store.data.find? name = some held)
    (hafter : e.after.store.data =
      e.before.store.data.updatingAll (Naming.key name) AccessList.setting
        (AccessList.ofPermissions entries).permissions) : e.Listing key := by
  have hcreates : e.creates key = false := by
    rw [creates_of_answer_eq_ok _ hanswer, hcall]
    rfl
  have hregranted := regranted_of_answer_eq_ok key hanswer
  simp only [hcall, Call.regranted] at hregranted
  have hleft : e.left key = e.found key := by
    rw [left, hafter, StoreData.credentials_updatingAll, found]
  by_cases hkey : Naming.key name = key
  · subst hkey
    have hfound : e.found (Naming.key name) = some held := hheld
    rw [hfound, Option.isSome_some, Option.isSome_iff_exists] at hlists
    obtain ⟨list, hlist⟩ := hlists
    refine .regranted hcreates (by rw [hleft]) fun actor => ?_
    rw [leftList, hafter, StoreData.accessLists_updatingAll_of_get?_eq_some _ hlist, hlist,
      Option.map_some, Option.map_some, AccessList.operationsOf_foldl_setting, hregranted]
    simp only [true_and]
  · refine .of_kept hcreates (by rw [hleft]) ?_ fun actor operations => ?_
    · rw [leftList, hafter, StoreData.accessLists_updatingAll_of_ne _ _ _ hkey, foundList]
    · rw [hregranted, if_neg fun h => hkey h.1]

theorem listing_of_permissionDeleted {name subject : String} {list : AccessList}
    (hanswer : e.answer = .ok answer) (hcall : e.call = .deletePermission name subject)
    (hlist : e.before.store.data.accessList? name = some list)
    (hafter : e.after.store.data = { e.before.store.data with
      accessLists :=
        e.before.store.data.accessLists.insert (Naming.key name) (list.erase subject) }) :
    e.Listing key := by
  have hcreates : e.creates key = false := by
    rw [creates_of_answer_eq_ok _ hanswer, hcall]
    rfl
  have hregranted := regranted_of_answer_eq_ok key hanswer
  simp only [hcall, Call.regranted] at hregranted
  have hleft : e.left key = e.found key := congrArg (·.credentials.get? key) hafter
  by_cases hkey : Naming.key name = key
  · subst hkey
    have hfound : e.foundList (Naming.key name) = some list := hlist
    refine .regranted hcreates (by rw [hleft]) fun actor => ?_
    rw [leftList, hafter, Dictionary.get?_insert_self, hfound, Option.map_some, Option.map_some,
      AccessList.operationsOf_erase, hregranted]
    simp only [true_and]
  · refine .of_kept hcreates (by rw [hleft]) ?_ fun actor operations => ?_
    · rw [leftList, hafter, Dictionary.get?_insert_of_ne _ _ hkey, foundList]
    · rw [hregranted, if_neg fun h => hkey h.1]

theorem listing_of_deleted {name : String} (hanswer : e.answer = .ok answer)
    (hcall : e.call = .delete name)
    (hafter : e.after.store.data =
      ⟨e.before.store.data.credentials.erase (Naming.key name),
        e.before.store.data.accessLists.erase (Naming.key name)⟩) : e.Listing key := by
  by_cases hkey : Naming.key name = key
  · refine .deleted ?_ ?_
    · rw [left, hafter, hkey, Dictionary.get?_erase_self]
    · rw [leftList, hafter, hkey, Dictionary.get?_erase_self]
  · refine .of_kept ?_ ?_ ?_ fun actor operations => ?_
    · rw [creates_of_answer_eq_ok _ hanswer, hcall]
      rfl
    · rw [left, hafter, Dictionary.get?_erase_of_ne _ hkey, found]
    · rw [leftList, hafter, Dictionary.get?_erase_of_ne _ hkey, foundList]
    · rw [regranted_of_answer_eq_ok _ hanswer, hcall]
      rfl

theorem listing_of_effect {d' : StoreData} (hanswer : e.answer = .ok answer)
    (hlists : (e.foundList key).isSome = (e.found key).isSome)
    (hafter : e.after.store.data = d')
    (h : e.before.Effect e.caller.actor e.occasion e.call answer d') : e.Listing key := by
  have hcreates := creates_of_answer_eq_ok key hanswer
  have hregranted := regranted_of_answer_eq_ok key hanswer
  obtain ⟨⟨caller, occasion, call⟩, c⟩ := e
  dsimp only at *
  cases h with
  | looked hcall =>
    simp only [Call.regranted_of_isInquiry hcall] at hregranted
    rw [Call.not_provides_of_isInquiry hcall] at hcreates
    exact .of_kept hcreates (congrArg (fun d => (d.credentials.get? key).isSome) hafter)
      (congrArg (·.accessLists.get? key) hafter) hregranted
  | kept hcall hname hheld =>
    simp only [hcall.regranted_eq] at hregranted
    exact .of_kept (not_creates_of_found hanswer hcall hname hheld)
      (congrArg (fun d => (d.credentials.get? key).isSome) hafter)
      (congrArg (·.accessLists.get? key) hafter) hregranted
  | appended hcall hname hheld =>
    simp only [hcall.regranted_eq] at hregranted
    exact listing_of_extended (not_creates_of_found hanswer hcall hname hheld) hregranted hheld
      hafter
  | created id hcall hname habsent =>
    exact listing_of_created hlists hanswer hcall hname habsent hafter
  | regenerated hheld => exact listing_of_extended hcreates hregranted hheld hafter
  | renewed hplan hall =>
    obtain ⟨_, _, -, -, -, hnames, -⟩ := Renewal.planned_eq_ok.1 hplan
    have hdistinct := (SigningGraph.descendants_eq_ok hnames).2.1
    rw [← hafter] at hall
    exact listing_of_renewed hcreates hregranted (hall.grownAt hdistinct)
  | deleted => exact listing_of_deleted hanswer rfl hafter
  | permissionsSet _ hheld => exact listing_of_permissionsSet hlists hanswer rfl hheld hafter
  | permissionDeleted _ hlist => exact listing_of_permissionDeleted hanswer rfl hlist hafter

theorem listing_of_sound (hsound : e.before.store.data.Sound)
    (hlists : (e.foundList key).isSome = (e.found key).isSome) : e.Listing key := by
  cases hanswer : e.answer with
  | error fault =>
    have hdata : e.after.store.data = e.before.store.data :=
      Custodian.data_perform_of_error hanswer
    refine .of_kept ?_ ?_ ?_ fun actor operations => ?_
    · rw [creates, hanswer]
    · rw [left, hdata, found]
    · rw [leftList, hdata, foundList]
    · rw [regranted, hanswer]
  | ok answer =>
    exact listing_of_effect hanswer hlists rfl (Custodian.effect_of_perform hsound hanswer)

end Event

/-- The access list says of every actor what comes of the last creation of what is under the key,
and of the settings and removals since. -/
def GrantedBy (key : String) (events : List Event) (list : AccessList) : Prop :=
  ∃ earlier creation later, events = earlier ++ creation :: later ∧ creation.creates key = true ∧
    (∀ e ∈ later, e.creates key = false) ∧
    ∀ actor, list.operationsOf actor =
      later.foldl (fun operations e => e.regranted key actor operations) (creation.granted actor)

theorem GrantedBy.concat {key : String} {events : List Event} {list list' : AccessList} {e : Event}
    (h : GrantedBy key events list) (hcreates : e.creates key = false)
    (hlist : ∀ actor, list'.operationsOf actor = e.regranted key actor (list.operationsOf actor)) :
    GrantedBy key (events ++ [e]) list' := by
  obtain ⟨earlier, creation, later, rfl, hcreation, hlater, hgranted⟩ := h
  refine ⟨earlier, creation, later ++ [e], ?_, hcreation, ?_, fun actor => ?_⟩
  · rw [List.append_assoc, List.cons_append]
  · intro other hother
    rcases List.mem_append.1 hother with hother | hother
    · exact hlater other hother
    · exact List.mem_singleton.1 hother ▸ hcreates
  · rw [hlist, hgranted, List.foldl_concat]

/-- There is an access list under the key if there is a credential, and the events have granted what
it says. -/
structure GrantsRecorded (key : String) (events : List Event) (d : StoreData) : Prop where
  stored : (d.accessLists.get? key).isSome = (d.credentials.get? key).isSome
  recorded : ∀ list, d.accessLists.get? key = some list → GrantedBy key events list

theorem GrantsRecorded.concat {key : String} {events : List Event} {e : Event}
    (h : GrantsRecorded key events e.before.store.data) (hstep : e.Listing key) :
    GrantsRecorded key (events ++ [e]) e.after.store.data := by
  cases hstep with
  | @created list hcreates hleft hlist hgranted =>
    refine ⟨?_, fun list' hlist' => ?_⟩
    · exact (congrArg Option.isSome hlist).trans hleft.symm
    · cases hlist.symm.trans hlist'
      exact ⟨events, e, [], rfl, hcreates, by simp, hgranted⟩
  | regranted hcreates hleft hlists =>
    have hstored := congrArg Option.isSome (hlists e.caller.actor)
    rw [Option.isSome_map, Option.isSome_map] at hstored
    refine ⟨hstored.trans (h.stored.trans hleft.symm), fun list' hlist' => ?_⟩
    have hleftList : e.leftList key = some list' := hlist'
    rw [hleftList] at hlists hstored
    obtain ⟨list, hfound⟩ := Option.isSome_iff_exists.1 hstored.symm
    rw [hfound] at hlists
    exact (h.recorded list hfound).concat hcreates fun actor => Option.some.inj (hlists actor)
  | deleted hleft hlist =>
    refine ⟨?_, fun list hlist' => ?_⟩
    · exact (congrArg Option.isSome hlist).trans (congrArg Option.isSome hleft).symm
    · cases hlist.symm.trans hlist'

theorem Custodian.events_grantsRecorded (config : Config) (issuer : Issuer) (turns : List Turn)
    (key : String) :
    GrantsRecorded key ((empty config issuer).events turns)
      ((empty config issuer).afterAll turns).store.data := by
  induction turns using List.reverseRecOn with
  | nil => exact ⟨rfl, fun _ hlist => by cases hlist⟩
  | append_singleton turns turn ih =>
    have hsound := (reachable_afterAll turns config issuer).sound
    rw [events_concat, afterAll_concat]
    exact ih.concat (Event.listing_of_sound hsound ih.stored)

end Strongroom
