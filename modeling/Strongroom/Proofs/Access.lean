import Strongroom.Proofs.Data
import Strongroom.Access.Administration

/-! What a requirement of access comes to on given data, and what grants and settings leave of the
access lists. -/

namespace Strongroom.AccessPolicy

variable {p : AccessPolicy} {d : StoreData} {actor name : String} {op : Operation}

theorem permits_iff :
    p.permits d name actor op = true ↔
      d.contains name = true ∧
        (p.enforced = true → (d.operationsFor name actor).contains op = true) := by
  unfold permits
  cases d.contains name <;> cases p.enforced <;> simp

def required (p : AccessPolicy) (d : StoreData) (actor name : String)
    (operations : List Operation) : Except Fault String :=
  match p.authorize d name actor operations with
  | .ok c => .ok c.name
  | .error cause => .error (.notFound cause)

@[simp]
theorem runOn_requireAny (operations : List Operation) (now : Time.Instant)
    (ps : List AuditParameters) :
    (p.requireAny actor name operations).runOn d now ps =
      (p.required d actor name operations, ps) := by
  rw [requireAny, Inquiry.runOn_bind, Inquiry.runOn_data, required]
  dsimp only
  cases p.authorize d name actor operations <;> rfl

@[simp]
theorem runOn_require (now : Time.Instant) (ps : List AuditParameters) :
    (p.require actor name op).runOn d now ps = (p.required d actor name [op], ps) :=
  runOn_requireAny [op] now ps

theorem required_any_eq_ok {operations : List Operation} {stored : String} :
    p.required d actor name operations = .ok stored ↔
      ∃ c, d.find? name = some c ∧ operations.any (p.permits d name actor) = true ∧
        c.name = stored := by
  unfold required authorize
  cases d.find? name with
  | none => simp
  | some c =>
    generalize operations.any (p.permits d name actor) = permitted
    cases permitted <;> simp

theorem required_eq_ok {stored : String} :
    p.required d actor name [op] = .ok stored ↔
      ∃ c, d.find? name = some c ∧ p.permits d name actor op = true ∧ c.name = stored := by
  rw [required_any_eq_ok, List.any_cons, List.any_nil, Bool.or_false]

theorem required_of_permits {c : Credential} (hc : d.find? name = some c)
    (h : p.permits d name actor op = true) : p.required d actor name [op] = .ok c.name :=
  required_eq_ok.2 ⟨c, hc, h, rfl⟩

theorem required_of_not_permits (h : p.permits d name actor op = false) :
    ∃ cause, p.required d actor name [op] = .error (.notFound cause) := by
  unfold required authorize
  cases d.find? name with
  | none => exact ⟨_, rfl⟩
  | some c => simp [h]

theorem required_congr {d d' : StoreData} (hfind : d.find? name = d'.find? name)
    (hlist : d.accessList? name = d'.accessList? name) (operations : List Operation) :
    p.required d actor name operations = p.required d' actor name operations := by
  have hpermits : p.permits d name actor = p.permits d' name actor := by
    funext op
    rw [permits, permits, StoreData.contains, StoreData.contains, hfind, StoreData.operationsFor,
      StoreData.operationsFor, hlist]
  rw [required, required, authorize, authorize, hfind, hpermits]

theorem runOn_listPermissions (now : Time.Instant) (ps : List AuditParameters) :
    ((p.listPermissions actor name).runOn d now ps).1 =
      (p.required d actor name [.readAcl, .read]).map fun stored =>
        ⟨stored, d.permissionsOn stored⟩ := by
  rw [listPermissions, Inquiry.runOn_collect_bind, Inquiry.runOn_bind, runOn_requireAny]
  cases p.required d actor name [.readAcl, .read] with
  | error fault => rfl
  | ok stored =>
    have hlist : d.permissionsOn stored =
        ((d.accessList? stored).map AccessList.permissions).getD [] := by
      unfold StoreData.permissionsOn
      cases d.accessList? stored <;> rfl
    rw [Except.map, hlist]
    rfl

theorem runIn_require (t : Transaction) :
    (liftM (p.require actor name op) : Work String).runIn t =
      (p.required t.data actor name [op], t) := by
  rw [Work.runIn_inquiry, runOn_require]

theorem runIn_require_bind_of_error {α : Type} {t : Transaction} {fault : Fault}
    (h : p.required t.data actor name [op] = .error fault) (f : String → Work α) :
    ((liftM (p.require actor name op) : Work String) >>= f).runIn t = (.error fault, t) := by
  refine Work.runIn_bind_of_eq_error ?_
  rw [runIn_require, h]

theorem runIn_require_bind_of_ok {α : Type} {t : Transaction} {stored : String}
    (h : p.required t.data actor name [op] = .ok stored) (f : String → Work α) :
    ((liftM (p.require actor name op) : Work String) >>= f).runIn t = (f stored).runIn t := by
  refine Work.runIn_bind_of_eq_ok ?_
  rw [runIn_require, h]

theorem runIn_require_bind_eq_ok {α : Type} {f : String → Work α} {a : α} {t t' : Transaction} :
    ((liftM (p.require actor name op) : Work String) >>= f).runIn t = (.ok a, t') ↔
      ∃ c, t.data.find? name = some c ∧ p.permits t.data name actor op = true ∧
        (f c.name).runIn t = (.ok a, t') := by
  rw [Work.runIn_bind_eq_ok]
  constructor
  · rintro ⟨stored, t₁, hrequire, h⟩
    rw [runIn_require] at hrequire
    obtain ⟨hrequired, rfl⟩ := Prod.mk.inj hrequire
    obtain ⟨c, hc, hpermits, rfl⟩ := required_eq_ok.1 hrequired
    exact ⟨c, hc, hpermits, h⟩
  · rintro ⟨c, hc, hpermits, h⟩
    refine ⟨c.name, t, ?_, h⟩
    rw [runIn_require, required_of_permits hc hpermits]

end Strongroom.AccessPolicy

namespace Strongroom

theorem Work.runIn_forM_ofStep {α : Type} (f : α → Transaction → Transaction) (xs : List α)
    (t : Transaction) :
    (xs.forM fun x => ofStep fun t => ((), f x t)).runIn t =
      (.ok (), xs.foldl (fun t x => f x t) t) := by
  induction xs generalizing t with
  | nil => rfl
  | cons x rest ih =>
    rw [List.forM, runIn_bind]
    exact ih (f x t)

namespace Transaction

theorem data_foldl_updateOperations (g : Permission → OperationSet → OperationSet) (name : String)
    (permissions : List Permission) (t : Transaction) :
    (permissions.foldl (fun t p => t.updateOperations name p.actor (g p)) t).data =
      t.data.updatingAll (Naming.key name)
        (fun list p => list.insert p.actor (g p (list.operationsOf p.actor))) permissions := by
  induction permissions generalizing t with
  | nil => rfl
  | cons p rest ih => exact ih (t.updateOperations name p.actor (g p))

theorem data_of_removeActor_eq_true {t : Transaction} {name actor : String}
    (h : (t.removeActor name actor).1 = true) :
    ∃ list, t.data.accessList? name = some list ∧ list.contains actor = true ∧
      (t.removeActor name actor).2.data = { t.data with
        accessLists := t.data.accessLists.insert (Naming.key name) (list.erase actor) } := by
  cases hlist : t.data.accessList? name with
  | none =>
    rw [removeActor_of_accessList?_eq_none hlist] at h
    cases h
  | some list =>
    rw [removeActor_of_accessList?_eq_some hlist] at h ⊢
    exact ⟨list, rfl, h, rfl⟩

end Transaction

namespace AccessPolicy

theorem runIn_grantOnCreate (name creator : String) (entries : List Permission)
    (t : Transaction) :
    (grantOnCreate name creator entries).runIn t =
      (.ok (), (⟨creator, .full⟩ :: entries).foldl
        (fun t (p : Permission) => t.mergeOperations name p.actor p.operations) t) := by
  rw [grantOnCreate, Work.runIn_bind]
  exact Work.runIn_forM_ofStep (fun p t => t.mergeOperations name p.actor p.operations) entries _

theorem data_of_grantOnCreate {name creator : String} {entries : List Permission}
    {t t' : Transaction} (h : (grantOnCreate name creator entries).runIn t = (.ok (), t')) :
    t'.data = t.data.updatingAll (Naming.key name) AccessList.granting
      (⟨creator, .full⟩ :: entries) := by
  rw [runIn_grantOnCreate] at h
  cases h
  exact Transaction.data_foldl_updateOperations (fun p held => held.union p.operations) name _ t

theorem data_of_replaceOperations {name : String} {entries : List Permission}
    {t t' : Transaction}
    (h : (entries.forM fun p => Work.replaceOperations name p.actor p.operations).runIn t =
      (.ok (), t')) :
    t'.data = t.data.updatingAll (Naming.key name) AccessList.setting entries := by
  have hrun := Work.runIn_forM_ofStep
    (fun (p : Permission) t => t.replaceOperations name p.actor p.operations) entries t
  cases hrun.symm.trans h
  exact Transaction.data_foldl_updateOperations (fun p _ => p.operations) name entries t

theorem data_of_setPermissions {p : AccessPolicy} {actor name : String} {entries : List Permission}
    {view : PermissionsView} {t t' : Transaction}
    (h : (p.setPermissions actor name entries).runIn t = (.ok view, t')) :
    (AccessList.ofPermissions entries).permissions.any (isBlank ·.actor) = false ∧
      ∃ held, t.data.find? name = some held ∧ p.permits t.data name actor .writeAcl = true ∧
        view = ⟨held.name, (AccessList.ofPermissions entries).permissions⟩ ∧
        t'.data = t.data.updatingAll (Naming.key held.name) AccessList.setting
          (AccessList.ofPermissions entries).permissions := by
  rw [setPermissions, Work.runIn_collect_bind] at h
  split at h
  · cases h
  · rename_i hactors
    obtain ⟨held, hheld, hpermits, h⟩ := runIn_require_bind_eq_ok.1 h
    rw [Work.runIn_resolveName_bind] at h
    obtain ⟨_, t₁, hset, h⟩ := Work.runIn_bind_eq_ok.1 h
    cases h
    have hdata := data_of_replaceOperations hset
    exact ⟨Bool.eq_false_iff.2 hactors, held, hheld, hpermits, rfl, hdata⟩

theorem exists_setPermissions {p : AccessPolicy} {actor name : String} {entries : List Permission}
    {t : Transaction} {held : Credential}
    (hactors : (AccessList.ofPermissions entries).permissions.any (isBlank ·.actor) = false)
    (hheld : t.data.find? name = some held)
    (hpermits : p.permits t.data name actor .writeAcl = true) :
    ∃ view t', (p.setPermissions actor name entries).runIn t = (.ok view, t') := by
  have hset : ∀ s, ((AccessList.ofPermissions entries).permissions.forM fun q =>
      Work.replaceOperations held.name q.actor q.operations).runIn s = (.ok (), _) :=
    Work.runIn_forM_ofStep
      (fun (q : Permission) t => t.replaceOperations held.name q.actor q.operations) _
  rw [setPermissions, Work.runIn_collect_bind, hactors, if_neg (by simp)]
  exact ⟨_, _, runIn_require_bind_eq_ok.2 ⟨held, hheld, hpermits,
    (Work.runIn_resolveName_bind _ _ _).trans (Work.runIn_bind_eq_ok.2 ⟨(), _, hset _, rfl⟩)⟩⟩

end AccessPolicy

end Strongroom
