import Strongroom.Proofs.Grants
import Strongroom.Proofs.Reading
import Strongroom.Proofs.Trail

/-! Which calls leave records. Whatever a custodian does for a call comes to a sequence of steps, in
which nothing that has been collected is lost, so that a call leaves a record if it begins by
collecting something. All calls do but one: a setting of permissions collects nothing if it names
nobody. -/

namespace Strongroom

namespace Inquiry

variable {α β : Type}

def IsOrderly (q : Inquiry α) : Prop :=
  ∀ d now ps, ∃ notes : List Note, (q.runOn d now ps).2 = notes.foldl Note.apply ps

namespace IsOrderly

theorem pure (a : α) : IsOrderly (Pure.pure a) := fun _ _ _ => ⟨[], rfl⟩

theorem throw (fault : Fault) : IsOrderly (MonadExcept.throw fault : Inquiry α) :=
  fun _ _ _ => ⟨[], rfl⟩

theorem lift (x : Except Fault α) : IsOrderly (liftM x) := fun _ _ _ => ⟨[], rfl⟩

theorem data : IsOrderly Inquiry.data := fun _ _ _ => ⟨[], rfl⟩

theorem collect (parameters : List AuditParameters) : IsOrderly (Inquiry.collect parameters) :=
  fun _ _ _ => ⟨[.collect parameters], rfl⟩

theorem resolveName (name : String) : IsOrderly (Inquiry.resolveName name) :=
  fun _ _ ps => ⟨_, Note.map_eq_foldl_apply _ ps⟩

theorem resolveFor (actor name : String) : IsOrderly (Inquiry.resolveFor actor name) :=
  fun _ _ ps => ⟨_, Note.map_eq_foldl_apply _ ps⟩

theorem bind {q : Inquiry α} {f : α → Inquiry β} (hq : q.IsOrderly) (hf : ∀ a, (f a).IsOrderly) :
    (q >>= f).IsOrderly := by
  intro d now ps
  obtain ⟨notes, hnotes⟩ := hq d now ps
  rw [runOn_bind]
  rcases hrun : q.runOn d now ps with ⟨fault | a, collected⟩ <;> rw [hrun] at hnotes
  · exact ⟨notes, hnotes⟩
  · obtain ⟨later, hlater⟩ := hf a d now collected
    refine ⟨notes ++ later, hlater.trans ?_⟩
    rw [List.foldl_append, ← hnotes]

end IsOrderly

theorem IsOrderly.ne_nil {q : Inquiry α} (hq : q.IsOrderly) (d : StoreData) (now : Time.Instant)
    {ps : List AuditParameters} (hps : ps ≠ []) : (q.runOn d now ps).2 ≠ [] := by
  obtain ⟨notes, hnotes⟩ := hq d now ps
  rw [hnotes]
  exact Note.foldl_apply_ne_nil notes hps

end Inquiry

namespace Work

variable {α β : Type}

def IsOrderly (w : Work α) : Prop := ∀ t, ∃ steps, (w.runIn t).2 = t.actAll steps

namespace IsOrderly

theorem pure (a : α) : IsOrderly (Pure.pure a) := fun _ => ⟨[], rfl⟩

theorem throw (fault : Fault) : IsOrderly (MonadExcept.throw fault : Work α) := fun _ => ⟨[], rfl⟩

theorem lift (x : Except Fault α) : IsOrderly (liftM x) := fun _ => ⟨[], rfl⟩

theorem now : IsOrderly Work.now := fun _ => ⟨[], rfl⟩

theorem draw : IsOrderly Work.draw := fun _ => ⟨[.draw], rfl⟩

theorem put (name : String) (value : CredentialValue) : IsOrderly (Work.put name value) :=
  fun _ => ⟨[.put name value], rfl⟩

theorem remove (name : String) : IsOrderly (Work.remove name) :=
  fun _ => ⟨[.remove name], rfl⟩

theorem replaceOperations (name actor : String) (operations : OperationSet) :
    IsOrderly (Work.replaceOperations name actor operations) :=
  fun _ => ⟨[.replaceOperations name actor operations], rfl⟩

theorem mergeOperations (name actor : String) (operations : OperationSet) :
    IsOrderly (Work.mergeOperations name actor operations) :=
  fun _ => ⟨[.mergeOperations name actor operations], rfl⟩

theorem removeActor (name actor : String) : IsOrderly (Work.removeActor name actor) :=
  fun _ => ⟨[.removeActor name actor], rfl⟩

theorem inquiry {q : Inquiry α} (hq : q.IsOrderly) : IsOrderly (liftM q : Work α) := by
  intro t
  obtain ⟨notes, hnotes⟩ := hq t.data t.now t.parameters
  refine ⟨notes.map .note, ?_⟩
  rw [runIn_inquiry, hnotes, Transaction.actAll_map_note]

theorem bind {w : Work α} {f : α → Work β} (hw : w.IsOrderly) (hf : ∀ a, (f a).IsOrderly) :
    (w >>= f).IsOrderly := by
  intro t
  obtain ⟨steps, hsteps⟩ := hw t
  rw [runIn_bind]
  rcases hrun : w.runIn t with ⟨fault | a, t'⟩ <;> rw [hrun] at hsteps
  · exact ⟨steps, hsteps⟩
  · obtain ⟨later, hlater⟩ := hf a t'
    refine ⟨steps ++ later, hlater.trans ?_⟩
    rw [Transaction.actAll_append, ← hsteps]

theorem ite {p : Prop} [Decidable p] {v w : Work α} (hv : v.IsOrderly) (hw : w.IsOrderly) :
    IsOrderly (if p then v else w) := by
  split
  · exact hv
  · exact hw

theorem forM {xs : List α} {f : α → Work PUnit} (hf : ∀ x, (f x).IsOrderly) :
    IsOrderly (xs.forM f) := by
  induction xs with
  | nil => exact pure PUnit.unit
  | cons x rest ih => exact (hf x).bind fun _ => ih

end IsOrderly

theorem IsOrderly.ne_nil {w : Work α} (hw : w.IsOrderly) {t : Transaction}
    (ht : t.parameters ≠ []) : (w.runIn t).2.parameters ≠ [] := by
  obtain ⟨steps, hsteps⟩ := hw t
  rw [hsteps, Transaction.parameters_actAll]
  exact Note.foldl_apply_ne_nil _ ht

end Work

namespace Inquiry

variable {α β : Type}

structure Collects (q : Inquiry α) : Prop where
  orderly : q.IsOrderly
  ne_nil : ∀ d now ps, (q.runOn d now ps).2 ≠ []

namespace Collects

theorem collect {parameters : List AuditParameters} (h : parameters ≠ []) :
    Collects (Inquiry.collect parameters) where
  orderly := .collect parameters
  ne_nil _ _ _ hnone := h (List.append_eq_nil_iff.1 hnone).2

theorem bind {q : Inquiry α} {f : α → Inquiry β} (hq : q.Collects) (hf : ∀ a, (f a).IsOrderly) :
    (q >>= f).Collects where
  orderly := hq.orderly.bind hf
  ne_nil d now ps := by
    have hsome := hq.ne_nil d now ps
    rw [runOn_bind]
    rcases hrun : q.runOn d now ps with ⟨fault | a, collected⟩ <;> rw [hrun] at hsome
    · exact hsome
    · exact (hf a).ne_nil d now hsome

theorem map {q : Inquiry α} (g : α → β) (hq : q.Collects) : (g <$> q).Collects := by
  rw [map_eq_pure_bind]
  exact hq.bind fun a => .pure (g a)

end Collects

end Inquiry

namespace Work

variable {α β : Type}

structure Collects (w : Work α) : Prop where
  orderly : w.IsOrderly
  ne_nil : ∀ t, (w.runIn t).2.parameters ≠ []

namespace Collects

theorem inquiry {q : Inquiry α} (hq : q.Collects) : Collects (liftM q : Work α) where
  orderly := .inquiry hq.orderly
  ne_nil t := by
    rw [runIn_inquiry]
    exact hq.ne_nil _ _ _

theorem collect {parameters : List AuditParameters} (h : parameters ≠ []) :
    Collects (liftM (Inquiry.collect parameters) : Work Unit) := .inquiry (.collect h)

theorem bind {w : Work α} {f : α → Work β} (hw : w.Collects) (hf : ∀ a, (f a).IsOrderly) :
    (w >>= f).Collects where
  orderly := hw.orderly.bind hf
  ne_nil t := by
    have hsome := hw.ne_nil t
    rw [runIn_bind]
    rcases hrun : w.runIn t with ⟨fault | a, t'⟩ <;> rw [hrun] at hsome
    · exact hsome
    · exact (hf a).ne_nil hsome

theorem data_bind {f : StoreData → Work β} (hf : ∀ d, (f d).Collects) :
    Collects ((liftM Inquiry.data : Work StoreData) >>= f) where
  orderly := IsOrderly.bind (.inquiry .data) fun d => (hf d).orderly
  ne_nil t := (hf t.data).ne_nil t

theorem map {w : Work α} (g : α → β) (hw : w.Collects) : (g <$> w).Collects := by
  rw [← bind_pure_comp]
  exact hw.bind fun a => .pure (g a)

end Collects

end Work

namespace AccessPolicy

variable {p : AccessPolicy} {actor name : String}

theorem isOrderly_requireAny (operations : List Operation) :
    (p.requireAny actor name operations).IsOrderly := by
  intro d now ps
  refine ⟨[], ?_⟩
  rw [runOn_requireAny]
  rfl

theorem collects_listPermissions : (p.listPermissions actor name).Collects := by
  refine .bind (.collect (List.cons_ne_nil _ _)) fun _ => ?_
  refine .bind (isOrderly_requireAny _) fun resolved => .bind (.resolveName resolved) fun _ => ?_
  exact .bind .data fun d => .pure _

theorem isOrderly_grantOnCreate (creator : String) (entries : List Permission) :
    (grantOnCreate name creator entries).IsOrderly :=
  .bind (.mergeOperations _ _ _) fun _ => .forM fun _ => .mergeOperations _ _ _

theorem ofPermissions_ne_nil (code : AuditCode) {entries : List Permission} (h : entries ≠ []) :
    AuditParameters.ofPermissions code name (AccessList.ofPermissions entries).permissions ≠
      [] := by
  obtain ⟨p, rest, rfl⟩ := List.exists_cons_of_ne_nil h
  have hcontains := AccessList.contains_ofPermissions (p :: rest) p.actor
  intro hnone
  rw [AuditParameters.ofPermissions, List.map_eq_nil_iff, AccessList.permissions,
    List.map_eq_nil_iff, Dictionary.toList] at hnone
  rw [Dictionary.contains, Dictionary.get?, hnone] at hcontains
  simp [Dictionary.lookup] at hcontains

theorem collects_setPermissions {entries : List Permission} (h : entries ≠ []) :
    (p.setPermissions actor name entries).Collects := by
  refine .bind (.collect (ofPermissions_ne_nil _ h)) fun _ => .ite (.throw _) ?_
  refine .bind (.inquiry (isOrderly_requireAny _)) fun resolved => ?_
  refine .bind (.inquiry (.resolveName resolved)) fun _ => .bind (.forM fun entry => ?_) fun _ => ?_
  · exact .replaceOperations _ _ _
  · exact .pure _

theorem runIn_setPermissions_nil {t : Transaction} (h : t.parameters = []) :
    (p.setPermissions actor name []).runIn t =
      ((p.required t.data actor name [.writeAcl]).map (⟨·, []⟩), t) := by
  have hnobody : (AccessList.ofPermissions []).permissions = [] := rfl
  have hsame : { t with parameters := t.parameters ++ [] } = t := by rw [List.append_nil]
  rw [setPermissions, hnobody, Work.runIn_collect_bind, AuditParameters.ofPermissions,
    List.map_nil, hsame, List.any_nil, if_neg Bool.false_ne_true]
  cases hrequired : p.required t.data actor name [.writeAcl] with
  | error fault =>
    rw [runIn_require_bind_of_error hrequired]
    rfl
  | ok resolved =>
    rw [runIn_require_bind_of_ok hrequired, Work.runIn_resolveName_bind, h, List.map_nil, ← h]
    rfl

theorem collects_deletePermission (subject : String) :
    (p.deletePermission actor name subject).Collects := by
  refine .data_bind fun d => .bind (.collect (List.cons_ne_nil _ _)) fun _ => ?_
  refine .bind (.inquiry (isOrderly_requireAny _)) fun resolved => ?_
  refine .bind (.inquiry (.resolveName resolved)) fun _ => .bind (.removeActor _ _) fun found => ?_
  exact .ite (.throw _) (.pure _)

end AccessPolicy

namespace Renewal

theorem isOrderly_issueInto (issuer : Issuer) (name : String) (p : CertificateParameters) :
    (issueInto issuer name p).IsOrderly := by
  refine .bind (.inquiry .data) fun d => .bind (.lift _) fun signer => ?_
  exact .bind .now fun now => .bind .draw fun id => .bind (.lift _) fun value => .put _ _

theorem isOrderly_renew (issuer : Issuer) (actor name : String) :
    (renew issuer actor name).IsOrderly := by
  refine .bind (.inquiry .data) fun d => .bind (.lift _) fun p => ?_
  refine .bind (isOrderly_issueInto issuer name p) fun _ => .bind (.inquiry .data) fun d => ?_
  exact .inquiry (.collect _)

theorem collects_plan (policy : AccessPolicy) (actor : String) (signedBy : Option String) :
    (plan policy actor signedBy).Collects := by
  refine .bind (.collect (List.cons_ne_nil _ _)) fun _ => .bind (.lift _) fun given => ?_
  refine .bind (AccessPolicy.isOrderly_requireAny _) fun root => .bind (.resolveFor _ _) fun _ => ?_
  refine .bind .data fun d => .bind (.lift _) fun names => ?_
  split
  · exact .pure names
  · exact .throw _

theorem collects_renewBelow (issuer : Issuer) (policy : AccessPolicy) (actor : String)
    (signedBy : Option String) : (renewBelow issuer policy actor signedBy).Collects := by
  refine .bind (.inquiry (collects_plan policy actor signedBy)) fun names => ?_
  exact .bind (.forM fun name => isOrderly_renew issuer actor name) fun _ => .pure names

end Renewal

namespace Search

theorem collects_matching (policy : AccessPolicy) (actor : String)
    (matches? : Credential → Bool) : (matching policy actor matches?).Collects :=
  .bind (.collect (List.cons_ne_nil _ _)) fun _ => .bind .data fun _ => .pure _

theorem collects_allFolders (policy : AccessPolicy) (actor : String) :
    (allFolders policy actor).Collects :=
  .bind (.collect (List.cons_ne_nil _ _)) fun _ => .bind .data fun _ => .pure _

end Search

namespace Custodian

variable {policy : AccessPolicy} {actor name : String}

theorem isOrderly_latestVersion : (latestVersion name).IsOrderly := by
  refine .bind .data fun d => ?_
  cases d.find? name with
  | none => exact .throw _
  | some c => exact .pure c.latest

theorem collects_access : (access policy actor name).Collects := by
  refine .bind (.collect (List.cons_ne_nil _ _)) fun _ => ?_
  refine .bind (AccessPolicy.isOrderly_requireAny _) fun stored => ?_
  exact .bind (.resolveFor actor stored) fun _ => .pure stored

theorem collects_get : (get policy actor name).Collects :=
  .bind collects_access fun _ => isOrderly_latestVersion

theorem collects_versions : (versions policy actor name).Collects :=
  .bind collects_access fun _ => .bind .data fun _ => .pure _

theorem isOrderly_issueAs (issuer : Issuer) (p : CertificateParameters) (target : String) :
    (issueAs issuer policy actor p target).IsOrderly := by
  refine .bind (.inquiry fun d now ps => ⟨[], ?_⟩) fun pinned =>
    Renewal.isOrderly_issueInto issuer target pinned
  rw [runOn_pinSigner]
  rfl

theorem isOrderly_write (permissions : List Permission) (overwrite : Bool)
    {put : String → Work Unit} (hput : ∀ target, (put target).IsOrderly) :
    (write policy actor name permissions overwrite put).IsOrderly := by
  have hlatest : ∀ target, Work.IsOrderly (liftM (latestVersion target)) :=
    fun _ => .inquiry isOrderly_latestVersion
  refine .bind (.inquiry .data) fun d => .ite ?_ ?_
  · refine .bind (hput name) fun _ => .bind (AccessPolicy.isOrderly_grantOnCreate _ _) fun _ => ?_
    exact .bind (.inquiry (.resolveFor actor name)) fun _ => hlatest name
  · refine .bind (.inquiry (AccessPolicy.isOrderly_requireAny _)) fun stored => .ite ?_ ?_
    · refine .bind (hput stored) fun _ => ?_
      exact .bind (.inquiry (.resolveFor actor stored)) fun _ => hlatest stored
    · exact hlatest stored

theorem collects_set (value : CredentialValue) (permissions : List Permission)
    (overwrite : Bool) : (set policy actor name value permissions overwrite).Collects := by
  refine .bind (.collect (List.cons_ne_nil _ _)) fun _ => .bind (.lift _) fun normal => ?_
  exact isOrderly_write permissions overwrite fun target => .put target value

theorem collects_generate (issuer : Issuer) (defaults : CertificateDefaults)
    (request : CertificateRequest) (permissions : List Permission) (overwrite : Bool) :
    (generate issuer policy defaults actor name request permissions overwrite).Collects := by
  refine .bind (.collect (List.cons_ne_nil _ _)) fun _ => .bind (.lift _) fun normal => ?_
  refine .bind (.lift _) fun p => ?_
  exact isOrderly_write permissions overwrite (isOrderly_issueAs issuer p)

theorem collects_regenerate (issuer : Issuer) (overrides : CertificateRequest) :
    (regenerate issuer policy actor name overrides).Collects := by
  refine .bind (.collect (List.cons_ne_nil _ _)) fun _ => ?_
  refine .bind (.inquiry (AccessPolicy.isOrderly_requireAny _)) fun stored => ?_
  refine .bind (.inquiry (.resolveFor actor stored)) fun _ => .bind (.inquiry .data) fun d => ?_
  cases (d.find? stored).bind (·.latestCertificate?) with
  | none => exact .throw _
  | some v =>
    refine .bind (.lift _) fun p => .bind (isOrderly_issueAs issuer p stored) fun _ => ?_
    exact .inquiry isOrderly_latestVersion

theorem collects_delete : (delete policy actor name).Collects := by
  refine .bind (.collect (List.cons_ne_nil _ _)) fun _ => ?_
  refine .bind (.inquiry (AccessPolicy.isOrderly_requireAny _)) fun stored => ?_
  exact .bind (.inquiry (.resolveFor actor stored)) fun _ => .bind (.remove stored) fun _ => .pure _

/-- The custodian has gained the records, all of them of the caller and of the time, and no other
record of an operation. -/
structure Adds (c c' : Custodian) (caller : Caller) (now : Time.Instant)
    (rs : List OperationRecord) : Prop where
  operations : c'.store.log.operations = c.store.log.operations ++ rs
  identified : ∀ r ∈ rs, r.request = caller.request ∧ r.actor = caller.actor ∧ r.time = now

variable {α : Type} {c : Custodian} {caller : Caller} {occasion : Occasion}

theorem adds_of_logged {c' : Custodian} {status : UInt16} {now : Time.Instant}
    {ps : List AuditParameters} {ending answer : Except Fault α}
    (h : c.store.Logged caller status now ps ending (answer, c'.store)) :
    ∃ rs, c.Adds c' caller now rs ∧ (rs = [] ↔ ps = []) := by
  refine ⟨_, ⟨h.operations, fun r hr => ?_⟩, List.map_eq_nil_iff⟩
  obtain ⟨p, -, rfl⟩ := List.mem_map.1 hr
  exact ⟨rfl, rfl, rfl⟩

theorem adds_audited {status : UInt16} {w : Work α} (hw : w.IsOrderly) :
    ∃ rs, c.Adds (c.audited caller occasion status w).2 caller occasion.now rs ∧
      (rs = [] ↔ (w.runIn (c.store.begin occasion)).2.parameters = []) := by
  obtain ⟨steps, hsteps⟩ := hw (c.store.begin occasion)
  have hparameters := Transaction.parameters_actAll (c.store.begin occasion) steps
  rw [hsteps, hparameters, show (c.store.begin occasion).parameters = [] from rfl,
    Note.foldl_apply_nil]
  exact adds_of_logged (Store.logged_audited (Prod.ext rfl hsteps))

theorem adds_inquire {q : Inquiry α} (hq : q.IsOrderly) :
    ∃ rs, c.Adds (c.inquire caller occasion q).2 caller occasion.now rs ∧
      (rs = [] ↔ (q.runOn c.store.data occasion.now []).2 = []) := by
  obtain ⟨notes, hnotes⟩ := hq c.store.data occasion.now []
  rw [hnotes, Note.foldl_apply_nil]
  exact adds_of_logged (Store.logged_inquire (Prod.ext rfl hnotes))

theorem adds_of_collects {status : UInt16} {w : Work α} (hw : w.Collects) (f : α → Answer) :
    ∃ rs, c.Adds (c.audited caller occasion status (f <$> w)).2 caller occasion.now rs ∧
      rs ≠ [] := by
  obtain ⟨rs, hadds, hnone⟩ := adds_audited (hw.map f).orderly
  exact ⟨rs, hadds, fun h => (hw.map f).ne_nil _ (hnone.1 h)⟩

theorem adds_of_inquiry_collects {q : Inquiry α} (hq : q.Collects) (f : α → Answer) :
    ∃ rs, c.Adds (c.inquire caller occasion (f <$> q)).2 caller occasion.now rs ∧ rs ≠ [] := by
  obtain ⟨rs, hadds, hnone⟩ := adds_inquire (hq.map f).orderly
  exact ⟨rs, hadds, fun h => (hq.map f).ne_nil _ _ _ (hnone.1 h)⟩

theorem adds_setPermissions_nil (name : String) :
    c.Adds (c.perform caller occasion (.setPermissions name [])).2 caller occasion.now [] := by
  let required := c.policy.required c.store.data caller.actor name [.writeAcl]
  have hrun : (c.policy.setPermissions caller.actor name []).runIn (c.store.begin occasion) =
      (required.map (⟨·, []⟩), c.store.begin occasion) :=
    AccessPolicy.runIn_setPermissions_nil rfl
  have hnothing : (Answer.permissions <$> c.policy.setPermissions caller.actor name []).runIn
      (c.store.begin occasion) =
        ((required.map (⟨·, []⟩)).map .permissions, (c.store.begin occasion).actAll []) := by
    rw [Work.runIn_map, hrun]
    rfl
  exact ⟨(Store.logged_audited hnothing).operations, fun r hr => by cases hr⟩

theorem adds_of_ne_setPermissions_nil (call : Call) (h : ∀ name, call ≠ .setPermissions name []) :
    ∃ rs, c.Adds (c.perform caller occasion call).2 caller occasion.now rs ∧ rs ≠ [] := by
  cases call with
  | set name value permissions overwrite =>
    exact adds_of_collects (collects_set value permissions overwrite) _
  | generate name request permissions overwrite =>
    exact adds_of_collects (collects_generate c.issuer _ request permissions overwrite) _
  | regenerate name overrides => exact adds_of_collects (collects_regenerate c.issuer overrides) _
  | renewBelow signedBy =>
    exact adds_of_collects (Renewal.collects_renewBelow c.issuer c.policy _ signedBy) _
  | delete name => exact adds_of_collects collects_delete _
  | get name => exact adds_of_inquiry_collects collects_get _
  | versions name => exact adds_of_inquiry_collects collects_versions _
  | findByName pattern =>
    exact adds_of_inquiry_collects (Search.collects_matching c.policy _ _) _
  | findByPath path => exact adds_of_inquiry_collects (Search.collects_matching c.policy _ _) _
  | findFolders => exact adds_of_inquiry_collects (Search.collects_allFolders c.policy _) _
  | listPermissions name => exact adds_of_inquiry_collects AccessPolicy.collects_listPermissions _
  | setPermissions name entries =>
    have hentries : entries ≠ [] := fun hnil => h name (hnil ▸ rfl)
    exact adds_of_collects (AccessPolicy.collects_setPermissions hentries) _
  | deletePermission name subject =>
    exact adds_of_collects (AccessPolicy.collects_deletePermission subject) _

/-- A call adds records of its caller alone, and none only if it sets permissions for nobody. -/
theorem adds_perform (c : Custodian) (caller : Caller) (occasion : Occasion) (call : Call) :
    ∃ rs, c.Adds (c.perform caller occasion call).2 caller occasion.now rs ∧
      (rs = [] ↔ ∃ name, call = .setPermissions name []) := by
  by_cases hsilent : ∃ name, call = .setPermissions name []
  · obtain ⟨name, rfl⟩ := hsilent
    exact ⟨[], adds_setPermissions_nil name, iff_of_true rfl ⟨name, rfl⟩⟩
  · obtain ⟨rs, hadds, hsome⟩ :=
      adds_of_ne_setPermissions_nil call fun name hname => hsilent ⟨name, hname⟩
    exact ⟨rs, hadds, iff_of_false hsome hsilent⟩

/-- Bob is denied a setting of permissions on what Alice has set, and there is no record of it. -/
theorem unrecorded_denial :
    Reachable {} Issuance.issue (shared []) ∧
      ((shared []).perform ⟨.ofNat 1, "bob"⟩ ⟨1, ⟨1, 0⟩⟩ (.setPermissions "/db" [])).1 =
        .error (.notFound .insufficientPermission) ∧
      ((shared []).perform ⟨.ofNat 1, "bob"⟩ ⟨1, ⟨1, 0⟩⟩
        (.setPermissions "/db" [])).2.store.log.operations = (shared []).store.log.operations :=
  ⟨(reachableOn_shared []).reachable, rfl, rfl⟩

end Custodian

end Strongroom
