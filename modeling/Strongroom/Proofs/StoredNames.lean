import Strongroom.Proofs.Recording
import Strongroom.Proofs.Silence
import Strongroom.Proofs.Spelling

/-! The names in the records of successful calls. A call about one credential begins by collecting
under the name that it was given and corrects that to the stored one as soon as it has found or made
the credential; only a write that leaves what is there as it is ends without the correction. -/

namespace Strongroom

def AuditParameters.AllNamed (name : String) (ps : List AuditParameters) : Prop :=
  ∀ p ∈ ps, p.credentialName = some name

open AuditParameters (AllNamed)

theorem AuditParameters.allNamed_map_resolveName (name : String) (ps : List AuditParameters) :
    AllNamed name (ps.map (·.resolveName name)) := by
  intro p hp
  obtain ⟨q, -, rfl⟩ := List.mem_map.1 hp
  rfl

theorem AuditParameters.allNamed_map_resolveFor (name : String) (allowed : List Operation)
    (ps : List AuditParameters) :
    AllNamed name (ps.map fun p => { p.resolveName name with allowed }) := by
  intro p hp
  obtain ⟨q, -, rfl⟩ := List.mem_map.1 hp
  rfl

namespace Work

variable {α β : Type} {name : String}

def Renames (name : String) (w : Work α) : Prop :=
  ∀ t a t', w.runIn t = (.ok a, t') → AllNamed name t'.parameters

namespace Renames

theorem bind {w : Work α} {f : α → Work β} (hf : ∀ a, (f a).Renames name) :
    (w >>= f).Renames name := by
  intro t b t' h
  obtain ⟨a, between, -, hrest⟩ := runIn_bind_eq_ok.1 h
  exact hf a between b t' hrest

theorem resolveFor_bind {actor : String} {f : Unit → Work β} (hf : (f ()).IsSilent) :
    ((liftM (Inquiry.resolveFor actor name) : Work Unit) >>= f).Renames name := by
  intro t b t' h
  have hsame := hf { t with parameters := t.parameters.map fun p =>
    { p.resolveName name with allowed := (t.data.operationsFor name actor).toList } }
  rw [runIn_resolveFor_bind] at h
  rw [h] at hsame
  rw [hsame]
  exact AuditParameters.allNamed_map_resolveFor name _ _

theorem resolveName_bind {f : Unit → Work β} (hf : (f ()).IsSilent) :
    ((liftM (Inquiry.resolveName name) : Work Unit) >>= f).Renames name := by
  intro t b t' h
  have hsame := hf { t with parameters := t.parameters.map (·.resolveName name) }
  rw [runIn_resolveName_bind] at h
  rw [h] at hsame
  rw [hsame]
  exact AuditParameters.allNamed_map_resolveName name _

end Renames

theorem Renames.of_require {policy : AccessPolicy} {actor : String} {op : Operation}
    {f : String → Work α} (hf : ∀ stored, (f stored).Renames stored) {d : StoreData}
    {t t' : Transaction} {a : α}
    (h : ((liftM (policy.require actor name op) : Work String) >>= f).runIn t = (.ok a, t'))
    (hdata : t.data = d) : ∃ held, d.find? name = some held ∧ AllNamed held.name t'.parameters := by
  obtain ⟨held, hheld, -, hrest⟩ := AccessPolicy.runIn_require_bind_eq_ok.1 h
  exact ⟨held, hdata ▸ hheld, hf held.name t a t' hrest⟩

end Work

namespace Call

def subject? : Call → Option String
  | .set name _ _ _ | .generate name _ _ _ | .regenerate name _ | .delete name | .get name
  | .versions name | .listPermissions name | .setPermissions name _
  | .deletePermission name _ => some name
  | .renewBelow _ | .findByName _ | .findByPath _ | .findFolders => none

/-- Whether the call is to write and yet to leave what is there as it is. -/
def spares : Call → Bool
  | .set _ _ _ overwrite | .generate _ _ _ overwrite => !overwrite
  | _ => false

theorem Writes.name_eq {call : Call} {name other : String} {permissions entries : List Permission}
    {overwrite replace : Bool} (h : call.Writes name permissions overwrite)
    (hother : call.Writes other entries replace) : name = other := by
  cases h <;> cases hother <;> rfl

end Call

namespace Custodian

variable {policy : AccessPolicy} {actor name normal : String} {d : StoreData} {now : Time.Instant}
  {ps ps' : List AuditParameters} {t t' : Transaction}

theorem runOn_access_eq_ok {stored : String}
    (h : (access policy actor name).runOn d now ps = (.ok stored, ps')) :
    ∃ held, d.find? name = some held ∧ held.name = stored ∧ AllNamed stored ps' := by
  rw [access, Inquiry.runOn_collect_bind, Inquiry.runOn_bind, AccessPolicy.runOn_require] at h
  cases hrequired : policy.required d actor name [.read] with
  | error fault =>
    rw [hrequired] at h
    cases h
  | ok resolved =>
    obtain ⟨held, hheld, rfl⟩ := AccessPolicy.find?_of_required_eq_ok hrequired
    rw [hrequired] at h
    cases h
    exact ⟨held, hheld, rfl, AuditParameters.allNamed_map_resolveFor held.name _ _⟩

theorem allNamed_of_access {α : Type} {f : String → Inquiry α} (hf : ∀ stored, (f stored).IsSilent)
    {a : α} (h : (access policy actor name >>= f).runOn d now ps = (.ok a, ps')) :
    ∃ held, d.find? name = some held ∧ AllNamed held.name ps' := by
  rw [Inquiry.runOn_bind] at h
  rcases haccess : (access policy actor name).runOn d now ps with ⟨fault | stored, collected⟩ <;>
    rw [haccess] at h
  · cases h
  · obtain ⟨held, hheld, rfl, hnamed⟩ := runOn_access_eq_ok haccess
    have hsame := hf held.name d now collected
    dsimp only at h
    rw [h] at hsame
    have hsame : ps' = collected := hsame
    exact ⟨held, hheld, hsame ▸ hnamed⟩

theorem allNamed_of_listPermissions {view : PermissionsView}
    (h : (policy.listPermissions actor name).runOn d now ps = (.ok view, ps')) :
    ∃ held, d.find? name = some held ∧ AllNamed held.name ps' := by
  rw [AccessPolicy.listPermissions, Inquiry.runOn_collect_bind, Inquiry.runOn_bind,
    AccessPolicy.runOn_requireAny] at h
  cases hrequired : policy.required d actor name [.readAcl, .read] with
  | error fault =>
    rw [hrequired] at h
    cases h
  | ok stored =>
    obtain ⟨held, hheld, rfl⟩ := AccessPolicy.find?_of_required_eq_ok hrequired
    rw [hrequired] at h
    cases h
    exact ⟨held, hheld, AuditParameters.allNamed_map_resolveName held.name _⟩

theorem allNamed_of_write {permissions : List Permission} {overwrite : Bool}
    {put : String → Work Unit} {v : Version}
    (h : (write policy actor normal permissions overwrite put).runIn t = (.ok v, t')) :
    t.data.find? normal = none ∧ AllNamed normal t'.parameters ∨
      ∃ held, t.data.find? normal = some held ∧
        if overwrite then AllNamed held.name t'.parameters else t'.parameters = t.parameters := by
  have hlatest : ∀ target, Work.IsSilent (liftM (latestVersion target) : Work Version) :=
    fun target => .inquiry (isSilent_latestVersion target)
  rw [write, Work.runIn_data_bind] at h
  cases hheld : t.data.find? normal with
  | none =>
    rw [StoreData.contains, hheld, if_pos (by simp)] at h
    refine .inl ⟨rfl, ?_⟩
    exact Work.Renames.bind (fun _ => .bind fun _ => .resolveFor_bind (hlatest normal)) t v t' h
  | some held =>
    rw [StoreData.contains, hheld, if_neg (by simp)] at h
    obtain ⟨found, hfound, -, h⟩ := AccessPolicy.runIn_require_bind_eq_ok.1 h
    cases hheld.symm.trans hfound
    refine .inr ⟨held, rfl, ?_⟩
    cases overwrite with
    | true => exact Work.Renames.bind (fun _ => .resolveFor_bind (hlatest held.name)) t v t' h
    | false =>
      have hsame := hlatest held.name t
      rw [if_neg Bool.false_ne_true] at h
      rwa [h] at hsame

theorem allNamed_of_regenerate {issuer : Issuer} {overrides : CertificateRequest} {v : Version}
    (h : (regenerate issuer policy actor name overrides).runIn t = (.ok v, t')) :
    ∃ held, t.data.find? name = some held ∧ AllNamed held.name t'.parameters := by
  rw [regenerate, Work.runIn_collect_bind] at h
  refine Work.Renames.of_require (fun stored => .resolveFor_bind ?_) h rfl
  refine .bind (.inquiry .data) fun d => ?_
  cases (d.find? stored).bind (·.latestCertificate?) with
  | none => exact .throw _
  | some latest =>
    refine .bind (.lift _) fun p => .bind (isSilent_issueAs issuer policy actor p stored) ?_
    exact fun _ => .inquiry (isSilent_latestVersion stored)

theorem allNamed_of_delete (h : (delete policy actor name).runIn t = (.ok (), t')) :
    ∃ held, t.data.find? name = some held ∧ AllNamed held.name t'.parameters := by
  rw [delete, Work.runIn_collect_bind] at h
  refine Work.Renames.of_require (fun stored => .resolveFor_bind ?_) h rfl
  exact .bind (.remove stored) fun _ => .pure _

theorem allNamed_of_setPermissions {entries : List Permission} {view : PermissionsView}
    (h : (policy.setPermissions actor name entries).runIn t = (.ok view, t')) :
    ∃ held, t.data.find? name = some held ∧ AllNamed held.name t'.parameters := by
  rw [AccessPolicy.setPermissions, Work.runIn_collect_bind] at h
  split at h
  · cases h
  · refine Work.Renames.of_require (fun stored => .resolveName_bind ?_) h rfl
    exact .bind (.forM fun _ => .replaceOperations _ _ _) fun _ => .pure _

theorem allNamed_of_deletePermission {subject : String}
    (h : (policy.deletePermission actor name subject).runIn t = (.ok (), t')) :
    ∃ held, t.data.find? name = some held ∧ AllNamed held.name t'.parameters := by
  rw [AccessPolicy.deletePermission, Work.runIn_data_bind, Work.runIn_collect_bind] at h
  refine Work.Renames.of_require (fun stored => .resolveName_bind ?_) h rfl
  exact .bind (.removeActor _ _) fun _ => .ite (.throw _) (.pure _)

/-- What a successful call about the name has collected in the end, with what stood there before
it. -/
inductive Noted (call : Call) (name : String) : Option Credential → List AuditParameters → Prop
  | corrected {held : Credential} {ps : List AuditParameters} (hcall : call.spares = false)
    (hps : AllNamed held.name ps) : Noted call name (some held) ps
  | spared {held : Credential} {ps : List AuditParameters} (hcall : call.spares = true)
    (hsome : ps ≠ []) (hps : AllNamed name ps) : Noted call name (some held) ps
  | created {normal : String} {permissions : List Permission} {overwrite : Bool}
    {ps : List AuditParameters} (hcall : call.Writes name permissions overwrite)
    (hname : Naming.normalize name = .ok normal) (hps : AllNamed normal ps) :
    Noted call name none ps

theorem Noted.of_find? {call : Call} (hcall : call.spares = false)
    (h : ∃ held, d.find? name = some held ∧ AllNamed held.name ps) :
    Noted call name (d.find? name) ps := by
  obtain ⟨held, hheld, hps⟩ := h
  rw [hheld]
  exact .corrected hcall hps

theorem Noted.of_write {call : Call} {permissions : List Permission} {overwrite : Bool}
    (hcall : call.Writes name permissions overwrite) (hname : Naming.normalize name = .ok normal)
    {put : String → Work Unit} {v : Version} (hps : AllNamed name t.parameters)
    (hsome : t.parameters ≠ [])
    (h : (write policy actor normal permissions overwrite put).runIn t = (.ok v, t')) :
    Noted call name (t.data.find? name) t'.parameters := by
  have hspares : call.spares = !overwrite := by cases hcall <;> rfl
  rw [← StoreData.find?_eq_of_key_eq (Naming.key_normalize hname)]
  rcases allNamed_of_write h with ⟨hnone, hnamed⟩ | ⟨held, hheld, hnamed⟩
  · rw [hnone]
    exact .created hcall hname hnamed
  · rw [hheld]
    cases overwrite with
    | true => exact .corrected hspares hnamed
    | false =>
      have hsame : t'.parameters = t.parameters := hnamed
      rw [hsame]
      exact .spared hspares hsome hps

variable {c : Custodian} {caller : Caller} {occasion : Occasion} {answer : Answer}

theorem noted_of_audited {α : Type} {status : UInt16} {w : Work α} {f : α → Answer} {call : Call}
    (hbuilt : w.IsBuilt)
    (hnoted : ∀ a t', w.runIn (c.store.begin occasion) = (.ok a, t') →
      Noted call name (c.store.data.find? name) t'.parameters)
    (h : (c.audited caller occasion status (f <$> w)).1 = .ok answer) :
    ∃ ps outcome, (c.audited caller occasion status (f <$> w)).2.store.log.operations =
        c.store.log.operations ++ ps.map (·.record caller outcome occasion.now) ∧
      Noted call name (c.store.data.find? name) ps := by
  obtain ⟨a, t', hrun, rfl, -⟩ := audited_eq_ok h
  have hmapped := Work.runIn_map f w (t := c.store.begin occasion)
  rw [hrun] at hmapped
  exact ⟨_, _, operations_audited (hbuilt.map f) hmapped, hnoted a t' hrun⟩

theorem noted_of_inquire {α : Type} {q : Inquiry α} {f : α → Answer} {call : Call}
    (hnoted : ∀ a ps, q.runOn c.store.data occasion.now [] = (.ok a, ps) →
      Noted call name (c.store.data.find? name) ps)
    (h : (c.inquire caller occasion (f <$> q)).1 = .ok answer) :
    ∃ ps outcome, (c.inquire caller occasion (f <$> q)).2.store.log.operations =
        c.store.log.operations ++ ps.map (·.record caller outcome occasion.now) ∧
      Noted call name (c.store.data.find? name) ps := by
  obtain ⟨a, ha, rfl⟩ := inquire_eq_ok.1 h
  have hrun : q.runOn c.store.data occasion.now [] =
      (.ok a, (q.runOn c.store.data occasion.now []).2) := Prod.ext ha rfl
  have hmapped : ((f <$> q).runOn c.store.data occasion.now []).2 =
      (q.runOn c.store.data occasion.now []).2 := by
    rw [map_eq_pure_bind, Inquiry.runOn_bind, hrun]
    rfl
  have hoperations := operations_inquire c caller occasion (f <$> q)
  rw [hmapped] at hoperations
  exact ⟨_, _, hoperations, hnoted a _ hrun⟩

theorem noted_of_perform {call : Call} (hcall : call.subject? = some name)
    (h : (c.perform caller occasion call).1 = .ok answer) :
    ∃ ps outcome, (c.perform caller occasion call).2.store.log.operations =
        c.store.log.operations ++ ps.map (·.record caller outcome occasion.now) ∧
      Noted call name (c.store.data.find? name) ps := by
  have hone : ∀ code : AuditCode, AllNamed name [{ code, credentialName := some name }] := by
    intro code p hp
    rw [List.mem_singleton.1 hp]
  cases call with
  | set _ value permissions overwrite =>
    cases hcall
    refine noted_of_audited (isBuilt_set c.policy name value permissions overwrite) ?_ h
    intro v t' h
    rw [set, Work.runIn_collect_bind, Work.runIn_lift_bind_eq_ok] at h
    obtain ⟨normal, hname, h⟩ := h
    exact .of_write (.set name value permissions overwrite) hname (hone _) (List.cons_ne_nil _ _) h
  | generate _ request permissions overwrite =>
    cases hcall
    refine noted_of_audited
      (isBuilt_generate c.issuer c.policy _ name request permissions overwrite) ?_ h
    intro v t' h
    rw [generate, Work.runIn_collect_bind, Work.runIn_lift_bind_eq_ok] at h
    obtain ⟨normal, hname, h⟩ := h
    obtain ⟨p, -, h⟩ := Work.runIn_lift_bind_eq_ok.1 h
    exact .of_write (.generate name request permissions overwrite) hname (hone _)
      (List.cons_ne_nil _ _) h
  | regenerate _ overrides =>
    cases hcall
    exact noted_of_audited (isBuilt_regenerate c.issuer c.policy name overrides)
      (fun v t' h => .of_find? rfl (allNamed_of_regenerate h)) h
  | delete _ =>
    cases hcall
    exact noted_of_audited (isBuilt_delete c.policy name)
      (fun _ t' h => .of_find? rfl (allNamed_of_delete h)) h
  | setPermissions _ entries =>
    cases hcall
    exact noted_of_audited (isBuilt_setPermissions c.policy name entries)
      (fun _ t' h => .of_find? rfl (allNamed_of_setPermissions h)) h
  | deletePermission _ subject =>
    cases hcall
    exact noted_of_audited (isBuilt_deletePermission c.policy name subject)
      (fun _ t' h => .of_find? rfl (allNamed_of_deletePermission h)) h
  | get _ =>
    cases hcall
    exact noted_of_inquire
      (fun _ ps h => .of_find? rfl (allNamed_of_access isSilent_latestVersion h)) h
  | versions _ =>
    cases hcall
    exact noted_of_inquire
      (fun _ ps h => .of_find? rfl (allNamed_of_access (fun _ => .bind .data fun _ => .pure _) h)) h
  | listPermissions _ =>
    cases hcall
    exact noted_of_inquire (fun _ ps h => .of_find? rfl (allNamed_of_listPermissions h)) h
  | renewBelow | findByName | findByPath | findFolders => cases hcall

theorem Effect.find?_of_writes {actor : String} {call : Call} {d' : StoreData}
    {permissions : List Permission} {overwrite : Bool}
    (h : c.Effect actor occasion call answer d') (hcall : call.Writes name permissions overwrite)
    (hname : Naming.normalize name = .ok normal) (habsent : c.store.data.find? name = none) :
    ∃ held, d'.find? name = some held ∧ held.name = normal := by
  have hfind : c.store.data.find? normal = none := by
    rw [StoreData.find?_eq_of_key_eq (Naming.key_normalize hname), habsent]
  cases h with
  | looked hinquiry => cases hcall <;> cases hinquiry
  | kept hwrites hnormal hheld =>
    cases hwrites.name_eq hcall
    cases hnormal.symm.trans hname
    cases hfind.symm.trans hheld
  | appended hwrites hnormal hheld =>
    cases hwrites.name_eq hcall
    cases hnormal.symm.trans hname
    cases hfind.symm.trans hheld
  | @created _ _ _ _ _ v id hwrites hnormal =>
    cases hwrites.name_eq hcall
    cases hnormal.symm.trans hname
    refine ⟨⟨id, normal, v, []⟩, ?_, rfl⟩
    rw [← StoreData.find?_eq_of_key_eq (Naming.key_normalize hname), StoreData.find?,
      StoreData.credentials_updatingAll, StoreData.get?_holding_self]
  | regenerated | renewed | deleted | permissionsSet | permissionDeleted => cases hcall

theorem bear_stored_iff {rs : List OperationRecord} {stored : String} {spared : Bool}
    (hrs : ∀ r ∈ rs, r.credentialName = some (if spared then name else stored))
    (hsome : spared = true → rs ≠ []) :
    (∀ r ∈ rs, r.credentialName = some stored) ↔ (spared = true → name = stored) := by
  cases spared with
  | false => exact iff_of_true hrs fun h => absurd h Bool.false_ne_true
  | true =>
    obtain ⟨r, hr⟩ := List.exists_mem_of_ne_nil rs (hsome rfl)
    constructor
    · intro h _
      exact Option.some.inj ((hrs r hr).symm.trans (h r hr))
    · intro h
      exact h rfl ▸ hrs

/-- The records of a successful call about a credential bear its stored name, except those of a
write that is to leave what is there: they bear the name as it was given. -/
theorem Reachable.credentialName_of_recorded {config : Config} {issuer : Issuer}
    (h : Reachable config issuer c) {call : Call} (hcall : call.subject? = some name)
    (hanswer : (c.perform caller occasion call).1 = .ok answer) :
    let c' := (c.perform caller occasion call).2
    let spared := call.spares && c.store.data.contains name
    ∃ held rs, (c.store.data.find? name).or (c'.store.data.find? name) = some held ∧
      c.Adds c' caller occasion.now rs ∧
      (∀ r ∈ rs, r.credentialName = some (if spared then name else held.name)) ∧
      ((∀ r ∈ rs, r.credentialName = some held.name) ↔ (spared = true → name = held.name)) := by
  intro c' spared
  obtain ⟨ps, outcome, hoperations, hnoted⟩ := noted_of_perform hcall hanswer
  have hspared : spared = (call.spares && (c.store.data.find? name).isSome) := rfl
  have hstored : ∃ held, (c.store.data.find? name).or (c'.store.data.find? name) = some held ∧
      AllNamed (if spared then name else held.name) ps ∧ (spared = true → ps ≠ []) := by
    rw [hspared]
    generalize hfound : c.store.data.find? name = found at hnoted
    cases hnoted with
    | @corrected held _ hspares hps =>
      exact ⟨held, rfl, by simpa [hspares] using hps, by simp [hspares]⟩
    | @spared held _ hspares hsome hps =>
      exact ⟨held, rfl, by simpa [hspares] using hps, fun _ => hsome⟩
    | created hwrites hname hps =>
      obtain ⟨held, hheld, rfl⟩ :=
        (effect_of_perform h.sound hanswer).find?_of_writes hwrites hname hfound
      exact ⟨held, hheld, by simpa using hps, by simp⟩
  obtain ⟨held, hheld, hps, hsome⟩ := hstored
  let rs := ps.map (·.record caller outcome occasion.now)
  have hrs : ∀ r ∈ rs, r.credentialName = some (if spared then name else held.name) := by
    intro r hr
    obtain ⟨p, hp, rfl⟩ := List.mem_map.1 hr
    exact hps p hp
  refine ⟨held, rs, hheld, ⟨hoperations, fun r hr => ?_⟩, hrs, bear_stored_iff hrs fun h => ?_⟩
  · obtain ⟨p, -, rfl⟩ := List.mem_map.1 hr
    exact ⟨rfl, rfl, rfl⟩
  · exact mt List.map_eq_nil_iff.1 (hsome h)

def capitalized : Custodian :=
  ((empty {} Issuance.issue).perform ⟨.ofNat 0, "alice"⟩ ⟨0, ⟨0, 0⟩⟩
    (.set "/Db" (.password "secret") [] true)).2

theorem reachable_capitalized : Reachable {} Issuance.issue capitalized :=
  Reachable.start.perform _ _ _

theorem Reachable.credentialName_of_recorded_get :
    Reachable {} Issuance.issue capitalized ∧
      ∃ rs, capitalized.Adds (capitalized.perform ⟨.ofNat 1, "alice"⟩ ⟨1, ⟨1, 0⟩⟩ (.get "db")).2
          ⟨.ofNat 1, "alice"⟩ ⟨1, 0⟩ rs ∧
        ∀ r ∈ rs, r.credentialName = some "/Db" := by
  have hanswer : (capitalized.perform ⟨.ofNat 1, "alice"⟩ ⟨1, ⟨1, 0⟩⟩ (.get "db")).1 =
      .ok (.version ⟨⟨0, 0⟩, ⟨0, 0⟩, .password "secret"⟩) := rfl
  have hsubject : (Call.get "db").subject? = some "db" := rfl
  obtain ⟨held, rs, hheld, hadds, hrs, -⟩ :=
    reachable_capitalized.credentialName_of_recorded hsubject hanswer
  cases hheld
  exact ⟨reachable_capitalized, rs, hadds, hrs⟩

/-- What Alice asks to set there, and not to overwrite, is recorded under the name that she gives.
-/
theorem misnamed_record :
    Reachable {} Issuance.issue capitalized ∧
      ∃ held r, capitalized.store.data.find? "db" = some held ∧ held.name = "/Db" ∧
        (capitalized.perform ⟨.ofNat 1, "alice"⟩ ⟨1, ⟨1, 0⟩⟩
          (.set "db" (.password "guess") [] false)).1 = .ok (.version held.latest) ∧
        (capitalized.perform ⟨.ofNat 1, "alice"⟩ ⟨1, ⟨1, 0⟩⟩
          (.set "db" (.password "guess") [] false)).2.store.log.operations =
            capitalized.store.log.operations ++ [r] ∧
        r.credentialName = some "db" :=
  ⟨reachable_capitalized, _, _, rfl, rfl, rfl, rfl, rfl⟩

end Custodian

end Strongroom
