import Strongroom.Proofs.Calls

/-! Every kind of work behind a call has its effect when it succeeds, and is built of the changes of
a transaction. -/

namespace Strongroom.Custodian

variable {c : Custodian} {actor : String} {occasion : Occasion} {t t' : Transaction}

theorem runIn_latestVersion_eq_ok {name : String} {v : Version} :
    (liftM (latestVersion name) : Work Version).runIn t = (.ok v, t') ↔
      ∃ held, t.data.find? name = some held ∧ held.latest = v ∧ t = t' := by
  rw [Work.runIn_inquiry, latestVersion, Inquiry.runOn_data_bind]
  cases t.data.find? name <;> simp

@[simp]
theorem runOn_pinSigner (policy : AccessPolicy) (d : StoreData) (p : CertificateParameters)
    (now : Time.Instant) (ps : List AuditParameters) :
    (pinSigner policy actor p).runOn d now ps = (pinned policy d actor p, ps) := by
  unfold pinSigner pinned
  split
  · rfl
  · cases p.signerName with
    | none => rfl
    | some signer =>
      simp only [Inquiry.runOn_bind, AccessPolicy.runOn_require]
      cases policy.required d actor signer [.read] <;> rfl

theorem issuesAs_of_issueAs {p : CertificateParameters} {name : String}
    (hdata : t.data = c.store.data) (hoccasion : t.occasion = occasion)
    (h : (issueAs c.issuer c.policy actor p name).runIn t = (.ok (), t')) :
    ∃ v, c.IssuesAs actor occasion p name v ∧ c.store.data.Gains name v t'.data := by
  obtain ⟨q, t₁, hpin, h⟩ := Work.runIn_bind_eq_ok.1 h
  rw [Work.runIn_inquiry, runOn_pinSigner] at hpin
  obtain ⟨hq, rfl⟩ := Prod.mk.inj hpin
  obtain ⟨v, hissued, hgains⟩ := Renewal.issued_of_issueInto h
  dsimp only at hissued hgains
  rw [hdata] at hq hissued hgains
  rw [hoccasion] at hissued
  exact ⟨v, ⟨q, hq, hissued⟩, hgains⟩

theorem effect_of_write {call : Call} {name normal : String} {permissions : List Permission}
    {overwrite : Bool} {put : String → Work Unit} {v : Version}
    (hcall : call.Writes name permissions overwrite) (hname : Naming.normalize name = .ok normal)
    (hsound : c.store.data.Sound)
    (hput : ∀ {target t t'}, t.data = c.store.data → t.occasion = occasion →
      (put target).runIn t = (.ok (), t') →
      ∃ v, c.Makes actor occasion call target v ∧ c.store.data.Gains target v t'.data)
    (hdata : t.data = c.store.data) (hoccasion : t.occasion = occasion)
    (h : (write c.policy actor normal permissions overwrite put).runIn t = (.ok v, t')) :
    Effect c actor occasion call (.version v) t'.data := by
  rw [write, Work.runIn_data_bind, hdata] at h
  cases hheld : c.store.data.find? normal with
  | none =>
    rw [StoreData.contains, hheld, if_pos (by simp)] at h
    obtain ⟨_, t₁, hadd, h⟩ := Work.runIn_bind_eq_ok.1 h
    obtain ⟨made, hmade, hgains⟩ := hput hdata hoccasion hadd
    obtain ⟨id, hgained⟩ := hgains.of_find?_eq_none hheld
    obtain ⟨_, t₂, hgrant, h⟩ := Work.runIn_bind_eq_ok.1 h
    have hgranted := AccessPolicy.data_of_grantOnCreate hgrant
    rw [hgained] at hgranted
    rw [Work.runIn_resolveFor_bind, runIn_latestVersion_eq_ok] at h
    obtain ⟨held, hfound, rfl, rfl⟩ := h
    have hlatest : held.latest = made := by
      rw [hgranted, StoreData.find?, StoreData.credentials_updatingAll,
        StoreData.get?_holding_self] at hfound
      cases hfound
      rfl
    rw [hlatest]
    dsimp only
    rw [hgranted]
    exact .created id hcall hname hheld hmade
  | some held =>
    rw [StoreData.contains, hheld, if_neg (by simp)] at h
    obtain ⟨_, hfound, hpermits, h⟩ := AccessPolicy.runIn_require_bind_eq_ok.1 h
    rw [hdata] at hfound hpermits
    cases hheld.symm.trans hfound
    have hallowed := permits_iff_allows.1 hpermits
    have hstored := hsound.find?_name hheld
    cases overwrite with
    | false =>
      rw [if_neg (by simp)] at h
      obtain ⟨_, hlatest, rfl, rfl⟩ := runIn_latestVersion_eq_ok.1 h
      rw [hdata, hstored] at hlatest
      cases hlatest
      rw [hdata]
      exact .kept hcall hname hheld hallowed
    | true =>
      rw [if_pos rfl] at h
      obtain ⟨_, t₁, hadd, h⟩ := Work.runIn_bind_eq_ok.1 h
      obtain ⟨made, hmade, hgains⟩ := hput hdata hoccasion hadd
      obtain ⟨hkind, hgained⟩ := hgains.of_find?_eq_some hstored
      rw [Work.runIn_resolveFor_bind, runIn_latestVersion_eq_ok] at h
      obtain ⟨_, hfound, rfl, rfl⟩ := h
      dsimp only at hfound ⊢
      rw [hgained] at hfound ⊢
      rw [StoreData.find?_holding_self] at hfound
      cases hfound
      rw [Credential.latest_extended, hsound.keyed hheld]
      exact .appended hcall hname hheld hallowed hmade hkind

theorem effect_of_set {name : String} {value : CredentialValue} {permissions : List Permission}
    {overwrite : Bool} {v : Version} (hsound : c.store.data.Sound)
    (h : (set c.policy actor name value permissions overwrite).runIn (c.store.begin occasion) =
      (.ok v, t')) :
    Effect c actor occasion (.set name value permissions overwrite) (.version v) t'.data := by
  rw [set, Work.runIn_collect_bind, Work.runIn_lift_bind_eq_ok] at h
  obtain ⟨normal, hname, h⟩ := h
  refine effect_of_write (.set name value permissions overwrite) hname hsound ?_ rfl rfl h
  intro target t t' hdata hoccasion hadd
  rw [Work.runIn_put] at hadd
  have hgains := Transaction.gains_of_putVersion hadd
  rw [← hdata, ← hoccasion]
  exact ⟨_, ⟨t.drawn, rfl⟩, hgains⟩

theorem effect_of_generate {name : String} {request : CertificateRequest}
    {permissions : List Permission} {overwrite : Bool} {v : Version}
    (hsound : c.store.data.Sound)
    (h : (generate c.issuer c.policy c.config.certificates actor name request permissions
      overwrite).runIn (c.store.begin occasion) = (.ok v, t')) :
    Effect c actor occasion (.generate name request permissions overwrite) (.version v)
      t'.data := by
  rw [generate, Work.runIn_collect_bind, Work.runIn_lift_bind_eq_ok] at h
  obtain ⟨normal, hname, h⟩ := h
  obtain ⟨p, hp, h⟩ := Work.runIn_lift_bind_eq_ok.1 h
  refine effect_of_write (.generate name request permissions overwrite) hname hsound ?_ rfl rfl h
  intro target t t' hdata hoccasion hadd
  obtain ⟨made, hmade, hgains⟩ := issuesAs_of_issueAs hdata hoccasion hadd
  exact ⟨made, ⟨p, hp, hmade⟩, hgains⟩

theorem effect_of_regenerate {name : String} {overrides : CertificateRequest} {v : Version}
    (hsound : c.store.data.Sound)
    (h : (regenerate c.issuer c.policy actor name overrides).runIn (c.store.begin occasion) =
      (.ok v, t')) :
    Effect c actor occasion (.regenerate name overrides) (.version v) t'.data := by
  rw [regenerate, Work.runIn_collect_bind] at h
  obtain ⟨held, hheld, hpermits, h⟩ := AccessPolicy.runIn_require_bind_eq_ok.1 h
  have hstored := hsound.find?_name hheld
  rw [Work.runIn_resolveFor_bind, Work.runIn_data_bind] at h
  split at h
  · cases h
  · rename_i latest hlatest
    obtain ⟨_, hfound, hcertificate⟩ := Option.bind_eq_some_iff.1 hlatest
    cases hstored.symm.trans hfound
    obtain ⟨p, hp, h⟩ := Work.runIn_lift_bind_eq_ok.1 h
    obtain ⟨_, t₂, hissue, h⟩ := Work.runIn_bind_eq_ok.1 h
    obtain ⟨made, hmade, hgains⟩ := issuesAs_of_issueAs rfl rfl hissue
    obtain ⟨hkind, hgained⟩ := hgains.of_find?_eq_some hstored
    obtain ⟨_, hfound, rfl, rfl⟩ := runIn_latestVersion_eq_ok.1 h
    rw [hgained] at hfound ⊢
    rw [StoreData.find?_holding_self] at hfound
    cases hfound
    rw [Credential.latest_extended, hsound.keyed hheld]
    exact .regenerated hheld (permits_iff_allows.1 hpermits)
      ⟨held, latest, p, hstored, hcertificate, hp, hmade⟩ hkind

theorem effect_of_renewBelow {signedBy : Option String} {names : List String}
    (h : (Renewal.renewBelow c.issuer c.policy actor signedBy).runIn (c.store.begin occasion) =
      (.ok names, t')) :
    Effect c actor occasion (.renewBelow signedBy) (.names names) t'.data := by
  obtain ⟨hplan, hall⟩ := Renewal.renewedAll_of_renewBelow h
  exact .renewed hplan hall

theorem effect_of_delete {name : String} (hsound : c.store.data.Sound)
    (h : (delete c.policy actor name).runIn (c.store.begin occasion) = (.ok (), t')) :
    Effect c actor occasion (.delete name) .done t'.data := by
  rw [delete, Work.runIn_collect_bind] at h
  obtain ⟨held, hheld, hpermits, h⟩ := AccessPolicy.runIn_require_bind_eq_ok.1 h
  rw [Work.runIn_resolveFor_bind] at h
  obtain ⟨_, t₁, hremove, h⟩ := Work.runIn_bind_eq_ok.1 h
  cases h
  cases hremove
  change Effect c actor occasion (.delete name) .done
    ⟨c.store.data.credentials.erase (Naming.key held.name),
      c.store.data.accessLists.erase (Naming.key held.name)⟩
  rw [hsound.keyed hheld]
  exact .deleted (permits_iff_allows.1 hpermits)

theorem effect_of_setPermissions {name : String} {entries : List Permission}
    {view : PermissionsView} (hsound : c.store.data.Sound)
    (h : (c.policy.setPermissions actor name entries).runIn (c.store.begin occasion) =
      (.ok view, t')) :
    Effect c actor occasion (.setPermissions name entries) (.permissions view) t'.data := by
  obtain ⟨hactors, held, hheld, hpermits, rfl, hdata⟩ := AccessPolicy.data_of_setPermissions h
  rw [hdata, hsound.keyed hheld]
  exact .permissionsSet hactors hheld (permits_iff_allows.1 hpermits)

theorem effect_of_deletePermission {name subject : String} (hsound : c.store.data.Sound)
    (h : (c.policy.deletePermission actor name subject).runIn (c.store.begin occasion) =
      (.ok (), t')) :
    Effect c actor occasion (.deletePermission name subject) .done t'.data := by
  rw [AccessPolicy.deletePermission, Work.runIn_data_bind, Work.runIn_collect_bind] at h
  obtain ⟨held, hheld, hpermits, h⟩ := AccessPolicy.runIn_require_bind_eq_ok.1 h
  rw [Work.runIn_resolveName_bind] at h
  obtain ⟨found, t₁, hremove, h⟩ := Work.runIn_bind_eq_ok.1 h
  rw [Work.removeActor, Work.runIn_ofStep] at hremove
  obtain ⟨hfound, rfl⟩ := Prod.mk.inj hremove
  cases found with
  | false => cases h
  | true =>
    cases h
    obtain ⟨list, hlist, hsubject, hdata⟩ :=
      Transaction.data_of_removeActor_eq_true (Except.ok.inj hfound)
    rw [StoreData.accessList?, hsound.keyed hheld] at hlist
    rw [hdata, hsound.keyed hheld]
    exact .permissionDeleted (permits_iff_allows.1 hpermits) hlist hsubject

theorem isBuilt_issueAs (issuer : Issuer) (policy : AccessPolicy) (p : CertificateParameters)
    (name : String) : (issueAs issuer policy actor p name).IsBuilt :=
  .bind (.inquiry _) fun pinned => Renewal.isBuilt_issueInto issuer name pinned

theorem isBuilt_write (policy : AccessPolicy) (name : String) (permissions : List Permission)
    (overwrite : Bool) {put : String → Work Unit} (hput : ∀ target, (put target).IsBuilt) :
    (write policy actor name permissions overwrite put).IsBuilt := by
  refine .bind (.inquiry _) fun d => .ite ?_ (.bind (.inquiry _) fun stored => .ite ?_ (.inquiry _))
  · refine .bind (hput name) fun _ => .bind ?_ fun _ => .bind (.inquiry _) fun _ => .inquiry _
    exact .bind (.mergeOperations _ _ _) fun _ => .forM fun p => .mergeOperations _ _ _
  · exact .bind (hput stored) fun _ => .bind (.inquiry _) fun _ => .inquiry _

theorem isBuilt_set (policy : AccessPolicy) (name : String) (value : CredentialValue)
    (permissions : List Permission) (overwrite : Bool) :
    (set policy actor name value permissions overwrite).IsBuilt := by
  refine .bind (.inquiry _) fun _ => .bind (.lift _) fun normal => ?_
  exact isBuilt_write policy normal permissions overwrite fun target => .put target value

theorem isBuilt_generate (issuer : Issuer) (policy : AccessPolicy)
    (defaults : CertificateDefaults) (name : String) (request : CertificateRequest)
    (permissions : List Permission) (overwrite : Bool) :
    (generate issuer policy defaults actor name request permissions overwrite).IsBuilt := by
  refine .bind (.inquiry _) fun _ => .bind (.lift _) fun normal => .bind (.lift _) fun p => ?_
  exact isBuilt_write policy normal permissions overwrite (isBuilt_issueAs issuer policy p)

theorem isBuilt_regenerate (issuer : Issuer) (policy : AccessPolicy) (name : String)
    (overrides : CertificateRequest) :
    (regenerate issuer policy actor name overrides).IsBuilt := by
  refine .bind (.inquiry _) fun _ => .bind (.inquiry _) fun stored => .bind (.inquiry _) fun _ => ?_
  refine .bind (.inquiry _) fun d => ?_
  cases (d.find? stored).bind (·.latestCertificate?) with
  | none => exact .throw _
  | some v =>
    refine .bind (.lift _) fun p => ?_
    exact .bind (isBuilt_issueAs issuer policy p stored) fun _ => .inquiry _

theorem isBuilt_renewBelow (issuer : Issuer) (policy : AccessPolicy)
    (signedBy : Option String) : (Renewal.renewBelow issuer policy actor signedBy).IsBuilt := by
  refine .bind (.inquiry _) fun names => .bind ?_ fun _ => .pure _
  exact .forM fun name => Renewal.isBuilt_renew issuer actor name

theorem isBuilt_delete (policy : AccessPolicy) (name : String) :
    (delete policy actor name).IsBuilt := by
  refine .bind (.inquiry _) fun _ => .bind (.inquiry _) fun stored => .bind (.inquiry _) fun _ => ?_
  exact .bind (.remove stored) fun _ => .pure _

theorem isBuilt_setPermissions (policy : AccessPolicy) (name : String)
    (entries : List Permission) : (policy.setPermissions actor name entries).IsBuilt := by
  refine .bind (.inquiry _) fun _ => .ite (.throw _) (.bind (.inquiry _) fun stored => ?_)
  refine .bind (.inquiry _) fun _ => .bind (.forM fun p => ?_) fun _ => .pure _
  exact .replaceOperations _ _ _

theorem isBuilt_deletePermission (policy : AccessPolicy) (name subject : String) :
    (policy.deletePermission actor name subject).IsBuilt := by
  refine .bind (.inquiry _) fun d => .bind (.inquiry _) fun _ => .bind (.inquiry _) fun stored => ?_
  refine .bind (.inquiry _) fun _ => .bind (.removeActor _ _) fun found => ?_
  exact .ite (.throw _) (.pure _)

end Strongroom.Custodian
