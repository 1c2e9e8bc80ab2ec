import Strongroom.Proofs.Reading
import Strongroom.Proofs.Refusals
import Strongroom.Proofs.Rotation

/-! Faults that no call ends in. Some checks repeat what is certain by then: that a name which has
just been written is there, that a signer which has just been looked up is, and that everything in
the order below a signer is a certificate with a signer. Each of them is settled on the data that
the steps before it leave; in a renewal these are the data after the names before have been renewed.
The issuer is not looked into, and may refuse with any fault. -/

namespace Strongroom

/-- The call guards against the fault: what the fault would tell of has been excluded by then. That
a certificate has no signer is excluded only where it was found through its signer. -/
inductive Call.Guards : Call → Fault → Prop
  | vanished (call : Call) (name : String) : Guards call (.integrity (.vanished name))
  | missingSigner (call : Call) (signer : String) :
    Guards call (.integrity (.missingSigner signer))
  | danglingSigner (call : Call) (name signer : String) :
    Guards call (.integrity (.danglingSigner name signer))
  | notCertified (call : Call) (name : String) : Guards call (.integrity (.notCertified name))
  | unsigned (signedBy : Option String) (name : String) :
    Guards (.renewBelow signedBy) (.integrity (.unsigned name))
  | noSigner (call : Call) : Guards call (.issuing .noSigner)

theorem Call.Guards.status_eq {call : Call} {fault : Fault} (h : call.Guards fault) :
    fault.status = 500 := by
  cases h <;> rfl

/-- The issuer itself refuses with the fault, though it is given a signer for what does not sign
itself. -/
def Issuer.Refuses (issuer : Issuer) (now : Time.Instant) (fault : Fault) : Prop :=
  ∃ p signer id, (signer = none ↔ p.selfSigned = true) ∧ issuer p signer now id = .error fault

theorem StoreData.Gains.exists_find? {d d' : StoreData} {name : String} {v : Version}
    (h : d.Gains name v d') : ∃ held, d'.find? name = some held := by
  cases h with
  | first => exact ⟨_, find?_holding_self _ _ _⟩
  | next => exact ⟨_, find?_holding_self _ _ _⟩

namespace Call.Guards

variable {call : Call} {fault : Fault} {α β : Type} {t t' : Transaction}

theorem status_ne (hg : call.Guards fault) : fault.status ≠ 400 := by
  rw [hg.status_eq]
  decide

theorem ne_notFound (hg : call.Guards fault) (cause : Denial) : fault ≠ .notFound cause := by
  rintro rfl
  cases hg

theorem of_runIn_lift_bind (hg : call.Guards fault) {x : Except Fault α} {f : α → Work β}
    (hx : x = .error fault → fault.status = 400)
    (h : ((liftM x : Work α) >>= f).runIn t = (.error fault, t')) :
    ∃ a, x = .ok a ∧ (f a).runIn t = (.error fault, t') := by
  rcases Work.runIn_lift_bind_eq_error.1 h with ⟨hfault, -⟩ | h
  · exact absurd (hx hfault) hg.status_ne
  · exact h

theorem of_runIn_require_bind (hg : call.Guards fault) {policy : AccessPolicy}
    {actor name : String} {op : Operation} {f : String → Work β}
    (h : ((liftM (policy.require actor name op) : Work String) >>= f).runIn t =
      (.error fault, t')) :
    ∃ held, t.data.find? name = some held ∧ (f held.name).runIn t = (.error fault, t') := by
  rcases Work.runIn_bind_eq_error.1 h with h | ⟨stored, t₁, hrequired, h⟩
  · rw [AccessPolicy.runIn_require] at h
    obtain ⟨cause, hcause⟩ := AccessPolicy.required_eq_error (Prod.mk.inj h).1
    exact absurd hcause (hg.ne_notFound cause)
  · rw [AccessPolicy.runIn_require] at hrequired
    obtain ⟨hstored, rfl⟩ := Prod.mk.inj hrequired
    obtain ⟨held, hheld, -, rfl⟩ := AccessPolicy.required_eq_ok.1 hstored
    exact ⟨held, hheld, h⟩

end Call.Guards

namespace Renewal

open StoreData

variable {issuer : Issuer} {occasion : Occasion} {call : Call} {fault : Fault} {d d' : StoreData}
  {name : String} {p : CertificateParameters}

/-- The signer that the parameters name is there, and one is named if the call guards against there
being none. -/
structure Linked (call : Call) (d : StoreData) (name : String) (p : CertificateParameters) :
    Prop where
  named : p.signerName = none → ¬ call.Guards (.integrity (.unsigned name))
  found : ∀ {signer}, p.signerName = some signer → ∃ c, d.find? signer = some c

theorem Linked.signerFor_ne_error (hlinked : p.selfSigned = false → Linked call d name p)
    (hg : call.Guards fault) : signerFor d name p ≠ .error fault := by
  intro h
  obtain ⟨hself, ⟨hnone, rfl⟩ | ⟨signer, hsigner, ⟨habsent, rfl⟩ | rfl⟩⟩ := signerFor_eq_error h
  · exact (hlinked hself).named hnone hg
  · obtain ⟨c, hc⟩ := (hlinked hself).found hsigner
    rw [habsent] at hc
    cases hc
  · cases hg

theorem refuses_of_issueInto (hg : call.Guards fault) {t t' : Transaction}
    (hlinked : p.selfSigned = false → Linked call t.data name p)
    (h : (issueInto issuer name p).runIn t = (.error fault, t')) :
    issuer.Refuses t.now fault := by
  rw [issueInto, Work.runIn_data_bind, Work.runIn_lift_bind_eq_error] at h
  rcases h with ⟨hsigner, -⟩ | ⟨signer, hsigner, h⟩
  · exact absurd hsigner (Linked.signerFor_ne_error hlinked hg)
  · rw [Work.runIn_now_bind, Work.runIn_draw_bind, Work.runIn_lift_bind_eq_error] at h
    rcases h with ⟨hissue, -⟩ | ⟨value, -, h⟩
    · exact ⟨p, signer, _, signerFor_eq_none_iff hsigner, hissue⟩
    · obtain ⟨held, -, happend⟩ := Transaction.append_eq_error_of_putVersion h
      exact absurd (Credential.status_of_append_eq_error happend) hg.status_ne

theorem RenewedAll.linked (call : Call) (hd : d.Sound) {root : String} {ca : Credential}
    {done rest : List String} (hca : d.find? root = some ca)
    (hnames : d.signingGraph.descendants root = .ok (done ++ name :: rest))
    (hdone : RenewedAll issuer occasion d done d') :
    ∃ p, parametersOf d' name = .ok p ∧ Linked call d' name p := by
  obtain ⟨-, hdistinct, hapart, -⟩ := SigningGraph.descendants_eq_ok hnames
  rw [List.map_append, List.map_cons, List.nodup_append] at hdistinct
  obtain ⟨hdoneDistinct, -, hdisjoint⟩ := hdistinct
  have hgrown := hdone.grownAt hdoneDistinct
  -- what signed it is the root, which no turn changes, or has had its turn and is still there
  have hplaced : ∃ parent c, name ∈ d.signedBy parent ∧ d'.find? parent = some c := by
    rcases SigningGraph.descendants_ordered hnames rfl with hchild | ⟨parent, hparent, hchild⟩
    · refine ⟨root, ca, hchild, (hgrown.kept _ fun hmem => ?_).trans hca⟩
      obtain ⟨n, hn, hkey⟩ := List.mem_map.1 hmem
      exact hapart n (List.mem_append_left _ hn) hkey
    · obtain ⟨_, _, -, hfound⟩ := hgrown.grown parent hparent
      exact ⟨parent, _, hchild, hfound⟩
  obtain ⟨parent, authority, hchild, hauthority⟩ := hplaced
  obtain ⟨held, signer, hheld, -, hsigner, hkey⟩ := hd.mem_signedBy.1 hchild
  obtain ⟨latest, hlatest, hrecorded⟩ := Option.bind_eq_some_iff.1 hsigner
  have hsame : d'.find? name = d.find? name :=
    hgrown.kept _ fun hmem => hdisjoint _ hmem _ List.mem_cons_self rfl
  refine ⟨.ofCertificate latest.certificate latest.signerName, ?_, fun hnone => ?_,
    fun hgiven => ?_⟩
  · rw [parametersOf, hsame, hheld, Option.bind_some, hlatest]
  · cases hrecorded.symm.trans hnone
  · cases hrecorded.symm.trans hgiven
    exact ⟨authority, (find?_eq_of_key_eq hkey).trans hauthority⟩

theorem refuses_of_failsToRenew (hg : call.Guards fault) (hp : parametersOf d name = .ok p)
    (hlinked : Linked call d name p) (h : FailsToRenew issuer occasion d name fault) :
    issuer.Refuses occasion.now fault := by
  cases h with
  | parameters h => cases hp.symm.trans h
  | signer hq h =>
    cases hp.symm.trans hq
    exact absurd h (Linked.signerFor_ne_error (fun _ => hlinked) hg)
  | issue _ hsigner h => exact ⟨_, _, _, signerFor_eq_none_iff hsigner, h⟩
  | kind _ _ _ h => exact absurd (Credential.status_of_append_eq_error h) hg.status_ne

theorem not_guards_of_planned_eq_error {policy : AccessPolicy} {actor : String}
    {signedBy : Option String} (hd : d.Sound)
    (h : planned policy d actor signedBy = .error fault) : ¬ call.Guards fault := by
  intro hg
  unfold planned at h
  obtain h | ⟨given, -, h⟩ := Except.bind_eq_error.1 h
  · exact hg.status_ne (status_of_signerName_eq_error h)
  obtain h | ⟨root, hroot, h⟩ := Except.bind_eq_error.1 h
  · obtain ⟨cause, hcause⟩ := AccessPolicy.required_eq_error h
    exact hg.ne_notFound cause hcause
  obtain h | ⟨names, -, h⟩ := Except.bind_eq_error.1 h
  · -- what is required yields a stored name, which the graph has
    obtain ⟨ca, hca, -, rfl⟩ := AccessPolicy.required_eq_ok.1 hroot
    have hnode := signingGraph_hasNode (hd.find?_name hca)
    obtain ⟨name, rfl⟩ := SigningGraph.descendants_eq_error_of_hasNode hnode h
    cases hg
  · split at h <;> cases h
    cases hg

end Renewal

namespace Custodian

open Renewal

variable {c : Custodian} {call : Call} {fault : Fault} {actor : String} {t t' : Transaction}

theorem runIn_latestVersion_ne_error {name : String} {held : Credential}
    (hheld : t.data.find? name = some held) :
    (liftM (latestVersion name) : Work Version).runIn t ≠ (.error fault, t') := by
  intro h
  rw [runIn_latestVersion_eq_ok.2 ⟨held, hheld, rfl, rfl⟩] at h
  cases h

theorem linked_of_pinned {policy : AccessPolicy} {d : StoreData} {name : String}
    {p q : CertificateParameters} (hd : d.Sound)
    (hcall : ¬ call.Guards (.integrity (.unsigned name)))
    (hpinned : pinned policy d actor p = .ok q) (hself : q.selfSigned = false) :
    Linked call d name q := by
  refine ⟨fun _ => hcall, fun {signer} hsigner => ?_⟩
  unfold pinned at hpinned
  split at hpinned
  · rename_i htrue
    cases hpinned
    rw [hself] at htrue
    cases htrue
  · split at hpinned
    · rename_i hnone
      cases hpinned
      cases hnone.symm.trans hsigner
    · obtain ⟨stored, hrequired, rfl⟩ := Except.map_eq_ok.1 hpinned
      obtain ⟨held, hheld, -, rfl⟩ := AccessPolicy.required_eq_ok.1 hrequired
      cases hsigner
      exact ⟨held, hd.find?_name hheld⟩

theorem refuses_of_issueAs (hg : call.Guards fault) {issuer : Issuer} {policy : AccessPolicy}
    {p : CertificateParameters} {name : String}
    (h : (issueAs issuer policy actor p name).runIn t = (.error fault, t'))
    (hsound : t.data.Sound) (hcall : ¬ call.Guards (.integrity (.unsigned name))) :
    issuer.Refuses t.now fault := by
  rcases Work.runIn_bind_eq_error.1 h with h | ⟨q, t₁, hpin, h⟩
  · rw [Work.runIn_inquiry, runOn_pinSigner] at h
    obtain ⟨cause, hcause⟩ := pinned_eq_error (Prod.mk.inj h).1
    exact absurd hcause (hg.ne_notFound cause)
  · rw [Work.runIn_inquiry, runOn_pinSigner] at hpin
    obtain ⟨hq, rfl⟩ := Prod.mk.inj hpin
    exact refuses_of_issueInto hg (fun hself => linked_of_pinned hsound hcall hq hself) h

theorem gains_of_issueAs {issuer : Issuer} {policy : AccessPolicy} {p : CertificateParameters}
    {name : String} (h : (issueAs issuer policy actor p name).runIn t = (.ok (), t')) :
    ∃ v, t.data.Gains name v t'.data := by
  obtain ⟨q, t₁, hpin, h⟩ := Work.runIn_bind_eq_ok.1 h
  rw [Work.runIn_inquiry, runOn_pinSigner] at hpin
  obtain ⟨-, rfl⟩ := Prod.mk.inj hpin
  obtain ⟨v, -, hgains⟩ := issued_of_issueInto h
  exact ⟨v, hgains⟩

theorem refuses_of_write (hg : call.Guards fault) {issuer : Issuer} {policy : AccessPolicy}
    {name : String} {permissions : List Permission} {overwrite : Bool} {put : String → Work Unit}
    (h : (write policy actor name permissions overwrite put).runIn t = (.error fault, t'))
    (hsound : t.data.Sound)
    (hfails : ∀ {target t'}, (put target).runIn t = (.error fault, t') →
      issuer.Refuses t.now fault)
    (hgains : ∀ {target t'}, (put target).runIn t = (.ok (), t') →
      ∃ v, t.data.Gains target v t'.data) :
    issuer.Refuses t.now fault := by
  rw [write, Work.runIn_data_bind] at h
  split at h
  · rcases Work.runIn_bind_eq_error.1 h with h | ⟨_, t₁, hput, h⟩
    · exact hfails h
    obtain ⟨v, hgained⟩ := hgains hput
    obtain ⟨held, hheld⟩ := hgained.exists_find?
    rcases Work.runIn_bind_eq_error.1 h with h | ⟨_, t₂, hgrant, h⟩
    · rw [AccessPolicy.runIn_grantOnCreate] at h
      cases h
    · have hfound : t₂.data.find? name = some held := by
        rw [AccessPolicy.data_of_grantOnCreate hgrant, StoreData.find?,
          StoreData.credentials_updatingAll]
        exact hheld
      rw [Work.runIn_resolveFor_bind] at h
      exact absurd h (runIn_latestVersion_ne_error hfound)
  · obtain ⟨held, hheld, h⟩ := hg.of_runIn_require_bind h
    cases overwrite with
    | false => exact absurd h (runIn_latestVersion_ne_error (hsound.find?_name hheld))
    | true =>
      rw [if_pos rfl] at h
      rcases Work.runIn_bind_eq_error.1 h with h | ⟨_, t₁, hput, h⟩
      · exact hfails h
      · obtain ⟨v, hgained⟩ := hgains hput
        obtain ⟨grown, hgrown⟩ := hgained.exists_find?
        rw [Work.runIn_resolveFor_bind] at h
        exact absurd h (runIn_latestVersion_ne_error hgrown)

theorem refuses_of_set (hg : call.Guards fault) {issuer : Issuer} {policy : AccessPolicy}
    {name : String} {value : CredentialValue} {permissions : List Permission} {overwrite : Bool}
    (hsound : t.data.Sound)
    (h : (set policy actor name value permissions overwrite).runIn t = (.error fault, t')) :
    issuer.Refuses t.now fault := by
  rw [set, Work.runIn_collect_bind] at h
  obtain ⟨normal, -, h⟩ := hg.of_runIn_lift_bind Naming.status_of_normalize_eq_error h
  refine (refuses_of_write hg h hsound ?_ ?_ :) <;> intro target t' hput
  · rw [Work.runIn_put] at hput
    obtain ⟨held, -, happend⟩ := Transaction.append_eq_error_of_putVersion hput
    exact absurd (Credential.status_of_append_eq_error happend) hg.status_ne
  · rw [Work.runIn_put] at hput
    have hgained := Transaction.gains_of_putVersion hput
    exact ⟨_, hgained⟩

theorem refuses_of_generate (hg : call.Guards fault) {issuer : Issuer} {policy : AccessPolicy}
    {defaults : CertificateDefaults} {name : String} {request : CertificateRequest}
    {permissions : List Permission} {overwrite : Bool} (hsound : t.data.Sound)
    (hcall : ∀ name, ¬ call.Guards (.integrity (.unsigned name)))
    (h : (generate issuer policy defaults actor name request permissions overwrite).runIn t =
      (.error fault, t')) :
    issuer.Refuses t.now fault := by
  rw [generate, Work.runIn_collect_bind] at h
  obtain ⟨normal, -, h⟩ := hg.of_runIn_lift_bind Naming.status_of_normalize_eq_error h
  obtain ⟨p, -, h⟩ :=
    hg.of_runIn_lift_bind CertificateParameters.status_of_ofRequest_eq_error h
  refine (refuses_of_write hg h hsound ?_ ?_ :) <;> intro target t' hput
  · exact refuses_of_issueAs hg hput hsound (hcall target)
  · exact gains_of_issueAs hput

theorem refuses_of_regenerate (hg : call.Guards fault) {issuer : Issuer} {policy : AccessPolicy}
    {name : String} {overrides : CertificateRequest} (hsound : t.data.Sound)
    (hcall : ∀ name, ¬ call.Guards (.integrity (.unsigned name)))
    (h : (regenerate issuer policy actor name overrides).runIn t = (.error fault, t')) :
    issuer.Refuses t.now fault := by
  rw [regenerate, Work.runIn_collect_bind] at h
  obtain ⟨held, -, h⟩ := hg.of_runIn_require_bind h
  rw [Work.runIn_resolveFor_bind, Work.runIn_data_bind] at h
  split at h
  · cases h
    cases hg
  · obtain ⟨p, -, h⟩ :=
      hg.of_runIn_lift_bind CertificateParameters.status_of_override_eq_error h
    rcases Work.runIn_bind_eq_error.1 h with h | ⟨_, t₁, hissue, h⟩
    · exact (refuses_of_issueAs hg h hsound (hcall _) :)
    · obtain ⟨v, hgained⟩ := gains_of_issueAs hissue
      obtain ⟨grown, hgrown⟩ := hgained.exists_find?
      exact absurd h (runIn_latestVersion_ne_error hgrown)

theorem not_guards_of_delete {policy : AccessPolicy} {name : String}
    (h : (delete policy actor name).runIn t = (.error fault, t')) : ¬ call.Guards fault := by
  intro hg
  rw [delete, Work.runIn_collect_bind] at h
  obtain ⟨held, -, h⟩ := hg.of_runIn_require_bind h
  cases h

theorem not_guards_of_setPermissions {policy : AccessPolicy} {name : String}
    {entries : List Permission}
    (h : (policy.setPermissions actor name entries).runIn t = (.error fault, t')) :
    ¬ call.Guards fault := by
  intro hg
  rw [AccessPolicy.setPermissions, Work.runIn_collect_bind] at h
  split at h
  · cases h
    cases hg
  · obtain ⟨held, -, h⟩ := hg.of_runIn_require_bind h
    have hset := Work.runIn_forM_ofStep
      fun (p : Permission) t => t.replaceOperations held.name p.actor p.operations
    rw [Work.runIn_resolveName_bind] at h
    rcases Work.runIn_bind_eq_error.1 h with h | ⟨_, t₁, -, h⟩
    · cases (hset _ _).symm.trans h
    · cases h

theorem not_guards_of_deletePermission {policy : AccessPolicy} {name subject : String}
    (h : (policy.deletePermission actor name subject).runIn t = (.error fault, t')) :
    ¬ call.Guards fault := by
  intro hg
  rw [AccessPolicy.deletePermission, Work.runIn_data_bind, Work.runIn_collect_bind] at h
  obtain ⟨held, -, h⟩ := hg.of_runIn_require_bind h
  rw [Work.runIn_resolveName_bind] at h
  rcases Work.runIn_bind_eq_error.1 h with h | ⟨found, t₁, -, h⟩
  · cases h
  · cases found <;> cases h
    cases hg

section Inquiries

variable {policy : AccessPolicy} {d : StoreData} {now : Time.Instant}
  {ps : List AuditParameters} {name : String}

theorem of_runOn_access_bind (hg : call.Guards fault) {α : Type} {f : String → Inquiry α}
    (h : ((access policy actor name >>= f).runOn d now ps).1 = .error fault) :
    ∃ held ps', d.find? name = some held ∧ ((f held.name).runOn d now ps').1 = .error fault := by
  have hrequired := runOn_access policy actor name d now ps
  rw [Inquiry.runOn_bind] at h
  rcases hrun : (access policy actor name).runOn d now ps with ⟨denied | stored, ps'⟩ <;>
    rw [hrun] at h hrequired
  · cases h
    obtain ⟨cause, hcause⟩ := AccessPolicy.required_eq_error hrequired.symm
    exact absurd hcause (hg.ne_notFound cause)
  · obtain ⟨held, hheld, -, rfl⟩ := AccessPolicy.required_eq_ok.1 hrequired.symm
    exact ⟨held, ps', hheld, h⟩

theorem not_guards_of_get (hsound : d.Sound)
    (h : ((get policy actor name).runOn d now ps).1 = .error fault) : ¬ call.Guards fault := by
  intro hg
  obtain ⟨held, ps', hheld, h⟩ := of_runOn_access_bind hg h
  rw [latestVersion, Inquiry.runOn_data_bind, hsound.find?_name hheld] at h
  cases h

theorem not_guards_of_versions
    (h : ((versions policy actor name).runOn d now ps).1 = .error fault) :
    ¬ call.Guards fault := by
  intro hg
  obtain ⟨held, ps', -, h⟩ := of_runOn_access_bind hg h
  rw [Inquiry.runOn_data_bind] at h
  cases h

theorem not_guards_of_listPermissions
    (h : ((policy.listPermissions actor name).runOn d now ps).1 = .error fault) :
    ¬ call.Guards fault := by
  intro hg
  rw [AccessPolicy.runOn_listPermissions, Except.map_eq_error] at h
  obtain ⟨cause, hcause⟩ := AccessPolicy.required_eq_error h
  exact hg.ne_notFound cause hcause

end Inquiries

variable {caller : Caller} {occasion : Occasion}

theorem exists_run_of_audited_eq_error {α : Type} {status : UInt16} {w : Work α} {f : α → Answer}
    (h : (c.audited caller occasion status (f <$> w)).1 = .error fault) :
    ∃ t, w.runIn (c.store.begin occasion) = (.error fault, t) := by
  rw [audited_fst, Except.map_eq_error] at h
  exact ⟨_, Prod.ext h rfl⟩

theorem inquire_eq_error {α : Type} {q : Inquiry α} {f : α → Answer} :
    (c.inquire caller occasion (f <$> q)).1 = .error fault ↔
      (q.runOn c.store.data occasion.now []).1 = .error fault := by
  rw [inquire_fst, Except.map_eq_error]

theorem refuses_of_renewBelow (hg : call.Guards fault) {signedBy : Option String}
    (hsound : c.store.data.Sound)
    (h : (c.perform caller occasion (.renewBelow signedBy)).1 = .error fault) :
    c.issuer.Refuses occasion.now fault := by
  cases hplan : planned c.policy c.store.data caller.actor signedBy with
  | error cause =>
    cases (renewBelow_of_planned_eq_error hplan).symm.trans h
    exact absurd hg (not_guards_of_planned_eq_error hsound hplan)
  | ok names =>
    have houtcome : (c.perform caller occasion (.renewBelow signedBy)).1 = .ok (.names names) ∨ _ :=
      renewBelow_of_planned_eq_ok hplan
    rcases houtcome with hanswer | ⟨done, name, rest, d, cause, rfl, hdone, hfails, hanswer⟩
    · cases hanswer.symm.trans h
    · cases hanswer.symm.trans h
      obtain ⟨given, ca, -, hca, -, hnames, -⟩ := planned_eq_ok.1 hplan
      obtain ⟨p, hp, hlinked⟩ := hdone.linked call hsound (hsound.find?_name hca) hnames
      exact refuses_of_failsToRenew hg hp hlinked hfails

theorem refuses_of_perform (hsound : c.store.data.Sound) (hg : call.Guards fault)
    (h : (c.perform caller occasion call).1 = .error fault) :
    c.issuer.Refuses occasion.now fault := by
  cases call with
  | set name value permissions overwrite =>
    obtain ⟨t, hrun⟩ := exists_run_of_audited_eq_error h
    exact refuses_of_set hg hsound hrun
  | generate name request permissions overwrite =>
    obtain ⟨t, hrun⟩ := exists_run_of_audited_eq_error h
    exact refuses_of_generate hg hsound (fun _ => nofun) hrun
  | regenerate name overrides =>
    obtain ⟨t, hrun⟩ := exists_run_of_audited_eq_error h
    exact refuses_of_regenerate hg hsound (fun _ => nofun) hrun
  | renewBelow signedBy => exact refuses_of_renewBelow hg hsound h
  | delete name =>
    obtain ⟨t, hrun⟩ := exists_run_of_audited_eq_error h
    exact absurd hg (not_guards_of_delete hrun)
  | get name => exact absurd hg (not_guards_of_get hsound (inquire_eq_error.1 h))
  | versions name => exact absurd hg (not_guards_of_versions (inquire_eq_error.1 h))
  | findByName | findByPath | findFolders => cases inquire_eq_error.1 h
  | listPermissions name => exact absurd hg (not_guards_of_listPermissions (inquire_eq_error.1 h))
  | setPermissions name entries =>
    obtain ⟨t, hrun⟩ := exists_run_of_audited_eq_error h
    exact absurd hg (not_guards_of_setPermissions hrun)
  | deletePermission name subject =>
    obtain ⟨t, hrun⟩ := exists_run_of_audited_eq_error h
    exact absurd hg (not_guards_of_deletePermission hrun)

/-- Only the issuer can end a call in what the call guards against, and it has then been given a
signer for what does not sign itself. The one that certificates are issued by here never does. -/
theorem Reachable.guarded {config : Config} {issuer : Issuer} (h : Reachable config issuer c)
    (hanswer : (c.perform caller occasion call).1 = .error fault) :
    (call.Guards fault → issuer.Refuses occasion.now fault) ∧
      (issuer = Issuance.issue → ¬ call.Guards fault) := by
  have hrefuses : call.Guards fault → issuer.Refuses occasion.now fault := fun hg =>
    h.issuer_eq ▸ refuses_of_perform h.sound hg hanswer
  refine ⟨hrefuses, ?_⟩
  rintro rfl hg
  obtain ⟨p, signer, id, hgiven, hissue⟩ := hrefuses hg
  obtain hstatus | rfl | rfl | ⟨name, rfl⟩ := Issuance.issue_eq_error hgiven hissue
  · exact hg.status_ne hstatus
  all_goals cases hg

def faultOf? : Except Fault Answer → Option Fault
  | .error fault => some fault
  | .ok _ => none

theorem faultOf?_eq_some {outcome : Except Fault Answer} :
    faultOf? outcome = some fault ↔ outcome = .error fault := by
  cases outcome <;> simp [faultOf?]

def retyped : Custodian :=
  let c := (chained.perform ⟨.ofNat 5, "alice"⟩ ⟨5, ⟨1, 0⟩⟩ (.delete "/mid")).2
  (c.perform ⟨.ofNat 6, "alice"⟩ ⟨6, ⟨1, 0⟩⟩ (.set "/mid" (.password "secret") [] true)).2

def unlinked : Custodian :=
  match (chained.store.data.find? "/leaf").bind (·.latestCertificate?) with
  | none => chained
  | some leaf =>
    let copy : CertificateValue := { leaf with signerName := none }
    (chained.perform ⟨.ofNat 5, "alice"⟩ ⟨5, ⟨1, 0⟩⟩ (.set "/copy" (.certificate copy) [] true)).2

theorem reachable_unlinked : Reachable {} Issuance.issue unlinked := by
  unfold unlinked
  split
  · exact reachable_chained
  · exact reachable_chained.perform _ _ _

/-- Below the password the leaf cannot be renewed, since what signed it is no certificate; and the
copy without a signer cannot be, which only renewal below a signer guards against. -/
theorem Reachable.guarded_retyped_unlinked :
    let renew : Call := .renewBelow (some "/mid")
    let regenerate : Call := .regenerate "/copy" {}
    (retyped.perform ⟨.ofNat 7, "alice"⟩ ⟨7, ⟨1, 0⟩⟩ renew).1 =
        .error (.invalid .notACertificate (some "/mid")) ∧
      ¬ renew.Guards (.invalid .notACertificate (some "/mid")) ∧
      (unlinked.perform ⟨.ofNat 6, "alice"⟩ ⟨6, ⟨1, 0⟩⟩ regenerate).1 =
        .error (.integrity (.unsigned "/copy")) ∧
      ¬ regenerate.Guards (.integrity (.unsigned "/copy")) := by
  intro renew regenerate
  have hretyped : Reachable {} Issuance.issue retyped :=
    (reachable_chained.perform _ _ _).perform _ _ _
  have hbelow : (retyped.perform ⟨.ofNat 7, "alice"⟩ ⟨7, ⟨1, 0⟩⟩ renew).1 =
      .error (.invalid .notACertificate (some "/mid")) :=
    faultOf?_eq_some.1 (by decide +kernel)
  have hcopy : (unlinked.perform ⟨.ofNat 6, "alice"⟩ ⟨6, ⟨1, 0⟩⟩ regenerate).1 =
      .error (.integrity (.unsigned "/copy")) :=
    faultOf?_eq_some.1 (by decide +kernel)
  exact ⟨hbelow, (hretyped.guarded hbelow).2 rfl, hcopy, (reachable_unlinked.guarded hcopy).2 rfl⟩

end Custodian

end Strongroom
