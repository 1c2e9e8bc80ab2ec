import Strongroom.Proofs.Authority
import Strongroom.Proofs.Rotation

/-! Who signs what a caller has issued. The signer that a new certificate names is the stored name
of a credential which the caller may read, and whose latest certificate, an authority's with a key
of its own, has signed the new one; what signs itself names nobody. -/

namespace Strongroom

def StoreData.Appends (d d' : StoreData) (key : String) (v : Version) : Prop :=
  ∃ left, d'.credentials.get? key = some left ∧
    left.versions = ((d.credentials.get? key).map (·.versions)).getD [] ++ [v]

namespace StoreData

variable {d d' : StoreData} {key : String} {v : Version}

theorem not_appends_self : ¬ d.Appends d key v := by
  rintro ⟨left, hleft, hversions⟩
  rw [hleft, Option.map_some, Option.getD_some, List.self_eq_append_right] at hversions
  cases hversions

theorem Appends.of_holding {changed : String} {c : Credential} (h : d.Appends d' key v)
    (hcredentials : d'.credentials = (d.holding changed c).credentials) :
    c.versions.getLast? = some v := by
  obtain ⟨left, hleft, hversions⟩ := h
  rw [hcredentials] at hleft
  by_cases hkey : changed = key
  · subst hkey
    rw [get?_holding_self] at hleft
    cases hleft
    rw [hversions, List.getLast?_concat]
  · rw [get?_holding_of_ne _ _ hkey] at hleft
    exact (not_appends_self ⟨left, hleft, hversions⟩).elim

theorem Appends.eq_of_extended {changed : String} {held : Credential} {w : Version}
    (h : d.Appends (d.holding changed (held.extended w)) key v) : w = v := by
  have hlast := h.of_holding (c := held.extended w) rfl
  rw [Credential.versions_extended, List.getLast?_concat] at hlast
  exact Option.some.inj hlast

end StoreData

def Call.issuesOne : Call → Bool
  | .generate .. | .regenerate .. => true
  | _ => false

namespace Custodian

variable {c : Custodian} {actor : String} {occasion : Occasion} {call : Call} {answer : Answer}
  {v : Version}

theorem Makes.issuesAs {name : String} (h : c.Makes actor occasion call name v)
    (hcall : call.issuesOne = true) : ∃ p, c.IssuesAs actor occasion p name v := by
  cases call with
  | generate name request permissions overwrite =>
    obtain ⟨p, -, hissues⟩ := h
    exact ⟨p, hissues⟩
  | regenerate name overrides =>
    obtain ⟨_, _, p, -, -, -, hissues⟩ := h
    exact ⟨p, hissues⟩
  | _ => cases hcall

theorem Effect.issuesAs_of_appends {d' : StoreData} {key : String}
    (h : c.Effect actor occasion call answer d') (hcall : call.issuesOne = true)
    (happends : c.store.data.Appends d' key v) :
    ∃ name p, c.IssuesAs actor occasion p name v := by
  cases h with
  | looked | kept => exact absurd happends StoreData.not_appends_self
  | appended _ _ _ _ hw =>
    cases happends.eq_of_extended
    exact ⟨_, hw.issuesAs hcall⟩
  | created _ _ _ _ hw =>
    cases happends.of_holding (StoreData.credentials_updatingAll _ _ _ _)
    exact ⟨_, hw.issuesAs hcall⟩
  | regenerated _ _ hw =>
    cases happends.eq_of_extended
    exact ⟨_, hw.issuesAs hcall⟩
  | renewed | deleted | permissionsSet | permissionDeleted => cases hcall

theorem Effect.appends {name : String} {overrides : CertificateRequest} {d' : StoreData}
    {left : Credential} (h : c.Effect actor occasion (.regenerate name overrides) answer d')
    (hleft : d'.find? name = some left) :
    ∃ v, c.store.data.Appends d' (Naming.key name) v ∧ left.latest = v := by
  cases h with
  | looked hcall => cases hcall
  | kept hcall | appended hcall | created _ hcall => cases hcall
  | @regenerated _ _ held v hheld =>
    rw [StoreData.find?_holding_self] at hleft
    cases hleft
    refine ⟨v, ⟨held.extended v, StoreData.get?_holding_self _ _ _, ?_⟩, held.latest_extended v⟩
    rw [show c.store.data.credentials.get? (Naming.key name) = some held from hheld]
    rfl

theorem Allows.stored {name : String} {op : Operation} {held : Credential}
    (h : c.Allows name actor op) (hsound : c.store.data.Sound)
    (hheld : c.store.data.find? name = some held) : c.Allows held.name actor op := by
  have hkey : Naming.key held.name = Naming.key name := hsound.keyed hheld
  refine ⟨?_, fun henforced => ?_⟩
  · rw [StoreData.contains, hsound.find?_name hheld, Option.isSome_some]
  · rw [c.store.data.operationsFor_eq_of_key_eq hkey]
    exact h.2 henforced

theorem pinned_cases {policy : AccessPolicy} {d : StoreData} {p q : CertificateParameters}
    (h : pinned policy d actor p = .ok q) :
    (p.selfSigned = true ∨ p.signerName = none) ∧ q = p ∨
      ∃ signer ca, p.signerName = some signer ∧ d.find? signer = some ca ∧
        policy.permits d signer actor .read = true ∧ q = { p with signerName := some ca.name } := by
  unfold pinned at h
  split at h
  · rename_i hself
    cases h
    exact .inl ⟨.inl hself, rfl⟩
  · split at h
    · rename_i hnone
      cases h
      exact .inl ⟨.inr hnone, rfl⟩
    · rename_i signer hsigner
      obtain ⟨_, hrequired, rfl⟩ := Except.map_eq_ok.1 h
      obtain ⟨ca, hca, hpermits, rfl⟩ := AccessPolicy.required_eq_ok.1 hrequired
      exact .inr ⟨signer, ca, hsigner, hca, hpermits, rfl⟩

theorem signer_of_pinned {p q : CertificateParameters} {signer : String}
    (hsound : c.store.data.Sound) (h : pinned c.policy c.store.data actor p = .ok q)
    (hself : q.selfSigned = false) (hsigner : q.signerName = some signer) :
    ∃ ca, c.store.data.find? signer = some ca ∧ ca.name = signer ∧ c.Allows signer actor .read := by
  rcases pinned_cases h with ⟨htrue | hnone, rfl⟩ | ⟨_, ca, -, hca, hpermits, rfl⟩
  · cases hself.symm.trans htrue
  · cases hnone.symm.trans hsigner
  · cases hsigner
    exact ⟨ca, hsound.find?_name hca, rfl, (permits_iff_allows.1 hpermits).stored hsound hca⟩

/-- The value is signed by the latest certificate of a credential that the actor may read, an
authority's certificate with its own key, and tells whose it is; or else it signs itself. -/
structure Vouched (c : Custodian) (actor : String) (value : CertificateValue) : Prop where
  signed : ∀ {signer}, value.signerName = some signer → ∃ ca latest,
    c.store.data.find? signer = some ca ∧ ca.name = signer ∧ c.Allows signer actor .read ∧
      ca.latestCertificate? = some latest ∧ latest.certificate.fields.isAuthority = true ∧
      latest.privateKey.publicKey = latest.certificate.fields.publicKey ∧
      value.signerCertificate = some latest.certificate ∧
      value.certificate.isSignedBy latest.certificate = true
  selfSigned : value.certificate.fields.selfSigned = true →
    value.signerName = none ∧ value.signerCertificate = none
  unsigned : value.signerName = none → value.certificate.fields.selfSigned = true

theorem IssuesAs.vouched {p : CertificateParameters} {name : String}
    (h : c.IssuesAs actor occasion p name v) (hsound : c.store.data.Sound)
    (hissuer : c.issuer.IsStandard) :
    ∃ value, v.value = .certificate value ∧ c.Vouched actor value := by
  obtain ⟨q, hpinned, authority, value, n, hauthority, hvalue, rfl⟩ := h
  have hissue := hissuer hvalue
  have hselfSigned := Issuance.selfSigned_of_issue hissue
  have hsignerName := Issuance.signerName_of_issue hissue
  refine ⟨value, rfl, ?_⟩
  cases hself : q.selfSigned with
  | true =>
    rw [hself] at hselfSigned hsignerName
    have hnobody : value.signerName = none := hsignerName
    exact {
      signed := fun hsigner => by cases hnobody.symm.trans hsigner
      selfSigned := fun _ => ⟨hnobody, Issuance.signerCertificate_of_selfSigned hissue hself⟩
      unsigned := fun _ => hselfSigned }
  | false =>
    rw [hself] at hselfSigned hsignerName
    have hnamed : value.signerName = q.signerName := hsignerName
    cases hsigner : q.signerName with
    | none => cases (Renewal.signerFor_of_unsigned hself hsigner).symm.trans hauthority
    | some signer =>
      obtain ⟨ca, latest, hca, hlatest, rfl⟩ := Renewal.signerFor_eq_ok hself hsigner hauthority
      obtain ⟨_, hgiven, hisAuthority, hkey, hcertificate, hverifies⟩ :=
        Issuance.authority_of_issue hissue hself
      cases hgiven
      obtain ⟨_, hfound, hname, hread⟩ := signer_of_pinned hsound hpinned hself hsigner
      cases hca.symm.trans hfound
      exact {
        signed := fun hrecorded => by
          cases (hnamed.trans hsigner).symm.trans hrecorded
          exact ⟨ca, latest, hca, hname, hread, hlatest, hisAuthority, hkey, hcertificate,
            hverifies⟩
        selfSigned := fun htrue => by cases hselfSigned.symm.trans htrue
        unsigned := fun hnone => by cases (hnamed.trans hsigner).symm.trans hnone }

/-- Whatever version a caller has issued and appended is vouched for, whoever was named as its
signer and however the name was written. -/
theorem Reachable.vouched_of_appends {config : Config} {issuer : Issuer} {caller : Caller}
    {key : String} (h : Reachable config issuer c) (hissuer : issuer.IsStandard)
    (hcall : call.issuesOne = true) (hanswer : (c.perform caller occasion call).1 = .ok answer)
    (happends : c.store.data.Appends (c.perform caller occasion call).2.store.data key v) :
    ∃ value, v.value = .certificate value ∧ c.Vouched caller.actor value := by
  have heffect := effect_of_perform h.sound hanswer
  obtain ⟨name, p, hissues⟩ := heffect.issuesAs_of_appends hcall happends
  exact hissues.vouched h.sound (h.issuer_eq ▸ hissuer)

def promote (c : Custodian) : Except Fault Answer × Custodian :=
  c.perform ⟨.ofNat 5, "alice"⟩ ⟨5, ⟨1, 0⟩⟩ (.regenerate "/Leaf" { signer := some "/CA" })

theorem Reachable.vouched_of_appends_chained :
    ∃ v value, chained.store.data.Appends chained.promote.2.store.data "/leaf" v ∧
      v.value = .certificate value ∧ value.signerName = some "/ca" ∧
      chained.Vouched "alice" value := by
  have hok : chained.promote.1.toBool = true := by decide +kernel
  have hkey : Naming.key "/Leaf" = "/leaf" := by decide +kernel
  have hsigner : ((chained.promote.2.store.data.find? "/Leaf").bind (·.latestCertificate?)).map
      (·.signerName) = some (some "/ca") := by decide +kernel
  obtain ⟨latest, hlatest, hname⟩ := Option.map_eq_some_iff.1 hsigner
  obtain ⟨left, hleft, hcertificate⟩ := Option.bind_eq_some_iff.1 hlatest
  unfold promote at hok hleft ⊢
  cases hanswer : (chained.perform ⟨.ofNat 5, "alice"⟩ ⟨5, ⟨1, 0⟩⟩
      (.regenerate "/Leaf" { signer := some "/CA" })).1 with
  | error fault =>
    rw [hanswer] at hok
    cases hok
  | ok answer =>
    have heffect := effect_of_perform reachable_chained.sound hanswer
    obtain ⟨v, happends, hlast⟩ := heffect.appends hleft
    obtain ⟨value, hvalue, hvouched⟩ := reachable_chained.vouched_of_appends
      Issuer.isStandard_issue rfl hanswer happends
    rw [Credential.latestCertificate?, hlast, hvalue] at hcertificate
    cases hcertificate
    exact ⟨v, latest, hkey ▸ happends, hvalue, hname, hvouched⟩

end Custodian

end Strongroom
