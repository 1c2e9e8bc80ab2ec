import Strongroom.Proofs.Provenance

/-! What a certificate that is issued again has from the one before. The request changes parameters
that were taken over from there, its signer is looked up, and the fields that are read back from the
new certificate say what those parameters say. -/

namespace Strongroom

/-- The fields of what is issued again are those that the request has, and those from before where
it has none. What is left out counts as empty, and purposes come in their order and once only. -/
structure Inherits (r : CertificateRequest) (old new : CertificateFields) : Prop where
  subject : new.subject.text = (if r.subject.isEmpty then old.subject else r.subject).text
  alternativeNames : new.alternativeNames.getD [] =
    (r.alternativeNames.map (·.map AlternativeName.classify)).getD (old.alternativeNames.getD [])
  keyUsage : r.keyUsage.elim (.ok (old.keyUsage.getD .none)) KeyUsage.ofTokens =
    .ok (new.keyUsage.getD .none)
  purposes : (r.purposes.elim (.ok (old.purposes.getD [])) Purpose.ofTokens).map Purpose.canonical =
    .ok (new.purposes.getD [])
  keyLength : new.keyLength = (r.keyLength.map UInt32.toNat).getD old.keyLength
  durationDays : new.durationDays = (r.duration.map UInt32.toNat).getD old.durationDays
  isAuthority : new.isAuthority = r.isAuthority.getD old.isAuthority

namespace CertificateParameters

variable {p : CertificateParameters} {r : CertificateRequest}

theorem eq_of_checkKeyLength {n m : Nat} (h : checkKeyLength n = .ok m) : m = n := by
  unfold checkKeyLength at h
  split at h <;> cases h
  rfl

theorem eq_of_checkDuration {n m : Nat} (h : checkDuration n = .ok m) : m = n := by
  unfold checkDuration at h
  split at h <;> cases h
  rfl

theorem eq_getD_of_overriding {check : Nat → Except Fault Nat}
    (hcheck : ∀ {n m}, check n = .ok m → m = n) {given : Option UInt32} {held value : Nat}
    (h : overriding (check ·.toNat) given held = .ok value) :
    value = (given.map UInt32.toNat).getD held := by
  cases given with
  | none =>
    cases h
    rfl
  | some n => exact hcheck h

theorem elim_of_overriding {α β : Type} {read : α → Except Fault β} {given : Option α}
    {held value : Option β} (h : overriding (fun a => (read a).map some) given held = .ok value)
    (nothing : β) : given.elim (.ok (held.getD nothing)) read = .ok (value.getD nothing) := by
  cases given with
  | none =>
    cases h
    rfl
  | some a =>
    obtain ⟨_, hread, rfl⟩ := Except.map_eq_ok.1 h
    exact hread

theorem Overridden.inherits {old new : Certificate} {oldSigner newSigner signerName : Option String}
    (h : Overridden (ofCertificate old oldSigner) r p)
    (hnew : (ofCertificate new newSigner).Restates { p with signerName }) :
    Inherits r old.fields new.fields where
  subject := hnew.subject.trans (congrArg Subject.text h.subject)
  alternativeNames := by
    refine hnew.alternativeNames.trans ?_
    rw [show p.alternativeNames = _ from h.alternativeNames]
    cases r.alternativeNames <;> rfl
  keyUsage := by
    rw [show new.fields.keyUsage.getD .none = _ from hnew.keyUsage]
    exact elim_of_overriding h.keyUsage .none
  purposes := by
    have hread := elim_of_overriding h.purposes []
    rw [show new.fields.purposes.getD [] = _ from hnew.purposes]
    exact congrArg (Except.map Purpose.canonical) hread
  keyLength := hnew.keyLength.trans (eq_getD_of_overriding eq_of_checkKeyLength h.keyLength)
  durationDays :=
    hnew.durationDays.trans (eq_getD_of_overriding eq_of_checkDuration h.durationDays)
  isAuthority := hnew.isAuthority.trans h.isAuthority

end CertificateParameters

/-- The value counts as signed by itself and is: it names itself as its issuer, its own key verifies
it, and it has no signer. -/
structure CertificateValue.SignsItself (value : CertificateValue) : Prop where
  selfSigned : value.certificate.fields.selfSigned = true
  issuer : value.certificate.fields.issuer = value.certificate.fields.subject
  verifies : value.certificate.isSignedBy value.certificate = true
  signerName : value.signerName = none
  signerCertificate : value.signerCertificate = none

theorem Issuance.signsItself_of_issue {p : CertificateParameters} {signer : Option SigningAuthority}
    {now : Time.Instant} {id : FreshId} {value : CertificateValue}
    (h : issue p signer now id = .ok value) (hself : p.selfSigned = true) : value.SignsItself where
  selfSigned := (selfSigned_of_issue h).trans hself
  issuer := (itself_of_issue h hself).1
  verifies := (itself_of_issue h hself).2
  signerName := (signerName_of_issue h).trans (if_pos hself)
  signerCertificate := signerCertificate_of_selfSigned h hself

def StoreData.ChainedThrough (d : StoreData) (signer : String) (value : CertificateValue) : Prop :=
  value.certificate.fields.selfSigned = false ∧
    ∃ ca, d.find? signer = some ca ∧ d.ChainedTo ca.name value

/-- What is issued again is signed by the signer that the request names, or by itself if the request
wants that, and if it says neither in the way that it was before. Signers count as they are in the
data. -/
structure SignedAgain (d : StoreData) (r : CertificateRequest) (old new : CertificateValue) :
    Prop where
  named : ∀ {signer}, r.signer = some signer → d.ChainedThrough signer new
  itself : r.selfSign = some true → new.SignsItself
  kept : r.signer = none → r.selfSign ≠ some true →
    (new.SignsItself ↔ old.certificate.fields.selfSigned = true) ∧
      (old.certificate.fields.selfSigned = false →
        ∃ signer, old.signerName = some signer ∧ d.ChainedThrough signer new)

namespace Custodian

variable {c : Custodian} {actor : String} {occasion : Occasion} {v : Version}
  {p q : CertificateParameters}

theorem eq_of_pinned {policy : AccessPolicy} {d : StoreData}
    (h : pinned policy d actor p = .ok q) : q = { p with signerName := q.signerName } := by
  rcases pinned_cases h with ⟨-, rfl⟩ | ⟨_, _, -, -, -, rfl⟩ <;> rfl

structure IssuedUnder (d : StoreData) (p : CertificateParameters) (value : CertificateValue) :
    Prop where
  restates : ∃ signerName, (CertificateParameters.ofCertificate value.certificate
    value.signerName).Restates { p with signerName }
  itself : p.selfSigned = true → value.SignsItself
  signed : p.selfSigned = false →
    ∃ signer, p.signerName = some signer ∧ d.ChainedThrough signer value

theorem IssuesAs.issuedUnder {name : String} (h : c.IssuesAs actor occasion p name v)
    (hknown : ∀ u, p.keyUsage = some u → u.IsKnown) (hissuer : c.issuer.IsStandard) :
    ∃ value, v.value = .certificate value ∧ IssuedUnder c.store.data p value := by
  obtain ⟨q, hpinned, authority, value, n, hauthority, hvalue, rfl⟩ := h
  have hissue := hissuer hvalue
  have hq := eq_of_pinned hpinned
  have hself : q.selfSigned = p.selfSigned := by rw [hq]
  have husage : q.keyUsage = p.keyUsage := by rw [hq]
  refine ⟨value, rfl, ⟨q.signerName, ?_⟩, fun htrue => ?_, fun hfalse => ?_⟩
  · rw [← hq, Issuance.ofCertificate_of_issue (husage ▸ hknown) hissue]
    exact q.restates_restated
  · exact Issuance.signsItself_of_issue hissue (hself.trans htrue)
  · have hunsigned := hself.trans hfalse
    rcases pinned_cases hpinned with ⟨htrue | hnone, rfl⟩ | ⟨signer, ca, hsigner, hca, -, rfl⟩
    · cases hfalse.symm.trans htrue
    · cases (Renewal.signerFor_of_unsigned hfalse hnone).symm.trans hauthority
    · obtain ⟨s, latest, hs, hlatest, rfl⟩ := Renewal.signerFor_eq_ok hunsigned rfl hauthority
      obtain ⟨_, hgiven, hcertificate, hverifies⟩ := Issuance.signer_of_issue hissue hunsigned
      cases hgiven
      have hrecorded := (Issuance.signerName_of_issue hissue).trans
        (if_neg (ne_true_of_eq_false hunsigned))
      exact ⟨signer, hsigner, (Issuance.selfSigned_of_issue hissue).trans hunsigned, ca, hca,
        hrecorded, s, latest, hs, hlatest, hcertificate, hverifies⟩

theorem IssuedUnder.signedAgain {d : StoreData} {r : CertificateRequest}
    {old new : CertificateValue} (h : IssuedUnder d p new)
    (hsigning : CertificateParameters.overrideSigning r
      (old.certificate.fields.selfSigned, old.signerName) = .ok (p.selfSigned, p.signerName)) :
    SignedAgain d r old new := by
  cases hsigner : r.signer with
  | some signer =>
    rw [CertificateParameters.overrideSigning_of_some hsigner] at hsigning
    split at hsigning
    · cases hsigning
    · rename_i hnot
      obtain ⟨hself, hname⟩ := Prod.mk.inj (Except.ok.inj hsigning)
      obtain ⟨_, hnamed, hsigned⟩ := h.signed hself.symm
      cases hname.trans hnamed
      exact {
        named := fun hgiven => by
          cases hsigner.symm.trans hgiven
          exact hsigned
        itself := fun hitself => absurd hitself hnot
        kept := fun hnone => by cases hsigner.symm.trans hnone }
  | none =>
    rw [CertificateParameters.overrideSigning_of_none hsigner] at hsigning
    obtain hboth := Except.ok.inj hsigning
    by_cases hitself : r.selfSign = some true
    · rw [if_pos hitself] at hboth
      obtain ⟨hself, -⟩ := Prod.mk.inj hboth
      exact {
        named := fun hgiven => by cases hsigner.symm.trans hgiven
        itself := fun _ => h.itself hself.symm
        kept := fun _ hnot => absurd hitself hnot }
    · rw [if_neg hitself] at hboth
      obtain ⟨hself, hname⟩ := Prod.mk.inj hboth
      refine ⟨fun hgiven => ?_, fun hgiven => absurd hgiven hitself, fun _ _ => ⟨?_, ?_⟩⟩
      · cases hsigner.symm.trans hgiven
      · refine ⟨fun hnew => ?_, fun hold => h.itself (hself.symm.trans hold)⟩
        by_contra hold
        obtain ⟨_, -, hfalse, -⟩ := h.signed (hself.symm.trans (Bool.eq_false_iff.2 hold))
        cases hnew.selfSigned.symm.trans hfalse
      · intro hold
        rw [hname]
        exact h.signed (hself.symm.trans hold)

/-- The version under a name that is issued again has what the request asks for, and everything else
from the certificate that was the latest there before. -/
theorem ReachableBy.inherits_of_regenerate {config : Config} {issuer : Issuer} {caller : Caller}
    {name : String} {overrides : CertificateRequest} {answer : Answer}
    (h : ReachableBy Call.IsGenuine config issuer c) (hissuer : issuer.IsStandard)
    (hanswer : (c.perform caller occasion (.regenerate name overrides)).1 = .ok answer) :
    ∃ held latest v value, c.store.data.find? name = some held ∧
      held.latestCertificate? = some latest ∧ answer = .version v ∧
      v.value = .certificate value ∧
      (c.perform caller occasion (.regenerate name overrides)).2.store.data.find? name =
        some (held.extended v) ∧
      Inherits overrides latest.certificate.fields value.certificate.fields ∧
      SignedAgain c.store.data overrides latest value := by
  have hstandard : c.issuer.IsStandard := h.reachable.issuer_eq ▸ hissuer
  have heffect := effect_of_perform h.reachable.sound hanswer
  generalize (c.perform caller occasion (.regenerate name overrides)).2.store.data = d' at heffect ⊢
  cases heffect with
  | looked hcall | kept hcall | appended hcall | created _ hcall => cases hcall
  | @regenerated _ _ held v hheld _ hmakes =>
    obtain ⟨_, latest, p, hstored, hlatest, hp, hissues⟩ := hmakes
    cases (h.reachable.sound.find?_name hheld).symm.trans hstored
    have hover := CertificateParameters.override_eq_ok.1 hp
    have hold := (h.isGenuine_latest hissuer hheld hlatest).obtained latest.signerName
    obtain ⟨value, hvalue, hunder⟩ :=
      hissues.issuedUnder (hold.overridden hp).isKnown hstandard
    obtain ⟨_, hrestates⟩ := hunder.restates
    exact ⟨held, latest, v, value, hheld, hlatest, rfl, hvalue,
      StoreData.find?_holding_self _ _ _, hover.inherits hrestates,
      hunder.signedAgain hover.signing⟩

def shortened : CertificateRequest where
  duration := some 30
  purposes := some ["timestamping", "server_auth", "timestamping"]

theorem reachableBy_chained : ReachableBy Call.IsGenuine {} Issuance.issue chained :=
  reachableBy_afterAll _ _ (by simp [Call.IsGenuine])

theorem ReachableBy.inherits_of_regenerate_chained :
    ∃ latest value, (chained.store.data.find? "/Leaf").bind (·.latestCertificate?) = some latest ∧
      Inherits shortened latest.certificate.fields value.certificate.fields ∧
      SignedAgain chained.store.data shortened latest value ∧
      latest.certificate.fields.durationDays = 365 ∧
      value.certificate.fields.durationDays = 30 ∧
      value.certificate.fields.purposes.getD [] = [.serverAuth, .timeStamping] ∧
      value.signerName = some "/mid" := by
  have hok : (chained.perform ⟨.ofNat 5, "alice"⟩ ⟨5, ⟨1, 0⟩⟩
      (.regenerate "/Leaf" shortened)).1.toBool = true := by decide +kernel
  have hread : (Purpose.ofTokens ["timestamping", "server_auth", "timestamping"]).map
      Purpose.canonical = .ok [.serverAuth, .timeStamping] := by decide +kernel
  have hmid : (chained.store.data.find? "/mid").map (·.name) = some "/mid" := by decide +kernel
  have hold : ((chained.store.data.find? "/Leaf").bind (·.latestCertificate?)).map
      (fun latest => (latest.certificate.fields.durationDays, latest.certificate.fields.selfSigned,
        latest.signerName)) = some (365, false, some "/mid") := by decide +kernel
  cases hanswer : (chained.perform ⟨.ofNat 5, "alice"⟩ ⟨5, ⟨1, 0⟩⟩
      (.regenerate "/Leaf" shortened)).1 with
  | error fault =>
    rw [hanswer] at hok
    cases hok
  | ok answer =>
    obtain ⟨held, latest, v, value, hheld, hlatest, -, -, -, hinherits, hsigned⟩ :=
      reachableBy_chained.inherits_of_regenerate Issuer.isStandard_issue hanswer
    have hfound : (chained.store.data.find? "/Leaf").bind (·.latestCertificate?) = some latest :=
      Option.bind_eq_some_iff.2 ⟨held, hheld, hlatest⟩
    rw [hfound] at hold
    obtain ⟨hdays, hrest⟩ := Prod.mk.inj (Option.some.inj hold)
    obtain ⟨hself, hsigner⟩ := Prod.mk.inj hrest
    obtain ⟨_, hnamed, -, ca, hca, hrecorded, -⟩ := (hsigned.kept rfl nofun).2 hself
    cases hsigner.symm.trans hnamed
    rw [hca] at hmid
    exact ⟨latest, value, hfound, hinherits, hsigned, hdays, hinherits.durationDays,
      Except.ok.inj (hinherits.purposes.symm.trans hread), hrecorded.trans hmid⟩

end Custodian

end Strongroom
