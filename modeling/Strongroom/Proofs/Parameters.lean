import Strongroom.Proofs.Assembling
import Strongroom.Proofs.Issuing
import Strongroom.Proofs.Template

/-! Issuing keeps the parameters. What is taken over from a certificate that was just issued says
the same as the parameters that it was issued under, each thing in one way only, so that issuing
again under it changes nothing more. -/

namespace Strongroom

theorem KeyUsage.isKnown_of_ofTokens {tokens : List String} {usage : Option KeyUsage}
    (h : (ofTokens tokens).map some = .ok usage) (u : KeyUsage) (hu : usage = some u) :
    u.IsKnown := by
  obtain ⟨_, htokens, hsome⟩ := Except.map_eq_ok.1 h
  obtain ⟨uses, -, rfl⟩ := Except.map_eq_ok.1 htokens
  cases hsome.trans hu
  exact isKnown_ofUses uses

theorem CertificateFields.keyUsage_of_ofDocument? {d : X509.Document} {f : CertificateFields}
    (h : ofDocument? d = some f) : ∃ flags : Option Nat, f.keyUsage = flags.map .ofFlags := by
  simp only [ofDocument?, bind, Option.bind_eq_some_iff, pure, Option.some.injEq] at h
  obtain ⟨_, -, flags, -, _, -, _, -, _, -, rfl⟩ := h
  exact ⟨flags, rfl⟩

theorem Certificate.ofDocument?_of_ofArmor {text : String} {c : Certificate}
    (h : ofArmor text = .ok c) : ∃ d, CertificateFields.ofDocument? d = some c.fields := by
  unfold ofArmor at h
  split at h
  · cases h
  · split at h
    · cases h
    · split at h
      · cases h
      · rename_i d _
        split at h
        · cases h
        · rename_i fields hfields
          cases h
          exact ⟨d, hfields⟩

theorem Time.Instant.second_addDays (t : Instant) (days : Nat) :
    (t.addDays days).second = t.second + days * secondsPerDay := by
  unfold addDays
  split
  · rfl
  · rename_i hleap
    have hpos : 0 < (days : Int) := by
      simp only [Bool.or_eq_true, decide_eq_true_eq, not_or] at hleap
      omega
    rw [if_pos hpos]

namespace CertificateParameters

/-- The parameters that can be come by: from a request, from a certificate that was imported or
issued, with whatever signer, or by changes to others. -/
inductive Obtained : CertificateParameters → Prop
  | requested {r : CertificateRequest} {defaults : CertificateDefaults} {p : CertificateParameters}
    (h : ofRequest r defaults = .ok p) : Obtained p
  | imported {text : String} {c : Certificate} (signerName : Option String)
    (h : Certificate.ofArmor text = .ok c) : Obtained (ofCertificate c signerName)
  | issued {p : CertificateParameters} {signer : Option SigningAuthority} {now : Time.Instant}
    {id : FreshId} {value : CertificateValue} (signerName : Option String)
    (h : Issuance.issue p signer now id = .ok value) :
    Obtained (ofCertificate value.certificate signerName)
  | overridden {p q : CertificateParameters} {r : CertificateRequest} (hp : Obtained p)
    (h : p.override r = .ok q) : Obtained q

variable {p q : CertificateParameters}

theorem isKnown_of_readGiven {given : Option (List String)} {usage : Option KeyUsage}
    (h : readGiven KeyUsage.ofTokens given = .ok usage) (u : KeyUsage) (hu : usage = some u) :
    u.IsKnown := by
  cases given with
  | none => cases (Except.ok.inj h).trans hu
  | some tokens => exact KeyUsage.isKnown_of_ofTokens h u hu

theorem isKnown_of_overriding {given : Option (List String)} {held usage : Option KeyUsage}
    (h : overriding (fun tokens => (KeyUsage.ofTokens tokens).map some) given held = .ok usage)
    (hheld : ∀ u, held = some u → u.IsKnown) (u : KeyUsage) (hu : usage = some u) :
    u.IsKnown := by
  cases given with
  | none => exact hheld u ((Except.ok.inj h).trans hu)
  | some tokens => exact KeyUsage.isKnown_of_ofTokens h u hu

theorem Obtained.isKnown (hp : p.Obtained) (u : KeyUsage) (hu : p.keyUsage = some u) :
    u.IsKnown := by
  induction hp generalizing u with
  | requested h => exact isKnown_of_readGiven (ofRequest_eq_ok.1 h).keyUsage u hu
  | imported signerName h =>
    obtain ⟨d, hd⟩ := Certificate.ofDocument?_of_ofArmor h
    obtain ⟨flags, hflags⟩ := CertificateFields.keyUsage_of_ofDocument? hd
    obtain ⟨n, -, rfl⟩ := Option.map_eq_some_iff.1 (hflags.symm.trans hu)
    exact KeyUsage.isKnown_ofUses _
  | issued signerName h =>
    obtain ⟨authority, _, period, issuer, -, -, -, -, -, rfl⟩ := Issuance.issue_eq_ok.1 h
    obtain ⟨uses, -, rfl⟩ := Option.map_eq_some_iff.1 hu
    exact KeyUsage.isKnown_ofUses _
  | overridden _ h ih => exact isKnown_of_overriding (override_eq_ok.1 h).keyUsage ih u hu

/-- The parameters say the same as others, and each thing in one way: purposes in their order and
once only, and no signer beside a signature of its own. What is left out counts as empty. -/
structure Restates (q p : CertificateParameters) : Prop where
  subject : q.subject.text = p.subject.text
  keyLength : q.keyLength = p.keyLength
  durationDays : q.durationDays = p.durationDays
  isAuthority : q.isAuthority = p.isAuthority
  selfSigned : q.selfSigned = p.selfSigned
  alternativeNames : q.alternativeNames.getD [] = p.alternativeNames.getD []
  keyUsage : q.keyUsage.getD .none = p.keyUsage.getD .none
  purposes : q.purposes.getD [] = Purpose.canonical (p.purposes.getD [])
  signerName : q.signerName = if p.selfSigned then none else p.signerName

open CertificateTemplate

def restated (p : CertificateParameters) : CertificateParameters where
  keyLength := p.keyLength
  durationDays := p.durationDays
  selfSigned := p.selfSigned
  isAuthority := p.isAuthority
  signerName := if p.selfSigned then none else p.signerName
  subject := p.subject.withoutEmpty
  alternativeNames := saying [] (p.alternativeNames.getD [])
  keyUsage := saying .none (p.keyUsage.getD .none)
  purposes := saying [] (Purpose.canonical (p.purposes.getD []))

theorem restates_restated (p : CertificateParameters) : p.restated.Restates p where
  subject := p.subject.text_withoutEmpty
  keyLength := rfl
  durationDays := rfl
  isAuthority := rfl
  selfSigned := rfl
  alternativeNames := getD_saying _ _
  keyUsage := getD_saying _ _
  purposes := getD_saying _ _
  signerName := rfl

@[simp]
theorem restated_restated (p : CertificateParameters) : p.restated.restated = p.restated := by
  cases hself : p.selfSigned <;> simp [restated, hself, Purpose.canonical_canonical]

end CertificateParameters

namespace Issuance

variable {p : CertificateParameters} {signer : Option SigningAuthority} {now : Time.Instant}
  {id : FreshId} {value : CertificateValue}

theorem days_of_validity {days : Nat} {period : Time.Instant × Time.Instant}
    (h : validity now days = .ok period) :
    ((period.2.second - period.1.second) / Time.secondsPerDay).toNat = days := by
  unfold validity at h
  dsimp only at h
  split at h
  · cases h
    rw [Time.Instant.ofSeconds, Time.Instant.ofSeconds, Time.Instant.second_addDays,
      add_sub_cancel_left, Int.mul_ediv_cancel _ (by decide)]
    exact Int.toNat_natCast days
  · cases h

theorem privateKey_of_issue (h : issue p signer now id = .ok value) :
    value.privateKey = ⟨.fresh id⟩ := by
  obtain ⟨authority, _, period, issuer, -, -, -, -, -, rfl⟩ := issue_eq_ok.1 h
  rfl

theorem ofCertificate_of_issue (hp : ∀ u, p.keyUsage = some u → u.IsKnown)
    (h : issue p signer now id = .ok value) :
    CertificateParameters.ofCertificate value.certificate value.signerName = p.restated := by
  obtain ⟨authority, _, period, issuer, -, -, hperiod, -, -, rfl⟩ := issue_eq_ok.1 h
  have hdays : (fields p issuer period.1 period.2 id).durationDays = p.durationDays :=
    days_of_validity hperiod
  simp only [CertificateParameters.ofCertificate, signed, hdays]
  simp only [fields, CertificateTemplate.subjectOf_text?,
    CertificateTemplate.keyUsage?_ofParameters p _ hp, CertificateTemplate.purposes?_ofParameters,
    CertificateTemplate.alternativeNames?_ofParameters]
  rfl

theorem itself_of_issue (h : issue p signer now id = .ok value) (hself : p.selfSigned = true) :
    value.certificate.fields.issuer = value.certificate.fields.subject ∧
      value.certificate.isSignedBy value.certificate = true := by
  obtain ⟨authority, _, period, issuer, hauthority, -, -, -, hissuer, rfl⟩ := issue_eq_ok.1 h
  cases chooseSigner_of_selfSigned hself hauthority
  cases hissuer
  exact ⟨(CertificateTemplate.subjectOf_text? p _).symm, decide_eq_true rfl⟩

theorem selfSigned_iff_of_issue (hnew : ∀ s, signer = some s → s.privateKey.publicKey ≠ .fresh id)
    (h : issue p signer now id = .ok value) :
    value.certificate.fields.selfSigned = true ↔
      value.certificate.fields.issuer = value.certificate.fields.subject ∧
        value.certificate.isSignedBy value.certificate = true := by
  cases hself : p.selfSigned with
  | true => exact iff_of_true ((selfSigned_of_issue h).trans hself) (itself_of_issue h hself)
  | false =>
    obtain ⟨authority, _, period, issuer, hauthority, -, -, -, -, rfl⟩ := issue_eq_ok.1 h
    obtain ⟨s, rfl, -, rfl⟩ := (chooseSigner_eq_ok hself).1 hauthority
    refine iff_of_false (ne_true_of_eq_false hself) fun htest => ?_
    exact hnew s rfl (of_decide_eq_true htest.2)

end Issuance

namespace CertificateParameters

/-- Whatever the parameters and whoever signs, what is read back from the certificate says the same
as the parameters, and issuing again under it changes nothing. -/
theorem Obtained.restates_of_issue {p : CertificateParameters} {signer : Option SigningAuthority}
    {now : Time.Instant} {id : FreshId} {value : CertificateValue} (hp : p.Obtained)
    (hnew : ∀ s, signer = some s → s.privateKey.publicKey ≠ .fresh id)
    (h : Issuance.issue p signer now id = .ok value) :
    let q := ofCertificate value.certificate value.signerName
    q.Restates p ∧
      (q.selfSigned = true ↔
        value.certificate.fields.issuer = value.certificate.fields.subject ∧
          value.certificate.isSignedBy value.certificate = true) ∧
      ∀ {signer' now' id' value'}, Issuance.issue q signer' now' id' = .ok value' →
        ofCertificate value'.certificate value'.signerName = q := by
  intro q
  have hq : q = p.restated := Issuance.ofCertificate_of_issue hp.isKnown h
  have hagain : q.Obtained := .issued value.signerName h
  refine ⟨hq ▸ p.restates_restated, Issuance.selfSigned_iff_of_issue hnew h, fun h' => ?_⟩
  rw [Issuance.ofCertificate_of_issue hagain.isKnown h', hq, restated_restated]

def thorough : CertificateRequest where
  subject := { commonName := some "web", organization := some "", country := some "CH" }
  alternativeNames := some ["10.0.0.1", "example.org", "::1"]
  keyUsage := some ["decipher_only", "digital_signature", "decipher_only"]
  purposes := some ["timestamping", "server_auth", "timestamping"]
  keyLength := some 3072
  duration := some 30
  signer := some "/ca"

def thoroughlyIssued :
    Except Fault (CertificateParameters × SigningAuthority × CertificateValue) := do
  let root ← ofRequest (CertificateRequest.withCommonName "Root").asAuthority ⟨365, 2048⟩
  let ca ← Issuance.issue root none ⟨0, 0⟩ ⟨0, 0⟩
  let p ← ofRequest thorough ⟨365, 2048⟩
  let authority : SigningAuthority := ⟨"/ca", ca.certificate, ca.privateKey⟩
  let value ← Issuance.issue p (some authority) ⟨3600, 500000000⟩ ⟨1, 0⟩
  return (p, authority, value)

theorem Obtained.restates_of_issue_thorough :
    ∃ p authority value, thoroughlyIssued = .ok (p, authority, value) ∧
      (ofCertificate value.certificate value.signerName).Restates p ∧
      p.purposes = some [.timeStamping, .serverAuth, .timeStamping] ∧
      value.certificate.fields.purposes = some [.serverAuth, .timeStamping] := by
  have hok : (thoroughlyIssued.map fun (p, _, value) =>
      (p.purposes, value.certificate.fields.purposes)) =
        .ok (some [.timeStamping, .serverAuth, .timeStamping],
          some [.serverAuth, .timeStamping]) := by decide +kernel
  obtain ⟨⟨p, authority, value⟩, hrun, hpurposes⟩ := Except.map_eq_ok.1 hok
  obtain ⟨hasked, hread⟩ := Prod.mk.inj hpurposes
  have hsteps := hrun
  simp only [thoroughlyIssued, bind, Except.bind_eq_ok] at hsteps
  obtain ⟨root, -, ca, hca, q, hq, v, hv, h⟩ := hsteps
  cases h
  have hnew : ∀ s, some (⟨"/ca", ca.certificate, ca.privateKey⟩ : SigningAuthority) = some s →
      s.privateKey.publicKey ≠ .fresh ⟨1, 0⟩ := by
    rintro s ⟨⟩
    simp [Issuance.privateKey_of_issue hca]
  exact ⟨_, _, _, hrun, ((Obtained.requested hq).restates_of_issue hnew hv).1, hasked, hread⟩

end CertificateParameters

end Strongroom
