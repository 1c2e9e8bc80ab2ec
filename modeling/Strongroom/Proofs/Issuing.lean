import Strongroom.Issuance
import Strongroom.Proofs.Except

/-! What an issued value holds, from its parameters and its signer. A certificate that does not sign
itself verifies with the signer's, since the signer's key has to belong to its certificate. -/

namespace Strongroom

namespace Issuance

variable {p : CertificateParameters} {signer : Option SigningAuthority} {now : Time.Instant}
  {id : FreshId} {value : CertificateValue}

theorem chooseSigner_eq_ok {authority : Option SigningAuthority} (h : p.selfSigned = false) :
    chooseSigner p signer = .ok authority ↔
      ∃ s, signer = some s ∧ s.certificate.fields.isAuthority = true ∧ authority = some s := by
  unfold chooseSigner
  rw [h, if_neg Bool.false_ne_true]
  cases signer with
  | none => simp
  | some s =>
    cases hs : s.certificate.fields.isAuthority with
    | false => simp [hs]
    | true => simp [hs, eq_comm (a := some s)]

theorem issuerFor_some_eq_ok {s : SigningAuthority} {issuer : Subject} :
    issuerFor p (some s) = .ok issuer ↔
      s.privateKey.publicKey = s.certificate.fields.publicKey ∧
        issuerOf s.certificate = .ok issuer := by
  rw [issuerFor]
  by_cases hkey : s.privateKey.publicKey = s.certificate.fields.publicKey <;> simp [hkey]

def signed (p : CertificateParameters) (authority : Option SigningAuthority) (issuer : Subject)
    (period : Time.Instant × Time.Instant) (id : FreshId) : CertificateValue where
  certificate := {
    fields := fields p issuer period.1 period.2 id
    source := .issued ((authority.map (·.privateKey.publicKey)).getD (.fresh id)) }
  privateKey := ⟨.fresh id⟩
  signerCertificate := authority.map (·.certificate)
  signerName := if p.selfSigned then none else p.signerName

theorem issue_eq_ok :
    issue p signer now id = .ok value ↔
      ∃ authority length period issuer, chooseSigner p signer = .ok authority ∧
        CertificateParameters.checkKeyLength p.keyLength = .ok length ∧
        validity now p.durationDays = .ok period ∧
        checkNames (p.alternativeNames.getD []) = .ok () ∧ issuerFor p authority = .ok issuer ∧
        value = signed p authority issuer period id := by
  unfold issue
  simp only [bind, pure, Except.pure, Except.bind_eq_ok, Except.ok.injEq]
  constructor
  · rintro ⟨authority, hauthority, length, hlength, period, hperiod, _, hnames, issuer, hissuer,
      rfl⟩
    exact ⟨authority, length, period, issuer, hauthority, hlength, hperiod, hnames, hissuer, rfl⟩
  · rintro ⟨authority, length, period, issuer, hauthority, hlength, hperiod, hnames, hissuer, rfl⟩
    exact ⟨authority, hauthority, length, hlength, period, hperiod, (), hnames, issuer, hissuer,
      rfl⟩

theorem signerName_of_issue (h : issue p signer now id = .ok value) :
    value.signerName = if p.selfSigned then none else p.signerName := by
  obtain ⟨authority, _, period, issuer, -, -, -, -, -, rfl⟩ := issue_eq_ok.1 h
  rfl

theorem selfSigned_of_issue (h : issue p signer now id = .ok value) :
    value.certificate.fields.selfSigned = p.selfSigned := by
  obtain ⟨authority, _, period, issuer, -, -, -, -, -, rfl⟩ := issue_eq_ok.1 h
  rfl

theorem chooseSigner_of_selfSigned {authority : Option SigningAuthority}
    (hself : p.selfSigned = true) (h : chooseSigner p signer = .ok authority) :
    authority = none := by
  unfold chooseSigner at h
  rw [if_pos hself] at h
  cases h
  rfl

theorem signerCertificate_of_selfSigned (h : issue p signer now id = .ok value)
    (hself : p.selfSigned = true) : value.signerCertificate = none := by
  obtain ⟨authority, _, period, issuer, hauthority, -, -, -, -, rfl⟩ := issue_eq_ok.1 h
  rw [chooseSigner_of_selfSigned hself hauthority]
  rfl

theorem authority_of_issue (h : issue p signer now id = .ok value) (hself : p.selfSigned = false) :
    ∃ s, signer = some s ∧ s.certificate.fields.isAuthority = true ∧
      s.privateKey.publicKey = s.certificate.fields.publicKey ∧
      value.signerCertificate = some s.certificate ∧
      value.certificate.isSignedBy s.certificate = true := by
  obtain ⟨authority, _, period, issuer, hauthority, -, -, -, hissuer, rfl⟩ := issue_eq_ok.1 h
  obtain ⟨s, hsigner, hisAuthority, rfl⟩ := (chooseSigner_eq_ok hself).1 hauthority
  obtain ⟨hkey, -⟩ := issuerFor_some_eq_ok.1 hissuer
  exact ⟨s, hsigner, hisAuthority, hkey, rfl, decide_eq_true hkey⟩

theorem signer_of_issue (h : issue p signer now id = .ok value) (hself : p.selfSigned = false) :
    ∃ s, signer = some s ∧ value.signerCertificate = some s.certificate ∧
      value.certificate.isSignedBy s.certificate = true := by
  obtain ⟨s, hsigner, -, -, hcertificate, hverifies⟩ := authority_of_issue h hself
  exact ⟨s, hsigner, hcertificate, hverifies⟩

end Issuance

namespace Issuer

/-- Issuers that issue nothing but what is issued here, though they may refuse to. -/
def IsStandard (issuer : Issuer) : Prop :=
  ∀ {p signer now id value}, issuer p signer now id = .ok value →
    Issuance.issue p signer now id = .ok value

theorem isStandard_issue : IsStandard Issuance.issue := fun h => h

theorem IsStandard.failingOn {issuer : Issuer} (h : issuer.IsStandard) (text : String) :
    (issuer.failingOn text).IsStandard := by
  intro p signer now id value hok
  unfold Issuer.failingOn at hok
  split at hok
  · cases hok
  · exact h hok

end Issuer

end Strongroom
