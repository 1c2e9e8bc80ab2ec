import Strongroom.Certificate.Parameters
import Strongroom.Proofs.Except

/-! What parameters are put together from: which parts of a request they come from when it is
accepted, and which parts of a further request replace theirs. Who signs is decided by two fields
together, in a way of its own each time. -/

namespace Strongroom

def CertificateRequest.namedSigner (r : CertificateRequest) : Option String :=
  r.signer.filter (· ≠ "")

theorem CertificateRequest.namedSigner_of_ne_empty {r : CertificateRequest}
    (h : r.signer ≠ some "") : r.namedSigner = r.signer := by
  cases hsigner : r.signer with
  | none => rw [namedSigner, hsigner, Option.filter_none]
  | some signer =>
    have hgiven : signer ≠ "" := fun heq => h (heq ▸ hsigner)
    rw [namedSigner, hsigner, Option.filter_some, if_pos (by simpa using hgiven)]

namespace CertificateParameters

variable {r : CertificateRequest} {defaults : CertificateDefaults} {p q : CertificateParameters}

theorem signing_eq (r : CertificateRequest) :
    signing r =
      if r.selfSign = some true ∧ r.namedSigner.isSome then
        .error (.validation .authorityAndSelfSign)
      else if r.selfSign = some true ∨ r.isAuthority = some true ∨ r.namedSigner.isSome then
        .ok (r.namedSigner.isNone, r.namedSigner)
      else .error (.validation .missingAuthority) := by
  unfold signing CertificateRequest.namedSigner
  generalize r.signer.filter (· ≠ "") = signer
  cases signer <;> by_cases hself : r.selfSign = some true <;>
    by_cases hauthority : r.isAuthority = some true <;> simp [hself, hauthority]

theorem signing_eq_ok {selfSigned : Bool} {signerName : Option String} :
    signing r = .ok (selfSigned, signerName) ↔
      ¬(r.selfSign = some true ∧ r.namedSigner.isSome) ∧
        (r.selfSign = some true ∨ r.isAuthority = some true ∨ r.namedSigner.isSome) ∧
        selfSigned = r.namedSigner.isNone ∧ signerName = r.namedSigner := by
  rw [signing_eq]
  split_ifs with hboth hsigned
  · simp [hboth]
  · simp only [Except.ok.injEq, Prod.mk.injEq]
    tauto
  · tauto

theorem signing_of_given {signer : String} (h : r.signer = some signer) (hgiven : signer ≠ "") :
    signing r =
      if r.selfSign = some true then .error (.validation .authorityAndSelfSign)
      else .ok (false, some signer) := by
  have hnamed : r.namedSigner = some signer :=
    (r.namedSigner_of_ne_empty (by simpa [h] using hgiven)).trans h
  rw [signing_eq, hnamed]
  simp

theorem overrideSigning_of_none (h : r.signer = none) (held : Bool × Option String) :
    overrideSigning r held = .ok (if r.selfSign = some true then (true, none) else held) := by
  rw [overrideSigning, h]
  cases r.selfSign with
  | none => rfl
  | some self => cases self <;> rfl

theorem overrideSigning_of_some {signer : String} (h : r.signer = some signer)
    (held : Bool × Option String) :
    overrideSigning r held =
      if r.selfSign = some true then .error (.validation .authorityAndSelfSign)
      else .ok (false, some signer) := by
  rw [overrideSigning, h]
  cases r.selfSign with
  | none => rfl
  | some self => cases self <;> rfl

structure Assembled (r : CertificateRequest) (defaults : CertificateDefaults)
    (p : CertificateParameters) : Prop where
  keyUsage : readGiven KeyUsage.ofTokens r.keyUsage = .ok p.keyUsage
  purposes : readGiven Purpose.ofTokens r.purposes = .ok p.purposes
  keyLength :
    checkKeyLength ((r.keyLength.map UInt32.toNat).getD defaults.keyLength) = .ok p.keyLength
  durationDays :
    checkDuration ((r.duration.map UInt32.toNat).getD defaults.durationDays) = .ok p.durationDays
  signing : signing r = .ok (p.selfSigned, p.signerName)
  named : namesSubject r = true
  isAuthority : p.isAuthority = r.isAuthority.getD false
  subject : p.subject = r.subject
  alternativeNames : p.alternativeNames = r.alternativeNames.map (·.map AlternativeName.classify)

theorem ofRequest_eq_ok : ofRequest r defaults = .ok p ↔ Assembled r defaults p := by
  simp only [ofRequest, bind, pure, Except.pure, Except.bind_eq_ok]
  constructor
  · rintro ⟨_, hkeyUsage, _, hpurposes, _, hlength, _, hdays, _, hsigning, h⟩
    split at h
    · rename_i hnamed
      cases h
      exact ⟨hkeyUsage, hpurposes, hlength, hdays, hsigning, hnamed, rfl, rfl, rfl⟩
    · cases h
  · intro h
    refine ⟨_, h.keyUsage, _, h.purposes, _, h.keyLength, _, h.durationDays, _, h.signing, ?_⟩
    rw [if_pos h.named, ← h.isAuthority, ← h.subject, ← h.alternativeNames]

/-- The parameters are `p` with what the request has to say in place of what they said. -/
structure Overridden (p : CertificateParameters) (r : CertificateRequest)
    (q : CertificateParameters) : Prop where
  keyUsage :
    overriding (fun ts => (KeyUsage.ofTokens ts).map some) r.keyUsage p.keyUsage = .ok q.keyUsage
  purposes :
    overriding (fun ts => (Purpose.ofTokens ts).map some) r.purposes p.purposes = .ok q.purposes
  keyLength : overriding (checkKeyLength ·.toNat) r.keyLength p.keyLength = .ok q.keyLength
  durationDays : overriding (checkDuration ·.toNat) r.duration p.durationDays = .ok q.durationDays
  signing : overrideSigning r (p.selfSigned, p.signerName) = .ok (q.selfSigned, q.signerName)
  isAuthority : q.isAuthority = r.isAuthority.getD p.isAuthority
  subject : q.subject = if r.subject.isEmpty then p.subject else r.subject
  alternativeNames : q.alternativeNames =
    (r.alternativeNames.map (·.map AlternativeName.classify)).or p.alternativeNames

theorem override_eq_ok : p.override r = .ok q ↔ Overridden p r q := by
  simp only [override, bind, pure, Except.pure, Except.bind_eq_ok]
  constructor
  · rintro ⟨_, hkeyUsage, _, hpurposes, _, hlength, _, hdays, _, hsigning, h⟩
    cases h
    exact ⟨hkeyUsage, hpurposes, hlength, hdays, hsigning, rfl, rfl, rfl⟩
  · intro h
    refine ⟨_, h.keyUsage, _, h.purposes, _, h.keyLength, _, h.durationDays, _, h.signing, ?_⟩
    rw [← h.isAuthority, ← h.subject, ← h.alternativeNames]

end CertificateParameters

end Strongroom
